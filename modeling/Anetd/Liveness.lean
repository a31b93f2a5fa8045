import Anetd.Atomicity

/-!
# Transfers come to an end

In an infinite run in which neither the thread nor the `io_service` is left out
for good, a transfer that has been started gets its future ready and its
callback run (`transfer_completes`). On hops where all else that is asked of the
network gets an answer, and no server sends without end, it can only be kept
from that by a read that is never answered, or by the end of the program.
-/

namespace Anetd

open Lib.Machine

namespace Program

section thread
variable {R : Type} [ResponseClass R] {env : Environment} {net : Network} {p q : Program R}

/-- The thread has something to do. -/
def Busy (p : Program R) : Prop :=
  p.thread ≠ .none ∧ p.thread ≠ .blocked ∧ p.thread ≠ .ended

/-- How many steps the thread has before it, at most. -/
def stepsLeft (p : Program R) : Nat :=
  match p.thread with
  | .sending => p.engine.callsLeft + 2
  | .posting => 2
  | .returning | .throwing _ => 1
  | .none | .blocked | .ended => 0

theorem Busy.resumes (h : p.Busy) : ∃ q, p.resume env net = .ok q := by
  obtain ⟨hrunning, hanswered, hgoing⟩ := h
  unfold resume
  split
  · rcases send env (net p.trace) p.world with ⟨stop | again, w⟩
    · exact ⟨_, rfl⟩
    · cases again <;> exact ⟨_, rfl⟩
  · exact ⟨_, rfl⟩
  · exact ⟨_, rfl⟩
  · exact ⟨_, rfl⟩
  · contradiction
  · contradiction
  · contradiction

/-- A transfer for `response` is under way. Its callback is posted last before
it returns. -/
structure Transferring (response : Nat) (p : Program R) : Prop where
  busy : p.Busy
  serves : p.response = response
  posted : p.thread = .returning → (p.handled.map Prod.snd ++ p.postbackio).getLast? = some response

/-- How a transfer can be over: with an exception, or with a response and a
callback that is posted. -/
def Reported (response : Nat) (p : Program R) : Prop :=
  (∃ x, p.status = .exception x) ∨ (p.status = .value response ∧
    (p.handled.map Prod.snd ++ p.postbackio).getLast? = some response)

/-- A read is not answered, or the program is at its end. -/
def Stuck (p : Program R) : Prop := p.thread = .blocked ∨ p.thread = .ended

/-- The thread is done with the transfer, one way or the other. -/
def Done (response : Nat) (p : Program R) : Prop :=
  p.Stuck ∨ (p.thread = .none ∧ p.getCompletion = true ∧ p.Reported response)

variable {response : Nat}

/-- **A step of the thread brings the transfer closer to its end.** -/
theorem Transferring.resume (h : p.Transferring response) (hq : p.resume env net = .ok q) :
    q.Done response ∨ (q.Transferring response ∧ q.stepsLeft < p.stepsLeft) := by
  obtain ⟨-, hresponse, hposted⟩ := h
  rcases resume_cases hq with ⟨hthread, result, w, hsend, hresult⟩ | ⟨hthread, rfl⟩ |
    ⟨hthread, rfl⟩ | ⟨x, hthread, rfl⟩
  · rcases hresult with ⟨rfl, rfl⟩ | ⟨-, rfl⟩ | ⟨stop, -, rfl⟩
    · -- a redirect has been followed, and counted
      obtain ⟨hlow, hcount⟩ := send_counted hsend
      have hlow : p.engine.redirtimes ≤ 5 := hlow
      have hcount : w.engine.redirtimes = p.engine.redirtimes + 1 := hcount
      refine .inr ⟨⟨?_, hresponse, ?_⟩, ?_⟩
      · simp [Busy, withWorld, hthread]
      · simp [withWorld, hthread]
      · simp only [stepsLeft, withWorld, hthread, Engine.callsLeft]
        omega
    · refine .inr ⟨⟨by simp [Busy], hresponse, by simp⟩, ?_⟩
      simp only [stepsLeft, hthread, Engine.callsLeft]
      omega
    · cases stop with
      | threw x =>
        refine .inr ⟨⟨by simp [Busy, Thread.stopped], hresponse, by simp [Thread.stopped]⟩, ?_⟩
        simp only [stepsLeft, Thread.stopped, hthread, Engine.callsLeft]
        omega
      | blocked => exact .inl (.inl (.inl rfl))
      | terminated | undefined => exact .inl (.inl (.inr rfl))
  · refine .inr ⟨⟨by simp [Busy, post], hresponse, fun _ => ?_⟩, ?_⟩
    · simp [post, hresponse]
    · simp [stepsLeft, post, hthread]
  · refine .inl (.inr ⟨rfl, rfl, .inr ⟨?_, hposted hthread⟩⟩)
    rw [← hresponse]
    rfl
  · exact .inl (.inr ⟨rfl, rfl, .inl ⟨x, rfl⟩⟩)

/-- Nothing else takes it further away. -/
theorem Transferring.step (h : p.Transferring response) {a : Act R}
    (hq : p.step env net a = .ok q) :
    q.Done response ∨ (q.Transferring response ∧ q.stepsLeft ≤ p.stepsLeft) := by
  cases a with
  | thread => exact (h.resume hq).imp_right fun hless => ⟨hless.1, Nat.le_of_lt hless.2⟩
  | setProxyAuth username password => exact absurd (allow_eq_ok.mp hq).1 h.busy.1
  | reset d => exact absurd (allow_eq_ok.mp hq).1 h.busy.1
  | starttransfer myresponse => exact absurd (allow_eq_ok.mp hq).1 h.busy.1
  | setCallback func | use object f =>
    obtain ⟨-, rfl⟩ := allow_eq_ok.mp hq
    exact .inr ⟨⟨h.busy, h.serves, h.posted⟩, Nat.le_refl _⟩
  | callback =>
    obtain ⟨-, res, rest, hposted, rfl⟩ := callback_cases hq
    refine .inr ⟨⟨h.busy, h.serves, fun hreturning => ?_⟩, Nat.le_refl _⟩
    have hlast := h.posted hreturning
    rw [hposted] at hlast
    simpa [callback] using hlast

/-- **The thread of a transfer gets done.** -/
theorem thread_done {r : Behaviour (step env net)} (hfair : r.Fair (.thread : Act R)) {t : Nat}
    (ht : (r.state t).Transferring response) : ∃ u, t ≤ u ∧ (r.state u).Done response :=
  r.leads (I := Transferring response) (D := Done response) stepsLeft hfair
    (fun _ h => h.busy.resumes) (fun _ _ _ h hc => h.step hc) (fun _ _ h hc => h.resume hc) ht

end thread

section callbacks
variable {R : Type} [ResponseClass R] {env : Environment} {net : Network} {p q : Program R}

/-- Callbacks run in the order in which they are posted, whatever is done. -/
theorem posted_grows {a : Act R} (hq : p.step env net a = .ok q) :
    p.handled.map Prod.snd ++ p.postbackio <+: q.handled.map Prod.snd ++ q.postbackio := by
  cases a with
  | setCallback func | setProxyAuth username password | reset d | use object f
    | starttransfer myresponse =>
    obtain ⟨-, rfl⟩ := allow_eq_ok.mp hq
    exact List.prefix_rfl
  | callback =>
    obtain ⟨-, res, rest, hposted, rfl⟩ := callback_cases hq
    rw [hposted]
    simp [callback]
  | thread =>
    rcases resume_cases hq with ⟨-, result, w, -, ⟨-, rfl⟩ | ⟨-, rfl⟩ | ⟨stop, -, rfl⟩⟩ | ⟨-, rfl⟩ |
      ⟨-, rfl⟩ | ⟨x, -, rfl⟩
    · exact List.prefix_rfl
    · exact List.prefix_rfl
    · exact List.prefix_rfl
    · simp [post, ← List.append_assoc]
    · exact List.prefix_rfl
    · exact List.prefix_rfl

/-- The callback with number `n` is posted and has not run. -/
structure Waiting (n : Nat) (p : Program R) : Prop where
  going : p.thread ≠ .ended
  notYet : p.handled.length ≤ n
  posted : n < p.handled.length + p.postbackio.length

/-- It has run, or the program is at its end. -/
def Ran (n : Nat) (p : Program R) : Prop := p.thread = .ended ∨ n < p.handled.length

variable {n : Nat}

theorem Waiting.enabled (h : p.Waiting n) : ∃ q, p.step env net .callback = .ok q := by
  cases hposted : p.postbackio with
  | nil =>
    have hless := h.posted
    have hnot := h.notYet
    simp only [hposted, List.length_nil] at hless
    omega
  | cons res rest =>
    refine ⟨p.callback res rest, ?_⟩
    simp only [step, hposted]
    exact allow_eq_ok.mpr ⟨h.going, rfl⟩

/-- **One callback less before it.** -/
theorem Waiting.callback (h : p.Waiting n) (hq : p.step env net .callback = .ok q) :
    q.Ran n ∨ (q.Waiting n ∧ n - q.handled.length + 1 < n - p.handled.length + 1) := by
  obtain ⟨-, res, rest, hposted, rfl⟩ := callback_cases hq
  obtain ⟨hgoing, hnot, hless⟩ := h
  have hlength : (p.callback res rest).handled.length = p.handled.length + 1 := by
    simp [Program.callback]
  by_cases hruns : n < p.handled.length + 1
  · exact .inl (.inr (by omega))
  · refine .inr ⟨⟨hgoing, by omega, ?_⟩, by omega⟩
    rw [hposted, List.length_cons] at hless
    rw [hlength]
    simp only [Program.callback]
    omega

theorem Waiting.step (h : p.Waiting n) {a : Act R} (hq : p.step env net a = .ok q) :
    q.Ran n ∨ (q.Waiting n ∧ n - q.handled.length + 1 ≤ n - p.handled.length + 1) := by
  have hsame (hhandled : q.handled = p.handled) : q.Ran n ∨
      (q.Waiting n ∧ n - q.handled.length + 1 ≤ n - p.handled.length + 1) := by
    by_cases hended : q.thread = .ended
    · exact .inl (.inl hended)
    · have hlength := (posted_grows hq).length_le
      simp only [List.length_append, List.length_map] at hlength
      have hnot := h.notYet
      have hless := h.posted
      rw [hhandled] at hlength ⊢
      refine .inr ⟨⟨hended, ?_, ?_⟩, Nat.le_refl _⟩
      · rw [hhandled]
        exact hnot
      · rw [hhandled]
        omega
  cases a with
  | callback => exact (h.callback hq).imp_right fun hless => ⟨hless.1, Nat.le_of_lt hless.2⟩
  | setCallback func | setProxyAuth username password | reset d | use object f
    | starttransfer myresponse =>
    have hq' := (allow_eq_ok.mp hq).2
    subst hq'
    exact hsame rfl
  | thread =>
    apply hsame
    rcases resume_cases hq with ⟨-, result, w, -, ⟨-, rfl⟩ | ⟨-, rfl⟩ | ⟨stop, -, rfl⟩⟩ | ⟨-, rfl⟩ |
      ⟨-, rfl⟩ | ⟨x, -, rfl⟩ <;> rfl

/-- **A callback that is posted runs.** -/
theorem callback_runs {r : Behaviour (step env net)} (hfair : r.Fair (.callback : Act R)) {t : Nat}
    (ht : n < (r.state t).handled.length + (r.state t).postbackio.length) :
    ∃ u, t ≤ u ∧ (r.state u).Ran n := by
  by_cases hran : (r.state t).Ran n
  · exact ⟨t, Nat.le_refl t, hran⟩
  · obtain ⟨hgoing, hnot⟩ := not_or.mp hran
    have hwaiting : (r.state t).Waiting n := ⟨hgoing, by omega, ht⟩
    exact r.leads (I := Waiting n) (D := Ran n) (fun p => n - p.handled.length + 1) hfair
      (fun _ h => h.enabled) (fun _ _ _ h hc => h.step hc) (fun _ _ h hc => h.callback hc) hwaiting

/-- All callbacks that are posted run. -/
theorem posted_run {r : Behaviour (step env net)} (hfair : r.Fair (.callback : Act R)) (t : Nat) :
    ∃ u, t ≤ u ∧ ((r.state u).thread = .ended ∨
      (r.state t).handled.map Prod.snd ++ (r.state t).postbackio <+:
        (r.state u).handled.map Prod.snd) := by
  generalize hposted : (r.state t).handled.map Prod.snd ++ (r.state t).postbackio = posted
  have hlength : posted.length = (r.state t).handled.length + (r.state t).postbackio.length := by
    simp [← hposted]
  cases hlast : posted.length with
  | zero =>
    obtain rfl := List.length_eq_zero_iff.mp hlast
    exact ⟨t, Nat.le_refl t, .inr List.nil_prefix⟩
  | succ n =>
    obtain ⟨u, htu, hended | hran⟩ := callback_runs (n := n) hfair (t := t) (by omega)
    · exact ⟨u, htu, .inl hended⟩
    · refine ⟨u, htu, .inr ?_⟩
      have hkept : posted <+: (r.state u).handled.map Prod.snd ++ (r.state u).postbackio :=
        r.invariant (I := fun p => posted <+: p.handled.map Prod.snd ++ p.postbackio)
          (fun _ _ _ h hq => h.trans (posted_grows hq)) htu (hposted ▸ List.prefix_rfl)
      apply List.prefix_of_prefix_length_le hkept (List.prefix_append _ _)
      rw [List.length_map]
      omega

/-- **A transfer that is started comes to its end**, in every run that is fair to
the thread and to the `io_service`: its future gets ready, and if that is with a
value, its callback has been posted, behind all others, and all of them run. Only
a read that is never answered can keep it, or the end of the program; other calls
on the network return, and every stream of reads ends, by what a `Hop` is. -/
theorem transfer_completes {r : Behaviour (step env net)} (hthread : r.Fair (.thread : Act R))
    (hcallback : r.Fair (.callback : Act R)) {t : Nat} (hstart : (r.state t).thread = .sending) :
    ∃ u, t ≤ u ∧ ((r.state u).Stuck ∨
      ((r.state u).getCompletion = true ∧ (r.state u).Reported (r.state t).response ∧
        ∃ v, u ≤ v ∧ ((r.state v).thread = .ended ∨
          (r.state u).handled.map Prod.snd ++ (r.state u).postbackio <+:
            (r.state v).handled.map Prod.snd))) := by
  have hbegun : (r.state t).Transferring (r.state t).response :=
    ⟨by simp [Busy, hstart], rfl, by simp [hstart]⟩
  obtain ⟨u, htu, hdone⟩ := thread_done hthread hbegun
  refine ⟨u, htu, hdone.imp_right fun hreported => ⟨hreported.2.1, hreported.2.2, ?_⟩⟩
  exact posted_run hcallback u

end callbacks

/-! ## The transfer that is refused -/

theorem refused_ends :
    (run (step ⟨[], []⟩ refusing) fresh refusedActs).toOption.map Program.postbackio = some [] ∧
      (run (step ⟨[], []⟩ refusing) fresh (refusedActs.take 3)).toOption.map Program.thread =
        some .sending := by
  constructor <;> decide +kernel

/-- With nothing left to do it is fair to do nothing. -/
theorem transfer_completes_refused :
    ∃ r : Behaviour (step (R := HttpResponse) ⟨[], []⟩ refusing), (r.state 3).thread = .sending ∧
      ∃ u, 3 ≤ u ∧ ((r.state u).Stuck ∨
        ((r.state u).getCompletion = true ∧ (r.state u).Reported (r.state 3).response ∧
          ∃ v, u ≤ v ∧ ((r.state v).thread = .ended ∨
            (r.state u).handled.map Prod.snd ++ (r.state u).postbackio <+:
              (r.state v).handled.map Prod.snd))) := by
  obtain ⟨p, hrun, hidle⟩ := refused_runs
  obtain ⟨hempty, hsending⟩ := refused_ends
  have hempty : p.postbackio = [] := by
    rw [hrun] at hempty
    exact Option.some.inj hempty
  have hstart : ((Behaviour.finite hrun).state 3).thread = .sending := by
    simp only [Behaviour.finite]
    cases htake : run (step ⟨[], []⟩ refusing) fresh (refusedActs.take 3) with
    | error x =>
      rw [htake] at hsending
      cases hsending
    | ok q =>
      rw [htake] at hsending
      exact Option.some.inj hsending
  refine ⟨Behaviour.finite hrun, hstart, transfer_completes ?_ ?_ hstart⟩
  · apply Behaviour.finite_fair
    intro q hq
    simp [step, resume, hidle] at hq
  · apply Behaviour.finite_fair
    intro q hq
    simp [step, hempty] at hq

end Program

end Anetd
