import Anetd.Threads

/-!
# One budget for all transfers

Redirects are counted by the engine and not by the transfer, and only `reset`
starts a new count. So what bounds the redirects of one transfer bounds those of
all transfers together that are started without a `reset` between them
(`redirects_budgeted`). The count, which is an `int`, grows by one with a hop at
most.
-/

namespace Anetd

open Lib.Machine

section counts
variable {R : Type} [ResponseClass R]

/-- No way out of the parser takes a redirect back, or counts two. -/
theorem Leaves.counted {d : Disconnection} {e : Engine} {x : Exit R} (h : Leaves d e x) :
    e.redirtimes ≤ x.engine.redirtimes ∧ x.engine.redirtimes ≤ e.redirtimes + 1 := by
  have hcounted : (e.counted.disconnect d).1.redirtimes = e.redirtimes + 1 := by
    rw [Engine.disconnect_fields]
    rfl
  have hredirected (url : Bytes) :
      ((e.redirected url).disconnect d).1.redirtimes = e.redirtimes + 1 := by
    rw [Engine.disconnect_fields]
    rfl
  cases h with
  | badLexicalCast r =>
    change e.redirtimes ≤ e.redirtimes ∧ e.redirtimes ≤ e.redirtimes + 1
    omega
  | refused f hf =>
    change e.redirtimes ≤ f.engine.redirtimes ∧ f.engine.redirtimes ≤ e.redirtimes + 1
    rw [hf]
    omega
  | redirected f hf =>
    subst hf
    have honce : (redirect d f).engine.redirtimes = f.engine.redirtimes + 1 := by
      rcases redirect_cases d f with
        ⟨-, ⟨-, h⟩ | ⟨se, h⟩⟩ | ⟨-, url, h | ⟨se, h⟩⟩ | ⟨-, h⟩ <;> rw [h]
      · exact hcounted
      · exact hcounted
      · exact hredirected url
      · exact hredirected url
      · rfl
    omega

theorem send_redirtimes (env : Environment) (hop : Hop) (w : World R) :
    w.engine.redirtimes ≤ (send env hop w).2.engine.redirtimes ∧
      (send env hop w).2.engine.redirtimes ≤ w.engine.redirtimes + 1 := by
  have hdialed (e : Engine) : (dialed hop e).redirtimes = e.redirtimes := by rw [dialed_fields]
  have hsame (n : Int) : n ≤ n ∧ n ≤ n + 1 := ⟨Int.le_refl n, Int.le_add_one (Int.le_refl n)⟩
  rcases send_cases env hop w with ⟨-, hsend⟩ |
    ⟨p, hp, ⟨stop, -, hsend⟩ | ⟨-, ⟨ec, -, hsend⟩ | ⟨-, hsend⟩⟩⟩
  · rw [hsend]
    exact hsame _
  · rw [hsend, ← prepare_redirtimes hp, ← hdialed p.engine]
    exact hsame _
  · rw [hsend, ← prepare_redirtimes hp, ← hdialed p.engine]
    exact hsame _
  · rw [hsend, ← prepare_redirtimes hp, ← hdialed p.engine]
    rcases receiveLoop_exits hop.disconnection (hop.reads p.request) hop.buffer
      (.start (dialed hop p.engine)
        (update (fun b => b.setContentLength p.engine.body.length) p.response)) with
      hleaves | ⟨hengine, -⟩
    · exact hleaves.counted
    · have hcount := congrArg Engine.redirtimes hengine
      exact ⟨Int.le_of_eq hcount.symm, Int.le_add_one (Int.le_of_eq hcount)⟩

end counts

def Act.isReset {R : Type} : Act R → Bool
  | reset _ => true
  | _ => false

namespace Program

section budget
variable {R : Type}

/-- What has been spent of a budget is counted, and none of it comes back. -/
structure Spends (start : Int) (p : Program R) (urls : List Bytes) : Prop where
  counted : start + urls.length ≤ p.engine.redirtimes
  within : urls = [] ∨ start + urls.length ≤ 6

variable {start : Int} {p q : Program R} {urls : List Bytes}

theorem Spends.later (h : p.Spends start urls)
    (hlater : p.engine.redirtimes ≤ q.engine.redirtimes) : q.Spends start urls :=
  ⟨Int.le_trans h.counted hlater, h.within⟩

variable [ResponseClass R]

/-- Where a step of a thread is sent on to. -/
def sentOn (env : Environment) (net : Network) (p : Program R) : Act R → List Bytes
  | .thread =>
    if p.thread = .sending then
      match send env (net p.trace) p.world with
      | (.ok true, w) => [(base w.response).url]
      | _ => []
    else []
  | _ => []

variable {env : Environment} {net : Network}

/-- A redirect that is followed is one of six. -/
theorem Spends.resume (h : p.Spends start urls) (hq : p.resume env net = .ok q) :
    q.Spends start (urls ++ sentOn env net p .thread) := by
  rcases resume_cases hq with ⟨hthread, result, w, hsend, hresult⟩ | ⟨hthread, rfl⟩ |
    ⟨hthread, rfl⟩ | ⟨x, hthread, rfl⟩
  · have hlater : p.engine.redirtimes ≤ w.engine.redirtimes := by
      have hsent := (send_redirtimes env (net p.trace) p.world).1
      rwa [hsend] at hsent
    simp only [sentOn, hthread, if_true, hsend]
    rcases hresult with ⟨rfl, rfl⟩ | ⟨rfl, rfl⟩ | ⟨stop, rfl, rfl⟩
    · obtain ⟨hlimit, hcount⟩ := send_counted hsend
      have hlimit : p.engine.redirtimes ≤ 5 := hlimit
      have hcount : w.engine.redirtimes = p.engine.redirtimes + 1 := hcount
      have hcounted := h.counted
      constructor
      · simp only [withWorld, List.length_append, List.length_singleton]
        omega
      · right
        simp only [List.length_append, List.length_singleton]
        omega
    · rw [List.append_nil]
      exact h.later hlater
    · rw [List.append_nil]
      exact h.later hlater
  · simp only [sentOn, hthread, reduceCtorEq, if_false, List.append_nil]
    exact h.later (Int.le_refl _)
  · simp only [sentOn, hthread, reduceCtorEq, if_false, List.append_nil]
    exact h.later (Int.le_refl _)
  · simp only [sentOn, hthread, reduceCtorEq, if_false, List.append_nil]
    exact h.later (Int.le_refl _)

theorem Spends.step (h : p.Spends start urls) {a : Act R} (hreset : a.isReset = false)
    (hq : p.step env net a = .ok q) : q.Spends start (urls ++ sentOn env net p a) := by
  cases a with
  | thread => exact h.resume hq
  | reset d => cases hreset
  | setCallback func | setProxyAuth username password | use object f
    | starttransfer myresponse =>
    obtain ⟨-, rfl⟩ := allow_eq_ok.mp hq
    change Spends start _ (urls ++ [])
    rw [List.append_nil]
    exact h.later (Int.le_refl _)
  | callback =>
    obtain ⟨-, res, rest, -, rfl⟩ := callback_cases hq
    change Spends start _ (urls ++ [])
    rw [List.append_nil]
    exact h.later (Int.le_refl _)

/-- A step of a thread is a hop at most. -/
theorem step_redirtimes {a : Act R} (hreset : a.isReset = false) (hq : p.step env net a = .ok q) :
    q.engine.redirtimes ≤ p.engine.redirtimes + [a].countP Act.isThread := by
  cases a with
  | thread =>
    change q.engine.redirtimes ≤ p.engine.redirtimes + 1
    rcases resume_cases hq with ⟨-, result, w, hsend, hresult⟩ | ⟨-, rfl⟩ | ⟨-, rfl⟩ | ⟨x, -, rfl⟩
    · have honce := (send_redirtimes env (net p.trace) p.world).2
      rw [hsend] at honce
      rcases hresult with ⟨rfl, rfl⟩ | ⟨rfl, rfl⟩ | ⟨stop, rfl, rfl⟩ <;> exact honce
    · exact Int.le_add_one (Int.le_refl _)
    · exact Int.le_add_one (Int.le_refl _)
    · exact Int.le_add_one (Int.le_refl _)
  | reset d => cases hreset
  | setCallback func | setProxyAuth username password | use object f
    | starttransfer myresponse =>
    obtain ⟨-, rfl⟩ := allow_eq_ok.mp hq
    exact Int.le_add_of_nonneg_right (Int.natCast_nonneg _)
  | callback =>
    obtain ⟨-, res, rest, -, rfl⟩ := callback_cases hq
    exact Int.le_add_of_nonneg_right (Int.natCast_nonneg _)

theorem run_redirtimes {acts : List (Act R)} (h : run (step env net) p acts = .ok q)
    (hreset : ∀ a ∈ acts, a.isReset = false) :
    q.engine.redirtimes ≤ p.engine.redirtimes + acts.countP Act.isThread := by
  induction acts using List.reverseRecOn generalizing q with
  | nil =>
    cases h
    exact Int.le_add_of_nonneg_right (Int.natCast_nonneg _)
  | append_singleton acts a ih =>
    obtain ⟨u, hu, ha⟩ := run_append_eq_ok h
    rw [run_singleton] at ha
    obtain ⟨hacts, ha'⟩ := List.forall_mem_append.mp hreset
    have hbefore := ih hu hacts
    have hlast := step_redirtimes (ha' a List.mem_cons_self) ha
    rw [List.countP_append, Nat.cast_add]
    omega

/-- **One budget for all transfers.** As long as there is no `reset`, all that are
started together are sent on as often as the count leaves of six, whatever else
is done between their steps. The count stays an `int` for all the hops that an
`int` can count. -/
theorem redirects_budgeted {acts : List (Act R)} (h : run (step env net) p acts = .ok q)
    (hreset : ∀ a ∈ acts, a.isReset = false) :
    (shown (step env net) (sentOn env net) p acts).length ≤ (6 - p.engine.redirtimes).toNat ∧
      q.engine.redirtimes ≤ p.engine.redirtimes + acts.countP Act.isThread := by
  refine ⟨?_, run_redirtimes h hreset⟩
  have hspends : q.Spends p.engine.redirtimes
      ([] ++ shown (step env net) (sentOn env net) p acts) :=
    run_shown (I := Spends p.engine.redirtimes) (fun a ha _ _ _ hs hq => hs.step (hreset a ha) hq)
      ⟨by simp, .inl rfl⟩ h
  rw [List.nil_append] at hspends
  rcases hspends.within with hnone | hwithin
  · rw [hnone]
    exact Nat.zero_le _
  · omega

end budget

/-! ## A loop of redirects, twice -/

/-- Every URL sends the reader to the same one. -/
def looping : Network := fun _ => loopHop ⟨none, none⟩

/-- The first transfer is sent on six times, the second one not at all. -/
def loopActs : List (Act HttpResponse) :=
  .starttransfer 0 :: (List.replicate 9 .thread ++ [.starttransfer 1, .thread, .callback])

def loopProgram : Program HttpResponse := new (fun _ => HttpResponse.new.setURL loopUrl) 0

theorem redirects_budgeted_loop :
    (∃ q, run (step ⟨[], []⟩ looping) loopProgram loopActs = .ok q) ∧
      shown (step ⟨[], []⟩ looping) (sentOn ⟨[], []⟩ looping) loopProgram loopActs =
        List.replicate 6 loopUrl ∧
      (shown (step ⟨[], []⟩ looping) (sentOn ⟨[], []⟩ looping) loopProgram loopActs).length ≤
        6 := by
  have hends : (run (step ⟨[], []⟩ looping) loopProgram loopActs).toOption.isSome = true := by
    decide +kernel
  cases hrun : run (step ⟨[], []⟩ looping) loopProgram loopActs with
  | error x =>
    rw [hrun] at hends
    cases hends
  | ok q =>
    exact ⟨⟨q, rfl⟩, by decide +kernel, (redirects_budgeted hrun (by decide)).1⟩

end Program

end Anetd
