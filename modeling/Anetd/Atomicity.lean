import Anetd.Callback
import Anetd.Threads

/-!
# A transfer as one step

`stepAtomic` is a program without threads to look into: a transfer that has
been started is done by one step, which is all of `connect`. Whatever else goes
on between the calls of `send` and the post, a program ends where such a program
ends, with the acts of the application in the same order (`transfers_atomic`).
-/

namespace Anetd

open Lib.Machine

/-- As many calls of `send` as a transfer can take. -/
def Engine.callsLeft (e : Engine) : Nat := (7 - e.redirtimes).toNat + 1

namespace Program

section
variable {R : Type} [ResponseClass R] (env : Environment) (net : Network)

/-- The whole of `connect` in one step. A transfer that is never over is never done. -/
def resumeAtomic (p : Program R) : Except Unit (Program R) :=
  match p.thread with
  | .sending =>
    match connect env net p.engine.callsLeft p.world with
    | some (.ok (), w) =>
      .ok { p.withWorld w with
        postbackio := p.postbackio ++ [p.response]
        thread := .returning }
    | some (.error (.threw x), w) => .ok { p.withWorld w with thread := .throwing x }
    | _ => .error ()
  | _ => p.resume env net

/-- `step` with transfers in one step. -/
def stepAtomic (p : Program R) : Act R → Except Unit (Program R)
  | .thread => p.resumeAtomic env net
  | a => p.step env net a

/-- How far a thread has come that was started in the world of `q`, and has
made a world `w` of it. -/
inductive Midway (q : Program R) (w : World R) : Thread → Prop where
  | sending {k : Nat} (followed : Followed env net k q.world w) : Midway q w .sending
  | posting {calls : Nat} (loop : sendLoop env net calls q.world = some (.ok (), w)) :
      Midway q w .posting
  | blocked : Midway q w .blocked
  | ended : Midway q w .ended

/-- The program while its thread is in a transfer. -/
def midway {R : Type} (q : Program R) (w : World R) (thread : Thread) : Program R :=
  { q.withWorld w with thread := thread }

/-- A program without threads that waits to do a transfer in which the other one is. -/
inductive Behind (q : Program R) : Program R → Prop where
  | level : Behind q q
  | within {w : World R} {thread : Thread} (waits : q.thread = .sending)
      (within : Midway env net q w thread) : Behind q (q.midway w thread)

end

section worlds
variable {R : Type} (p : Program R) (w v : World R)

theorem world_midway (thread : Thread) : (p.midway w thread).world = w := by
  simp [world, midway, withWorld]

theorem withWorld_midway (thread : Thread) :
    (p.midway w thread).withWorld v = { p.withWorld v with thread := thread } := by
  simp [midway, withWorld]

theorem midway_world : p.midway p.world p.thread = p := by
  simp [midway, withWorld, world]

theorem world_use {object : Nat} (h : object ≠ p.response) (r : R) :
    world { p with objects := Function.update p.objects object r } = p.world := by
  simp [world, Function.update_of_ne (Ne.symm h)]

/-- What the application does to another response does not matter to a transfer. -/
theorem use_midway {object : Nat} (h : object ≠ p.response) (thread : Thread) (f : R → R) :
    { p.midway w thread with
      objects := Function.update (p.midway w thread).objects object
        (f ((p.midway w thread).objects object)) } =
      midway { p with objects := Function.update p.objects object (f (p.objects object)) } w
        thread := by
  simp only [midway, withWorld, Function.update_of_ne h]
  rw [Function.update_comm h]

end worlds

section runs
variable {R : Type} [ResponseClass R] {env : Environment} {net : Network}

theorem sendLoop_callsLeft (w : World R) :
    ∃ x, sendLoop env net w.engine.callsLeft w = some x := by
  by_cases hbound : w.engine.redirtimes ≤ 6
  · apply sendLoop_ends hbound
    simp only [Engine.callsLeft]
    omega
  · apply sendLoop_ends_of
    intro v hsend
    have hlow := (send_counted hsend).1
    omega

/-- A loop that ends at all ends so within the calls that are left. -/
theorem sendLoop_callsLeft_of {calls : Nat} {w : World R} {x : Except Stop Unit × World R}
    (h : sendLoop env net calls w = some x) : sendLoop env net w.engine.callsLeft w = some x := by
  obtain ⟨y, hy⟩ : ∃ y, sendLoop env net w.engine.callsLeft w = some y := sendLoop_callsLeft w
  have hmore := sendLoop_more h w.engine.callsLeft
  rw [Nat.add_comm, sendLoop_more hy calls] at hmore
  rw [hy, hmore]

/-- One more redirect, at the end. -/
theorem followed_snoc {k : Nat} {w v v' : World R} (h : Followed env net k w v)
    (hsend : send env (net v.trace) v = (.ok true, v')) : Followed env net (k + 1) w v' := by
  induction h with
  | none w => exact .more hsend (.none v')
  | more h rest ih => exact .more h (ih hsend)

variable {p p' q : Program R}

theorem Midway.not_idle {w : World R} {thread : Thread} (h : Midway env net q w thread) :
    thread ≠ .none := by
  cases h <;> simp

/-- The world of the thread is all it needs of where it was started. -/
theorem Midway.of_world {w : World R} {thread : Thread} (h : Midway env net q w thread)
    (hworld : p.world = q.world) : Midway env net p w thread := by
  cases h with
  | sending followed => exact .sending (hworld ▸ followed)
  | posting loop => exact .posting (hworld ▸ loop)
  | blocked => exact .blocked
  | ended => exact .ended

/-- A call of `send` that ends the loop with an exception ends the transfer. -/
theorem resumeAtomic_throws (hwaits : q.thread = .sending) {k : Nat} {w v : World R} {x : Exn}
    (followed : Followed env net k q.world w)
    (hsend : send env (net w.trace) w = (.error (.threw x), v)) :
    q.resumeAtomic env net = .ok (q.midway v (.throwing x)) := by
  have hloop : sendLoop env net (k + 1) q.world = some (.error (.threw x), v) := by
    rw [sendLoop_followed followed, sendLoop, hsend]
  have hconnect : connect env net q.engine.callsLeft q.world = some (.error (.threw x), v) := by
    rw [connect, show q.engine = q.world.engine from rfl, sendLoop_callsLeft_of hloop]
    rfl
  simp only [resumeAtomic, hwaits, hconnect, midway]

/-- So does the post. -/
theorem resumeAtomic_posts (hwaits : q.thread = .sending) {calls : Nat} {w : World R}
    (loop : sendLoop env net calls q.world = some (.ok (), w)) :
    q.resumeAtomic env net = .ok (q.midway w .posting).post := by
  have hconnect : connect env net q.engine.callsLeft q.world =
      some (.ok (), { w with trace := w.trace ++ [.callback] }) := by
    rw [connect, show q.engine = q.world.engine from rfl, sendLoop_callsLeft_of loop]
    rfl
  simp only [resumeAtomic, hwaits, hconnect]
  rfl

/-- **The steps of the thread** are silent but the one that ends the transfer
or posts its callback. -/
theorem Midway.resume (hwaits : q.thread = .sending) {w : World R} {thread : Thread}
    (h : Midway env net q w thread) (hp : (q.midway w thread).resume env net = .ok p') :
    Behind env net q p' ∨ ∃ q', q.resumeAtomic env net = .ok q' ∧ Behind env net q' p' := by
  cases h with
  | blocked => cases hp
  | ended => cases hp
  | posting loop =>
    refine .inr ⟨(q.midway w .posting).post, resumeAtomic_posts hwaits loop, ?_⟩
    cases hp
    exact .level
  | @sending k followed =>
    rcases resume_cases hp with ⟨-, result, v, hsend, hresult⟩ | ⟨hthread, -⟩ | ⟨hthread, -⟩ |
      ⟨x, hthread, -⟩
    · rw [world_midway] at hsend
      have hsend : send env (net w.trace) w = (result, v) := hsend
      rw [withWorld_midway] at hresult
      rcases hresult with ⟨rfl, rfl⟩ | ⟨rfl, rfl⟩ | ⟨stop, rfl, rfl⟩
      · exact .inl (.within hwaits (.sending (followed_snoc followed hsend)))
      · have hloop : sendLoop env net (k + 1) q.world = some (.ok (), v) := by
          rw [sendLoop_followed followed, sendLoop, hsend]
        exact .inl (.within hwaits (.posting hloop))
      · cases stop with
        | threw x => exact .inr ⟨_, resumeAtomic_throws hwaits followed hsend, .level⟩
        | blocked => exact .inl (.within hwaits .blocked)
        | terminated | undefined => exact .inl (.within hwaits .ended)
    · cases hthread
    · cases hthread
    · cases hthread

theorem Behind.resume (h : Behind env net q p) (hp : p.resume env net = .ok p') :
    Behind env net q p' ∨ ∃ q', q.resumeAtomic env net = .ok q' ∧ Behind env net q' p' := by
  cases h with
  | within waits within => exact within.resume waits hp
  | level =>
    by_cases hwaits : p.thread = .sending
    · have hstart : Midway env net p p.world .sending := .sending (.none p.world)
      apply hstart.resume hwaits
      rw [← hwaits, midway_world]
      exact hp
    · refine .inr ⟨p', ?_, .level⟩
      rw [← hp, resumeAtomic]
      split
      · contradiction
      · rfl

/-- **What the application and the `io_service` do in the middle of a transfer**
they can do before it. -/
theorem Midway.act (hwaits : q.thread = .sending) {w : World R} {thread : Thread}
    (h : Midway env net q w thread) {a : Act R} (ha : a.isThread = false)
    (hp : (q.midway w thread).step env net a = .ok p') :
    ∃ q', q.stepAtomic env net a = .ok q' ∧ Behind env net q' p' := by
  have hgoing : q.thread ≠ .ended := by simp [hwaits]
  cases a with
  | thread => cases ha
  | setProxyAuth username password => exact absurd (allow_eq_ok.mp hp).1 h.not_idle
  | reset d => exact absurd (allow_eq_ok.mp hp).1 h.not_idle
  | starttransfer myresponse => exact absurd (allow_eq_ok.mp hp).1 h.not_idle
  | setCallback func =>
    obtain ⟨-, rfl⟩ := allow_eq_ok.mp hp
    exact ⟨_, allow_eq_ok.mpr ⟨hgoing, rfl⟩, .within hwaits (h.of_world rfl)⟩
  | use object f =>
    obtain ⟨hmay, rfl⟩ := allow_eq_ok.mp hp
    obtain ⟨-, hother⟩ := hmay.resolve_left h.not_idle
    refine ⟨_, allow_eq_ok.mpr ⟨.inr ⟨hgoing, hother⟩, rfl⟩, ?_⟩
    rw [use_midway q w hother]
    exact .within hwaits (h.of_world (world_use q hother _))
  | callback =>
    obtain ⟨-, res, rest, hposted, rfl⟩ := callback_cases hp
    have hposted : q.postbackio = res :: rest := hposted
    refine ⟨q.callback res rest, ?_, .within hwaits (h.of_world rfl)⟩
    simp only [stepAtomic, step, hposted]
    exact allow_eq_ok.mpr ⟨hgoing, rfl⟩

/-- One act. -/
theorem Behind.step (h : Behind env net q p) {a : Act R} (hp : p.step env net a = .ok p') :
    (a.isThread = true ∧ Behind env net q p') ∨
      ∃ q', q.stepAtomic env net a = .ok q' ∧ Behind env net q' p' := by
  cases ha : a.isThread with
  | true =>
    cases a with
    | thread => exact (h.resume hp).imp_left fun hsilent => ⟨rfl, hsilent⟩
    | _ => cases ha
  | false =>
    right
    cases h with
    | within waits within => exact within.act waits ha hp
    | level =>
      refine ⟨p', ?_, .level⟩
      cases a with
      | thread => cases ha
      | _ => exact hp

/-- **Transfers are atomic.** For every run there is one in which each transfer
is one step, and the others are taken in the same order. It ends in the same
state, or it is yet to do the transfer in the middle of which the first one is. -/
theorem transfers_atomic {acts : List (Act R)} (h : run (step env net) p acts = .ok p') :
    ∃ atomic q, atomic.Sublist acts ∧
      (atomic.filter fun a => !a.isThread) = (acts.filter fun a => !a.isThread) ∧
      run (stepAtomic env net) p atomic = .ok q ∧ Behind env net q p' ∧
      (p'.thread = .none → q = p') := by
  obtain ⟨atomic, q, hsub, hsame, hrun, hbehind⟩ :=
    run_behind (S := Behind env net) (fun q p a p' hqp hp => hqp.step hp) .level h
  refine ⟨atomic, q, hsub, hsame, hrun, hbehind, ?_⟩
  intro hidle
  cases hbehind with
  | level => rfl
  | within waits within => exact absurd hidle within.not_idle

theorem transfers_atomic_refused :
    ∃ p atomic, run (step ⟨[], []⟩ refusing) fresh refusedActs = .ok p ∧
      run (stepAtomic ⟨[], []⟩ refusing) fresh atomic = .ok p := by
  obtain ⟨p, hrun, hidle⟩ := refused_runs
  obtain ⟨atomic, q, -, -, hatomic, -, hends⟩ := transfers_atomic hrun
  rw [hends hidle] at hatomic
  exact ⟨p, atomic, hrun, hatomic⟩

end runs

end Program

end Anetd
