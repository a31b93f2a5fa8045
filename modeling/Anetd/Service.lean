import Anetd.Threads

/-!
# Engines that share an io_service

The `io_service` belongs to the application. Several engines may post to it, and
the application may, too; it hands out what was posted in one order. A program
with several engines is a `Service`: their threads go on independently of each
other, and each engine sees no more of the others than that the process can end.
So what one of them goes through is what it could go through alone
(`engines_alone`), and all that holds of one engine in every run holds of each.
-/

namespace Anetd

open Lib.Machine

/-- What is posted: a `callback` of an engine, bound to a response, or anything
of the application. -/
inductive Handler where
  | callback (engine response : Nat)
  | application
  deriving DecidableEq

/-- The responses of one engine's callbacks. -/
def Handler.bound (i : Nat) : Handler → Option Nat
  | callback engine response => if engine = i then some response else none
  | application => none

/-- Engines with responses of their own, one `io_service`, and whether the
process is over. -/
structure Service (R : Type) where
  engines : Nat → Program R
  handlers : List Handler
  ended : Bool

namespace Service

/-- What is done to an engine, by the application or by its thread; a post of
the application; and the handler that is next. -/
inductive Act (R : Type) where
  | engine (i : Nat) (act : Anetd.Act R)
  | post
  | handle

section
variable {R : Type}

/-- The start, with no transfer. -/
def new (objects : Nat → Nat → R) (response : Nat → Nat) : Service R :=
  ⟨fun i => .new (objects i) (response i), [], false⟩

/-- An engine with its callbacks. -/
def view (s : Service R) (i : Nat) : Program R :=
  { s.engines i with postbackio := s.handlers.filterMap (Handler.bound i) }

variable [ResponseClass R] (env : Environment) (nets : Nat → Network)

/-- One step. An engine has no queue: what it posts goes to the service. -/
def step (s : Service R) : Act R → Except Unit (Service R)
  | .engine i act =>
    if s.ended then .error ()
    else
      match Program.step env (nets i) { s.engines i with postbackio := [] } act with
      | .error _ => .error ()
      | .ok p => .ok {
          engines := Function.update s.engines i p
          handlers := s.handlers ++ p.postbackio.map (Handler.callback i)
          ended := p.thread = .ended }
  | .post => if s.ended then .error () else .ok { s with handlers := s.handlers ++ [.application] }
  | .handle =>
    if s.ended then .error ()
    else
      match s.handlers with
      | [] => .error ()
      | .application :: rest => .ok { s with handlers := rest }
      | .callback i response :: rest => .ok { s with
          engines := Function.update s.engines i ((s.engines i).callback response [])
          handlers := rest }

/-- What one engine sees of a step. -/
def part (i : Nat) (s : Service R) : Act R → List (Anetd.Act R)
  | .engine j act => if j = i then [act] else []
  | .post => []
  | .handle => if (s.handlers.head?.bind (Handler.bound i)).isSome then [.callback] else []

/-- The process goes on as long as no thread has ended it. -/
def Going (s : Service R) : Prop := s.ended = false → ∀ i, (s.engines i).thread ≠ .ended

end

end Service

namespace Program
variable {R : Type} [ResponseClass R] {env : Environment} {net : Network}

/-- With callbacks that have been posted before. -/
def withPosted (before : List Nat) (p : Program R) : Program R :=
  { p with postbackio := before ++ p.postbackio }

/-- A thread goes on alike whatever has been posted, and posts behind it. -/
theorem resume_posted (p : Program R) (before : List Nat) :
    resume env net (p.withPosted before) = (resume env net p).map (withPosted before) := by
  rcases p with ⟨engine, response, status, func, waiting, thread, objects, trace, handled⟩
  cases thread with
  | sending =>
    simp only [resume, withPosted, world]
    rcases send env (net trace) ⟨engine, objects response, trace⟩ with ⟨_ | again, w⟩
    · rfl
    · cases again <;> rfl
  | posting => simp only [resume, withPosted, post, Except.map, List.append_assoc]
  | returning | throwing x | none | blocked | ended => rfl

/-- So does every step but that of a handler. -/
theorem step_posted {p q : Program R} {a : Act R}
    (h : step env net { p with postbackio := [] } a = .ok q) (before : List Nat) :
    step env net { p with postbackio := before } a = .ok (q.withPosted before) := by
  have hbefore : ({ p with postbackio := before } : Program R) =
      withPosted before { p with postbackio := [] } := by
    simp [withPosted]
  rw [hbefore]
  cases a with
  | thread => exact (resume_posted _ before).trans (congrArg (Except.map (withPosted before)) h)
  | callback => cases h
  | setCallback func | setProxyAuth username password | reset d | use object f
    | starttransfer myresponse =>
    obtain ⟨hallowed, rfl⟩ := allow_eq_ok.mp h
    exact allow_eq_ok.mpr ⟨hallowed, rfl⟩

end Program

namespace Service
variable {R : Type} [ResponseClass R] {env : Environment} {nets : Nat → Network}
variable {s t : Service R}

theorem bound_own (i : Nat) (posted : List Nat) :
    (posted.map (Handler.callback i)).filterMap (Handler.bound i) = posted := by
  simp [List.filterMap_map, Function.comp_def, Handler.bound]

theorem bound_other {i j : Nat} (h : j ≠ i) (posted : List Nat) :
    (posted.map (Handler.callback j)).filterMap (Handler.bound i) = [] := by
  simp [List.filterMap_map, Function.comp_def, Handler.bound, h]

/-- **What can be done to a service.** -/
theorem step_cases {a : Act R} (h : step env nets s a = .ok t) : s.ended = false ∧
    ((∃ i act p, a = .engine i act ∧
      Program.step env (nets i) { s.engines i with postbackio := [] } act = .ok p ∧
      t = ⟨Function.update s.engines i p, s.handlers ++ p.postbackio.map (Handler.callback i),
        p.thread = .ended⟩) ∨
    (a = .post ∧ t = { s with handlers := s.handlers ++ [.application] }) ∨
    (a = .handle ∧ ∃ rest, s.handlers = .application :: rest ∧ t = { s with handlers := rest }) ∨
    (a = .handle ∧ ∃ i response rest, s.handlers = .callback i response :: rest ∧
      t = { s with
        engines := Function.update s.engines i ((s.engines i).callback response [])
        handlers := rest })) := by
  have hended : s.ended = false := by
    cases hended : s.ended with
    | false => rfl
    | true => cases a <;> simp only [step, hended, if_true] at h <;> cases h
  refine ⟨hended, ?_⟩
  have hgoes : ¬ s.ended = true := by simp [hended]
  cases a with
  | engine i act =>
    simp only [step, if_neg hgoes] at h
    split at h
    · cases h
    · rename_i p hp
      exact .inl ⟨i, act, p, rfl, hp, (Except.ok.inj h).symm⟩
  | post =>
    simp only [step, if_neg hgoes] at h
    exact .inr (.inl ⟨rfl, (Except.ok.inj h).symm⟩)
  | handle =>
    simp only [step, if_neg hgoes] at h
    split at h
    · cases h
    · rename_i rest hnext
      exact .inr (.inr (.inl ⟨rfl, rest, hnext, (Except.ok.inj h).symm⟩))
    · rename_i i response rest hnext
      exact .inr (.inr (.inr ⟨rfl, i, response, rest, hnext, (Except.ok.inj h).symm⟩))

theorem step_going {a : Act R} (hgoing : s.Going) (h : step env nets s a = .ok t) : t.Going := by
  obtain ⟨hended, ⟨i, act, p, rfl, -, rfl⟩ | ⟨rfl, rfl⟩ | ⟨rfl, rest, -, rfl⟩ |
    ⟨rfl, i, response, rest, -, rfl⟩⟩ := step_cases h
  · intro hgoes j
    by_cases hj : j = i
    · subst hj
      simpa using hgoes
    · simpa [hj] using hgoing hended j
  · exact hgoing
  · exact hgoing
  · intro hgoes j
    by_cases hj : j = i
    · subst hj
      simpa [Program.callback] using hgoing hended j
    · simpa [hj] using hgoing hended j

/-- An engine sees its own steps, and those of handlers that are its callbacks. -/
theorem step_part {a : Act R} (hgoing : s.Going) (h : step env nets s a = .ok t) (i : Nat) :
    run (Program.step env (nets i)) (s.view i) (part i s a) = .ok (t.view i) := by
  obtain ⟨hended, ⟨j, act, p, rfl, hp, rfl⟩ | ⟨rfl, rfl⟩ | ⟨rfl, rest, hnext, rfl⟩ |
    ⟨rfl, j, response, rest, hnext, rfl⟩⟩ := step_cases h
  · by_cases hj : j = i
    · subst hj
      have hown := Program.step_posted hp (s.handlers.filterMap (Handler.bound j))
      simp only [part, if_true, run_singleton, view, hown, List.filterMap_append, bound_own,
        Function.update_self]
      rfl
    · simp only [part, hj, if_false, run_nil, view, List.filterMap_append, bound_other hj,
        List.append_nil, Function.update_of_ne (Ne.symm hj)]
  · have hnone : Handler.bound i .application = none := rfl
    simp [part, view, hnone]
  · have hnone : Handler.bound i .application = none := rfl
    simp [part, view, hnext, hnone]
  · by_cases hj : j = i
    · subst hj
      have hsome : Handler.bound j (.callback j response) = some response := if_pos rfl
      simp only [part, view, hnext, List.head?_cons, Option.bind_some, hsome, Option.isSome_some,
        if_true, run_singleton, List.filterMap_cons, Function.update_self]
      exact Program.allow_eq_ok.mpr ⟨hgoing hended j, rfl⟩
    · have hnone : Handler.bound i (.callback j response) = none := if_neg hj
      simp [part, view, hnext, hnone, Ne.symm hj]

/-- **Each engine runs as if it were alone**: what it sees of a run of all of them
is a run of its own, with its callbacks in the order in which it posted them. -/
theorem engines_alone {acts : List (Act R)} (hgoing : s.Going)
    (h : run (step env nets) s acts = .ok t) (i : Nat) :
    run (Program.step env (nets i)) (s.view i) (shown (step env nets) (part i) s acts) =
      .ok (t.view i) := by
  have hstep (u : Service R) (a : Act R) (v : Service R) (hu : u.Going)
      (hv : step env nets u a = .ok v) : v.Going ∧
        run (Program.step env (nets i)) (u.view i) (part i u a) = .ok (v.view i) :=
    ⟨step_going hu hv, step_part hu hv i⟩
  exact run_part (v := fun u : Service R => u.view i) hstep hgoing h

/-! ## Two transfers at once -/

/-- The second engine is the first to have an answer, and the last to post. -/
def twoActs : List (Act HttpResponse) :=
  [.engine 0 (.use 1 fun r => r.setURL loopUrl), .engine 1 (.use 1 fun r => r.setURL loopUrl),
    .engine 0 (.setCallback (some 7)), .engine 1 (.setCallback (some 8)),
    .engine 0 (.starttransfer 1), .engine 1 (.starttransfer 1), .engine 1 .thread,
    .engine 0 .thread, .engine 0 .thread, .post, .engine 1 .thread, .handle, .engine 0 .thread,
    .handle, .handle, .engine 1 .thread]

theorem engines_alone_two : ∃ t,
    run (step ⟨[], []⟩ fun _ => Program.refusing) (new (fun _ _ => .new) fun _ => 0) twoActs =
      .ok t ∧
    (t.engines 0).handled = [(some 7, 1)] ∧ (t.engines 1).handled = [(some 8, 1)] ∧
    ∀ i, run (Program.step ⟨[], []⟩ Program.refusing) Program.fresh
      (shown (step ⟨[], []⟩ fun _ => Program.refusing) (part i) (new (fun _ _ => .new) fun _ => 0)
        twoActs) = .ok (t.view i) := by
  have hends : (run (step ⟨[], []⟩ fun _ => Program.refusing)
      (new (fun _ _ => HttpResponse.new) fun _ => 0) twoActs).toOption.map
        (fun t => ((t.engines 0).handled, (t.engines 1).handled)) =
      some ([(some 7, 1)], [(some 8, 1)]) := by
    decide +kernel
  cases hrun : run (step ⟨[], []⟩ fun _ => Program.refusing)
      (new (fun _ _ => HttpResponse.new) fun _ => 0) twoActs with
  | error x =>
    rw [hrun] at hends
    cases hends
  | ok t =>
    rw [hrun] at hends
    obtain ⟨hfirst, hsecond⟩ := Prod.mk.inj (Option.some.inj hends)
    exact ⟨t, rfl, hfirst, hsecond, engines_alone (fun _ _ h => by cases h) hrun⟩

end Service

end Anetd
