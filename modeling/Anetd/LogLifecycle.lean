import Anetd.LogClass

/-!
# The life of a logger

`Destroy` deletes the implementation and leaves the pointer to it, so that the
next `Create` takes it for one that is installed, and the next
`SetLoggingClass` deletes it again. The four phases of a log say where it
stands; each call moves between them (`run_inPhase`). The log is used within
the life of its implementations just as long as nothing is created or
installed behind a logger that has been destroyed (`lifecycle_iff`).
-/

namespace Anetd

open Lib Lib.Machine Lib.Objects

/-! ## Phases -/

/-- Not used yet, in use, destroyed, and created again after that. -/
inductive Phase where
  | unused
  | active
  | retired
  | revived

namespace Phase

def create : Phase → Phase
  | unused | active => active
  | retired | revived => revived

def destroy : Phase → Except Unit Phase
  | unused => .ok unused
  | active | retired => .ok retired
  | revived => .error ()

def setLoggingClass : Phase → Except Unit Phase
  | unused => .ok unused
  | active => .ok active
  | retired | revived => .error ()

def callImpl : Phase → Except Unit Phase
  | unused => .ok unused
  | active => .ok active
  | retired => .ok retired
  | revived => .error ()

/-- What a call makes of a phase, unless it uses what has been deleted. -/
def step (p : Phase) : LogCall → Except Unit Phase
  | .create .. => .ok p.create
  | .destroy => p.destroy
  | .setLoggingClass => p.setLoggingClass
  | .setLoggingState _ => .ok p
  | .setLogFileName _ | .write .. => p.callImpl

/-- How far a log has come. -/
def rank : Phase → Nat
  | unused => 0
  | active => 1
  | retired => 2
  | revived => 3

end Phase

namespace Log

/-- The pointer leads to a living implementation. -/
def Live (s : Log) : Prop := ∃ i impl, s.mPImpl = some i ∧ s.impls.Holds i impl

/-- The pointer leads to a deleted one. -/
def Dangles (s : Log) : Prop := ∃ i, s.mPImpl = some i ∧ s.impls.Deleted i

/-- A message that is written now is passed to a living implementation. -/
def Reaches (s : Log) : Prop := s.sInstance = true ∧ s.Live

def InPhase (s : Log) : Phase → Prop
  | .unused => s.sInstance = false ∧ (s.mPImpl = none ∨ s.Live)
  | .active => s.Reaches
  | .retired => s.sInstance = false ∧ s.Dangles
  | .revived => s.sInstance = true ∧ s.Dangles

variable {s : Log} {p : Phase}

theorem Live.not_dangles (h : s.Live) : ¬ s.Dangles := by
  obtain ⟨i, impl, hpoints, hlive⟩ := h
  rintro ⟨j, hpoints', hdead⟩
  obtain rfl := Option.some.inj (hpoints.symm.trans hpoints')
  exact hlive.not_deleted hdead

theorem create_inPhase (h : s.InPhase p) (filename : Bytes) (bConsoleOutput : Bool)
    (saveLevel : LogLevel) : (s.create filename bConsoleOutput saveLevel).InPhase p.create := by
  cases p with
  | unused =>
    obtain ⟨hclosed, hnull | ⟨i, impl, hpoints, hlive⟩⟩ := h
    · obtain ⟨i, impls, hcreate, hlive⟩ :=
        create_null filename bConsoleOutput saveLevel hclosed hnull
      rw [hcreate]
      exact ⟨rfl, i, _, rfl, hlive⟩
    · rw [create_installed _ _ _ hclosed hpoints]
      exact ⟨rfl, i, impl, hpoints, hlive⟩
  | retired =>
    obtain ⟨hclosed, i, hpoints, hdead⟩ := h
    rw [create_installed _ _ _ hclosed hpoints]
    exact ⟨rfl, i, hpoints, hdead⟩
  | active | revived =>
    rw [create_open _ _ _ h.1]
    exact h

/-- The pointer stays when the object behind it is deleted. -/
theorem Live.destruct (h : s.Live) : ∃ impls, s.destruct = .ok { s with impls := impls } ∧
    Dangles { s with impls := impls } := by
  obtain ⟨i, impl, hpoints, hlive⟩ := h
  obtain ⟨impls, hdelete, hdead, -⟩ := deleteImpl_live hpoints hlive
  exact ⟨impls, hdelete, i, hpoints, hdead⟩

theorem destroy_inPhase (h : s.InPhase p) :
    Related (fun _ _ => True) InPhase s.destroy p.destroy := by
  cases p with
  | unused =>
    rw [destroy, if_neg (Bool.eq_false_iff.mp h.1)]
    exact h
  | active =>
    obtain ⟨hopen, hlive⟩ := h
    obtain ⟨impls, hdestruct, hdangles⟩ := hlive.destruct
    rw [destroy, if_pos hopen, hdestruct]
    exact ⟨rfl, hdangles⟩
  | retired =>
    rw [destroy, if_neg (Bool.eq_false_iff.mp h.1)]
    exact h
  | revived =>
    obtain ⟨hopen, i, hpoints, hdead⟩ := h
    rw [destroy, if_pos hopen, destruct, deleteImpl_dead hpoints hdead]
    trivial

theorem callImpl_inPhase (h : s.InPhase p) (call : ILogImpl → Bytes) :
    Related (fun _ _ => True) InPhase (s.callImpl call) p.callImpl := by
  cases p with
  | unused =>
    rw [callImpl_closed call h.1]
    exact h
  | active =>
    obtain ⟨hopen, i, impl, hpoints, hlive⟩ := h
    rw [callImpl_live call hopen hpoints hlive]
    exact ⟨hopen, i, impl, hpoints, hlive⟩
  | retired =>
    rw [callImpl_closed call h.1]
    exact h
  | revived =>
    obtain ⟨hopen, i, hpoints, hdead⟩ := h
    rw [callImpl_dead call hopen hpoints hdead]
    trivial

/-- The state in which `SetLoggingClass` gets its object. -/
def withClass (s : Log) : Log := { s with impls := (s.impls.new .application).2 }

theorem run_setLoggingClass (s : Log) : LogCall.setLoggingClass.run s =
    s.withClass.deleteImpl.map fun t => { t with mPImpl := some (s.impls.new .application).1 } := by
  change Except.map _ (Except.map _ s.withClass.deleteImpl) = _
  cases s.withClass.deleteImpl <;> rfl

/-- A class takes the place of none, or of a living one, which is deleted. -/
theorem install_live (h : s.mPImpl = none ∨ s.Live) : ∃ s', LogCall.setLoggingClass.run s = .ok s' ∧
    s'.sInstance = s.sInstance ∧ s'.Live := by
  have hrun := run_setLoggingClass s
  rcases h with hnull | ⟨i, impl, hpoints, hlive⟩
  · rw [deleteImpl_null (s := s.withClass) hnull] at hrun
    exact ⟨_, hrun, rfl, _, _, rfl, holds_new⟩
  · obtain ⟨impls, hdelete, -, hothers⟩ := deleteImpl_live (s := s.withClass) hpoints hlive.new
    rw [hdelete] at hrun
    exact ⟨_, hrun, rfl, _, _, rfl, hothers _ .application hlive.ne_new.symm holds_new⟩

theorem install_dead (h : s.Dangles) : ∃ x, LogCall.setLoggingClass.run s = .error x := by
  obtain ⟨i, hpoints, hdead⟩ := h
  have hrun := run_setLoggingClass s
  rw [deleteImpl_dead (s := s.withClass) hpoints hdead.new] at hrun
  exact ⟨⟨i⟩, hrun⟩

theorem setLoggingClass_inPhase (h : s.InPhase p) :
    Related (fun _ _ => True) InPhase (LogCall.setLoggingClass.run s) p.setLoggingClass := by
  cases p with
  | unused =>
    obtain ⟨s', hrun, hsame, hlive⟩ := install_live h.2
    rw [hrun]
    exact ⟨hsame.trans h.1, .inr hlive⟩
  | active =>
    obtain ⟨s', hrun, hsame, hlive⟩ := install_live (.inr h.2)
    rw [hrun]
    exact ⟨hsame.trans h.1, hlive⟩
  | retired | revived =>
    obtain ⟨x, hrun⟩ := install_dead h.2
    rw [hrun]
    trivial

/-- **A log and its phase take every call together**, and fail together. -/
theorem run_inPhase (h : s.InPhase p) (call : LogCall) :
    Related (fun _ _ => True) InPhase (call.run s) (p.step call) := by
  cases call with
  | create filename bConsoleOutput saveLevel =>
    exact create_inPhase h filename bConsoleOutput saveLevel
  | destroy => exact destroy_inPhase h
  | setLoggingClass => exact setLoggingClass_inPhase h
  | setLoggingState saveLevel => cases p <;> exact h
  | setLogFileName filename => exact callImpl_inPhase h _
  | write tm level message => exact callImpl_inPhase h _

end Log

/-! ## What has been called -/

def LogCall.isCreate : LogCall → Bool
  | .create .. => true
  | _ => false

/-- The calls that are to bring in an implementation. -/
def LogCall.installs : LogCall → Bool
  | .create .. | .setLoggingClass => true
  | _ => false

def Created (calls : List LogCall) : Prop := ∃ call ∈ calls, call.isCreate = true

/-- A logger has been created and destroyed. -/
def Destroyed (calls : List LogCall) : Prop :=
  ∃ before after, calls = before ++ .destroy :: after ∧ Created before

/-- Behind a logger that has been destroyed nothing is created or installed. -/
def StaysDestroyed (calls : List LogCall) : Prop :=
  ∀ before call after, calls = before ++ call :: after → Destroyed before → call.installs = false

theorem Created.append {calls : List LogCall} (h : Created calls) (later : List LogCall) :
    Created (calls ++ later) := by
  obtain ⟨call, hcall, hcreate⟩ := h
  exact ⟨call, List.mem_append_left later hcall, hcreate⟩

theorem Destroyed.append {calls : List LogCall} (h : Destroyed calls) (later : List LogCall) :
    Destroyed (calls ++ later) := by
  obtain ⟨before, after, rfl, hcreated⟩ := h
  exact ⟨before, after ++ later, List.append_assoc .., hcreated⟩

theorem StaysDestroyed.of_append {calls later : List LogCall}
    (h : StaysDestroyed (calls ++ later)) : StaysDestroyed calls := by
  rintro before call after rfl
  exact h before call (after ++ later) (List.append_assoc ..)

namespace Phase

/-- What has been called where a log is in a phase and has done nothing wrong. -/
def Follows (calls : List LogCall) : Phase → Prop
  | unused => True
  | active => Created calls
  | retired => Destroyed calls
  | revived => False

theorem step_follows {p : Phase} {calls : List LogCall} (h : p.Follows calls) {call : LogCall}
    (hcall : Destroyed calls → call.installs = false) :
    ∃ p', p.step call = .ok p' ∧ p'.Follows (calls ++ [call]) := by
  cases p with
  | unused =>
    cases call with
    | create => exact ⟨active, rfl, _, List.mem_append_right calls List.mem_cons_self, rfl⟩
    | destroy | setLoggingClass | setLoggingState | setLogFileName | write =>
      exact ⟨unused, rfl, trivial⟩
  | active =>
    have hcreated : Created calls := h
    cases call with
    | destroy => exact ⟨retired, rfl, calls, [], rfl, hcreated⟩
    | create | setLoggingClass | setLoggingState | setLogFileName | write =>
      exact ⟨active, rfl, hcreated.append _⟩
  | retired =>
    have hdestroyed : Destroyed calls := h
    cases call with
    | create | setLoggingClass => cases hcall hdestroyed
    | destroy | setLoggingState | setLogFileName | write =>
      exact ⟨retired, rfl, hdestroyed.append _⟩
  | revived => exact h.elim

/-- **Calls that let a destroyed logger rest** never revive it. -/
theorem run_follows {calls : List LogCall} (h : StaysDestroyed calls) :
    ∃ p, run step unused calls = .ok p ∧ p.Follows calls := by
  induction calls using List.reverseRecOn with
  | nil => exact ⟨unused, rfl, trivial⟩
  | append_singleton calls call ih =>
    obtain ⟨p, hrun, hp⟩ := ih h.of_append
    obtain ⟨p', hstep, hp'⟩ := step_follows hp (h calls call [] rfl)
    refine ⟨p', ?_, hp'⟩
    rw [run_append_ok hrun, run_singleton, hstep]

/-- A logger they create is in use. -/
theorem create_active {calls : List LogCall} {create : LogCall} (hcreate : create.isCreate = true)
    (h : StaysDestroyed (calls ++ [create])) :
    run step unused (calls ++ [create]) = .ok active := by
  obtain ⟨p, hrun, hp⟩ := run_follows h
  obtain ⟨q, -, hstep⟩ := run_append_eq_ok hrun
  rw [run_singleton] at hstep
  cases create with
  | create =>
    obtain rfl := Except.ok.inj hstep
    cases q with
    | unused | active => exact hrun
    | retired | revived => exact hp.elim
  | destroy | setLoggingClass | setLoggingState | setLogFileName | write => cases hcreate

/-! A log never goes back to an earlier phase. -/

theorem step_rank (p : Phase) (call : LogCall) :
    Both (fun _ => True) (fun p' => p.rank ≤ p'.rank) (p.step call) := by
  cases p <;> cases call <;> simp [step, create, destroy, setLoggingClass, callImpl, Both, rank]

theorem step_le {n : Nat} (p : Phase) (call : LogCall) (h : n ≤ p.rank) :
    Both (fun _ => True) (fun p' => n ≤ p'.rank) (p.step call) :=
  (step_rank p call).imp (fun _ h => h) fun _ => Nat.le_trans h

theorem run_created {calls : List LogCall} (h : Created calls) :
    Both (fun _ => True) (fun p => 1 ≤ p.rank) (run step unused calls) := by
  obtain ⟨call, hcall, hcreate⟩ := h
  obtain ⟨before, after, rfl⟩ := List.append_of_mem hcall
  apply run_both_through (J := fun p => 0 ≤ p.rank)
  · exact run_both step_le (Nat.zero_le 0) before
  · intro p _
    cases call with
    | create => cases p <;> simp [step, create, Both, rank]
    | destroy | setLoggingClass | setLoggingState | setLogFileName | write => cases hcreate
  · exact step_le

theorem run_destroyed {calls : List LogCall} (h : Destroyed calls) :
    Both (fun _ => True) (fun p => 2 ≤ p.rank) (run step unused calls) := by
  obtain ⟨before, after, rfl, hcreated⟩ := h
  apply run_both_through (run_created hcreated)
  · intro p hp
    cases p with
    | unused => cases hp
    | active | retired | revived => simp [step, destroy, Both, rank]
  · exact step_le

/-- Behind a destroyed logger nothing comes back: it is revived, or fails. -/
theorem step_spent {p : Phase} (h : 2 ≤ p.rank) {call : LogCall} (hcall : call.installs = true) :
    p.step call = if call.isCreate then .ok revived else .error () := by
  cases p with
  | unused | active => simp [rank] at h
  | retired | revived =>
    cases call with
    | create | setLoggingClass => rfl
    | destroy | setLoggingState | setLogFileName | write => cases hcall

end Phase

/-! ## The whole life -/

/-- Every call and every delete through the pointer is of a living object, and a
logger that is created after one has been destroyed can be written to. -/
structure Lifecycle (calls : List LogCall) : Prop where
  live : ∃ s, run LogCall.run .initial calls = .ok s
  restored : ∀ before between create after,
    calls = before ++ .destroy :: between ++ create :: after → create.isCreate = true →
    ∃ s, run LogCall.run .initial (before ++ .destroy :: between ++ [create]) = .ok s ∧ s.Reaches

theorem runs_inPhase (calls : List LogCall) : Related (fun _ _ => True) Log.InPhase
    (run LogCall.run .initial calls) (run Phase.step .unused calls) := by
  have hinitial : Log.initial.InPhase .unused := ⟨rfl, .inl rfl⟩
  exact run_related (fun _ _ call h => Log.run_inPhase h call) hinitial calls

theorem lifecycle_of_stays {calls : List LogCall} (h : StaysDestroyed calls) : Lifecycle calls := by
  constructor
  · obtain ⟨p, hphase, -⟩ := Phase.run_follows h
    have hruns := runs_inPhase calls
    rw [hphase] at hruns
    obtain ⟨s, hrun, -⟩ := hruns.to_ok
    exact ⟨s, hrun⟩
  · rintro before between create after rfl hcreate
    rw [List.append_cons] at h
    have hruns := runs_inPhase (before ++ .destroy :: between ++ [create])
    rw [Phase.create_active hcreate h.of_append] at hruns
    exact hruns.to_ok

theorem stays_of_lifecycle {calls : List LogCall} (h : Lifecycle calls) : StaysDestroyed calls := by
  rintro before call after rfl hdestroyed
  obtain ⟨s, hs⟩ := h.live
  rw [List.append_cons] at hs
  obtain ⟨t, ht, -⟩ := run_append_eq_ok hs
  have hruns := runs_inPhase (before ++ [call])
  rw [ht] at hruns
  obtain ⟨p', hphase, hin⟩ := hruns.of_ok
  obtain ⟨p, hp, hstep⟩ := run_append_eq_ok hphase
  have hrank := Phase.run_destroyed hdestroyed
  rw [hp] at hrank
  cases hinstalls : call.installs with
  | false => rfl
  | true =>
    rw [run_singleton, Phase.step_spent hrank hinstalls] at hstep
    split at hstep
    · -- a logger is created again, over the pointer to what was deleted
      rename_i hcreate
      obtain rfl := Except.ok.inj hstep
      obtain ⟨early, late, rfl, -⟩ := hdestroyed
      obtain ⟨t', ht', -, hlive⟩ := h.restored early late call after rfl hcreate
      obtain rfl := Except.ok.inj (ht.symm.trans ht')
      exact (hlive.not_dangles hin.2).elim
    · cases hstep

/-- **When the log is used within the life of its implementations**: while nothing
is created or installed behind a logger that has been destroyed. -/
theorem lifecycle_iff (calls : List LogCall) : Lifecycle calls ↔ StaysDestroyed calls :=
  ⟨stays_of_lifecycle, lifecycle_of_stays⟩

/-- The first moment of the year 2012. -/
def newYear : Moment := ⟨112, 0, 1, 0, 0, 0, 0⟩

def created : LogCall := .create [] true .debug

/-- A message behind the second `Create` goes to the implementation that was
deleted; a class that is installed there deletes it twice. -/
theorem revived_not_lifecycle :
    run LogCall.run .initial [created, .destroy, created, .write newYear .fatal (str "x")] =
        .error ⟨0⟩ ∧
      run LogCall.run .initial [created, .destroy, .setLoggingClass] = .error ⟨0⟩ ∧
      ¬ Lifecycle [created, .destroy, created, .write newYear .fatal (str "x")] := by
  have hrun : run LogCall.run .initial
      [created, .destroy, created, .write newYear .fatal (str "x")] = .error ⟨0⟩ := by decide
  refine ⟨hrun, by decide, fun h => ?_⟩
  obtain ⟨s, hs⟩ := h.live
  cases hrun.symm.trans hs

end Anetd
