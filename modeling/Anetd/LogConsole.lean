import Anetd.LogLifecycle

/-!
# The log without its pointers

A log is meant to be a console that is open or not and a writer, which is the
first that was brought in or the one installed last. As long as nothing that has
been deleted is used, the log with its pointer and its objects is just that
(`log_refines_console`): it prints the same, and there is never a second
implementation that is alive.
-/

namespace Anetd

open Lib Lib.Machine Lib.Objects

/-- Whether there is a logger, who writes for it, and what has been printed. -/
structure Console where
  isOpen : Bool
  writer : Option ILogImpl
  printed : Bytes
  deriving DecidableEq

namespace Console

def initial : Console := ⟨false, none, []⟩

/-- What a call of the writer prints is lost while there is no logger. -/
def print (c : Console) (call : ILogImpl → Bytes) : Console :=
  if c.isOpen then { c with printed := c.printed ++ (c.writer.map call).getD [] } else c

/-- A logger is opened once, with a writer of its own if there is none; a writer
that is installed takes over. -/
def step (c : Console) : LogCall → Console
  | .create filename bConsoleOutput saveLevel =>
    if c.isOpen then c
    else { c with
      isOpen := true
      writer := c.writer.or (some (.logImpl (.new filename bConsoleOutput saveLevel))) }
  | .destroy => { c with isOpen := false }
  | .setLoggingClass => { c with writer := some .application }
  | .setLoggingState _ => c
  | .setLogFileName filename => c.print fun writer => writer.setLogFileName filename
  | .write tm level message => c.print fun writer => writer.write tm level message

end Console

namespace Log

/-- The pointer leads to the writer, or to where it was before it was deleted. -/
def Points (s : Log) (writer : Option ILogImpl) : Prop :=
  match s.mPImpl with
  | none => writer = none
  | some i => ∃ impl, writer = some impl ∧ (s.impls.Holds i impl ∨ s.impls.Deleted i)

/-- A log and the console that it is meant to be. -/
structure Shows (s : Log) (c : Console) : Prop where
  isOpen : s.sInstance = c.isOpen
  printed : s.cout = c.printed
  writer : s.Points c.writer
  single : ∀ j impl, s.impls.Holds j impl → s.mPImpl = some j

variable {s t : Log} {c : Console}

theorem Shows.create (h : s.Shows c) (filename : Bytes) (bConsoleOutput : Bool)
    (saveLevel : LogLevel) : (s.create filename bConsoleOutput saveLevel).Shows
      (c.step (.create filename bConsoleOutput saveLevel)) := by
  obtain ⟨hopen, hprinted, hwriter, hsingle⟩ := h
  cases hinstance : s.sInstance with
  | true =>
    have hc : c.isOpen = true := hopen.symm.trans hinstance
    rw [create_open _ _ _ hinstance]
    simp only [Console.step, hc, if_true]
    exact ⟨hopen, hprinted, hwriter, hsingle⟩
  | false =>
    have hc : c.isOpen = false := hopen.symm.trans hinstance
    simp only [Console.step, hc, Bool.false_eq_true, if_false]
    cases hpoints : s.mPImpl with
    | some i =>
      rw [create_installed _ _ _ hinstance hpoints]
      rw [Points, hpoints] at hwriter
      obtain ⟨impl, hwriter, hthere⟩ := hwriter
      refine ⟨rfl, hprinted, ?_, hsingle⟩
      rw [hwriter]
      change Points s (some impl)
      rw [Points, hpoints]
      exact ⟨impl, rfl, hthere⟩
    | none =>
      rw [Points, hpoints] at hwriter
      have hwriter : c.writer = none := hwriter
      have hcreate : s.create filename bConsoleOutput saveLevel = { s with
          sInstance := true
          mPImpl := some (s.impls.new (.logImpl (.new filename bConsoleOutput saveLevel))).1
          impls := (s.impls.new (.logImpl (.new filename bConsoleOutput saveLevel))).2 } := by
        simp only [Log.create, hinstance, construct, hpoints, Bool.false_eq_true, if_false]
      rw [hcreate, hwriter]
      refine ⟨rfl, hprinted, ⟨_, rfl, .inl holds_new⟩, fun j impl hlive => ?_⟩
      rcases hlive.of_new with hold | ⟨rfl, -⟩
      · cases hpoints.symm.trans (hsingle j impl hold)
      · rfl

/-- What is deleted through the pointer was alive, and nothing is left alive. -/
theorem Shows.deleted (hwriter : s.Points c.writer)
    (hsingle : ∀ j impl, s.impls.Holds j impl → s.mPImpl = some j) (h : s.deleteImpl = .ok t) :
    t.sInstance = s.sInstance ∧ t.cout = s.cout ∧ t.mPImpl = s.mPImpl ∧ t.Points c.writer ∧
      ∀ j impl, ¬ t.impls.Holds j impl := by
  cases hpoints : s.mPImpl with
  | none =>
    rw [deleteImpl_null hpoints] at h
    cases h
    refine ⟨rfl, rfl, hpoints, hwriter, fun j impl hlive => ?_⟩
    cases hpoints.symm.trans (hsingle j impl hlive)
  | some i =>
    rw [Points, hpoints] at hwriter
    obtain ⟨impl, hwriter, hlive | hdead⟩ := hwriter
    · obtain ⟨impls, hdelete, hdead, -⟩ := hlive.delete
      have ht : s.deleteImpl = .ok { s with impls := impls } := by
        simp only [deleteImpl, hpoints, hdelete, Except.map]
      obtain rfl : { s with impls := impls } = t := Except.ok.inj (ht.symm.trans h)
      refine ⟨rfl, rfl, hpoints, ?_, fun j other hlive => ?_⟩
      · simp only [Points, hpoints]
        exact ⟨impl, hwriter, .inr hdead⟩
      · obtain ⟨hbefore, hne⟩ := hlive.of_delete hdelete
        exact hne (Option.some.inj ((hsingle j other hbefore).symm.trans hpoints))
    · rw [deleteImpl_dead hpoints hdead] at h
      cases h

theorem Shows.destroy (h : s.Shows c) (hdestroy : s.destroy = .ok t) :
    t.Shows (c.step .destroy) := by
  obtain ⟨hopen, hprinted, hwriter, hsingle⟩ := h
  unfold Log.destroy at hdestroy
  split at hdestroy
  · obtain ⟨u, hu, rfl⟩ : ∃ u, s.deleteImpl = .ok u ∧ { u with sInstance := false } = t := by
      unfold destruct at hdestroy
      cases hdelete : s.deleteImpl with
      | error x =>
        rw [hdelete] at hdestroy
        cases hdestroy
      | ok u =>
        rw [hdelete] at hdestroy
        exact ⟨u, rfl, Except.ok.inj hdestroy⟩
    obtain ⟨-, hsame, -, hpoints, hnone⟩ := Shows.deleted hwriter hsingle hu
    exact ⟨rfl, hsame.trans hprinted, hpoints, fun j impl hlive => absurd hlive (hnone j impl)⟩
  · rename_i hclosed
    cases hdestroy
    exact ⟨Bool.eq_false_iff.mpr hclosed, hprinted, hwriter, hsingle⟩

/-- The class that is installed takes the place of what is deleted. -/
theorem Shows.setLoggingClass (h : s.Shows c) (hrun : LogCall.setLoggingClass.run s = .ok t) :
    t.Shows (c.step .setLoggingClass) := by
  obtain ⟨hopen, hprinted, hwriter, hsingle⟩ := h
  have heq := (run_setLoggingClass s).symm.trans hrun
  cases hpoints : s.mPImpl with
  | none =>
    have hnull : s.withClass.mPImpl = none := hpoints
    rw [deleteImpl_null hnull] at heq
    cases heq
    refine ⟨hopen, hprinted, ⟨_, rfl, .inl holds_new⟩, fun j impl hlive => ?_⟩
    rcases hlive.of_new with hold | ⟨rfl, -⟩
    · cases hpoints.symm.trans (hsingle j impl hold)
    · rfl
  | some i =>
    have hclass : s.withClass.mPImpl = some i := hpoints
    rw [Points, hpoints] at hwriter
    obtain ⟨impl, -, hlive | hdead⟩ := hwriter
    · have hfresh : (s.impls.new .application).1 ≠ i := hlive.ne_new.symm
      have hlive : s.withClass.impls.Holds i impl := hlive.new
      obtain ⟨impls, hdelete, -, hothers⟩ := hlive.delete
      have hdeleted : s.withClass.deleteImpl = .ok { s.withClass with impls := impls } := by
        simp only [deleteImpl, hclass, hdelete, Except.map]
      rw [hdeleted] at heq
      cases heq
      have hnew := hothers _ _ hfresh holds_new
      refine ⟨hopen, hprinted, ⟨_, rfl, .inl hnew⟩, fun j other hafter => ?_⟩
      obtain ⟨hbefore, hne⟩ := hafter.of_delete hdelete
      rcases hbefore.of_new with hold | ⟨rfl, -⟩
      · exact absurd (Option.some.inj ((hsingle j other hold).symm.trans hpoints)) hne
      · rfl
    · rw [deleteImpl_dead hclass hdead.new] at heq
      cases heq

/-- A call through the pointer prints what the writer prints. -/
theorem Shows.callImpl (h : s.Shows c) (call : ILogImpl → Bytes)
    (hcall : s.callImpl call = .ok t) : t.Shows (c.print call) := by
  obtain ⟨hopen, hprinted, hwriter, hsingle⟩ := h
  cases hinstance : s.sInstance with
  | false =>
    have hc : c.isOpen = false := hopen.symm.trans hinstance
    rw [callImpl_closed call hinstance] at hcall
    cases hcall
    rw [Console.print, if_neg (Bool.eq_false_iff.mp hc)]
    exact ⟨hopen, hprinted, hwriter, hsingle⟩
  | true =>
    have hc : c.isOpen = true := hopen.symm.trans hinstance
    rw [Console.print, if_pos hc]
    cases hpoints : s.mPImpl with
    | none =>
      have hnone : c.writer = none := by
        rwa [Points, hpoints] at hwriter
      simp only [Log.callImpl, hinstance, if_true, hpoints] at hcall
      cases hcall
      rw [hnone, Option.map_none, Option.getD_none, List.append_nil]
      refine ⟨hinstance.trans hc.symm, hprinted, ?_, hsingle⟩
      rw [Points, hpoints]
    | some i =>
      have hthere := hwriter
      rw [Points, hpoints] at hthere
      obtain ⟨impl, himpl, hlive | hdead⟩ := hthere
      · rw [callImpl_live call hinstance hpoints hlive] at hcall
        cases hcall
        refine ⟨hinstance.trans hc.symm, ?_, hwriter, hsingle⟩
        rw [himpl, hprinted]
        rfl
      · rw [callImpl_dead call hinstance hpoints hdead] at hcall
        cases hcall

/-- What a log shows it shows behind every call that uses nothing deleted. -/
theorem Shows.call (h : s.Shows c) {call : LogCall} (hcall : call.run s = .ok t) :
    t.Shows (c.step call) := by
  cases call with
  | create filename bConsoleOutput saveLevel =>
    cases hcall
    exact h.create filename bConsoleOutput saveLevel
  | destroy => exact h.destroy hcall
  | setLoggingClass => exact h.setLoggingClass hcall
  | setLoggingState saveLevel =>
    cases hcall
    exact ⟨h.isOpen, h.printed, h.writer, h.single⟩
  | setLogFileName filename => exact h.callImpl _ hcall
  | write tm level message => exact h.callImpl _ hcall

theorem Shows.calls (h : s.Shows c) {calls : List LogCall}
    (hrun : run LogCall.run s calls = .ok t) : t.Shows (calls.foldl Console.step c) := by
  induction calls generalizing s c with
  | nil =>
    cases hrun
    exact h
  | cons call calls ih =>
    rw [run_cons] at hrun
    cases hcall : call.run s with
    | error x =>
      rw [hcall] at hrun
      cases hrun
    | ok u =>
      rw [hcall] at hrun
      exact ih (h.call hcall) hrun

theorem shows_initial : Log.initial.Shows .initial where
  isOpen := rfl
  printed := rfl
  writer := rfl
  single := by
    intro j impl hlive
    cases hlive

end Log

/-- **A log is a console**: a program that uses no implementation behind its deletion
prints what the console prints, writes through its writer, and has one implementation
alive at most, which is the one that is in use. -/
theorem log_refines_console (calls : List LogCall) (t : Log)
    (h : run LogCall.run .initial calls = .ok t) :
    t.sInstance = (calls.foldl Console.step .initial).isOpen ∧
      t.cout = (calls.foldl Console.step .initial).printed ∧
      (∀ i impl, t.impls.Holds i impl →
        t.mPImpl = some i ∧ (calls.foldl Console.step .initial).writer = some impl) := by
  obtain ⟨hopen, hprinted, hwriter, hsingle⟩ := Log.shows_initial.calls h
  refine ⟨hopen, hprinted, fun i impl hlive => ?_⟩
  have hpoints := hsingle i impl hlive
  rw [Log.Points, hpoints] at hwriter
  obtain ⟨other, hwriter, hheld | hdead⟩ := hwriter
  · cases hlive.symm.trans hheld
    exact ⟨hpoints, hwriter⟩
  · exact absurd hdead hlive.not_deleted

/-- A logger that is created, written to, given a class and destroyed. -/
theorem log_refines_console_destroyed :
    ∃ t, run LogCall.run .initial
        [created, .write newYear .fatal (str "x"), .setLoggingClass, .destroy] = .ok t ∧
      t.sInstance = false ∧ t.cout = LogImpl.line newYear .fatal (str "x") ∧
      ∀ i, ¬ t.impls.Holds i .application := by
  let t : Log := ⟨false, some 1, .fatal, ⟨[none, none]⟩, LogImpl.line newYear .fatal (str "x")⟩
  have hrun : run LogCall.run .initial
      [created, .write newYear .fatal (str "x"), .setLoggingClass, .destroy] = .ok t := rfl
  obtain ⟨hopen, hprinted, hsingle⟩ := log_refines_console _ t hrun
  refine ⟨t, hrun, hopen, hprinted, fun i hlive => ?_⟩
  obtain ⟨hpoints, -⟩ := hsingle i .application hlive
  cases Option.some.inj hpoints
  cases hlive

end Anetd
