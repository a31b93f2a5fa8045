import Anetd.LogLifecycle

/-!
# Which messages are printed

`SetLoggingState` stores the level in a member of `Log` that is never read. A
`LogImpl` goes by the level it was made with, which its own `SetLoggingState`
would change if something called it. So the level that was set last decides
about a message only where it decides like the first one (`follows_level_iff`).
-/

namespace Anetd

open Lib.Machine Lib.Objects

theorem LogImpl.write_eq (saveLevel : LogLevel) (tm : Moment) (level : LogLevel) (message : Bytes) :
    LogImpl.write ⟨saveLevel, true⟩ tm level message =
      if level ≤ saveLevel then line tm level message else [] := by
  by_cases hlevel : level ≤ saveLevel
  · have hnot : ¬ saveLevel < level := not_lt.mpr hlevel
    simp only [write, Bool.not_true, Bool.false_eq_true, if_false, hnot, hlevel, if_true]
  · have hless : saveLevel < level := not_le.mp hlevel
    simp only [write, Bool.not_true, Bool.false_eq_true, if_false, hless, hlevel, if_true]

/-! ## A logger that prints -/

/-- The calls between which a logger only prints. -/
def LogCall.filters : LogCall → Bool
  | .setLoggingState _ | .write .. => true
  | _ => false

/-- There is a logger, and its implementation goes by a level. -/
def Log.Prints (s : Log) (saveLevel : LogLevel) : Prop :=
  s.sInstance = true ∧ ∃ i, s.mPImpl = some i ∧ s.impls.Holds i (.logImpl ⟨saveLevel, true⟩)

namespace Log.Prints

variable {s : Log} {l : LogLevel}

theorem create (hclosed : s.sInstance = false) (hnull : s.mPImpl = none) (filename : Bytes) :
    (s.create filename true l).Prints l := by
  obtain ⟨i, impls, hcreate, hlive⟩ := create_null filename true l hclosed hnull
  rw [hcreate]
  exact ⟨rfl, i, rfl, hlive⟩

theorem write (h : s.Prints l) (tm : Moment) (level : LogLevel) (message : Bytes) :
    s.write tm level message = .ok { s with
      cout := s.cout ++ if level ≤ l then LogImpl.line tm level message else [] } := by
  obtain ⟨hopen, i, hpoints, hlive⟩ := h
  rw [← LogImpl.write_eq]
  exact callImpl_live (fun impl => impl.write tm level message) hopen hpoints hlive

/-- Whatever level is set, the implementation keeps its own. -/
theorem call (h : s.Prints l) {call : LogCall} (hcall : call.filters = true) :
    ∃ t, call.run s = .ok t ∧ t.Prints l := by
  cases call with
  | setLoggingState saveLevel => exact ⟨s.setLoggingState saveLevel, rfl, h⟩
  | write tm level message => exact ⟨_, h.write tm level message, h⟩
  | create | destroy | setLoggingClass | setLogFileName => cases hcall

theorem calls (h : s.Prints l) {calls : List LogCall}
    (hcalls : ∀ call ∈ calls, call.filters = true) :
    ∃ t, run LogCall.run s calls = .ok t ∧ t.Prints l := by
  induction calls generalizing s with
  | nil => exact ⟨s, rfl, h⟩
  | cons call calls ih =>
    obtain ⟨hcall, hrest⟩ := List.forall_mem_cons.mp hcalls
    obtain ⟨u, hu, hprints⟩ := h.call hcall
    obtain ⟨t, ht, hend⟩ := ih hprints hrest
    exact ⟨t, (run_cons_ok hu calls).trans ht, hend⟩

end Log.Prints

/-! ## The level set last -/

/-- The argument of the last `SetLoggingState`. -/
def lastLevel (l : LogLevel) (calls : List LogCall) : LogLevel :=
  calls.foldl (fun l call => match call with
    | .setLoggingState saveLevel => saveLevel
    | _ => l) l

/-- The one call puts a line with the message on `std::cout`. -/
def PrintsLine (s t : Log) (message : Bytes) : Prop :=
  ∃ head, t.cout = s.cout ++ (head ++ message ++ [lf])

/-- Behind a `Create` every message is printed if its level is at most the one
set last, and nothing is if it is not. -/
def FollowsLevel (s : Log) (filename : Bytes) (l : LogLevel) (calls : List LogCall) : Prop :=
  ∀ before tm level message after, calls = before ++ .write tm level message :: after →
    ∃ t t', run LogCall.run s (.create filename true l :: before) = .ok t ∧
      t.write tm level message = .ok t' ∧
      if level ≤ lastLevel l before then PrintsLine t t' message else t'.cout = t.cout

/-- No message has a level between the one of `Create` and the one set last. -/
def NoneBetween (l : LogLevel) (calls : List LogCall) : Prop :=
  ∀ before tm level message after, calls = before ++ .write tm level message :: after →
    (level ≤ l ↔ level ≤ lastLevel l before)

theorem line_eq (tm : Moment) (level : LogLevel) (message : Bytes) :
    ∃ head, LogImpl.line tm level message = head ++ message ++ [lf] := ⟨_, rfl⟩

theorem PrintsLine.cout_ne {s t : Log} {message : Bytes} (h : PrintsLine s t message) :
    t.cout ≠ s.cout := by
  obtain ⟨head, hprinted⟩ := h
  intro hsame
  have hnil := List.append_right_eq_self.mp (hprinted.symm.trans hsame)
  simp only [List.append_eq_nil_iff, List.cons_ne_nil, and_false] at hnil

/-- What the one level lets through is as the other wants it if they agree, and
only then. -/
theorem printed_iff {s t : Log} {tm : Moment} {l last level : LogLevel} {message : Bytes}
    (ht : t.cout = s.cout ++ if level ≤ l then LogImpl.line tm level message else []) :
    (if level ≤ last then PrintsLine s t message else t.cout = s.cout) ↔
      (level ≤ l ↔ level ≤ last) := by
  by_cases hfirst : level ≤ l
  · obtain ⟨head, hline⟩ := line_eq tm level message
    rw [if_pos hfirst, hline] at ht
    have hprinted : PrintsLine s t message := ⟨head, ht⟩
    by_cases hlast : level ≤ last
    · rw [if_pos hlast]
      exact iff_of_true hprinted (iff_of_true hfirst hlast)
    · rw [if_neg hlast]
      exact iff_of_false hprinted.cout_ne fun hagree => hlast (hagree.mp hfirst)
  · rw [if_neg hfirst, List.append_nil] at ht
    by_cases hlast : level ≤ last
    · rw [if_pos hlast]
      have hnot : ¬ PrintsLine s t message := fun hprinted => hprinted.cout_ne ht
      exact iff_of_false hnot fun hagree => hfirst (hagree.mpr hlast)
    · rw [if_neg hlast]
      exact iff_of_true ht (iff_of_false hfirst hlast)

section create
variable {s : Log} (hclosed : s.sInstance = false) (hnull : s.mPImpl = none) (filename : Bytes)
variable (l : LogLevel)
include hclosed hnull

/-- One message, behind calls that set levels and print. -/
theorem message_follows_iff {before : List LogCall}
    (hbefore : ∀ call ∈ before, call.filters = true) (tm : Moment) (level : LogLevel)
    (message : Bytes) :
    (∃ t t', run LogCall.run s (.create filename true l :: before) = .ok t ∧
      t.write tm level message = .ok t' ∧
      if level ≤ lastLevel l before then PrintsLine t t' message else t'.cout = t.cout) ↔
      (level ≤ l ↔ level ≤ lastLevel l before) := by
  have hcreated := Log.Prints.create (l := l) hclosed hnull filename
  obtain ⟨t, hrun, hprints⟩ := hcreated.calls hbefore
  have hcalls : run LogCall.run s (.create filename true l :: before) = .ok t :=
    (run_cons_ok rfl before).trans hrun
  have hwrite := hprints.write tm level message
  constructor
  · rintro ⟨u, u', hu, hu', hprinted⟩
    obtain rfl := Except.ok.inj (hcalls.symm.trans hu)
    obtain rfl := Except.ok.inj (hwrite.symm.trans hu')
    exact (printed_iff rfl).mp hprinted
  · exact fun hagree => ⟨t, _, hcalls, hwrite, (printed_iff rfl).mpr hagree⟩

/-- **When messages follow the level that was set last**: where the first level
would let the same ones through. -/
theorem follows_level_iff {calls : List LogCall} (hcalls : ∀ call ∈ calls, call.filters = true) :
    FollowsLevel s filename l calls ↔ NoneBetween l calls := by
  have hbefore {before after : List LogCall} {call : LogCall}
      (hsplit : calls = before ++ call :: after) : ∀ call ∈ before, call.filters = true :=
    fun call hcall => hcalls call (hsplit ▸ List.mem_append_left _ hcall)
  constructor
  · intro hfollows before tm level message after hsplit
    exact (message_follows_iff hclosed hnull filename l (hbefore hsplit) tm level message).mp
      (hfollows before tm level message after hsplit)
  · intro hnone before tm level message after hsplit
    exact (message_follows_iff hclosed hnull filename l (hbefore hsplit) tm level message).mpr
      (hnone before tm level message after hsplit)

end create

/-- Logging is disabled, and then a fatal error is reported. -/
def silenced : List LogCall := [.setLoggingState .none, .write newYear .fatal (str "x")]

theorem follows_level_iff_silenced :
    FollowsLevel .initial [] .debug silenced ↔ NoneBetween .debug silenced :=
  follows_level_iff rfl rfl [] .debug (by decide)

/-- The message is printed all the same. -/
theorem silenced_not_followed :
    (run LogCall.run .initial (created :: silenced)).map Log.cout =
        .ok (str "2012-01-01 00:00:00.000  Fatal x\n") ∧
      ¬ FollowsLevel .initial [] .debug silenced := by
  refine ⟨by decide, fun hfollows => ?_⟩
  obtain ⟨t, t', ht, ht', hprinted⟩ :=
    hfollows [.setLoggingState .none] newYear .fatal (str "x") [] rfl
  obtain rfl := Except.ok.inj ht
  obtain rfl := Except.ok.inj ht'
  rw [if_neg (by decide)] at hprinted
  exact absurd hprinted (by decide)

end Anetd
