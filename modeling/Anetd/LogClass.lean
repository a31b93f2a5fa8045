import Mathlib.Order.Basic
import Anetd.Bytes
import Anetd.Lib.Machine
import Anetd.Lib.Objects

/-!
# The log

`Log` has only static members: whether there is a logger, and a pointer to the
implementation that writes. The two are set in either order, and objects of
the application can be installed. What is behind the pointer may have been
deleted; to use it then is the error `Dead`. All uses are `callImpl` and
`deleteImpl`: the lemmas say what these do with a pointer to a living object
(`callImpl_live`, `deleteImpl_live`), to a deleted one (`callImpl_dead`,
`deleteImpl_dead`), and without a logger or an implementation.
-/

namespace Anetd

open Lib Lib.Objects

/-! ## Levels -/

/-- `LogLevel`. A value beyond the named ones can come from a cast. -/
inductive LogLevel where
  | none
  | fatal
  | error
  | warning
  | info
  | debug
  | beyond (n : Nat)
  deriving DecidableEq

namespace LogLevel

def value : LogLevel → Nat
  | none => 0
  | fatal => 1
  | error => 2
  | warning => 3
  | info => 4
  | debug => 5
  | beyond n => 6 + n

theorem value_injective : Function.Injective value := by
  intro a b h
  cases a <;> cases b <;> grind [value]

instance : LinearOrder LogLevel := LinearOrder.lift' value value_injective

end LogLevel

def getLevelString : LogLevel → Bytes
  | .none => str "None"
  | .fatal => str "Fatal"
  | .error => str "Error"
  | .warning => str "Warning"
  | .info => str "Info"
  | .debug => str "Debug"
  | .beyond _ => str "Unknown"

/-! ## Implementations -/

/-- What `gettimeofday` and `localtime` answer. -/
structure Moment where
  tmYear : Int
  tmMon : Int
  tmMday : Int
  tmHour : Int
  tmMin : Int
  tmSec : Int
  tvUsec : Int
  deriving DecidableEq

/-- The conversion `%0wd` of `snprintf`. -/
def padded (w : Nat) (n : Int) : Bytes :=
  let sign := if n < 0 then str "-" else []
  let digits := Lib.Decimal.render n.natAbs
  sign ++ List.replicate (w - sign.length - digits.length) 48 ++ digits

/-- `LogImpl::GetTimeStampString`. -/
def getTimeStampString (tm : Moment) : Bytes :=
  padded 4 (tm.tmYear + 1900) ++ str "-" ++ padded 2 (tm.tmMon + 1) ++ str "-" ++
    padded 2 tm.tmMday ++ str " " ++ padded 2 tm.tmHour ++ str ":" ++ padded 2 tm.tmMin ++
    str ":" ++ padded 2 tm.tmSec ++ str "." ++ padded 3 (tm.tvUsec.tdiv 1000) ++ str " "

/-- `LogImpl`. -/
structure LogImpl where
  saveLevel : LogLevel
  bConsoleOutput : Bool
  deriving DecidableEq

namespace LogImpl

/-- The file name is not kept. -/
def new (_filename : Bytes) (bConsoleOutput : Bool) (saveLevel : LogLevel) : LogImpl :=
  ⟨saveLevel, bConsoleOutput⟩

/-- The line of a message. -/
def line (tm : Moment) (level : LogLevel) (message : Bytes) : Bytes :=
  let level := if LogLevel.debug.value + 1 ≤ level.value then .debug else level
  getTimeStampString tm ++ str " " ++ getLevelString level ++ str " " ++ message ++ [lf]

/-- What `LogImpl::Write` puts on `std::cout`. -/
def write (impl : LogImpl) (tm : Moment) (level : LogLevel) (message : Bytes) : Bytes :=
  if !impl.bConsoleOutput then []
  else if impl.saveLevel < level then []
  else line tm level message

/-- `LogImpl::SetLogFileName` has no body. -/
def setLogFileName (_ : LogImpl) (_filename : Bytes) : Bytes := []

end LogImpl

/-- An `i_LogImpl`: a `LogImpl`, or an object of a class of the application,
whose functions have nothing to do with `std::cout` here. -/
inductive ILogImpl where
  | logImpl (impl : LogImpl)
  | application
  deriving DecidableEq

namespace ILogImpl

def write (impl : ILogImpl) (tm : Moment) (level : LogLevel) (message : Bytes) : Bytes :=
  match impl with
  | logImpl impl => impl.write tm level message
  | application => []

def setLogFileName (impl : ILogImpl) (filename : Bytes) : Bytes :=
  match impl with
  | logImpl impl => impl.setLogFileName filename
  | application => []

end ILogImpl

/-! ## The class -/

/-- The static members of `Log`, the implementations there are, and what has
been put on `std::cout`. A `Log` object has no members of its own; `sInstance`
is whether there is one. -/
structure Log where
  sInstance : Bool
  mPImpl : Option Nat
  currentlevel : LogLevel
  impls : Objects ILogImpl
  cout : Bytes
  deriving DecidableEq

namespace Log

/-- A process that has not used the log. -/
def initial : Log := ⟨false, none, .fatal, ⟨[]⟩, []⟩

/-- `delete m_pImpl`, which leaves the pointer. -/
def deleteImpl (s : Log) : Except Dead Log :=
  match s.mPImpl with
  | none => .ok s
  | some i => (s.impls.delete i).map fun impls => { s with impls := impls }

/-- `Log::Log`. -/
def construct (filename : Bytes) (bConsoleOutput : Bool) (saveLevel : LogLevel) (s : Log) : Log :=
  match s.mPImpl with
  | none =>
    let (i, impls) := s.impls.new (.logImpl (.new filename bConsoleOutput saveLevel))
    { s with mPImpl := some i, impls := impls }
  | some _ => s

/-- `Log::~Log`. -/
def destruct (s : Log) : Except Dead Log := s.deleteImpl

/-- `Log::Create`. -/
def create (filename : Bytes) (bConsoleOutput : Bool) (saveLevel : LogLevel) (s : Log) : Log :=
  if s.sInstance then s
  else { s.construct filename bConsoleOutput saveLevel with sInstance := true }

/-- `Log::Destroy`. -/
def destroy (s : Log) : Except Dead Log :=
  if s.sInstance then s.destruct.map fun s => { s with sInstance := false }
  else .ok s

/-- `Log::SetLoggingClass`. -/
def setLoggingClass (logClass : Option Nat) (s : Log) : Except Dead (Bool × Log) :=
  s.deleteImpl.map fun s => (true, { s with mPImpl := logClass })

/-- `Log::SetLoggingState`. -/
def setLoggingState (saveLevel : LogLevel) (s : Log) : Log := { s with currentlevel := saveLevel }

/-- A call through `m_pImpl`, if there is a logger and an implementation. -/
def callImpl (call : ILogImpl → Bytes) (s : Log) : Except Dead Log :=
  if s.sInstance then
    match s.mPImpl with
    | none => .ok s
    | some i => (s.impls.get i).map fun impl => { s with cout := s.cout ++ call impl }
  else .ok s

/-- `Log::Write`. -/
def write (tm : Moment) (level : LogLevel) (message : Bytes) (s : Log) : Except Dead Log :=
  s.callImpl fun impl => impl.write tm level message

/-- `Log::SetLogFileName`. -/
def setLogFileName (filename : Bytes) (s : Log) : Except Dead Log :=
  s.callImpl fun impl => impl.setLogFileName filename

section create
variable {s : Log} (filename : Bytes) (bConsoleOutput : Bool) (saveLevel : LogLevel)

theorem create_open (hopen : s.sInstance = true) :
    s.create filename bConsoleOutput saveLevel = s := if_pos hopen

/-- A logger writes through the implementation that is there. -/
theorem create_installed (hclosed : s.sInstance = false) {i : Nat} (hpoints : s.mPImpl = some i) :
    s.create filename bConsoleOutput saveLevel = { s with sInstance := true } := by
  simp only [create, hclosed, construct, hpoints, Bool.false_eq_true, if_false]

/-- Without one it makes its own. -/
theorem create_null (hclosed : s.sInstance = false) (hnull : s.mPImpl = none) :
    ∃ i impls, s.create filename bConsoleOutput saveLevel =
        { s with sInstance := true, mPImpl := some i, impls := impls } ∧
      impls.Holds i (.logImpl (.new filename bConsoleOutput saveLevel)) := by
  have hlive := @holds_new _ s.impls (.logImpl (.new filename bConsoleOutput saveLevel))
  refine ⟨_, _, ?_, hlive⟩
  simp only [create, hclosed, construct, hnull, Bool.false_eq_true, if_false]

end create

/-! What is done through the pointer -/

section pointer
variable {s : Log} {i : Nat} {impl : ILogImpl} (call : ILogImpl → Bytes)

theorem deleteImpl_null (hnull : s.mPImpl = none) : s.deleteImpl = .ok s := by
  rw [deleteImpl, hnull]

/-- What is deleted is what the pointer points to, and nothing else. -/
theorem deleteImpl_live (hpoints : s.mPImpl = some i) (hlive : s.impls.Holds i impl) :
    ∃ impls, s.deleteImpl = .ok { s with impls := impls } ∧ impls.Deleted i ∧
      ∀ j other, j ≠ i → s.impls.Holds j other → impls.Holds j other := by
  obtain ⟨impls, hdelete, hgone, hothers⟩ := hlive.delete
  refine ⟨impls, ?_, hgone, hothers⟩
  simp only [deleteImpl, hpoints, hdelete, Except.map]

theorem deleteImpl_dead (hpoints : s.mPImpl = some i) (hdead : s.impls.Deleted i) :
    s.deleteImpl = .error ⟨i⟩ := by
  simp only [deleteImpl, hpoints, hdead.delete, Except.map]

theorem callImpl_closed (hclosed : s.sInstance = false) : s.callImpl call = .ok s := by
  rw [callImpl, hclosed]
  rfl

theorem callImpl_live (hopen : s.sInstance = true) (hpoints : s.mPImpl = some i)
    (hlive : s.impls.Holds i impl) :
    s.callImpl call = .ok { s with cout := s.cout ++ call impl } := by
  simp only [callImpl, hopen, if_true, hpoints, hlive.get, Except.map]

theorem callImpl_dead (hopen : s.sInstance = true) (hpoints : s.mPImpl = some i)
    (hdead : s.impls.Deleted i) : s.callImpl call = .error ⟨i⟩ := by
  simp only [callImpl, hopen, if_true, hpoints, hdead.get, Except.map]

end pointer

end Log

/-- The calls of a program. A logging class is installed with a new object. -/
inductive LogCall where
  | create (filename : Bytes) (bConsoleOutput : Bool) (saveLevel : LogLevel)
  | destroy
  | setLoggingClass
  | setLoggingState (saveLevel : LogLevel)
  | setLogFileName (filename : Bytes)
  | write (tm : Moment) (level : LogLevel) (message : Bytes)

def LogCall.run (s : Log) : LogCall → Except Dead Log
  | .create filename bConsoleOutput saveLevel => .ok (s.create filename bConsoleOutput saveLevel)
  | .destroy => s.destroy
  | .setLoggingClass =>
    let (i, impls) := s.impls.new .application
    ({ s with impls := impls }.setLoggingClass (some i)).map Prod.snd
  | .setLoggingState saveLevel => .ok (s.setLoggingState saveLevel)
  | .setLogFileName filename => s.setLogFileName filename
  | .write tm level message => s.write tm level message

end Anetd
