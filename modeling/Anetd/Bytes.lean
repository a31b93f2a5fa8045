import Mathlib.Algebra.Ring.Int.Defs
import Mathlib.Data.FinEnum
import Mathlib.Data.UInt
import Anetd.Lib.Decimal
import Anetd.Lib.OrdMap

/-!
# Byte strings

A `std::string` is a list of bytes, a `std::map<std::string, std::string>` an
ordered map over them. The conversions of the two directions of
`boost::lexical_cast` that the library uses are here too.
-/

namespace Anetd

abbrev Byte := UInt8

abbrev Bytes := List Byte

/-! The order of `std::string`, by bytes. -/

instance : Std.Trichotomous (α := Bytes) (· < ·) := inferInstance

instance : Std.Irrefl (α := Bytes) (· < ·) := inferInstance

instance : Trans (α := Bytes) (· < ·) (· < ·) (· < ·) := inferInstance

abbrev StringMap := Lib.OrdMap Bytes Bytes

/-- The bytes of a literal of the source. -/
def str (s : String) : Bytes := s.toList.map fun c => UInt8.ofNat c.toNat

def sp : Byte := 32
def cr : Byte := 13
def lf : Byte := 10
def tab : Byte := 9
def colon : Byte := 58
def crlf : Bytes := [cr, lf]

/-- The bytes `isspace` accepts. -/
def isSpace (c : Byte) : Bool := c = sp || (9 ≤ c && c ≤ 13)

theorem forall_of_all {P : Byte → Prop} [DecidablePred P] {bs : Bytes}
    (h : (bs.all fun c => decide (P c)) = true) : ∀ c ∈ bs, P c :=
  fun c hc => of_decide_eq_true (List.all_eq_true.mp h c hc)

/-- The longest `int`, and one less than the absolute value of the shortest. -/
def intMax : Nat := 2 ^ 31 - 1

/-- The value of a non-empty string of digits that is within a bound. -/
def magnitude (bound : Nat) (ds : Bytes) : Option Nat :=
  if ds ≠ [] ∧ ds.all Lib.Decimal.isDigit ∧ Lib.Decimal.value ds ≤ bound
  then some (Lib.Decimal.value ds) else none

/-- `boost::lexical_cast<int>`: an optional sign and digits, nothing else, and
within the range of `int`. `none` is `bad_lexical_cast`. -/
def lexicalCastInt : Bytes → Option Int
  | [] => none
  | c :: ds =>
    if c = 45 then (magnitude (intMax + 1) ds).map fun n => -Int.ofNat n
    else (magnitude intMax (if c = 43 then ds else c :: ds)).map Int.ofNat

/-- An `int` stored in a `size_t` of 64 bits. -/
def sizeOfInt (n : Int) : Nat := (n % 2 ^ 64).toNat

theorem sizeOfInt_natCast {n : Nat} (h : n ≤ intMax) : sizeOfInt (n : Int) = n := by
  have : n < 2 ^ 31 := by unfold intMax at h; omega
  simp only [sizeOfInt]; omega

/-- A numeral is an `int` if it is not too large for one. -/
theorem lexicalCastInt_eq {s : Bytes} {n : Nat} (h : Lib.Decimal.IsNumeral s n) :
    lexicalCastInt s = if n ≤ intMax then some (n : Int) else none := by
  obtain ⟨hne, hd, rfl⟩ := h
  cases s with
  | nil => exact absurd rfl hne
  | cons c ds =>
    have hc := hd c List.mem_cons_self
    have hminus : c ≠ 45 := by rintro rfl; exact absurd hc (by decide)
    have hplus : c ≠ 43 := by rintro rfl; exact absurd hc (by decide)
    have hall : (c :: ds).all Lib.Decimal.isDigit = true := List.all_eq_true.mpr hd
    simp only [lexicalCastInt, hminus, hplus, if_false, magnitude, hall, true_and,
      ne_eq, hne, not_false_eq_true]
    split <;> rfl

theorem lexicalCastInt_numeral {s : Bytes} {n : Nat} (h : Lib.Decimal.IsNumeral s n)
    (hn : n ≤ intMax) : lexicalCastInt s = some (n : Int) := by
  rw [lexicalCastInt_eq h, if_pos hn]

theorem lexicalCastInt_large {s : Bytes} {n : Nat} (h : Lib.Decimal.IsNumeral s n)
    (hn : ¬ n ≤ intMax) : lexicalCastInt s = none := by
  rw [lexicalCastInt_eq h, if_neg hn]

end Anetd
