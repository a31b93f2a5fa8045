/-!
# Decimal numerals as byte strings

`value` reads a string of digits, `render` writes a number; `IsNumeral ds n`
says that `ds` is some way to write `n`, leading zeros included.
-/

namespace Lib.Decimal

def isDigit (c : UInt8) : Bool := 48 ≤ c && c ≤ 57

def digit (n : Nat) : UInt8 := UInt8.ofNat (48 + n)

def digitValue (c : UInt8) : Nat := c.toNat - 48

def value (ds : List UInt8) : Nat := ds.foldl (fun n c => 10 * n + digitValue c) 0

/-- The digits of a number, most significant first and without leading zeros. -/
def render (n : Nat) : List UInt8 := (Nat.toDigits 10 n).map fun c => UInt8.ofNat c.toNat

/-- `ds` is a non-empty string of digits that denotes `n`. -/
structure IsNumeral (ds : List UInt8) (n : Nat) : Prop where
  nonempty : ds ≠ []
  digits : ∀ c ∈ ds, isDigit c = true
  denotes : value ds = n

theorem isDigit_digit {n : Nat} (h : n < 10) : isDigit (digit n) = true := by
  have hn : (digit n).toNat = 48 + n := by
    simp only [digit, UInt8.toNat_ofNat']; omega
  simp only [isDigit, Bool.and_eq_true, decide_eq_true_eq, UInt8.le_iff_toNat_le, hn]
  exact ⟨Nat.le_add_right 48 n, by change 48 + n ≤ 57; omega⟩

theorem digitValue_digit {n : Nat} (h : n < 10) : digitValue (digit n) = n := by
  simp only [digitValue, digit, UInt8.toNat_ofNat']; omega

theorem value_append_singleton (ds : List UInt8) (c : UInt8) :
    value (ds ++ [c]) = 10 * value ds + digitValue c := by
  simp only [value, List.foldl_append, List.foldl_cons, List.foldl_nil]

theorem digitChar_toNat {n : Nat} (h : n < 10) : UInt8.ofNat n.digitChar.toNat = digit n := by
  revert h n; decide

theorem render_eq_if (n : Nat) :
    render n = if n < 10 then [digit n] else render (n / 10) ++ [digit (n % 10)] := by
  rw [render, Nat.toDigits_eq_if (by decide)]
  split
  · rename_i h; simp only [List.map_cons, List.map_nil, digitChar_toNat h]
  · simp only [List.map_append, List.map_cons, List.map_nil, render,
      digitChar_toNat (Nat.mod_lt n (by decide : 10 > 0))]

/-- The canonical digits are a numeral for their number. -/
theorem isNumeral_render (n : Nat) : IsNumeral (render n) n := by
  induction n using Nat.strongRecOn with
  | ind n ih =>
    rw [render_eq_if]
    split
    · rename_i h
      refine ⟨List.cons_ne_nil _ _, fun c hc => ?_, ?_⟩
      · rw [List.mem_singleton.mp hc]; exact isDigit_digit h
      · simpa only [value, List.foldl_cons, List.foldl_nil, Nat.mul_zero, Nat.zero_add]
          using digitValue_digit h
    · have ih := ih (n / 10) (by omega)
      have hlt : n % 10 < 10 := Nat.mod_lt _ (by omega)
      refine ⟨by simp, fun c hc => ?_, ?_⟩
      · rcases List.mem_append.mp hc with hc | hc
        · exact ih.digits c hc
        · rw [List.mem_singleton.mp hc]; exact isDigit_digit hlt
      · rw [value_append_singleton, ih.denotes, digitValue_digit hlt]; omega

end Lib.Decimal
