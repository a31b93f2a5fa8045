/-!
# Base64

The alphabet, the groups of six bits, and padding. `breakLines` puts a line
feed after each full line that more text follows. `decode` is the strict
decoder: whole quanta of the alphabet, padding only at the end and with no bits
set under it. It undoes the encoding of every text (`decode_encode`), and a
line feed shows in broken lines as soon as there is more than one of them.
-/

namespace Lib.Base64

/-- The character of a value below 64. -/
def char (n : Nat) : UInt8 :=
  if n < 26 then UInt8.ofNat (65 + n)
  else if n < 52 then UInt8.ofNat (97 + (n - 26))
  else if n < 62 then UInt8.ofNat (48 + (n - 52))
  else if n = 62 then 43
  else 47

/-- The bytes as groups of six bits, the last one filled with zeros. -/
def sextets : List UInt8 → List Nat
  | [] => []
  | [a] => [a.toNat / 4, a.toNat % 4 * 16]
  | [a, b] => [a.toNat / 4, a.toNat % 4 * 16 + b.toNat / 16, b.toNat % 16 * 4]
  | a :: b :: c :: rest =>
    a.toNat / 4 :: (a.toNat % 4 * 16 + b.toNat / 16) :: (b.toNat % 16 * 4 + c.toNat / 64) ::
      (c.toNat % 64) :: sextets rest

/-- A line feed after every `width` characters that another follows; `room` is
what is left of the current line. -/
def breakLines (width : Nat) : Nat → List UInt8 → List UInt8
  | _, [] => []
  | 0, c :: cs => 10 :: c :: breakLines width (width - 1) cs
  | room + 1, c :: cs => c :: breakLines width room cs

/-- As many `=` as bring the length to a multiple of four. -/
def padding (len : Nat) : List UInt8 := List.replicate ((3 - len % 3) % 3) 61

/-- Groups and padding, on one line. -/
def encode (s : List UInt8) : List UInt8 := (sextets s).map char ++ padding s.length

/-- The value of a character of the alphabet. -/
def value (c : UInt8) : Option Nat :=
  if 65 ≤ c ∧ c ≤ 90 then some (c.toNat - 65)
  else if 97 ≤ c ∧ c ≤ 122 then some (c.toNat - 71)
  else if 48 ≤ c ∧ c ≤ 57 then some (c.toNat + 4)
  else if c = 43 then some 62
  else if c = 47 then some 63
  else none

/-- The bytes of one quantum; the second component says how many characters of
it are padding. -/
def quantum (c₁ c₂ c₃ c₄ : UInt8) : Option (List UInt8 × Nat) := do
  let a ← value c₁
  let b ← value c₂
  if c₃ = 61 ∧ c₄ = 61 then
    if b % 16 = 0 then some ([UInt8.ofNat (a * 4 + b / 16)], 2) else none
  else
    let c ← value c₃
    if c₄ = 61 then
      if c % 4 = 0 then
        some ([UInt8.ofNat (a * 4 + b / 16), UInt8.ofNat (b % 16 * 16 + c / 4)], 1)
      else none
    else
      let d ← value c₄
      some ([UInt8.ofNat (a * 4 + b / 16), UInt8.ofNat (b % 16 * 16 + c / 4),
        UInt8.ofNat (c % 4 * 64 + d)], 0)

def decode : List UInt8 → Option (List UInt8)
  | [] => some []
  | c₁ :: c₂ :: c₃ :: c₄ :: rest => do
    let (bytes, pad) ← quantum c₁ c₂ c₃ c₄
    if pad = 0 then (bytes ++ ·) <$> decode rest
    else if rest = [] then some bytes
    else none
  | _ => none

/-! ## Encoding and decoding -/

theorem value_char {n : Nat} (h : n < 64) : value (char n) = some n := by
  revert h n
  decide

theorem char_ne_pad {n : Nat} (h : n < 64) : char n ≠ 61 := by
  revert h n
  decide

theorem sextets_lt (s : List UInt8) : ∀ n ∈ sextets s, n < 64 := by
  induction s using sextets.induct with
  | case1 => exact fun n hn => by cases hn
  | case2 a =>
    have ha := a.toNat_lt
    simp only [sextets, List.forall_mem_cons]
    exact ⟨by omega, by omega, fun n hn => by cases hn⟩
  | case3 a b =>
    have ha := a.toNat_lt
    have hb := b.toNat_lt
    simp only [sextets, List.forall_mem_cons]
    exact ⟨by omega, by omega, by omega, fun n hn => by cases hn⟩
  | case4 a b c rest ih =>
    have ha := a.toNat_lt
    have hb := b.toNat_lt
    have hc := c.toNat_lt
    simp only [sextets, List.forall_mem_cons]
    exact ⟨by omega, by omega, by omega, by omega, ih⟩

/-- As many groups as cover the bits. -/
theorem length_sextets (s : List UInt8) : (sextets s).length = (4 * s.length + 2) / 3 := by
  induction s using sextets.induct with
  | case1 => rfl
  | case2 a => simp [sextets]
  | case3 a b => simp [sextets]
  | case4 a b c rest ih =>
    simp only [sextets, List.length_cons, ih]
    omega

theorem length_encode (s : List UInt8) : (encode s).length = 4 * ((s.length + 2) / 3) := by
  simp only [encode, padding, List.length_append, List.length_map, length_sextets,
    List.length_replicate]
  omega

theorem mem_encode {s : List UInt8} {c : UInt8} (h : c ∈ encode s) :
    (∃ n < 64, c = char n) ∨ c = 61 := by
  rcases List.mem_append.mp h with h | h
  · obtain ⟨n, hn, rfl⟩ := List.mem_map.mp h
    exact .inl ⟨n, sextets_lt s n hn, rfl⟩
  · exact .inr (List.eq_of_mem_replicate h)

section quantum
variable {a b c : UInt8}

theorem quantum_one :
    quantum (char (a.toNat / 4)) (char (a.toNat % 4 * 16)) 61 61 = some ([a], 2) := by
  have ha := a.toNat_lt
  have hbyte : a.toNat / 4 * 4 + a.toNat % 4 * 16 / 16 = a.toNat := by omega
  have hpad : a.toNat % 4 * 16 % 16 = 0 := by omega
  simp only [quantum, value_char (n := a.toNat / 4) (by omega),
    value_char (n := a.toNat % 4 * 16) (by omega), Option.bind_eq_bind, Option.bind_some,
    and_self, if_true, hpad, hbyte, UInt8.ofNat_toNat]

theorem quantum_two :
    quantum (char (a.toNat / 4)) (char (a.toNat % 4 * 16 + b.toNat / 16))
      (char (b.toNat % 16 * 4)) 61 = some ([a, b], 1) := by
  have ha := a.toNat_lt
  have hb := b.toNat_lt
  have hfirst : a.toNat / 4 * 4 + (a.toNat % 4 * 16 + b.toNat / 16) / 16 = a.toNat := by omega
  have hsecond : (a.toNat % 4 * 16 + b.toNat / 16) % 16 * 16 + b.toNat % 16 * 4 / 4 = b.toNat := by
    omega
  have hpad : b.toNat % 16 * 4 % 4 = 0 := by omega
  simp only [quantum, value_char (n := a.toNat / 4) (by omega),
    value_char (n := a.toNat % 4 * 16 + b.toNat / 16) (by omega),
    value_char (n := b.toNat % 16 * 4) (by omega), char_ne_pad (n := b.toNat % 16 * 4) (by omega),
    Option.bind_eq_bind, Option.bind_some, false_and, if_false, if_true, hpad, hfirst, hsecond,
    UInt8.ofNat_toNat]

theorem quantum_three :
    quantum (char (a.toNat / 4)) (char (a.toNat % 4 * 16 + b.toNat / 16))
      (char (b.toNat % 16 * 4 + c.toNat / 64)) (char (c.toNat % 64)) = some ([a, b, c], 0) := by
  have ha := a.toNat_lt
  have hb := b.toNat_lt
  have hc := c.toNat_lt
  have hfirst : a.toNat / 4 * 4 + (a.toNat % 4 * 16 + b.toNat / 16) / 16 = a.toNat := by omega
  have hsecond : (a.toNat % 4 * 16 + b.toNat / 16) % 16 * 16 +
      (b.toNat % 16 * 4 + c.toNat / 64) / 4 = b.toNat := by omega
  have hthird : (b.toNat % 16 * 4 + c.toNat / 64) % 4 * 64 + c.toNat % 64 = c.toNat := by omega
  simp only [quantum, value_char (n := a.toNat / 4) (by omega),
    value_char (n := a.toNat % 4 * 16 + b.toNat / 16) (by omega),
    value_char (n := b.toNat % 16 * 4 + c.toNat / 64) (by omega),
    value_char (n := c.toNat % 64) (by omega),
    char_ne_pad (n := b.toNat % 16 * 4 + c.toNat / 64) (by omega),
    char_ne_pad (n := c.toNat % 64) (by omega), Option.bind_eq_bind, Option.bind_some, false_and,
    if_false, hfirst, hsecond, hthird, UInt8.ofNat_toNat]

end quantum

/-- **Decoding undoes encoding.** -/
theorem decode_encode (s : List UInt8) : decode (encode s) = some s := by
  induction s using sextets.induct with
  | case1 => rfl
  | case2 a =>
    change decode [_, _, 61, 61] = _
    simp only [decode, quantum_one, Option.bind_eq_bind, Option.bind_some, if_true]
    rfl
  | case3 a b =>
    change decode [_, _, _, 61] = _
    simp only [decode, quantum_two, Option.bind_eq_bind, Option.bind_some, if_true]
    rfl
  | case4 a b c rest ih =>
    have hpad : padding (a :: b :: c :: rest).length = padding rest.length := by
      simp only [padding, List.length_cons]
      congr 2
      omega
    have hencode : encode (a :: b :: c :: rest) =
        char (a.toNat / 4) :: char (a.toNat % 4 * 16 + b.toNat / 16) ::
          char (b.toNat % 16 * 4 + c.toNat / 64) :: char (c.toNat % 64) :: encode rest := by
      simp only [encode, sextets, hpad, List.map_cons, List.cons_append]
    rw [hencode]
    simp only [decode, quantum_three, Option.bind_eq_bind, Option.bind_some, if_true, ih]
    rfl

/-! ## Lines -/

theorem breakLines_short {width room : Nat} {cs : List UInt8} (h : cs.length ≤ room) :
    breakLines width room cs = cs := by
  induction cs generalizing room with
  | nil => cases room <;> rfl
  | cons c cs ih =>
    rw [List.length_cons] at h
    cases room with
    | zero => omega
    | succ room => rw [breakLines, ih (by omega)]

theorem breakLines_long {width room : Nat} {cs : List UInt8} (h : room < cs.length) :
    10 ∈ breakLines width room cs := by
  induction cs generalizing room with
  | nil => simp at h
  | cons c cs ih =>
    rw [List.length_cons] at h
    cases room with
    | zero => exact List.mem_cons_self
    | succ room => exact List.mem_cons_of_mem _ (ih (by omega))

end Lib.Base64
