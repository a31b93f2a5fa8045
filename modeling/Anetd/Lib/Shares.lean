import Mathlib.Logic.Function.Basic
import Anetd.Lib.OrdMap

/-!
# Maps that are shared

The entries of a map are divided among owners, each of whom has a list of its
own. `Shares.add` gives a new key to an owner, `Shares.change` lets an owner
assign what it has added last; no one else's list changes.
-/

namespace Lib

open OrdMap

/-- Every entry of the map is in the list of one owner, and there once. -/
structure Shares {ι K V : Type} [LT K] [DecidableEq K] (m : OrdMap K V) (owned : ι → List (K × V)) :
    Prop where
  entries : ∀ k v, m.find? k = some v ↔ ∃ i, (k, v) ∈ owned i
  apart : ∀ i j k v w, (k, v) ∈ owned i → (k, w) ∈ owned j → i = j
  once : ∀ i, ((owned i).map Prod.fst).Nodup

namespace Shares

/-- An owner's list can be exchanged for another one without repetitions. -/
theorem once_update {ι K V : Type} [DecidableEq ι] {owned : ι → List (K × V)}
    (h : ∀ j, ((owned j).map Prod.fst).Nodup) {i : ι} {mine : List (K × V)}
    (hmine : (mine.map Prod.fst).Nodup) (j : ι) :
    ((Function.update owned i mine j).map Prod.fst).Nodup := by
  by_cases hj : j = i
  · rw [hj, Function.update_self]
    exact hmine
  · rw [Function.update_of_ne hj]
    exact h j

section
variable {ι K V : Type} [LT K] [DecidableEq K] {m : OrdMap K V}
variable {owned : ι → List (K × V)}

/-- What is not in the map is no one's. -/
theorem no_one (h : Shares m owned) {k : K} (hfree : m.find? k = none) (i : ι) (v : V) :
    (k, v) ∉ owned i := by
  intro hmem
  cases hfree.symm.trans ((h.entries k v).mpr ⟨i, hmem⟩)

/-- The other entries of an owner have other keys. -/
theorem other (h : Shares m owned) {i : ι} {k : K} {v : V} {rest : List (K × V)}
    (hhead : owned i = (k, v) :: rest) (w : V) : (k, w) ∉ rest := by
  have honce := h.once i
  rw [hhead, List.map_cons, List.nodup_cons] at honce
  exact fun hmem => honce.1 (List.mem_map.mpr ⟨(k, w), hmem, rfl⟩)

/-- **One owner can have everything.** -/
theorem of_entries [Std.Irrefl (α := K) (· < ·)] {i : ι} (hall : owned i = m.entries)
    (hnone : ∀ j, j ≠ i → owned j = []) : Shares m owned := by
  have hdistinct : (m.entries.map Prod.fst).Nodup := by
    refine List.pairwise_map.mpr (m.sorted.imp fun {a b} hlt heq => ?_)
    rw [heq] at hlt
    exact Std.Irrefl.irrefl (r := (· < ·)) b.1 hlt
  have howner {j : ι} {e : K × V} (he : e ∈ owned j) : j = i := by
    by_contra hj
    rw [hnone j hj] at he
    cases he
  constructor
  · intro k v
    constructor
    · intro hfound
      obtain ⟨l₁, l₂, hsplit, -⟩ := lookup_eq_some hfound
      exact ⟨i, by simp [hall, hsplit]⟩
    · rintro ⟨j, hmem⟩
      rw [howner hmem, hall] at hmem
      exact lookup_eq_some_of_mem hmem hdistinct
  · intro j l k v w hj hl
    rw [howner hj, howner hl]
  · intro j
    by_cases hj : j = i
    · rw [hj, hall]
      exact hdistinct
    · rw [hnone j hj]
      exact List.nodup_nil

variable [DecidableEq ι]

/-- What is as it was. -/
theorem same (h : Shares m owned) {i : ι} {mine : List (K × V)} (hmine : owned i = mine) :
    Shares m (Function.update owned i mine) := by
  rwa [← hmine, Function.update_eq_self]

variable [DecidableLT K] [Std.Trichotomous (α := K) (· < ·)]
variable [Trans (α := K) (· < ·) (· < ·) (· < ·)] [Std.Irrefl (α := K) (· < ·)]

/-- **A new key goes to the owner who adds it.** -/
theorem add (h : Shares m owned) {k : K} (hfree : m.find? k = none) (i : ι) (v : V) :
    Shares (m.set k v) (Function.update owned i ((k, v) :: owned i)) := by
  have hnone := h.no_one hfree
  have hmem (j : ι) (e : K × V) : e ∈ Function.update owned i ((k, v) :: owned i) j ↔
      (j = i ∧ e = (k, v)) ∨ e ∈ owned j := by
    by_cases hj : j = i
    · subst hj
      simp
    · simp [hj]
  constructor
  · intro q w
    rw [find?_set]
    split
    · rename_i hq
      subst hq
      constructor
      · intro heq
        cases heq
        exact ⟨i, (hmem i _).mpr (.inl ⟨rfl, rfl⟩)⟩
      · rintro ⟨j, hj⟩
        rcases (hmem j _).mp hj with ⟨-, heq⟩ | hold
        · rw [(Prod.mk.inj heq).2]
        · exact absurd hold (hnone j w)
    · rename_i hq
      rw [h.entries]
      refine exists_congr fun j => (hmem j _).trans ⟨?_, .inr⟩ |>.symm
      rintro (⟨-, heq⟩ | hold)
      · exact absurd (Prod.mk.inj heq).1 hq
      · exact hold
  · intro j l q w w' hj hl
    rcases (hmem j _).mp hj with ⟨hji, hjk⟩ | hjold <;>
      rcases (hmem l _).mp hl with ⟨hli, hlk⟩ | hlold
    · rw [hji, hli]
    · cases hjk
      exact absurd hlold (hnone l w')
    · cases hlk
      exact absurd hjold (hnone j w)
    · exact h.apart j l q w w' hjold hlold
  · refine once_update h.once (List.nodup_cons.mpr ⟨fun hk => ?_, h.once i⟩)
    obtain ⟨⟨q, w⟩, hold, rfl⟩ := List.mem_map.mp hk
    exact hnone i w hold

/-- **A key that is assigned stays with its owner.** -/
theorem change (h : Shares m owned) {i : ι} {k : K} {v : V} {rest : List (K × V)}
    (hhead : owned i = (k, v) :: rest) (w : V) :
    Shares (m.set k w) (Function.update owned i ((k, w) :: rest)) := by
  have hother := h.other hhead
  have hk : (k, v) ∈ owned i := hhead ▸ List.mem_cons_self
  -- what is owned after it was owned before, but for the value of the key
  have hmem (j : ι) (q : K) (x : V) :
      (q, x) ∈ Function.update owned i ((k, w) :: rest) j ↔
        (j = i ∧ q = k ∧ x = w) ∨ (q ≠ k ∧ (q, x) ∈ owned j) := by
    by_cases hj : j = i
    · subst hj
      rw [Function.update_self, hhead]
      by_cases hq : q = k
      · subst hq
        simp [hother]
      · simp [hq]
    · rw [Function.update_of_ne hj]
      by_cases hq : q = k
      · subst hq
        simp only [hj, false_and, ne_eq, not_true_eq_false, or_self, iff_false]
        exact fun hold => hj (h.apart j i q x v hold hk)
      · simp [hj, hq]
  constructor
  · intro q x
    rw [find?_set]
    simp only [hmem]
    split
    · rename_i hq
      simp [hq, eq_comm]
    · rename_i hq
      simp [hq, h.entries]
  · intro j l q x y hj hl
    rcases (hmem j q x).mp hj with ⟨hji, hjk, -⟩ | ⟨hq, hjold⟩ <;>
      rcases (hmem l q y).mp hl with ⟨hli, hlk, -⟩ | ⟨hq', hlold⟩
    · rw [hji, hli]
    · exact absurd hjk hq'
    · exact absurd hlk hq
    · exact h.apart j l q x y hjold hlold
  · have honce := h.once i
    rw [hhead] at honce
    exact once_update h.once honce

end

end Shares

end Lib
