/-!
# Objects that are created and deleted by hand

An object has an identity, which is given out once. `Holds` says that it is
alive and what it is, `Deleted` that it was alive. To read or to delete an
identity with no living object behind it is undefined, here the error `Dead`.
-/

namespace Lib

/-- The objects created so far, in that order; a deleted one leaves its place empty. -/
structure Objects (α : Type) where
  slots : List (Option α)
  deriving DecidableEq

namespace Objects

/-- An identity was used that has no living object. -/
structure Dead where
  id : Nat
  deriving DecidableEq

section
variable {α : Type} (os : Objects α)

def Holds (i : Nat) (a : α) : Prop := os.slots[i]? = some (some a)

def Deleted (i : Nat) : Prop := os.slots[i]? = some none

def new (a : α) : Nat × Objects α := (os.slots.length, ⟨os.slots ++ [some a]⟩)

def get (i : Nat) : Except Dead α :=
  match os.slots[i]? with
  | some (some a) => .ok a
  | _ => .error ⟨i⟩

def delete (i : Nat) : Except Dead (Objects α) :=
  match os.slots[i]? with
  | some (some _) => .ok ⟨os.slots.set i none⟩
  | _ => .error ⟨i⟩

variable {os} {i j : Nat} {a b : α}

/-- A new object has an identity of its own. -/
theorem Holds.ne_new (h : os.Holds i a) : i ≠ (os.new b).1 := by
  obtain ⟨hlt, -⟩ := List.getElem?_eq_some_iff.mp h
  exact Nat.ne_of_lt hlt

theorem holds_new : (os.new a).2.Holds (os.new a).1 a := by
  rw [Holds, new, List.getElem?_append_right (Nat.le_refl _), Nat.sub_self]
  rfl

/-- What is alive stays so when another object is created. -/
theorem Holds.new (h : os.Holds i a) : (os.new b).2.Holds i a := by
  obtain ⟨hlt, -⟩ := List.getElem?_eq_some_iff.mp h
  exact (List.getElem?_append_left hlt).trans h

/-- An identity is not given out again. -/
theorem Deleted.new (h : os.Deleted i) : (os.new b).2.Deleted i := by
  obtain ⟨hlt, -⟩ := List.getElem?_eq_some_iff.mp h
  exact (List.getElem?_append_left hlt).trans h

theorem Holds.not_deleted (h : os.Holds i a) : ¬ os.Deleted i := by
  intro hdead
  cases h.symm.trans hdead

theorem Holds.get (h : os.Holds i a) : os.get i = .ok a := by
  rw [Objects.get, h]

theorem Deleted.get (h : os.Deleted i) : os.get i = .error ⟨i⟩ := by
  rw [Objects.get, h]

theorem Deleted.delete (h : os.Deleted i) : os.delete i = .error ⟨i⟩ := by
  rw [Objects.delete, h]

/-- **A living object can be deleted, and only that one is.** -/
theorem Holds.delete (h : os.Holds i a) : ∃ os', os.delete i = .ok os' ∧ os'.Deleted i ∧
    ∀ j b, j ≠ i → os.Holds j b → os'.Holds j b := by
  obtain ⟨hlt, -⟩ := List.getElem?_eq_some_iff.mp h
  refine ⟨⟨os.slots.set i none⟩, ?_, ?_, ?_⟩
  · rw [Objects.delete, h]
  · exact List.getElem?_set_self hlt
  · intro j b hne hheld
    exact (List.getElem?_set_ne (Ne.symm hne)).trans hheld

/-- Behind a creation nothing is alive but what was and the new one. -/
theorem Holds.of_new (h : (os.new b).2.Holds i a) : os.Holds i a ∨ i = (os.new b).1 ∧ a = b := by
  rcases Nat.lt_or_ge i os.slots.length with hlt | hge
  · exact .inl ((List.getElem?_append_left hlt).symm.trans h)
  · have hlast : [some b][i - os.slots.length]? = some (some a) :=
      (List.getElem?_append_right hge).symm.trans h
    obtain ⟨hbound, hget⟩ := List.getElem?_eq_some_iff.mp hlast
    have hindex : i - os.slots.length = 0 := Nat.lt_one_iff.mp hbound
    refine .inr ⟨Nat.le_antisymm (Nat.sub_eq_zero_iff_le.mp hindex) hge, ?_⟩
    simp only [hindex, List.getElem_cons_zero] at hget
    exact (Option.some.inj hget).symm

/-- Behind a deletion nothing is alive but what was, without the deleted one. -/
theorem Holds.of_delete {os' : Objects α} (hdelete : os.delete i = .ok os') (h : os'.Holds j b) :
    os.Holds j b ∧ j ≠ i := by
  unfold Objects.delete at hdelete
  split at hdelete
  · cases hdelete
    have hne : j ≠ i := by
      rintro rfl
      obtain ⟨hlt, -⟩ := List.getElem?_eq_some_iff.mp h
      rw [List.length_set] at hlt
      cases (List.getElem?_set_self hlt).symm.trans h
    exact ⟨(List.getElem?_set_ne (Ne.symm hne)).symm.trans h, hne⟩
  · cases hdelete

end

end Objects

end Lib
