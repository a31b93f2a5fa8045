/-!
# Ordered maps as sorted lists

A map is a list of entries whose keys strictly increase, so that walking the
list is walking the map in key order. `insert` keeps a value that is already
there, `set` replaces it. `find?_insertAll` says what a whole list of
insertions leaves behind, `insertAll_eq_self_iff` when that is nothing new, and
`set_set` that only the last assignment to a key matters.
-/

namespace Lib

/-- A map from `K` to `V`, its entries in key order. -/
structure OrdMap (K V : Type) [LT K] where
  entries : List (K × V)
  sorted : entries.Pairwise fun a b => a.1 < b.1

namespace OrdMap

/-- The first value stored under a key. -/
def lookup {K V : Type} [DecidableEq K] (q : K) : List (K × V) → Option V
  | [] => none
  | (k, v) :: rest => if q = k then some v else lookup q rest

section
variable {K V : Type} [DecidableEq K]

theorem lookup_cons (q : K) (e : K × V) (rest : List (K × V)) :
    lookup q (e :: rest) = if q = e.1 then some e.2 else lookup q rest := rfl

theorem lookup_eq_none_iff {q : K} {l : List (K × V)} :
    lookup q l = none ↔ ∀ e ∈ l, q ≠ e.1 := by
  induction l with
  | nil => simp [lookup]
  | cons e rest ih =>
    simp only [lookup_cons, List.forall_mem_cons, ← ih]
    split
    · rename_i h
      constructor
      · intro found
        cases found
      · exact fun absent => absurd h absent.1
    · rename_i h; exact ⟨fun absent => ⟨h, absent⟩, fun absent => absent.2⟩

/-- The keys with a value are those of the entries. -/
theorem lookup_ne_none_iff {q : K} {l : List (K × V)} : lookup q l ≠ none ↔ q ∈ l.map Prod.fst := by
  rw [ne_eq, lookup_eq_none_iff, List.mem_map]
  constructor
  · intro hnot
    apply Classical.byContradiction
    intro habsent
    exact hnot fun e he heq => habsent ⟨e, he, heq.symm⟩
  · rintro ⟨e, he, heq⟩ hall
    exact hall e he heq.symm

theorem lookup_eq_some {q : K} {v : V} {l : List (K × V)} (h : lookup q l = some v) :
    ∃ l₁ l₂, l = l₁ ++ (q, v) :: l₂ ∧ lookup q l₁ = none := by
  induction l with
  | nil => cases h
  | cons e rest ih =>
    rw [lookup_cons] at h
    split at h
    · rename_i heq
      subst heq
      exact ⟨[], rest, by rw [← Option.some.inj h]; rfl, rfl⟩
    · rename_i hne
      obtain ⟨l₁, l₂, rfl, h₁⟩ := ih h
      exact ⟨e :: l₁, l₂, rfl, by rw [lookup_cons, if_neg hne, h₁]⟩

theorem lookup_eq_some_of_mem {q : K} {v : V} {l : List (K × V)} (h : (q, v) ∈ l)
    (distinct : (l.map Prod.fst).Nodup) : lookup q l = some v := by
  induction l with
  | nil => cases h
  | cons e rest ih =>
    obtain ⟨hfresh, hrest⟩ := List.nodup_cons.mp distinct
    rcases List.mem_cons.mp h with rfl | h
    · rw [lookup_cons, if_pos rfl]
    · have hne : q ≠ e.1 := fun heq => hfresh (heq ▸ List.mem_map_of_mem (f := Prod.fst) h)
      rw [lookup_cons, if_neg hne, ih h hrest]

end

section
variable {K V : Type} [LT K]

theorem ext_entries {m n : OrdMap K V} (h : m.entries = n.entries) : m = n := by
  cases m; cases n; cases h; rfl

instance [DecidableEq K] [DecidableEq V] : DecidableEq (OrdMap K V) := fun m n =>
  decidable_of_iff (m.entries = n.entries) ⟨ext_entries, fun h => h ▸ rfl⟩

instance : EmptyCollection (OrdMap K V) := ⟨⟨[], .nil⟩⟩

/-- The value stored under a key. -/
def find? [DecidableEq K] (m : OrdMap K V) (k : K) : Option V := lookup k m.entries

@[simp] theorem find?_empty [DecidableEq K] (k : K) : (∅ : OrdMap K V).find? k = none := rfl

theorem lookup_eq_none_of_lt [DecidableEq K] [Std.Irrefl (α := K) (· < ·)] {k : K}
    {l : List (K × V)} (h : ∀ e ∈ l, k < e.1) : lookup k l = none := by
  rw [lookup_eq_none_iff]
  intro e he heq
  have hlt := h e he
  rw [← heq] at hlt
  exact Std.Irrefl.irrefl (r := (· < ·)) k hlt

theorem lt_of_not_lt_of_ne [Std.Trichotomous (α := K) (· < ·)] {a k : K} (hge : ¬ k < a)
    (hne : k ≠ a) : a < k := by
  apply Classical.byContradiction
  intro hnot
  exact hne (Std.Trichotomous.trichotomous _ _ hge hnot)

end

section
variable {K V : Type} [LT K] [DecidableEq K] [DecidableLT K]

/-- Put `(k, v)` where it belongs; `keep w v` is what a present value `w` becomes. -/
def place (keep : V → V → V) (k : K) (v : V) : List (K × V) → List (K × V)
  | [] => [(k, v)]
  | (a, w) :: rest =>
    if k < a then (k, v) :: (a, w) :: rest
    else if k = a then (a, keep w v) :: rest
    else (a, w) :: place keep k v rest

theorem mem_place {keep : V → V → V} {k : K} {v : V} {l : List (K × V)} {e : K × V}
    (h : e ∈ place keep k v l) : e.1 = k ∨ ∃ d ∈ l, d.1 = e.1 := by
  induction l with
  | nil => exact .inl (by simp only [place, List.mem_singleton] at h; rw [h])
  | cons d rest ih =>
    simp only [place] at h
    split at h
    · rcases List.mem_cons.mp h with rfl | h
      · exact .inl rfl
      · exact .inr ⟨e, h, rfl⟩
    · split at h
      · rename_i heq
        rcases List.mem_cons.mp h with rfl | h
        · exact .inl heq.symm
        · exact .inr ⟨e, List.mem_cons_of_mem _ h, rfl⟩
      · rcases List.mem_cons.mp h with rfl | h
        · exact .inr ⟨_, List.mem_cons_self, rfl⟩
        · rcases ih h with hk | ⟨c, hc, he⟩
          · exact .inl hk
          · exact .inr ⟨c, List.mem_cons_of_mem _ hc, he⟩

theorem mem_replace {k : K} {v : V} {l : List (K × V)} {e : K × V}
    (h : e ∈ place (fun _ w => w) k v l) : e = (k, v) ∨ e ∈ l := by
  induction l with
  | nil => exact .inl (List.mem_singleton.mp h)
  | cons d rest ih =>
    simp only [place] at h
    split at h
    · exact List.mem_cons.mp h
    · split at h
      · rename_i heq
        rcases List.mem_cons.mp h with rfl | h
        · exact .inl (by rw [heq])
        · exact .inr (List.mem_cons_of_mem _ h)
      · rcases List.mem_cons.mp h with rfl | h
        · exact .inr List.mem_cons_self
        · exact (ih h).imp_right (List.mem_cons_of_mem _)

/-- A key that is not there yet makes one more entry. -/
theorem perm_place (keep : V → V → V) {k : K} (v : V) {l : List (K × V)}
    (h : lookup k l = none) : (place keep k v l).Perm ((k, v) :: l) := by
  induction l with
  | nil => exact .refl _
  | cons e rest ih =>
    rw [lookup_cons] at h
    split at h
    · cases h
    · rename_i hne
      simp only [place, hne, if_false]
      split
      · exact .refl _
      · exact ((ih h).cons e).trans (.swap _ _ _)

theorem place_replace_place [Std.Irrefl (α := K) (· < ·)] (k : K) (v w : V)
    (l : List (K × V)) :
    place (fun _ b => b) k w (place (fun _ b => b) k v l) = place (fun _ b => b) k w l := by
  have self : ¬ k < k := Std.Irrefl.irrefl (r := (· < ·)) k
  induction l with
  | nil => simp only [place, self, if_false, if_true]
  | cons d rest ih =>
    obtain ⟨a, x⟩ := d
    by_cases hlt : k < a
    · simp only [place, hlt, self, if_true, if_false]
    · by_cases heq : k = a
      · subst heq; simp only [place, self, if_false, if_true]
      · simp only [place, hlt, heq, if_false, ih]

theorem place_keep_present [Std.Irrefl (α := K) (· < ·)]
    [Trans (α := K) (· < ·) (· < ·) (· < ·)] {k : K} (v : V) {l : List (K × V)}
    (hsorted : l.Pairwise fun a b => a.1 < b.1) (h : lookup k l ≠ none) :
    place (fun w _ => w) k v l = l := by
  induction l with
  | nil => exact absurd rfl h
  | cons d rest ih =>
    obtain ⟨hd, hrest⟩ := List.pairwise_cons.mp hsorted
    simp only [place]
    split
    · rename_i hlt
      refine absurd (lookup_eq_none_of_lt fun e he => ?_) h
      rcases List.mem_cons.mp he with rfl | he
      · exact hlt
      · exact Trans.trans hlt (hd e he)
    · split
      · rfl
      · rename_i hne
        rw [lookup_cons, if_neg hne] at h
        rw [ih hrest h]

theorem lookup_place [Std.Irrefl (α := K) (· < ·)] [Trans (α := K) (· < ·) (· < ·) (· < ·)]
    (keep : V → V → V) (k : K) (v : V) {l : List (K × V)}
    (h : l.Pairwise fun a b => a.1 < b.1) (q : K) :
    lookup q (place keep k v l) =
      if q = k then some ((lookup k l).elim v fun w => keep w v) else lookup q l := by
  induction l with
  | nil => simp only [place, lookup, Option.elim_none]
  | cons d rest ih =>
    obtain ⟨a, w⟩ := d
    obtain ⟨hd, hrest⟩ := List.pairwise_cons.mp h
    by_cases hlt : k < a
    · have hk : lookup k ((a, w) :: rest) = none := by
        apply lookup_eq_none_of_lt
        intro e he
        rcases List.mem_cons.mp he with rfl | he
        · exact hlt
        · exact Trans.trans hlt (hd e he)
      simp only [place, hlt, if_true, hk, Option.elim_none]
      rw [lookup_cons]
    · by_cases heq : k = a
      · subst heq
        simp only [place, hlt, if_true, if_false, lookup_cons, Option.elim_some]
        split <;> rfl
      · simp only [place, hlt, heq, if_false, lookup_cons, ih hrest]
        by_cases hqa : q = a
        · have hqk : ¬ q = k := fun e => heq (e.symm.trans hqa)
          simp only [hqa, if_true, if_neg (hqa ▸ hqk)]
        · simp only [hqa, if_false]

end

section
variable {K V : Type} [LT K] [DecidableEq K] [DecidableLT K]
variable [Std.Trichotomous (α := K) (· < ·)] [Trans (α := K) (· < ·) (· < ·) (· < ·)]

theorem sorted_place (keep : V → V → V) (k : K) (v : V) {l : List (K × V)}
    (h : l.Pairwise fun a b => a.1 < b.1) :
    (place keep k v l).Pairwise fun a b => a.1 < b.1 := by
  induction l with
  | nil => exact List.pairwise_singleton ..
  | cons d rest ih =>
    obtain ⟨hd, hrest⟩ := List.pairwise_cons.mp h
    simp only [place]
    split
    · rename_i hlt
      refine List.pairwise_cons.mpr ⟨fun e he => ?_, h⟩
      rcases List.mem_cons.mp he with rfl | he
      · exact hlt
      · exact Trans.trans hlt (hd e he)
    · rename_i hge
      split
      · exact List.pairwise_cons.mpr ⟨hd, hrest⟩
      · rename_i hne
        refine List.pairwise_cons.mpr ⟨fun e he => ?_, ih hrest⟩
        rcases mem_place he with hk | ⟨c, hc, hce⟩
        · exact hk ▸ lt_of_not_lt_of_ne hge hne
        · exact hce ▸ hd c hc

/-- Add an entry; a value already there stays. -/
def insert (m : OrdMap K V) (k : K) (v : V) : OrdMap K V :=
  ⟨place (fun w _ => w) k v m.entries, sorted_place _ k v m.sorted⟩

/-- Assign a key; a value already there goes. -/
def set (m : OrdMap K V) (k : K) (v : V) : OrdMap K V :=
  ⟨place (fun _ w => w) k v m.entries, sorted_place _ k v m.sorted⟩

theorem mem_set {m : OrdMap K V} {k : K} {v : V} {e : K × V} (h : e ∈ (m.set k v).entries) :
    e = (k, v) ∨ e ∈ m.entries :=
  mem_replace h

/-- Insert entries in the order of a list, so the first of a key counts. -/
def insertAll (m : OrdMap K V) (l : List (K × V)) : OrdMap K V :=
  l.foldl (fun n e => n.insert e.1 e.2) m

variable [Std.Irrefl (α := K) (· < ·)]

@[simp] theorem find?_insert (m : OrdMap K V) (k q : K) (v : V) :
    (m.insert k v).find? q = if q = k then some ((m.find? k).getD v) else m.find? q := by
  simp only [find?, insert, lookup_place _ _ _ m.sorted]
  cases lookup k m.entries <;> rfl

@[simp] theorem find?_set (m : OrdMap K V) (k q : K) (v : V) :
    (m.set k v).find? q = if q = k then some v else m.find? q := by
  simp only [find?, set, lookup_place _ _ _ m.sorted]
  cases lookup k m.entries <;> rfl

/-- A map keeps what it had, and otherwise has the first inserted value. -/
theorem find?_insertAll (m : OrdMap K V) (l : List (K × V)) (q : K) :
    (m.insertAll l).find? q = (m.find? q).or (lookup q l) := by
  induction l generalizing m with
  | nil => cases h : m.find? q <;> simp [insertAll, lookup, h]
  | cons e rest ih =>
    have hnext : m.insertAll (e :: rest) = (m.insert e.1 e.2).insertAll rest := rfl
    rw [hnext, ih, find?_insert, lookup_cons]
    by_cases hq : q = e.1
    · subst hq
      cases m.find? e.1 <;> simp only [if_true] <;> rfl
    · simp only [hq, if_false]

/-- A value already there stays, and with it the whole map. -/
theorem insert_present {m : OrdMap K V} {k : K} (h : m.find? k ≠ none) (v : V) :
    m.insert k v = m :=
  ext_entries (place_keep_present v m.sorted h)

theorem insertAll_eq_self_iff {m : OrdMap K V} {l : List (K × V)} :
    m.insertAll l = m ↔ ∀ e ∈ l, m.find? e.1 ≠ none := by
  constructor
  · intro hself e he hnone
    have hfind := m.find?_insertAll l e.1
    rw [hself, hnone, Option.none_or] at hfind
    exact lookup_eq_none_iff.mp hfind.symm e he rfl
  · intro hpresent
    induction l with
    | nil => rfl
    | cons e rest ih =>
      have hnext : m.insertAll (e :: rest) = (m.insert e.1 e.2).insertAll rest := rfl
      rw [hnext, insert_present (hpresent e List.mem_cons_self)]
      exact ih fun d hd => hpresent d (List.mem_cons_of_mem _ hd)

theorem set_set (m : OrdMap K V) (k : K) (v w : V) : (m.set k v).set k w = m.set k w :=
  ext_entries (place_replace_place k v w m.entries)

end

end OrdMap
end Lib
