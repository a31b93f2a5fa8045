/-!
# Splitting at separators

`split` makes a token end at every separator, `splitRuns` at every run of
them. Both give at least one token, and an empty one where the text starts or
ends with a separator. `cut` splits once, at the first separator.
-/

namespace Lib.Split

variable {α : Type} (sep : α → Bool)

/-- The tokens between separators; `acc` is the token read so far. -/
def splitFrom (acc : List α) : List α → List (List α)
  | [] => [acc]
  | c :: cs => if sep c then acc :: splitFrom [] cs else splitFrom (acc ++ [c]) cs

def split (text : List α) : List (List α) := splitFrom sep [] text

variable {sep}

/-- Tokens are made of what is no separator. -/
theorem mem_splitFrom {P : α → Prop} {acc text token : List α} (hacc : ∀ c ∈ acc, P c)
    (htext : ∀ c ∈ text, sep c = false → P c) (h : token ∈ splitFrom sep acc text) :
    ∀ c ∈ token, P c := by
  induction text generalizing acc with
  | nil =>
    rw [List.mem_singleton.mp h]
    exact hacc
  | cons c cs ih =>
    obtain ⟨hc, hcs⟩ := List.forall_mem_cons.mp htext
    rw [splitFrom] at h
    split at h
    · rcases List.mem_cons.mp h with rfl | h
      · exact hacc
      · exact ih (fun _ hd => by cases hd) hcs h
    · rename_i hsep
      refine ih (List.forall_mem_append.mpr ⟨hacc, List.forall_mem_singleton.mpr ?_⟩) hcs h
      exact hc (Bool.not_eq_true _ ▸ hsep)

theorem mem_split {P : α → Prop} {text token : List α} (h : token ∈ split sep text)
    (htext : ∀ c ∈ text, sep c = false → P c) : ∀ c ∈ token, P c :=
  mem_splitFrom (fun _ hc => by cases hc) htext h

variable (sep)

/-- The tokens between runs of separators. -/
def splitRunsFrom (acc : List α) : List α → List (List α)
  | [] => [acc]
  | c :: cs => if sep c then acc :: skip cs else splitRunsFrom (acc ++ [c]) cs
where
  /-- Within a run of separators. -/
  skip : List α → List (List α)
    | [] => [[]]
    | c :: cs => if sep c then skip cs else splitRunsFrom [c] cs

def splitRuns (text : List α) : List (List α) := splitRunsFrom sep [] text

section cut
variable [DecidableEq α] {a : α} {text u v : List α}

/-- What is before the first `a`, and what is behind it. -/
def cut (a : α) : List α → Option (List α × List α)
  | [] => none
  | c :: cs => if c = a then some ([], cs) else (cut a cs).map fun uv => (c :: uv.1, uv.2)

theorem cut_append (hu : a ∉ u) (v : List α) : cut a (u ++ a :: v) = some (u, v) := by
  induction u with
  | nil => simp [cut]
  | cons c u ih =>
    simp only [List.mem_cons, not_or] at hu
    obtain ⟨hc, hu⟩ := hu
    rw [List.cons_append, cut, if_neg (Ne.symm hc), ih hu]
    rfl

theorem cut_eq_some (h : cut a text = some (u, v)) : text = u ++ a :: v ∧ a ∉ u := by
  induction text generalizing u with
  | nil => cases h
  | cons c cs ih =>
    rw [cut] at h
    split at h
    · rename_i hc
      cases h
      exact ⟨by rw [hc, List.nil_append], List.not_mem_nil⟩
    · rename_i hc
      obtain ⟨⟨u', v'⟩, hcut, heq⟩ := Option.map_eq_some_iff.mp h
      cases heq
      obtain ⟨rfl, hu⟩ := ih hcut
      refine ⟨rfl, ?_⟩
      simp only [List.mem_cons, not_or]
      exact ⟨Ne.symm hc, hu⟩

end cut

end Lib.Split
