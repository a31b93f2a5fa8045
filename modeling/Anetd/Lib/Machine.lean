/-!
# Machines that read one symbol at a time

A machine has a state, reads symbols, and may leave early with a result. Its
run over a list is `List.foldlM` in `Except`:

* `run_collect`: symbols that a state only collects;
* `run_both`: what every step keeps, every run keeps; `run_both_through`: from a
  symbol on that brings it about;
* `run_related`: two machines whose steps stay related end related;
* `feed_eq_run`: reading pieces, with a test for completion between them,
  is one run over the pieces joined, when a complete state absorbs symbols.
-/

namespace Lib.Machine

variable {σ τ β ε δ : Type}

/-- The run of a machine over a list of symbols. -/
def run (step : σ → β → Except ε σ) (s : σ) (bs : List β) : Except ε σ :=
  bs.foldlM step s

@[simp] theorem run_nil (step : σ → β → Except ε σ) (s : σ) : run step s [] = .ok s := rfl

theorem run_cons (step : σ → β → Except ε σ) (s : σ) (b : β) (bs : List β) :
    run step s (b :: bs) = step s b >>= fun t => run step t bs := by
  simp only [run, List.foldlM_cons]

theorem run_singleton (step : σ → β → Except ε σ) (s : σ) (b : β) :
    run step s [b] = step s b := by
  rw [run_cons]
  cases step s b <;> rfl

theorem run_append (step : σ → β → Except ε σ) (s : σ) (as bs : List β) :
    run step s (as ++ bs) = run step s as >>= fun t => run step t bs := by
  simp only [run, List.foldlM_append]

theorem run_cons_ok {step : σ → β → Except ε σ} {s t : σ} {b : β} (h : step s b = .ok t)
    (bs : List β) : run step s (b :: bs) = run step t bs := by
  rw [run_cons, h]; rfl

theorem run_cons_error {step : σ → β → Except ε σ} {s : σ} {b : β} {x : ε}
    (h : step s b = .error x) (bs : List β) : run step s (b :: bs) = .error x := by
  rw [run_cons, h]; rfl

theorem run_append_ok {step : σ → β → Except ε σ} {s t : σ} {as : List β}
    (h : run step s as = .ok t) (bs : List β) : run step s (as ++ bs) = run step t bs := by
  rw [run_append, h]; rfl

theorem run_append_error {step : σ → β → Except ε σ} {s : σ} {as : List β} {x : ε}
    (h : run step s as = .error x) (bs : List β) : run step s (as ++ bs) = .error x := by
  rw [run_append, h]; rfl

/-- A run that reaches its end has reached every place before it. -/
theorem run_append_eq_ok {step : σ → β → Except ε σ} {s t : σ} {as bs : List β}
    (h : run step s (as ++ bs) = .ok t) : ∃ u, run step s as = .ok u ∧ run step u bs = .ok t := by
  cases hrun : run step s as with
  | error x =>
    rw [run_append_error hrun] at h
    cases h
  | ok u => exact ⟨u, rfl, (run_append_ok hrun bs).symm.trans h⟩

/-- A machine that collects the symbols it keeps, over symbols it only collects. -/
theorem run_collect {α : Type} {step : σ → α → Except ε σ} (put : List α → σ)
    (keep : α → Bool) {bs : List α}
    (h : ∀ acc, ∀ b ∈ bs, step (put acc) b = .ok (put (if keep b then acc ++ [b] else acc)))
    (acc : List α) : run step (put acc) bs = .ok (put (acc ++ bs.filter keep)) := by
  induction bs generalizing acc with
  | nil => rw [List.filter_nil, List.append_nil, run_nil]
  | cons b bs ih =>
    rw [run_cons_ok (h acc b List.mem_cons_self),
      ih (fun a c hc => h a c (List.mem_cons_of_mem _ hc))]
    by_cases hb : keep b = true
    · simp only [hb, if_true, List.filter_cons_of_pos hb, List.append_assoc, List.singleton_append]
    · simp only [hb, Bool.false_eq_true, if_false, List.filter_cons_of_neg hb]

theorem run_collect_all {α : Type} {step : σ → α → Except ε σ} (put : List α → σ) {bs : List α}
    (h : ∀ acc, ∀ b ∈ bs, step (put acc) b = .ok (put (acc ++ [b]))) (acc : List α) :
    run step (put acc) bs = .ok (put (acc ++ bs)) := by
  have collects := run_collect put (fun _ => true) h acc
  rwa [List.filter_eq_self.mpr fun _ _ => rfl] at collects

/-! ## Invariants -/

/-- `I` of a state still running, `E` of a result left early with. -/
def Both (E : ε → Prop) (I : σ → Prop) : Except ε σ → Prop
  | .ok s => I s
  | .error x => E x

theorem Both.imp {E E' : ε → Prop} {I J : σ → Prop} {c : Except ε σ} (hc : Both E I c)
    (hE : ∀ x, E x → E' x) (hI : ∀ s, I s → J s) : Both E' J c := by
  cases c with
  | error x => exact hE x hc
  | ok s => exact hI s hc

theorem Both.bind {E : ε → Prop} {I : σ → Prop} {J : τ → Prop} {c : Except ε σ}
    {k : σ → Except ε τ} (hc : Both E I c) (hk : ∀ s, I s → Both E J (k s)) :
    Both E J (c >>= k) := by
  cases c with
  | error x => exact hc
  | ok s => exact hk s hc

/-- **What every step keeps, every run keeps.** -/
theorem run_both {step : σ → β → Except ε σ} {E : ε → Prop} {I : σ → Prop}
    (hstep : ∀ s b, I s → Both E I (step s b)) {s : σ} (hs : I s) (bs : List β) :
    Both E I (run step s bs) := by
  induction bs generalizing s with
  | nil => exact hs
  | cons b bs ih =>
    rw [run_cons]
    exact (hstep s b hs).bind fun t ht => ih ht

/-- What a step keeps at the cost of one, a run keeps at the cost of its length. -/
theorem run_both_spent {step : σ → β → Except ε σ} {E : ε → Prop} {I : Nat → σ → Prop}
    (hstep : ∀ n s b, I (n + 1) s → Both E (I n) (step s b)) {s : σ} {bs : List β}
    (hs : I bs.length s) : Both E (I 0) (run step s bs) := by
  induction bs generalizing s with
  | nil => exact hs
  | cons b bs ih =>
    rw [run_cons]
    exact (hstep _ s b hs).bind fun t ht => ih ht

/-- What a symbol brings about where a run has led, and every step keeps. -/
theorem run_both_through {step : σ → β → Except ε σ} {E : ε → Prop} {I J : σ → Prop} {s : σ}
    {as : List β} {b : β} (has : Both E J (run step s as)) (hb : ∀ t, J t → Both E I (step t b))
    (hstep : ∀ t c, I t → Both E I (step t c)) (bs : List β) :
    Both E I (run step s (as ++ b :: bs)) := by
  rw [run_append]
  refine has.bind fun t ht => ?_
  rw [run_cons]
  exact (hb t ht).bind fun u hu => run_both hstep hu bs

/-! ## Two machines -/

/-- Two outcomes are related when both go on in related states or both leave
with related results. -/
def Related (E : ε → δ → Prop) (R : σ → τ → Prop) : Except ε σ → Except δ τ → Prop
  | .ok s, .ok t => R s t
  | .error x, .error y => E x y
  | _, _ => False

/-- Related outcomes are two results, or two states. -/
theorem Related.cases {E : ε → δ → Prop} {R : σ → τ → Prop} {a : Except ε σ} {b : Except δ τ}
    (h : Related E R a b) :
    (∃ x y, a = .error x ∧ b = .error y ∧ E x y) ∨ ∃ s t, a = .ok s ∧ b = .ok t ∧ R s t := by
  cases a with
  | error x => cases b with
    | error y => exact .inl ⟨x, y, rfl, rfl, h⟩
    | ok t => exact h.elim
  | ok s => cases b with
    | error y => exact h.elim
    | ok t => exact .inr ⟨s, t, rfl, rfl, h⟩

theorem Related.of_ok {E : ε → δ → Prop} {R : σ → τ → Prop} {s : σ} {b : Except δ τ}
    (h : Related E R (.ok s) b) : ∃ t, b = .ok t ∧ R s t := by
  cases b with
  | error y => exact h.elim
  | ok t => exact ⟨t, rfl, h⟩

theorem Related.to_ok {E : ε → δ → Prop} {R : σ → τ → Prop} {a : Except ε σ} {t : τ}
    (h : Related E R a (.ok t)) : ∃ s, a = .ok s ∧ R s t := by
  cases a with
  | error x => exact h.elim
  | ok s => exact ⟨s, rfl, h⟩

theorem Related.imp {E E' : ε → δ → Prop} {R R' : σ → τ → Prop} {a : Except ε σ}
    {b : Except δ τ} (h : Related E R a b) (hE : ∀ x y, E x y → E' x y)
    (hR : ∀ s t, R s t → R' s t) : Related E' R' a b := by
  rcases h.cases with ⟨x, y, rfl, rfl, hxy⟩ | ⟨s, t, rfl, rfl, hst⟩
  · exact hE x y hxy
  · exact hR s t hst

theorem Related.bind {υ ω : Type} {E : ε → δ → Prop} {R : σ → τ → Prop} {S : υ → ω → Prop}
    {a : Except ε σ} {b : Except δ τ} {f : σ → Except ε υ} {g : τ → Except δ ω}
    (hab : Related E R a b) (hfg : ∀ s t, R s t → Related E S (f s) (g t)) :
    Related E S (a >>= f) (b >>= g) := by
  rcases hab.cases with ⟨x, y, rfl, rfl, h⟩ | ⟨s, t, rfl, rfl, h⟩
  · exact h
  · exact hfg s t h

/-- **Machines whose steps stay related have related runs.** -/
theorem run_related {step : σ → β → Except ε σ} {step' : τ → β → Except δ τ}
    {E : ε → δ → Prop} {R : σ → τ → Prop}
    (hstep : ∀ s t b, R s t → Related E R (step s b) (step' t b))
    {s : σ} {t : τ} (hst : R s t) (bs : List β) :
    Related E R (run step s bs) (run step' t bs) := by
  induction bs generalizing s t with
  | nil => exact hst
  | cons b bs ih =>
    rw [run_cons, run_cons]
    exact (hstep s t b hst).bind fun s' t' h => ih h

/-! ## Input that arrives in pieces -/

/-- Read piece after piece, stopping after the first that completes. -/
def feed (step : σ → β → Except ε σ) (done : σ → Bool) : σ → List (List β) → Except ε σ
  | s, [] => .ok s
  | s, c :: cs => run step s c >>= fun t => if done t then .ok t else feed step done t cs

theorem feed_cons_error {step : σ → β → Except ε σ} {done : σ → Bool} {s : σ} {c : List β}
    {x : ε} (h : run step s c = .error x) (cs : List (List β)) :
    feed step done s (c :: cs) = .error x := by
  rw [feed, h]; rfl

theorem feed_cons_ok {step : σ → β → Except ε σ} {done : σ → Bool} {s t : σ} {c : List β}
    (h : run step s c = .ok t) (cs : List (List β)) :
    feed step done s (c :: cs) = if done t then .ok t else feed step done t cs := by
  rw [feed, h]; rfl

theorem run_done {step : σ → β → Except ε σ} {done : σ → Bool}
    (absorb : ∀ s b, done s = true → step s b = .ok s) {s : σ} (hs : done s = true)
    (bs : List β) : run step s bs = .ok s := by
  induction bs with
  | nil => rfl
  | cons b bs ih => rw [run_cons_ok (absorb s b hs), ih]

/-- **Pieces do not matter.** Reading them in turn is one run over them joined. -/
theorem feed_eq_run {step : σ → β → Except ε σ} {done : σ → Bool}
    (absorb : ∀ s b, done s = true → step s b = .ok s) (s : σ) (cs : List (List β)) :
    feed step done s cs = run step s cs.flatten := by
  induction cs generalizing s with
  | nil => rfl
  | cons c cs ih =>
    rw [List.flatten_cons]
    cases h : run step s c with
    | error x => rw [feed_cons_error h, run_append_error h]
    | ok t =>
      rw [feed_cons_ok h, run_append_ok h]
      split
      · rename_i ht; rw [run_done absorb ht]
      · exact ih t

end Lib.Machine
