import Anetd.Lib.Machine

/-!
# What the steps of a machine show, and what they lead to

`shown` collects what each step of a finite run shows; `run_shown` is the rule
for what holds of a state and all that has been shown on the way to it,
`run_part` the rule for what a part of the machine goes through, and
`run_behind` the rule for a second machine that need not take every step. A
`Behaviour` is an infinite run in which a step may be taken at any time. One
that does not leave out a step which stays possible reaches whatever that step
comes closer to and no other step goes away from (`Behaviour.leads`).
-/

namespace Lib.Machine

variable {σ β ε ω : Type} {step : σ → β → Except ε σ}

/-! ## Finite runs -/

/-- What the steps of a run show, up to the first that is not possible. -/
def shown (step : σ → β → Except ε σ) (out : σ → β → List ω) : σ → List β → List ω
  | _, [] => []
  | s, b :: bs => out s b ++
      match step s b with
      | .ok t => shown step out t bs
      | .error _ => []

/-- **What every step keeps of a state and what has been shown, a run keeps.** -/
theorem run_shown {out : σ → β → List ω} {I : σ → List ω → Prop} {bs : List β}
    (hstep : ∀ b ∈ bs, ∀ s o t, I s o → step s b = .ok t → I t (o ++ out s b)) {s t : σ}
    {o : List ω} (hs : I s o) (h : run step s bs = .ok t) : I t (o ++ shown step out s bs) := by
  induction bs generalizing s o with
  | nil =>
    cases h
    rwa [shown, List.append_nil]
  | cons b bs ih =>
    cases hb : step s b with
    | error x =>
      rw [run_cons_error hb] at h
      cases h
    | ok u =>
      rw [run_cons_ok hb] at h
      have hu : I u (o ++ out s b) := hstep b List.mem_cons_self s o u hs hb
      have hkept := ih (fun c hc => hstep c (List.mem_cons_of_mem b hc)) hu h
      rw [shown, hb, ← List.append_assoc]
      exact hkept

/-- **The part of a run is a run of the part**, if the part of every step is one. -/
theorem run_part {τ γ δ : Type} {step' : τ → γ → Except δ τ} {v : σ → τ} {part : σ → β → List γ}
    {I : σ → Prop} (hstep : ∀ s b t, I s → step s b = .ok t →
      I t ∧ run step' (v s) (part s b) = .ok (v t)) {s t : σ} {bs : List β} (hs : I s)
    (h : run step s bs = .ok t) : run step' (v s) (shown step part s bs) = .ok (v t) := by
  have hboth : I t ∧ run step' (v s) ([] ++ shown step part s bs) = .ok (v t) := by
    refine run_shown (I := fun u o => I u ∧ run step' (v s) o = .ok (v u))
      (fun b _ u o w hu hw => ?_) ⟨hs, rfl⟩ h
    obtain ⟨hkept, hpart⟩ := hstep u b w hu.1 hw
    exact ⟨hkept, (run_append_ok hu.2 _).trans hpart⟩
  exact hboth.2

/-- What every step keeps, a run that comes to its end keeps. -/
theorem run_invariant {I : σ → Prop} {bs : List β}
    (hstep : ∀ b ∈ bs, ∀ s t, I s → step s b = .ok t → I t) {s t : σ} (hs : I s)
    (h : run step s bs = .ok t) : I t := by
  induction bs generalizing s with
  | nil =>
    cases h
    exact hs
  | cons b bs ih =>
    cases hb : step s b with
    | error x =>
      rw [run_cons_error hb] at h
      cases h
    | ok u =>
      rw [run_cons_ok hb] at h
      exact ih (fun c hc => hstep c (List.mem_cons_of_mem b hc))
        (hstep b List.mem_cons_self s u hs hb) h

/-! ## Machines that stay behind -/

/-- **Silent steps.** When each step of a machine is one of a second machine
too, or is silent and the second one can wait, the second one can do all that is
not silent in the same order. -/
theorem run_behind {τ δ : Type} {step' : τ → β → Except δ τ} {S : τ → σ → Prop} {silent : β → Bool}
    (hstep : ∀ q p b p', S q p → step p b = .ok p' →
      (silent b = true ∧ S q p') ∨ ∃ q', step' q b = .ok q' ∧ S q' p')
    {q : τ} {p p' : σ} (hqp : S q p) {bs : List β} (h : run step p bs = .ok p') :
    ∃ cs q', cs.Sublist bs ∧ (cs.filter fun c => !silent c) = (bs.filter fun b => !silent b) ∧
      run step' q cs = .ok q' ∧ S q' p' := by
  induction bs generalizing p q with
  | nil =>
    cases h
    exact ⟨[], q, .slnil, rfl, rfl, hqp⟩
  | cons b bs ih =>
    cases hb : step p b with
    | error x =>
      rw [run_cons_error hb] at h
      cases h
    | ok u =>
      rw [run_cons_ok hb] at h
      rcases hstep q p b u hqp hb with ⟨hsilent, hu⟩ | ⟨r, hr, hu⟩
      · obtain ⟨cs, q', hsub, hsame, hcs, hq'⟩ := ih hu h
        refine ⟨cs, q', hsub.cons b, ?_, hcs, hq'⟩
        rw [hsame]
        simp [hsilent]
      · obtain ⟨cs, q', hsub, hsame, hcs, hq'⟩ := ih hu h
        refine ⟨b :: cs, q', hsub.cons_cons b, ?_, (run_cons_ok hr cs).trans hcs, hq'⟩
        rw [List.filter_cons, List.filter_cons, hsame]

/-! ## Infinite runs -/

/-- An infinite run. At each time there is one step or none. -/
structure Behaviour (step : σ → β → Except ε σ) where
  state : Nat → σ
  act : Nat → Option β
  next : ∀ t, (act t = none ∧ state (t + 1) = state t) ∨
    ∃ b, act t = some b ∧ step (state t) b = .ok (state (t + 1))

namespace Behaviour

variable (r : Behaviour step)

/-- A step that is possible from some time on is taken. -/
def Fair (b : β) : Prop :=
  ∀ t, (∀ u, t ≤ u → ∃ s, step (r.state u) b = .ok s) → ∃ u, t ≤ u ∧ r.act u = some b

variable {r}

/-- What every step keeps, time keeps. -/
theorem invariant {I : σ → Prop} (hstep : ∀ s b s', I s → step s b = .ok s' → I s') {t u : Nat}
    (htu : t ≤ u) (ht : I (r.state t)) : I (r.state u) := by
  induction htu with
  | refl => exact ht
  | @step u _ ih =>
    rcases r.next u with ⟨-, hstays⟩ | ⟨b, -, hb⟩
    · rw [hstays]
      exact ih
    · exact hstep _ _ _ ih hb

/-- A step comes to `D`, or it keeps `I` and does not raise the rank. -/
theorem not_raised {I D : σ → Prop} {rank : σ → Nat}
    (hstep : ∀ s c s', I s → step s c = .ok s' → D s' ∨ (I s' ∧ rank s' ≤ rank s)) {t : Nat}
    (ht : I (r.state t)) (hnever : ∀ u, t ≤ u → ¬ D (r.state u)) {u : Nat} (htu : t ≤ u) :
    I (r.state u) ∧ rank (r.state u) ≤ rank (r.state t) := by
  induction htu with
  | refl => exact ⟨ht, Nat.le_refl _⟩
  | @step u htu ih =>
    rcases r.next u with ⟨-, hstays⟩ | ⟨c, -, hc⟩
    · rwa [hstays]
    · have hafter := hnever (u + 1) (Nat.le_succ_of_le htu)
      obtain ⟨hI, hrank⟩ := (hstep _ _ _ ih.1 hc).resolve_left hafter
      exact ⟨hI, Nat.le_trans hrank ih.2⟩

/-- **What a fair step leads to.** While `I` holds the step is possible and
lowers the rank, and no other step raises it, unless they come to `D`. -/
theorem leads {I D : σ → Prop} (rank : σ → Nat) {b : β} (hfair : r.Fair b)
    (henabled : ∀ s, I s → ∃ s', step s b = .ok s')
    (hstep : ∀ s c s', I s → step s c = .ok s' → D s' ∨ (I s' ∧ rank s' ≤ rank s))
    (hlower : ∀ s s', I s → step s b = .ok s' → D s' ∨ (I s' ∧ rank s' < rank s)) {t : Nat}
    (ht : I (r.state t)) : ∃ u, t ≤ u ∧ D (r.state u) := by
  generalize hn : rank (r.state t) = n
  induction n using Nat.strongRecOn generalizing t with
  | ind n ih =>
    by_cases hreaches : ∃ u, t ≤ u ∧ D (r.state u)
    · exact hreaches
    have hnever : ∀ u, t ≤ u → ¬ D (r.state u) := fun u htu hD => hreaches ⟨u, htu, hD⟩
    -- as long as `D` is not reached the step stays possible, so it is taken
    obtain ⟨u, htu, hact⟩ :=
      hfair t fun u htu => henabled _ (not_raised hstep ht hnever htu).1
    obtain ⟨hI, hrank⟩ := not_raised hstep ht hnever htu
    rcases r.next u with ⟨hnone, -⟩ | ⟨c, hc, htaken⟩
    · cases hnone.symm.trans hact
    · cases hc.symm.trans hact
      obtain ⟨hI', hlower'⟩ := (hlower _ _ hI htaken).resolve_left (hnever (u + 1) (by omega))
      obtain ⟨v, huv, hD⟩ := ih _ (by omega) hI' rfl
      exact ⟨v, by omega, hD⟩

/-! A finite run, and then nothing -/

section finite
variable {s t : σ} {bs : List β}

/-- A run that comes to its end takes its steps one after the other. -/
theorem run_take (h : run step s bs = .ok t) {n : Nat} (hn : n < bs.length) :
    ∃ u v, run step s (bs.take n) = .ok u ∧ step u bs[n] = .ok v ∧
      run step s (bs.take (n + 1)) = .ok v := by
  rw [← List.take_append_drop (n + 1) bs] at h
  obtain ⟨v, hv, -⟩ := run_append_eq_ok h
  have hsplit : bs.take (n + 1) = bs.take n ++ [bs[n]] := by simp
  rw [hsplit] at hv ⊢
  obtain ⟨u, hu, huv⟩ := run_append_eq_ok hv
  rw [run_singleton] at huv
  exact ⟨u, v, hu, huv, hv⟩

/-- The infinite run that takes these steps and no more. -/
def finite (h : run step s bs = .ok t) : Behaviour step where
  state n := (run step s (bs.take n)).toOption.getD t
  act n := bs[n]?
  next n := by
    rcases Nat.lt_or_ge n bs.length with hn | hn
    · obtain ⟨u, v, hu, huv, hv⟩ := run_take h hn
      refine .inr ⟨bs[n], List.getElem?_eq_getElem hn, ?_⟩
      rw [hu, hv]
      exact huv
    · refine .inl ⟨List.getElem?_eq_none hn, ?_⟩
      rw [List.take_of_length_le hn, List.take_of_length_le (by omega)]

/-- It is fair to a step that is not possible at its end. -/
theorem finite_fair (h : run step s bs = .ok t) {b : β} (hnot : ∀ u, step t b ≠ .ok u) :
    (finite h).Fair b := by
  intro n hpossible
  obtain ⟨u, hu⟩ := hpossible (max n bs.length) (Nat.le_max_left _ _)
  have hend : (finite h).state (max n bs.length) = t := by
    have htake : bs.take (max n bs.length) = bs := List.take_of_length_le (Nat.le_max_right _ _)
    simp only [finite, htake, h]
    rfl
  rw [hend] at hu
  exact absurd hu (hnot u)

end finite

end Behaviour

end Lib.Machine
