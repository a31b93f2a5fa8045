import Anetd.Lib.Regex

/-!
# What the matcher finds first

`Takes` says that an expression, tried at a position, first takes a certain
text and goes on from a certain position; it composes along the constructors,
so the way a greedy expression divides a subject is read off its parts.
`Matches` is the other side: every way the matcher can go on is a match
(`matchAt_sound`), which is what shows that an expression fails, and that what
it captures is part of the subject (`search_captured`).
-/

namespace Lib.Regex

/-- The position with a group's text stored. -/
def Position.store (s : Position) (i : Nat) (u : List UInt8) : Position :=
  { s with captures := fun j => if j = i then some u else s.captures j }

theorem Position.capture_eq {s t : Position} {u : List UInt8} (h : s.rest = u ++ t.rest)
    (i : Nat) : t.capture i s.rest = t.store i u := by
  have htaken : s.rest.take (s.rest.length - t.rest.length) = u := by
    rw [h, List.length_append, Nat.add_sub_cancel, List.take_left]
  rw [Position.capture, htaken, Position.store]

theorem store_same {s : Position} {i : Nat} {u : List UInt8} :
    (s.store i u).captures i = some u :=
  if_pos rfl

theorem store_ne {s : Position} {i j : Nat} {u : List UInt8} (h : j ≠ i) :
    (s.store i u).captures j = s.captures j :=
  if_neg h

/-! ## Every way on is a match -/

/-- The ways an expression can match from one position to another. -/
inductive Matches : Regex → Position → Position → Prop where
  | lineStart {s : Position} (h : s.atLineStart = true) : Matches .lineStart s s
  | chars {accepts : UInt8 → Bool} {s : Position} {c : UInt8} {rest : List UInt8}
      (h : s.rest = c :: rest) (hc : accepts c = true) :
      Matches (.chars accepts) s { s with before := some c, rest := rest }
  | seq {a b : Regex} {s t u : Position} (ha : Matches a s t) (hb : Matches b t u) :
      Matches (.seq a b) s u
  | optNone {a : Regex} {s : Position} : Matches (.opt a) s s
  | optSome {a : Regex} {s t : Position} (h : Matches a s t) : Matches (.opt a) s t
  | starNone {a : Regex} {s : Position} : Matches (.star a) s s
  | starMore {a : Regex} {s t u : Position} (h : Matches a s t)
      (hless : t.rest.length < s.rest.length) (hmore : Matches (.star a) t u) :
      Matches (.star a) s u
  | group {i : Nat} {a : Regex} {s t : Position} (h : Matches a s t) :
      Matches (.group i a) s (t.capture i s.rest)

section
variable {α : Type}

theorem repeated_sound {a : Regex}
    (ha : ∀ (next : Position → Option α) (s : Position) (x : α), a.matchAt next s = some x →
      ∃ t, Matches a s t ∧ next t = some x)
    (n : Nat) (next : Position → Option α) (s : Position) (x : α)
    (h : repeated a.matchAt n next s = some x) : ∃ t, Matches (.star a) s t ∧ next t = some x := by
  induction n generalizing s with
  | zero => exact ⟨s, .starNone, h⟩
  | succ n ih =>
    rw [repeated] at h
    rcases Option.or_eq_some_iff.mp h with hturn | ⟨-, hstop⟩
    · obtain ⟨t, hmatch, ht⟩ := ha _ s x hturn
      split at ht
      · rename_i hless
        obtain ⟨u, hmore, hu⟩ := ih t ht
        exact ⟨u, .starMore hmatch hless hmore, hu⟩
      · cases ht
    · exact ⟨s, .starNone, hstop⟩

/-- **The matcher goes on only from matches.** -/
theorem matchAt_sound (a : Regex) (next : Position → Option α) (s : Position) (x : α)
    (h : a.matchAt next s = some x) : ∃ t, Matches a s t ∧ next t = some x := by
  induction a generalizing next s x with
  | lineStart =>
    rw [matchAt] at h
    split at h
    · rename_i hstart
      exact ⟨s, .lineStart hstart, h⟩
    · cases h
  | chars accepts =>
    rw [matchAt] at h
    split at h
    · cases h
    · rename_i c rest hrest
      split at h
      · rename_i hc
        exact ⟨_, .chars hrest hc, h⟩
      · cases h
  | seq a b iha ihb =>
    obtain ⟨t, hat, ht⟩ := iha _ s x h
    obtain ⟨u, hbu, hu⟩ := ihb _ t x ht
    exact ⟨u, .seq hat hbu, hu⟩
  | opt a iha =>
    rw [matchAt] at h
    rcases Option.or_eq_some_iff.mp h with hsome | ⟨-, hnone⟩
    · obtain ⟨t, hat, ht⟩ := iha _ s x hsome
      exact ⟨t, .optSome hat, ht⟩
    · exact ⟨s, .optNone, hnone⟩
  | star a iha => exact repeated_sound iha s.rest.length next s x h
  | group i a iha =>
    obtain ⟨t, hat, ht⟩ := iha _ s x h
    exact ⟨_, .group hat, ht⟩

theorem matchAt_eq_none {a : Regex} {next : Position → Option α} {s : Position}
    (h : ∀ t, Matches a s t → next t = none) : a.matchAt next s = none := by
  cases hmatch : a.matchAt next s with
  | none => rfl
  | some x =>
    obtain ⟨t, hat, ht⟩ := matchAt_sound a next s x hmatch
    rw [h t hat] at ht
    cases ht

end

/-! ### The matches of simple expressions -/

/-- A match consumes the text between its two positions. -/
theorem Matches.text {a : Regex} {s t : Position} (h : Matches a s t) :
    ∃ u, s.rest = u ++ t.rest := by
  induction h with
  | lineStart => exact ⟨[], rfl⟩
  | @chars p s c rest hrest hc => exact ⟨[c], hrest⟩
  | seq _ _ iha ihb =>
    obtain ⟨u, hu⟩ := iha
    obtain ⟨v, hv⟩ := ihb
    exact ⟨u ++ v, by rw [hu, hv, List.append_assoc]⟩
  | optNone => exact ⟨[], rfl⟩
  | optSome _ ih => exact ih
  | starNone => exact ⟨[], rfl⟩
  | starMore _ _ _ iha ihb =>
    obtain ⟨u, hu⟩ := iha
    obtain ⟨v, hv⟩ := ihb
    exact ⟨u ++ v, by rw [hu, hv, List.append_assoc]⟩
  | group _ ih => exact ih

theorem Matches.chars_inv {p : UInt8 → Bool} {s t : Position}
    (h : Matches (.chars p) s t) : ∃ c, s.rest = c :: t.rest ∧ p c = true := by
  cases h with
  | chars hrest hc => exact ⟨_, hrest, hc⟩

theorem Matches.star_inv {p : UInt8 → Bool} {s t : Position}
    (h : Matches (.star (.chars p)) s t) :
    ∃ u, s.rest = u ++ t.rest ∧ ∀ c ∈ u, p c = true := by
  generalize ha : Regex.star (.chars p) = a at h
  induction h with
  | starNone => exact ⟨[], rfl, fun c hc => by cases hc⟩
  | starMore hturn _ _ _ ih =>
    cases ha
    obtain ⟨c, hrest, hc⟩ := hturn.chars_inv
    obtain ⟨u, hu, hall⟩ := ih rfl
    refine ⟨c :: u, by rw [hrest, hu, List.cons_append], ?_⟩
    exact List.forall_mem_cons.mpr ⟨hc, hall⟩
  | _ => cases ha

theorem Matches.plus_inv {p : UInt8 → Bool} {s t : Position}
    (h : Matches (.plus (.chars p)) s t) :
    ∃ u, u ≠ [] ∧ s.rest = u ++ t.rest ∧ ∀ c ∈ u, p c = true := by
  cases h with
  | seq hfirst hmore =>
    obtain ⟨c, hrest, hc⟩ := hfirst.chars_inv
    obtain ⟨u, hu, hall⟩ := hmore.star_inv
    refine ⟨c :: u, List.cons_ne_nil _ _, by rw [hrest, hu, List.cons_append], ?_⟩
    exact List.forall_mem_cons.mpr ⟨hc, hall⟩

theorem Matches.literal_inv {u : List UInt8} (hne : u ≠ []) {s t : Position}
    (h : Matches (.all (u.map char)) s t) : s.rest = u ++ t.rest := by
  induction u generalizing s with
  | nil => exact absurd rfl hne
  | cons c u ih =>
    cases u with
    | nil =>
      obtain ⟨b, hrest, hb⟩ := Matches.chars_inv h
      rw [hrest, eq_of_beq hb]
      rfl
    | cons c' u =>
      cases h with
      | seq hfirst hmore =>
        obtain ⟨b, hrest, hb⟩ := Matches.chars_inv hfirst
        rw [hrest, eq_of_beq hb, ih (List.cons_ne_nil _ _) hmore]
        rfl

/-! ## The first way -/

/-- The first way on from `s` is the one that takes `u` and goes on from `t`. -/
structure Takes (a : Regex) (s : Position) (u : List UInt8) (t : Position) : Prop where
  text : s.rest = u ++ t.rest
  first : ∀ {α : Type} (next : Position → Option α) (x : α), next t = some x →
    a.matchAt next s = some x

/-- There is no way on at all. -/
def Fails (a : Regex) (s : Position) : Prop := ∀ t, ¬ Matches a s t

theorem Fails.matchAt {a : Regex} {s : Position} (h : Fails a s) {α : Type}
    (next : Position → Option α) : a.matchAt next s = none :=
  matchAt_eq_none fun t ht => absurd ht (h t)

theorem Fails.seq {a b : Regex} {s : Position} (h : Fails a s) : Fails (.seq a b) s := by
  intro t hmatch
  cases hmatch with
  | seq ha _ => exact h _ ha

namespace Takes

variable {a b : Regex} {s t w : Position} {u v : List UInt8}

theorem lineStart (h : s.atLineStart = true) : Takes .lineStart s [] s where
  text := rfl
  first := fun next x hx => by rw [matchAt, if_pos h, hx]

theorem seq (ha : Takes a s u t) (hb : Takes b t v w) : Takes (.seq a b) s (u ++ v) w where
  text := by rw [ha.text, hb.text, List.append_assoc]
  first := fun next x hx => by rw [matchAt, ha.first _ x (hb.first next x hx)]

theorem optSome (h : Takes a s u t) : Takes (.opt a) s u t where
  text := h.text
  first := fun next x hx => by rw [matchAt, h.first next x hx, Option.some_or]

theorem optNone (h : Fails a s) : Takes (.opt a) s [] s where
  text := rfl
  first := fun next x hx => by rw [matchAt, h.matchAt, Option.none_or, hx]

/-- An option that leads nowhere is skipped. -/
theorem optSkip (h : ∀ t', Matches a s t' → Fails b t') (hb : Takes b s u t) :
    Takes (.seq (.opt a) b) s u t where
  text := hb.text
  first := fun next x hx => by
    have hnone : a.matchAt (b.matchAt next) s = none :=
      matchAt_eq_none fun t' ht' => (h t' ht').matchAt next
    rw [matchAt, matchAt, hnone, Option.none_or, hb.first next x hx]

theorem group (i : Nat) (h : Takes a s u t) : Takes (.group i a) s u (t.store i u) where
  text := h.text
  first := fun next x hx => by
    rw [matchAt]
    exact h.first _ x (by rw [Position.capture_eq h.text]; exact hx)

theorem chars {p : UInt8 → Bool} {c : UInt8} {rest : List UInt8} (h : s.rest = c :: rest)
    (hc : p c = true) :
    ∃ t, Takes (.chars p) s [c] t ∧ t.rest = rest ∧ t.captures = s.captures := by
  refine ⟨{ s with before := some c, rest := rest }, ⟨h, ?_⟩, rfl, rfl⟩
  intro α next x hx
  simp only [matchAt, h, hc, if_true, hx]

/-! ### Repetitions -/

/-- From the length of the rest on, the number of turns allowed does not matter. -/
theorem repeated_fuel (a : Regex) {α : Type} (next : Position → Option α) (n m : Nat)
    (hn : s.rest.length ≤ n) (hm : s.rest.length ≤ m) :
    repeated a.matchAt n next s = repeated a.matchAt m next s := by
  have hstuck (s : Position) (hs : s.rest.length ≤ 0) (k : Nat) :
      repeated a.matchAt (k + 1) next s = next s := by
    have hnone : (fun t : Position => if t.rest.length < s.rest.length
        then repeated a.matchAt k next t else none) = fun _ => none := by
      funext t
      rw [if_neg (by omega)]
    rw [repeated, hnone, matchAt_eq_none fun t _ => rfl, Option.none_or]
  induction n generalizing s m with
  | zero =>
    cases m with
    | zero => rfl
    | succ m => exact (hstuck s hn m).symm
  | succ n ih =>
    cases m with
    | zero => exact hstuck s hm n
    | succ m =>
      have hsame : (fun t : Position => if t.rest.length < s.rest.length
          then repeated a.matchAt n next t else none) =
          fun t : Position => if t.rest.length < s.rest.length
            then repeated a.matchAt m next t else none := by
        funext t
        split
        · exact ih m (by omega) (by omega)
        · rfl
      rw [repeated, repeated, hsame]

theorem starStop (h : Fails a s) : Takes (.star a) s [] s where
  text := rfl
  first := fun next x hx => by
    rw [matchAt]
    cases hlength : s.rest.length with
    | zero => exact hx
    | succ n => rw [repeated, h.matchAt, Option.none_or, hx]

theorem starMore (ha : Takes a s u t) (hne : u ≠ []) (hmore : Takes (.star a) t v w) :
    Takes (.star a) s (u ++ v) w where
  text := by rw [ha.text, hmore.text, List.append_assoc]
  first := fun next x hx => by
    have hpos : 0 < u.length := List.length_pos_iff.mpr hne
    have hlength := congrArg List.length ha.text
    rw [List.length_append] at hlength
    obtain ⟨n, hn⟩ : ∃ n, s.rest.length = n + 1 := ⟨s.rest.length - 1, by omega⟩
    have hturn : (fun t : Position => if t.rest.length < s.rest.length
        then repeated a.matchAt n next t else none) t = some x := by
      simp only
      rw [if_pos (by omega), repeated_fuel a next n t.rest.length (by omega) (Nat.le_refl _)]
      exact hmore.first next x hx
    rw [matchAt, hn, repeated, ha.first _ x hturn, Option.some_or]

end Takes

/-! ### Runs of characters -/

section runs
variable {p : UInt8 → Bool} {s : Position} {u v : List UInt8}

theorem fails_chars (h : ∀ c ∈ s.rest.head?, p c = false) : Fails (.chars p) s := by
  intro t hmatch
  obtain ⟨c, hrest, hc⟩ := hmatch.chars_inv
  have hfalse := h c (by rw [hrest]; exact rfl)
  rw [hc] at hfalse
  cases hfalse

/-- A star takes the whole run. -/
theorem takes_star (h : s.rest = u ++ v) (hu : ∀ c ∈ u, p c = true)
    (hv : ∀ c ∈ v.head?, p c = false) :
    ∃ t, Takes (.star (.chars p)) s u t ∧ t.rest = v ∧ t.captures = s.captures := by
  induction u generalizing s with
  | nil =>
    have hstop : Fails (.chars p) s := fails_chars (by rw [h]; exact hv)
    exact ⟨s, .starStop hstop, h, rfl⟩
  | cons c u ih =>
    obtain ⟨hc, hall⟩ := List.forall_mem_cons.mp hu
    obtain ⟨t, hfirst, hrest, hcaptures⟩ := Takes.chars h hc
    obtain ⟨w, hmore, hw, hwcaptures⟩ := ih (s := t) hrest hall
    exact ⟨w, hfirst.starMore (List.cons_ne_nil _ _) hmore, hw, hwcaptures.trans hcaptures⟩

theorem takes_plus (hne : u ≠ []) (h : s.rest = u ++ v) (hu : ∀ c ∈ u, p c = true)
    (hv : ∀ c ∈ v.head?, p c = false) :
    ∃ t, Takes (.plus (.chars p)) s u t ∧ t.rest = v ∧ t.captures = s.captures := by
  cases u with
  | nil => exact absurd rfl hne
  | cons c u =>
    obtain ⟨hc, hall⟩ := List.forall_mem_cons.mp hu
    obtain ⟨t, hfirst, hrest, hcaptures⟩ := Takes.chars h hc
    obtain ⟨w, hmore, hw, hwcaptures⟩ := takes_star (s := t) hrest hall hv
    exact ⟨w, hfirst.seq hmore, hw, hwcaptures.trans hcaptures⟩

theorem takes_literal (hne : u ≠ []) (h : s.rest = u ++ v) :
    ∃ t, Takes (.all (u.map char)) s u t ∧ t.rest = v ∧ t.captures = s.captures := by
  induction u generalizing s with
  | nil => exact absurd rfl hne
  | cons c u ih =>
    obtain ⟨t, hfirst, hrest, hcaptures⟩ := Takes.chars (p := (· == c)) h (beq_self_eq_true c)
    cases u with
    | nil => exact ⟨t, hfirst, hrest, hcaptures⟩
    | cons c' u =>
      obtain ⟨w, hmore, hw, hwcaptures⟩ := ih (List.cons_ne_nil _ _) (s := t) hrest
      exact ⟨w, hfirst.seq hmore, hw, hwcaptures.trans hcaptures⟩

end runs

/-! ## Searches -/

/-- The position behind a part of the subject. -/
def Position.behind (before : Option UInt8) (pre suf : List UInt8) : Position :=
  ⟨pre.getLast?.or before, suf, fun _ => none⟩

/-- What a search finds, it finds behind some part of the subject. -/
theorem searchFrom_eq_some {r : Regex} {before : Option UInt8} {subject : List UInt8}
    {m : Captures} (h : searchFrom r before subject = some m) : ∃ pre suf, subject = pre ++ suf ∧
      r.matchAt (fun t => some t.captures) (.behind before pre suf) = some m := by
  induction subject generalizing before with
  | nil => exact ⟨[], [], rfl, h⟩
  | cons c rest ih =>
    rw [searchFrom] at h
    rcases Option.or_eq_some_iff.mp h with hhere | ⟨-, hlater⟩
    · exact ⟨[], c :: rest, rfl, hhere⟩
    · obtain ⟨pre, suf, rfl, hmatch⟩ := ih hlater
      refine ⟨c :: pre, suf, rfl, ?_⟩
      rw [Position.behind] at hmatch ⊢
      cases pre with
      | nil => exact hmatch
      | cons b pre => rwa [List.getLast?_cons_cons]

theorem searchFrom_isSome (r : Regex) (before : Option UInt8) (subject : List UInt8) :
    (searchFrom r before subject).isSome ↔ ∃ pre suf, subject = pre ++ suf ∧
      (r.matchAt (fun t => some t.captures) (.behind before pre suf)).isSome := by
  constructor
  · intro h
    obtain ⟨m, hm⟩ := Option.isSome_iff_exists.mp h
    obtain ⟨pre, suf, hsplit, hmatch⟩ := searchFrom_eq_some hm
    exact ⟨pre, suf, hsplit, by rw [hmatch]; rfl⟩
  · rintro ⟨pre, suf, rfl, h⟩
    induction pre generalizing before with
    | nil =>
      cases suf with
      | nil => exact h
      | cons c suf =>
        rw [List.nil_append, searchFrom, Option.isSome_or, Bool.or_eq_true]
        exact .inl h
    | cons c pre ih =>
      rw [List.cons_append, searchFrom, Option.isSome_or, Bool.or_eq_true]
      refine .inr (ih (some c) ?_)
      rw [Position.behind] at h ⊢
      cases pre with
      | nil => exact h
      | cons b pre => rwa [List.getLast?_cons_cons] at h

/-- What matches at the start is the leftmost match. -/
theorem search_takes {r : Regex} {subject u : List UInt8} {t : Position}
    (h : Takes r ⟨none, subject, fun _ => none⟩ u t) : search r subject = some t.captures := by
  have hfirst := h.first (fun t => some t.captures) t.captures rfl
  cases subject with
  | nil => rw [search, searchFrom, hfirst]
  | cons c rest => rw [search, searchFrom, hfirst, Option.some_or]

/-! ## What is captured -/

section captured
variable {P : UInt8 → Prop}

/-- What is still to come, and what has been captured, satisfy `P`. -/
def Position.Within (P : UInt8 → Prop) (s : Position) : Prop :=
  (∀ c ∈ s.rest, P c) ∧ ∀ i u, s.captures i = some u → ∀ c ∈ u, P c

theorem Matches.captured {a : Regex} {s t : Position} (h : Matches a s t)
    (hs : s.Within P) : t.Within P := by
  induction h with
  | lineStart => exact hs
  | chars h =>
    refine ⟨fun c hc => hs.1 c ?_, hs.2⟩
    rw [h]
    exact List.mem_cons_of_mem _ hc
  | seq _ _ iha ihb => exact ihb (iha hs)
  | optNone => exact hs
  | optSome _ ih => exact ih hs
  | starNone => exact hs
  | starMore _ _ _ ih ihmore => exact ihmore (ih hs)
  | @group i a s t _ ih =>
    refine ⟨(ih hs).1, fun j u hu c hc => ?_⟩
    rw [Position.capture] at hu
    dsimp only at hu
    split at hu
    · rw [← Option.some.inj hu] at hc
      exact hs.1 c (List.mem_of_mem_take hc)
    · exact (ih hs).2 j u hu c hc

/-- **Captures are parts of the subject.** -/
theorem search_captured {r : Regex} {subject : List UInt8} {m : Captures}
    (h : search r subject = some m) (hall : ∀ c ∈ subject, P c) :
    ∀ i u, m i = some u → ∀ c ∈ u, P c := by
  obtain ⟨pre, suf, rfl, hmatchAt⟩ := searchFrom_eq_some h
  obtain ⟨t, hmatch, ht⟩ := matchAt_sound r _ _ m hmatchAt
  have hsuf : ∀ c ∈ suf, P c := fun c hc => hall c (List.mem_append_right pre hc)
  have hcaptured := hmatch.captured (P := P) ⟨hsuf, fun i u hu => by cases hu⟩
  rw [← Option.some.inj ht]
  exact hcaptured.2

end captured

end Lib.Regex
