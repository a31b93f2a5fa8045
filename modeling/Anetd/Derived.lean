import Anetd.Simulation

/-!
# Responses of a derived class

What the parser does to a response is known from `update` and from its ways out
(`parse_rule`). And it does to the base part of any response what it does to a
plain `HttpResponse`, and nothing to the rest of it (`parse_mirrors`).
-/

namespace Anetd

open Lib.Machine

/-! ## The rule of the parser -/

section rule
variable {R : Type} [ResponseClass R] {d : Disconnection} {I : R → Prop} {E : Exit R → Prop}

/-- What `update` keeps of a response and the ways out make of it, holds of the
whole parser. -/
theorem parse_rule (hupdate : ∀ f r, Sparing f → I r → I (update f r))
    (hbad : ∀ e r, I r → E ⟨.error (.threw .badLexicalCast), e, r⟩)
    (hrefuse : ∀ f : Frame R, I f.response → E (refuse f))
    (hredirect : ∀ f : Frame R, I f.response → E (redirect d f))
    {f : Frame R} (hf : I f.response) (bs : Bytes) :
    Both E (fun g => I g.response) (parse d f bs) := by
  have hS : Simulates fun q r : R => q = r ∧ I r :=
    ⟨fun h => by rw [h.1], fun hf h => ⟨by rw [h.1], hupdate _ _ hf h.2⟩⟩
  have hE : Leaving d d f.engine f.engine (fun q r : R => q = r ∧ I r) fun _ y => E y :=
    ⟨fun h => hbad _ _ h.2, fun l _ r h => hrefuse ⟨l, _, r⟩ h.2,
      fun l _ r _ _ h => hredirect ⟨l, _, r⟩ h.2⟩
  have hrelated := parse_simulates hS hE (f := f) (g := f)
    ⟨f.toLocals, _, _, ⟨rfl, hf⟩, rfl, rfl⟩ bs
  rcases hrelated.cases with ⟨x, y, -, hy, hexit⟩ | ⟨s, t, -, ht, l, q, r, ⟨-, hr⟩, -, rfl⟩
  · rw [hy]
    exact hexit
  · rw [ht]
    exact hr

end rule

/-! ## A derived class beside the base class -/

section mirrors
variable {R : Type} [ResponseClass R] {α : Type}

/-- A response with a base part and a rest. -/
def Composed (rest : R → α) (a : α) (b : HttpResponse) (r : R) : Prop := base r = b ∧ rest r = a

/-- Calls that end alike; a number that is none leaves the response as it is. -/
def EndsAlike (rest : R → α) (a : α) (x : Exit HttpResponse) (y : Exit R) : Prop :=
  x.result = y.result ∧ x.engine = y.engine ∧
    (x.result = .error (.threw .badLexicalCast) → Composed rest a x.response y.response)

variable {rest : R → α} {a : α}

theorem redirect_ends (d : Disconnection) (l : Locals) (e : Engine) (b : HttpResponse) (r : R) :
    EndsAlike rest a (redirect d ⟨l, e, b⟩) (redirect d ⟨l, e, r⟩) := by
  have exits (e : Engine) {x : Exn} (hx : (e.disconnect d).2 = some x) {b : HttpResponse} {r : R} :
      EndsAlike rest a ⟨.error (.threw x), (e.disconnect d).1, b⟩
        ⟨.error (.threw x), (e.disconnect d).1, r⟩ := by
    obtain ⟨se, rfl⟩ := e.disconnect_exn d hx
    exact ⟨rfl, rfl, fun h => by cases h⟩
  by_cases htimes : 5 < e.redirtimes
  · rw [redirect_beyond d htimes, redirect_beyond d htimes]
    cases hd : (e.counted.disconnect d).2 with
    | none => exact ⟨rfl, rfl, fun h => by cases h⟩
    | some x => exact exits _ hd
  · cases hurl : l.tempheaders.find? (str "Location") with
    | none =>
      rw [redirect_lost d (f := ⟨l, e, b⟩) htimes hurl,
        redirect_lost d (f := ⟨l, e, r⟩) htimes hurl]
      exact ⟨rfl, rfl, fun h => by cases h⟩
    | some url =>
      rw [redirect_target d htimes hurl, redirect_target d htimes hurl]
      cases hd : ((e.redirected url).disconnect d).2 with
      | none => exact ⟨rfl, rfl, fun h => by cases h⟩
      | some x => exact exits _ hd

theorem leaving_endsAlike (d : Disconnection) (e : Engine) :
    Leaving d d e e (Composed rest a) (EndsAlike rest a) where
  badLexicalCast h := ⟨rfl, rfl, fun _ => h⟩
  refuse _ _ _ _ := ⟨rfl, rfl, fun h => by cases h⟩
  redirect l b r _ _ _ := redirect_ends d l e b r

/-- **The parser over a derived class is the parser over its base part.** -/
theorem parse_mirrors [LawfulResponse R] (hrest : ∀ f r, rest (update f r) = rest r)
    (d : Disconnection) {l : Locals} {e : Engine} {r : R} (hr : rest r = a) (bs : Bytes) :
    Related (EndsAlike rest a) (Framed e e (Composed rest a)) (parse d ⟨l, e, base r⟩ bs)
      (parse d ⟨l, e, r⟩ bs) := by
  have hS : Simulates (Composed rest a) := by
    refine ⟨fun h => h.1.symm, fun {b r f} _ h => ⟨?_, (hrest f r).trans h.2⟩⟩
    rw [LawfulResponse.base_update, h.1]
    rfl
  exact parse_simulates hS (leaving_endsAlike d e) ⟨l, base r, r, ⟨rfl, hr⟩, rfl, rfl⟩ bs

/-- Where the parser goes on over the base part, it goes on over the whole. -/
theorem parse_mirrors_ok [LawfulResponse R] (hrest : ∀ f r, rest (update f r) = rest r)
    {d : Disconnection} {l l' : Locals} {e e' : Engine} {r : R} {b : HttpResponse} {bs : Bytes}
    (h : parse d ⟨l, e, base r⟩ bs = .ok ⟨l', e', b⟩) :
    ∃ r', parse d ⟨l, e, r⟩ bs = .ok ⟨l', e', r'⟩ ∧ base r' = b ∧ rest r' = rest r := by
  have hmirrors := parse_mirrors hrest d (l := l) (e := e) (r := r) rfl bs
  rw [h] at hmirrors
  rcases hmirrors.cases with ⟨x, y, hx, -⟩ | ⟨f, g, hf, hg, l₁, b₁, r₁, ⟨hbase, hsame⟩, rfl, rfl⟩
  · cases hx
  · cases hf
    exact ⟨r₁, hg, hbase, hsame⟩

/-- Where it leaves, it leaves alike. -/
theorem parse_mirrors_error [LawfulResponse R] (hrest : ∀ f r, rest (update f r) = rest r)
    {d : Disconnection} {l : Locals} {e : Engine} {r : R} {x : Exit HttpResponse} {bs : Bytes}
    (h : parse d ⟨l, e, base r⟩ bs = .error x) :
    ∃ y, parse d ⟨l, e, r⟩ bs = .error y ∧ EndsAlike rest (rest r) x y := by
  have hmirrors := parse_mirrors hrest d (l := l) (e := e) (r := r) rfl bs
  rw [h] at hmirrors
  rcases hmirrors.cases with ⟨x', y, hx, hy, hends⟩ | ⟨f, g, hf, -⟩
  · cases hx
    exact ⟨y, hy, hends⟩
  · cases hf

end mirrors

end Anetd
