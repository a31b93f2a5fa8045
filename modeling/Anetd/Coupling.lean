import Anetd.Simulation
import Anetd.Send

/-!
# One class of responses in place of another

Of a response the engine reads the base part, and else only calls its functions.
So two responses that these keep related, and whose base parts agree, cannot be
told apart: a whole transfer does the same with the one as with the other
(`Couples.connect`).
-/

namespace Anetd

open Lib.Machine

/-- Related responses look alike to the engine, and every function that it calls
keeps them related. -/
structure Couples {Q R : Type} [ResponseClass Q] [ResponseClass R] (S : Q → R → Prop) : Prop where
  base : ∀ {q r}, S q r → base q = base r
  update : ∀ {q r} f, S q r → S (update f q) (update f r)
  setURL : ∀ {q r} url, S q r → S (ResponseClass.setURL q url) (ResponseClass.setURL r url)
  flush : ∀ {q r}, S q r → Related (fun x y => x.1 = y.1 ∧ S x.2 y.2) S
    (ResponseClass.flush q) (ResponseClass.flush r)
  completed : ∀ {q r}, S q r → S (ResponseClass.completed q) (ResponseClass.completed r)

section
variable {Q R : Type}

/-- Calls of `receive` that end alike. -/
def Exit.Coupled (S : Q → R → Prop) (x : Exit Q) (y : Exit R) : Prop :=
  x.result = y.result ∧ x.engine = y.engine ∧ S x.response y.response

/-- What `send` has prepared for two such responses. -/
def Prepared.Coupled (S : Q → R → Prop) (p : Prepared Q) (q : Prepared R) : Prop :=
  p.parts = q.parts ∧ p.target = q.target ∧ p.engine = q.engine ∧ S p.response q.response

/-- One engine and one past, with a response of either class. -/
def World.Coupled (S : Q → R → Prop) (w : World Q) (v : World R) : Prop :=
  w.engine = v.engine ∧ w.trace = v.trace ∧ S w.response v.response

end

namespace Couples
variable {Q R : Type} [ResponseClass Q] [ResponseClass R] {S : Q → R → Prop} (hS : Couples S)
include hS

/-! ## A call of `receive` -/

theorem refuse (l : Locals) (e : Engine) {q : Q} {r : R} (h : S q r) :
    (Anetd.refuse ⟨l, e, q⟩).Coupled S (Anetd.refuse ⟨l, e, r⟩) :=
  ⟨rfl, rfl, hS.completed (hS.update _ h)⟩

theorem redirect (d : Disconnection) (l : Locals) (e : Engine) {q : Q} {r : R} (h : S q r) :
    (Anetd.redirect d ⟨l, e, q⟩).Coupled S (Anetd.redirect d ⟨l, e, r⟩) := by
  by_cases htimes : 5 < e.redirtimes
  · rw [redirect_beyond d htimes, redirect_beyond d htimes]
    cases (e.counted.disconnect d).2 with
    | none => exact hS.refuse l _ h
    | some x => exact ⟨rfl, rfl, h⟩
  · cases hurl : l.tempheaders.find? (str "Location") with
    | none =>
      rw [redirect_lost d (f := ⟨l, e, q⟩) htimes hurl,
        redirect_lost d (f := ⟨l, e, r⟩) htimes hurl]
      exact hS.refuse l _ h
    | some url =>
      rw [redirect_target d htimes hurl, redirect_target d htimes hurl]
      exact ⟨rfl, rfl, hS.setURL url h⟩

theorem parse (d : Disconnection) {e : Engine} {f : Frame Q} {g : Frame R}
    (h : Framed e e S f g) (bs : Bytes) :
    Related (Exit.Coupled S) (Framed e e S) (Anetd.parse d f bs) (Anetd.parse d g bs) :=
  parse_simulates ⟨hS.base, fun _ h => hS.update _ h⟩
    ⟨fun h => ⟨rfl, rfl, h⟩, fun l _ _ h => hS.refuse l e h,
      fun l _ _ _ _ h => hS.redirect d l e h⟩ h bs

theorem finish (ending : Option Exn) (l : Locals) (e : Engine) {q : Q} {r : R} (h : S q r) :
    (Anetd.finish ending ⟨l, e, q⟩).Coupled S (Anetd.finish ending ⟨l, e, r⟩) := by
  cases ending with
  | none => exact ⟨rfl, rfl, h⟩
  | some x =>
    simp only [Anetd.finish, handle]
    split
    · exact ⟨rfl, rfl, hS.update _ h⟩
    · exact ⟨rfl, rfl, h⟩

/-- The pieces one after the other. -/
theorem turns (d : Disconnection) (ending : Option Exn) {e : Engine} (ps : List Bytes)
    {f : Frame Q} {g : Frame R} (h : Framed e e S f g) :
    (Anetd.turns d ending ps f).Coupled S (Anetd.turns d ending ps g) := by
  induction ps generalizing f g with
  | nil =>
    obtain ⟨l, q, r, h, rfl, rfl⟩ := h
    exact hS.finish ending l e h
  | cons p ps ih =>
    rcases (hS.parse d h p).cases with ⟨x, y, hx, hy, hends⟩ | ⟨f', g', hf, hg, l, q, r, h, rfl, rfl⟩
    · rw [turns_error hx, turns_error hy]
      exact hends
    · rcases (hS.flush h).cases with ⟨⟨x, q'⟩, ⟨y, r'⟩, hq, hr, hxy, h'⟩ | ⟨q', r', hq, hr, h'⟩
      · rw [turns_fail hf hq, turns_fail hg hr]
        obtain rfl : x = y := hxy
        exact ⟨rfl, rfl, h'⟩
      · by_cases hdone : l.parserState = .ok
        · rw [turns_done hf hq hdone, turns_done hg hr hdone]
          exact ⟨rfl, rfl, hS.completed h'⟩
        · rw [turns_more hf hq hdone, turns_more hg hr hdone]
          exact ih ⟨l, q', r', h', rfl, rfl⟩

theorem receive (d : Disconnection) (reads : List (Read 2048)) (buffer : Buffer) (e : Engine)
    {q : Q} {r : R} (h : S q r) :
    (Anetd.receive d reads buffer e q).1.Coupled S (Anetd.receive d reads buffer e r).1 := by
  rw [receive_turns, receive_turns]
  exact hS.turns d _ _ ⟨_, q, r, h, rfl, rfl⟩

/-! ## A transfer -/

variable {env : Environment} {w : World Q} {v : World R}

theorem prepare (env : Environment) (e : Engine) {q : Q} {r : R} (h : S q r) :
    Option.Rel (Prepared.Coupled S) (Anetd.prepare env e q) (Anetd.prepare env e r) := by
  cases hparts : urlParts (Anetd.base r).url with
  | none =>
    simp only [Anetd.prepare, hS.base h, hparts]
    exact .none
  | some parts =>
    have hparts' : urlParts (Anetd.base q).url = some parts := by rw [hS.base h, hparts]
    by_cases hknown : parts.Known
    · rw [prepare_known env e hparts hknown, prepare_known env e hparts' hknown]
      cases endpoint env parts with
      | none => exact .none
      | some target => exact .some ⟨rfl, rfl, rfl, hS.update _ h⟩
    · rw [prepare_unknown env e hparts hknown, prepare_unknown env e hparts' hknown]
      exact .some ⟨rfl, rfl, rfl, h⟩

theorem transmit (hop : Hop) (parts : UrlParts) (h : w.Coupled S v) :
    (Anetd.transmit hop parts w).1 = (Anetd.transmit hop parts v).1 ∧
      (Anetd.transmit hop parts w).2.Coupled S (Anetd.transmit hop parts v).2 := by
  obtain ⟨e, q, trace⟩ := w
  obtain ⟨_, r, _⟩ := v
  obtain ⟨rfl, rfl, h⟩ := h
  have hsent := hS.update (fun b => b.setContentLength e.body.length) h
  simp only [Anetd.transmit, hS.base hsent]
  cases hop.send with
  | some ec => exact ⟨rfl, rfl, rfl, hsent⟩
  | none =>
    obtain ⟨hresult, hengine, hresponse⟩ := hS.receive hop.disconnection
      (hop.reads (requestText e parts (Anetd.base (Anetd.update
        (fun b => b.setContentLength e.body.length) r)))) hop.buffer e hsent
    exact ⟨hresult, hengine, rfl, hresponse⟩

/-- One hop. -/
theorem send (env : Environment) (hop : Hop) (h : w.Coupled S v) :
    (Anetd.send env hop w).1 = (Anetd.send env hop v).1 ∧
      (Anetd.send env hop w).2.Coupled S (Anetd.send env hop v).2 := by
  obtain ⟨e, q, trace⟩ := w
  obtain ⟨_, r, _⟩ := v
  obtain ⟨rfl, rfl, h⟩ := h
  have hprepare := hS.prepare env e h
  unfold Anetd.send
  simp only
  cases hq : Anetd.prepare env e q with
  | none =>
    cases hr : Anetd.prepare env e r with
    | none => exact ⟨rfl, rfl, rfl, h⟩
    | some p =>
      rw [hq, hr] at hprepare
      cases hprepare
  | some p =>
    cases hr : Anetd.prepare env e r with
    | none =>
      rw [hq, hr] at hprepare
      cases hprepare
    | some p' =>
      rw [hq, hr] at hprepare
      cases hprepare with
      | some hcoupled =>
        obtain ⟨parts, target, e', q'⟩ := p
        obtain ⟨_, _, _, r'⟩ := p'
        obtain ⟨rfl, rfl, rfl, h'⟩ := hcoupled
        have hdial : dial hop (⟨parts, target, e', q'⟩ : Prepared Q) =
            dial hop ⟨parts, target, e', r'⟩ := rfl
        simp only [hdial]
        cases (dial hop (⟨parts, target, e', r'⟩ : Prepared R)).2 with
        | error stop => exact ⟨rfl, rfl, rfl, h'⟩
        | ok => exact hS.transmit hop parts ⟨rfl, rfl, h'⟩

/-- What a transfer comes to: its result, and the world it leaves. -/
abbrev ofOutcome (S : Q → R → Prop) :
    Option (Except Stop Unit × World Q) → Option (Except Stop Unit × World R) → Prop :=
  Option.Rel fun x y => x.1 = y.1 ∧ x.2.Coupled S y.2

theorem sendLoop (env : Environment) (net : Network) (calls : Nat) (h : w.Coupled S v) :
    ofOutcome S (Anetd.sendLoop env net calls w) (Anetd.sendLoop env net calls v) := by
  induction calls generalizing w v with
  | zero => exact .none
  | succ calls ih =>
    have hsend := hS.send env (net w.trace) h
    rw [Anetd.sendLoop, Anetd.sendLoop, ← h.2.1]
    rcases hw : Anetd.send env (net w.trace) w with ⟨result, w'⟩
    rcases hv : Anetd.send env (net w.trace) v with ⟨result', v'⟩
    rw [hw, hv] at hsend
    obtain ⟨rfl, h'⟩ := hsend
    cases result with
    | error stop => exact .some ⟨rfl, h'⟩
    | ok again =>
      cases again with
      | true => exact ih h'
      | false => exact .some ⟨rfl, h'⟩

/-- **A transfer cannot tell coupled responses apart.** -/
theorem connect (env : Environment) (net : Network) (calls : Nat) (h : w.Coupled S v) :
    ofOutcome S (Anetd.connect env net calls w) (Anetd.connect env net calls v) := by
  have hloop := hS.sendLoop env net calls h
  unfold Anetd.connect
  cases hw : Anetd.sendLoop env net calls w with
  | none =>
    cases hv : Anetd.sendLoop env net calls v with
    | none => exact .none
    | some y =>
      rw [hw, hv] at hloop
      cases hloop
  | some x =>
    cases hv : Anetd.sendLoop env net calls v with
    | none =>
      rw [hw, hv] at hloop
      cases hloop
    | some y =>
      rw [hw, hv] at hloop
      cases hloop with
      | some hxy =>
        obtain ⟨result, w'⟩ := x
        obtain ⟨_, v'⟩ := y
        obtain ⟨rfl, hengine, htrace, hresponse⟩ := hxy
        cases result with
        | ok => exact .some ⟨rfl, hengine, congrArg (· ++ [.callback]) htrace, hresponse⟩
        | error stop => exact .some ⟨rfl, hengine, htrace, hresponse⟩

end Couples

end Anetd
