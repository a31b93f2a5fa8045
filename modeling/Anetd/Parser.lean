import Anetd.Engine
import Anetd.Lib.Machine

/-!
# The response parser, one byte at a time

`step` is the `switch` in `http_engine::receive`: it takes the byte under
`position` and either goes on with new locals or leaves `receive` with a
result. `endOfHeaders` is its longest branch, taken at the line feed that ends
the header section. The move of `position` itself is in `Anetd.Receive`.
-/

namespace Anetd

open Lib (OrdMap)
open Lib.Machine

/-- `http_response_parser_state`. -/
inductive ParserState where
  | version
  | status
  | description
  | headerKey
  | headerValue
  | body
  | ok
  deriving DecidableEq, Repr

/-- The locals of `receive` that the parser uses. -/
structure Locals where
  parserState : ParserState
  version : Bytes
  status : Int
  description : Bytes
  tempheaders : StringMap
  temp : Bytes
  tempkey : Bytes
  tempvalue : Bytes
  deriving DecidableEq

/-- The locals, the engine and the response between two bytes. -/
structure Frame (R : Type) extends Locals where
  engine : Engine
  response : R
  deriving DecidableEq

/-- How a call of `receive` ends: what it returns or why it does not, and the
engine and response it leaves. -/
structure Exit (R : Type) where
  result : Except Stop Bool
  engine : Engine
  response : R

variable {R : Type} [ResponseClass R]

/-- The entry of `receive`. The local `status` is not initialised in the
source; it is assigned before its first use. -/
def Frame.start (e : Engine) (r : R) : Frame R where
  parserState := .version
  version := []
  status := 0
  description := []
  tempheaders := ∅
  temp := []
  tempkey := []
  tempvalue := []
  engine := e
  response := r

/-- `http_engine::parse_status`. -/
def parseStatus (status : Int) : Bool :=
  if status < 300 then true
  else if status ≥ 300 ∧ status < 400 then true
  else false

/-- The lines before the early returns of `false`. -/
def refuse (f : Frame R) : Exit R where
  result := .ok false
  engine := f.engine
  response := ResponseClass.completed
    (update (fun b => (b.setStatus f.status).setDescription f.description) f.response)

/-- One turn of the loop that copies the headers into the response; a
Content-Length that is no `int` throws out of it. -/
def publishHeader (r : R) (header : Bytes × Bytes) : Except R R :=
  let r := update (fun b => b.setHeaders header.1 header.2) r
  if header.1 = str "Content-Length" then
    match lexicalCastInt header.2 with
    | none => .error r
    | some n => .ok (update (fun b => b.setBodySize (sizeOfInt n)) r)
  else .ok r

/-- The redirect branch. -/
def redirect (d : Disconnection) (f : Frame R) : Exit R :=
  let times := f.engine.redirtimes
  let f := { f with engine := { f.engine with redirtimes := times + 1 } }
  if times > 5 then
    match f.engine.disconnect d with
    | (e, some x) => ⟨.error (.threw x), e, f.response⟩
    | (e, none) => refuse { f with engine := e }
  else
    match f.tempheaders.find? (str "Location") with
    | some url =>
      let r := ResponseClass.setURL f.response url
      match { f.engine with url := url }.disconnect d with
      | (e, some x) => ⟨.error (.threw x), e, r⟩
      | (e, none) => ⟨.ok true, e, r⟩
    | none => refuse f

/-- The response object of an accepted status, before its headers. -/
def setup (f : Frame R) : R :=
  update (fun b => ((b.setVersion f.version).setStatus f.status).setDescription f.description)
    f.response

/-- The `'\n'` branch of `ANETD_HEADER_KEY`. -/
def endOfHeaders (d : Disconnection) (f : Frame R) : Except (Exit R) (Frame R) :=
  if ¬ parseStatus f.status then .error (refuse f)
  else if f.status ≥ 300 ∧ f.status < 400 then .error (redirect d f)
  else
    match Lib.Machine.run publishHeader (setup f) f.tempheaders.entries with
    | .error r => .error ⟨.error (.threw .badLexicalCast), f.engine, r⟩
    | .ok r =>
      match f.tempheaders.find? (str "Content-Length") with
      | some _ =>
        .ok { f with
          response := r
          parserState := if (base r).bodySize = 0 then .ok else .body }
      | none =>
        .ok { f with
          response := update (fun b => b.setBodySize 0) r
          parserState := .body }

/-- The `switch` on one byte. In `ANETD_OK` the source skips the rest of the
buffer, which is to let each byte pass. -/
def step (d : Disconnection) (f : Frame R) (c : Byte) : Except (Exit R) (Frame R) :=
  match f.parserState with
  | .version =>
    if c ≠ sp then .ok { f with version := f.version ++ [c] }
    else .ok { f with parserState := .status, temp := [] }
  | .status =>
    if c ≠ sp then .ok { f with temp := f.temp ++ [c] }
    else
      match lexicalCastInt f.temp with
      | none => .error ⟨.error (.threw .badLexicalCast), f.engine, f.response⟩
      | some n => .ok { f with status := n, parserState := .description }
  | .description =>
    if c = cr then .ok f
    else if c ≠ lf then .ok { f with description := f.description ++ [c] }
    else .ok { f with parserState := .headerKey }
  | .headerKey =>
    if c = cr then .ok f
    else if c = lf then endOfHeaders d f
    else if c = colon then .ok f
    else if c ≠ sp then .ok { f with tempkey := f.tempkey ++ [c] }
    else .ok { f with tempvalue := [], parserState := .headerValue }
  | .headerValue =>
    if c = cr then .ok f
    else if c ≠ lf then .ok { f with tempvalue := f.tempvalue ++ [c] }
    else
      .ok { f with
        tempheaders := f.tempheaders.insert f.tempkey f.tempvalue
        tempkey := []
        parserState := .headerKey }
  | .body =>
    let r := update (fun b => b.setBody c) f.response
    .ok { f with
      response := r
      parserState := if (base r).body.length = (base r).bodySize then .ok else .body }
  | .ok => .ok f

/-- The parser over a byte string. -/
abbrev parse (d : Disconnection) (f : Frame R) (bs : Bytes) : Except (Exit R) (Frame R) :=
  Lib.Machine.run (step d) f bs

theorem step_ok_state (d : Disconnection) {f : Frame R} (h : f.parserState = .ok) (c : Byte) :
    step d f c = .ok f := by
  unfold step; rw [h]

/-! ## The end of the headers from status 300 on -/

section final
variable (d : Disconnection) {f : Frame R}

theorem endOfHeaders_redirect (hlow : 300 ≤ f.status) (hhigh : f.status < 400) :
    endOfHeaders d f = .error (redirect d f) := by
  have hp : parseStatus f.status = true := by
    have : ¬ f.status < 300 := by omega
    simp only [parseStatus, this, if_false, ge_iff_le, hlow, hhigh, and_self, if_true]
  simp only [endOfHeaders, hp, not_true_eq_false, if_false, ge_iff_le, hlow, hhigh, and_self,
    if_true]

theorem endOfHeaders_refuse (h : 400 ≤ f.status) : endOfHeaders d f = .error (refuse f) := by
  have hp : parseStatus f.status = false := by
    have hlow : ¬ f.status < 300 := by omega
    have hhigh : ¬ f.status < 400 := by omega
    simp only [parseStatus, hlow, if_false, hhigh, and_false]
  simp only [endOfHeaders, hp, Bool.false_eq_true, not_false_eq_true, if_true]

/-- The engine with the redirect counted. -/
def Engine.counted (e : Engine) : Engine := { e with redirtimes := e.redirtimes + 1 }

/-- The engine with the redirect counted and its target stored. -/
def Engine.redirected (e : Engine) (url : Bytes) : Engine := { e.counted with url := url }

section
variable {l : Locals} {e : Engine} {r : R}

/-- Beyond the limit the response is refused, once the engine is disconnected. -/
theorem redirect_beyond (h : 5 < e.redirtimes) : redirect d ⟨l, e, r⟩ =
    (e.counted.disconnect d).2.elim (refuse ⟨l, (e.counted.disconnect d).1, r⟩) fun x =>
      ⟨.error (.threw x), (e.counted.disconnect d).1, r⟩ := by
  simp only [redirect, gt_iff_lt, h, if_true]
  change (match e.counted.disconnect d with
    | (e, some x) => (⟨.error (.threw x), e, r⟩ : Exit R)
    | (e, none) => refuse ⟨l, e, r⟩) = _
  rcases e.counted.disconnect d with ⟨e', _ | x⟩ <;> rfl

/-- Below it a target is stored first. -/
theorem redirect_target (h : ¬ 5 < e.redirtimes) {url : Bytes}
    (hurl : l.tempheaders.find? (str "Location") = some url) : redirect d ⟨l, e, r⟩ =
      ⟨((e.redirected url).disconnect d).2.elim (.ok true) fun x => .error (.threw x),
        ((e.redirected url).disconnect d).1, ResponseClass.setURL r url⟩ := by
  simp only [redirect, gt_iff_lt, h, if_false, hurl]
  change (match (e.redirected url).disconnect d with
    | (e, some x) => (⟨.error (.threw x), e, ResponseClass.setURL r url⟩ : Exit R)
    | (e, none) => ⟨.ok true, e, ResponseClass.setURL r url⟩) = _
  rcases (e.redirected url).disconnect d with ⟨e', _ | x⟩ <;> rfl

end

theorem redirect_limit (h : 5 < f.engine.redirtimes)
    (hquiet : (f.engine.counted.disconnect d).2 = none) :
    redirect d f = refuse { f with engine := (f.engine.counted.disconnect d).1 } := by
  rw [redirect_beyond d h, hquiet, Option.elim_none]

theorem redirect_limit_throws (h : 5 < f.engine.redirtimes) {x : Exn}
    (hthrows : (f.engine.counted.disconnect d).2 = some x) :
    redirect d f = ⟨.error (.threw x), (f.engine.counted.disconnect d).1, f.response⟩ := by
  rw [redirect_beyond d h, hthrows, Option.elim_some]

theorem redirect_follow (h : ¬ 5 < f.engine.redirtimes) {url : Bytes}
    (hurl : f.tempheaders.find? (str "Location") = some url)
    (hquiet : ((f.engine.redirected url).disconnect d).2 = none) :
    redirect d f = ⟨.ok true, ((f.engine.redirected url).disconnect d).1,
      ResponseClass.setURL f.response url⟩ := by
  rw [redirect_target d h hurl, hquiet, Option.elim_none]

theorem redirect_follow_throws (h : ¬ 5 < f.engine.redirtimes) {url : Bytes}
    (hurl : f.tempheaders.find? (str "Location") = some url) {x : Exn}
    (hthrows : ((f.engine.redirected url).disconnect d).2 = some x) :
    redirect d f = ⟨.error (.threw x), ((f.engine.redirected url).disconnect d).1,
      ResponseClass.setURL f.response url⟩ := by
  rw [redirect_target d h hurl, hthrows, Option.elim_some]

theorem redirect_lost (h : ¬ 5 < f.engine.redirtimes)
    (hurl : f.tempheaders.find? (str "Location") = none) :
    redirect d f = refuse { f with engine := f.engine.counted } := by
  simp only [redirect, gt_iff_lt, h, if_false, hurl]
  rfl

/-- **A redirect throws** when it is to disconnect, and the connection cannot be
shut down. -/
theorem redirect_throws_iff : (∃ stop, (redirect d f).result = .error stop) ↔
    f.engine.ShutdownFails d ∧
      (5 < f.engine.redirtimes ∨ f.tempheaders.find? (str "Location") ≠ none) := by
  have hthrown (e : Engine) {ok : Bool} : (∃ stop, ((e.disconnect d).2.elim
      (.ok ok) fun x => .error (.threw x) : Except Stop Bool) = .error stop) ↔
      e.ShutdownFails d := by
    by_cases hfails : e.ShutdownFails d
    · obtain ⟨se, hse⟩ := e.disconnect_throws d hfails
      rw [hse]
      exact iff_of_true ⟨_, rfl⟩ hfails
    · rw [e.disconnect_quiet d hfails]
      exact iff_of_false (fun ⟨_, h⟩ => nomatch h) hfails
  by_cases htimes : 5 < f.engine.redirtimes
  · have hresult : (redirect d f).result = (f.engine.counted.disconnect d).2.elim (.ok false)
        fun x => .error (.threw x) := by
      rw [redirect_beyond d htimes]
      cases (f.engine.counted.disconnect d).2 <;> rfl
    rw [hresult, hthrown]
    exact (and_iff_left (.inl htimes)).symm
  · rw [or_iff_right htimes]
    cases hurl : f.tempheaders.find? (str "Location") with
    | none =>
      rw [redirect_lost d htimes hurl]
      exact iff_of_false (fun ⟨_, h⟩ => nomatch h) fun h => h.2 rfl
    | some url =>
      rw [redirect_target d htimes hurl, hthrown]
      exact (and_iff_left (Option.some_ne_none url)).symm

end final

/-! ## How the parser can leave -/

/-- The ways out of the parser for an engine: a number that is none, a
response refused, a redirect. -/
inductive Leaves (d : Disconnection) (e : Engine) : Exit R → Prop where
  | badLexicalCast (r : R) : Leaves d e ⟨.error (.threw .badLexicalCast), e, r⟩
  | refused (f : Frame R) (h : f.engine = e) : Leaves d e (refuse f)
  | redirected (f : Frame R) (h : f.engine = e) : Leaves d e (redirect d f)

section leaves
variable (d : Disconnection) (f : Frame R)

theorem endOfHeaders_leaves : Both (Leaves d f.engine)
    (fun g => g.engine = f.engine ∧ (g.parserState = .body ∨ g.parserState = .ok))
    (endOfHeaders d f) := by
  unfold endOfHeaders
  split
  · exact .refused f rfl
  · split
    · exact .redirected f rfl
    · split
      · exact .badLexicalCast _
      · split
        · refine ⟨rfl, ?_⟩
          simp only
          split
          · exact .inr rfl
          · exact .inl rfl
        · exact ⟨rfl, .inl rfl⟩

/-- **What one byte can do**: leave, or go on with the engine untouched. -/
theorem step_leaves (c : Byte) :
    Both (Leaves d f.engine) (fun g => g.engine = f.engine) (step d f c) := by
  unfold step
  split
  · split <;> rfl
  · split
    · rfl
    · split
      · exact .badLexicalCast _
      · rfl
  · split
    · rfl
    · split <;> rfl
  · split
    · rfl
    · split
      · exact (endOfHeaders_leaves d f).imp (fun _ h => h) (fun _ h => h.1)
      · split
        · rfl
        · split <;> rfl
  · split
    · rfl
    · split <;> rfl
  · rfl
  · rfl

theorem parse_leaves (bs : Bytes) :
    Both (Leaves d f.engine) (fun g => g.engine = f.engine) (parse d f bs) := by
  have keeps (g : Frame R) (c : Byte) (hg : g.engine = f.engine) :
      Both (Leaves d f.engine) (fun g => g.engine = f.engine) (step d g c) :=
    hg ▸ step_leaves d g c
  exact run_both keeps rfl bs

theorem parse_error_leaves {bs : Bytes} {x : Exit R} (h : parse d f bs = .error x) :
    Leaves d f.engine x := by
  have hleaves := parse_leaves d f bs
  rwa [h] at hleaves

theorem parse_engine {bs : Bytes} {g : Frame R} (h : parse d f bs = .ok g) :
    g.engine = f.engine := by
  have hleaves := parse_leaves d f bs
  rwa [h] at hleaves

end leaves

/-! ### What the ways out have in common -/

/-- The three outcomes of a redirect: the limit, a target, no target. -/
theorem redirect_cases (d : Disconnection) (f : Frame R) :
    (5 < f.engine.redirtimes ∧
      ((f.engine.counted.disconnect d).2 = none ∧
          redirect d f = refuse { f with engine := (f.engine.counted.disconnect d).1 } ∨
        ∃ se, redirect d f = ⟨.error (.threw (.errorCode se)),
          (f.engine.counted.disconnect d).1, f.response⟩)) ∨
    (¬ 5 < f.engine.redirtimes ∧ ∃ url,
      (redirect d f = ⟨.ok true, ((f.engine.redirected url).disconnect d).1,
          ResponseClass.setURL f.response url⟩ ∨
        ∃ se, redirect d f = ⟨.error (.threw (.errorCode se)),
          ((f.engine.redirected url).disconnect d).1, ResponseClass.setURL f.response url⟩)) ∨
    (¬ 5 < f.engine.redirtimes ∧ redirect d f = refuse { f with engine := f.engine.counted }) := by
  have hexits (e : Engine) : (e.disconnect d).2 = none ∨
      ∃ se, (e.disconnect d).2 = some (.errorCode se) := by
    cases hd : (e.disconnect d).2 with
    | none => exact .inl rfl
    | some x =>
      obtain ⟨se, rfl⟩ := e.disconnect_exn d hd
      exact .inr ⟨se, rfl⟩
  by_cases htimes : 5 < f.engine.redirtimes
  · refine .inl ⟨htimes, ?_⟩
    rcases hexits f.engine.counted with hquiet | ⟨se, hthrows⟩
    · exact .inl ⟨hquiet, redirect_limit d htimes hquiet⟩
    · exact .inr ⟨se, redirect_limit_throws d htimes hthrows⟩
  · right
    cases hurl : f.tempheaders.find? (str "Location") with
    | none => exact .inr ⟨htimes, redirect_lost d htimes hurl⟩
    | some url =>
      refine .inl ⟨htimes, url, ?_⟩
      rcases hexits (f.engine.redirected url) with hquiet | ⟨se, hthrows⟩
      · exact .inl (redirect_follow d htimes hurl hquiet)
      · exact .inr ⟨se, redirect_follow_throws d htimes hurl hthrows⟩

/-- What holds of each outcome holds of a redirect. -/
theorem redirect_rule {E : Exit R → Prop} (d : Disconnection) (f : Frame R)
    (refuses : ∀ e, E (refuse { f with engine := e }))
    (throws : ∀ se e r, r = f.response ∨ (∃ url, r = ResponseClass.setURL f.response url) →
      E ⟨.error (.threw (.errorCode se)), e, r⟩)
    (follows : ∀ e url, E ⟨.ok true, e, ResponseClass.setURL f.response url⟩) :
    E (redirect d f) := by
  rcases redirect_cases d f with
    ⟨-, ⟨-, h⟩ | ⟨se, h⟩⟩ | ⟨-, url, h | ⟨se, h⟩⟩ | ⟨-, h⟩ <;> rw [h]
  · exact refuses _
  · exact throws se _ _ (.inl rfl)
  · exact follows _ url
  · exact throws se _ _ (.inr ⟨url, rfl⟩)
  · exact refuses _

theorem Leaves.noSystemError {d : Disconnection} {e : Engine} {x : Exit R} (h : Leaves d e x)
    (ec : ErrorCode) : x.result ≠ .error (.threw (.systemError ec)) := by
  cases h with
  | badLexicalCast r =>
    intro h
    cases h
  | refused f _ =>
    intro h
    cases h
  | redirected f _ =>
    let E : Exit R → Prop := fun x => x.result ≠ .error (.threw (.systemError ec))
    apply redirect_rule d f (E := E)
    · intro e h
      cases h
    · intro se e r _ h
      cases h
    · intro e url h
      cases h

/-- **Only a redirect below the limit is followed**, and the engine is
disconnected with the redirect counted. -/
theorem Leaves.followed {d : Disconnection} {e : Engine} {x : Exit R} (h : Leaves d e x)
    (hresult : x.result = .ok true) :
    e.redirtimes ≤ 5 ∧ ∃ url, x.engine = ((e.redirected url).disconnect d).1 := by
  cases h with
  | badLexicalCast r => cases hresult
  | refused f _ => cases hresult
  | redirected f hf =>
    rcases redirect_cases d f with
      ⟨-, ⟨-, h⟩ | ⟨se, h⟩⟩ | ⟨htimes, url, h | ⟨se, h⟩⟩ | ⟨-, h⟩
    · rw [h] at hresult; cases hresult
    · rw [h] at hresult; cases hresult
    · rw [h, ← hf]
      exact ⟨Int.not_lt.mp htimes, url, rfl⟩
    · rw [h] at hresult; cases hresult
    · rw [h] at hresult; cases hresult

end Anetd
