import Anetd.HeaderLines
import Anetd.Url

/-!
# Header names in another case

The parser looks two names up, `Content-Length` and `Location`, and both as
they are spelt. `recased_iff` compares a stream with one whose header names
differ in letter case: they are read alike where neither name decides anything,
or where both spellings decide the same.
-/

namespace Anetd

open Lib.Machine Lib.OrdMap

/-- The name of the header with the target of a redirect. -/
abbrev location : Bytes := str "Location"

/-- The second head is the first one with other letter cases in its names, of
which distinct ones stay distinct up to case. -/
structure Recased (w₁ w₂ : WrittenHead) : Prop where
  version : w₁.version = w₂.version
  code : w₁.code = w₂.code
  description : w₁.description = w₂.description
  headers : List.Forall₂ (fun h k => toLower h.1 = toLower k.1 ∧ h.2 = k.2) w₁.headers w₂.headers
  distinct : ∀ h ∈ w₁.headers, ∀ k ∈ w₁.headers, toLower h.1 = toLower k.1 → h.1 = k.1

/-- The reads have the call walk these bytes, and end like this. -/
structure Walks (e : Engine) (os : List (Read 2048)) (buffer : Buffer) (bs : Bytes)
    (ending : Option Exn) : Prop where
  bytes : walked e os buffer = bs
  ending : (pieces e.httpType os (buffer 0)).2 = ending

theorem Walks.receive {e : Engine} {os : List (Read 2048)} {buffer : Buffer} {bs : Bytes}
    {ending : Option Exn} (h : Walks e os buffer bs ending) (d : Disconnection)
    (r : HttpResponse) : (Anetd.receive d os buffer e r).1 =
      settle (finish ending) (parse d (.start e r) bs) := by
  rw [receive_pieces, h.ending]
  exact congrArg _ (congrArg _ h.bytes)

/-- A read that ends a call throws a `system_error`. -/
theorem pieces_systemError {type : HttpType} (os : List (Read 2048)) (first : Byte) {x : Exn}
    (hx : (pieces type os first).2 = some x) : ∃ ec, x = .systemError ec := by
  induction os generalizing first with
  | nil => cases hx
  | cons o os ih =>
    cases o with
    | data c => exact ih _ hx
    | error ec =>
      simp only [pieces] at hx
      split at hx
      · rename_i y hy
        cases hx
        cases type with
        | plainHttp => exact ⟨ec, (Option.some.inj hy).symm⟩
        | sslHttps =>
          simp only [thrown] at hy
          split at hy <;> cases hy
          exact ⟨.eof, rfl⟩
      · exact ih _ hx

/-- The response is complete behind these bytes. -/
def CompleteAt (d : Disconnection) (e : Engine) (r : HttpResponse) (bs : Bytes) : Prop :=
  ∃ f, parse d (.start e r) bs = .ok f ∧ f.done = true

/-- Two calls return the same, leave the same target, body and size, and
complete the body at the same point. -/
structure SameBehaviour (d : Disconnection) (e : Engine) (r : HttpResponse)
    (w₁ w₂ : WrittenHead) (rest : Bytes) (x y : Exit HttpResponse) : Prop where
  result : x.result = y.result
  engine : x.engine = y.engine
  url : x.response.url = y.response.url
  body : x.response.body = y.response.body
  bodySize : x.response.bodySize = y.response.bodySize
  complete : ∀ part, part <+: rest →
    (CompleteAt d e r (w₁.text ++ part) ↔ CompleteAt d e r (w₂.text ++ part))

/-! ## What a head announces -/

/-- The size that a head announces: none, one that is no `int`, or a size. -/
def WrittenHead.announced (w : WrittenHead) : Option (Option Nat) :=
  (lookup contentLength w.headers).map fun v => (lexicalCastInt v).map sizeOfInt

/-- A body from `len` on is complete after `n` bytes. -/
def Filled (len n : Nat) (a : Option (Option Nat)) : Prop :=
  ∃ size, a = some (some size) ∧ completes len size n

/-- What a call leaves of a body that is not complete. -/
def ended (ending : Option Exn) (body : Bytes) (size : Nat) : Except Stop Bool × Bytes × Nat :=
  match ending with
  | none => (.error .blocked, body, size)
  | some x =>
    if x = .systemError .eof then (.ok false, body, body.length)
    else (.error (.threw x), body, size)

/-- What it returns and leaves as body and size, behind an accepted head. -/
def seen (ending : Option Exn) (r : HttpResponse) (rest : Bytes) :
    Option (Option Nat) → Except Stop Bool × Bytes × Nat
  | none => ended ending (r.body ++ rest) 0
  | some none => (.error (.threw .badLexicalCast), r.body, r.bodySize)
  | some (some size) =>
    if completes r.body.length size rest.length then
      (.ok false, r.body ++ bodyPart r.body.length size rest, size)
    else ended ending (r.body ++ rest) size

/-- Two announcements cannot be told apart: they are the same, or the stream
ends before either of them is reached. -/
def AnnouncedAlike (ending : Option Exn) (r : HttpResponse) (rest : Bytes)
    (a b : Option (Option Nat)) : Prop :=
  a = b ∨ ending = some (.systemError .eof) ∧ a ≠ some none ∧ b ≠ some none ∧
    ¬ Filled r.body.length rest.length a ∧ ¬ Filled r.body.length rest.length b

theorem completes_mono {len size m n : Nat} (h : completes len size m) (hle : m ≤ n) :
    completes len size n := by
  unfold completes reaches at *
  omega

theorem Filled.mono {len m n : Nat} {a : Option (Option Nat)} (h : Filled len m a)
    (hle : m ≤ n) : Filled len n a := by
  obtain ⟨size, ha, hcompletes⟩ := h
  exact ⟨size, ha, completes_mono hcompletes hle⟩

section alike
variable {ending : Option Exn} {r : HttpResponse} {rest : Bytes} {a b : Option (Option Nat)}

theorem seen_filled {size : Nat} (h : completes r.body.length size rest.length) :
    seen ending r rest (some (some size)) =
      (.ok false, r.body ++ bodyPart r.body.length size rest, size) := if_pos h

/-- Before it is complete a body shows its announcement in the size alone, and
there only if the stream does not end. -/
theorem seen_open (hbad : a ≠ some none) (hopen : ¬ Filled r.body.length rest.length a) :
    seen ending r rest a = ended ending (r.body ++ rest) (a.join.getD 0) := by
  match a with
  | none => rfl
  | some none => exact absurd rfl hbad
  | some (some size) => exact if_neg fun h => hopen ⟨size, rfl, h⟩

theorem ended_eq_iff {body : Bytes} {m n : Nat} :
    ended ending body m = ended ending body n ↔ m = n ∨ ending = some (.systemError .eof) := by
  cases ending with
  | none => simp [ended]
  | some x => by_cases hx : x = .systemError .eof <;> simp [ended, hx]

/-- A size of zero is complete at once. -/
theorem size_inj (ha : a ≠ some none) (hb : b ≠ some none)
    (hopen : ¬ Filled r.body.length rest.length a) (hopen' : ¬ Filled r.body.length rest.length b)
    (h : a.join.getD 0 = b.join.getD 0) : a = b := by
  match a, b with
  | none, none => rfl
  | some none, _ => exact absurd rfl ha
  | _, some none => exact absurd rfl hb
  | none, some (some size) => exact absurd ⟨size, rfl, .inl h.symm⟩ hopen'
  | some (some size), none => exact absurd ⟨size, rfl, .inl h⟩ hopen
  | some (some m), some (some n) => exact congrArg (some ∘ some) h

/-- Only a length that is no `int` has the call throw `bad_lexical_cast`. -/
theorem seen_bad_iff (hending : ∀ x, ending = some x → ∃ ec, x = .systemError ec) :
    (seen ending r rest a).1 = .error (.threw .badLexicalCast) ↔ a = some none := by
  have hended (body : Bytes) (size : Nat) :
      (ended ending body size).1 ≠ .error (.threw .badLexicalCast) := by
    cases ending with
    | none => exact fun h => nomatch h
    | some x =>
      obtain ⟨ec, rfl⟩ := hending x rfl
      simp only [ended]
      split <;> exact fun h => nomatch h
  rcases a with _ | _ | size
  · exact iff_of_false (hended _ _) (fun h => nomatch h)
  · exact iff_of_true rfl rfl
  · refine iff_of_false (fun h => ?_) (fun h => nomatch h)
    simp only [seen] at h
    split at h
    · cases h
    · exact hended _ _ h

theorem announced_alike_iff (hending : ∀ x, ending = some x → ∃ ec, x = .systemError ec) :
    (seen ending r rest a = seen ending r rest b ∧ ∀ part, part <+: rest →
      (Filled r.body.length part.length a ↔ Filled r.body.length part.length b)) ↔
    AnnouncedAlike ending r rest a b := by
  constructor
  · rintro ⟨hseen, hfilled⟩
    have hbad : a = some none ↔ b = some none := by
      rw [← seen_bad_iff hending, ← seen_bad_iff hending, hseen]
    by_cases ha : a = some none
    · exact .inl (ha.trans (hbad.mp ha).symm)
    · have hb : b ≠ some none := fun h => ha (hbad.mpr h)
      have hend := hfilled rest List.prefix_rfl
      by_cases hfull : Filled r.body.length rest.length a
      · obtain ⟨m, rfl, hm⟩ := hfull
        obtain ⟨n, rfl, hn⟩ := hend.mp ⟨m, rfl, hm⟩
        rw [seen_filled hm, seen_filled hn] at hseen
        have hsize : m = n := congrArg (fun t => t.2.2) hseen
        exact .inl (congrArg (some ∘ some) hsize)
      · have hfull' := fun h => hfull (hend.mpr h)
        rw [seen_open ha hfull, seen_open hb hfull', ended_eq_iff] at hseen
        rcases hseen with hsize | heof
        · exact .inl (size_inj ha hb hfull hfull' hsize)
        · exact .inr ⟨heof, ha, hb, hfull, hfull'⟩
  · rintro (rfl | ⟨heof, ha, hb, hfull, hfull'⟩)
    · exact ⟨rfl, fun _ _ => Iff.rfl⟩
    · refine ⟨?_, fun part hpart => iff_of_false ?_ ?_⟩
      · rw [seen_open ha hfull, seen_open hb hfull', ended_eq_iff]
        exact .inr heof
      · exact fun h => hfull (h.mono hpart.length_le)
      · exact fun h => hfull' (h.mono hpart.length_le)

end alike

/-! ## Accepted heads -/

section accepted
variable (d : Disconnection) (e : Engine) (r : HttpResponse) {w : WrittenHead} {s : Int}
variable (hcode : lexicalCastInt w.code = some s) (hs : s < 300)
include hcode hs

/-- How the parser takes an accepted head, by what it announces. -/
theorem parse_announces (rest : Bytes) :
    parse d (.start e r) (w.text ++ rest) =
      match w.announced with
      | none => .ok { (w.toHead hcode).locals with
          parserState := .body
          engine := e
          response := ((w.toHead hcode).publish r 0).append rest }
      | some none =>
        .error ⟨.error (.threw .badLexicalCast), e, (w.toHead hcode).abandon r⟩
      | some (some size) => .ok { (w.toHead hcode).locals with
          parserState := if completes r.body.length size rest.length then .ok else .body
          engine := e
          response := ((w.toHead hcode).publish r size).append
            (bodyPart r.body.length size rest) } := by
  unfold WrittenHead.announced
  cases hv : lookup contentLength w.headers with
  | none =>
    rw [← WrittenHead.toHead_text hcode]
    exact parse_unannounced d e r hs ((WrittenHead.toHead_find? hcode _).trans hv) rest
  | some v =>
    simp only [Option.map_some]
    cases hn : lexicalCastInt v with
    | none => exact parse_badLength d e r hcode hs hv hn rest
    | some n => exact parse_length d e r hcode hs hv hn rest

theorem completeAt_accepted (rest : Bytes) :
    CompleteAt d e r (w.text ++ rest) ↔ Filled r.body.length rest.length w.announced := by
  unfold CompleteAt Filled
  rw [parse_announces d e r hcode hs rest]
  rcases w.announced with _ | _ | size
  · refine iff_of_false ?_ ?_
    · rintro ⟨f, hf, hdone⟩
      cases hf
      cases hdone
    · rintro ⟨size, hsize, -⟩
      cases hsize
  · refine iff_of_false ?_ ?_
    · rintro ⟨f, hf, -⟩
      cases hf
    · rintro ⟨size, hsize, -⟩
      cases hsize
  · constructor
    · rintro ⟨f, hf, hdone⟩
      refine ⟨size, rfl, ?_⟩
      apply Classical.byContradiction
      intro hopen
      simp only [if_neg hopen] at hf
      cases hf
      cases hdone
    · rintro ⟨n, hn, hcompletes⟩
      cases hn
      simp only [if_pos hcompletes]
      exact ⟨_, rfl, rfl⟩

/-- What is left of a call behind an accepted head. -/
theorem settle_accepted (rest : Bytes) (ending : Option Exn) :
    let x := settle (finish ending) (parse d (.start e r) (w.text ++ rest))
    x.engine = e ∧ x.response.url = r.url ∧
      (x.result, x.response.body, x.response.bodySize) = seen ending r rest w.announced := by
  -- a frame in the body is finished by the end of the reads
  have finishes (f : Frame HttpResponse) (hf : f.parserState = .body) :
      let x := settle (finish ending) (.ok f)
      x.engine = f.engine ∧ x.response.url = f.response.url ∧
        (x.result, x.response.body, x.response.bodySize) =
          ended ending f.response.body f.response.bodySize := by
    have hdone : f.done = false := by simp only [Frame.done, hf, decide_false, reduceCtorEq]
    simp only [settle, hdone, Bool.false_eq_true, if_false]
    cases ending with
    | none => exact ⟨rfl, rfl, rfl⟩
    | some x =>
      simp only [finish, handle, ended]
      split <;> exact ⟨rfl, rfl, rfl⟩
  rw [parse_announces d e r hcode hs rest]
  rcases w.announced with _ | _ | size
  · exact finishes _ rfl
  · exact ⟨rfl, rfl, rfl⟩
  · by_cases hcompletes : completes r.body.length size rest.length
    · simp only [if_pos hcompletes, seen]
      exact ⟨rfl, rfl, rfl⟩
    · have hpart : bodyPart r.body.length size rest = rest := if_neg hcompletes
      simp only [if_neg hcompletes, hpart, seen]
      exact finishes _ rfl

end accepted

/-! ## Redirects -/

section redirects
variable {d : Disconnection} {e : Engine} {r : HttpResponse} {h k : Head}

/-- What a call leaves apart from version, status, description and headers. -/
def Exit.summary (x : Exit HttpResponse) : Except Stop Bool × Engine × Bytes × Bytes × Nat :=
  (x.result, x.engine, x.response.url, x.response.body, x.response.bodySize)

theorem refuse_summary (e : Engine) : (refuse ⟨h.locals, e, r⟩).summary =
    (.ok false, e, r.url, r.body, r.bodySize) := rfl

theorem redirect_target_ne (htimes : ¬ 5 < e.redirtimes) {url : Bytes}
    (hurl : h.headers.find? location = some url) :
    (redirect d ⟨h.locals, e, r⟩).result ≠ .ok false := by
  rw [redirect_target d htimes hurl]
  cases ((e.redirected url).disconnect d).2 <;> exact fun h => nomatch h

/-- Two redirects are the same when they are beyond the limit, or have the same
target or none. -/
theorem redirect_alike_iff :
    (redirect d ⟨h.locals, e, r⟩).summary = (redirect d ⟨k.locals, e, r⟩).summary ↔
      5 < e.redirtimes ∨ h.headers.find? location = k.headers.find? location := by
  by_cases htimes : 5 < e.redirtimes
  · refine iff_of_true ?_ (.inl htimes)
    rw [redirect_beyond d htimes, redirect_beyond d htimes]
    cases (e.counted.disconnect d).2 <;> rfl
  · rw [or_iff_right htimes]
    have hlost {l : Head} (hl : l.headers.find? location = none) :=
      redirect_lost d (f := ⟨l.locals, e, r⟩) htimes hl
    cases hh : h.headers.find? location with
    | none =>
      cases hk : k.headers.find? location with
      | none =>
        rw [hlost hh, hlost hk]
        exact iff_of_true rfl rfl
      | some url =>
        refine iff_of_false (fun hsame => ?_) fun h => nomatch h
        rw [hlost hh] at hsame
        exact redirect_target_ne htimes hk (congrArg Prod.fst hsame).symm
    | some url =>
      cases hk : k.headers.find? location with
      | none =>
        refine iff_of_false (fun hsame => ?_) fun h => nomatch h
        rw [hlost hk] at hsame
        exact redirect_target_ne htimes hh (congrArg Prod.fst hsame)
      | some url' =>
        rw [redirect_target d htimes hh, redirect_target d htimes hk]
        constructor
        · intro hsame
          exact congrArg some (congrArg (fun t => t.2.2.1) hsame)
        · rintro ⟨⟩
          rfl

end redirects

/-! ## Whole streams -/

/-- What the two spellings have to agree on: the target of a redirect that is
followed, and the length that an accepted head announces. -/
structure CaseBlind (e : Engine) (r : HttpResponse) (w₁ w₂ : WrittenHead) (rest : Bytes)
    (ending : Option Exn) : Prop where
  target : ∀ s, lexicalCastInt w₁.code = some s → 300 ≤ s → s < 400 → e.redirtimes ≤ 5 →
    lookup location w₁.headers = lookup location w₂.headers
  length : ∀ s, lexicalCastInt w₁.code = some s → s < 300 →
    AnnouncedAlike ending r rest w₁.announced w₂.announced

section whole
variable (d : Disconnection) {e : Engine} {r : HttpResponse} {w₁ w₂ : WrittenHead} {rest : Bytes}
variable {ending : Option Exn}

theorem sameBehaviour_iff {x y : Exit HttpResponse} : SameBehaviour d e r w₁ w₂ rest x y ↔
    x.summary = y.summary ∧ ∀ part, part <+: rest →
      (CompleteAt d e r (w₁.text ++ part) ↔ CompleteAt d e r (w₂.text ++ part)) := by
  constructor
  · rintro ⟨hresult, hengine, hurl, hbody, hsize, hcomplete⟩
    refine ⟨?_, hcomplete⟩
    rw [Exit.summary, hresult, hengine, hurl, hbody, hsize, Exit.summary]
  · rintro ⟨hsummary, hcomplete⟩
    exact ⟨congrArg Prod.fst hsummary, congrArg (fun t => t.2.1) hsummary,
      congrArg (fun t => t.2.2.1) hsummary, congrArg (fun t => t.2.2.2.1) hsummary,
      congrArg (fun t => t.2.2.2.2) hsummary, hcomplete⟩

/-- Bytes that make the parser leave complete nothing. -/
theorem not_completeAt {bs : Bytes} {x : Exit HttpResponse}
    (hx : parse d (.start e r) bs = .error x) : ¬ CompleteAt d e r bs := by
  rintro ⟨f, hf, -⟩
  rw [hx] at hf
  cases hf

/-- Streams that start with the two heads look the same from outside. -/
def LookAlike (d : Disconnection) (e : Engine) (r : HttpResponse) (w₁ w₂ : WrittenHead)
    (rest : Bytes) (ending : Option Exn) : Prop :=
  (settle (finish ending) (parse d (.start e r) (w₁.text ++ rest))).summary =
      (settle (finish ending) (parse d (.start e r) (w₂.text ++ rest))).summary ∧
    ∀ part, part <+: rest →
      (CompleteAt d e r (w₁.text ++ part) ↔ CompleteAt d e r (w₂.text ++ part))

section status
variable {s : Int}

theorem badStatus_alike (h₁ : lexicalCastInt w₁.code = none) (h₂ : lexicalCastInt w₂.code = none) :
    LookAlike d e r w₁ w₂ rest ending := by
  have bad₁ (part : Bytes) := parse_badStatus d e r (WrittenHead.badStatus h₁ part)
  have bad₂ (part : Bytes) := parse_badStatus d e r (WrittenHead.badStatus h₂ part)
  refine ⟨?_, fun part _ => ?_⟩
  · rw [bad₁, bad₂]
  · exact iff_of_false (not_completeAt d (bad₁ part)) (not_completeAt d (bad₂ part))

/-- Accepted heads look alike when they announce alike. -/
theorem accepted_alike (h₁ : lexicalCastInt w₁.code = some s)
    (h₂ : lexicalCastInt w₂.code = some s) (hs : s < 300)
    (hending : ∀ x, ending = some x → ∃ ec, x = .systemError ec) :
    LookAlike d e r w₁ w₂ rest ending ↔
      AnnouncedAlike ending r rest w₁.announced w₂.announced := by
  obtain ⟨hengine₁, hurl₁, hseen₁⟩ := settle_accepted d e r h₁ hs rest ending
  obtain ⟨hengine₂, hurl₂, hseen₂⟩ := settle_accepted d e r h₂ hs rest ending
  rw [← announced_alike_iff hending, ← hseen₁, ← hseen₂]
  simp only [LookAlike, completeAt_accepted d e r h₁ hs, completeAt_accepted d e r h₂ hs,
    Exit.summary, hengine₁, hengine₂, hurl₁, hurl₂, Prod.mk.injEq, true_and]

/-- Other heads look alike when they redirect alike. -/
theorem final_alike (h₁ : lexicalCastInt w₁.code = some s)
    (h₂ : lexicalCastInt w₂.code = some s) (hs : ¬ s < 300) :
    LookAlike d e r w₁ w₂ rest ending ↔
      (s < 400 → e.redirtimes ≤ 5 → lookup location w₁.headers = lookup location w₂.headers) := by
  have final₁ (part : Bytes) := parse_final d e r (h := w₁.toHead h₁) hs part
  have final₂ (part : Bytes) := parse_final d e r (h := w₂.toHead h₂) hs part
  rw [WrittenHead.toHead_text] at final₁ final₂
  have hcomplete (part : Bytes) : CompleteAt d e r (w₁.text ++ part) ↔
      CompleteAt d e r (w₂.text ++ part) :=
    iff_of_false (not_completeAt d (final₁ part)) (not_completeAt d (final₂ part))
  rw [LookAlike, and_iff_left fun part _ => hcomplete part, final₁, final₂]
  simp only [settle]
  by_cases hhigh : s < 400
  · have halike := redirect_alike_iff (d := d) (e := e) (r := r) (h := w₁.toHead h₁)
      (k := w₂.toHead h₂)
    rw [WrittenHead.toHead_find?, WrittenHead.toHead_find?] at halike
    have hredirect (l : Locals) : (if s < 400 then redirect d ⟨l, e, r⟩
      else refuse ⟨l, e, r⟩) = redirect d ⟨l, e, r⟩ := if_pos hhigh
    refine Iff.trans (Eq.to_iff ?_) (halike.trans ?_)
    · exact congrArg₂ (fun x y : Exit HttpResponse => x.summary = y.summary)
        (hredirect _) (hredirect _)
    constructor
    · intro hsame _ htimes
      exact hsame.resolve_left (by omega)
    · intro htarget
      by_cases htimes : 5 < e.redirtimes
      · exact .inl htimes
      · exact .inr (htarget hhigh (by omega))
  · have hrefuse (l : Locals) : (if s < 400 then redirect d ⟨l, e, r⟩
      else refuse ⟨l, e, r⟩) = refuse ⟨l, e, r⟩ := if_neg hhigh
    refine iff_of_true ?_ fun hlow => absurd hlow hhigh
    exact ((congrArg Exit.summary (hrefuse _)).trans (refuse_summary e)).trans
      ((congrArg Exit.summary (hrefuse _)).trans (refuse_summary e)).symm

theorem caseBlind_iff (h₁ : lexicalCastInt w₁.code = some s) :
    CaseBlind e r w₁ w₂ rest ending ↔
      (300 ≤ s → s < 400 → e.redirtimes ≤ 5 →
        lookup location w₁.headers = lookup location w₂.headers) ∧
      (s < 300 → AnnouncedAlike ending r rest w₁.announced w₂.announced) := by
  constructor
  · intro hblind
    exact ⟨hblind.target s h₁, hblind.length s h₁⟩
  · rintro ⟨htarget, hlength⟩
    have hstatus {t : Int} (ht : lexicalCastInt w₁.code = some t) : t = s :=
      Option.some.inj (ht.symm.trans h₁)
    refine ⟨fun t ht => ?_, fun t ht => ?_⟩
    · rw [hstatus ht]
      exact htarget
    · rw [hstatus ht]
      exact hlength

end status

/-- **When another letter case changes nothing.** -/
theorem recased_iff (hrecased : Recased w₁ w₂) {os₁ os₂ : List (Read 2048)}
    {buffer₁ buffer₂ : Buffer} (h₁ : Walks e os₁ buffer₁ (w₁.text ++ rest) ending)
    (h₂ : Walks e os₂ buffer₂ (w₂.text ++ rest) ending) :
    SameBehaviour d e r w₁ w₂ rest (receive d os₁ buffer₁ e r).1 (receive d os₂ buffer₂ e r).1 ↔
      CaseBlind e r w₁ w₂ rest ending := by
  rw [sameBehaviour_iff, h₁.receive, h₂.receive]
  change LookAlike d e r w₁ w₂ rest ending ↔ _
  cases hcode₁ : lexicalCastInt w₁.code with
  | none =>
    have hcode₂ : lexicalCastInt w₂.code = none := hrecased.code ▸ hcode₁
    refine iff_of_true (badStatus_alike d hcode₁ hcode₂) ⟨fun s hs => ?_, fun s hs => ?_⟩
    · cases hcode₁.symm.trans hs
    · cases hcode₁.symm.trans hs
  | some s =>
    have hcode₂ : lexicalCastInt w₂.code = some s := hrecased.code ▸ hcode₁
    rw [caseBlind_iff hcode₁]
    by_cases hs : s < 300
    · have hending : ∀ x, ending = some x → ∃ ec, x = .systemError ec := fun x hx =>
        pieces_systemError os₁ _ (h₁.ending.trans hx)
      rw [accepted_alike d hcode₁ hcode₂ hs hending]
      constructor
      · intro halike
        exact ⟨fun hlow => by omega, fun _ => halike⟩
      · rintro ⟨-, halike⟩
        exact halike hs
    · rw [final_alike d hcode₁ hcode₂ hs]
      constructor
      · intro htarget
        exact ⟨fun _ => htarget, fun hlow => absurd hlow hs⟩
      · rintro ⟨htarget, -⟩
        exact htarget (Int.not_lt.mp hs)

end whole

/-- A redirect with its target under one spelling or another. -/
def found (name : Bytes) (h : sp ∉ name ∧ colon ∉ name ∧ cr ∉ name ∧ lf ∉ name) : WrittenHead where
  version := str "HTTP/1.0"
  code := str "302"
  description := str "Found"
  headers := [(name, str "http://b/")]
  version_ok := http10_ok
  code_ok := code302_word
  description_ok := by decide
  names_ok := fun _ hh => List.mem_singleton.mp hh ▸ h
  values_ok := by
    have hvalue : cr ∉ str "http://b/" ∧ lf ∉ str "http://b/" := by decide
    exact fun _ hh => List.mem_singleton.mp hh ▸ hvalue

def foundUpper : WrittenHead := found location (by decide)

def foundLower : WrittenHead := found (str "location") (by decide)

theorem recased_found {name name' : Bytes} (h : sp ∉ name ∧ colon ∉ name ∧ cr ∉ name ∧ lf ∉ name)
    (h' : sp ∉ name' ∧ colon ∉ name' ∧ cr ∉ name' ∧ lf ∉ name')
    (hcase : toLower name = toLower name') : Recased (found name h) (found name' h') := by
  refine ⟨rfl, rfl, rfl, .cons ⟨hcase, rfl⟩ .nil, fun k hk l hl _ => ?_⟩
  rw [List.mem_singleton.mp hk, List.mem_singleton.mp hl]

theorem found_recased : Recased foundUpper foundLower := recased_found _ _ (by decide)

/-- A head in one read a byte, then the end of the stream. -/
theorem walks_text (w : WrittenHead) : Walks .new ((Cut.bytewise (by decide) w.text).reads .eof)
    (fun _ => 0) (w.text ++ []) (some (.systemError .eof)) := by
  refine ⟨?_, ?_⟩
  · rw [walked_cut _ rfl, List.append_nil]
  · exact congrArg Prod.snd (pieces_cut rfl _ _)

theorem recased_iff_found :
    SameBehaviour ⟨none, none⟩ .new .new foundUpper foundLower []
        (receive ⟨none, none⟩ ((Cut.bytewise (by decide) foundUpper.text).reads .eof)
          (fun _ => 0) .new HttpResponse.new).1
        (receive ⟨none, none⟩ ((Cut.bytewise (by decide) foundLower.text).reads .eof)
          (fun _ => 0) .new HttpResponse.new).1 ↔
      CaseBlind .new .new foundUpper foundLower [] (some (.systemError .eof)) :=
  recased_iff ⟨none, none⟩ found_recased (walks_text _) (walks_text _)

/-- The redirect is followed under the one spelling and refused under the other. -/
theorem found_differs :
    let x := (receive ⟨none, none⟩ ((Cut.bytewise (by decide) foundUpper.text).reads .eof)
      (fun _ => 0) .new HttpResponse.new).1
    let y := (receive ⟨none, none⟩ ((Cut.bytewise (by decide) foundLower.text).reads .eof)
      (fun _ => 0) .new HttpResponse.new).1
    Recased foundUpper foundLower ∧ x.result = .ok true ∧ y.result = .ok false ∧
      ¬ SameBehaviour ⟨none, none⟩ .new .new foundUpper foundLower [] x y := by
  intro x y
  have hx : x.result = .ok true := by
    rw [show x = _ from receive_eq_parse ⟨none, none⟩ _ rfl _ _]
    decide
  have hy : y.result = .ok false := by
    rw [show y = _ from receive_eq_parse ⟨none, none⟩ _ rfl _ _]
    decide
  refine ⟨found_recased, hx, hy, fun hsame => ?_⟩
  have hresult := hsame.result
  rw [hx, hy] at hresult
  cases hresult

end Anetd
