import Anetd.HeadPieces

/-!
# What a call leaves when the head decides it

A call can end before the body: by an exception, by refusing the response, or
because the bytes run out. `fails_atomically_iff` says when an exception leaves
the response as it was, `refused_frame_iff` when a refused response has nothing
but its status and description changed, and `sizes_agree` that every call that
returns has the body, its size and the progress agree, wherever it ended.
-/

namespace Anetd

open Lib.Machine Lib.OrdMap

/-- The bytes that the inner loop of a call walks. -/
def walked (e : Engine) (os : List (Read 2048)) (buffer : Buffer) : Bytes :=
  (pieces e.httpType os (buffer 0)).1.flatten

/-- The reads of a cut are walked byte by byte. -/
theorem walked_cut {e : Engine} {bs : Bytes} (cut : Cut 2048 bs) {ending : ErrorCode} {x : Exn}
    (hx : thrown e.httpType ending = some x) (buffer : Buffer) :
    walked e (cut.reads ending) buffer = bs := by
  rw [walked, pieces_cut hx, cut.join]

/-! ## Where the head is left -/

section leaves
variable {R : Type} [ResponseClass R] (d : Disconnection)

/-- Behind the head the parser goes on, whatever it reads. -/
theorem step_outOfHead {f : Frame R} (hf : f.parserState.inHead = false) (c : Byte) :
    Both (fun _ => False) (fun g => g.parserState.inHead = false) (step d f c) := by
  cases hstate : f.parserState with
  | body =>
    simp only [step, hstate, Both]
    split <;> rfl
  | ok =>
    simp only [step, hstate, Both]
    rfl
  | version | status | description | headerKey | headerValue =>
    rw [hstate] at hf
    cases hf

theorem parse_outOfHead {f : Frame R} (hf : f.parserState.inHead = false)
    (bs : Bytes) : ∃ g, parse d f bs = .ok g ∧ g.parserState.inHead = false := by
  have hboth : Both (fun _ => False) (fun g => g.parserState.inHead = false) (parse d f bs) :=
    run_both (fun g c hg => step_outOfHead d hg c) hf bs
  cases hparse : parse d f bs with
  | error x =>
    rw [hparse] at hboth
    exact hboth.elim
  | ok g =>
    rw [hparse] at hboth
    exact ⟨g, rfl, hboth⟩

variable (e : Engine) (r : HttpResponse)

/-- The last of the bytes takes the parser out of the header states. -/
def LeavesHead (bs : Bytes) : Prop :=
  ∃ (head : Bytes) (c : Byte) (f g : Frame HttpResponse), bs = head ++ [c] ∧
    parse d (.start e r) head = .ok f ∧ f.parserState.inHead = true ∧
    step d f c = .ok g ∧ g.parserState.inHead = false

/-- Some of the bytes take the parser into the state `ANETD_BODY`. -/
def EntersBody (bs : Bytes) : Prop :=
  ∃ part f, part <+: bs ∧ parse d (.start e r) part = .ok f ∧ f.parserState = .body

variable {d e r} {bs : Bytes}

theorem LeavesHead.parse {part : Bytes} (h : LeavesHead d e r part) (hpart : part <+: bs) :
    ∃ g, Anetd.parse d (.start e r) bs = .ok g ∧ g.parserState.inHead = false := by
  obtain ⟨head, c, f, g, rfl, hhead, -, hstep, hg⟩ := h
  obtain ⟨rest, rfl⟩ := hpart
  obtain ⟨g', hrest, hg'⟩ := parse_outOfHead d hg rest
  refine ⟨g', ?_, hg'⟩
  rw [List.append_assoc, Anetd.parse, run_append_ok hhead, List.singleton_append,
    run_cons_ok hstep]
  exact hrest

/-- The head is left once. -/
theorem LeavesHead.unique {as : Bytes} (h₁ : LeavesHead d e r as) (h₂ : LeavesHead d e r bs)
    (hpart : as <+: bs) : as = bs := by
  obtain ⟨head, c, f, g, rfl, hhead, hf, -⟩ := h₂
  rcases List.prefix_concat_iff.mp hpart with heq | hshort
  · exact heq
  · obtain ⟨g', hg, hout⟩ := h₁.parse hshort
    rw [hhead] at hg
    rw [Except.ok.inj hg, hout] at hf
    cases hf

/-- The parser is in the head just as long as some of it is to come. -/
theorem LeavesHead.boundary {head part : Bytes} (h : LeavesHead d e r head) (hhead : head <+: bs)
    (hpart : part <+: bs) : ∃ f, Anetd.parse d (.start e r) part = .ok f ∧
      (f.parserState.inHead = true ↔ part.length < head.length) := by
  rcases Nat.lt_or_ge part.length head.length with hshort | hlong
  · obtain ⟨whole, c, f, g, rfl, hwhole, hf, -⟩ := h
    rw [List.length_append, List.length_singleton] at hshort
    have hinner : part <+: whole := List.prefix_of_prefix_length_le hpart
      ((List.prefix_append whole [c]).trans hhead) (by omega)
    obtain ⟨rest, rfl⟩ := hinner
    obtain ⟨f', hread, hrest⟩ := run_append_eq_ok hwhole
    refine ⟨f', hread, iff_of_true ?_ (by simp)⟩
    cases hin : f'.parserState.inHead with
    | true => rfl
    | false =>
      obtain ⟨g', hg', hout⟩ := parse_outOfHead d hin rest
      rw [Anetd.parse, hrest] at hg'
      rw [Except.ok.inj hg', hout] at hf
      cases hf
  · obtain ⟨g, hg, hout⟩ := h.parse (List.prefix_of_prefix_length_le hhead hpart hlong)
    exact ⟨g, hg, iff_of_false (by rw [hout]; decide) (Nat.not_lt.mpr hlong)⟩

theorem EntersBody.parse (h : EntersBody d e r bs) :
    ∃ g, Anetd.parse d (.start e r) bs = .ok g := by
  obtain ⟨part, f, ⟨rest, rfl⟩, hpart, hf⟩ := h
  obtain ⟨g, hg, -⟩ := parse_outOfHead d (f := f) (by rw [hf]; rfl) rest
  exact ⟨g, (run_append_ok hpart rest).trans hg⟩

/-- So what follows the head is told by any split there. -/
theorem LeavesHead.rest_unique {as post : Bytes} {rest : Bytes} (h₁ : LeavesHead d e r as)
    (h₂ : LeavesHead d e r bs) (hsplit : as ++ rest = bs ++ post) : rest = post := by
  have hsame : as = bs := by
    rcases List.prefix_or_prefix_of_prefix (List.prefix_append as rest)
        (hsplit ▸ List.prefix_append bs post) with hpart | hpart
    · exact h₁.unique h₂ hpart
    · exact (h₂.unique h₁ hpart).symm
  rw [hsame] at hsplit
  exact List.append_cancel_left hsplit

/-- A head behind which the parser goes on is left with its last byte. -/
theorem Head.leaves {h : Head} {g : Frame HttpResponse}
    (hend : endOfHeaders d ⟨h.locals, e, r⟩ = .ok g) : LeavesHead d e r h.text := by
  obtain ⟨head, htext, hwithin⟩ := h.within
  have hout := endOfHeaders_outOfHead d (⟨h.locals, e, r⟩ : Frame HttpResponse)
  rw [hend] at hout
  exact ⟨head, lf, ⟨h.locals, e, r⟩, g, htext, hwithin.passes d e r, hwithin.inHead,
    (step_key_lf d rfl).trans hend, hout⟩

end leaves

/-! ## What the bytes make of a call -/

/-- The ways the bytes of a call go through the parser. -/
inductive Outcome (d : Disconnection) (e : Engine) (r : HttpResponse) : Bytes → Prop where
  | badStatus {bs : Bytes} (bad : BadStatus bs) : Outcome d e r bs
  | waiting {bs : Bytes} {f : Frame HttpResponse} (parsed : parse d (.start e r) bs = .ok f)
      (waits : Waiting e r f) : Outcome d e r bs
  | final (h : Head) (rest : Bytes) (high : ¬ h.status < 300) : Outcome d e r (h.text ++ rest)
  | misannounced (h : Head) (rest : Bytes) {v : Bytes} (low : h.status < 300)
      (found : h.headers.find? contentLength = some v) (bad : lexicalCastInt v = none) :
      Outcome d e r (h.text ++ rest)
  | accepted (h : Head) (rest : Bytes) {state : ParserState} {size : Nat} {part : Bytes}
      (low : h.status < 300) (leaves : LeavesHead d e r h.text)
      (parsed : parse d (.start e r) (h.text ++ rest) =
        .ok ⟨{ h.locals with parserState := state }, e, (h.publish r size).append part⟩)
      (past : state = .body ∨ state = .ok) (read : part <+: rest)
      (filled : state = .ok → r.body = [] → part.length = size) : Outcome d e r (h.text ++ rest)

/-- A body from nothing to the announced size is as long as that. -/
theorem bodyPart_filled {size : Nat} {bs : Bytes} (h : completes 0 size bs.length) :
    (bodyPart 0 size bs).length = size := by
  have hsize : size ≤ bs.length := by
    unfold completes reaches at h
    omega
  rw [bodyPart, if_pos h, Nat.sub_zero, List.length_take_of_le hsize]

theorem outcome (d : Disconnection) (e : Engine) (r : HttpResponse) (bs : Bytes) :
    Outcome d e r bs := by
  rcases parse_trichotomy d e r bs with ⟨h, rest, rfl⟩ | hbad | ⟨f, hf, hwaits⟩
  · by_cases hs : h.status < 300
    · cases hv : h.headers.find? contentLength with
      | none =>
        have hleaves := Head.leaves (endOfHeaders_unannounced d (f := ⟨h.locals, e, r⟩) hs hv)
        refine .accepted h rest hs hleaves (parse_unannounced d e r hs hv rest) (.inl rfl)
          List.prefix_rfl ?_
        intro hdone
        cases hdone
      | some v =>
        cases hn : lexicalCastInt v with
        | none => exact .misannounced h rest hs hv hn
        | some n =>
          have hleaves := Head.leaves (endOfHeaders_announced d (f := ⟨h.locals, e, r⟩) hs hv hn)
          have hpart := bodyPart_prefix r.body.length (sizeOfInt n) rest
          refine .accepted h rest hs hleaves (parse_announced d e r hs hv hn rest) ?_ hpart ?_
          · split
            · exact .inr rfl
            · exact .inl rfl
          · intro hdone hempty
            rw [hempty, List.length_nil] at hdone ⊢
            split at hdone
            · rename_i hcompletes
              exact bodyPart_filled hcompletes
            · cases hdone
    · exact .final h rest hs
  · exact .badStatus hbad
  · exact .waiting hf hwaits

/-- A call that waits in the head is not over. -/
theorem Waiting.not_done {e : Engine} {r : HttpResponse} {f : Frame HttpResponse}
    (h : Waiting e r f) : f.done = false := by
  refine decide_eq_false fun hdone => ?_
  have hhead := h.1
  rw [hdone] at hhead
  cases hhead

/-! ## Exceptions -/

/-- An exception before the body has changed nothing of the response. -/
def FailsAtomically (d : Disconnection) (e : Engine) (r : HttpResponse) (bs : Bytes)
    (x : Exit HttpResponse) : Prop :=
  (∃ y, x.result = .error (.threw y)) → ¬ EntersBody d e r bs → x.response = r

/-- The response has the version, status and description of a head, and a value
for every header of it up to the Content-Length. -/
structure Head.Repeats (h : Head) (r : HttpResponse) : Prop where
  version : r.version = h.version
  status : r.status = h.status
  description : r.description = h.description
  headers : ∀ header ∈ upToLength h.headers, r.headers.find? header.1 ≠ none

theorem Head.abandon_eq_self_iff (h : Head) (r : HttpResponse) :
    h.abandon r = r ↔ h.Repeats r := by
  constructor
  · intro hself
    have hheaders : r.headers.insertAll (upToLength h.headers) = r.headers :=
      congrArg HttpResponse.headers hself
    exact ⟨(congrArg HttpResponse.version hself).symm, (congrArg HttpResponse.status hself).symm,
      (congrArg HttpResponse.description hself).symm, insertAll_eq_self_iff.mp hheaders⟩
  · rintro ⟨hversion, hstatus, hdescription, hheaders⟩
    rw [abandon, insertAll_eq_self_iff.mpr hheaders, ← hversion, ← hstatus, ← hdescription]

theorem setURL_eq_self_iff {r : HttpResponse} {url : Bytes} : r.setURL url = r ↔ r.url = url := by
  constructor
  · exact fun hself => (congrArg HttpResponse.url hself).symm
  · rintro rfl
    rfl

/-- What the parser writes before it throws was there already: the head of an
accepted status before a length that is no `int`, and the target of a redirect
from a connection that cannot be shut down. -/
structure Unnoticed (d : Disconnection) (e : Engine) (r : HttpResponse) (bs : Bytes) : Prop where
  length : ∀ (h : Head) (rest v : Bytes), bs = h.text ++ rest → h.status < 300 →
    h.headers.find? contentLength = some v → lexicalCastInt v = none → h.Repeats r
  shutdown : ∀ (h : Head) (rest url : Bytes), bs = h.text ++ rest → 300 ≤ h.status →
    h.status < 400 → e.redirtimes ≤ 5 → h.headers.find? (str "Location") = some url →
    e.ShutdownFails d → r.url = url

section atomic
variable {d : Disconnection} {e : Engine} {r : HttpResponse} {ending : Option Exn} {bs : Bytes}

theorem not_entersBody {x : Exit HttpResponse} (hx : parse d (.start e r) bs = .error x) :
    ¬ EntersBody d e r bs := by
  intro hbody
  obtain ⟨g, hg⟩ := hbody.parse
  rw [hx] at hg
  cases hg

theorem unnoticed_of_atomic
    (hatomic : FailsAtomically d e r bs (settle (finish ending) (parse d (.start e r) bs))) :
    Unnoticed d e r bs where
  length := by
    rintro h rest v rfl hs hv hbad
    have hparse := parse_misannounced d e r hs hv hbad rest
    rw [hparse] at hatomic
    exact (h.abandon_eq_self_iff r).mp (hatomic ⟨_, rfl⟩ (not_entersBody hparse))
  shutdown := by
    rintro h rest url rfl hlow hhigh htimes hurl hfails
    have hparse := parse_final d e r (Int.not_lt.mpr hlow) rest
    obtain ⟨se, hse⟩ := (e.redirected url).disconnect_throws d hfails
    rw [if_pos hhigh, redirect_follow_throws d (f := ⟨h.locals, e, r⟩) (Int.not_lt.mpr htimes)
      hurl hse] at hparse
    rw [hparse] at hatomic
    exact setURL_eq_self_iff.mp (hatomic ⟨_, rfl⟩ (not_entersBody hparse))

/-- What a redirect that throws leaves is what it found, up to a target stored. -/
theorem redirect_throws_response {h : Head} {y : Exn}
    (hthrew : (redirect d ⟨h.locals, e, r⟩).result = .error (.threw y)) :
    (redirect d ⟨h.locals, e, r⟩).response = r ∨ ∃ url, e.redirtimes ≤ 5 ∧
      h.headers.find? (str "Location") = some url ∧ e.ShutdownFails d ∧
      (redirect d ⟨h.locals, e, r⟩).response = r.setURL url := by
  obtain ⟨hfails, htarget⟩ := (redirect_throws_iff d).mp ⟨_, hthrew⟩
  by_cases htimes : 5 < e.redirtimes
  · left
    obtain ⟨se, hse⟩ := e.counted.disconnect_throws d hfails
    rw [redirect_beyond d htimes, hse, Option.elim_some]
  · right
    obtain ⟨url, hurl⟩ := Option.ne_none_iff_exists'.mp (htarget.resolve_left htimes)
    refine ⟨url, Int.not_lt.mp htimes, hurl, hfails, ?_⟩
    rw [redirect_target d htimes hurl]
    rfl

/-- What is thrown for want of another piece leaves the response alone. -/
theorem finish_throws {f : Frame HttpResponse} {y : Exn}
    (hthrew : (finish ending f).result = .error (.threw y)) :
    (finish ending f).response = f.response := by
  cases ending with
  | none => rfl
  | some x =>
    simp only [finish, handle] at hthrew ⊢
    split
    · rename_i heof
      rw [if_pos heof] at hthrew
      cases hthrew
    · rfl

theorem atomic_of_unnoticed (hquiet : Unnoticed d e r bs) :
    FailsAtomically d e r bs (settle (finish ending) (parse d (.start e r) bs)) := by
  rintro ⟨y, hthrew⟩ hbody
  cases outcome d e r bs with
  | badStatus hbad =>
    rw [parse_badStatus d e r hbad]
    rfl
  | waiting hparse hwaits =>
    rw [hparse, settle, hwaits.not_done] at hthrew ⊢
    exact (finish_throws hthrew).trans hwaits.2.2
  | final h rest hs =>
    rw [parse_final d e r hs rest, settle] at hthrew ⊢
    split
    · rename_i hhigh
      rw [if_pos hhigh] at hthrew
      rcases redirect_throws_response hthrew with hsame | ⟨url, htimes, hurl, hfails, hstored⟩
      · exact hsame
      · rw [hstored, setURL_eq_self_iff]
        exact hquiet.shutdown h rest url rfl (Int.not_lt.mp hs) hhigh htimes hurl hfails
    · rename_i hhigh
      rw [if_neg hhigh] at hthrew
      cases hthrew
  | misannounced h rest hs hv hbad =>
    rw [parse_misannounced d e r hs hv hbad rest, settle]
    exact (h.abandon_eq_self_iff r).mpr (hquiet.length h rest _ rfl hs hv hbad)
  | accepted h rest hs hleaves hparse hpast hread hfilled =>
    rcases hpast with rfl | rfl
    · exact absurd ⟨_, _, List.prefix_rfl, hparse, rfl⟩ hbody
    · -- the body is complete, and nothing throws any more
      rw [hparse] at hthrew
      cases hthrew

/-- **When an exception before the body leaves the response as it was**: when
the values written before it were there already. -/
theorem fails_atomically_iff (d : Disconnection) (os : List (Read 2048)) (buffer : Buffer)
    (e : Engine) (r : HttpResponse) :
    FailsAtomically d e r (walked e os buffer) (receive d os buffer e r).1 ↔
      Unnoticed d e r (walked e os buffer) := by
  rw [receive_pieces]
  exact ⟨unnoticed_of_atomic, atomic_of_unnoticed⟩

end atomic

/-- A 200 head whose Content-Length is no number. -/
def letterLength : Head where
  version := str "HTTP/1.0"
  code := str "200"
  status := 200
  reason := str "OK\r"
  lines := [str "Content-Length: x\r"]
  last := str "\r"
  version_ok := http10_ok
  code_ok := code200_word
  status_ok := code200_status
  reason_ok := reasonOk_line
  lines_ok := by decide
  last_ok := crLine_ok

/-- A new response is left with status 200 by the call that threw. -/
theorem letterLength_not_atomic :
    let os := (Cut.bytewise (by decide) letterLength.text).reads .eof
    let x := (receive ⟨none, none⟩ os (fun _ => 0) .new HttpResponse.new).1
    x.result = .error (.threw .badLexicalCast) ∧ x.response.status = 200 ∧
      ¬ FailsAtomically ⟨none, none⟩ .new .new (walked .new os fun _ => 0) x := by
  intro os x
  have hwalked : walked .new os (fun _ => 0) = letterLength.text := walked_cut _ rfl _
  have hparse := parse_misannounced ⟨none, none⟩ .new .new (h := letterLength) (v := str "x")
    (by decide) (by decide) (by decide) []
  rw [List.append_nil] at hparse
  have hx : x = ⟨.error (.threw .badLexicalCast), .new, letterLength.abandon .new⟩ := by
    rw [show x = _ from receive_eq_parse ⟨none, none⟩ _ rfl _ _, hparse, settle]
  rw [hwalked, hx]
  refine ⟨rfl, rfl, fun hatomic => ?_⟩
  have hsame := hatomic ⟨_, rfl⟩ (not_entersBody hparse)
  exact absurd (congrArg HttpResponse.status hsame) (by decide)

/-! ## Refused responses -/

/-- The call returns `false` with the status line's status and description in
the response, and the rest of it untouched. -/
structure RefusedFrame (h : Head) (r : HttpResponse) (x : Exit HttpResponse) : Prop where
  result : x.result = .ok false
  response : x.response = { r with status := h.status, description := h.description }

/-- The heads that are refused: a status from 400 on, and a redirect beyond the
limit or without a target. -/
def Head.Refused (h : Head) (e : Engine) : Prop :=
  400 ≤ h.status ∨ 300 ≤ h.status ∧ h.status < 400 ∧
    (h.headers.find? (str "Location") = none ∨ 5 < e.redirtimes)

section refused
variable {d : Disconnection} {e : Engine} {r : HttpResponse} {h : Head}

theorem refuse_frame (e : Engine) : RefusedFrame h r (refuse ⟨h.locals, e, r⟩) := ⟨rfl, rfl⟩

/-- **When a refused response changes nothing but status and description**:
unless it is a redirect beyond the limit on a connection that cannot be shut
down. -/
theorem refused_frame_iff (d : Disconnection) {os : List (Read 2048)} {buffer : Buffer}
    {e : Engine} (r : HttpResponse) {h : Head} {rest : Bytes}
    (hsplit : walked e os buffer = h.text ++ rest) (hrefused : h.Refused e) :
    RefusedFrame h r (receive d os buffer e r).1 ↔
      ¬ (h.status < 400 ∧ 5 < e.redirtimes ∧ e.ShutdownFails d) := by
  have hs : ¬ h.status < 300 := by
    rcases hrefused with hfatal | ⟨hlow, -⟩ <;> omega
  rw [walked] at hsplit
  rw [receive_pieces, hsplit, parse_final d e r hs rest, settle]
  by_cases hhigh : h.status < 400
  · rw [if_pos hhigh]
    obtain ⟨-, -, hreason⟩ := hrefused.resolve_left (by omega)
    by_cases htimes : 5 < e.redirtimes
    · by_cases hfails : e.ShutdownFails d
      · obtain ⟨se, hse⟩ := e.counted.disconnect_throws d hfails
        rw [redirect_limit_throws d (f := ⟨h.locals, e, r⟩) htimes hse]
        refine iff_of_false (fun hframe => ?_) fun hnot => hnot ⟨hhigh, htimes, hfails⟩
        cases hframe.result
      · rw [redirect_limit d (f := ⟨h.locals, e, r⟩) htimes
          (e.counted.disconnect_quiet d hfails)]
        exact iff_of_true (refuse_frame _) fun hall => hfails hall.2.2
    · have hlost := hreason.resolve_right htimes
      rw [redirect_lost d (f := ⟨h.locals, e, r⟩) htimes hlost]
      exact iff_of_true (refuse_frame _) fun hall => htimes hall.2.1
  · rw [if_neg hhigh]
    exact iff_of_true (refuse_frame _) fun hall => hhigh hall.1

end refused

/-- A seventh redirect, without a target. -/
def seventhRedirect : Head where
  version := str "HTTP/1.0"
  code := str "302"
  status := 302
  reason := str "Found\r"
  lines := []
  last := str "\r"
  version_ok := http10_ok
  code_ok := code302_word
  status_ok := code302_status
  reason_ok := reasonFound_line
  lines_ok := by decide
  last_ok := crLine_ok

/-- An engine that has followed six redirects and holds a TLS connection. -/
def afterSix : Engine :=
  { Engine.new with redirtimes := 6, httpType := .sslHttps, sslsocketOpen := true }

theorem seventhRedirect_refused : seventhRedirect.Refused afterSix :=
  .inr ⟨by decide, by decide, .inr (by decide)⟩

theorem refused_frame_iff_seventh :
    RefusedFrame seventhRedirect .new
        (receive ⟨none, none⟩ ((Cut.bytewise (by decide) seventhRedirect.text).reads .eof)
          (fun _ => 0) afterSix HttpResponse.new).1 ↔
      ¬ (seventhRedirect.status < 400 ∧ 5 < afterSix.redirtimes ∧
        afterSix.ShutdownFails ⟨none, none⟩) := by
  have hwalked : walked afterSix
      ((Cut.bytewise (by decide) seventhRedirect.text).reads .eof) (fun _ => 0) =
        seventhRedirect.text ++ [] := (walked_cut _ rfl _).trans (List.append_nil _).symm
  exact refused_frame_iff ⟨none, none⟩ .new hwalked seventhRedirect_refused

/-- Where the shutdown of that connection fails, the refusal is an exception. -/
theorem seventhRedirect_throws :
    let os := (Cut.bytewise (by decide) seventhRedirect.text).reads .eof
    let x := (receive ⟨some ⟨.ssl, 1⟩, none⟩ os (fun _ => 0) afterSix HttpResponse.new).1
    walked afterSix os (fun _ => 0) = seventhRedirect.text ∧ seventhRedirect.Refused afterSix ∧
      x.result = .error (.threw (.errorCode ⟨.ssl, 1⟩)) ∧
      ¬ RefusedFrame seventhRedirect .new x := by
  intro os x
  have hx : x.result = .error (.threw (.errorCode ⟨.ssl, 1⟩)) := by
    rw [show x = _ from receive_eq_parse ⟨some ⟨.ssl, 1⟩, none⟩ _ rfl _ _]
    decide
  refine ⟨walked_cut _ rfl _, seventhRedirect_refused, hx, fun hframe => ?_⟩
  have hresult := hframe.result
  rw [hx] at hresult
  cases hresult

/-! ## Calls that return -/

/-- The body, its size and the progress agree, and the body is what follows the
byte at which the parser left the header states. -/
structure SizesAgree (d : Disconnection) (e : Engine) (r : HttpResponse) (bs : Bytes)
    (b : HttpResponse) : Prop where
  bodySize : b.bodySize = b.body.length
  progress : b.progress = b.body.length
  segment : ∀ head rest, bs = head ++ rest → LeavesHead d e r head → b.body <+: rest
  headless : (∀ head, head <+: bs → ¬ LeavesHead d e r head) → b.body = []

section sizes
variable {d : Disconnection} {e : Engine} {r : HttpResponse} {bs : Bytes}

/-- A call that has not left the head has read no body. -/
theorem sizes_inHead (hstays : ∀ g, parse d (.start e r) bs = .ok g →
      g.parserState.inHead = true) {b : HttpResponse} (hbody : b.body = [])
    (hsize : b.bodySize = 0) (hprogress : b.progress = 0) : SizesAgree d e r bs b where
  bodySize := by rw [hbody, hsize, List.length_nil]
  progress := by rw [hbody, hprogress, List.length_nil]
  segment := by
    intro head rest hsplit hleaves
    obtain ⟨g, hg, hout⟩ := hleaves.parse (hsplit ▸ List.prefix_append head rest)
    rw [hstays g hg] at hout
    cases hout
  headless := fun _ => hbody

/-- A refused response and a redirect have none either. -/
theorem final_sizes {h : Head} (hbody : r.body = []) (hsize : r.bodySize = 0)
    (hprogress : r.progress = 0) :
    let x := if h.status < 400 then redirect d ⟨h.locals, e, r⟩ else refuse ⟨h.locals, e, r⟩
    x.response.body = [] ∧ x.response.bodySize = 0 ∧ x.response.progress = 0 := by
  let E : Exit HttpResponse → Prop := fun x =>
    x.response.body = [] ∧ x.response.bodySize = 0 ∧ x.response.progress = 0
  intro x
  by_cases hhigh : h.status < 400
  · have hredirect : E (redirect d ⟨h.locals, e, r⟩) := by
      apply redirect_rule
      · intro e
        exact ⟨hbody, hsize, hprogress⟩
      · rintro se e' r' (rfl | ⟨url, rfl⟩) <;> exact ⟨hbody, hsize, hprogress⟩
      · intro e url
        exact ⟨hbody, hsize, hprogress⟩
    have hx : x = redirect d ⟨h.locals, e, r⟩ := if_pos hhigh
    rw [hx]
    exact hredirect
  · have hx : x = refuse ⟨h.locals, e, r⟩ := if_neg hhigh
    rw [hx]
    exact ⟨hbody, hsize, hprogress⟩

/-- What has been read behind the head is the body. -/
theorem sizes_accepted {h : Head} {rest part : Bytes} (hleaves : LeavesHead d e r h.text)
    (hread : part <+: rest) {b : HttpResponse} (hbody : b.body = part)
    (hsize : b.bodySize = b.body.length) (hprogress : b.progress = part.length) :
    SizesAgree d e r (h.text ++ rest) b where
  bodySize := hsize
  progress := by rw [hprogress, hbody]
  segment := by
    intro head post hsplit hhead
    rw [hbody, ← hleaves.rest_unique hhead hsplit]
    exact hread
  headless := fun hnone => absurd hleaves (hnone _ (List.prefix_append _ _))

theorem settle_sizes {again : Bool} (hbody : r.body = []) (hsize : r.bodySize = 0)
    (hprogress : r.progress = 0)
    (hreturns : (settle (handle (.systemError .eof)) (parse d (.start e r) bs)).result =
      .ok again) :
    SizesAgree d e r bs
      (settle (handle (.systemError .eof)) (parse d (.start e r) bs)).response := by
  have stops {x : Exit HttpResponse} (hx : parse d (.start e r) bs = .error x) :
      ∀ g, parse d (.start e r) bs = .ok g → g.parserState.inHead = true := by
    intro g hg
    rw [hx] at hg
    cases hg
  cases outcome d e r bs with
  | badStatus hbad =>
    rw [parse_badStatus d e r hbad] at hreturns
    cases hreturns
  | waiting hparse hwaits =>
    have hresponse : ∀ f, f.response = r → (handle (.systemError .eof) f).response =
        { r with bodySize := 0 } := by
      rintro f rfl
      simp only [handle, if_true, update_self, HttpResponse.setBodySize, hbody, List.length_nil]
    rw [hparse, settle, hwaits.not_done]
    simp only [Bool.false_eq_true, if_false, hresponse _ hwaits.2.2]
    refine sizes_inHead (fun g hg => ?_) hbody rfl hprogress
    rw [hparse] at hg
    rw [← Except.ok.inj hg]
    exact hwaits.1
  | final h rest hs =>
    have hparse := parse_final d e r hs rest
    have hframe := final_sizes (d := d) (e := e) (h := h) hbody hsize hprogress
    rw [hparse, settle] at hreturns ⊢
    exact sizes_inHead (stops hparse) hframe.1 hframe.2.1 hframe.2.2
  | misannounced h rest hs hv hbad =>
    rw [parse_misannounced d e r hs hv hbad rest] at hreturns
    cases hreturns
  | accepted h rest hs hleaves hparse hpast hread hfilled =>
    rename_i state size part
    have hgrown : r.body ++ part = part := by rw [hbody, List.nil_append]
    have hcounted : r.progress + part.length = part.length := by rw [hprogress, Nat.zero_add]
    rw [hparse]
    rcases hpast with rfl | rfl
    · exact sizes_accepted hleaves hread hgrown rfl hcounted
    · have hfull : size = (r.body ++ part).length := by rw [hgrown, hfilled rfl hbody]
      exact sizes_accepted hleaves hread hgrown hfull hcounted

/-- **Body, size and progress agree in every call that returns** at the end of
the stream or before it. -/
theorem sizes_agree (d : Disconnection) {bs : Bytes} (cut : Cut 2048 bs) {e : Engine}
    {ending : ErrorCode} (ended : endOfStream e.httpType ending) (buffer : Buffer)
    {r : HttpResponse} (hbody : r.body = []) (hsize : r.bodySize = 0) (hprogress : r.progress = 0)
    {again : Bool} (hreturns : (receive d (cut.reads ending) buffer e r).1.result = .ok again) :
    SizesAgree d e r bs (receive d (cut.reads ending) buffer e r).1.response := by
  rw [receive_eq_parse d cut (thrown_endOfStream ended)] at hreturns ⊢
  exact settle_sizes hbody hsize hprogress hreturns

end sizes

/-- A head without a length, and three bytes of body. -/
theorem sizes_agree_unannounced :
    let bs := str "HTTP/1.0 200 OK\r\n\r\nabc"
    SizesAgree ⟨none, none⟩ .new .new bs
      (receive ⟨none, none⟩ ((Cut.bytewise (by decide) bs).reads .eof) (fun _ => 0) .new
        HttpResponse.new).1.response := by
  intro bs
  have hreturns : (receive ⟨none, none⟩ ((Cut.bytewise (by decide) bs).reads .eof) (fun _ => 0)
      .new HttpResponse.new).1.result = .ok false := by
    rw [receive_eq_parse ⟨none, none⟩ _ rfl]
    rfl
  exact sizes_agree ⟨none, none⟩ _ (.inl rfl) _ rfl rfl rfl hreturns

end Anetd
