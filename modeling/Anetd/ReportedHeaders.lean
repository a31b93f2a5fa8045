import Anetd.FileResponse
import Anetd.Fresh
import Anetd.HeaderLines

/-!
# The headers a response reports

`send` writes the Content-Length of the request into the headers of the
response, and what `receive` inserts does not replace a header that is already
there. So of the headers that the server sent all are reported but that one
(`reported_headers_iff`).
-/

namespace Anetd

open Lib.Machine Lib.OrdMap

/-- A class whose `flush` and `completed` leave the headers as they are. -/
class KeepsHeaders (R : Type) [ResponseClass R] : Prop where
  headers_flush {r r' : R} (h : ResponseClass.flush r = .ok r') :
    (base r').headers = (base r).headers
  headers_completed (r : R) : (base (ResponseClass.completed r)).headers = (base r).headers

instance : KeepsHeaders HttpResponse where
  headers_flush h := by
    cases h
    rfl
  headers_completed _ := rfl

instance : KeepsHeaders HttpResponseFile where
  headers_flush h := by
    obtain ⟨-, hbase⟩ := HttpResponseFile.flush_base h
    simp only [base_file]
    rcases hbase with hbase | hbase
    · rw [hbase]
    · rw [hbase]
      rfl
  headers_completed _ := rfl

/-- Every header the server sent is reported with its first value, and no other
header is reported. -/
structure Reports (headers : List (Bytes × Bytes)) (r : HttpResponse) : Prop where
  values : ∀ name value, lookup name headers = some value → r.getHeader name = value
  only : ∀ header ∈ r.headers.entries, header.1 ∈ headers.map Prod.fst

/-! ## One call of `receive` -/

theorem headers_flushes {R : Type} [ResponseClass R] [KeepsHeaders R] {n : Nat} {r r' : R}
    (h : flushes n r = .ok r') :
    (base r').headers = (base r).headers := by
  induction n generalizing r with
  | zero =>
    cases h
    rfl
  | succ n ih =>
    simp only [flushes] at h
    split at h
    · cases h
    · rename_i r₁ hflush
      exact (ih h).trans (KeepsHeaders.headers_flush hflush)

/-- A redirect that is followed ends the parser where the head does. -/
theorem step_redirects {R : Type} [ResponseClass R] (d : Disconnection) {f : Frame R} {c : Byte}
    {x : Exit R} (h : step d f c = .error x) (hresult : x.result = .ok true) :
    x = redirect d f := by
  have notRefused {e : Engine} {r : R} : x ≠ ⟨.ok false, e, r⟩ := by
    rintro rfl
    cases hresult
  have notThrown {stop : Stop} {e : Engine} {r : R} : x ≠ ⟨.error stop, e, r⟩ := by
    rintro rfl
    cases hresult
  cases hstate : f.parserState with
  | headerKey =>
    simp only [step, hstate] at h
    split at h
    · cases h
    · split at h
      · unfold endOfHeaders at h
        split at h
        · exact absurd (Except.error.inj h).symm notRefused
        · split at h
          · exact (Except.error.inj h).symm
          · split at h
            · exact absurd (Except.error.inj h).symm notThrown
            · split at h <;> cases h
      · split at h
        · cases h
        · split at h <;> cases h
  | status =>
    simp only [step, hstate] at h
    split at h
    · cases h
    · split at h
      · exact absurd (Except.error.inj h).symm notThrown
      · cases h
  | version | description | headerValue | body | ok =>
    simp only [step, hstate] at h
    repeat (first | cases h | split at h)

section receive
variable {R : Type} [ResponseClass R] [LawfulResponse R] (d : Disconnection) {headers : StringMap}

/-- Behind the head the headers stay. -/
theorem step_headers {f : Frame R} (hf : f.parserState.inHead = false) (c : Byte) :
    Both (fun _ => False) (fun g => (base g.response).headers = (base f.response).headers)
      (step d f c) := by
  cases hstate : f.parserState with
  | body =>
    simp only [step, hstate, Both, LawfulResponse.base_update]
    rfl
  | ok =>
    simp only [step, hstate, Both]
  | version | status | description | headerKey | headerValue =>
    rw [hstate] at hf
    cases hf

/-- A frame behind the head with certain headers. -/
def Published (headers : StringMap) (f : Frame R) : Prop :=
  f.parserState.inHead = false ∧ (base f.response).headers = headers

theorem parse_published {f : Frame R} (hf : Published headers f) (bs : Bytes) :
    Both (fun _ => False) (Published headers) (parse d f bs) := by
  refine run_both (fun g c hg => ?_) hf bs
  have hout := step_outOfHead d hg.1 c
  have hkept := step_headers d hg.1 c
  cases hstep : step d g c with
  | error x =>
    rw [hstep] at hout
    exact hout.elim
  | ok g' =>
    rw [hstep] at hout hkept
    exact ⟨hout, hkept.trans hg.2⟩

/-- From there on a call that returns leaves these headers. -/
theorem turns_published [KeepsHeaders R] (ending : Option Exn) (ps : List Bytes) {f : Frame R}
    (hf : Published headers f) {again : Bool}
    (hreturns : (turns d ending ps f).result = .ok again) :
    (base (turns d ending ps f).response).headers = headers := by
  let E : Exit R → Prop := fun x => x.result = .ok again → (base x.response).headers = headers
  have parses (f : Frame R) (p : Bytes) (hf : Published headers f) :
      Both E (Published headers) (parse d f p) :=
    (parse_published d hf p).imp (fun _ h => h.elim) fun _ h => h
  have flushes (f : Frame R) (hf : Published headers f) :
      Both (fun x => E ⟨.error (.threw x.1), f.engine, x.2⟩)
        (fun r => Published headers { f with response := r })
        (ResponseClass.flush f.response) := by
    cases hflush : ResponseClass.flush f.response with
    | error x => exact fun h => nomatch h
    | ok r => exact ⟨hf.1, (KeepsHeaders.headers_flush hflush).trans hf.2⟩
  have completes (f : Frame R) (hf : Published headers f) : E (complete f) := fun _ =>
    (KeepsHeaders.headers_completed f.response).trans hf.2
  rcases turns_rule ending (I := Published headers) parses flushes completes ps hf with
    ⟨-, hend⟩ | ⟨-, g, hg, hturns⟩
  · exact hend hreturns
  · rw [hturns] at hreturns ⊢
    cases ending with
    | none => cases hreturns
    | some x =>
      simp only [finish, handle] at hreturns ⊢
      split
      · simp only [LawfulResponse.base_update]
        exact hg.2
      · rename_i hx
        rw [if_neg hx] at hreturns
        cases hreturns

/-- An accepted head publishes its headers beside those that are there, or the
call throws. -/
theorem parse_publishes (e : Engine) (r : R) {h : Head} (hs : h.status < 300) (part : Bytes) :
    (∃ x stop, parse d (.start e r) (h.text ++ part) = .error x ∧ x.result = .error stop) ∨
      ∃ g, parse d (.start e r) (h.text ++ part) = .ok g ∧
        Published ((base r).headers.insertAll h.headers.entries) g := by
  let nothing : R → Unit := fun _ => ()
  have hrest : ∀ f r, nothing (update f r) = nothing r := fun _ _ => rfl
  cases hv : h.headers.find? contentLength with
  | none =>
    obtain ⟨r', hparse, hbase, -⟩ := parse_mirrors_ok hrest
      (parse_unannounced d e (base r) hs hv part)
    exact .inr ⟨_, hparse, rfl, congrArg HttpResponse.headers hbase⟩
  | some v =>
    cases hn : lexicalCastInt v with
    | none =>
      obtain ⟨y, hparse, hends⟩ := parse_mirrors_error hrest
        (parse_misannounced d e (base r) hs hv hn part)
      exact .inl ⟨y, _, hparse, hends.1.symm⟩
    | some n =>
      obtain ⟨r', hparse, hbase, -⟩ := parse_mirrors_ok hrest
        (parse_announced d e (base r) hs hv hn part)
      refine .inr ⟨_, hparse, ?_, congrArg HttpResponse.headers hbase⟩
      simp only
      split <;> rfl

/-- **What a call of `receive` leaves as headers** behind an accepted head. -/
theorem receive_headers [KeepsHeaders R] {os : List (Read 2048)} {buffer : Buffer} {e : Engine}
    (r : R) {h : Head} {rest : Bytes} (hsplit : walked e os buffer = h.text ++ rest) (hs : h.status < 300)
    {again : Bool} (hreturns : (receive d os buffer e r).1.result = .ok again) :
    (base (receive d os buffer e r).1.response).headers =
      (base r).headers.insertAll h.headers.entries := by
  rw [receive_turns] at hreturns ⊢
  obtain ⟨c⟩ := head_pieces hsplit
  rw [c.turns] at hreturns ⊢
  cases hflushes : flushes c.pre.length r with
  | error x =>
    rw [hflushes] at hreturns
    cases hreturns
  | ok r' =>
    rw [hflushes] at hreturns
    simp only at hreturns ⊢
    rw [← headers_flushes hflushes]
    rcases parse_publishes d e r' hs c.part with ⟨x, stop, hparse, hstop⟩ | ⟨g, hparse, hg⟩
    · rw [turns_error hparse, hstop] at hreturns
      cases hreturns
    · -- the piece with the end of the head is one turn from the frame behind it
      have hturn (ending : Option Exn) :
          turns d ending ((h.text ++ c.part) :: c.post) (.start e r') =
            turns d ending ([] :: c.post) g := by
        simp only [turns, hparse, run_nil]
      rw [hturn] at hreturns ⊢
      exact turns_published d _ _ hg hreturns

/-- A call that is to be repeated leaves the headers it found. -/
theorem receiveLoop_redirected [KeepsHeaders R] (reads : List (Read 2048)) (buffer : Buffer)
    {f : Frame R} (hresult : (receiveLoop d reads buffer f).1.result = .ok true) :
    (base (receiveLoop d reads buffer f).1.response).headers = (base f.response).headers := by
  let I : Frame R → Prop := fun g =>
    g.parserState.inHead = true → (base g.response).headers = (base f.response).headers
  let E : Exit R → Prop := fun x =>
    x.result = .ok true → (base x.response).headers = (base f.response).headers
  have steps (g : Frame R) (c : Byte) (hg : I g) : Both E I (step d g c) := by
    cases hhead : g.parserState.inHead with
    | false =>
      refine (step_outOfHead d hhead c).imp (fun _ h => h.elim) fun g' hout hin => ?_
      rw [hout] at hin
      cases hin
    | true =>
      cases hstep : step d g c with
      | ok g' =>
        intro hin
        rw [(step_within d hstep hin).2.2.1]
        exact hg hhead
      | error x =>
        intro hfollowed
        obtain rfl := step_redirects d hstep hfollowed
        revert hfollowed
        apply redirect_rule d g (E := E)
        · intro e h
          cases h
        · intro se e r _ h
          cases h
        · intro e url _
          rw [LawfulResponse.base_setURL]
          exact hg hhead
  have throws (stop : Stop) (e : Engine) (r : R) : E ⟨.error stop, e, r⟩ := fun h => nomatch h
  have reads_end (g : Frame R) (ec : ErrorCode) (_ : I g) : E (handle (.systemError ec) g) := by
    intro hend
    unfold handle at hend
    split at hend <;> cases hend
  exact receiveLoop_rule (I := I) (E := E) steps
    (fun g r hg hflush hin => (KeepsHeaders.headers_flush hflush).trans (hg hin))
    (fun g x r _ _ => throws _ _ _) (fun g _ => throws _ _ _) reads_end
    (fun g _ _ h => nomatch h) (fun _ => rfl) reads buffer hresult

end receive

/-! ## A chain of calls -/

/-- The headers of a response before the final one is read: none, or the
Content-Length of the requests. -/
def OnlyLength (n : Nat) (headers : StringMap) : Prop :=
  headers = ∅ ∨ headers = (∅ : StringMap).set contentLength (Lib.Decimal.render n)

theorem OnlyLength.set {n : Nat} {headers : StringMap} (h : OnlyLength n headers) :
    headers.set contentLength (Lib.Decimal.render n) =
      (∅ : StringMap).set contentLength (Lib.Decimal.render n) := by
  rcases h with rfl | rfl
  · rfl
  · exact set_set _ _ _ _

section calls
variable {R : Type} [ResponseClass R] [LawfulResponse R] {env : Environment}

/-- The headers with which a prepared call reads its response. -/
theorem prepared_headers {w : World R} {p : Prepared R}
    (hp : prepare env w.engine w.response = some p)
    (h : OnlyLength w.engine.body.length (base w.response).headers) :
    (base (update (fun b => b.setContentLength p.engine.body.length) p.response)).headers =
      (∅ : StringMap).set contentLength (Lib.Decimal.render w.engine.body.length) := by
  have hsettings := congrArg Engine.body (prepare_settings hp)
  have hbody : p.engine.body = w.engine.body := hsettings
  have hheaders : (base p.response).headers = (base w.response).headers := by
    rcases (prepare_cases hp).2 with ⟨-, -, -, hresponse⟩ | ⟨-, -, -, hresponse⟩
    · rw [hresponse, LawfulResponse.base_update]
      rfl
    · rw [hresponse]
  rw [LawfulResponse.base_update, HttpResponse.setContentLength, hbody, hheaders]
  exact h.set

theorem send_onlyLength [KeepsHeaders R] {hop : Hop} {w v : World R}
    (h : OnlyLength w.engine.body.length (base w.response).headers)
    (hsend : send env hop w = (.ok true, v)) :
    v.engine.body = w.engine.body ∧
      OnlyLength w.engine.body.length (base v.response).headers := by
  have hsettings : (send env hop w).2.engine.settings = w.engine.settings := send_settings hop w
  have hbody := congrArg Engine.body hsettings
  obtain ⟨p, hp, hdial, hsent, -⟩ := send_followed hsend
  rw [hsend] at hbody
  refine ⟨hbody, .inr ?_⟩
  rw [send_received hp hdial hsent] at hsend
  obtain ⟨hresult, rfl⟩ := Prod.mk.inj hsend
  exact (receiveLoop_redirected _ _ _ (f := .start _ _) hresult).trans (prepared_headers hp h)

/-- Redirects leave no header of theirs. -/
theorem Followed.onlyLength [KeepsHeaders R] {net : Network} {k : Nat} {w w' : World R}
    (hfollowed : Followed env net k w w')
    (h : OnlyLength w.engine.body.length (base w.response).headers) :
    w'.engine.body = w.engine.body ∧
      OnlyLength w.engine.body.length (base w'.response).headers := by
  induction hfollowed with
  | none w => exact ⟨rfl, h⟩
  | more hsend rest ih =>
    obtain ⟨hbody, hleft⟩ := send_onlyLength h hsend
    rw [← hbody] at hleft ⊢
    exact ih hleft

end calls

/-- Headers under which the same is found as was sent are reported as sent. -/
theorem reports_of_find? {sent : List (Bytes × Bytes)} {r : HttpResponse}
    (h : ∀ name, r.headers.find? name = lookup name sent) : Reports sent r where
  values name value hvalue := by
    rw [HttpResponse.getHeader, h, hvalue]
    rfl
  only header hheader := by
    rw [← lookup_ne_none_iff, ← h header.1]
    exact lookup_ne_none_iff.mpr (List.mem_map_of_mem hheader)

/-- What is found in reported headers was sent. -/
theorem Reports.found {sent : List (Bytes × Bytes)} {r : HttpResponse} (h : Reports sent r)
    {name value : Bytes} (hfound : r.headers.find? name = some value) :
    lookup name sent = some value := by
  have hpresent : lookup name r.headers.entries ≠ none := by
    intro hnone
    cases hnone.symm.trans hfound
  obtain ⟨header, hheader, rfl⟩ := List.mem_map.mp (lookup_ne_none_iff.mp hpresent)
  obtain ⟨first, hfirst⟩ := Option.ne_none_iff_exists'.mp
    (lookup_ne_none_iff.mpr (h.only header hheader))
  have hvalue := h.values header.1 first hfirst
  rw [HttpResponse.getHeader, hfound, Option.getD_some] at hvalue
  rw [hfirst, hvalue]

/-- What is reported when the headers sent come behind the request's length. -/
theorem reports_iff {sent : List (Bytes × Bytes)} {h : Head} {n : Nat} {r : HttpResponse}
    (hsent : ∀ name, h.headers.find? name = lookup name sent)
    (hr : r.headers = ((∅ : StringMap).set contentLength (Lib.Decimal.render n)).insertAll
      h.headers.entries) :
    Reports sent r ↔ lookup contentLength sent = some (Lib.Decimal.render n) := by
  have hfind (name : Bytes) : r.headers.find? name =
      if name = contentLength then some (Lib.Decimal.render n) else lookup name sent := by
    have hentries : lookup name h.headers.entries = lookup name sent := hsent name
    rw [hr, find?_insertAll, find?_set, find?_empty, hentries]
    split <;> simp
  constructor
  · intro hreports
    refine hreports.found ?_
    rw [hfind, if_pos rfl]
  · intro hlength
    refine reports_of_find? fun name => ?_
    rw [hfind]
    split
    · rename_i hname
      rw [hname, hlength]
    · rfl

/-- **When the reported headers are the server's**: when it sent the length of
the request as its own. -/
theorem reported_headers_iff {R : Type} [ResponseClass R] [LawfulResponse R] [KeepsHeaders R]
    {env : Environment} {net : Network} {k : Nat} {w w' v : World R}
    (hreset : (base w.response).headers = ∅) (hfollowed : Followed env net k w w')
    {p : Prepared R} (hp : prepare env w'.engine w'.response = some p) {m : WrittenHead} {s : Int}
    (hcode : lexicalCastInt m.code = some s) (hs : s < 300) {rest : Bytes}
    (hwalked : walked (dialed (net w'.trace) p.engine) ((net w'.trace).reads p.request)
      (net w'.trace).buffer = m.text ++ rest)
    (hsend : send env (net w'.trace) w' = (.ok false, v)) :
    Reports m.headers (base v.response) ↔
      lookup contentLength m.headers = some (Lib.Decimal.render w.engine.body.length) := by
  obtain ⟨hbody, hleft⟩ := hfollowed.onlyLength (.inl hreset)
  rw [← hbody] at hleft ⊢
  obtain ⟨q, hq, hdial, hsent⟩ := send_returned (congrArg Prod.fst hsend)
  obtain rfl : q = p := Option.some.inj (hq.symm.trans hp)
  rw [send_received hp hdial hsent] at hsend
  obtain ⟨hresult, rfl⟩ := Prod.mk.inj hsend
  rw [← WrittenHead.toHead_text hcode] at hwalked
  have hheaders := receive_headers (net w'.trace).disconnection _ hwalked hs hresult
  rw [prepared_headers hp hleft] at hheaders
  exact reports_iff (WrittenHead.toHead_find? hcode) hheaders

/-! ## A server that sends a length -/

/-- A body of two bytes, announced. -/
def sizedText : Bytes := (announcing (str "2") (by decide)).text ++ str "hi"

def sizedHop : Hop := answering ⟨sizedText, by decide, by decide⟩ ⟨none, none⟩

theorem sized_walked (e : Engine) (he : e.httpType = .sslHttps) (request : Bytes) :
    walked e (sizedHop.reads request) sizedHop.buffer = sizedText := by
  have hthrown : thrown e.httpType .eof = some (.systemError .eof) := by
    rw [he]
    decide
  exact walked_cut (Cut.whole sizedText (by decide) (by decide)) hthrown _

/-- The call that gets it returns, and reports the length of the request. -/
theorem sized_returns : (send ⟨[], []⟩ sizedHop loopStart).1 = .ok false ∧
    (send ⟨[], []⟩ sizedHop loopStart).2.response.getHeader contentLength = str "0" := by
  have hthrown : thrown (dialed sizedHop (loopPrepared loopStart).engine).httpType .eof =
      some (.systemError .eof) := rfl
  have hreceive := receive_eq_parse sizedHop.disconnection
    (Cut.whole sizedText (by decide) (by decide)) hthrown sizedHop.buffer
    (loopPrepared loopStart).sentResponse
  have hsend : send ⟨[], []⟩ sizedHop loopStart = _ :=
    send_received (loop_prepare rfl) (answering_dial _ _ _) rfl
  rw [hsend]
  constructor
  · refine (congrArg Exit.result hreceive).trans ?_
    rfl
  · refine (congrArg (fun x => x.response.getHeader contentLength) hreceive).trans ?_
    rfl

theorem reported_headers_iff_sized :
    Reports [(contentLength, str "2")] (send ⟨[], []⟩ sizedHop loopStart).2.response ↔
      lookup contentLength [(contentLength, str "2")] = some (Lib.Decimal.render 0) := by
  have hfollowed : Followed ⟨[], []⟩ (fun _ => sizedHop) 0 loopStart loopStart := .none _
  exact reported_headers_iff rfl hfollowed (loop_prepare rfl)
    (m := announcing (str "2") (by decide)) (s := 200) (by decide) (by decide)
    (sized_walked _ rfl _) (Prod.ext sized_returns.1 rfl)

/-- The server sent another one. -/
theorem sized_not_reported :
    (send ⟨[], []⟩ sizedHop loopStart).1 = .ok false ∧
      (send ⟨[], []⟩ sizedHop loopStart).2.response.getHeader contentLength = str "0" ∧
      ¬ Reports [(contentLength, str "2")] (send ⟨[], []⟩ sizedHop loopStart).2.response := by
  refine ⟨sized_returns.1, sized_returns.2, fun hreports => ?_⟩
  have hvalue := hreports.values contentLength (str "2") (by decide)
  rw [sized_returns.2] at hvalue
  exact absurd hvalue (by decide)

end Anetd
