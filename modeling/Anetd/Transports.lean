import Anetd.ParseBody
import Anetd.Simulation

/-!
# One list of reads over two transports

A call of `receive` over TLS and one over a plain connection with the same
read outcomes. They end alike unless an error that is not the end of the
stream stops a response that is not finished, or a redirect meets a TLS
shutdown that fails (`transports_agree_iff`).
-/

namespace Anetd

open Lib.Machine

/-- The plain outcome for one over TLS: `eof` for the short-read code. -/
def Read.plain : Read 2048 → Read 2048
  | .data c => .data c
  | .error ec => .error (if ec = .truncated then .eof else ec)

def Engine.overTls (e : Engine) : Engine := { e with httpType := .sslHttps }

def Engine.overPlain (e : Engine) : Engine := { e with httpType := .plainHttp }

/-- The engine without its connection. -/
def Engine.unconnected (e : Engine) : Engine :=
  { e with httpType := .plainHttp, socketOpen := false, sslsocketOpen := false }

/-- Both calls end alike, having asked for the same reads. -/
structure EndAlike (x y : Exit HttpResponse × List (Read 2048)) : Prop where
  result : x.1.result = y.1.result
  response : x.1.response = y.1.response
  engine : x.1.engine.unconnected = y.1.engine.unconnected
  unread : y.2 = x.2.map Read.plain

/-- The parser has consumed the delivered bytes and nothing else. -/
def ConsumedDelivered (d : Disconnection) (os : List (Read 2048)) (e : Engine) (r : HttpResponse)
    (x : Exit HttpResponse) : Prop :=
  ∃ next : Frame HttpResponse → Exit HttpResponse,
    (∀ f, (next f).response.body = f.response.body) ∧
      x = settle next (parse d (.start e r) (delivered os))

/-- The two transports agree on a list of outcomes. -/
structure TransportsAgree (d : Disconnection) (os : List (Read 2048)) (buffer₁ buffer₂ : Buffer)
    (e : Engine) (r : HttpResponse) : Prop where
  alike : EndAlike (receive d os buffer₁ e.overTls r)
    (receive d (os.map Read.plain) buffer₂ e.overPlain r)
  tls : ConsumedDelivered d os e.overTls r (receive d os buffer₁ e.overTls r).1
  plain : ConsumedDelivered d os e.overPlain r
    (receive d (os.map Read.plain) buffer₂ e.overPlain r).1

/-! ## Finished responses -/

/-- The bytes end a call by themselves: a bad status field, or a head that
refuses, redirects or announces a body that is all there. -/
def Finished (r : HttpResponse) (bs : Bytes) : Prop :=
  BadStatus bs ∨ ∃ h : Head, ∃ rest, bs = h.text ++ rest ∧
    (300 ≤ h.status ∨ ∃ v, h.headers.find? contentLength = some v ∧
      ∀ n, lexicalCastInt v = some n → completes r.body.length (sizeOfInt n) rest.length)

/-- The bytes begin with a redirect that makes the engine disconnect. -/
def Redirected (e : Engine) (bs : Bytes) : Prop :=
  ∃ h : Head, ∃ rest, bs = h.text ++ rest ∧ 300 ≤ h.status ∧ h.status < 400 ∧
    (5 < e.redirtimes ∨ h.headers.find? (str "Location") ≠ none)

section finished
variable (d : Disconnection) {e : Engine} {r : HttpResponse} {bs : Bytes}

theorem finished_done (h : Finished r bs) {f : Frame HttpResponse}
    (hf : parse d (.start e r) bs = .ok f) : f.done = true := by
  rcases h with hbad | ⟨h, rest, rfl, hfinal⟩
  · rw [parse_badStatus d e r hbad] at hf
    cases hf
  · by_cases hs : 300 ≤ h.status
    · rw [parse_final d e r (Int.not_lt.mpr hs) rest] at hf
      cases hf
    · obtain ⟨v, hv, hcompletes⟩ := hfinal.resolve_left hs
      cases hn : lexicalCastInt v with
      | none =>
        rw [parse_misannounced d e r (by omega) hv hn rest] at hf
        cases hf
      | some n =>
        rw [parse_announced d e r (by omega) hv hn, if_pos (hcompletes n hn)] at hf
        rw [← Except.ok.inj hf]
        rfl

theorem finished_of_done
    (h : ∀ f, parse d (.start e r) bs = .ok f → f.done = true) : Finished r bs := by
  rcases parse_trichotomy d e r bs with ⟨h', rest, rfl⟩ | hbad | ⟨f, hf, hhead, -, -⟩
  · refine .inr ⟨h', rest, rfl, ?_⟩
    by_cases hs : 300 ≤ h'.status
    · exact .inl hs
    · right
      cases hv : h'.headers.find? contentLength with
      | none =>
        have hdone := h _ (parse_unannounced d e r (by omega) hv rest)
        cases hdone
      | some v =>
        refine ⟨v, rfl, fun n hn => ?_⟩
        have hdone := h _ (parse_announced d e r (by omega) hv hn rest)
        by_cases hcompletes : completes r.body.length (sizeOfInt n) rest.length
        · exact hcompletes
        · rw [if_neg hcompletes] at hdone
          cases hdone
  · exact .inl hbad
  · have hdone := h f hf
    rw [Frame.done, decide_eq_true_eq] at hdone
    rw [hdone] at hhead
    cases hhead

/-- An error code thrown out of the parser comes from a redirect. -/
theorem redirected_of_errorCode {x : Exit HttpResponse} (hx : parse d (.start e r) bs = .error x)
    {se : ErrorCode} (hresult : x.result = .error (.threw (.errorCode se))) : Redirected e bs := by
  rcases parse_error_cases d e r hx with ⟨-, rfl⟩ | ⟨h, rest, v, -, -, -, -, rfl⟩ |
    ⟨h, rest, hsplit, hlow, rfl⟩
  · cases hresult
  · cases hresult
  · split at hresult
    · rename_i hhigh
      obtain ⟨-, hmet⟩ := (redirect_throws_iff d).mp ⟨_, hresult⟩
      exact ⟨h, rest, hsplit, Int.not_lt.mp hlow, hhigh, hmet⟩
    · cases hresult

end finished

/-! ## The two calls -/

section calls
variable (d : Disconnection)

/-- Over TLS no call throws a `system_error`: the only one `sockget` throws is
the end of the stream. -/
theorem receiveLoop_overTls (os : List (Read 2048)) (buffer : Buffer) {f : Frame HttpResponse}
    (hf : f.engine.httpType = .sslHttps) (ec : ErrorCode) :
    (receiveLoop d os buffer f).1.result ≠ .error (.threw (.systemError ec)) := by
  induction os generalizing buffer f with
  | nil =>
    intro h
    cases h
  | cons o os ih =>
    simp only [receiveLoop, hf]
    cases hget : sockget .sslHttps o buffer with
    | error x =>
      have hx : x = .systemError .eof := by
        cases o with
        | data c =>
          rw [sockget_data] at hget
          cases hget
        | error ec =>
          simp only [sockget_error, thrown] at hget
          split at hget
          · rename_i x' hsome
            split at hsome
            · cases hsome
            · rw [← Except.error.inj hget, ← Option.some.inj hsome]
          · cases hget
      simp only [hx, handle, if_true]
      intro h
      cases h
    | ok count =>
      simp only [scan_eq_parse]
      cases hparse : parse d f (scanned count.2 count.1 0) with
      | error x => exact (parse_error_leaves d f hparse).noSystemError ec
      | ok g =>
        simp only [flush_self]
        split
        · intro h
          cases h
        · exact ih count.2 (by rw [parse_engine d f hparse, hf])

/-- How the two calls may end together: alike, or by a redirect whose TLS
shutdown fails. -/
def EndTogether (e : Engine) (x y : Exit HttpResponse) : Prop :=
  (x.result = y.result ∧ x.response = y.response ∧
    x.engine.unconnected = y.engine.unconnected) ∨
  e.overTls.ShutdownFails d ∧ (∃ se, x.result = .error (.threw (.errorCode se))) ∧
    ∃ b, y.result = .ok b

theorem unconnected_disconnect (e : Engine) :
    (e.disconnect d).1.unconnected = e.unconnected := by
  rw [e.disconnect_fields d]
  rfl

theorem overPlain_quiet {e : Engine} (h : e.httpType = .plainHttp) :
    (e.disconnect d).2 = none := by
  refine e.disconnect_quiet d fun hfails => ?_
  have htype := hfails.1
  rw [h] at htype
  cases htype

theorem endTogether (e : Engine) :
    ExitsRelated (EndTogether d e) d d e.overTls e.overPlain where
  same := fun result r => .inl ⟨rfl, rfl, rfl⟩
  redirect := by
    intro l r hlow hhigh
    by_cases hlimit : 5 < e.redirtimes
    · have hplain := redirect_limit d (f := ⟨l, e.overPlain, r⟩) hlimit (overPlain_quiet d rfl)
      rw [hplain, redirect_beyond d (e := e.overTls) hlimit]
      by_cases hfails : e.overTls.ShutdownFails d
      · obtain ⟨se, hse⟩ := e.overTls.counted.disconnect_throws d hfails
        rw [hse]
        exact .inr ⟨hfails, ⟨se, rfl⟩, false, rfl⟩
      · rw [Engine.disconnect_quiet e.overTls.counted d hfails]
        refine .inl ⟨rfl, rfl, ?_⟩
        exact (unconnected_disconnect d e.overTls.counted).trans
          (unconnected_disconnect d e.overPlain.counted).symm
    · cases hurl : l.tempheaders.find? (str "Location") with
      | none =>
        have hplain := redirect_lost d (f := ⟨l, e.overPlain, r⟩) hlimit hurl
        have htls := redirect_lost d (f := ⟨l, e.overTls, r⟩) hlimit hurl
        rw [htls, hplain]
        exact .inl ⟨rfl, rfl, rfl⟩
      | some url =>
        have hplain := redirect_follow d (f := ⟨l, e.overPlain, r⟩) hlimit hurl
          (overPlain_quiet d rfl)
        rw [hplain, redirect_target d (e := e.overTls) hlimit hurl]
        by_cases hfails : e.overTls.ShutdownFails d
        · obtain ⟨se, hse⟩ := (e.overTls.redirected url).disconnect_throws d hfails
          rw [hse]
          exact .inr ⟨hfails, ⟨se, rfl⟩, true, rfl⟩
        · rw [Engine.disconnect_quiet (e.overTls.redirected url) d hfails]
          refine .inl ⟨rfl, rfl, ?_⟩
          exact (unconnected_disconnect d (e.overTls.redirected url)).trans
            (unconnected_disconnect d (e.overPlain.redirected url)).symm

/-- How two calls in related states go on with a list of outcomes: they end
together with the same outcomes unread, and not alike only by a redirect in the
delivered bytes; or an error that is no end of the stream meets an unfinished
response. -/
inductive Course (e : Engine) (os : List (Read 2048)) (f : Frame HttpResponse)
    (x y : Exit HttpResponse × List (Read 2048)) : Prop where
  | alike (h : EndAlike x y)
  | redirect (x' : Exit HttpResponse) (left : parse d f (delivered os) = .error x')
      (fails : e.overTls.ShutdownFails d) (se : ErrorCode)
      (threw : x'.result = .error (.threw (.errorCode se)))
  | unfinished (ec : ErrorCode) (first : firstError os = some ec)
      (unclean : ¬ (ec = .eof ∨ ec = .truncated)) (g : Frame HttpResponse)
      (waits : parse d f (delivered os) = .ok g) (undone : g.done = false)

/-- After a read that delivers, the course is that of the rest, unless both
calls end there. -/
theorem course_data (e : Engine) (c : Chunk 2048) {os : List (Read 2048)} (buffer₁ buffer₂ : Buffer)
    {f g : Frame HttpResponse} (hfg : Alike e.overTls e.overPlain f g)
    (ih : ∀ f' g', Alike e.overTls e.overPlain f' g' → f'.done = false →
      Course d e os f' (receiveLoop d os (buffer₁.store c.bytes) f')
        (receiveLoop d (os.map Read.plain) (buffer₂.store c.bytes) g')) :
    Course d e (.data c :: os) f (receiveLoop d (.data c :: os) buffer₁ f)
      (receiveLoop d (.data c :: os.map Read.plain) buffer₂ g) := by
  simp only [receiveLoop_cons_data]
  rcases (parse_alike (endTogether d e) hfg c.bytes).cases with
    ⟨x, y, h₁, h₂, hxy⟩ | ⟨f', g', h₁, h₂, hfg'⟩
  · simp only [h₁, h₂]
    rcases hxy with ⟨hresult, hresponse, hengine⟩ | ⟨hfails, ⟨se, hse⟩, -⟩
    · exact .alike ⟨hresult, hresponse, hengine, rfl⟩
    · exact .redirect x (run_append_error h₁ (delivered os)) hfails se hse
  · have hdone : f'.done = g'.done := by
      obtain ⟨l, r, rfl, rfl⟩ := hfg'
      rfl
    simp only [h₁, h₂, ← hdone]
    cases hf' : f'.done with
    | true =>
      obtain ⟨l, r, rfl, rfl⟩ := hfg'
      exact .alike ⟨rfl, rfl, rfl, rfl⟩
    | false =>
      have happend := run_append_ok h₁ (delivered os)
      simp only [Bool.false_eq_true, if_false]
      cases ih f' g' hfg' hf' with
      | alike h => exact .alike h
      | redirect x' left fails se threw =>
        exact .redirect x' (happend.trans left) fails se threw
      | unfinished ec first unclean g waits undone =>
        exact .unfinished ec first unclean g (happend.trans waits) undone

/-- At the first error the calls end alike, or the response is unfinished. -/
theorem course_error (e : Engine) (ec : ErrorCode) (os : List (Read 2048))
    (buffer₁ buffer₂ : Buffer) {f g : Frame HttpResponse} (hfg : Alike e.overTls e.overPlain f g)
    (hf : f.done = false) :
    Course d e (.error ec :: os) f (receiveLoop d (.error ec :: os) buffer₁ f)
      (receiveLoop d ((Read.error ec :: os).map Read.plain) buffer₂ g) := by
  by_cases hclean : ec = .eof ∨ ec = .truncated
  · obtain ⟨l, r, rfl, rfl⟩ := hfg
    have htls : thrown .sslHttps ec = some (.systemError .eof) := by
      refine thrown_endOfStream ?_
      rcases hclean with h | h
      · exact .inl h
      · exact .inr ⟨rfl, h⟩
    have hplain : (if ec = .truncated then ErrorCode.eof else ec) = .eof := by
      rcases hclean with rfl | rfl
      · decide
      · rfl
    have hget₁ : sockget e.overTls.httpType (.error ec) buffer₁ = .error (.systemError .eof) := by
      simp only [Engine.overTls, sockget_error, htls]
    simp only [List.map_cons, Read.plain, hplain, receiveLoop, hget₁]
    exact .alike ⟨rfl, rfl, rfl, rfl⟩
  · exact .unfinished ec rfl hclean f rfl hf

theorem receiveLoop_course (e : Engine) (os : List (Read 2048)) (buffer₁ buffer₂ : Buffer)
    {f g : Frame HttpResponse} (hfg : Alike e.overTls e.overPlain f g) (hf : f.done = false) :
    Course d e os f (receiveLoop d os buffer₁ f)
      (receiveLoop d (os.map Read.plain) buffer₂ g) := by
  induction os generalizing buffer₁ buffer₂ f g with
  | nil =>
    obtain ⟨l, r, rfl, rfl⟩ := hfg
    exact .alike ⟨rfl, rfl, rfl, rfl⟩
  | cons o os ih =>
    cases o with
    | data c => exact course_data d e c buffer₁ buffer₂ hfg fun f' g' => ih _ _
    | error ec => exact course_error d e ec os buffer₁ buffer₂ hfg hf

end calls

/-! ## When the calls agree -/

theorem delivered_plain (os : List (Read 2048)) :
    delivered (os.map Read.plain) = delivered os := by
  induction os with
  | nil => rfl
  | cons o os ih =>
    cases o with
    | data c => simp only [List.map_cons, Read.plain, delivered, ih]
    | error ec => rfl

theorem firstError_plain (os : List (Read 2048)) :
    firstError (os.map Read.plain) =
      (firstError os).map fun ec => if ec = .truncated then .eof else ec := by
  induction os with
  | nil => rfl
  | cons o os ih =>
    cases o with
    | data c => exact ih
    | error ec => rfl

section outcomes
variable (d : Disconnection) {e : Engine} {r : HttpResponse} {os : List (Read 2048)}

theorem handle_body (x : Exn) (f : Frame HttpResponse) :
    (handle x f).response.body = f.response.body := by
  unfold handle
  split <;> rfl

/-- Unless an error is returned as a count of zero to an unfinished response,
only the delivered bytes are consumed. -/
theorem consumedDelivered (buffer : Buffer)
    (h : ∀ ec, firstError os = some ec →
      (∃ x, thrown e.httpType ec = some x) ∨ Finished r (delivered os)) :
    ConsumedDelivered d os e r (receive d os buffer e r).1 := by
  obtain ⟨cut, rest, hos, hrest⟩ := exists_cut os
  have hrun : (receive d os buffer e r).1 =
      (receive d (cut.chunks.map .data ++ rest) buffer e r).1 := by rw [← hos]
  obtain ⟨buffer', hdata⟩ := receive_data d cut rest buffer e r
  rw [hrun]
  cases hfirst : firstError os with
  | none =>
    rw [hfirst] at hrest
    rw [List.head?_eq_none_iff.mp hrest] at hdata ⊢
    exact ⟨_, fun f => rfl, hdata⟩
  | some ec =>
    rw [hfirst] at hrest
    obtain ⟨unread, rfl⟩ := List.head?_eq_some_iff.mp hrest
    rcases h ec hfirst with ⟨x, hx⟩ | hfinished
    · exact ⟨handle x, handle_body x, receive_eq_parse_append d cut hx unread buffer r⟩
    · refine ⟨complete, fun f => rfl, ?_⟩
      rw [hdata]
      cases hparse : parse d (.start e r) (delivered os) with
      | error x => rfl
      | ok f => simp only [settle, finished_done d hfinished hparse, if_true]

/-- A redirect with a failing TLS shutdown throws over TLS only. -/
theorem redirect_disagrees {l : Locals}
    (htarget : 5 < e.redirtimes ∨ l.tempheaders.find? (str "Location") ≠ none)
    (hfails : e.overTls.ShutdownFails d) :
    (redirect d ⟨l, e.overTls, r⟩).result ≠ (redirect d ⟨l, e.overPlain, r⟩).result := by
  obtain ⟨stop, hstop⟩ := (redirect_throws_iff d (f := ⟨l, e.overTls, r⟩)).mpr ⟨hfails, htarget⟩
  intro hsame
  have hplain := (redirect_throws_iff d (f := ⟨l, e.overPlain, r⟩)).mp ⟨stop, hsame.symm.trans hstop⟩
  cases hplain.1.1

/-- An error that is no end of a stream makes an unfinished plain call throw. -/
theorem receive_overPlain_throws (buffer : Buffer) {ec : ErrorCode}
    (hfirst : firstError os = some ec) (hunclean : ¬ (ec = .eof ∨ ec = .truncated))
    (hunfinished : ¬ Finished r (delivered os)) :
    (receive d (os.map Read.plain) buffer e.overPlain r).1.result =
      .error (.threw (.systemError ec)) := by
  obtain ⟨cut, rest, hos, hrest⟩ := exists_cut (os.map Read.plain)
  have hne : ec ≠ .truncated := fun h => hunclean (.inr h)
  rw [firstError_plain, hfirst, Option.map_some, if_neg hne] at hrest
  obtain ⟨unread, rfl⟩ := List.head?_eq_some_iff.mp hrest
  have hx : thrown e.overPlain.httpType ec = some (.systemError ec) := rfl
  have hrun := receive_eq_parse_append d cut hx unread buffer r
  rw [← hos] at hrun
  have hwaits : ∃ f, parse d (.start e.overPlain r) (delivered os) = .ok f ∧ f.done = false := by
    apply Classical.byContradiction
    intro hnone
    refine hunfinished (finished_of_done d (e := e.overPlain) fun f hf => ?_)
    cases hdone : f.done with
    | true => rfl
    | false => exact absurd ⟨f, hf, hdone⟩ hnone
  obtain ⟨f, hf, hdone⟩ := hwaits
  have heof : Exn.systemError ec ≠ .systemError .eof :=
    fun h => hunclean (.inl (Exn.systemError.inj h))
  rw [hrun, delivered_plain, hf]
  simp only [settle, hdone, Bool.false_eq_true, if_false, handle, heof]

end outcomes

/-- What has to hold of the outcomes for that: an error is an end of the
stream or comes after a finished response, and a redirect does not meet a
failing TLS shutdown. -/
structure Comparable (d : Disconnection) (os : List (Read 2048)) (e : Engine) (r : HttpResponse) :
    Prop where
  errors : ∀ ec, firstError os = some ec →
    (ec = .eof ∨ ec = .truncated) ∨ Finished r (delivered os)
  shutdown : Redirected e (delivered os) → ¬ e.overTls.ShutdownFails d

/-- **When TLS and plain transports agree.** -/
theorem transports_agree_iff (d : Disconnection) (os : List (Read 2048))
    (buffer₁ buffer₂ : Buffer) (e : Engine) (r : HttpResponse) :
    TransportsAgree d os buffer₁ buffer₂ e r ↔ Comparable d os e r := by
  constructor
  · intro hagree
    have hresult := hagree.alike.result
    constructor
    · intro ec hfirst
      by_cases hclean : ec = .eof ∨ ec = .truncated
      · exact .inl hclean
      · right
        apply Classical.byContradiction
        intro hunfinished
        rw [receive_overPlain_throws d buffer₂ hfirst hclean hunfinished] at hresult
        exact receiveLoop_overTls d os buffer₁ rfl ec hresult
    · rintro ⟨h, rest, hsplit, hlow, hhigh, htarget⟩ hfails
      rw [receive_redirected d e.overTls r buffer₁ hsplit hlow hhigh,
        receive_redirected d e.overPlain r buffer₂ ((delivered_plain os).trans hsplit) hlow hhigh]
        at hresult
      exact redirect_disagrees d htarget hfails hresult
  · intro hcomparable
    refine ⟨?_, ?_, ?_⟩
    · have hstart : Alike e.overTls e.overPlain (.start e.overTls r) (.start e.overPlain r) :=
        alike _ r
      cases receiveLoop_course d e os buffer₁ buffer₂ hstart rfl with
      | alike h => exact h
      | redirect x' left fails se threw =>
        have hredirected : Redirected e (delivered os) :=
          redirected_of_errorCode d (e := e.overTls) left threw
        exact absurd fails (hcomparable.shutdown hredirected)
      | unfinished ec first unclean g waits undone =>
        have hfinished := (hcomparable.errors ec first).resolve_left unclean
        rw [finished_done d hfinished waits] at undone
        cases undone
    · refine consumedDelivered d buffer₁ fun ec hfirst => ?_
      refine (hcomparable.errors ec hfirst).imp (fun hclean => ?_) id
      refine ⟨.systemError .eof, thrown_endOfStream ?_⟩
      exact hclean.imp id fun h => ⟨rfl, h⟩
    · have hplain : ConsumedDelivered d (os.map Read.plain) e.overPlain r
          (receive d (os.map Read.plain) buffer₂ e.overPlain r).1 :=
        consumedDelivered d buffer₂ fun ec _ => .inl ⟨.systemError ec, rfl⟩
      rwa [ConsumedDelivered, delivered_plain] at hplain

/-- A connection reset inside a body: over TLS the call returns, over a plain
connection it throws. -/
theorem reset_disagrees :
    let os := (Cut.bytewise (by decide) (str "HTTP/1.0 200 OK\r\n\r\nhi")).reads ⟨.system, 104⟩
    (receive ⟨none, none⟩ os (fun _ => 0) Engine.new.overTls HttpResponse.new).1.result =
        .ok false ∧
      (receive ⟨none, none⟩ (os.map Read.plain) (fun _ => 0) Engine.new.overPlain
        HttpResponse.new).1.result = .error (.threw (.systemError ⟨.system, 104⟩)) ∧
      ¬ TransportsAgree ⟨none, none⟩ os (fun _ => 0) (fun _ => 0) .new .new := by
  intro os
  have htls : (receive ⟨none, none⟩ os (fun _ => 0) Engine.new.overTls HttpResponse.new).1.result =
      .ok false := by
    have hx : thrown Engine.new.overTls.httpType ⟨.system, 104⟩ = some (.systemError .eof) := rfl
    rw [receive_eq_parse ⟨none, none⟩ _ hx]
    rfl
  have hplain : (receive ⟨none, none⟩ (os.map Read.plain) (fun _ => 0) Engine.new.overPlain
      HttpResponse.new).1.result = .error (.threw (.systemError ⟨.system, 104⟩)) := by
    have hx : thrown Engine.new.overPlain.httpType ⟨.system, 104⟩ =
        some (.systemError ⟨.system, 104⟩) := rfl
    have hos : os.map Read.plain = os := rfl
    rw [hos, receive_eq_parse ⟨none, none⟩ _ hx]
    rfl
  refine ⟨htls, hplain, fun hagree => ?_⟩
  have hresult := hagree.alike.result
  rw [htls, hplain] at hresult
  cases hresult

end Anetd
