import Anetd.DirectTransfer
import Anetd.HeadPieces
import Anetd.Hops
import Anetd.RequestMessage

/-!
# A reader on the web

What a transfer is for, without the engine: a web has a document at every URL,
and a reader who starts at one of them and is sent on at most six times leaves a
trail. When every URL of the trail is served, a transfer asks for the documents
of the trail, in this order, and leaves the last one in the response
(`connect_reads`).
-/

namespace Anetd

open Lib.OrdMap

/-! ## The web -/

/-- A head and what is sent behind it. The length that a successful one announces
is an `int`. -/
structure Document where
  head : Head
  rest : Bytes
  length_ok : head.status < 300 → ∀ v, head.headers.find? contentLength = some v →
    ∃ n, lexicalCastInt v = some n

namespace Document
variable (doc : Document)

def text : Bytes := doc.head.text ++ doc.rest

/-- Where the reader is sent. -/
def location : Option Bytes :=
  if 300 ≤ doc.head.status ∧ doc.head.status < 400 then doc.head.headers.find? (str "Location")
  else none

/-- What is announced, or everything. -/
def body : Bytes :=
  match (doc.head.headers.find? contentLength).bind lexicalCastInt with
  | some n => doc.rest.take (sizeOfInt n)
  | none => doc.rest

variable {doc}

theorem body_announced {v : Bytes} {n : Int} (found : doc.head.headers.find? contentLength = some v)
    (number : lexicalCastInt v = some n) : doc.body = doc.rest.take (sizeOfInt n) := by
  rw [body, found, Option.bind_some, number]

theorem body_unannounced (found : doc.head.headers.find? contentLength = none) :
    doc.body = doc.rest := by
  rw [body, found]
  rfl

end Document

abbrev Web := Bytes → Document

/-- The URLs that a reader comes to who is sent on so many times at most. -/
def Web.trail (web : Web) : Nat → Bytes → List Bytes
  | 0, url => [url]
  | n + 1, url =>
    match (web url).location with
    | some next => url :: web.trail n next
    | none => [url]

section
variable {web : Web} {url : Bytes}

theorem trail_sent {next : Bytes} (h : (web url).location = some next) (n : Nat) :
    web.trail (n + 1) url = url :: web.trail n next := by
  rw [Web.trail, h]

theorem trail_last {n : Nat} (h : (web url).location = none ∨ n = 0) : web.trail n url = [url] := by
  cases n with
  | zero => rfl
  | succ n =>
    rw [Web.trail, h.resolve_right (Nat.succ_ne_zero n)]

end

/-! ## What is asked for -/

/-- What the requests of a transfer have in common: the settings of its engine,
and the headers and credentials of its response. -/
structure Asker where
  settings : Engine
  sendheaders : StringMap
  httpauth : Bytes × Bytes

/-- The Host header that an earlier hop has left does not count. -/
def World.asker {R : Type} [ResponseClass R] (w : World R) : Asker where
  settings := w.engine.settings
  sendheaders := (base w.response).sendheaders.set (str "Host") []
  httpauth := (base w.response).httpauth

/-- The mode in which a document is asked for. Once on, the proxy mode stays. -/
def Environment.mode (env : Environment) (before : HttpProxy) (parts : UrlParts) : HttpProxy :=
  if env.variable parts ≠ [] then .httpProxy else before

namespace Asker
variable (a : Asker) (env : Environment)

/-- The request for a document: its path and query, behind the URL of its host in
a proxy mode, and its Host header. -/
def message (mode : HttpProxy) (parts : UrlParts) : RequestMessage where
  method := a.settings.method
  target := (if mode = .none then []
      else toLower parts.protocol ++ str "://" ++ parts.host ++ str ":" ++ parts.portOrDefault) ++
    parts.path ++ parts.query ++ argumentText a.settings parts
  version := a.settings.version
  fields := (a.sendheaders.set (str "Host") parts.host).entries ++
    basicField (str "Authorization") a.httpauth ++
    (if mode = .httpProxy then
      basicField (str "Proxy-Authorization") a.settings.proxyauth else []) ++
    [(str "Accept", str "*/*"), (str "Connection", str "close")]
  rest := crlf ++ a.settings.body

/-- One document is asked for: its endpoint is resolved, and gets the request. -/
def inquiry (before : HttpProxy) (url : Bytes) : List Event :=
  ((urlParts url).bind fun parts => (endpoint env parts).map fun target =>
    [.query target.host target.port,
      .request parts.transport (a.message (env.mode before parts) parts).text]).getD []

/-- So are the documents at some URLs, one after the other. -/
def inquiries : HttpProxy → List Bytes → List Event
  | _, [] => []
  | before, url :: urls => a.inquiry env before url ++
      inquiries (((urlParts url).map (env.mode before)).getD before) urls

end Asker

/-- The events that ask for a document. -/
def Event.asks : Event → Bool
  | .query _ _ | .request _ _ => true
  | _ => false

/-- Who gets the request for a document. A tunnel leads to its host. -/
def UrlParts.server (env : Environment) (parts : UrlParts) : HttpType × Option Target :=
  match parts.transport with
  | .plainHttp => (.plainHttp, endpoint env parts)
  | .sslHttps => (.sslHttps, some ⟨parts.host, parts.portOrDefault⟩)

theorem server_transport {env : Environment} {parts parts' : UrlParts}
    (h : parts.server env = parts'.server env) : parts.transport = parts'.transport := by
  have htype (parts : UrlParts) : (parts.server env).1 = parts.transport := by
    unfold UrlParts.server
    split <;> exact Eq.symm ‹_›
  rw [← htype, h, htype]

/-! ## Readers -/

/-- What a kind of response makes of the web: when nothing of a document has come
to it yet, which documents it takes as they are, and what it has in the end of
the last one. -/
structure Reader (R : Type) where
  Blank : R → Prop
  Admits : Document → Prop
  Obtained : Document → R → R → Prop

namespace Reader
variable {R : Type}

/-- What is got from the second response on, is got from the first. -/
structure Leads (I : Reader R) (r s : R) : Prop where
  blank : I.Blank s
  obtained : ∀ doc t, I.Obtained doc s t → I.Obtained doc r t

theorem Leads.refl {I : Reader R} {r : R} (h : I.Blank r) : I.Leads r r := ⟨h, fun _ _ h => h⟩

theorem Leads.trans {I : Reader R} {r s t : R} (hrs : I.Leads r s) (hst : I.Leads s t) :
    I.Leads r t where
  blank := hst.blank
  obtained doc u h := hrs.obtained doc u (hst.obtained doc u h)

/-- What a class has to do for it: nothing shows of the request, of the flushes
within a head and of a redirect, and a document that comes in pieces is got. -/
structure Lawful [ResponseClass R] (I : Reader R) : Prop where
  host : ∀ r host, I.Blank r → I.Leads r (update (fun b => b.setHost host) r)
  contentLength : ∀ r n, I.Blank r → I.Leads r (update (fun b => b.setContentLength n) r)
  flush : ∀ r, I.Blank r → ∃ r', ResponseClass.flush r = .ok r' ∧
    (base r').url = (base r).url ∧ I.Leads r r'
  sent : ∀ r doc next, I.Blank r → I.Admits doc → doc.location = some next →
    I.Leads r (ResponseClass.setURL r next)
  refused : ∀ (doc : Document) f, I.Blank f.response → ¬ doc.head.status < 300 →
    f.toLocals = doc.head.locals → (base (refuse f).response).url = (base f.response).url ∧
      I.Obtained doc f.response (refuse f).response
  accepted : ∀ (doc : Document) d e r ps, I.Blank r → I.Admits doc → doc.head.status < 300 →
    ps.flatten = doc.text →
    let x := turns d (some (.systemError .eof)) ps (.start e r)
    x.result = .ok false ∧ (base x.response).url = (base r).url ∧ I.Obtained doc r x.response

/-! ## One document -/

namespace Lawful
variable [ResponseClass R] {I : Reader R} (hI : I.Lawful) {doc : Document} {r : R}
include hI

theorem flushes (hr : I.Blank r) (n : Nat) : ∃ r', flushes n r = .ok r' ∧
    (base r').url = (base r).url ∧ I.Leads r r' := by
  induction n generalizing r with
  | zero => exact ⟨r, rfl, rfl, .refl hr⟩
  | succ n ih =>
    obtain ⟨r₁, hflush, hurl₁, hleads₁⟩ := hI.flush r hr
    obtain ⟨r₂, hflushes, hurl₂, hleads₂⟩ := ih hleads₁.blank
    refine ⟨r₂, ?_, hurl₂.trans hurl₁, hleads₁.trans hleads₂⟩
    rw [Anetd.flushes, hflush]
    exact hflushes

variable {d : Disconnection} {e : Engine} {ps : List Bytes}

/-- From status 300 on the call ends with the head. -/
theorem final (hr : I.Blank r) (hs : ¬ doc.head.status < 300) (hps : ps.flatten = doc.text) :
    ∃ r', (base r').url = (base r).url ∧ I.Leads r r' ∧
      turns d (some (.systemError .eof)) ps (.start e r) =
        if doc.head.status < 400 then redirect d ⟨doc.head.locals, e, r'⟩
        else refuse ⟨doc.head.locals, e, r'⟩ := by
  obtain ⟨c⟩ := head_pieces hps
  obtain ⟨r', hflushes, hurl, hleads⟩ := hI.flushes hr c.pre.length
  have hturns := c.turns d (some (.systemError .eof)) e r
  rw [hflushes] at hturns
  exact ⟨r', hurl, hleads, hturns.trans (turns_error (parse_final d e r' hs c.part))⟩

/-- **A reader is sent on** while the limit is not reached. -/
theorem sent_on [LawfulResponse R] (hr : I.Blank r) (hadmits : I.Admits doc)
    (hps : ps.flatten = doc.text) (hclosed : ¬ e.ShutdownFails d) (hlimit : e.redirtimes ≤ 5)
    {next : Bytes} (hnext : doc.location = some next) :
    let x := turns d (some (.systemError .eof)) ps (.start e r)
    x.result = .ok true ∧ (base x.response).url = next ∧ I.Leads r x.response := by
  obtain ⟨⟨hlow, hhigh⟩, hlocation⟩ := Option.ite_none_right_eq_some.mp hnext
  obtain ⟨r', -, hleads, hturns⟩ := hI.final (d := d) (e := e) hr (Int.not_lt.mpr hlow) hps
  have hbelow : ¬ 5 < e.redirtimes := by omega
  rw [if_pos hhigh, redirect_follow d (f := ⟨doc.head.locals, e, r'⟩) hbelow hlocation
    (Engine.disconnect_quiet _ _ hclosed)] at hturns
  intro x
  rw [show x = _ from hturns]
  refine ⟨rfl, ?_, hleads.trans (hI.sent r' doc next hleads.blank hadmits hnext)⟩
  rw [LawfulResponse.base_setURL]
  rfl

/-- **Every other document ends the trail.** -/
theorem arrives (hr : I.Blank r) (hadmits : I.Admits doc) (hps : ps.flatten = doc.text)
    (hclosed : ¬ e.ShutdownFails d) (hlast : doc.location = none ∨ 5 < e.redirtimes) :
    let x := turns d (some (.systemError .eof)) ps (.start e r)
    x.result = .ok false ∧ (base x.response).url = (base r).url ∧ I.Obtained doc r x.response := by
  by_cases hs : doc.head.status < 300
  · exact hI.accepted doc d e r ps hr hadmits hs hps
  · obtain ⟨r', hurl, hleads, hturns⟩ := hI.final (d := d) (e := e) hr hs hps
    have hrefused (f : Frame R) (hlocals : f.toLocals = doc.head.locals)
        (hresponse : f.response = r') : (refuse f).result = .ok false ∧
          (base (refuse f).response).url = (base r).url ∧ I.Obtained doc r (refuse f).response := by
      subst hresponse
      obtain ⟨hsame, hgot⟩ := hI.refused doc f hleads.blank hs hlocals
      exact ⟨rfl, hsame.trans hurl, hleads.obtained doc _ hgot⟩
    intro x
    rw [show x = _ from hturns]
    split
    · rename_i hhigh
      by_cases hlimit : 5 < e.redirtimes
      · rw [redirect_limit d (f := ⟨doc.head.locals, e, r'⟩) hlimit
          (Engine.disconnect_quiet _ _ hclosed)]
        exact hrefused _ rfl rfl
      · have hnone := hlast.resolve_right hlimit
        rw [Document.location, if_pos ⟨Int.not_lt.mp hs, hhigh⟩] at hnone
        rw [redirect_lost d (f := ⟨doc.head.locals, e, r'⟩) hlimit hnone]
        exact hrefused _ rfl rfl
    · exact hrefused _ rfl rfl

end Lawful

end Reader

/-! ## One hop -/

/-- A stream that brings a document to its end. -/
inductive Delivers (type : HttpType) (reads : List (Read 2048)) (doc : Document) : Prop where
  | intro (cut : Cut 2048 doc.text) (ending : ErrorCode) (unread : List (Read 2048))
      (reads : reads = cut.chunks.map .data ++ .error ending :: unread)
      (ends : endOfStream type ending)

/-- A hop to a server of the web. It gets the request, whatever it asks for, and
sends the document that is asked for, of all that are to be had from it. -/
inductive Serves {R : Type} [ResponseClass R] (env : Environment) (hop : Hop) (w : World R)
    (web : Web) : Prop where
  | intro {p : Prepared R} (prepared : prepare env w.engine w.response = some p)
      (known : p.parts.Known) (connected : (dial hop p).2 = .ok ()) (sent : hop.send = none)
      (answers : ∀ url parts mode, urlParts url = some parts → parts.Known →
        parts.server env = p.parts.server env →
        Delivers p.engine.httpType (hop.reads (w.asker.message mode parts).text) (web url))
      (closed : ¬ (dialed hop p.engine).ShutdownFails hop.disconnection)

section hop
variable {R : Type} [ResponseClass R] {env : Environment} {hop : Hop} {w : World R}

theorem prepared_known {p : Prepared R} (hp : prepare env w.engine w.response = some p)
    (hknown : p.parts.Known) : urlParts (base w.response).url = some p.parts ∧
      endpoint env p.parts = some p.target ∧ p.engine = w.engine.overwrite env p.parts ∧
      p.response = update (fun b => b.setHost p.parts.host) w.response := by
  obtain ⟨hparts, ⟨-, hprepared⟩ | ⟨hunknown, -⟩⟩ := prepare_cases hp
  · exact ⟨hparts, hprepared⟩
  · exact absurd hknown hunknown

/-- **The request of a call** is the one for its URL. -/
theorem request_asks [LawfulResponse R] {p : Prepared R}
    (hp : prepare env w.engine w.response = some p) (hknown : p.parts.Known) :
    p.request = (w.asker.message (env.mode w.engine.httpProxy p.parts) p.parts).text := by
  obtain ⟨-, -, hengine, hresponse⟩ := prepared_known hp hknown
  have hsender : p.sender = ((base w.response).setHost p.parts.host).setContentLength
      p.engine.body.length := by
    rw [Prepared.sender, LawfulResponse.base_update, hresponse, LawfulResponse.base_update]
  have hheaders : p.sender.sendheaders =
      w.asker.sendheaders.set (str "Host") p.parts.host := by
    rw [hsender, World.asker, set_set]
    rfl
  have hauth : p.sender.httpauth = w.asker.httpauth := by rw [hsender]; rfl
  rw [request_text]
  refine congrArg RequestMessage.text ?_
  simp only [Prepared.message, Asker.message, hheaders, hauth, hengine]
  rfl

/-- One document is asked for on a hop, and no other. -/
theorem events_asked [LawfulResponse R] {p : Prepared R}
    (hp : prepare env w.engine w.response = some p) (hknown : p.parts.Known)
    (hdial : (dial hop p).2 = .ok ()) :
    (p.events hop).filter Event.asks =
      w.asker.inquiry env w.engine.httpProxy (base w.response).url := by
  obtain ⟨hparts, htarget, hengine, -⟩ := prepared_known hp hknown
  obtain ⟨dials, hdials, hquiet⟩ := dial_events hop p
  have hnone : dials.filter Event.asks = [] := by
    refine List.filter_eq_nil_iff.mpr fun event hevent hasks => ?_
    have hdial := hquiet event hevent
    cases event with
    | query | request => cases hdial
    | connect | command | handshake | callback => cases hasks
  have htype : p.engine.httpType = p.parts.transport := by rw [hengine]; rfl
  have hevents : p.events hop = .query p.target.host p.target.port :: (dials ++
      [.request p.parts.transport p.request]) := by
    simp only [Prepared.events, hdials, hdial, htype, List.cons_append]
  rw [hevents, List.filter_cons_of_pos rfl, List.filter_append, hnone, request_asks hp hknown,
    Asker.inquiry, hparts, Option.bind_some, htarget]
  rfl

/-- The pieces of a stream that is delivered to its end. -/
theorem pieces_delivered {type : HttpType} {ending : ErrorCode} (hended : endOfStream type ending)
    (cs : List (Chunk 2048)) (unread : List (Read 2048)) (first : Byte) :
    pieces type (cs.map .data ++ .error ending :: unread) first =
      (cs.map Chunk.bytes, some (.systemError .eof)) := by
  induction cs generalizing first with
  | nil => simp [pieces, thrown_endOfStream hended]
  | cons c cs ih => simp [pieces, ih]

variable [LawfulResponse R] {web : Web} {I : Reader R}

/-- A served call asks for the document of its URL, and is a call of `receive`
over it in pieces. -/
theorem Serves.send (h : Serves env hop w web) : ∃ p ps,
    Anetd.prepare env w.engine w.response = some p ∧ p.parts.Known ∧ (dial hop p).2 = .ok () ∧
      ps.flatten = (web (base w.response).url).text ∧
      ¬ (dialed hop p.engine).ShutdownFails hop.disconnection ∧
      let x := turns hop.disconnection (some (.systemError .eof)) ps
        (.start (dialed hop p.engine)
          (update (fun b => b.setContentLength p.engine.body.length) p.response))
      (Anetd.send env hop w).1 = x.result ∧ (Anetd.send env hop w).2.response = x.response := by
  cases h with
  | @intro p prepared known connected sent answers closed =>
    have htype : (dialed hop p.engine).httpType = p.engine.httpType := by rw [dialed_fields]
    have hparts := (prepared_known prepared known).1
    have hdelivers := answers _ p.parts (env.mode w.engine.httpProxy p.parts) hparts known rfl
    rw [← request_asks prepared known] at hdelivers
    obtain ⟨cut, ending, unread, reads, ends⟩ := hdelivers
    refine ⟨p, cut.chunks.map Chunk.bytes, prepared, known, connected, cut.join, closed, ?_⟩
    rw [send_received prepared connected sent, receive_turns, reads, htype,
      pieces_delivered ends cut.chunks unread]
    exact ⟨rfl, rfl⟩

/-- The requests of the next hop have the same in common. -/
theorem asker_followed {v : World R} (h : Anetd.send env hop w = (.ok true, v)) :
    v.asker = w.asker := by
  obtain ⟨p, hp, -⟩ := send_carried h
  have hc := (Carries.refl w).hop (prepare_cases hp).1 h
  have hheaders := hc.setHost []
  simp only [World.asker, hc.settings, hc.httpauth, hheaders]

/-- Nothing shows of the request. -/
theorem Reader.Lawful.prepare (hI : I.Lawful) (hr : I.Blank w.response) {p : Prepared R}
    (hp : prepare env w.engine w.response = some p) :
    let r := update (fun b => b.setContentLength p.engine.body.length) p.response
    (base r).url = (base w.response).url ∧ I.Leads w.response r := by
  rcases (prepare_cases hp).2 with ⟨-, -, -, hresponse⟩ | ⟨-, -, -, hresponse⟩
  · have hhost := hI.host _ p.parts.host hr
    rw [← hresponse] at hhost
    refine ⟨?_, hhost.trans (hI.contentLength _ _ hhost.blank)⟩
    rw [hresponse, LawfulResponse.base_update, LawfulResponse.base_update]
    rfl
  · rw [hresponse]
    refine ⟨?_, hI.contentLength _ _ hr⟩
    rw [LawfulResponse.base_update]
    rfl

/-- A hop whose document sends the reader on. -/
theorem Serves.sent (h : Serves env hop w web) (hI : I.Lawful) (hr : I.Blank w.response)
    (hadmits : I.Admits (web (base w.response).url)) (hlimit : w.engine.redirtimes ≤ 5)
    {next : Bytes} (hnext : (web (base w.response).url).location = some next) :
    ∃ v, Anetd.send env hop w = (.ok true, v) ∧ (base v.response).url = next ∧
      v.engine.httpProxy = ((urlParts (base w.response).url).map
        (env.mode w.engine.httpProxy)).getD w.engine.httpProxy ∧
      I.Leads w.response v.response ∧ v.trace.filter Event.asks = w.trace.filter Event.asks ++
        w.asker.inquiry env w.engine.httpProxy (base w.response).url := by
  obtain ⟨p, ps, hp, hknown, hdial, hps, hclosed, hresult, hresponse⟩ := h.send
  obtain ⟨-, hleads⟩ := hI.prepare hr hp
  have htimes : (dialed hop p.engine).redirtimes ≤ 5 := by
    rw [dialed_fields]
    exact (prepare_redirtimes hp).trans_le hlimit
  obtain ⟨hagain, hurl, hon⟩ := hI.sent_on hleads.blank hadmits hps hclosed htimes hnext
  rw [← hresponse] at hurl hon
  have hsend : Anetd.send env hop w = (.ok true, (Anetd.send env hop w).2) :=
    Prod.ext (hresult.trans hagain) rfl
  refine ⟨_, hsend, hurl, ?_, hleads.trans hon, ?_⟩
  · obtain ⟨p', hp', hcarried⟩ := send_carried hsend
    obtain rfl : p' = p := Option.some.inj (hp'.symm.trans hp)
    obtain ⟨hparts, -, hengine, -⟩ := prepared_known hp hknown
    rw [hparts, Option.map_some, Option.getD_some]
    rw [hengine] at hcarried
    exact congrArg Engine.httpProxy hcarried
  · rw [send_trace hp, List.filter_append, events_asked hp hknown hdial]

/-- A hop whose document the reader gets. -/
theorem Serves.last (h : Serves env hop w web) (hI : I.Lawful) (hr : I.Blank w.response)
    (hadmits : I.Admits (web (base w.response).url))
    (hlast : (web (base w.response).url).location = none ∨ 5 < w.engine.redirtimes) :
    ∃ v, Anetd.send env hop w = (.ok false, v) ∧ (base v.response).url = (base w.response).url ∧
      I.Obtained (web (base w.response).url) w.response v.response ∧
      v.trace.filter Event.asks = w.trace.filter Event.asks ++
        w.asker.inquiry env w.engine.httpProxy (base w.response).url := by
  obtain ⟨p, ps, hp, hknown, hdial, hps, hclosed, hresult, hresponse⟩ := h.send
  obtain ⟨hurl, hleads⟩ := hI.prepare hr hp
  have htimes : (dialed hop p.engine).redirtimes = w.engine.redirtimes := by
    rw [dialed_fields]
    exact prepare_redirtimes hp
  rw [← htimes] at hlast
  obtain ⟨hends, hstays, hobtained⟩ := hI.arrives hleads.blank hadmits hps hclosed hlast
  rw [← hresponse] at hstays hobtained
  refine ⟨_, Prod.ext (hresult.trans hends) rfl, hstays.trans hurl,
    hleads.obtained _ _ hobtained, ?_⟩
  rw [send_trace hp, List.filter_append, events_asked hp hknown hdial]

end hop

/-! ## The trail -/

namespace Reader
variable {R : Type} [ResponseClass R]

/-- Every URL that a transfer comes to is served, with a document the reader takes. -/
def Served (I : Reader R) (env : Environment) (net : Network) (w : World R) (web : Web) : Prop :=
  ∀ k w', Followed env net k w w' →
    Serves env (net w'.trace) w' web ∧ I.Admits (web (base w'.response).url)

/-- What a transfer is to do: to ask for the documents of the trail, one after the
other and no others, and to get the last one. -/
structure Travels (I : Reader R) (web : Web) (env : Environment) (n : Nat) (w v : World R) :
    Prop where
  last : (web.trail n (base w.response).url).getLast? = some (base v.response).url
  obtained : I.Obtained (web (base v.response).url) w.response v.response
  asked : v.trace.filter Event.asks = w.trace.filter Event.asks ++
    w.asker.inquiries env w.engine.httpProxy (web.trail n (base w.response).url)

variable {I : Reader R} {env : Environment} {net : Network} {web : Web} {w v : World R} {n : Nat}

/-- The post of the callback asks for nothing. -/
theorem Travels.posted (h : I.Travels web env n w v) :
    I.Travels web env n w { v with trace := v.trace ++ [.callback] } where
  last := h.last
  obtained := h.obtained
  asked := by
    rw [List.filter_append]
    exact (List.append_nil _).trans h.asked

theorem Served.next (h : I.Served env net w web)
    (hsend : send env (net w.trace) w = (.ok true, v)) : I.Served env net v web :=
  fun k w' hfollowed => h (k + 1) w' (.more hsend hfollowed)

namespace Lawful
variable [LawfulResponse R] (hI : I.Lawful) (hblank : I.Blank w.response)
variable (hserved : I.Served env net w web)
include hI hblank hserved

/-- **The end of the trail.** -/
theorem stops
    (hlast : (web (base w.response).url).location = none ∨ 5 < w.engine.redirtimes)
    (htimes : (6 - w.engine.redirtimes).toNat = n) :
    ∃ v, send env (net w.trace) w = (.ok false, v) ∧ I.Travels web env n w v := by
  obtain ⟨hserves, hadmits⟩ := hserved 0 w (.none w)
  obtain ⟨v, hsend, hurl, hobtained, hasked⟩ := hserves.last hI hblank hadmits hlast
  have htrail : web.trail n (base w.response).url = [(base w.response).url] :=
    trail_last (hlast.imp_right (by omega))
  refine ⟨v, hsend, ?_, ?_, ?_⟩
  · rw [htrail, hurl]
    rfl
  · rw [hurl]
    exact hobtained
  · rw [htrail, hasked, Asker.inquiries, Asker.inquiries, List.append_nil]

/-- **One step along it**: what is left to do from the next URL is what was left
to do from this one. -/
theorem goes_on (hlimit : w.engine.redirtimes ≤ 5) {next : Bytes}
    (hnext : (web (base w.response).url).location = some next) :
    ∃ v, send env (net w.trace) w = (.ok true, v) ∧ I.Blank v.response ∧
      ∀ n v', I.Travels web env n v v' → I.Travels web env (n + 1) w v' := by
  obtain ⟨hserves, hadmits⟩ := hserved 0 w (.none w)
  obtain ⟨v, hsend, hurl, hmode, hleads, hasked⟩ := hserves.sent hI hblank hadmits hlimit hnext
  refine ⟨v, hsend, hleads.blank, fun n v' htravels => ?_⟩
  have htrail : web.trail (n + 1) (base w.response).url =
      (base w.response).url :: web.trail n (base v.response).url := by
    rw [hurl]
    exact trail_sent hnext n
  refine ⟨?_, hleads.obtained _ _ htravels.obtained, ?_⟩
  · rw [htrail, List.getLast?_cons, htravels.last, Option.getD_some]
  · rw [htravels.asked, hasked, htrail, Asker.inquiries, ← hmode, asker_followed hsend,
      List.append_assoc]

/-- The loop goes along the trail. -/
theorem sendLoop {calls : Nat} (htimes : (6 - w.engine.redirtimes).toNat = n)
    (hcalls : n < calls) :
    ∃ v, Anetd.sendLoop env net calls w = some (.ok (), v) ∧ I.Travels web env n w v := by
  induction calls generalizing w n with
  | zero => omega
  | succ calls ih =>
    by_cases hlast : (web (base w.response).url).location = none ∨ 5 < w.engine.redirtimes
    · obtain ⟨v, hsend, htravels⟩ := hI.stops hblank hserved hlast htimes
      exact ⟨v, by rw [Anetd.sendLoop, hsend], htravels⟩
    · obtain ⟨hsome, hlimit⟩ := not_or.mp hlast
      obtain ⟨next, hnext⟩ := Option.ne_none_iff_exists'.mp hsome
      obtain ⟨v, hsend, hblank', hrest⟩ :=
        hI.goes_on hblank hserved (Int.not_lt.mp hlimit) hnext
      have hcount := (send_counted hsend).2
      obtain ⟨n, rfl⟩ : ∃ m, n = m + 1 := ⟨n - 1, by omega⟩
      obtain ⟨v', hloop, htravels⟩ :=
        ih (w := v) (n := n) hblank' (hserved.next hsend) (by omega) (by omega)
      refine ⟨v', ?_, hrest n v' htravels⟩
      rw [Anetd.sendLoop, hsend]
      exact hloop

/-- **A transfer is a reader on the web.** On an engine that has followed so many
redirects already, it goes on as often as six allow. -/
theorem connect {k : Nat} (htimes : w.engine.redirtimes = k) :
    ∃ v, Anetd.connect env net 7 w = some (.ok (), v) ∧ I.Travels web env (6 - k) w v := by
  have hbudget : (6 - w.engine.redirtimes).toNat = 6 - k := by omega
  obtain ⟨v, hloop, htravels⟩ := hI.sendLoop hblank hserved hbudget (show 6 - k < 7 by omega)
  refine ⟨_, ?_, htravels.posted⟩
  rw [Anetd.connect, hloop]
  rfl

end Lawful

end Reader

/-! ## A response in memory -/

namespace Document

/-- What a response in memory has that started with `r` and came to the document. -/
structure Obtained (doc : Document) (r s : HttpResponse) : Prop where
  status : s.status = doc.head.status
  description : s.description = doc.head.description
  version : s.version = if doc.head.status < 300 then doc.head.version else r.version
  body : s.body = if doc.head.status < 300 then doc.body else r.body
  bodySize : s.bodySize = if doc.head.status < 300 then doc.body.length else r.bodySize
  progress : s.progress = if doc.head.status < 300 then doc.body.length else r.progress
  headers : ∀ name, name ≠ contentLength → s.headers.find? name = (r.headers.find? name).or
    (if doc.head.status < 300 then doc.head.headers.find? name else none)

variable {doc : Document} {r : HttpResponse}

theorem obtained_accepted (hs : doc.head.status < 300) (hbody : r.body = [])
    (hprogress : r.progress = 0) :
    doc.Obtained r ((doc.head.publish r doc.body.length).append doc.body) where
  status := rfl
  description := rfl
  version := (if_pos hs).symm
  body := by
    rw [if_pos hs]
    change r.body ++ doc.body = doc.body
    rw [hbody, List.nil_append]
  bodySize := (if_pos hs).symm
  progress := by
    rw [if_pos hs]
    change r.progress + doc.body.length = doc.body.length
    rw [hprogress, Nat.zero_add]
  headers := by
    intro name _
    rw [if_pos hs]
    exact find?_insertAll _ _ _

/-- A successful document is read to the end of its body. -/
theorem read_accepted (d : Disconnection) (e : Engine) (hs : doc.head.status < 300)
    (hbody : r.body = []) :
    (settle (handle (.systemError .eof)) (parse d (.start e r) doc.text)).result = .ok false ∧
      (settle (handle (.systemError .eof)) (parse d (.start e r) doc.text)).response =
        (doc.head.publish r doc.body.length).append doc.body := by
  have hlength (size : Nat) : ((doc.head.publish r size).append doc.body).body.length =
      doc.body.length := by
    change (r.body ++ doc.body).length = _
    rw [hbody, List.nil_append]
  cases hv : doc.head.headers.find? contentLength with
  | none =>
    rw [text, parse_unannounced d e r hs hv, ← body_unannounced hv, ← hlength 0]
    exact ⟨rfl, rfl⟩
  | some v =>
    obtain ⟨n, hn⟩ := doc.length_ok hs v hv
    have htake := body_announced hv hn
    have hpart : bodyPart r.body.length (sizeOfInt n) doc.rest = doc.body := by
      rw [htake, hbody]
      simp only [bodyPart, List.length_nil, Nat.sub_zero]
      split
      · rfl
      · rename_i hmore
        refine (List.take_of_length_le ?_).symm
        unfold completes reaches at hmore
        omega
    rw [text, parse_announced d e r hs hv hn, hpart]
    by_cases hdone : completes r.body.length (sizeOfInt n) doc.rest.length
    · have hsize : doc.body.length = sizeOfInt n := by
        rw [hbody] at hdone
        unfold completes reaches at hdone
        rw [htake, List.length_take]
        simp only [List.length_nil] at hdone
        omega
      rw [if_pos hdone, hsize]
      exact ⟨rfl, rfl⟩
    · rw [if_neg hdone, ← hlength (sizeOfInt n)]
      exact ⟨rfl, rfl⟩

end Document

/-- A response in memory takes every document. -/
def inMemory : Reader HttpResponse where
  Blank r := r.body = [] ∧ r.progress = 0
  Admits _ := True
  Obtained := Document.Obtained

theorem inMemory_leads {r s : HttpResponse} (hr : inMemory.Blank r)
    (hversion : s.version = r.version) (hbody : s.body = r.body) (hsize : s.bodySize = r.bodySize)
    (hprogress : s.progress = r.progress)
    (hheaders : ∀ name, name ≠ contentLength → s.headers.find? name = r.headers.find? name) :
    inMemory.Leads r s where
  blank := ⟨hbody.trans hr.1, hprogress.trans hr.2⟩
  obtained doc t h := {
    status := h.status
    description := h.description
    version := by rw [h.version, hversion]
    body := by rw [h.body, hbody]
    bodySize := by rw [h.bodySize, hsize]
    progress := by rw [h.progress, hprogress]
    headers := by
      intro name hname
      rw [h.headers name hname, hheaders name hname] }

theorem inMemory_lawful : inMemory.Lawful where
  host r host hr := inMemory_leads hr rfl rfl rfl rfl fun _ _ => rfl
  contentLength r n hr := inMemory_leads hr rfl rfl rfl rfl
    fun name hname => (find?_set _ _ _ _).trans (if_neg hname)
  flush r hr := ⟨r, rfl, rfl, .refl hr⟩
  sent r doc next hr _ _ := inMemory_leads hr rfl rfl rfl rfl fun _ _ => rfl
  refused := by
    rintro doc ⟨l, e, r⟩ - hs rfl
    refine ⟨rfl, rfl, rfl, (if_neg hs).symm, (if_neg hs).symm, (if_neg hs).symm,
      (if_neg hs).symm, ?_⟩
    intro name _
    rw [if_neg hs, Option.or_none]
    rfl
  accepted := by
    rintro doc d e r ps ⟨hbody, hprogress⟩ - hs hps
    obtain ⟨hresult, hresponse⟩ := Document.read_accepted d e hs hbody
    rw [turns_settle d _ _ (by simp [Frame.done, Frame.start]), hps]
    have hurl := congrArg HttpResponse.url hresponse
    have hobtained := Document.obtained_accepted hs hbody hprogress
    rw [← hresponse] at hobtained
    exact ⟨hresult, hurl, hobtained⟩

def okDocument : Document where
  head :=
    { version := str "HTTP/1.0"
      code := str "200"
      status := 200
      reason := str "OK\r"
      lines := [str "Server: b\r"]
      last := str "\r"
      version_ok := http10_ok
      code_ok := code200_word
      status_ok := code200_status
      reason_ok := reasonOk_line
      lines_ok := by decide
      last_ok := crLine_ok }
  rest := []
  length_ok := by
    intro _ v hv
    cases hv

def loopDocument : Document where
  head := loopHead
  rest := []
  length_ok := by
    intro hs
    exact absurd hs (by decide)

/-- What is on `http` sends the reader to what is on `https`. -/
def smallWeb : Web := fun url =>
  if (urlParts url).map UrlParts.transport = some .sslHttps then okDocument else loopDocument

def smallStart : World HttpResponse := ⟨.new, HttpResponse.new.setURL (str "http://b/"), []⟩

def smallParts : UrlParts := ⟨str "http", str "b", [], str "/", [], []⟩

theorem small_sent : Serves ⟨[], []⟩ (loopHop ⟨none, none⟩) smallStart smallWeb := by
  have hparts : urlParts (base smallStart.response).url = some smallParts := by decide
  have hp := prepare_known ⟨[], []⟩ smallStart.engine hparts (by decide)
  refine .intro hp (by decide) (answering_dial _ _ _) rfl ?_ ?_
  · intro url parts mode hparts _ hserver
    have hdocument : smallWeb url = loopDocument := by
      refine if_neg ?_
      rw [hparts, Option.map_some, server_transport hserver]
      decide
    rw [hdocument]
    exact .intro (Cut.whole loopDocument.text (by decide) (by decide)) .eof [] rfl (.inl rfl)
  · rintro ⟨-, -, se, hse, -⟩
    cases hse

theorem small_last {w : World HttpResponse} (hurl : w.response.url = loopUrl) :
    Serves ⟨[], []⟩ okHop w smallWeb := by
  obtain ⟨prepared, connected, sent, reads, closed⟩ := ok_answers hurl
  refine .intro prepared (show loopParts.Known by decide) connected sent ?_ closed
  intro url parts mode hparts _ hserver
  have hdocument : smallWeb url = okDocument := by
    refine if_pos ?_
    rw [hparts, Option.map_some, server_transport hserver]
    rfl
  rw [hdocument]
  exact .intro (Cut.whole okText (by decide) (by decide)) .eof [] rfl (.inl rfl)

/-- One redirect, and no more. -/
theorem small_served : inMemory.Served ⟨[], []⟩ onceNet smallStart smallWeb := by
  intro k w' hfollowed
  refine ⟨?_, trivial⟩
  cases hfollowed with
  | none => exact small_sent
  | more hsend rest =>
    have hnext : (smallWeb (base smallStart.response).url).location = some loopUrl := by decide
    obtain ⟨v, hsent, hurl, -, -, hasked⟩ := small_sent.sent inMemory_lawful ⟨rfl, rfl⟩ trivial
      (by decide) hnext
    obtain ⟨-, rfl⟩ := Prod.mk.inj (hsent.symm.trans hsend)
    have htrace : v.trace ≠ [] := by
      intro hempty
      rw [hempty] at hasked
      exact absurd hasked (by decide +kernel)
    have hnet : onceNet v.trace = okHop := if_neg htrace
    cases rest with
    | none =>
      rw [hnet]
      exact small_last hurl
    | more hagain rest =>
      rw [hnet] at hagain
      have hreturns := ok_returns hurl
      rw [hagain] at hreturns
      cases hreturns

end Anetd
