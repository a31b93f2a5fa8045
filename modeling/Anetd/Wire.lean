import Anetd.ProxyReply
import Anetd.Send

/-!
# What a call of `send` puts on the wire

The events of one call are those of its prepared form (`send_trace`). Two calls
that prepare the same endpoint, command and request cannot be told apart
(`SameWire.events`); on a hop that lets everything pass they are told apart by
their requests (`request_of_events`). The last part compares the lengths of
requests: proxy mode, credentials and further headers all add to them.
-/

namespace Anetd

open Lib.OrdMap

/-- An event as the other side sees it. -/
def Event.wire : Event → Event
  | .connect type _ => .connect type false
  | event => event

/-- The events of a connection attempt. -/
def Event.dials : Event → Bool
  | .connect _ _ | .command _ | .handshake => true
  | _ => false

theorem run_dials (a : Attempt) (type : HttpType) (command : Option Bytes) (isOpen : Bool) :
    ∀ event ∈ (a.run type command isOpen).1, event.dials = true := by
  have andThen {s t : Steps} (hs : ∀ event ∈ s.1, event.dials = true)
      (ht : ∀ event ∈ t.1, event.dials = true) :
      ∀ event ∈ (s.andThen t).1, event.dials = true := by
    unfold Steps.andThen
    split
    · exact List.forall_mem_append.mpr ⟨hs, ht⟩
    · exact hs
  have none : ∀ event ∈ ([] : List Event), event.dials = true := fun _ h => by cases h
  refine andThen (List.forall_mem_singleton.mpr rfl) ?_
  cases type with
  | plainHttp => exact none
  | sslHttps =>
    refine andThen ?_ (List.forall_mem_singleton.mpr rfl)
    cases command with
    | none => exact none
    | some text => exact andThen (List.forall_mem_singleton.mpr rfl) none

theorem tryEndpoints_dials (type : HttpType) (command : Option Bytes) (isOpen : Bool)
    (attempts : List Attempt) :
    ∀ event ∈ (tryEndpoints type command isOpen attempts).1, event.dials = true := by
  induction attempts generalizing isOpen with
  | nil => exact fun _ h => by cases h
  | cons a rest ih =>
    have hrun := run_dials a type command isOpen
    rw [tryEndpoints]
    split
    · rename_i events heq
      rwa [heq] at hrun
    · rename_i events ec heq
      rw [heq] at hrun
      exact List.forall_mem_append.mpr ⟨hrun, ih true⟩
    · rename_i events stop hstop heq
      rwa [heq] at hrun

/-- **One query**, then attempts. -/
theorem dial_events {R : Type} (hop : Hop) (p : Prepared R) :
    ∃ events, (dial hop p).1 = .query p.target.host p.target.port :: events ∧
      ∀ event ∈ events, event.dials = true := by
  rw [dial]
  cases hop.resolve with
  | error ec => exact ⟨[], rfl, fun _ h => by cases h⟩
  | ok attempts =>
    refine ⟨(tryEndpoints p.engine.httpType p.engine.command p.engine.isOpen attempts).1, ?_,
      tryEndpoints_dials _ _ _ _⟩
    rcases htry : tryEndpoints p.engine.httpType p.engine.command p.engine.isOpen attempts with
      ⟨events, stop | connected⟩
    · simp only [htry, Steps.andThen, List.singleton_append]
    · cases connected <;> simp only [htry, Steps.andThen, List.singleton_append]

section events
variable {R : Type} [ResponseClass R]

/-- The events of a prepared call. -/
def Prepared.events (p : Prepared R) (hop : Hop) : List Event :=
  (dial hop p).1 ++
    match (dial hop p).2 with
    | .ok () => [.request p.engine.httpType p.request]
    | .error _ => []

theorem send_trace {env : Environment} {w : World R} {p : Prepared R}
    (hp : prepare env w.engine w.response = some p) (hop : Hop) :
    (send env hop w).2.trace = w.trace ++ p.events hop := by
  cases hdial : (dial hop p).2 with
  | error stop => simp only [send_stopped hp hdial, Prepared.events, hdial, List.append_nil]
  | ok =>
    rw [send_dialed hp hdial, transmit_dialed]
    simp only [Prepared.events, hdial]
    cases hop.send with
    | some ec => exact List.append_assoc _ _ _
    | none => exact List.append_assoc _ _ _

/-- What one call of `send` puts on the wire. -/
def World.wires (w : World R) (env : Environment) (hop : Hop) : List Event :=
  ((send env hop w).2.trace.drop w.trace.length).map Event.wire

theorem wires_prepared {env : Environment} {w : World R} {p : Prepared R}
    (hp : prepare env w.engine w.response = some p) (hop : Hop) :
    w.wires env hop = (p.events hop).map Event.wire := by
  rw [World.wires, send_trace hp, List.drop_left]

theorem wires_unprepared {env : Environment} {w : World R}
    (hp : prepare env w.engine w.response = none) (hop : Hop) : w.wires env hop = [] := by
  simp only [World.wires, send, hp, List.drop_length, List.map_nil]

/-! ## Calls that cannot be told apart -/

/-- Steps that differ in what the other side does not see. -/
def SameSteps {α : Type} (s t : List Event × Except Stop α) : Prop :=
  s.1.map Event.wire = t.1.map Event.wire ∧ s.2 = t.2

theorem SameSteps.andThen {s t s' t' : Steps} (hs : SameSteps s s') (ht : SameSteps t t') :
    SameSteps (s.andThen t) (s'.andThen t') := by
  obtain ⟨hsteps, hresult⟩ := hs
  unfold Steps.andThen
  rw [hresult]
  split
  · exact ⟨by simp only [List.map_append, hsteps, ht.1], ht.2⟩
  · exact ⟨hsteps, rfl⟩

theorem run_wire (a : Attempt) (type : HttpType) (command : Option Bytes) (o o' : Bool) :
    SameSteps (a.run type command o) (a.run type command o') :=
  SameSteps.andThen ⟨rfl, rfl⟩ ⟨rfl, rfl⟩

theorem tryEndpoints_wire (type : HttpType) (command : Option Bytes) (attempts : List Attempt)
    (o o' : Bool) :
    SameSteps (tryEndpoints type command o attempts) (tryEndpoints type command o' attempts) := by
  cases attempts with
  | nil => exact ⟨rfl, rfl⟩
  | cons a rest =>
    obtain ⟨hevents, hresult⟩ := run_wire a type command o o'
    rw [tryEndpoints, tryEndpoints]
    rcases hrun : a.run type command o with ⟨events, result⟩
    rcases hrun' : a.run type command o' with ⟨events', result'⟩
    rw [hrun, hrun'] at hevents hresult
    obtain rfl : result = result' := hresult
    have hsame : events.map Event.wire = events'.map Event.wire := hevents
    cases result with
    | ok u => exact ⟨hsame, rfl⟩
    | error stop =>
      cases stop with
      | threw x =>
        cases x with
        | systemError ec =>
          -- the next endpoint is tried on an open socket in both runs
          refine ⟨?_, rfl⟩
          simp only [List.map_append, hsame]
        | _ => exact ⟨hsame, rfl⟩
      | _ => exact ⟨hsame, rfl⟩

/-- Prepared calls that connect to the same endpoint over the same transport,
and write the same command and request. -/
structure SameWire (p q : Prepared R) : Prop where
  target : p.target = q.target
  type : p.engine.httpType = q.engine.httpType
  command : p.engine.command = q.engine.command
  request : p.request = q.request

theorem SameWire.dial {p q : Prepared R} (h : SameWire p q) (hop : Hop) :
    SameSteps (dial hop p) (dial hop q) := by
  unfold Anetd.dial
  rw [h.target, h.type, h.command]
  refine SameSteps.andThen ⟨rfl, rfl⟩ ?_
  cases hop.resolve with
  | error ec => exact ⟨rfl, rfl⟩
  | ok attempts =>
    obtain ⟨hevents, hresult⟩ := tryEndpoints_wire q.engine.httpType q.engine.command attempts
      p.engine.isOpen q.engine.isOpen
    simp only
    rcases htry : tryEndpoints q.engine.httpType q.engine.command p.engine.isOpen attempts with
      ⟨events, result⟩
    rcases htry' : tryEndpoints q.engine.httpType q.engine.command q.engine.isOpen attempts with
      ⟨events', result'⟩
    rw [htry, htry'] at hevents hresult
    obtain rfl : result = result' := hresult
    cases result with
    | error stop => exact ⟨hevents, rfl⟩
    | ok connected => cases connected <;> exact ⟨hevents, rfl⟩

theorem SameWire.events {p q : Prepared R} (h : SameWire p q) (hop : Hop) :
    (p.events hop).map Event.wire = (q.events hop).map Event.wire := by
  obtain ⟨hevents, hresult⟩ := h.dial hop
  rw [Prepared.events, Prepared.events, List.map_append, List.map_append, hevents, hresult, h.type,
    h.request]

/-! ## Calls that can be told apart -/

/-- On a hop that lets everything pass, the last event is the request. -/
theorem events_answering (p : Prepared R) (reply : Chunk 2048) (d : Disconnection) :
    ∃ events, p.events (answering reply d) =
      events ++ [.request p.engine.httpType p.request] := by
  refine ⟨(dial (answering reply d) p).1, ?_⟩
  rw [Prepared.events, answering_dial]

theorem request_of_events {p q : Prepared R}
    (h : ∀ hop, (p.events hop).map Event.wire = (q.events hop).map Event.wire) :
    p.request = q.request := by
  let reply : Chunk 2048 := ⟨established, by decide, by decide⟩
  obtain ⟨before, hp⟩ := events_answering p reply ⟨none, none⟩
  obtain ⟨before', hq⟩ := events_answering q reply ⟨none, none⟩
  have hlast := congrArg List.getLast? (h (answering reply ⟨none, none⟩))
  rw [hp, hq, List.map_append, List.map_append, List.map_singleton, List.map_singleton,
    List.getLast?_concat, List.getLast?_concat] at hlast
  injection hlast with hrequest
  injection hrequest

end events

/-! ## What shows in a request -/

/-- The engine without its sockets and its count of redirects. -/
def Engine.still (e : Engine) : Engine :=
  { e with redirtimes := 0, socketOpen := false, sslsocketOpen := false }

/-- The part of an engine that shows in a request. -/
def Engine.asked (e : Engine) : Engine := { e.still with targeturl := [] }

theorem requestText_congr {e e' : Engine} {r r' : HttpResponse} (parts : UrlParts)
    (he : e.asked = e'.asked) (hheaders : r.sendheaders = r'.sendheaders)
    (hauth : r.httpauth = r'.httpauth) : requestText e parts r = requestText e' parts r' := by
  have hasked (e : Engine) (r : HttpResponse) :
      requestText e parts r = requestText e.asked parts r := rfl
  rw [hasked e, hasked e', he]
  simp only [requestText, hheaders, hauth]

theorem command_congr {e e' : Engine} (he : e.still = e'.still) : e.command = e'.command := by
  have hstill (e : Engine) : e.command = e.still.command := rfl
  rw [hstill e, hstill e', he]

theorem request_lawful {R : Type} [ResponseClass R] [LawfulResponse R] (p : Prepared R) :
    p.request = requestText p.engine p.parts (base p.response) := by
  rw [Prepared.request, LawfulResponse.base_update]
  rfl

/-! ## The lengths of requests -/

/-- The engine in or out of proxy mode. -/
def Engine.mode (e : Engine) (proxy : HttpProxy) : Engine := { e with httpProxy := proxy }

/-- **Proxy mode** adds the host to the request line, and the credentials. -/
theorem requestText_proxied (e : Engine) (parts : UrlParts) (r : HttpResponse) :
    (requestText (e.mode .httpProxy) parts r).length =
      (requestText (e.mode .none) parts r).length + e.host.length +
        (basicLine (str "Proxy-Authorization") e.proxyauth).length := by
  have harguments : argumentText (e.mode .httpProxy) parts = argumentText (e.mode .none) parts :=
    rfl
  simp only [requestText, requestTarget, harguments]
  simp only [Engine.mode, if_true, reduceCtorEq, if_false, List.length_append, List.length_nil]
  omega

theorem mode_self {e : Engine} {proxy : HttpProxy} (h : e.httpProxy = proxy) :
    e.mode proxy = e := by
  rw [← h]
  rfl

theorem requestText_mode_le {e : Engine} (h : e.httpProxy = .none ∨ e.httpProxy = .httpProxy)
    (parts : UrlParts) (r : HttpResponse) :
    (requestText (e.mode .none) parts r).length ≤ (requestText e parts r).length := by
  rcases h with hnone | hproxied
  · exact Nat.le_of_eq (by rw [mode_self hnone])
  · have hlength := requestText_proxied e parts r
    rw [mode_self hproxied] at hlength
    omega

/-- So a request in proxy mode is longer than the same one out of it. -/
theorem requestText_longer {e e' : Engine} {r r' : HttpResponse} (parts : UrlParts)
    (hmode : e.httpProxy = .httpProxy) (hmode' : e'.httpProxy = .none) (hhost : e.host ≠ [])
    (hsame : (e.mode .none).asked = (e'.mode .none).asked)
    (hheaders : r.sendheaders = r'.sendheaders) (hauth : r.httpauth = r'.httpauth) :
    (requestText e' parts r').length < (requestText e parts r).length := by
  have hlength := requestText_proxied e parts r
  rw [mode_self hmode, requestText_congr parts hsame hheaders hauth, mode_self hmode'] at hlength
  have hpos : 0 < e.host.length := List.length_pos_iff.mpr hhost
  omega

/-- A header that is not there yet makes the request longer. -/
theorem headerText_set {headers : StringMap} {name : Bytes} (value : Bytes)
    (h : headers.find? name = none) :
    (headerText headers).length < (headerText (headers.set name value)).length := by
  have hline : 0 < (name ++ str ": " ++ value ++ crlf).length := by
    simp only [List.length_append]
    have : 0 < crlf.length := by decide
    omega
  have hperm := (perm_place (fun _ w => w) value h).flatMap_right
    fun (h : Bytes × Bytes) => h.1 ++ str ": " ++ h.2 ++ crlf
  have hlength : (headerText (headers.set name value)).length =
      (name ++ str ": " ++ value ++ crlf).length + (headerText headers).length := by
    refine hperm.length_eq.trans ?_
    rw [List.flatMap_cons, List.length_append]
    rfl
  omega

/-- Longer headers make a longer request. -/
theorem requestText_headers (e : Engine) (parts : UrlParts) {r r' : HttpResponse}
    (hauth : r.httpauth = r'.httpauth)
    (h : (headerText r.sendheaders).length < (headerText r'.sendheaders).length) :
    (requestText e parts r).length < (requestText e parts r').length := by
  simp only [requestText, List.length_append, hauth]
  omega

theorem basicLine_length {name : Bytes} {auth : Bytes × Bytes} (h : auth.1 ≠ []) :
    0 < (basicLine name auth).length := by
  have hpos : auth.1.length > 0 := List.length_pos_iff.mpr h
  simp only [basicLine, hpos, if_true, List.length_append]
  have : 0 < crlf.length := by decide
  omega

end Anetd
