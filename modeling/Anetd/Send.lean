import Anetd.ProxyReply
import Anetd.Request

/-!
# The transfer

`send` as the source orders it: prepare, resolve, try the endpoints, write the
request, receive. `sendLoop` is the loop in `http_engine::connect`. What the
network answers to one call of `send` is a `Hop`; which one it is may depend on
everything that has happened before, the `Event`s so far.
-/

namespace Anetd

/-- What a transfer does, in order. A `connect` says whether its socket was
open already, a `request` what `socksend` is given. -/
inductive Event where
  | query (host port : Bytes)
  | connect (type : HttpType) (alreadyOpen : Bool)
  | command (text : Bytes)
  | handshake
  | request (type : HttpType) (text : Bytes)
  | callback
  deriving DecidableEq

/-- How one endpoint answers: the connect, the write of the `CONNECT` command,
the proxy's reply into a fresh buffer, and the TLS handshake. -/
structure Attempt where
  connect : Option ErrorCode
  command : Option ErrorCode
  memory : Buffer
  reply : List (Read 1024)
  handshake : Option ErrorCode

/-- The answers to one call of `send`; what is read depends on the request. All
that is asked of the network gets an answer, but for a read, and no stream of
reads is without an end. -/
structure Hop where
  resolve : Except ErrorCode (List Attempt)
  send : Option ErrorCode
  reads : Bytes → List (Read 2048)
  buffer : Buffer
  disconnection : Disconnection

abbrev Network := List Event → Hop

/-! ## One endpoint after the other -/

/-- Some steps of a connection attempt, and whether the last one threw. -/
abbrev Steps := List Event × Except Stop Unit

def Steps.andThen (s t : Steps) : Steps :=
  match s.2 with
  | .ok () => (s.1 ++ t.1, t.2)
  | .error stop => (s.1, .error stop)

/-- A call that throws the `system_error` of a failure. -/
def attempted : Option ErrorCode → Except Stop Unit
  | none => .ok ()
  | some ec => .error (.threw (.systemError ec))

/-- The `try` block for one endpoint; `command` is sent first to a proxy. -/
def Attempt.run (a : Attempt) (type : HttpType) (command : Option Bytes) (isOpen : Bool) : Steps :=
  Steps.andThen ([.connect type isOpen], attempted a.connect) <|
    match type with
    | .plainHttp => ([], .ok ())
    | .sslHttps =>
      Steps.andThen
        (match command with
          | none => ([], .ok ())
          | some text =>
            Steps.andThen ([.command text], attempted a.command)
              ([], (awaitProxy a.memory a.reply).1))
        ([.handshake], attempted a.handshake)

/-- The loop over the endpoints: a `system_error` is logged and the next one
tried, on a socket that is open since the first attempt. -/
def tryEndpoints (type : HttpType) (command : Option Bytes) :
    Bool → List Attempt → List Event × Except Stop Bool
  | _, [] => ([], .ok false)
  | isOpen, a :: rest =>
    match a.run type command isOpen with
    | (events, .ok ()) => (events, .ok true)
    | (events, .error (.threw (.systemError _))) =>
      (events ++ (tryEndpoints type command true rest).1, (tryEndpoints type command true rest).2)
    | (events, .error stop) => (events, .error stop)

namespace Engine

/-- What a proxy is sent before the handshake. -/
def command (e : Engine) : Option Bytes :=
  if e.httpProxy = .httpProxy then some (proxyCommand e) else none

end Engine

/-! ## `send` and `connect` -/

section transfer
variable {R : Type} [ResponseClass R]

/-- The engine, the response it works for, and what has happened. -/
structure World (R : Type) where
  engine : Engine
  response : R
  trace : List Event

/-- From the resolver query to the connected socket. -/
def dial (hop : Hop) (p : Prepared R) : Steps :=
  Steps.andThen ([.query p.target.host p.target.port], .ok ()) <|
    match hop.resolve with
    | .error _ => ([], .error (.threw .connectionException))
    | .ok attempts =>
      match tryEndpoints p.engine.httpType p.engine.command p.engine.isOpen attempts with
      | (events, .ok true) => (events, .ok ())
      | (events, .ok false) => (events, .error (.threw .connectionException))
      | (events, .error stop) => (events, .error stop)

/-- The engine after the attempts, if there was an endpoint at all. -/
def dialed (hop : Hop) (e : Engine) : Engine :=
  match hop.resolve with
  | .ok (_ :: _) => e.opened
  | _ => e

/-- `send` from the connected socket on. The request is given to one call of
`socksend`; how much of it that has written, `send` does not look at. -/
def transmit (hop : Hop) (parts : UrlParts) (w : World R) : Except Stop Bool × World R :=
  let r := update (fun b => b.setContentLength w.engine.body.length) w.response
  let request := requestText w.engine parts (base r)
  let w := { w with
    response := r
    trace := w.trace ++ [.request w.engine.httpType request] }
  match hop.send with
  | some ec => (.error (.threw (.systemError ec)), w)
  | none =>
    let x := (receive hop.disconnection (hop.reads request) hop.buffer w.engine w.response).1
    (x.result, { w with engine := x.engine, response := x.response })

/-- `http_engine::send`. -/
def send (env : Environment) (hop : Hop) (w : World R) : Except Stop Bool × World R :=
  match prepare env w.engine w.response with
  | none => (.error .undefined, w)
  | some p =>
    let w := ⟨dialed hop p.engine, p.response, w.trace ++ (dial hop p).1⟩
    match (dial hop p).2 with
    | .error stop => (.error stop, w)
    | .ok () => transmit hop p.parts w

/-- `while (this->send() == true) { }`, for at most so many calls. -/
def sendLoop (env : Environment) (net : Network) :
    Nat → World R → Option (Except Stop Unit × World R)
  | 0, _ => none
  | calls + 1, w =>
    match send env (net w.trace) w with
    | (.error stop, w) => some (.error stop, w)
    | (.ok true, w) => sendLoop env net calls w
    | (.ok false, w) => some (.ok (), w)

/-- `http_engine::connect`: an exception of the loop leaves it before the
callback is posted. -/
def connect (env : Environment) (net : Network) (calls : Nat) (w : World R) :
    Option (Except Stop Unit × World R) :=
  (sendLoop env net calls w).map fun (result, w) =>
    match result with
    | .ok () => (.ok (), { w with trace := w.trace ++ [.callback] })
    | .error stop => (.error stop, w)

/-! ## What a call does -/

/-- The attempts change nothing but the sockets. -/
theorem dialed_fields (hop : Hop) (e : Engine) :
    dialed hop e = { e with
      socketOpen := (dialed hop e).socketOpen
      sslsocketOpen := (dialed hop e).sslsocketOpen } := by
  unfold dialed
  split
  · unfold Engine.opened
    split <;> rfl
  · rfl

variable {env : Environment} {hop : Hop} {w : World R} {p : Prepared R}

/-- The request a prepared call writes. -/
def Prepared.request (p : Prepared R) : Bytes :=
  requestText p.engine p.parts
    (base (update (fun b => b.setContentLength p.engine.body.length) p.response))

theorem send_stopped (hp : prepare env w.engine w.response = some p) {stop : Stop}
    (hdial : (dial hop p).2 = .error stop) :
    send env hop w =
      (.error stop, ⟨dialed hop p.engine, p.response, w.trace ++ (dial hop p).1⟩) := by
  simp only [send, hp, hdial]

theorem send_dialed (hp : prepare env w.engine w.response = some p)
    (hdial : (dial hop p).2 = .ok ()) :
    send env hop w = transmit hop p.parts
      ⟨dialed hop p.engine, p.response, w.trace ++ (dial hop p).1⟩ := by
  simp only [send, hp, hdial]

/-- The attempts do not show in the request. -/
theorem transmit_dialed (hop : Hop) (p : Prepared R) (trace : List Event) :
    transmit hop p.parts ⟨dialed hop p.engine, p.response, trace⟩ =
      let r := update (fun b => b.setContentLength p.engine.body.length) p.response
      let trace := trace ++ [.request p.engine.httpType p.request]
      match hop.send with
      | some ec => (.error (.threw (.systemError ec)), ⟨dialed hop p.engine, r, trace⟩)
      | none =>
        let x := (receive hop.disconnection (hop.reads p.request) hop.buffer
          (dialed hop p.engine) r).1
        (x.result, ⟨x.engine, x.response, trace⟩) := by
  have hbody : (dialed hop p.engine).body = p.engine.body := by rw [dialed_fields]
  have htype : (dialed hop p.engine).httpType = p.engine.httpType := by rw [dialed_fields]
  have hrequest (r : HttpResponse) :
      requestText (dialed hop p.engine) p.parts r = requestText p.engine p.parts r := by
    rw [dialed_fields]
    rfl
  simp only [transmit, hbody, htype, hrequest, Prepared.request]

/-- A connected call that can write its request is a call of `receive`. -/
theorem send_received (hp : prepare env w.engine w.response = some p)
    (hdial : (dial hop p).2 = .ok ()) (hsent : hop.send = none) :
    send env hop w =
      let x := (receive hop.disconnection (hop.reads p.request) hop.buffer (dialed hop p.engine)
        (update (fun b => b.setContentLength p.engine.body.length) p.response)).1
      (x.result, ⟨x.engine, x.response,
        w.trace ++ (dial hop p).1 ++ [.request p.engine.httpType p.request]⟩) := by
  rw [send_dialed hp hdial, transmit_dialed]
  simp only [hsent]

/-- One that cannot stops there. -/
theorem send_unsent (hp : prepare env w.engine w.response = some p)
    (hdial : (dial hop p).2 = .ok ()) {ec : ErrorCode} (hsent : hop.send = some ec) :
    send env hop w = (.error (.threw (.systemError ec)),
      ⟨dialed hop p.engine, update (fun b => b.setContentLength p.engine.body.length) p.response,
        w.trace ++ (dial hop p).1 ++ [.request p.engine.httpType p.request]⟩) := by
  rw [send_dialed hp hdial, transmit_dialed]
  simp only [hsent]

variable (env hop w) in
/-- **What a call does**: it is not prepared, or not connected, or cannot write
its request, or reads the response. -/
theorem send_cases :
    (prepare env w.engine w.response = none ∧ send env hop w = (.error .undefined, w)) ∨
    ∃ p, prepare env w.engine w.response = some p ∧
      ((∃ stop, (dial hop p).2 = .error stop ∧ send env hop w =
          (.error stop, ⟨dialed hop p.engine, p.response, w.trace ++ (dial hop p).1⟩)) ∨
        (dial hop p).2 = .ok () ∧
          ((∃ ec, hop.send = some ec ∧ send env hop w = (.error (.threw (.systemError ec)),
              ⟨dialed hop p.engine,
                update (fun b => b.setContentLength p.engine.body.length) p.response,
                w.trace ++ (dial hop p).1 ++ [.request p.engine.httpType p.request]⟩)) ∨
            hop.send = none ∧ send env hop w =
              let x := (receive hop.disconnection (hop.reads p.request) hop.buffer
                (dialed hop p.engine)
                (update (fun b => b.setContentLength p.engine.body.length) p.response)).1
              (x.result, ⟨x.engine, x.response,
                w.trace ++ (dial hop p).1 ++ [.request p.engine.httpType p.request]⟩))) := by
  cases hp : prepare env w.engine w.response with
  | none =>
    left
    simp only [send, hp, and_self]
  | some p =>
    refine .inr ⟨p, rfl, ?_⟩
    cases hdial : (dial hop p).2 with
    | error stop => exact .inl ⟨stop, rfl, send_stopped hp hdial⟩
    | ok =>
      cases hsent : hop.send with
      | some ec => exact .inr ⟨rfl, .inl ⟨ec, rfl, send_unsent hp hdial hsent⟩⟩
      | none => exact .inr ⟨rfl, .inr ⟨rfl, send_received hp hdial hsent⟩⟩

/-- **A call that returns** has been prepared and connected, and has written its request. -/
theorem send_returned {again : Bool} (h : (send env hop w).1 = .ok again) :
    ∃ p, prepare env w.engine w.response = some p ∧ (dial hop p).2 = .ok () ∧ hop.send = none := by
  rcases send_cases env hop w with ⟨-, hsend⟩ |
    ⟨p, hp, ⟨stop, -, hsend⟩ | ⟨hdial, ⟨ec, -, hsend⟩ | ⟨hsent, -⟩⟩⟩
  · rw [hsend] at h
    cases h
  · rw [hsend] at h
    cases h
  · rw [hsend] at h
    cases h
  · exact ⟨p, hp, hdial, hsent⟩

/-- **A followed redirect** leaves the prepared engine as it was, but for its
sockets, the stored URL and the count of redirects. -/
theorem send_followed {w' : World R} (h : send env hop w = (.ok true, w')) :
    ∃ p, prepare env w.engine w.response = some p ∧ (dial hop p).2 = .ok () ∧ hop.send = none ∧
      p.engine.redirtimes ≤ 5 ∧ ∃ url,
        w'.engine = (((dialed hop p.engine).redirected url).disconnect hop.disconnection).1 := by
  obtain ⟨p, hp, hdial, hsent⟩ := send_returned (congrArg Prod.fst h)
  rw [send_received hp hdial hsent] at h
  obtain ⟨hresult, rfl⟩ := Prod.mk.inj h
  have htimes : (dialed hop p.engine).redirtimes = p.engine.redirtimes := by rw [dialed_fields]
  refine ⟨p, hp, hdial, hsent, ?_⟩
  rw [← htimes]
  have hleaves := receiveLoop_leaves hop.disconnection (hop.reads p.request) hop.buffer
    (.start (dialed hop p.engine)
      (update (fun b => b.setContentLength p.engine.body.length) p.response))
  rcases hleaves with hleaves | hnot
  · exact hleaves.followed hresult
  · exact absurd hresult hnot

/-- **It is counted**, and only five more come after the first. -/
theorem send_counted {w' : World R} (h : send env hop w = (.ok true, w')) :
    w.engine.redirtimes ≤ 5 ∧ w'.engine.redirtimes = w.engine.redirtimes + 1 := by
  obtain ⟨p, hp, -, -, hbound, url, hengine⟩ := send_followed h
  rw [← prepare_redirtimes hp, hengine, Engine.disconnect_fields, dialed_fields]
  exact ⟨hbound, rfl⟩

/-- **The rule of the loop.** What every call of `send` keeps, the loop keeps. -/
theorem sendLoop_rule {net : Network} {I : World R → Prop}
    (hsend : ∀ w, I w → I (send env (net w.trace) w).2) {calls : Nat} {v : World R}
    {result : Except Stop Unit} (hw : I w) (h : sendLoop env net calls w = some (result, v)) :
    I v := by
  induction calls generalizing w with
  | zero => cases h
  | succ calls ih =>
    have hkept := hsend w hw
    rw [sendLoop] at h
    split at h
    · rename_i stop v' heq
      rw [heq] at hkept
      cases h
      exact hkept
    · rename_i v' heq
      rw [heq] at hkept
      exact ih hkept h
    · rename_i v' heq
      rw [heq] at hkept
      cases h
      exact hkept

/-- So does `connect`, if it does not look at the callback. -/
theorem connect_rule {net : Network} {I : World R → Prop}
    (hsend : ∀ w, I w → I (send env (net w.trace) w).2)
    (hcallback : ∀ w trace, I w → I { w with trace := trace }) {calls : Nat} {v : World R}
    {result : Except Stop Unit} (hw : I w) (h : connect env net calls w = some (result, v)) :
    I v := by
  obtain ⟨⟨result', v'⟩, hloop, heq⟩ := Option.map_eq_some_iff.mp h
  have hkept := sendLoop_rule hsend hw hloop
  cases result' with
  | ok =>
    cases heq
    exact hcallback v' _ hkept
  | error stop =>
    cases heq
    exact hkept

end transfer

/-! ## A network that lets everything pass -/

def established : Bytes := str "HTTP/1.0 200 OK\r\n\r\n"

/-- An endpoint that accepts everything, also as a proxy. -/
def Attempt.willing : Attempt where
  connect := none
  command := none
  memory := fun _ => 0
  reply := [.data ⟨established, by decide, by decide⟩]
  handshake := none

/-- One such endpoint, which answers with one read and closes. -/
def answering (reply : Chunk 2048) (d : Disconnection) : Hop where
  resolve := .ok [.willing]
  send := none
  reads := fun _ => [.data reply, .error .eof]
  buffer := fun _ => 0
  disconnection := d

theorem Attempt.willing_run (type : HttpType) (command : Option Bytes) (isOpen : Bool) :
    (Attempt.willing.run type command isOpen).2 = .ok () := by
  have hreply : (awaitProxy Attempt.willing.memory Attempt.willing.reply).1 = .ok () := by
    have hbuffer := cString_cleared (c := ⟨established, by decide, by decide⟩) (by decide)
      (by decide)
    have hread : readProxyResponse (some established) = .ok () := by rfl
    simp only [Attempt.willing, awaitProxy, hbuffer, hread]
  cases type with
  | plainHttp => rfl
  | sslHttps =>
    cases command with
    | none => rfl
    | some text =>
      simp only [Attempt.run, hreply]
      rfl

/-- It is connected to by whatever is prepared. -/
theorem answering_dial {R : Type} (reply : Chunk 2048) (d : Disconnection) (p : Prepared R) :
    (dial (answering reply d) p).2 = .ok () := by
  have hrun := Attempt.willing_run p.engine.httpType p.engine.command p.engine.isOpen
  simp only [dial, answering, tryEndpoints]
  rcases hattempt : Attempt.willing.run p.engine.httpType p.engine.command p.engine.isOpen with
    ⟨events, result⟩
  rw [hattempt] at hrun
  obtain rfl : result = .ok () := hrun
  rfl

end Anetd
