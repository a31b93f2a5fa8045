import Anetd.DirectTransfer
import Anetd.Hops

/-!
# An engine that has been reset

`reset` leaves `targeturl`, the body, the credentials and a socket that is not
the current one as they are. `Twins` are engines that differ in `targeturl` and
the sockets only; they stay so through a call of `send`, which shows neither
(`send_beside`). No transfer gives an engine a body, so the first of two twins
may be any engine that was reset and the second a new one (`reset_like_new`). A
socket that `reset` leaves connected is to be seen (`reset_unlike_new`).
-/

namespace Anetd

open Lib.Machine

/-! ## Engines that differ in what is not shown -/

/-- Engines that differ in `targeturl`, unless it is a proxy's, and in their
sockets, unless these are to be seen. -/
inductive Twins (full : Bool) (e : Engine) : Engine → Prop where
  | mk (targeturl : Bytes) (socket sslsocket : Bool)
      (htarget : targeturl = e.targeturl ∨ e.httpProxy = .none)
      (hsockets : full = true → socket = e.socketOpen ∧ sslsocket = e.sslsocketOpen) :
      Twins full e
        { e with targeturl := targeturl, socketOpen := socket, sslsocketOpen := sslsocket }

section twins
variable {full : Bool} {e e' : Engine}

theorem Twins.isOpen (h : Twins full e e') (hfull : full = true) : e.isOpen = e'.isOpen := by
  cases h with
  | mk targeturl socket sslsocket htarget hsockets =>
    obtain ⟨rfl, rfl⟩ := hsockets hfull
    rfl

theorem Twins.command (h : Twins full e e') : e.command = e'.command := by
  cases h with
  | mk targeturl socket sslsocket htarget hsockets =>
    rcases htarget with rfl | hnone
    · rfl
    · simp [Engine.command, hnone]

theorem Twins.opened (h : Twins full e e') : Twins full e.opened e'.opened := by
  cases h with
  | mk targeturl socket sslsocket htarget hsockets =>
    cases htype : e.httpType with
    | plainHttp =>
      simp only [Engine.opened, htype]
      exact .mk targeturl true sslsocket htarget fun hfull => ⟨rfl, (hsockets hfull).2⟩
    | sslHttps =>
      simp only [Engine.opened, htype]
      exact .mk targeturl socket true htarget fun hfull => ⟨(hsockets hfull).1, rfl⟩

theorem Twins.dialed (h : Twins full e e') (hop : Hop) :
    Twins full (dialed hop e) (dialed hop e') := by
  unfold Anetd.dialed
  split
  · exact h.opened
  · exact h

theorem Twins.overwrite (h : Twins full e e') (env : Environment) (parts : UrlParts) :
    Twins full (e.overwrite env parts) (e'.overwrite env parts) := by
  cases h with
  | mk targeturl socket sslsocket htarget hsockets => exact .mk _ socket sslsocket (.inl rfl) hsockets

theorem Twins.closed (h : Twins full e e') : Twins full e.closed e'.closed := by
  cases h with
  | mk targeturl socket sslsocket htarget hsockets =>
    cases htype : e.httpType with
    | plainHttp =>
      simp only [Engine.closed, htype]
      exact .mk targeturl false sslsocket htarget fun hfull => ⟨rfl, (hsockets hfull).2⟩
    | sslHttps =>
      simp only [Engine.closed, htype]
      exact .mk targeturl socket false htarget fun hfull => ⟨(hsockets hfull).1, rfl⟩

theorem Twins.httpType (h : Twins full e e') : e.httpType = e'.httpType := by
  cases h
  rfl

/-- With the current sockets alike, they are closed alike. -/
theorem Twins.disconnect (h : Twins full e e') (hopen : e.isOpen = e'.isOpen) (d : Disconnection) :
    (e.disconnect d).2 = (e'.disconnect d).2 ∧
      Twins full (e.disconnect d).1 (e'.disconnect d).1 := by
  rw [Engine.disconnect_eq, Engine.disconnect_eq, ← h.httpType, ← hopen]
  split
  · refine ⟨rfl, ?_⟩
    simp only
    split
    · exact h.closed
    · exact h
  · exact ⟨rfl, h⟩

/-- Redirects take twins to twins. -/
theorem Twins.counted (h : Twins full e e') : Twins full e.counted e'.counted := by
  cases h with
  | mk targeturl socket sslsocket htarget hsockets =>
    exact .mk targeturl socket sslsocket htarget hsockets

theorem Twins.redirected (h : Twins full e e') (url : Bytes) :
    Twins full (e.redirected url) (e'.redirected url) := by
  cases h with
  | mk targeturl socket sslsocket htarget hsockets =>
    exact .mk targeturl socket sslsocket htarget hsockets

theorem Twins.redirtimes (h : Twins full e e') : e.redirtimes = e'.redirtimes := by
  cases h
  rfl

/-! ## One call of `send` -/

section exits
variable {R : Type} [ResponseClass R]

/-- Exits alike but for what their engines do not show. -/
def SameExit (full : Bool) (x y : Exit R) : Prop :=
  x.result = y.result ∧ x.response = y.response ∧ Twins full x.engine y.engine

theorem Twins.exits (h : Twins full e e') (hopen : e.isOpen = e'.isOpen) (d : Disconnection) :
    ExitsRelated (SameExit (R := R) full) d d e e' where
  same := fun _ _ => ⟨rfl, rfl, h⟩
  redirect := by
    intro l r _ _
    by_cases htimes : e.redirtimes > 5
    · have htimes' : e'.redirtimes > 5 := h.redirtimes ▸ htimes
      obtain ⟨hthrown, htwins⟩ := h.counted.disconnect hopen d
      rw [redirect_beyond d htimes, redirect_beyond d htimes', hthrown]
      cases (e'.counted.disconnect d).2 <;> exact ⟨rfl, rfl, htwins⟩
    · have htimes' : ¬ e'.redirtimes > 5 := h.redirtimes ▸ htimes
      cases hurl : l.tempheaders.find? (str "Location") with
      | none =>
        rw [redirect_lost d (f := ⟨l, e, r⟩) htimes hurl,
          redirect_lost d (f := ⟨l, e', r⟩) htimes' hurl]
        exact ⟨rfl, rfl, h.counted⟩
      | some url =>
        obtain ⟨hthrown, htwins⟩ := (h.redirected url).disconnect hopen d
        rw [redirect_target d htimes hurl, redirect_target d htimes' hurl, hthrown]
        exact ⟨rfl, rfl, htwins⟩

theorem Twins.receive (h : Twins full e e') (hopen : e.isOpen = e'.isOpen) (d : Disconnection)
    (reads : List (Read 2048)) (buffer : Buffer) (r : R) :
    SameExit full (receive d reads buffer e r).1 (receive d reads buffer e' r).1 := by
  have hstart : Alike e e' (Frame.start e r) (Frame.start e' r) := alike _ r
  exact (receiveLoop_alike (h.exits hopen d) h.httpType reads buffer hstart).1

end exits

end twins

/-! ## What is seen of a call -/

/-- An event, with or without whether a socket was open already. -/
def Event.seen (full : Bool) (event : Event) : Event :=
  match full with
  | true => event
  | false => event.wire

/-- A connection is made on a socket that is then open. -/
theorem dial_isOpen {R : Type} {hop : Hop} {p : Prepared R} (h : (dial hop p).2 = .ok ()) :
    (dialed hop p.engine).isOpen = true := by
  cases hresolve : hop.resolve with
  | error ec =>
    simp only [dial, hresolve, Steps.andThen] at h
    cases h
  | ok attempts =>
    cases attempts with
    | nil =>
      simp only [dial, hresolve, tryEndpoints, Steps.andThen] at h
      cases h
    | cons a rest =>
      simp only [dialed, hresolve, Engine.opened]
      cases p.engine.httpType <;> rfl

/-- Two worlds beside each other: what has been seen since two traces, and what
is left. -/
structure Beside {R : Type} (full : Bool) (t t' : List Event) (w w' : World R) : Prop where
  engine : Twins full w.engine w'.engine
  response : w.response = w'.response
  trace : ∃ events events', w.trace = t ++ events ∧ w'.trace = t' ++ events' ∧
    events.map (Event.seen full) = events'.map (Event.seen full)

theorem Beside.append {R : Type} {full : Bool} {t t' : List Event} {w w' : World R}
    (h : Beside full t t' w w') {e e' : Engine} (he : Twins full e e') (r : R)
    {events events' : List Event}
    (hevents : events.map (Event.seen full) = events'.map (Event.seen full)) :
    Beside full t t' ⟨e, r, w.trace ++ events⟩ ⟨e', r, w'.trace ++ events'⟩ := by
  obtain ⟨earlier, earlier', htrace, htrace', hsame⟩ := h.trace
  refine ⟨he, rfl, earlier ++ events, earlier' ++ events', ?_, ?_, ?_⟩
  · simp only [htrace, List.append_assoc]
  · simp only [htrace', List.append_assoc]
  · simp only [List.map_append, hsame, hevents]

section calls
variable {R : Type} [ResponseClass R] {full : Bool} {env : Environment}

/-- Twins prepare the same call. -/
theorem Twins.prepare {e e' : Engine} (h : Twins full e e') (r : R) :
    (prepare env e r = none ∧ prepare env e' r = none) ∨
      ∃ (p : Prepared R) (e₂ : Engine), prepare env e r = some p ∧
        prepare env e' r = some { p with engine := e₂ } ∧ Twins full p.engine e₂ := by
  cases hparts : urlParts (base r).url with
  | none =>
    left
    constructor <;> rw [Anetd.prepare, hparts] <;> rfl
  | some parts =>
    by_cases hknown : parts.Known
    · rw [prepare_known env e hparts hknown, prepare_known env e' hparts hknown]
      cases endpoint env parts with
      | none => exact .inl ⟨rfl, rfl⟩
      | some target => exact .inr ⟨_, _, rfl, rfl, h.overwrite env parts⟩
    · rw [prepare_unknown env e hparts hknown, prepare_unknown env e' hparts hknown]
      refine .inr ⟨_, _, rfl, rfl, ?_⟩
      cases h with
      | mk targeturl socket sslsocket htarget hsockets =>
        exact .mk targeturl socket sslsocket htarget hsockets

/-- They dial alike, and ask for the same. -/
theorem Twins.sameWire {p : Prepared R} {e₂ : Engine} (h : Twins full p.engine e₂) :
    SameWire p { p with engine := e₂ } := by
  refine ⟨rfl, h.httpType, h.command, ?_⟩
  cases h
  rfl

theorem Twins.dial {p : Prepared R} {e₂ : Engine} (h : Twins full p.engine e₂) (hop : Hop) :
    (dial hop p).1.map (Event.seen full) =
        (dial hop { p with engine := e₂ }).1.map (Event.seen full) ∧
      (dial hop p).2 = (dial hop { p with engine := e₂ }).2 := by
  cases full with
  | false => exact h.sameWire.dial hop
  | true =>
    have hsame : Anetd.dial hop p = Anetd.dial hop { p with engine := e₂ } := by
      simp only [Anetd.dial, h.httpType, h.command, h.isOpen rfl]
    rw [hsame]
    exact ⟨rfl, rfl⟩

/-- **One call of `send`** on worlds beside each other. -/
theorem send_beside {t t' : List Event} {w w' : World R} (h : Beside full t t' w w') (hop : Hop) :
    (send env hop w).1 = (send env hop w').1 ∧
      Beside full t t' (send env hop w).2 (send env hop w').2 := by
  obtain ⟨e, r, trace⟩ := w
  obtain ⟨e', r', trace'⟩ := w'
  obtain rfl : r = r' := h.response
  have hengine : Twins full e e' := h.engine
  rcases @Twins.prepare R _ full env _ _ hengine r with ⟨hp, hp'⟩ | ⟨p, e₂, hp, hp', htwins⟩
  · simp only [send, hp, hp']
    exact ⟨trivial, h⟩
  · obtain ⟨hevents, hresult⟩ := htwins.dial hop
    have hdialed := htwins.dialed hop
    cases hdial : (Anetd.dial hop p).2 with
    | error stop =>
      rw [send_stopped (w := ⟨e, r, trace⟩) hp hdial,
        send_stopped (w := ⟨e', r, trace'⟩) hp' (hresult ▸ hdial)]
      exact ⟨rfl, h.append hdialed p.response hevents⟩
    | ok =>
      let q : Prepared R := { p with engine := e₂ }
      have hdial' : (Anetd.dial hop q).2 = .ok () := hresult ▸ hdial
      have hopen : (dialed hop p.engine).isOpen = (dialed hop e₂).isOpen :=
        (dial_isOpen hdial).trans (dial_isOpen hdial').symm
      have hrequest : q.request = p.request := htwins.sameWire.request.symm
      have hbody : e₂.body = p.engine.body := by
        cases htwins
        rfl
      have hseen : ((Anetd.dial hop p).1 ++
            [Event.request p.engine.httpType p.request]).map (Event.seen full) =
          ((Anetd.dial hop q).1 ++ [Event.request e₂.httpType p.request]).map (Event.seen full) := by
        rw [List.map_append, List.map_append, hevents, htwins.httpType]
      rw [send_dialed (w := ⟨e, r, trace⟩) hp hdial, send_dialed (w := ⟨e', r, trace'⟩) hp' hdial',
        transmit_dialed, transmit_dialed hop q, hrequest]
      simp only [q, hbody, List.append_assoc]
      cases hop.send with
      | some ec => exact ⟨rfl, h.append hdialed _ hseen⟩
      | none =>
        obtain ⟨hend, hleft, hlast⟩ := hdialed.receive hopen hop.disconnection
          (hop.reads p.request) hop.buffer
          (update (fun b => b.setContentLength p.engine.body.length) p.response)
        refine ⟨hend, ?_⟩
        rw [← hleft]
        exact h.append hlast _ hseen

/-! ## Whole transfers -/

/-- Networks that answer alike to what is seen after their two starts. -/
def AnswerAlike (full : Bool) (t t' : List Event) (net net' : Network) : Prop :=
  ∀ events events', events.map (Event.seen full) = events'.map (Event.seen full) →
    net (t ++ events) = net' (t' ++ events')

/-- Transfers that end alike. -/
def SameOutcome (full : Bool) (t t' : List Event) (x y : Except Stop Unit × World R) : Prop :=
  x.1 = y.1 ∧ Beside full t t' x.2 y.2

variable {t t' : List Event} {net net' : Network} {w w' : World R}

theorem sendLoop_beside (hnet : AnswerAlike full t t' net net') (h : Beside full t t' w w')
    (calls : Nat) :
    Option.Rel (SameOutcome full t t') (sendLoop env net calls w) (sendLoop env net' calls w') := by
  induction calls generalizing w w' with
  | zero => exact .none
  | succ calls ih =>
    have hhop : net w.trace = net' w'.trace := by
      obtain ⟨events, events', htrace, htrace', hseen⟩ := h.trace
      rw [htrace, htrace']
      exact hnet events events' hseen
    obtain ⟨hresult, hleft⟩ := @send_beside R _ full env _ _ _ _ h (net' w'.trace)
    rw [sendLoop, sendLoop, hhop]
    rcases hsend : send env (net' w'.trace) w with ⟨result, v⟩
    rcases hsend' : send env (net' w'.trace) w' with ⟨result', v'⟩
    rw [hsend, hsend'] at hresult hleft
    obtain rfl : result = result' := hresult
    cases result with
    | error stop => exact .some ⟨rfl, hleft⟩
    | ok again =>
      cases again with
      | true => exact ih hleft
      | false => exact .some ⟨rfl, hleft⟩

theorem connect_beside (hnet : AnswerAlike full t t' net net') (h : Beside full t t' w w')
    (calls : Nat) :
    Option.Rel (SameOutcome full t t') (connect env net calls w) (connect env net' calls w') := by
  have hloop := @sendLoop_beside R _ full env _ _ _ _ _ _ hnet h calls
  rw [connect, connect]
  generalize sendLoop env net calls w = a at hloop ⊢
  generalize sendLoop env net' calls w' = b at hloop ⊢
  cases hloop with
  | none => exact .none
  | @some x y hxy =>
    obtain ⟨result, e, r, trace⟩ := x
    obtain ⟨result', e', r', trace'⟩ := y
    obtain ⟨hresult, hleft⟩ := hxy
    obtain rfl : result = result' := hresult
    obtain rfl : r = r' := hleft.response
    cases result with
    | error stop => exact .some ⟨rfl, hleft⟩
    | ok => exact .some ⟨rfl, hleft.append hleft.engine r rfl⟩

end calls

/-! ## What no transfer assigns -/

section settings
variable {R : Type} [ResponseClass R] {env : Environment}

theorem Leaves.carried {d : Disconnection} {e : Engine} {x : Exit R} (h : Leaves d e x) :
    x.engine.carried = e.carried := by
  have hdisconnect (e : Engine) : (e.disconnect d).1.carried = e.carried := by
    rw [Engine.disconnect_fields]
    rfl
  cases h with
  | badLexicalCast r => rfl
  | refused f hf =>
    rw [← hf]
    rfl
  | redirected f hf =>
    rw [← hf]
    rcases redirect_cases d f with
      ⟨-, ⟨-, h⟩ | ⟨se, h⟩⟩ | ⟨-, url, h | ⟨se, h⟩⟩ | ⟨-, h⟩ <;> rw [h]
    · exact hdisconnect f.engine.counted
    · exact hdisconnect f.engine.counted
    · exact hdisconnect (f.engine.redirected url)
    · exact hdisconnect (f.engine.redirected url)
    · rfl

theorem receive_carried (d : Disconnection) (reads : List (Read 2048)) (buffer : Buffer)
    (e : Engine) (r : R) : (receive d reads buffer e r).1.engine.carried = e.carried := by
  rcases receiveLoop_exits d reads buffer (Frame.start e r) with hleaves | ⟨hkept, -⟩
  · exact hleaves.carried
  · exact congrArg Engine.carried hkept

theorem prepare_settings {e : Engine} {r : R} {p : Prepared R} (h : prepare env e r = some p) :
    p.engine.settings = e.settings := by
  rcases (prepare_cases h).2 with ⟨-, -, hengine, -⟩ | ⟨-, -, hengine, -⟩ <;> rw [hengine] <;> rfl

theorem send_settings (hop : Hop) (w : World R) :
    (send env hop w).2.engine.settings = w.engine.settings := by
  have hdialed {p : Prepared R} (hp : prepare env w.engine w.response = some p) :
      (dialed hop p.engine).settings = w.engine.settings := by
    rw [dialed_fields]
    exact prepare_settings hp
  rcases send_cases env hop w with ⟨-, hsend⟩ |
    ⟨p, hp, ⟨stop, -, hsend⟩ | ⟨-, ⟨ec, -, hsend⟩ | ⟨-, hsend⟩⟩⟩ <;> rw [hsend]
  · exact hdialed hp
  · exact hdialed hp
  · have hcarried := receive_carried hop.disconnection (hop.reads p.request) hop.buffer
      (dialed hop p.engine) (update (fun b => b.setContentLength p.engine.body.length) p.response)
    exact (congrArg Engine.settings hcarried).trans (hdialed hp)

theorem connect_settings {net : Network} {calls : Nat} {w v : World R} {result : Except Stop Unit}
    (h : connect env net calls w = some (result, v)) : v.engine.settings = w.engine.settings :=
  connect_rule (I := fun v => v.engine.settings = w.engine.settings)
    (fun v hv => (send_settings (net v.trace) v).trans hv) (fun _ _ hv => hv) rfl h

end settings

/-- The engines a program can have. -/
inductive Reachable : Engine → Prop where
  | constructed : Reachable .new
  | setProxyAuth {e : Engine} (h : Reachable e) (auth : Bytes × Bytes) :
      Reachable { e with proxyauth := auth }
  | transfer {R : Type} [ResponseClass R] {env : Environment} {net : Network} {calls : Nat}
      {w v : World R} {result : Except Stop Unit} (h : Reachable w.engine)
      (hconnect : connect env net calls w = some (result, v)) : Reachable v.engine
  | reset {R : Type} [ResponseClass R] {e : Engine} (h : Reachable e) (r : R) (d : Disconnection) :
      Reachable (e.reset r d).2.1

/-- None of them ever has a body. -/
theorem Reachable.body {e : Engine} (h : Reachable e) : e.body = [] := by
  induction h with
  | constructed => rfl
  | setProxyAuth _ _ ih => exact ih
  | transfer _ hconnect ih => exact (congrArg Engine.body (connect_settings hconnect)).trans ih
  | @reset R _ e _ r d ih =>
    have hbody : (e.disconnect d).1.body = e.body := by rw [Engine.disconnect_fields]
    rw [Engine.reset]
    split
    · rename_i e' x heq
      rw [heq] at hbody
      exact hbody.trans ih
    · rename_i e' heq
      rw [heq] at hbody
      exact hbody.trans ih

/-! ## A reset engine and a new one -/

/-- Whether the socket of the other transport is open. -/
def Engine.otherOpen (e : Engine) : Bool :=
  match e.httpType with
  | .plainHttp => e.sslsocketOpen
  | .sslHttps => e.socketOpen

/-- A `reset` whose shutdown and close succeed leaves both sockets closed exactly
if the one that it does not look at was. -/
theorem reset_closes_iff {R : Type} [ResponseClass R] (e : Engine) (r : R) {d : Disconnection}
    (hshutdown : d.shutdown = none) (hclose : d.close = none) :
    (e.reset r d).2.1.socketOpen = false ∧ (e.reset r d).2.1.sslsocketOpen = false ↔
      e.otherOpen = false := by
  cases htype : e.httpType with
  | plainHttp =>
    cases hopen : e.socketOpen <;>
      simp [Engine.reset, Engine.disconnect, Engine.clearFields, Engine.otherOpen, htype, hopen,
        hshutdown, hclose]
  | sslHttps =>
    cases hopen : e.sslsocketOpen <;>
      simp [Engine.reset, Engine.disconnect, Engine.disconnect.closeLowest, Engine.clearFields,
        Engine.otherOpen, htype, hopen, hshutdown, hclose]

/-- What a `reset` that returns leaves of an engine that no transfer gave a body. -/
theorem reset_twins {R : Type} [ResponseClass R] {e : Engine} (h : Reachable e) {r : R}
    {d : Disconnection} (hreset : (e.reset r d).1 = .ok ()) {full : Bool}
    (hfull : full = true →
      (e.reset r d).2.1.socketOpen = false ∧ (e.reset r d).2.1.sslsocketOpen = false) :
    Twins full { Engine.new with proxyauth := e.proxyauth } (e.reset r d).2.1 := by
  have hquiet : (e.disconnect d).2 = none := by
    cases hx : (e.disconnect d).2 with
    | none => rfl
    | some x =>
      rw [Engine.reset, show e.disconnect d = ((e.disconnect d).1, some x) from
        Prod.ext rfl hx] at hreset
      cases hreset
  have hleft : (e.reset r d).2.1 = (e.disconnect d).1.clearFields := by
    rw [Engine.reset, show e.disconnect d = ((e.disconnect d).1, none) from Prod.ext rfl hquiet]
  rw [hleft] at hfull ⊢
  have hfields : (e.disconnect d).1.clearFields = { Engine.new with
      proxyauth := e.proxyauth
      targeturl := e.targeturl
      body := e.body
      socketOpen := (e.disconnect d).1.socketOpen
      sslsocketOpen := (e.disconnect d).1.sslsocketOpen } := by
    rw [Engine.disconnect_fields]
    rfl
  rw [h.body] at hfields
  rw [hfields] at hfull ⊢
  exact .mk e.targeturl _ _ (.inr rfl) hfull

/-- **A reset engine is a new one** to all that can be seen of its next transfer,
if both its sockets are closed, or if the network answers a connect on an open
one (`full` is then `false`) like any other. -/
theorem reset_like_new {e : Engine} (h : Reachable e) {Q : Type} [ResponseClass Q] {q : Q}
    {d : Disconnection} (hreset : (e.reset q d).1 = .ok ()) {full : Bool}
    (hfull : full = true →
      (e.reset q d).2.1.socketOpen = false ∧ (e.reset q d).2.1.sslsocketOpen = false)
    {R : Type} [ResponseClass R] (env : Environment) (r : R) {t : List Event} {net net' : Network}
    (hnet : AnswerAlike full [] t net net') :
    ∃ result w w',
      connect env net 7 ⟨{ Engine.new with proxyauth := e.proxyauth }, r, []⟩ = some (result, w) ∧
      connect env net' 7 ⟨(e.reset q d).2.1, r, t⟩ = some (result, w') ∧
      w.response = w'.response ∧ w.engine.redirtimes = w'.engine.redirtimes ∧
      ∃ events, w'.trace = t ++ events ∧
        w.trace.map (Event.seen full) = events.map (Event.seen full) := by
  have hstart : Beside full [] t (⟨{ Engine.new with proxyauth := e.proxyauth }, r, []⟩ : World R)
      ⟨(e.reset q d).2.1, r, t⟩ :=
    ⟨reset_twins h hreset hfull, rfl, [], [], rfl, (List.append_nil t).symm, rfl⟩
  have hruns := @connect_beside R _ full env _ _ _ _ _ _ hnet hstart 7
  obtain ⟨⟨result, w⟩, hconnect⟩ := @connect_ends R _ env net
    ⟨{ Engine.new with proxyauth := e.proxyauth }, r, []⟩ rfl
  rw [hconnect] at hruns ⊢
  generalize connect env net' 7 ⟨(e.reset q d).2.1, r, t⟩ = b at hruns ⊢
  cases hruns with
  | @some _ y hxy =>
    obtain ⟨result', w'⟩ := y
    obtain ⟨hresult, hengine, hresponse, events, events', htrace, htrace', hseen⟩ := hxy
    obtain rfl : result = result' := hresult
    obtain rfl : w.trace = events := htrace
    exact ⟨result, w, w', rfl, rfl, hresponse, hengine.redirtimes, events', htrace', hseen⟩

/-- A name that is not resolved. -/
def unresolved : Hop := { okHop with resolve := .error ⟨.netdb, 1⟩ }

theorem unresolved_connect : connect ⟨[], []⟩ (fun _ => unresolved) 7 loopStart =
    some (.error (.threw .connectionException), ⟨(loopPrepared loopStart).engine,
      (loopPrepared loopStart).response, [.query (str "a") (str "443")]⟩) :=
  connect_throws (send_stopped (loop_prepare rfl) rfl) 6

/-- The engine is left with a `targeturl` by a transfer that failed. -/
theorem reset_like_new_unresolved : (loopPrepared loopStart).engine.targeturl = str "a:443" ∧
    ∃ result w w',
      connect ⟨[], []⟩ (fun _ => okHop) 7 loopStart = some (result, w) ∧
      connect ⟨[], []⟩ (fun _ => okHop) 7
        ⟨((loopPrepared loopStart).engine.reset HttpResponse.new ⟨none, none⟩).2.1,
          loopStart.response, [.query (str "a") (str "443")]⟩ = some (result, w') ∧
      w.response = w'.response ∧ w.engine.redirtimes = w'.engine.redirtimes ∧
      ∃ events, w'.trace = [.query (str "a") (str "443")] ++ events ∧
        w.trace.map (Event.seen true) = events.map (Event.seen true) :=
  ⟨by decide, reset_like_new (.transfer (w := loopStart) .constructed unresolved_connect) (by decide)
    (by decide) _ _ fun _ _ _ => rfl⟩

/-! ### A socket that stays open -/

/-- What a hop is to a socket that is connected already: no endpoint can be
connected. -/
def Hop.onConnected (hop : Hop) : Hop :=
  { hop with resolve := hop.resolve.map fun attempts =>
      attempts.map fun a => { a with connect := some ⟨.system, 106⟩ } }

/-- A transfer over http. -/
def overHttp : World HttpResponse := ⟨.new, HttpResponse.new.setURL (str "http://a/"), []⟩

def afterHttp : World HttpResponse :=
  ((connect ⟨[], []⟩ (fun _ => okHop) 7 overHttp).map Prod.snd).getD overHttp

/-- One over https behind it. -/
def overHttps : World HttpResponse :=
  ⟨afterHttp.engine, HttpResponse.new.setURL loopUrl, afterHttp.trace⟩

def afterHttps : World HttpResponse :=
  ((connect ⟨[], []⟩ (fun _ => okHop) 7 overHttps).map Prod.snd).getD overHttps

theorem connect_eq_getD {net : Network} {w v : World HttpResponse} {result : Except Stop Unit}
    (h : (connect ⟨[], []⟩ net 7 w).map Prod.fst = some result) :
    connect ⟨[], []⟩ net 7 w =
      some (result, ((connect ⟨[], []⟩ net 7 w).map Prod.snd).getD v) := by
  obtain ⟨⟨result', w'⟩, hconnect, rfl⟩ := Option.map_eq_some_iff.mp h
  rw [hconnect]
  rfl

theorem afterHttps_reachable : Reachable afterHttps.engine := by
  have hhttp : connect ⟨[], []⟩ (fun _ => okHop) 7 overHttp = some (.ok (), afterHttp) :=
    connect_eq_getD (by decide +kernel)
  have hhttps : connect ⟨[], []⟩ (fun _ => okHop) 7 overHttps = some (.ok (), afterHttps) :=
    connect_eq_getD (by decide +kernel)
  have hfirst : Reachable afterHttp.engine := .transfer (w := overHttp) .constructed hhttp
  exact .transfer (w := overHttps) hfirst hhttps

/-- The engine is then reset. -/
def resetBoth : Except Exn Unit × Engine × HttpResponse :=
  afterHttps.engine.reset afterHttps.response ⟨none, none⟩

/-- It still has the socket of the first transfer, and no other connection over
http, where a new engine gets its answer. -/
theorem reset_unlike_new : Reachable afterHttps.engine ∧ resetBoth.1 = .ok () ∧
    resetBoth.2.1.socketOpen = true ∧
    (∃ w, connect ⟨[], []⟩ (fun _ => okHop) 7 ⟨.new, overHttp.response, []⟩ = some (.ok (), w) ∧
      w.response.status = 200) ∧
    ∃ w, connect ⟨[], []⟩ (fun _ => okHop.onConnected) 7
        ⟨resetBoth.2.1, overHttp.response, afterHttps.trace⟩ =
          some (.error (.threw .connectionException), w) ∧
      w.response.status = 0 ∧
      w.trace = afterHttps.trace ++ [.query (str "a") (str "80"), .connect .plainHttp true] := by
  have hnew : (connect ⟨[], []⟩ (fun _ => okHop) 7 ⟨.new, overHttp.response, []⟩).map
      (fun x => (x.1, x.2.response.status)) = some (.ok (), 200) := by decide +kernel
  have hreset : (connect ⟨[], []⟩ (fun _ => okHop.onConnected) 7
      ⟨resetBoth.2.1, overHttp.response, afterHttps.trace⟩).map
        (fun x => (x.1, x.2.response.status, x.2.trace)) =
      some (.error (.threw .connectionException), 0,
        afterHttps.trace ++ [.query (str "a") (str "80"), .connect .plainHttp true]) := by
    decide +kernel
  obtain ⟨⟨result, v⟩, hconnect, heq⟩ := Option.map_eq_some_iff.mp hnew
  obtain ⟨⟨result', v'⟩, hconnect', heq'⟩ := Option.map_eq_some_iff.mp hreset
  obtain ⟨rfl, hok⟩ : result = .ok () ∧ v.response.status = 200 := by simpa using heq
  obtain ⟨rfl, hstatus, htrace⟩ : result' = .error (.threw .connectionException) ∧
    v'.response.status = 0 ∧ v'.trace = _ := by simpa using heq'
  exact ⟨afterHttps_reachable, by decide +kernel, by decide +kernel, ⟨v, hconnect, hok⟩,
    v', hconnect', hstatus, htrace⟩

end Anetd
