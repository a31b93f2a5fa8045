import Anetd.Fresh

/-!
# Open and closed sockets

A `Session` is any number of transfers on one engine, each after a `reset`.
When no endpoint is tried after one that failed, and every `disconnect` that
finds its socket open closes it, then all sockets are closed between two hops,
and only the current one is open within a hop (`session_tidy`). So `connect` is
only called on closed sockets, and no exception leaves `disconnect`.
-/

namespace Anetd

open Lib.Machine

/-- The shutdown and the close of an open socket go well; over TLS a shutdown
may fail in the way that is not thrown. -/
structure Disconnection.Closes (d : Disconnection) (type : HttpType) : Prop where
  close : d.close = none
  shutdown : ∀ se, d.shutdown = some se → type = .sslHttps ∧ se.sslFailure = false

namespace Engine

def Closed (e : Engine) : Prop := e.socketOpen = false ∧ e.sslsocketOpen = false

/-- No socket but the current one is open. -/
def Tidy (e : Engine) : Prop :=
  match e.httpType with
  | .plainHttp => e.sslsocketOpen = false
  | .sslHttps => e.socketOpen = false

/-- An open socket is closed by `disconnect`. -/
def Closes (e : Engine) (d : Disconnection) : Prop := e.isOpen = true → d.Closes e.httpType

variable {e : Engine} {d : Disconnection}

theorem Closed.isOpen (h : e.Closed) : e.isOpen = false := by
  unfold Engine.isOpen
  split
  · exact h.1
  · exact h.2

theorem Closed.tidy (h : e.Closed) : e.Tidy := by
  unfold Tidy
  split
  · exact h.2
  · exact h.1

theorem Closed.opened (h : e.Closed) : e.opened.Tidy := by
  obtain ⟨hsocket, hssl⟩ := h
  cases htype : e.httpType <;> simp [Engine.opened, Tidy, htype, hsocket, hssl]

theorem Tidy.closed (h : e.Tidy) : e.closed.Closed := by
  cases htype : e.httpType <;> simp only [Tidy, htype] at h <;>
    simp only [Engine.closed, htype, Closed, h, and_self]

theorem Tidy.closed_of_not_open (h : e.Tidy) (hopen : ¬ e.isOpen = true) : e.Closed := by
  cases htype : e.httpType <;> simp only [Tidy, Engine.isOpen, htype] at h hopen <;>
    simp only [Closed, h, Bool.eq_false_iff.mpr hopen, and_self]

theorem answer_of_closes {type : HttpType} (h : d.Closes type) : d.answer type = (true, none) := by
  obtain ⟨shutdown, close⟩ := d
  obtain ⟨hclose, hshutdown⟩ := h
  obtain rfl : close = none := hclose
  cases shutdown with
  | none => cases type <;> rfl
  | some se =>
    obtain ⟨rfl, hfails⟩ := hshutdown se rfl
    simp only [Disconnection.answer, hfails, Bool.false_eq_true, if_false, Option.isNone_none]

/-- **A `disconnect` that can close its socket** leaves none open, and throws
nothing. -/
theorem Tidy.disconnect (h : e.Tidy) (hd : e.Closes d) :
    (e.disconnect d).1.Closed ∧ (e.disconnect d).2 = none := by
  rw [disconnect_eq]
  split
  · rename_i hopen
    rw [answer_of_closes (hd hopen)]
    exact ⟨h.closed, rfl⟩
  · rename_i hopen
    exact ⟨h.closed_of_not_open hopen, rfl⟩

end Engine

/-! ## One hop -/

/-- One endpoint fails with a `system_error`: the connect, and over TLS the
write of the command, the read of the reply to it, or the handshake. -/
def Attempt.Fails (a : Attempt) (type : HttpType) (command : Option Bytes) : Prop :=
  a.connect ≠ none ∨ (type = .sslHttps ∧
    match command with
    | none => a.handshake ≠ none
    | some _ => a.command ≠ none ∨ (∃ ec, a.reply.head? = some (.error ec)) ∨
        ((awaitProxy a.memory a.reply).1 = .ok () ∧ a.handshake ≠ none))

/-- No endpoint is tried after one that failed. -/
def Hop.Settles (hop : Hop) (type : HttpType) (command : Option Bytes) : Prop :=
  ∀ a b rest, hop.resolve = .ok (a :: b :: rest) → ¬ a.Fails type command

/-- The `try` block throws a `system_error` exactly when its endpoint fails. -/
theorem run_fails_iff (a : Attempt) (type : HttpType) (command : Option Bytes) (isOpen : Bool) :
    (∃ ec, (a.run type command isOpen).2 = .error (.threw (.systemError ec))) ↔
      a.Fails type command := by
  obtain ⟨connect, write, memory, reply, handshake⟩ := a
  cases connect with
  | some ec =>
    constructor
    · exact fun _ => .inl (by simp)
    · exact fun _ => ⟨ec, rfl⟩
  | none =>
    cases type with
    | plainHttp => simp [Attempt.Fails, Attempt.run, attempted, Steps.andThen]
    | sslHttps =>
      cases command with
      | none =>
        cases handshake <;> simp [Attempt.Fails, Attempt.run, attempted, Steps.andThen]
      | some text =>
        cases write with
        | some ec => simp [Attempt.Fails, Attempt.run, attempted, Steps.andThen]
        | none =>
          cases reply with
          | nil => simp [Attempt.Fails, Attempt.run, attempted, Steps.andThen, awaitProxy]
          | cons o reads =>
            cases o with
            | error ec => simp [Attempt.Fails, Attempt.run, attempted, Steps.andThen, awaitProxy]
            | data c =>
              have hnot := readProxyResponse_ne_threw (cString (memory.store c.bytes) 1024)
              cases hreply : readProxyResponse (cString (memory.store c.bytes) 1024) with
              | ok =>
                cases handshake <;>
                  simp [Attempt.Fails, Attempt.run, attempted, Steps.andThen, awaitProxy, hreply]
              | error stop =>
                have hstop (ec : ErrorCode) : stop ≠ .threw (.systemError ec) := by
                  rintro rfl
                  exact hnot _ hreply
                simp [Attempt.Fails, Attempt.run, attempted, Steps.andThen, awaitProxy, hreply,
                  hstop]

/-- The events of an attempt tell the state its socket was in. -/
theorem run_connects (a : Attempt) (type : HttpType) (command : Option Bytes) (isOpen : Bool)
    {type' : HttpType} {o : Bool} (h : .connect type' o ∈ (a.run type command isOpen).1) :
    o = isOpen := by
  have one {s t : Steps} (hs : .connect type' o ∈ s.1 → o = isOpen)
      (ht : .connect type' o ∉ t.1) (h : .connect type' o ∈ (s.andThen t).1) : o = isOpen := by
    unfold Steps.andThen at h
    split at h
    · exact (List.mem_append.mp h).elim hs fun hin => absurd hin ht
    · exact hs h
  have none {s t : Steps} (hs : .connect type' o ∉ s.1) (ht : .connect type' o ∉ t.1) :
      .connect type' o ∉ (s.andThen t).1 := by
    unfold Steps.andThen
    split
    · exact fun h => (List.mem_append.mp h).elim hs ht
    · exact hs
  refine one (fun hfirst => ?_) ?_ h
  · injection List.mem_singleton.mp hfirst
  · cases type with
    | plainHttp => exact List.not_mem_nil
    | sslHttps =>
      refine none ?_ (by simp)
      cases command with
      | none => exact List.not_mem_nil
      | some text => exact none (by simp) List.not_mem_nil

/-- With endpoints that settle, `connect` is called once, on the socket as it was. -/
theorem dial_connects {R : Type} {hop : Hop} {p : Prepared R}
    (h : hop.Settles p.engine.httpType p.engine.command) {type : HttpType} {o : Bool}
    (hmem : .connect type o ∈ (dial hop p).1) : o = p.engine.isOpen := by
  have htry (attempts : List Attempt)
      (hattempts : ∀ a b rest, attempts = a :: b :: rest →
        ¬ a.Fails p.engine.httpType p.engine.command)
      (hin : .connect type o ∈ (tryEndpoints p.engine.httpType p.engine.command p.engine.isOpen
        attempts).1) : o = p.engine.isOpen := by
    cases attempts with
    | nil => cases hin
    | cons a rest =>
      have hrun := @run_connects a p.engine.httpType p.engine.command p.engine.isOpen type o
      rw [tryEndpoints] at hin
      split at hin
      · rename_i events heq
        rw [heq] at hrun
        exact hrun hin
      · rename_i events ec heq
        rw [heq] at hrun
        cases rest with
        | nil => exact hrun (by simpa [tryEndpoints] using hin)
        | cons b rest =>
          -- the first endpoint failed, and there is another one
          have hfails := (run_fails_iff a p.engine.httpType p.engine.command p.engine.isOpen).mp
            ⟨ec, by rw [heq]⟩
          exact absurd hfails (hattempts a b rest rfl)
      · rename_i events stop hstop heq
        rw [heq] at hrun
        exact hrun hin
  cases hresolve : hop.resolve with
  | error ec => simp [dial, hresolve, Steps.andThen] at hmem
  | ok attempts =>
    refine htry attempts (fun a b rest heq => h a b rest (by rw [hresolve, heq])) ?_
    simp only [dial, hresolve, Steps.andThen] at hmem
    split at hmem <;> rename_i heq <;> rw [heq] <;> simpa using hmem

/-- What leaves the endpoint loop does not come from a `disconnect`. -/
theorem run_quiet (a : Attempt) (type : HttpType) (command : Option Bytes) (isOpen : Bool)
    (se : ErrorCode) : (a.run type command isOpen).2 ≠ .error (.threw (.errorCode se)) := by
  let Quiet (s : Steps) : Prop := s.2 ≠ .error (.threw (.errorCode se))
  have andThen {s t : Steps} (hs : Quiet s) (ht : Quiet t) : Quiet (s.andThen t) := by
    simp only [Quiet, Steps.andThen]
    split
    · exact ht
    · rename_i stop heq
      exact fun hstop => hs (heq.trans hstop)
  have attempt (events : List Event) (outcome : Option ErrorCode) :
      Quiet (events, attempted outcome) := by
    cases outcome <;> simp [Quiet, attempted]
  have done : Quiet ([], .ok ()) := by simp [Quiet]
  refine andThen (attempt _ _) ?_
  cases type with
  | plainHttp => exact done
  | sslHttps =>
    refine andThen ?_ (attempt _ _)
    cases command with
    | none => exact done
    | some text =>
      refine andThen (attempt _ _) ?_
      simp only [Quiet]
      cases a.reply with
      | nil => simp [awaitProxy]
      | cons o reads =>
        cases o with
        | error ec => simp [awaitProxy]
        | data c =>
          simp only [awaitProxy]
          exact readProxyResponse_ne_threw _ _

theorem tryEndpoints_quiet (type : HttpType) (command : Option Bytes) (isOpen : Bool)
    (attempts : List Attempt) (se : ErrorCode) :
    (tryEndpoints type command isOpen attempts).2 ≠ .error (.threw (.errorCode se)) := by
  induction attempts generalizing isOpen with
  | nil => simp [tryEndpoints]
  | cons a rest ih =>
    have hrun := run_quiet a type command isOpen se
    rw [tryEndpoints]
    split
    · simp
    · exact ih true
    · rename_i events stop hstop heq
      rw [heq] at hrun
      simpa using hrun

theorem dial_quiet {R : Type} {hop : Hop} {p : Prepared R} {stop : Stop}
    (h : (dial hop p).2 = .error stop) (se : ErrorCode) : stop ≠ .threw (.errorCode se) := by
  rintro rfl
  cases hresolve : hop.resolve with
  | error ec => simp [dial, hresolve, Steps.andThen] at h
  | ok attempts =>
    have htry := tryEndpoints_quiet p.engine.httpType p.engine.command p.engine.isOpen attempts se
    simp only [dial, hresolve, Steps.andThen] at h
    rcases heq : tryEndpoints p.engine.httpType p.engine.command p.engine.isOpen attempts with
      ⟨events, stop | connected⟩
    · rw [heq] at h htry
      cases h
      exact htry rfl
    · rw [heq] at h
      cases connected <;> cases h

/-! ### What a call leaves -/

/-- No socket but the current one is left open, none after a redirect, and
nothing has left `disconnect`. -/
structure Left (result : Except Stop Bool) (e : Engine) : Prop where
  tidy : e.Tidy
  closed : result = .ok true → e.Closed
  quiet : ∀ se, result ≠ .error (.threw (.errorCode se))

/-- A class whose `flush` does not throw what only `disconnect` throws. -/
def QuietFlush (R : Type) [ResponseClass R] : Prop :=
  ∀ (r r' : R) (x : Exn), ResponseClass.flush r = .error (x, r') → ∀ se, x ≠ .errorCode se

theorem quietFlush_base : QuietFlush HttpResponse := by
  intro r r' x h
  cases h

section left
variable {R : Type} [ResponseClass R] {d : Disconnection} {e : Engine}

theorem Left.returned (h : e.Tidy) : Left (.ok false) e where
  tidy := h
  closed hresult := by cases hresult
  quiet se hresult := by cases hresult

theorem Left.stopped (h : e.Tidy) {stop : Stop} (hstop : ∀ se, stop ≠ .threw (.errorCode se)) :
    Left (.error stop) e where
  tidy := h
  closed hresult := by cases hresult
  quiet se hresult := hstop se (Except.error.inj hresult)

theorem Left.redirected (h : e.Closed) : Left (.ok true) e where
  tidy := h.tidy
  closed _ := h
  quiet se hresult := by cases hresult

theorem redirect_left (h : e.Tidy) (hd : e.Closes d) {f : Frame R} (hf : f.engine = e) :
    Left (redirect d f).result (redirect d f).engine := by
  subst hf
  by_cases htimes : 5 < f.engine.redirtimes
  · obtain ⟨hclosed, hquiet⟩ := Engine.Tidy.disconnect (e := f.engine.counted) h hd
    rw [redirect_limit d htimes hquiet]
    exact .returned hclosed.tidy
  · cases hurl : f.tempheaders.find? (str "Location") with
    | none =>
      rw [redirect_lost d htimes hurl]
      exact .returned (e := f.engine.counted) h
    | some url =>
      obtain ⟨hclosed, hquiet⟩ := Engine.Tidy.disconnect (e := f.engine.redirected url) h hd
      rw [redirect_follow d htimes hurl hquiet]
      exact .redirected hclosed

theorem Leaves.left (h : e.Tidy) (hd : e.Closes d) {x : Exit R} (hx : Leaves d e x) :
    Left x.result x.engine := by
  cases hx with
  | badLexicalCast r => exact .stopped h fun se hstop => by cases hstop
  | refused f hf =>
    rw [← hf] at h
    exact .returned h
  | redirected f hf => exact redirect_left h hd hf

theorem receive_left (hR : QuietFlush R) (h : e.Tidy) (hd : e.Closes d)
    (reads : List (Read 2048)) (buffer : Buffer) (r : R) :
    Left (receive d reads buffer e r).1.result (receive d reads buffer e r).1.engine := by
  let I : Frame R → Prop := fun f => f.engine = e
  let E : Exit R → Prop := fun x => Left x.result x.engine
  have tidy {f : Frame R} (hf : I f) : f.engine.Tidy := hf ▸ h
  have leaves (f : Frame R) (c : Byte) (hf : I f) : Both E I (step d f c) :=
    (hf ▸ step_leaves d f c).imp (fun _ hx => hx.left h hd) (fun _ hk => hk)
  have flush_fails (f : Frame R) (x : Exn) (r : R) (hf : I f)
      (hfail : ResponseClass.flush f.response = .error (x, r)) :
      E ⟨.error (.threw x), f.engine, r⟩ :=
    .stopped (tidy hf) fun se hstop => hR _ _ _ hfail se (Stop.threw.inj hstop)
  have reads_end (f : Frame R) (ec : ErrorCode) (hf : I f) : E (handle (.systemError ec) f) := by
    unfold handle
    split
    · exact .returned (tidy hf)
    · exact .stopped (tidy hf) fun se hstop => by cases hstop
  have blocked (f : Frame R) (hf : I f) : E ⟨.error .blocked, f.engine, f.response⟩ :=
    .stopped (tidy hf) fun se hstop => by cases hstop
  have completes (f : Frame R) (hf : I f) (_ : f.parserState = .ok) : E (complete f) :=
    .returned (tidy hf)
  exact receiveLoop_rule (I := I) (E := E) leaves (fun _ _ hf _ => hf) flush_fails blocked
    reads_end completes rfl reads buffer

/-- The answers to a call of `send` close what they open. -/
structure Hop.Closing (hop : Hop) (e : Engine) : Prop where
  settles : hop.Settles e.httpType e.command
  closes : hop.disconnection.Closes e.httpType

variable {env : Environment} {hop : Hop} {w : World R}

/-- **One call of `send`** that starts with all sockets closed. -/
theorem send_left (hR : QuietFlush R) (h : w.engine.Closed)
    (hhop : ∀ p, prepare env w.engine w.response = some p → hop.Closing p.engine) :
    Left (send env hop w).1 (send env hop w).2.engine ∧
      ∃ events, (send env hop w).2.trace = w.trace ++ events ∧
        ∀ type o, .connect type o ∈ events → o = false := by
  rcases send_cases env hop w with ⟨-, hsend⟩ | ⟨p, hp, hcases⟩
  · rw [hsend]
    refine ⟨.stopped h.tidy fun se hstop => ?_, [], (List.append_nil _).symm, ?_⟩
    · cases hstop
    · intro type o hin
      cases hin
  · obtain ⟨hsettles, hcloses⟩ := hhop p hp
    have hclosed : p.engine.Closed := by
      rcases (prepare_cases hp).2 with ⟨-, -, hengine, -⟩ | ⟨-, -, hengine, -⟩ <;>
        (rw [hengine]; exact h)
    have htidy : (dialed hop p.engine).Tidy := by
      unfold dialed
      split
      · exact hclosed.opened
      · exact hclosed.tidy
    constructor
    · rcases hcases with ⟨stop, hdial, hsend⟩ | ⟨-, ⟨ec, -, hsend⟩ | ⟨-, hsend⟩⟩ <;> rw [hsend]
      · exact .stopped htidy (dial_quiet hdial)
      · exact .stopped htidy fun se hstop => by cases hstop
      · refine receive_left hR htidy (fun _ => ?_) _ _ _
        rw [dialed_fields]
        exact hcloses
    · refine ⟨p.events hop, send_trace hp hop, fun type o hin => ?_⟩
      rw [← hclosed.isOpen]
      rcases List.mem_append.mp hin with hin | hin
      · exact dial_connects hsettles hin
      · split at hin <;> simp at hin

end left

/-! ## Sessions -/

/-- What is asked of the answers a session gets: those to the `disconnect` of
a `reset`, and those to a call of `send` with the engine it has prepared. -/
structure Terms where
  reset : Engine → Disconnection → Prop
  hop : Engine → Hop → Prop

/-- Nothing is asked. -/
def Terms.any : Terms := ⟨fun _ _ => True, fun _ _ => True⟩

/-- What is opened is closed. -/
def Terms.closing : Terms := ⟨Engine.Closes, fun e hop => hop.Closing e⟩

/-- How a call that did not return was stopped. -/
def stops : Except Stop Unit → List Stop
  | .ok () => []
  | .error stop => [stop]

/-- Any number of transfers on one engine, each after a `reset` that returned:
the engine, what has happened, and the calls that did not return. -/
inductive Session (terms : Terms) : Engine → List Event → List Stop → Prop where
  | start : Session terms .new [] []
  | setProxyAuth {e : Engine} {t : List Event} {ss : List Stop} (h : Session terms e t ss)
      (auth : Bytes × Bytes) : Session terms { e with proxyauth := auth } t ss
  | resetThrows {e : Engine} {t : List Event} {ss : List Stop} (h : Session terms e t ss)
      {Q : Type} [ResponseClass Q] (q : Q) {d : Disconnection} (hd : terms.reset e d) {x : Exn}
      (hreset : (e.reset q d).1 = .error x) :
      Session terms (e.reset q d).2.1 t (ss ++ [.threw x])
  | transfer {e : Engine} {t : List Event} {ss : List Stop} (h : Session terms e t ss)
      {Q : Type} [ResponseClass Q] (q : Q) {d : Disconnection} (hd : terms.reset e d)
      (hreset : (e.reset q d).1 = .ok ())
      {R : Type} [ResponseClass R] (hR : QuietFlush R) (r : R) (env : Environment) (net : Network)
      (hhops : ∀ k w, Followed env net k ⟨(e.reset q d).2.1, r, t⟩ w →
        ∀ p, prepare env w.engine w.response = some p → terms.hop p.engine (net w.trace))
      {result : Except Stop Unit} {w : World R}
      (hconnect : connect env net 7 ⟨(e.reset q d).2.1, r, t⟩ = some (result, w)) :
      Session terms w.engine w.trace (ss ++ stops result)

section sessions
variable {R : Type} [ResponseClass R] {env : Environment} {net : Network}

/-- No call of `connect` so far was made on an open socket. -/
def ConnectsClosed (t : List Event) : Prop := ∀ type o, .connect type o ∈ t → o = false

theorem ConnectsClosed.append {t events : List Event} (h : ConnectsClosed t)
    (hevents : ConnectsClosed events) : ConnectsClosed (t ++ events) :=
  fun type o hin => (List.mem_append.mp hin).elim (h type o) (hevents type o)

/-- **A whole transfer** that starts with all sockets closed. -/
theorem sendLoop_left (hR : QuietFlush R) {calls : Nat} {w v : World R}
    {result : Except Stop Unit} (hclosed : w.engine.Closed) (htrace : ConnectsClosed w.trace)
    (hhops : ∀ k w', Followed env net k w w' →
      ∀ p, prepare env w'.engine w'.response = some p → (net w'.trace).Closing p.engine)
    (h : sendLoop env net calls w = some (result, v)) :
    v.engine.Tidy ∧ ConnectsClosed v.trace ∧
      ∀ se, result ≠ .error (.threw (.errorCode se)) := by
  induction calls generalizing w with
  | zero => cases h
  | succ calls ih =>
    obtain ⟨hleft, events, hevents, hconnects⟩ := send_left hR hclosed (hhops 0 w (.none w))
    have htrace' : ConnectsClosed (send env (net w.trace) w).2.trace :=
      hevents ▸ htrace.append hconnects
    rw [sendLoop] at h
    split at h
    · rename_i stop v' heq
      rw [heq] at hleft htrace'
      cases h
      refine ⟨hleft.tidy, htrace', fun se hresult => ?_⟩
      cases hresult
      exact hleft.quiet se rfl
    · rename_i v' heq
      rw [heq] at hleft htrace'
      exact ih (hleft.closed rfl) htrace' (fun k w' hk => hhops (k + 1) w' (.more heq hk)) h
    · rename_i v' heq
      rw [heq] at hleft htrace'
      cases h
      refine ⟨hleft.tidy, htrace', fun se hresult => ?_⟩
      cases hresult

theorem connect_left (hR : QuietFlush R) {calls : Nat} {w v : World R}
    {result : Except Stop Unit} (hclosed : w.engine.Closed) (htrace : ConnectsClosed w.trace)
    (hhops : ∀ k w', Followed env net k w w' →
      ∀ p, prepare env w'.engine w'.response = some p → (net w'.trace).Closing p.engine)
    (h : connect env net calls w = some (result, v)) :
    v.engine.Tidy ∧ ConnectsClosed v.trace ∧
      ∀ se, result ≠ .error (.threw (.errorCode se)) := by
  obtain ⟨⟨result', v'⟩, hloop, heq⟩ := Option.map_eq_some_iff.mp h
  obtain ⟨htidy, hconnects, hquiet⟩ := sendLoop_left hR hclosed htrace hhops hloop
  cases result' with
  | error stop =>
    cases heq
    exact ⟨htidy, hconnects, hquiet⟩
  | ok =>
    cases heq
    have hcallback : ConnectsClosed [.callback] := fun type o hin => by simp at hin
    exact ⟨htidy, hconnects.append hcallback, hquiet⟩

/-- A `reset` that finds its socket closable returns, with all of them closed. -/
theorem reset_closed {e : Engine} {r : R} {d : Disconnection} (h : e.Tidy) (hd : e.Closes d) :
    (e.reset r d).1 = .ok () ∧ (e.reset r d).2.1.Closed := by
  obtain ⟨hclosed, hquiet⟩ := h.disconnect hd
  rcases hdisconnect : e.disconnect d with ⟨e', x⟩
  rw [hdisconnect] at hclosed hquiet
  obtain rfl : x = none := hquiet
  simp only [Engine.reset, hdisconnect, true_and]
  exact hclosed

/-- The invariant of a session in which what is opened is closed. -/
structure Sound (e : Engine) (t : List Event) (ss : List Stop) : Prop where
  tidy : e.Tidy
  connects : ConnectsClosed t
  quiet : ∀ se, .threw (.errorCode se) ∉ ss

/-- **Every session keeps it.** -/
theorem session_sound {e : Engine} {t : List Event} {ss : List Stop}
    (h : Session .closing e t ss) : Sound e t ss := by
  induction h with
  | start =>
    constructor
    · rfl
    · intro type o hin
      cases hin
    · intro se hin
      cases hin
  | setProxyAuth _ auth ih => exact ⟨ih.tidy, ih.connects, ih.quiet⟩
  | resetThrows _ q hd hreset ih =>
    rw [(reset_closed ih.tidy hd).1] at hreset
    cases hreset
  | @transfer _ _ _ _ _ _ q d hd _ R _ hR r env net hhops result w hconnect ih =>
    obtain ⟨htidy, hconnects, hquiet⟩ := connect_left hR (reset_closed ih.tidy hd).2 ih.connects
      hhops hconnect
    refine ⟨htidy, hconnects, fun se hin => ?_⟩
    rcases List.mem_append.mp hin with hin | hin
    · exact ih.quiet se hin
    · cases result with
      | ok => cases hin
      | error stop =>
        rw [stops, List.mem_singleton] at hin
        exact hquiet se (congrArg Except.error hin.symm)

end sessions

/-- **Sockets are closed before they are connected**, and nothing leaves
`disconnect`, in every session in which no endpoint is tried after one that
failed and every socket that is to be closed can be. -/
theorem connects_closed {e : Engine} {t : List Event} {ss : List Stop}
    (h : Session .closing e t ss) :
    (∀ type o, .connect type o ∈ t → o = false) ∧ ∀ se, .threw (.errorCode se) ∉ ss :=
  ⟨(session_sound h).connects, (session_sound h).quiet⟩

/-- One transfer from an endpoint that can be disconnected. -/
theorem connects_closed_ok : ∃ result w,
    connect ⟨[], []⟩ (fun _ => okHop) 7 loopStart = some (result, w) ∧
      (∀ type o, .connect type o ∈ w.trace → o = false) ∧
        ∀ se, .threw (.errorCode se) ∉ stops result := by
  obtain ⟨⟨result, w⟩, hconnect⟩ := @connect_ends HttpResponse _ ⟨[], []⟩ (fun _ => okHop)
    loopStart rfl
  have hclosing (e : Engine) : okHop.Closing e := by
    refine ⟨fun a b rest h => ?_, rfl, fun se hse => ?_⟩
    · cases h
    · cases hse
  have hreset : Engine.new.Closes ⟨none, none⟩ := fun hopen => by cases hopen
  have hsession : Session .closing w.engine w.trace ([] ++ stops result) :=
    .transfer .start HttpResponse.new hreset rfl quietFlush_base loopStart.response ⟨[], []⟩
      (fun _ => okHop) (fun _ _ _ p _ => hclosing p.engine) hconnect
  exact ⟨result, w, hconnect, connects_closed hsession⟩

/-! ### Sessions with an open socket -/

/-- Two endpoints that refuse. -/
def refusing : Hop where
  resolve := .ok [{ Attempt.willing with connect := some ⟨.system, 111⟩ },
    { Attempt.willing with connect := some ⟨.system, 111⟩ }]
  send := none
  reads := fun _ => []
  buffer := fun _ => 0
  disconnection := ⟨none, none⟩

theorem refusing_connect : connect ⟨[], []⟩ (fun _ => refusing) 7 loopStart =
    some (.error (.threw .connectionException), ⟨(loopPrepared loopStart).engine.opened,
      (loopPrepared loopStart).response,
      [.query (str "a") (str "443"), .connect .sslHttps false, .connect .sslHttps true]⟩) :=
  connect_throws (send_stopped (loop_prepare rfl) rfl) 6

/-- A TLS shutdown that fails after a redirect. -/
def noisyHop : Hop := loopHop ⟨some ⟨.ssl, 1⟩, none⟩

theorem noisy_connect : ∃ w, connect ⟨[], []⟩ (fun _ => noisyHop) 7 loopStart =
    some (.error (.threw (.errorCode ⟨.ssl, 1⟩)), w) := by
  have hanswered := (loop_answered (w := loopStart) rfl rfl ⟨some ⟨.ssl, 1⟩, none⟩).1
  have hsend := send_answered hanswered (by decide) (by decide)
  have hlocation : loopHead.locals.tempheaders.find? (str "Location") = some loopUrl := by decide
  have hthrows := redirect_follow_throws noisyHop.disconnection
    (f := ⟨loopHead.locals, dialed noisyHop (loopPrepared loopStart).engine,
      (loopPrepared loopStart).sentResponse⟩) (by decide) hlocation
    (x := .errorCode ⟨.ssl, 1⟩) (by decide)
  rw [show loopHop ⟨some ⟨.ssl, 1⟩, none⟩ = noisyHop from rfl] at hsend
  rw [hthrows] at hsend
  exact ⟨_, connect_throws hsend 6⟩

theorem session_any {net : Network} {result : Except Stop Unit} {w : World HttpResponse}
    (h : connect ⟨[], []⟩ net 7 loopStart = some (result, w)) :
    Session .any w.engine w.trace (stops result) :=
  .transfer .start HttpResponse.new (d := ⟨none, none⟩) trivial rfl quietFlush_base
    loopStart.response ⟨[], []⟩ net (fun _ _ _ _ _ => trivial) h

/-- A second endpoint is tried on the open socket, and a failed TLS shutdown
leaves `disconnect`. -/
theorem connects_open :
    (∃ e t ss, Session .any e t ss ∧ .connect .sslHttps true ∈ t) ∧
      ∃ e t ss, Session .any e t ss ∧ .threw (.errorCode ⟨.ssl, 1⟩) ∈ ss := by
  obtain ⟨w, hnoisy⟩ := noisy_connect
  exact ⟨⟨_, _, _, session_any refusing_connect, by decide⟩,
    _, _, _, session_any hnoisy, List.mem_singleton.mpr rfl⟩

end Anetd
