import Anetd.Conclusions
import Anetd.Sockets
import Anetd.Targets

/-!
# The completion callback

`connect` posts the callback behind its loop, so a call of `send` that does not
return keeps it from being posted (`posts_once_iff`). `HopReturns` says what a
call needs of its URL, its endpoints and the bytes it reads to return.
-/

namespace Anetd

section runs
variable {R : Type} [ResponseClass R] (env : Environment) (net : Network)

/-- A transfer ends, having posted the callback exactly once. -/
def PostsOnce (w : World R) : Prop :=
  ∃ calls result v events, connect env net calls w = some (result, v) ∧
    v.trace = w.trace ++ events ∧ events.count .callback = 1

variable {env net}

/-- No call of `send` posts it. -/
theorem send_posts_none (hop : Hop) (w : World R) :
    ∃ events, (send env hop w).2.trace = w.trace ++ events ∧ .callback ∉ events := by
  cases hp : prepare env w.engine w.response with
  | none => exact ⟨[], by simp [send, hp], by simp⟩
  | some p =>
    obtain ⟨events, hdial, hevents⟩ := dial_events hop p
    refine ⟨p.events hop, send_trace hp hop, ?_⟩
    rw [Prepared.events, hdial]
    intro hin
    rcases List.mem_append.mp hin with hin | hin
    · rcases List.mem_cons.mp hin with heq | hin
      · cases heq
      · cases hevents _ hin
    · split at hin <;> simp at hin

theorem sendLoop_posts_none {calls : Nat} {w v : World R} {result : Except Stop Unit}
    (h : sendLoop env net calls w = some (result, v)) :
    ∃ events, v.trace = w.trace ++ events ∧ .callback ∉ events := by
  apply sendLoop_rule (I := fun v => ∃ events, v.trace = w.trace ++ events ∧ .callback ∉ events)
    ?_ ⟨[], (List.append_nil _).symm, List.not_mem_nil⟩ h
  rintro u ⟨events, htrace, hnone⟩
  obtain ⟨later, hlater, hnone'⟩ := @send_posts_none R _ env (net u.trace) u
  refine ⟨events ++ later, by rw [hlater, htrace, List.append_assoc], ?_⟩
  rw [List.mem_append]
  exact not_or.mpr ⟨hnone, hnone'⟩

/-- The loop ends with the first call that does not follow a redirect. -/
theorem sendLoop_last {calls : Nat} {w v : World R} {result : Except Stop Unit}
    (h : sendLoop env net calls w = some (result, v)) :
    ∃ k w', Followed env net k w w' ∧
      ((result = .ok () ∧ send env (net w'.trace) w' = (.ok false, v)) ∨
        ∃ stop, result = .error stop ∧ send env (net w'.trace) w' = (.error stop, v)) := by
  induction calls generalizing w with
  | zero => cases h
  | succ calls ih =>
    rw [sendLoop] at h
    split at h
    · rename_i stop v' heq
      cases h
      exact ⟨0, w, .none w, .inr ⟨stop, rfl, heq⟩⟩
    · rename_i v' heq
      obtain ⟨k, w', hfollowed, hlast⟩ := ih h
      exact ⟨k + 1, w', .more heq hfollowed, hlast⟩
    · rename_i v' heq
      cases h
      exact ⟨0, w, .none w, .inl ⟨rfl, heq⟩⟩

/-- More calls than needed make no difference. -/
theorem sendLoop_more {calls : Nat} {w : World R} {x : Except Stop Unit × World R}
    (h : sendLoop env net calls w = some x) (k : Nat) :
    sendLoop env net (calls + k) w = some x := by
  induction calls generalizing w with
  | zero => cases h
  | succ calls ih =>
    rw [Nat.add_right_comm, sendLoop]
    rw [sendLoop] at h
    split at h
    · exact h
    · exact ih h
    · exact h

/-- Every loop ends. -/
theorem sendLoop_terminates (w : World R) :
    ∃ calls x, sendLoop env net calls w = some x := by
  by_cases hbound : w.engine.redirtimes ≤ 6
  · exact ⟨(7 - w.engine.redirtimes).toNat, sendLoop_ends hbound (by omega)⟩
  · refine ⟨1, sendLoop_ends_of fun v hsend => ?_⟩
    have hlow := (send_counted hsend).1
    omega

/-- **The callback is posted exactly once when every call returns**, and not at
all otherwise. -/
theorem posts_once_iff {w : World R} : PostsOnce env net w ↔
    ∀ k w', Followed env net k w w' → ∃ again, (send env (net w'.trace) w').1 = .ok again := by
  constructor
  · rintro ⟨calls, result, v, events, hconnect, htrace, hcount⟩ k w' hfollowed
    obtain ⟨⟨result', v'⟩, hloop, heq⟩ := Option.map_eq_some_iff.mp hconnect
    cases result' with
    | error stop =>
      cases heq
      obtain ⟨events', htrace', hnone⟩ := sendLoop_posts_none hloop
      have hsame : events = events' := List.append_cancel_left (htrace.symm.trans htrace')
      rw [hsame, List.count_eq_zero.mpr hnone] at hcount
      cases hcount
    | ok =>
      rcases hsend : send env (net w'.trace) w' with ⟨result', u⟩
      cases result' with
      | ok again => exact ⟨again, rfl⟩
      | error stop =>
        have hstop : sendLoop env net (calls + 1) w' = some (.error stop, u) := by
          rw [sendLoop, hsend]
        have hmore := sendLoop_more hloop (k + 1)
        have hsame : calls + (k + 1) = k + (calls + 1) := by omega
        rw [hsame, sendLoop_followed hfollowed, hstop] at hmore
        cases hmore
  · intro h
    obtain ⟨calls, ⟨result, v⟩, hloop⟩ := @sendLoop_terminates R _ env net w
    obtain ⟨k, w', hfollowed, ⟨rfl, -⟩ | ⟨stop, -, hsend⟩⟩ := sendLoop_last hloop
    · obtain ⟨events, htrace, hnone⟩ := sendLoop_posts_none hloop
      refine ⟨calls, .ok (), { v with trace := v.trace ++ [.callback] }, events ++ [.callback],
        ?_, ?_, ?_⟩
      · rw [connect, hloop]
        rfl
      · simp only [htrace, List.append_assoc]
      · rw [List.count_append, List.count_eq_zero.mpr hnone]
        rfl
    · obtain ⟨again, hagain⟩ := h k w' hfollowed
      rw [hsend] at hagain
      cases hagain

end runs

/-! ## Endpoints that connect -/

/-- One endpoint accepts: the connect, and over TLS the command to a proxy, with
its reply, and the handshake. -/
def Attempt.Accepts (a : Attempt) (type : HttpType) (command : Option Bytes) : Prop :=
  a.connect = none ∧ (type = .sslHttps → a.handshake = none ∧
    ∀ text, command = some text → a.command = none ∧ (awaitProxy a.memory a.reply).1 = .ok ())

theorem run_ok_iff (a : Attempt) (type : HttpType) (command : Option Bytes) (isOpen : Bool) :
    (a.run type command isOpen).2 = .ok () ↔ a.Accepts type command := by
  obtain ⟨connect, write, memory, reply, handshake⟩ := a
  cases connect with
  | some ec => simp [Attempt.Accepts, Attempt.run, attempted, Steps.andThen]
  | none =>
    cases type with
    | plainHttp => simp [Attempt.Accepts, Attempt.run, attempted, Steps.andThen]
    | sslHttps =>
      cases command with
      | none => cases handshake <;> simp [Attempt.Accepts, Attempt.run, attempted, Steps.andThen]
      | some text =>
        cases write with
        | some ec => simp [Attempt.Accepts, Attempt.run, attempted, Steps.andThen]
        | none =>
          cases hreply : (awaitProxy memory reply).1 with
          | error stop => simp [Attempt.Accepts, Attempt.run, attempted, Steps.andThen, hreply]
          | ok =>
            cases handshake <;>
              simp [Attempt.Accepts, Attempt.run, attempted, Steps.andThen, hreply]

/-- Some endpoint accepts, and those before it fail with a `system_error`. -/
def Connects (type : HttpType) (command : Option Bytes) (attempts : List Attempt) : Prop :=
  ∃ before a after, attempts = before ++ a :: after ∧ (∀ b ∈ before, b.Fails type command) ∧
    a.Accepts type command

theorem tryEndpoints_ok_iff (type : HttpType) (command : Option Bytes) (isOpen : Bool)
    (attempts : List Attempt) :
    (tryEndpoints type command isOpen attempts).2 = .ok true ↔ Connects type command attempts := by
  induction attempts generalizing isOpen with
  | nil => simp [tryEndpoints, Connects]
  | cons a rest ih =>
    have hok := run_ok_iff a type command isOpen
    have hfails := run_fails_iff a type command isOpen
    -- the first endpoint accepts, or it fails and another one accepts
    have hcons : Connects type command (a :: rest) ↔
        a.Accepts type command ∨ a.Fails type command ∧ Connects type command rest := by
      constructor
      · rintro ⟨before, b, after, hsplit, hbefore, hb⟩
        cases before with
        | nil =>
          obtain ⟨rfl, rfl⟩ := List.cons.inj hsplit
          exact .inl hb
        | cons c before =>
          obtain ⟨rfl, rfl⟩ := List.cons.inj hsplit
          obtain ⟨hc, hothers⟩ := List.forall_mem_cons.mp hbefore
          exact .inr ⟨hc, before, b, after, rfl, hothers, hb⟩
      · rintro (ha | ⟨ha, before, b, after, rfl, hbefore, hb⟩)
        · exact ⟨[], a, rest, rfl, by simp, ha⟩
        · exact ⟨a :: before, b, after, rfl, List.forall_mem_cons.mpr ⟨ha, hbefore⟩, hb⟩
    rw [hcons, ← hok, ← hfails, tryEndpoints]
    split
    · rename_i events heq
      simp [heq]
    · rename_i events ec heq
      simp [heq, ih]
    · rename_i events stop hstop heq
      have hnot (ec : ErrorCode) : stop ≠ .threw (.systemError ec) := hstop ec
      simp [heq, hnot]

theorem dial_ok_iff {R : Type} (hop : Hop) (p : Prepared R) : (dial hop p).2 = .ok () ↔
    ∃ attempts, hop.resolve = .ok attempts ∧
      Connects p.engine.httpType p.engine.command attempts := by
  cases hresolve : hop.resolve with
  | error ec => simp [dial, hresolve, Steps.andThen]
  | ok attempts =>
    have htry := tryEndpoints_ok_iff p.engine.httpType p.engine.command p.engine.isOpen attempts
    simp only [dial, hresolve, Steps.andThen, Except.ok.injEq, exists_eq_left', ← htry]
    rcases tryEndpoints p.engine.httpType p.engine.command p.engine.isOpen attempts with
      ⟨events, stop | connected⟩
    · simp
    · cases connected <;> simp

/-! ## Calls that return -/

section returns
variable {R : Type} [ResponseClass R] [Draining R]

/-- What is read lets a call return: it does not make it throw, and it concludes
it or is followed by the end of the stream. -/
def ReadsReturn (d : Disconnection) (e : Engine) (r : R) (ps : List Bytes × Option Exn) : Prop :=
  ∃ c, Concludes d e r ps.1 c ∧ (c.returns = none → ps.2 = some (.systemError .eof))

/-- What a call of `send` needs to return: a URL it can index, an endpoint that
accepts, a request that can be written, and a response it can read. -/
structure HopReturns (env : Environment) (hop : Hop) (w : World R) : Prop where
  accepted : ReadsExisting env (base w.response).url
  connected : ∀ p, prepare env w.engine w.response = some p → ∃ attempts,
    hop.resolve = .ok attempts ∧ Connects p.engine.httpType p.engine.command attempts
  written : hop.send = none
  read : ∀ p, prepare env w.engine w.response = some p →
    ReadsReturn hop.disconnection (dialed hop p.engine) p.sentResponse
      (pieces p.engine.httpType (hop.reads p.request) (hop.buffer 0))

variable [LawfulResponse R]

theorem leftTo_returns_iff (ending : Option Exn) :
    (∃ again, leftTo ending = .ok again) ↔ ending = some (.systemError .eof) := by
  cases ending with
  | none => simp [leftTo]
  | some x => by_cases hx : x = .systemError .eof <;> simp [leftTo, hx]

theorem receive_returns_iff (d : Disconnection) (os : List (Read 2048)) (buffer : Buffer)
    (e : Engine) (r : R) : (∃ again, (receive d os buffer e r).1.result = .ok again) ↔
      ReadsReturn d e r (pieces e.httpType os (buffer 0)) := by
  rw [receive_turns]
  generalize pieces e.httpType os (buffer 0) = ps
  constructor
  · rintro ⟨again, hagain⟩
    rcases concludes_or_throws d e r ps.1 ps.2 with ⟨c, hc⟩ | ⟨x, hx⟩
    · refine ⟨c, hc, fun hleft => (leftTo_returns_iff ps.2).mp ⟨again, ?_⟩⟩
      have hresult := (hc.shows ps.2).result
      rwa [hleft, Option.elim_none, hagain, eq_comm] at hresult
    · rw [hagain] at hx
      cases hx
  · rintro ⟨c, hc, heof⟩
    rw [(hc.shows ps.2).result]
    cases hreturns : c.returns with
    | none => exact (leftTo_returns_iff ps.2).mpr (heof hreturns)
    | some again => exact ⟨again, rfl⟩

theorem send_returns_iff (env : Environment) (hop : Hop) (w : World R) :
    (∃ again, (send env hop w).1 = .ok again) ↔ HopReturns env hop w := by
  have haccepted := prepare_isSome env w.engine w.response
  have hread (p : Prepared R) := receive_returns_iff hop.disconnection (hop.reads p.request)
    hop.buffer (dialed hop p.engine) p.sentResponse
  have htype (p : Prepared R) : (dialed hop p.engine).httpType = p.engine.httpType := by
    rw [dialed_fields]
  constructor
  · rintro ⟨again, hagain⟩
    obtain ⟨p, hp, hdial, hsent⟩ := send_returned hagain
    have hsame {q : Prepared R} (hq : prepare env w.engine w.response = some q) :
        p = q := Option.some.inj (hp.symm.trans hq)
    rw [send_received hp hdial hsent] at hagain
    have hreads := (hread p).mp ⟨again, hagain⟩
    rw [htype p] at hreads
    refine ⟨haccepted.mp (by rw [hp]; rfl), fun q hq => ?_, hsent, fun q hq => ?_⟩
    · rw [← hsame hq]
      exact (dial_ok_iff hop p).mp hdial
    · rw [← hsame hq]
      exact hreads
  · intro h
    obtain ⟨p, hp⟩ := Option.isSome_iff_exists.mp (haccepted.mpr h.accepted)
    have hdial := (dial_ok_iff hop p).mpr (h.connected p hp)
    have hreads := h.read p hp
    rw [← htype p] at hreads
    rw [send_received hp hdial h.written]
    exact (hread p).mpr hreads

end returns

end Anetd
