import Anetd.Response

/-!
# The engine object

The fields of `http_engine`, the sockets reduced to whether they are open,
`reset` and `disconnect`. The members `status` and `description` are shadowed
by locals wherever a function would use them, and are left out.
-/

namespace Anetd

inductive HttpProxy where
  | none
  | httpProxy
  | httpsProxy
  deriving DecidableEq, Repr

inductive HttpType where
  | plainHttp
  | sslHttps
  deriving DecidableEq, Repr

/-- The state of an `http_engine`. The count of redirects is an `int`, which grows
by one with each of them; here it does not overflow. -/
structure Engine where
  method : Bytes
  host : Bytes
  url : Bytes
  targeturl : Bytes
  version : Bytes
  arguments : StringMap
  proxyauth : Bytes × Bytes
  body : Bytes
  redirtimes : Int
  httpProxy : HttpProxy
  httpType : HttpType
  socketOpen : Bool
  sslsocketOpen : Bool
  deriving DecidableEq

/-- How the socket answers the shutdown and the close of one `disconnect`. -/
structure Disconnection where
  shutdown : Option ErrorCode
  close : Option ErrorCode
  deriving DecidableEq

namespace Engine

/-- `http_engine::disconnect`. A `system_error` is caught and logged; the bare
`error_code` thrown for a failed TLS shutdown is not a `system_error` and
escapes. -/
def disconnect (e : Engine) (d : Disconnection) : Engine × Option Exn :=
  match e.httpType with
  | .plainHttp =>
    if e.socketOpen then
      match d.shutdown, d.close with
      | none, none => ({ e with socketOpen := false }, none)
      | _, _ => (e, none)
    else (e, none)
  | .sslHttps =>
    if e.sslsocketOpen then
      match d.shutdown with
      | some se =>
        if se.sslFailure then (e, some (.errorCode se)) else closeLowest e d.close
      | none => closeLowest e d.close
    else (e, none)
where
  /-- `sslsocket.lowest_layer().close()` under the handler. -/
  closeLowest (e : Engine) : Option ErrorCode → Engine × Option Exn
    | none => ({ e with sslsocketOpen := false }, none)
    | some _ => (e, none)

/-- The assignments of `http_engine::reset` after its `disconnect`. -/
def clearFields (e : Engine) : Engine :=
  { e with
    method := str "GET"
    url := str "/"
    host := []
    version := str "HTTP/1.0"
    arguments := ∅
    httpProxy := .none
    httpType := .plainHttp
    redirtimes := 0 }

/-- `http_engine::reset`: an exception of `disconnect` leaves the rest undone. -/
def reset {R : Type} [ResponseClass R] (e : Engine) (r : R) (d : Disconnection) :
    Except Exn Unit × Engine × R :=
  match e.disconnect d with
  | (e, some x) => (.error x, e, r)
  | (e, none) => (.ok (), e.clearFields, ResponseClass.reset r)

/-- The constructor: sockets that were never opened, then `reset`. -/
def new : Engine :=
  clearFields ⟨[], [], [], [], [], ∅, ([], []), [], 0, .none, .plainHttp, false, false⟩

end Engine

/-- An engine just constructed, or just `reset` without an exception. -/
inductive JustReset : Engine → Prop where
  | constructed : JustReset .new
  | reset (e : Engine) (d : Disconnection) (h : (e.disconnect d).2 = none) :
      JustReset (e.disconnect d).1.clearFields

theorem JustReset.redirtimes {e : Engine} (h : JustReset e) : e.redirtimes = 0 := by
  cases h <;> rfl

theorem JustReset.httpProxy {e : Engine} (h : JustReset e) : e.httpProxy = .none := by
  cases h <;> rfl

theorem JustReset.httpType {e : Engine} (h : JustReset e) : e.httpType = .plainHttp := by
  cases h <;> rfl

theorem JustReset.arguments {e : Engine} (h : JustReset e) : e.arguments = ∅ := by
  cases h <;> rfl

namespace Engine

/-- Whether the socket of the transport is open. -/
def isOpen (e : Engine) : Bool :=
  match e.httpType with
  | .plainHttp => e.socketOpen
  | .sslHttps => e.sslsocketOpen

/-- A connect opens the socket, and leaves it open when it fails. -/
def opened (e : Engine) : Engine :=
  match e.httpType with
  | .plainHttp => { e with socketOpen := true }
  | .sslHttps => { e with sslsocketOpen := true }

/-- The engine with that socket closed. -/
def closed (e : Engine) : Engine :=
  match e.httpType with
  | .plainHttp => { e with socketOpen := false }
  | .sslHttps => { e with sslsocketOpen := false }

end Engine

/-- Whether a socket that is open gets closed, and what escapes. -/
def Disconnection.answer (d : Disconnection) : HttpType → Bool × Option Exn
  | .plainHttp => (d.shutdown.isNone && d.close.isNone, none)
  | .sslHttps =>
    match d.shutdown with
    | some se => if se.sslFailure then (false, some (.errorCode se)) else (d.close.isNone, none)
    | none => (d.close.isNone, none)

namespace Engine

variable (e : Engine) (d : Disconnection)

/-- **All that `disconnect` does** is to close the socket of the transport. -/
theorem disconnect_eq : e.disconnect d =
    if e.isOpen then
      (if (d.answer e.httpType).1 then e.closed else e, (d.answer e.httpType).2)
    else (e, none) := by
  obtain ⟨shutdown, close⟩ := d
  obtain ⟨_, _, _, _, _, _, _, _, _, _, type, socketOpen, sslsocketOpen⟩ := e
  cases type with
  | plainHttp => cases socketOpen <;> cases shutdown <;> cases close <;> rfl
  | sslHttps =>
    cases shutdown with
    | none => cases sslsocketOpen <;> cases close <;> rfl
    | some se =>
      simp only [disconnect, isOpen, Disconnection.answer]
      cases se.sslFailure <;> cases sslsocketOpen <;> cases close <;> rfl

/-- `disconnect` touches nothing but the sockets. -/
theorem disconnect_fields :
    (e.disconnect d).1 = { e with
      socketOpen := (e.disconnect d).1.socketOpen
      sslsocketOpen := (e.disconnect d).1.sslsocketOpen } := by
  rw [disconnect_eq]
  split
  · simp only
    split
    · unfold closed
      split <;> rfl
    · rfl
  · rfl

/-- The TLS shutdown fails in the way `disconnect` does not handle. -/
def ShutdownFails : Prop :=
  e.httpType = .sslHttps ∧ e.sslsocketOpen = true ∧
    ∃ se, d.shutdown = some se ∧ se.sslFailure = true

/-- **What escapes from `disconnect`**: the error code of a failed TLS
shutdown, and nothing else. -/
theorem disconnect_throws (h : e.ShutdownFails d) :
    ∃ se, (e.disconnect d).2 = some (.errorCode se) := by
  obtain ⟨htype, hopen, se, hse, hfails⟩ := h
  exact ⟨se, by simp only [disconnect, htype, hopen, hse, hfails, if_true]⟩

theorem disconnect_quiet (h : ¬ e.ShutdownFails d) : (e.disconnect d).2 = none := by
  unfold disconnect
  split
  · split
    · split <;> rfl
    · rfl
  · rename_i htype
    split
    · rename_i hopen
      split
      · rename_i se hse
        split
        · rename_i hfails
          exact absurd ⟨htype, hopen, se, hse, hfails⟩ h
        · unfold disconnect.closeLowest; split <;> rfl
      · unfold disconnect.closeLowest; split <;> rfl
    · rfl

theorem disconnect_exn {x : Exn} (hx : (e.disconnect d).2 = some x) :
    ∃ se, x = .errorCode se := by
  by_cases hfails : e.ShutdownFails d
  · obtain ⟨se, hse⟩ := e.disconnect_throws d hfails
    rw [hse] at hx
    exact ⟨se, (Option.some.inj hx).symm⟩
  · rw [e.disconnect_quiet d hfails] at hx
    cases hx

end Engine

end Anetd
