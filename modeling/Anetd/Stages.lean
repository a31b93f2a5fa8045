import Anetd.Threads
import Anetd.Wire

/-!
# The order of what happens on the network

Each hop asks the resolver, connects, secures the connection if it is a TLS one,
through a proxy if there is one, and then writes its request; an endpoint that
fails is followed by the next one. `Stage.next` reads this order off a trace. No
program leaves it, however many transfers it runs (`trace_ordered`). So no
request gets on a TLS connection that has not been through its handshake, and no
callback is posted for a transfer whose last hop has not written its request.
-/

namespace Anetd

open Lib.Machine

/-- Where a hop is. -/
inductive Stage where
  | idle
  | queried
  | connected (type : HttpType)
  | commanded
  | secured (tunnelled : Bool)
  | requested
  | posted
  deriving DecidableEq

namespace Stage

/-- Whether an endpoint may be tried now: the first of the hop, or the next one
over the same transport. -/
def dials (type : HttpType) : Stage → Bool
  | queried => true
  | connected type' => type' = type
  | commanded | secured _ => type = .sslHttps
  | idle | requested | posted => false

/-- What may come next. A new hop can begin at any time: the last one may have failed. -/
def next (s : Stage) : Event → Except Unit Stage
  | .query _ _ => .ok queried
  | .connect type _ => if s.dials type then .ok (connected type) else .error ()
  | .command _ => if s = connected .sslHttps then .ok commanded else .error ()
  | .handshake =>
    match s with
    | connected .sslHttps => .ok (secured false)
    | commanded => .ok (secured true)
    | _ => .error ()
  | .request type _ =>
    match type, s with
    | .plainHttp, connected .plainHttp => .ok requested
    | .sslHttps, secured _ => .ok requested
    | _, _ => .error ()
  | .callback => if s = requested then .ok posted else .error ()

/-- The stage in which a request may be written. -/
def ready (type : HttpType) (tunnelled : Bool) : Stage :=
  match type with
  | .plainHttp => connected .plainHttp
  | .sslHttps => secured tunnelled

theorem ready_request (type : HttpType) (tunnelled : Bool) (text : Bytes) :
    (ready type tunnelled).next (.request type text) = .ok requested := by
  cases type <;> rfl

end Stage

open Stage

/-! ## The connection -/

/-- Steps that keep to the order and leave a hop where another endpoint may be
tried, or where its request may be written if they went well. -/
structure Orderly {α : Type} (type : HttpType) (tunnelled : Bool) (fine : α → Prop) (s : Stage)
    (steps : List Event × Except Stop α) : Prop where
  kept : ∃ s', run next s steps.1 = .ok s' ∧ s'.dials type = true ∧
    ∀ a, steps.2 = .ok a → fine a → s' = ready type tunnelled

variable {s : Stage}

/-- One endpoint. -/
theorem run_orderly (a : Attempt) {type : HttpType} (hs : s.dials type = true)
    (command : Option Bytes) (isOpen : Bool) :
    Orderly type command.isSome (fun _ => True) s (a.run type command isOpen) := by
  have hconnect : s.next (.connect type isOpen) = .ok (connected type) := by
    simp only [next, hs, if_true]
  have hself : (connected type).dials type = true := by simp [dials]
  obtain ⟨connect, write, memory, reply, handshake⟩ := a
  constructor
  cases connect with
  | some ec =>
    refine ⟨connected type, (run_singleton _ _ _).trans hconnect, hself, ?_⟩
    intro u hu
    cases hu
  | none =>
    cases type with
    | plainHttp => exact ⟨connected .plainHttp, (run_singleton _ _ _).trans hconnect, hself,
        fun _ _ _ => rfl⟩
    | sslHttps =>
      cases command with
      | none => exact ⟨secured false, run_cons_ok hconnect [.handshake], rfl, fun _ _ _ => rfl⟩
      | some text =>
        have hcommand : run next s [.connect .sslHttps isOpen, .command text] = .ok commanded :=
          run_cons_ok hconnect [.command text]
        cases write with
        | some ec =>
          refine ⟨commanded, hcommand, rfl, ?_⟩
          intro u hu
          cases hu
        | none =>
          cases hreply : (awaitProxy memory reply).1 with
          | error stop =>
            refine ⟨commanded, ?_, rfl, ?_⟩
            · simpa [Attempt.run, attempted, Steps.andThen, hreply] using hcommand
            · simp [Attempt.run, attempted, Steps.andThen, hreply]
          | ok =>
            refine ⟨secured true, ?_, rfl, fun _ _ _ => rfl⟩
            have hhandshake : run next s ([.connect .sslHttps isOpen, .command text] ++
                [.handshake]) = .ok (secured true) := run_append_ok hcommand [.handshake]
            simpa [Attempt.run, attempted, Steps.andThen, hreply] using hhandshake

/-- One endpoint after the other. -/
theorem tryEndpoints_orderly {type : HttpType} (command : Option Bytes) (hs : s.dials type = true)
    (isOpen : Bool) (attempts : List Attempt) :
    Orderly type command.isSome (· = true) s (tryEndpoints type command isOpen attempts) := by
  induction attempts generalizing isOpen s with
  | nil =>
    refine ⟨s, rfl, hs, ?_⟩
    intro connected hconnected hfine
    cases hconnected
    cases hfine
  | cons a rest ih =>
    obtain ⟨s₁, hrun, hdials, hready⟩ := run_orderly a hs command isOpen
    rw [tryEndpoints]
    split
    · rename_i events heq
      rw [heq] at hrun hready
      exact ⟨s₁, hrun, hdials, fun _ _ _ => hready () rfl trivial⟩
    · rename_i events ec heq
      rw [heq] at hrun
      obtain ⟨s₂, hrest, hdials', hready'⟩ := ih hdials true
      exact ⟨s₂, (run_append_ok hrun _).trans hrest, hdials', hready'⟩
    · rename_i events stop hstop heq
      rw [heq] at hrun
      refine ⟨s₁, hrun, hdials, ?_⟩
      intro connected hconnected
      cases hconnected

/-- The query and the connection, from wherever the hop before was left. -/
theorem dial_orderly {R : Type} (hop : Hop) (p : Prepared R) (s : Stage) :
    Orderly p.engine.httpType p.engine.command.isSome (fun _ => True) s (dial hop p) := by
  have hquery : s.next (.query p.target.host p.target.port) = .ok queried := rfl
  have hqueried : (queried : Stage).dials p.engine.httpType = true := rfl
  rw [dial]
  cases hop.resolve with
  | error ec =>
    refine ⟨queried, (run_singleton _ _ _).trans hquery, hqueried, ?_⟩
    intro u hu
    cases hu
  | ok attempts =>
    obtain ⟨s', hrun, hdials, hready⟩ :=
      tryEndpoints_orderly p.engine.command hqueried p.engine.isOpen attempts
    have hall := (run_cons_ok hquery _).trans hrun
    simp only [Steps.andThen]
    rcases htry : tryEndpoints p.engine.httpType p.engine.command p.engine.isOpen attempts with
      ⟨events, stop | connected⟩
    · rw [htry] at hall
      refine ⟨s', by simpa [htry] using hall, hdials, ?_⟩
      simp
    · rw [htry] at hall hready
      cases connected with
      | true => exact ⟨s', by simpa [htry] using hall, hdials, fun _ _ _ => hready true rfl rfl⟩
      | false =>
        refine ⟨s', by simpa [htry] using hall, hdials, ?_⟩
        simp

/-! ## Hops and transfers -/

section send
variable {R : Type} [ResponseClass R] {env : Environment}

/-- **A call of `send` keeps to the order**, and has written its request if it returns. -/
theorem send_orderly (env : Environment) (hop : Hop) (w : World R) (s : Stage) :
    ∃ events s', (send env hop w).2.trace = w.trace ++ events ∧ run next s events = .ok s' ∧
      ((∃ again, (send env hop w).1 = .ok again) → s' = requested) := by
  cases hp : prepare env w.engine w.response with
  | none =>
    refine ⟨[], s, ?_, rfl, ?_⟩
    · simp only [send, hp, List.append_nil]
    · rintro ⟨again, hagain⟩
      obtain ⟨p, hprepared, -⟩ := send_returned hagain
      cases hp.symm.trans hprepared
  | some p =>
    obtain ⟨s', hrun, -, hready⟩ := dial_orderly hop p s
    cases hdial : (dial hop p).2 with
    | error stop =>
      refine ⟨(dial hop p).1, s', ?_, hrun, ?_⟩
      · rw [send_stopped hp hdial]
      · rintro ⟨again, hagain⟩
        rw [send_stopped hp hdial] at hagain
        cases hagain
    | ok =>
      refine ⟨p.events hop, requested, send_trace hp hop, ?_, fun _ => rfl⟩
      rw [hready () hdial trivial] at hrun
      simp only [Prepared.events, hdial]
      refine (run_append_ok hrun _).trans ((run_singleton _ _ _).trans ?_)
      exact ready_request _ _ _

end send

namespace Program

section
variable {R : Type} {p q : Program R}

/-- The trace keeps to the order, and a thread that is about to post has written a request. -/
def Ordered (p : Program R) : Prop :=
  ∃ s, run next idle p.trace = .ok s ∧ (p.thread = .posting → s = requested)

theorem Ordered.same (h : p.Ordered) (htrace : q.trace = p.trace) (hthread : q.thread = p.thread) :
    q.Ordered := by
  rw [Ordered, htrace, hthread]
  exact h

variable [ResponseClass R] {env : Environment} {net : Network}

theorem Ordered.step (h : p.Ordered) {a : Act R} (hq : p.step env net a = .ok q) : q.Ordered := by
  cases a with
  | setCallback func | setProxyAuth username password | reset d | use object f =>
    obtain ⟨-, rfl⟩ := allow_eq_ok.mp hq
    exact h.same rfl rfl
  | starttransfer myresponse =>
    obtain ⟨-, rfl⟩ := allow_eq_ok.mp hq
    obtain ⟨s, hrun, -⟩ := h
    exact ⟨s, hrun, fun hposting => by cases hposting⟩
  | callback =>
    obtain ⟨-, res, rest, -, rfl⟩ := callback_cases hq
    exact h.same rfl rfl
  | thread =>
    obtain ⟨s, hrun, hposting⟩ := h
    rcases resume_cases hq with ⟨hthread, result, w, hsend, hresult⟩ | ⟨hthread, rfl⟩ |
      ⟨-, rfl⟩ | ⟨x, -, rfl⟩
    · obtain ⟨events, s', htrace, hevents, hreturned⟩ :=
        send_orderly env (net p.trace) p.world s
      rw [hsend] at htrace hreturned
      have hall : run next idle w.trace = .ok s' := by
        rw [htrace]
        exact (run_append_ok hrun events).trans hevents
      rcases hresult with ⟨rfl, rfl⟩ | ⟨rfl, rfl⟩ | ⟨stop, rfl, rfl⟩
      · exact ⟨s', hall, fun _ => hreturned ⟨true, rfl⟩⟩
      · exact ⟨s', hall, fun _ => hreturned ⟨false, rfl⟩⟩
      · refine ⟨s', hall, fun hposting => ?_⟩
        cases stop <;> cases hposting
    · refine ⟨posted, ?_, fun hposting => by cases hposting⟩
      rw [hposting hthread] at hrun
      exact run_append_ok hrun [.callback]
    · exact ⟨s, hrun, fun hposting => by cases hposting⟩
    · exact ⟨s, hrun, fun hposting => by cases hposting⟩

end

end Program

/-! ## What the order says of one event -/

namespace Stage

/-- The steps there are. -/
inductive Step : Stage → Event → Stage → Prop where
  | query (s : Stage) (host port : Bytes) : Step s (.query host port) queried
  | connect {s : Stage} {type : HttpType} (isOpen : Bool) (h : s.dials type = true) :
      Step s (.connect type isOpen) (connected type)
  | command (text : Bytes) : Step (connected .sslHttps) (.command text) commanded
  | handshake : Step (connected .sslHttps) .handshake (secured false)
  | tunnelHandshake : Step commanded .handshake (secured true)
  | request (type : HttpType) (tunnelled : Bool) (text : Bytes) :
      Step (ready type tunnelled) (.request type text) requested
  | callback : Step requested .callback posted

theorem next_cases {s t : Stage} {event : Event} (h : s.next event = .ok t) : Step s event t := by
  unfold next at h
  cases event with
  | query host port =>
    cases h
    exact .query s host port
  | connect type isOpen =>
    simp only at h
    split at h
    · rename_i hdials
      cases h
      exact .connect isOpen hdials
    · cases h
  | command text =>
    simp only at h
    split at h
    · rename_i hs
      cases h
      rw [hs]
      exact .command text
    · cases h
  | handshake =>
    simp only at h
    split at h
    · cases h
      exact .handshake
    · cases h
      exact .tunnelHandshake
    · cases h
  | request type text =>
    simp only at h
    split at h
    · cases h
      exact .request .plainHttp false text
    · cases h
      exact .request .sslHttps _ text
    · cases h
  | callback =>
    simp only at h
    split at h
    · rename_i hs
      cases h
      rw [hs]
      exact .callback
    · cases h

end Stage

section shape
variable {before after : List Event} {event : Event} {s : Stage}

/-- An event has found its stage. -/
theorem run_at (h : run next idle (before ++ event :: after) = .ok s) :
    ∃ t u, run next idle before = .ok t ∧ t.next event = .ok u := by
  obtain ⟨t, hbefore, hrest⟩ := run_append_eq_ok h
  cases hevent : t.next event with
  | error x =>
    rw [run_cons_error hevent] at hrest
    cases hrest
  | ok u => exact ⟨t, u, hbefore, hevent⟩

/-- A stage has been reached by an event. -/
theorem run_last (h : run next idle before = .ok s) (hs : s ≠ idle) :
    ∃ pre event t, before = pre ++ [event] ∧ run next idle pre = .ok t ∧ t.next event = .ok s := by
  rcases List.eq_nil_or_concat' before with rfl | ⟨pre, event, rfl⟩
  · cases h
    contradiction
  · obtain ⟨t, hpre, hevent⟩ := run_append_eq_ok h
    rw [run_singleton] at hevent
    exact ⟨pre, event, t, rfl, hpre, hevent⟩

theorem run_connected {type : HttpType} (h : run next idle before = .ok (connected type)) :
    ∃ pre isOpen, before = pre ++ [.connect type isOpen] := by
  obtain ⟨pre, event, t, rfl, -, hnext⟩ := run_last h (by simp)
  cases next_cases hnext with
  | connect isOpen hdials => exact ⟨pre, isOpen, rfl⟩

/-- Behind a connection, and perhaps a command to a proxy, the handshake. -/
inductive Handshaken : List Event → Prop where
  | direct (pre : List Event) (isOpen : Bool) :
      Handshaken (pre ++ [.connect .sslHttps isOpen, .handshake])
  | tunnelled (pre : List Event) (isOpen : Bool) (text : Bytes) :
      Handshaken (pre ++ [.connect .sslHttps isOpen, .command text, .handshake])

theorem run_secured {tunnelled : Bool} (h : run next idle before = .ok (secured tunnelled)) :
    Handshaken before := by
  obtain ⟨pre, event, t, rfl, hpre, hnext⟩ := run_last h (by simp)
  cases next_cases hnext with
  | handshake =>
    obtain ⟨pre, isOpen, rfl⟩ := run_connected hpre
    rw [List.append_assoc]
    exact .direct pre isOpen
  | tunnelHandshake =>
    obtain ⟨pre, event, t, rfl, hconnected, hcommand⟩ := run_last hpre (by simp)
    cases next_cases hcommand with
    | command text =>
      obtain ⟨pre, isOpen, rfl⟩ := run_connected hconnected
      rw [List.append_assoc, List.append_assoc]
      exact .tunnelled pre isOpen text

end shape

section ordered
variable {R : Type} [ResponseClass R] {env : Environment} {net : Network} {p : Program R}
variable {objects : Nat → R} {response : Nat} {acts : List (Act R)}

theorem ordered (h : run (Program.step env net) (.new objects response) acts = .ok p) :
    p.Ordered :=
  run_invariant (fun _ _ _ _ hp hq => Program.Ordered.step hp hq)
    ⟨idle, rfl, fun hposting => by cases hposting⟩ h

/-- **No program leaves the order.** So a request goes over TLS only right behind
the handshake on a connection that was made for it, in plain text only right
behind such a connection, and a callback is posted only when the request of the
last hop has been written. -/
theorem trace_ordered (h : run (Program.step env net) (.new objects response) acts = .ok p) :
    (∃ s, run next idle p.trace = .ok s) ∧
    (∀ before text after, p.trace = before ++ .request .sslHttps text :: after →
      Handshaken before) ∧
    (∀ before text after, p.trace = before ++ .request .plainHttp text :: after →
      ∃ pre isOpen, before = pre ++ [.connect .plainHttp isOpen]) ∧
    ∀ before after, p.trace = before ++ .callback :: after →
      ∃ pre type text, before = pre ++ [.request type text] := by
  obtain ⟨s, hrun, -⟩ := ordered h
  refine ⟨⟨s, hrun⟩, ?_, ?_, ?_⟩
  · intro before text after hsplit
    rw [hsplit] at hrun
    obtain ⟨t, u, hbefore, hnext⟩ := run_at hrun
    cases next_cases hnext with
    | request type tunnelled text => exact run_secured hbefore
  · intro before text after hsplit
    rw [hsplit] at hrun
    obtain ⟨t, u, hbefore, hnext⟩ := run_at hrun
    cases next_cases hnext with
    | request type tunnelled text => exact run_connected hbefore
  · intro before after hsplit
    rw [hsplit] at hrun
    obtain ⟨t, u, hbefore, hnext⟩ := run_at hrun
    cases next_cases hnext with
    | callback =>
      obtain ⟨pre, event, t, rfl, -, hlast⟩ := run_last hbefore (by simp)
      cases next_cases hlast with
      | request type tunnelled text => exact ⟨pre, type, text, rfl⟩

/-- The refused transfer has written its request behind a handshake. -/
theorem trace_ordered_refused :
    ∃ p, run (Program.step ⟨[], []⟩ Program.refusing) Program.fresh Program.refusedActs = .ok p ∧
      ∃ s, run next idle p.trace = .ok s := by
  obtain ⟨p, hrun, -⟩ := Program.refused_runs
  exact ⟨p, hrun, (trace_ordered hrun).1⟩

end ordered

end Anetd
