import Anetd.Threads
import Anetd.Wire

/-!
# Endpoints that refuse

A host may have several endpoints, and `send` tries one after the other. Those
that refuse to be connected to cost nothing but the attempt: with them and
without them a program runs alike, whatever is done while its transfers run
(`Program.failover_transparent`).
-/

namespace Anetd

open Lib.Machine

/-- Endpoints without some of those that refuse. -/
inductive Thinned : List Attempt → List Attempt → Prop where
  | nil : Thinned [] []
  | keep (a : Attempt) {as bs : List Attempt} (h : Thinned as bs) : Thinned (a :: as) (a :: bs)
  | drop {a : Attempt} {ec : ErrorCode} (refuses : a.connect = some ec) {as bs : List Attempt}
      (h : Thinned as bs) : Thinned (a :: as) bs

/-- **The first endpoint that does not fail is the same.** -/
theorem tryEndpoints_thinned {as bs : List Attempt} (h : Thinned as bs) (type : HttpType)
    (command : Option Bytes) (o o' : Bool) :
    (tryEndpoints type command o as).2 = (tryEndpoints type command o' bs).2 := by
  induction h generalizing o o' with
  | nil => rfl
  | keep a h ih =>
    obtain ⟨-, hresult⟩ := run_wire a type command o o'
    rw [tryEndpoints, tryEndpoints]
    rcases hrun : a.run type command o with ⟨events, result⟩
    rcases hrun' : a.run type command o' with ⟨events', result'⟩
    rw [hrun, hrun'] at hresult
    obtain rfl : result = result' := hresult
    cases result with
    | ok u => rfl
    | error stop =>
      cases stop with
      | threw x =>
        cases x with
        | systemError ec => exact ih true true
        | _ => rfl
      | _ => rfl
  | @drop a ec refuses as bs h ih =>
    have hrun : a.run type command o =
        ([.connect type o], .error (.threw (.systemError ec))) := by
      simp only [Attempt.run, refuses, attempted, Steps.andThen]
    rw [tryEndpoints, hrun]
    exact ih true o'

/-- The same hop without some endpoints that refuse; one is left, if there was one. -/
structure Hop.Thinned (a b : Hop) : Prop where
  resolve : a.resolve = b.resolve ∨ ∃ as bs, a.resolve = .ok as ∧ b.resolve = .ok bs ∧ bs ≠ [] ∧
    Anetd.Thinned as bs
  send : a.send = b.send
  reads : a.reads = b.reads
  buffer : a.buffer = b.buffer
  disconnection : a.disconnection = b.disconnection

/-! ## Refused connects in a past -/

def Event.connects : Event → Bool
  | .connect _ _ => true
  | _ => false

/-- What is done on a connection only. -/
def Event.onConnection : Event → Bool
  | .command _ | .handshake | .request _ _ => true
  | _ => false

/-- A past without the connects that were refused, which are those that nothing
is done on, as the other side sees it. -/
def unrefused : List Event → List Event
  | [] => []
  | event :: rest =>
    if event.connects ∧ ¬ rest.head?.any Event.onConnection then unrefused rest
    else event.wire :: unrefused rest

theorem unrefused_append (t : List Event) {events : List Event}
    (h : events.head?.any Event.onConnection = false) :
    unrefused (t ++ events) = unrefused t ++ unrefused events := by
  induction t with
  | nil => rfl
  | cons event rest ih =>
    have hhead : (rest ++ events).head?.any Event.onConnection =
        rest.head?.any Event.onConnection := by
      cases rest with
      | nil => exact h
      | cons => rfl
    rw [List.cons_append, unrefused, unrefused, hhead, ih]
    split <;> rfl

/-- Other events stay. -/
theorem unrefused_other {event : Event} (h : event.connects = false) (rest : List Event) :
    unrefused (event :: rest) = event.wire :: unrefused rest := by
  rw [unrefused, if_neg (by simp [h])]

/-- A connect on which something is done stays. -/
theorem unrefused_connected (type : HttpType) (o : Bool) {event : Event}
    (h : event.onConnection = true) (rest : List Event) :
    unrefused (.connect type o :: event :: rest) =
      .connect type false :: unrefused (event :: rest) := by
  rw [unrefused, if_neg (by simp [h])]
  rfl

theorem unrefused_refused (type : HttpType) (o : Bool) {rest : List Event}
    (h : rest.head?.any Event.onConnection = false) :
    unrefused (.connect type o :: rest) = unrefused rest := by
  rw [unrefused, if_pos (by simp [h, Event.connects])]

/-- Whether the socket was open does not show. -/
theorem unrefused_open (type : HttpType) (o o' : Bool) (rest : List Event) :
    unrefused (.connect type o :: rest) = unrefused (.connect type o' :: rest) := by
  rw [unrefused, unrefused]
  rfl

/-- What is done on a connection stays. -/
theorem unrefused_on {events : List Event} (h : ∀ event ∈ events, event.onConnection = true)
    (rest : List Event) :
    unrefused (events ++ rest) = events.map Event.wire ++ unrefused rest := by
  induction events with
  | nil => rfl
  | cons event events ih =>
    obtain ⟨hevent, hevents⟩ := List.forall_mem_cons.mp h
    have hother : event.connects = false := by
      cases event <;> first | rfl | cases hevent
    rw [List.cons_append, unrefused_other hother, ih hevents]
    rfl

/-! ## One call of `send` -/

/-- An attempt is a connect, and what is done on the connection. -/
theorem run_shape (a : Attempt) (type : HttpType) (command : Option Bytes) :
    ∃ tail result, (∀ event ∈ tail, event.onConnection = true) ∧
      ∀ o, a.run type command o = (.connect type o :: tail, result) := by
  obtain ⟨connect, write, memory, reply, handshake⟩ := a
  cases connect with
  | some ec => exact ⟨[], _, by simp, fun o => rfl⟩
  | none =>
    cases type with
    | plainHttp => exact ⟨[], _, by simp, fun o => rfl⟩
    | sslHttps =>
      cases command with
      | none => exact ⟨[.handshake], _, by simp [Event.onConnection], fun o => rfl⟩
      | some text =>
        cases write with
        | some ec => exact ⟨[.command text], _, by simp [Event.onConnection], fun o => rfl⟩
        | none =>
          cases hreply : (awaitProxy memory reply).1 with
          | error stop =>
            refine ⟨[.command text], .error stop, by simp [Event.onConnection], fun o => ?_⟩
            simp only [Attempt.run, attempted, Steps.andThen, hreply, List.append_nil,
              List.singleton_append]
          | ok =>
            refine ⟨[.command text, .handshake], attempted handshake,
              by simp [Event.onConnection], fun o => ?_⟩
            simp only [Attempt.run, attempted, Steps.andThen, hreply, List.append_nil,
              List.cons_append, List.nil_append]

section endpoints
variable {type : HttpType} {command : Option Bytes} {post : List Event}

/-- The attempts begin with a connect, if there are any. -/
theorem tryEndpoints_head {o : Bool} {as : List Attempt}
    (hpost : post.head?.any Event.onConnection = true ↔
      (tryEndpoints type command o as).2 = .ok true) :
    ((tryEndpoints type command o as).1 ++ post).head?.any Event.onConnection = false := by
  cases as with
  | nil =>
    rw [← Bool.not_eq_true]
    exact fun hany => nomatch hpost.mp hany
  | cons a rest =>
    obtain ⟨tail, result, -, hrun⟩ := run_shape a type command
    rw [tryEndpoints, hrun]
    rcases result with (x | _ | _) | _
    · cases x <;> rfl
    all_goals rfl

/-- **With what is done behind them the attempts are the same**, those apart
that are refused. -/
theorem tryEndpoints_unrefused {as bs : List Attempt} (h : Thinned as bs) (o o' : Bool)
    (hpost : post.head?.any Event.onConnection = true ↔
      (tryEndpoints type command o as).2 = .ok true) :
    unrefused ((tryEndpoints type command o as).1 ++ post) =
      unrefused ((tryEndpoints type command o' bs).1 ++ post) := by
  induction h generalizing o o' with
  | nil => rfl
  | @keep a as bs h ih =>
    obtain ⟨tail, result, htail, hrun⟩ := run_shape a type command
    have hagain := tryEndpoints_thinned h type command true true
    rw [tryEndpoints, hrun] at hpost
    rw [tryEndpoints, tryEndpoints, hrun, hrun]
    rcases result with (x | _ | _) | _
    · by_cases hx : ∃ ec, x = .systemError ec
      · obtain ⟨ec, rfl⟩ := hx
        have hpost' : post.head?.any Event.onConnection = true ↔
            (tryEndpoints type command true bs).2 = .ok true := by
          rw [← hagain]
          exact hpost
        have hsame := ih true true hpost
        simp only [List.cons_append, List.append_assoc]
        cases tail with
        | nil =>
          rw [List.nil_append, List.nil_append, unrefused_refused type o (tryEndpoints_head hpost),
            unrefused_refused type o' (tryEndpoints_head hpost'), hsame]
        | cons event tail =>
          have hevent := (List.forall_mem_cons.mp htail).1
          rw [List.cons_append, List.cons_append, unrefused_connected type o hevent,
            unrefused_connected type o' hevent, ← List.cons_append, ← List.cons_append,
            unrefused_on htail, unrefused_on htail, hsame]
      · cases x <;> first | exact unrefused_open type o o' _ | exact absurd ⟨_, rfl⟩ hx
    all_goals exact unrefused_open type o o' _
  | @drop a ec refuses as bs h ih =>
    have hrun : a.run type command o =
        ([.connect type o], .error (.threw (.systemError ec))) := by
      simp only [Attempt.run, refuses, attempted, Steps.andThen]
    rw [tryEndpoints, hrun] at hpost
    rw [tryEndpoints, hrun]
    exact (unrefused_refused type o (tryEndpoints_head hpost)).trans (ih true o' hpost)

end endpoints

/-- A call whose name has been resolved. -/
theorem dial_resolved {R : Type} {hop : Hop} {attempts : List Attempt}
    (h : hop.resolve = .ok attempts) (p : Prepared R) :
    let tried := tryEndpoints p.engine.httpType p.engine.command p.engine.isOpen attempts
    (dial hop p).1 = .query p.target.host p.target.port :: tried.1 ∧
      ((dial hop p).2 = .ok () ↔ tried.2 = .ok true) := by
  simp only [dial, h, Steps.andThen]
  rcases tryEndpoints p.engine.httpType p.engine.command p.engine.isOpen attempts with
    ⟨events, stop | connected⟩
  · simp
  · cases connected <;> simp

theorem events_eq_if {R : Type} [ResponseClass R] (p : Prepared R) (hop : Hop) :
    p.events hop = (dial hop p).1 ++
      if (dial hop p).2 = .ok () then [.request p.engine.httpType p.request] else [] := by
  rw [Prepared.events]
  cases (dial hop p).2 <;> rfl

section hop
variable {a b : Hop} (h : a.Thinned b)
include h

theorem dialed_thinned (e : Engine) : dialed a e = dialed b e := by
  unfold dialed
  rcases h.resolve with hsame | ⟨as, bs, has, hbs, hne, hthinned⟩
  · rw [hsame]
  · rw [has, hbs]
    cases hthinned with
    | nil => exact absurd rfl hne
    | keep => rfl
    | drop =>
      cases bs with
      | nil => exact absurd rfl hne
      | cons => rfl

theorem dial_thinned {R : Type} (p : Prepared R) : (dial a p).2 = (dial b p).2 := by
  rcases h.resolve with hsame | ⟨as, bs, has, hbs, -, hthinned⟩
  · rw [dial, dial, hsame]
  · have htry := tryEndpoints_thinned hthinned p.engine.httpType p.engine.command
      p.engine.isOpen p.engine.isOpen
    rw [dial, dial, has, hbs]
    rcases hfirst : tryEndpoints p.engine.httpType p.engine.command p.engine.isOpen as with
      ⟨events, result⟩
    rcases hsecond : tryEndpoints p.engine.httpType p.engine.command p.engine.isOpen bs with
      ⟨events', result'⟩
    rw [hfirst, hsecond] at htry
    obtain rfl : result = result' := htry
    cases result with
    | error stop => simp only [hfirst, hsecond, Steps.andThen]
    | ok connected => cases connected <;> simp only [hfirst, hsecond, Steps.andThen]

/-- The whole call shows the same. -/
theorem events_thinned {R : Type} [ResponseClass R] (p : Prepared R) :
    unrefused (p.events a) = unrefused (p.events b) := by
  have hdial := dial_thinned h p
  rcases h.resolve with hsame | ⟨as, bs, has, hbs, -, hthinned⟩
  · have hevents : (dial a p).1 = (dial b p).1 := by rw [dial, dial, hsame]
    rw [Prepared.events, Prepared.events, hevents, hdial]
  · obtain ⟨hfirst, hok⟩ := dial_resolved has p
    obtain ⟨hsecond, -⟩ := dial_resolved hbs p
    rw [events_eq_if, events_eq_if, ← hdial, hfirst, hsecond]
    generalize hpost : (if (dial a p).2 = .ok () then
      [Event.request p.engine.httpType p.request] else []) = post
    have hdone : post.head?.any Event.onConnection = true ↔ (dial a p).2 = .ok () := by
      rw [← hpost]
      split
      · rename_i hok
        exact iff_of_true rfl hok
      · rename_i hnot
        exact iff_of_false Bool.false_ne_true hnot
    rw [List.cons_append, List.cons_append, unrefused_other rfl, unrefused_other rfl,
      tryEndpoints_unrefused hthinned _ p.engine.isOpen (hdone.trans hok)]

end hop

section world
variable {R : Type} [ResponseClass R]

/-- Worlds that differ in connects that were refused. -/
structure World.Alike (w v : World R) : Prop where
  engine : w.engine = v.engine
  response : w.response = v.response
  trace : unrefused w.trace = unrefused v.trace

/-- A call does the same with them and without them. -/
theorem send_thinned (env : Environment) {a b : Hop} (h : a.Thinned b) {w v : World R}
    (halike : w.Alike v) :
    (send env a w).1 = (send env b v).1 ∧ (send env a w).2.Alike (send env b v).2 := by
  obtain ⟨hengine, hresponse, htrace⟩ := halike
  cases hp : prepare env w.engine w.response with
  | none =>
    have hq : prepare env v.engine v.response = none := by rw [← hengine, ← hresponse, hp]
    simp only [send, hp, hq]
    exact ⟨trivial, hengine, hresponse, htrace⟩
  | some p =>
    have hq : prepare env v.engine v.response = some p := by rw [← hengine, ← hresponse, hp]
    have hresult := dial_thinned h p
    have hdialed := dialed_thinned h p.engine
    have hfirst (hop : Hop) : (p.events hop).head?.any Event.onConnection = false := by
      obtain ⟨events, hevents, -⟩ := dial_events hop p
      rw [Prepared.events, hevents]
      rfl
    have htraces : unrefused (send env a w).2.trace = unrefused (send env b v).2.trace := by
      rw [send_trace hp, send_trace hq, unrefused_append _ (hfirst a),
        unrefused_append _ (hfirst b), htrace, events_thinned h p]
    cases hdial : (dial b p).2 with
    | error stop =>
      rw [send_stopped hp (hresult.trans hdial), send_stopped hq hdial] at htraces ⊢
      exact ⟨rfl, hdialed, rfl, htraces⟩
    | ok =>
      cases hsent : b.send with
      | some ec =>
        rw [send_unsent hp (hresult.trans hdial) (h.send.trans hsent),
          send_unsent hq hdial hsent] at htraces ⊢
        exact ⟨rfl, hdialed, rfl, htraces⟩
      | none =>
        rw [send_received hp (hresult.trans hdial) (h.send.trans hsent),
          send_received hq hdial hsent] at htraces ⊢
        have hreceive := congrArg (fun e => (receive b.disconnection (b.reads p.request) b.buffer e
          (update (fun b => b.setContentLength p.engine.body.length) p.response)).1) hdialed
        rw [← h.disconnection, ← h.reads, ← h.buffer] at hreceive ⊢
        exact ⟨congrArg Exit.result hreceive, congrArg Exit.engine hreceive,
          congrArg Exit.response hreceive, htraces⟩

end world

namespace Program
variable {R : Type}

/-- Programs that differ in connects that were refused. -/
structure Alike (p q : Program R) : Prop where
  same : { p with trace := [] } = { q with trace := [] }
  trace : unrefused p.trace = unrefused q.trace

theorem Alike.refl (p : Program R) : p.Alike p := ⟨rfl, rfl⟩

variable {p q : Program R}

/-- The one is the other with another past. -/
theorem Alike.eq (h : p.Alike q) : q = { p with trace := q.trace } :=
  (congrArg (fun r : Program R => { r with trace := q.trace }) h.same).symm

theorem Alike.world (h : p.Alike q) : p.world.Alike q.world := by
  rw [h.eq]
  exact ⟨rfl, rfl, h.trace⟩

theorem Alike.withWorld (h : p.Alike q) {w v : World R} (hw : w.Alike v) :
    (p.withWorld w).Alike (q.withWorld v) := by
  refine ⟨?_, hw.trace⟩
  rw [h.eq]
  simp only [Program.withWorld, hw.engine, hw.response]

theorem Alike.withThread (h : p.Alike q) (thread : Thread) :
    ({ p with thread := thread } : Program R).Alike { q with thread := thread } := by
  rw [h.eq]
  exact ⟨rfl, h.trace⟩

theorem allow_alike {condition : Prop} [Decidable condition] (h : p.Alike q) :
    Related (fun _ _ => True) Alike (allow condition p) (allow condition q) := by
  unfold allow
  split
  · exact h
  · exact trivial

variable [ResponseClass R] {env : Environment} {net net' : Network}

theorem resume_alike (hnet : ∀ t t', unrefused t = unrefused t' → (net t).Thinned (net' t'))
    (h : p.Alike q) :
    Related (fun _ _ => True) Alike (p.resume env net) (q.resume env net') := by
  have hworld := h.world
  have hsend := send_thinned env (hnet _ _ h.trace) hworld
  have hthread : q.thread = p.thread := by rw [h.eq]
  unfold resume
  rw [hthread]
  cases hp : p.thread with
  | sending =>
    rcases hfirst : send env (net p.trace) p.world with ⟨result, w⟩
    rcases hsecond : send env (net' q.trace) q.world with ⟨result', v⟩
    rw [hfirst, hsecond] at hsend
    obtain ⟨rfl, hw⟩ := hsend
    have hgoes := h.withWorld hw
    cases result with
    | error stop => exact hgoes.withThread (.stopped stop)
    | ok again =>
      cases again with
      | true => exact hgoes
      | false => exact hgoes.withThread .posting
  | posting =>
    rw [h.eq]
    refine ⟨rfl, ?_⟩
    simp only [post]
    rw [unrefused_append _ rfl, unrefused_append _ rfl, h.trace]
  | returning | throwing x =>
    rw [h.eq]
    exact ⟨rfl, h.trace⟩
  | none | blocked | ended => exact trivial

theorem step_alike (hnet : ∀ t t', unrefused t = unrefused t' → (net t).Thinned (net' t'))
    (h : p.Alike q) (a : Act R) :
    Related (fun _ _ => True) Alike (step env net p a) (step env net' q a) := by
  cases a with
  | thread => exact resume_alike hnet h
  | callback =>
    have hposted : q.postbackio = p.postbackio := by rw [h.eq]
    have hthread : q.thread = p.thread := by rw [h.eq]
    simp only [step, hposted, hthread]
    cases p.postbackio with
    | nil => exact trivial
    | cons res rest =>
      refine allow_alike ?_
      rw [h.eq]
      exact ⟨rfl, h.trace⟩
  | setCallback | setProxyAuth | starttransfer | use =>
    rw [h.eq]
    exact allow_alike ⟨rfl, h.trace⟩
  | reset d =>
    have hpast : p.Alike { p with trace := q.trace } := ⟨rfl, h.trace⟩
    rw [h.eq]
    exact allow_alike (hpast.withWorld ⟨rfl, rfl, h.trace⟩)

/-- **Endpoints that refuse make no difference.** -/
theorem failover_transparent (hnet : ∀ t t', unrefused t = unrefused t' → (net t).Thinned (net' t'))
    (p : Program R) (acts : List (Act R)) :
    Related (fun _ _ => True) Alike (run (step env net) p acts) (run (step env net') p acts) :=
  run_related (fun _ _ a h => step_alike hnet h a) (Alike.refl p) acts

/-- An endpoint that is down. -/
def down : Attempt := { Attempt.willing with connect := some .eof }

/-- The server that refuses everything, behind such an endpoint. -/
def halfDown : Network := fun trace => { refusing trace with resolve := .ok [down, .willing] }

theorem halfDown_thinned (t t' : List Event) : (halfDown t).Thinned (refusing t') where
  resolve := .inr ⟨[down, .willing], [.willing], rfl, rfl, List.cons_ne_nil _ _,
    .drop (show down.connect = some .eof from rfl) (.keep .willing .nil)⟩
  send := rfl
  reads := rfl
  buffer := rfl
  disconnection := rfl

theorem failover_transparent_refused :
    Related (fun _ _ => True) Alike (run (step ⟨[], []⟩ halfDown) fresh refusedActs)
      (run (step ⟨[], []⟩ refusing) fresh refusedActs) :=
  failover_transparent (fun t t' _ => halfDown_thinned t t') fresh refusedActs

end Program

end Anetd
