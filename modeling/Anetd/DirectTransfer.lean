import Anetd.Redirects
import Anetd.Simulation

/-!
# A chain of redirects against a direct transfer

Every field of the response that a hop of a chain writes is written again by
the next hop, so the last one finds the response that a transfer started
directly on its URL would find (`Chain.traceless`). From there the two calls
of `receive` differ only in their engines.
-/

namespace Anetd

open Lib.OrdMap

/-- The transfer started directly on a URL. -/
def World.direct (w : World HttpResponse) (url : Bytes) : World HttpResponse :=
  { w with response := w.response.setURL url }

/-! ## What a chain leaves in the response -/

/-- `send` makes the same of the response of `v` as of that of `w` on its URL. -/
structure Traceless (w v : World HttpResponse) : Prop where
  body : v.engine.body = w.engine.body
  response : ∀ host n, (v.response.setHost host).setContentLength n =
    ((w.response.setURL v.response.url).setHost host).setContentLength n

theorem Traceless.refl (w : World HttpResponse) : Traceless w w := ⟨rfl, fun _ _ => rfl⟩

theorem setHost_setHost (r : HttpResponse) (host host' : Bytes) :
    (r.setHost host).setHost host' = r.setHost host' := by
  simp only [HttpResponse.setHost, set_set]

theorem setContentLength_setContentLength (r : HttpResponse) (n m : Nat) :
    (r.setContentLength n).setContentLength m = r.setContentLength m := by
  simp only [HttpResponse.setContentLength, set_set]

section chain
variable {env : Environment} {net : Network}

theorem prepare_body {e : Engine} {r : HttpResponse} {p : Prepared HttpResponse}
    (h : prepare env e r = some p) : p.engine.body = e.body := by
  rcases (prepare_cases h).2 with ⟨-, -, hengine, -⟩ | ⟨-, -, hengine, -⟩
  · rw [hengine]; rfl
  · rw [hengine]

theorem Traceless.next {w v : World HttpResponse} (ht : Traceless w v)
    {p : Prepared HttpResponse} {h : Head} {url : Bytes}
    (hr : Redirects env (net v.trace) v p h url) :
    Traceless w (v.next (net v.trace) p url) where
  body := by
    rw [World.next, Engine.disconnect_fields]
    change (dialed _ p.engine).body = _
    rw [dialed_fields]
    exact (prepare_body hr.prepared).trans ht.body
  response := by
    intro host n
    have hsame : (v.response.setURL url).setHost host = (v.response.setHost host).setURL url := rfl
    have hprepared : p.response.setHost host = v.response.setHost host := by
      rcases (prepare_cases hr.prepared).2 with ⟨-, -, -, hp⟩ | ⟨-, -, -, hp⟩
      · rw [hp, update_self, setHost_setHost]
      · rw [hp]
    have hsent : ((p.sentResponse.setURL url).setHost host).setContentLength n =
        ((p.response.setHost host).setContentLength n).setURL url :=
      congrArg (·.setURL url) (setContentLength_setContentLength (p.response.setHost host) _ n)
    change ((p.sentResponse.setURL url).setHost host).setContentLength n = _
    rw [hsent, hprepared, ht.response host n]
    rfl

theorem Chain.traceless {k : Nat} {v w' : World HttpResponse} (hc : Chain env net k v w')
    {w : World HttpResponse} (ht : Traceless w v) : Traceless w w' := by
  induction hc with
  | none v => exact ht
  | more hr rest ih => exact ih (ht.next hr)

/-- The URL a chain ends with is its first one, or an absolute one. -/
theorem Chain.last {k : Nat} {w w' : World HttpResponse} (hc : Chain env net k w w') :
    w' = w ∨ ∃ parts, urlParts w'.response.url = some parts ∧ parts.Known := by
  induction hc with
  | none w => exact .inl rfl
  | @more k w w' p h url hr rest ih =>
    right
    rcases ih with heq | hknown
    · rw [heq]
      exact hr.absolute
    · exact hknown

/-- The last hop of a chain and the direct transfer call `receive` over the
same transport with the same response. -/
theorem Chain.meets {k : Nat} {w w' : World HttpResponse} (hc : Chain env net k w w')
    {p q : Prepared HttpResponse} (hp : prepare env w'.engine w'.response = some p)
    (hq : prepare env w.engine (w.direct w'.response.url).response = some q) :
    p.engine.httpType = q.engine.httpType ∧ p.sentResponse = q.sentResponse := by
  rcases hc.last with heq | ⟨parts, hparts, hknown⟩
  · rw [heq] at hp hq
    have hdirect : (w.direct w.response.url).response = w.response := rfl
    rw [hdirect, hp] at hq
    rw [Option.some.inj hq]
    exact ⟨rfl, rfl⟩
  · have ht := hc.traceless (Traceless.refl w)
    rw [prepare_known _ _ hparts hknown] at hp
    have hparts' : urlParts (base (w.direct w'.response.url).response).url = some parts := hparts
    rw [prepare_known _ _ hparts' hknown] at hq
    obtain ⟨target, -, rfl⟩ := Option.map_eq_some_iff.mp hp
    obtain ⟨target', -, rfl⟩ := Option.map_eq_some_iff.mp hq
    refine ⟨rfl, ?_⟩
    have hlength : (w'.engine.overwrite env parts).body.length =
        (w.engine.overwrite env parts).body.length := congrArg List.length ht.body
    change (w'.response.setHost parts.host).setContentLength _ =
      ((w.response.setURL w'.response.url).setHost parts.host).setContentLength _
    rw [hlength]
    exact ht.response parts.host _

end chain

/-! ## The last hop -/

/-- The exits of two calls of which the second does not follow a redirect. -/
def SameEnd (x y : Exit HttpResponse) : Prop :=
  y.result = .ok true ∨ (x.result = y.result ∧ x.response = y.response)

theorem sameEnd {d₁ d₂ : Disconnection} {e₁ e₂ : Engine} (hzero : e₂.redirtimes = 0)
    (hclosed₁ : ¬ e₁.ShutdownFails d₁) (hclosed₂ : ¬ e₂.ShutdownFails d₂) :
    ExitsRelated SameEnd d₁ d₂ e₁ e₂ where
  same := fun _ _ => .inr ⟨rfl, rfl⟩
  redirect := by
    intro l r _ _
    have hbelow : ¬ 5 < e₂.redirtimes := by omega
    cases hurl : l.tempheaders.find? (str "Location") with
    | some url =>
      have hfollow := redirect_follow d₂ (f := ⟨l, e₂, r⟩) hbelow hurl
        (Engine.disconnect_quiet _ _ hclosed₂)
      rw [hfollow]
      exact .inl rfl
    | none =>
      right
      have hlost := redirect_lost d₂ (f := ⟨l, e₂, r⟩) hbelow hurl
      rw [hlost]
      by_cases hlimit : 5 < e₁.redirtimes
      · have hrefuse := redirect_limit d₁ (f := ⟨l, e₁, r⟩) hlimit
          (Engine.disconnect_quiet _ _ hclosed₁)
        rw [hrefuse]
        exact ⟨rfl, rfl⟩
      · have hlost' := redirect_lost d₁ (f := ⟨l, e₁, r⟩) hlimit hurl
        rw [hlost']
        exact ⟨rfl, rfl⟩

/-- A hop that connects, can be disconnected, and answers with certain reads. -/
structure Answers (env : Environment) (hop : Hop) (w : World HttpResponse)
    (p : Prepared HttpResponse) (os : List (Read 2048)) : Prop where
  prepared : prepare env w.engine w.response = some p
  connected : (dial hop p).2 = .ok ()
  sent : hop.send = none
  reads : hop.reads p.request = os
  closed : ¬ (dialed hop p.engine).ShutdownFails hop.disconnection

section last
variable {env : Environment} {hop hop' : Hop} {v w : World HttpResponse}
variable {p q : Prepared HttpResponse} {bs : Bytes} {cut cut' : Cut 2048 bs}
variable {rest : List (Read 2048)}

theorem Answers.send_eq {os : List (Read 2048)} (ha : Answers env hop w p os) :
    let x := (receive hop.disconnection os hop.buffer (dialed hop p.engine) p.sentResponse).1
    (send env hop w).1 = x.result ∧ (send env hop w).2.response = x.response := by
  rw [send_received ha.prepared ha.connected ha.sent, ← ha.reads]
  exact ⟨rfl, rfl⟩

/-- Two calls that meet before `receive` and are answered with the same bytes
end alike, unless the one with the fresh counter follows a redirect. -/
theorem Answers.same_end (hp : Answers env hop v p (cut.chunks.map .data ++ rest))
    (hq : Answers env hop' w q (cut'.chunks.map .data ++ rest))
    (hrest : Settled q.engine.httpType rest) (htype : p.engine.httpType = q.engine.httpType)
    (hresponse : p.sentResponse = q.sentResponse) (hzero : w.engine.redirtimes = 0) :
    (send env hop' w).1 = .ok true ∨ ((send env hop v).1 = (send env hop' w).1 ∧
      (send env hop v).2.response = (send env hop' w).2.response) := by
  have htimes : (dialed hop' q.engine).redirtimes = 0 := by
    rw [dialed_fields]
    exact (prepare_redirtimes hq.prepared).trans hzero
  have hdialed (hop : Hop) (e : Engine) : (dialed hop e).httpType = e.httpType := by
    rw [dialed_fields]
  have hend : SameEnd (receive hop.disconnection (cut.chunks.map .data ++ rest) hop.buffer
        (dialed hop p.engine) q.sentResponse).1
      (receive hop'.disconnection (cut'.chunks.map .data ++ rest) hop'.buffer
        (dialed hop' q.engine) q.sentResponse).1 := by
    apply receive_alike (sameEnd htimes hp.closed hq.closed)
    · rw [hdialed, hdialed, htype]
    · rwa [hdialed]
  obtain ⟨hpresult, hpleft⟩ := hp.send_eq
  obtain ⟨hqresult, hqleft⟩ := hq.send_eq
  rw [hresponse] at hpresult hpleft
  rw [hpresult, hpleft, hqresult, hqleft]
  exact hend

end last

/-- **A redirect leaves no trace in the response.** After any chain of up to
six redirects, a last response that is not followed further leaves the response
object as after a direct transfer, over any connections and in any reads. -/
theorem redirects_leave_no_trace {env : Environment} {net net' : Network} {k : Nat}
    {w w' : World HttpResponse} (hc : Chain env net k w w') (hk : k ≤ 6)
    (hzero : w.engine.redirtimes = 0) {p q : Prepared HttpResponse} {bs : Bytes}
    {cut cut' : Cut 2048 bs} {rest : List (Read 2048)}
    (hp : Answers env (net w'.trace) w' p (cut.chunks.map .data ++ rest))
    (hq : Answers env (net' w.trace) (w.direct w'.response.url) q (cut'.chunks.map .data ++ rest))
    (hrest : Settled q.engine.httpType rest)
    (hfinal : (send env (net' w.trace) (w.direct w'.response.url)).1 ≠ .ok true) :
    ∃ result v v', connect env net 7 w = some (result, v) ∧
      connect env net' 7 (w.direct w'.response.url) = some (result, v') ∧
        v.response = v'.response := by
  have hf : Followed env net k w w' := hc.followed (by omega)
  have hcalls : 7 = k + (6 - k + 1) := by omega
  have hchain : connect env net 7 w = connect env net (6 - k + 1) w' := by
    rw [← connect_followed hf, ← hcalls]
  obtain ⟨htype, hresponse⟩ := hc.meets hp.prepared hq.prepared
  rcases hp.same_end hq hrest htype hresponse hzero with hfollowed | ⟨hresult, hleft⟩
  · exact absurd hfollowed hfinal
  rcases hlast : send env (net w'.trace) w' with ⟨result, v⟩
  rcases hdirect : send env (net' w.trace) (w.direct w'.response.url) with ⟨result', v'⟩
  rw [hlast, hdirect] at hresult hleft
  rw [hdirect] at hfinal
  obtain rfl : result = result' := hresult
  cases result with
  | error stop =>
    exact ⟨_, v, v', hchain.trans (connect_throws hlast _), connect_throws hdirect 6, hleft⟩
  | ok again =>
    cases again with
    | true => exact absurd rfl hfinal
    | false =>
      exact ⟨_, _, _, hchain.trans (connect_returns hlast _), connect_returns hdirect 6, hleft⟩

/-! ## One redirect before an answer -/

def okText : Bytes := str "HTTP/1.0 200 OK\r\nServer: b\r\n\r\n"

def okHop : Hop := answering ⟨okText, by decide, by decide⟩ ⟨none, none⟩

/-- A redirect to itself the first time, then an answer. -/
def onceNet : Network := fun trace => if trace = [] then loopHop ⟨none, none⟩ else okHop

/-- The world after the redirect. -/
def onceWorld : World HttpResponse :=
  loopStart.next (loopHop ⟨none, none⟩) (loopPrepared loopStart) loopUrl

theorem ok_answers {w : World HttpResponse} (hurl : w.response.url = loopUrl) :
    Answers ⟨[], []⟩ okHop w (loopPrepared w)
      ((Cut.whole okText (by decide) (by decide)).chunks.map .data ++ [.error .eof]) where
  prepared := loop_prepare hurl
  connected := answering_dial _ _ _
  sent := rfl
  reads := rfl
  closed := by
    rintro ⟨-, -, se, hse, -⟩
    cases hse

theorem ok_returns {w : World HttpResponse} (hurl : w.response.url = loopUrl) :
    (send ⟨[], []⟩ okHop w).1 = .ok false := by
  have hanswers := ok_answers hurl
  have hthrown : thrown (dialed okHop (loopPrepared w).engine).httpType .eof =
      some (.systemError .eof) := rfl
  have hreceive := receive_eq_parse okHop.disconnection
    (Cut.whole okText (by decide) (by decide)) hthrown okHop.buffer (loopPrepared w).sentResponse
  rw [send_received hanswers.prepared hanswers.connected rfl]
  refine (congrArg Exit.result hreceive).trans ?_
  rfl

theorem redirects_leave_no_trace_once :
    ∃ result v v', connect ⟨[], []⟩ onceNet 7 loopStart = some (result, v) ∧
      connect ⟨[], []⟩ (fun _ => okHop) 7 (loopStart.direct loopUrl) = some (result, v') ∧
        v.response = v'.response := by
  have hchain : Chain ⟨[], []⟩ onceNet 1 loopStart onceWorld :=
    .more (loop_redirects rfl) (.none _)
  have hlast : onceNet onceWorld.trace = okHop := rfl
  have hp := ok_answers (w := onceWorld) rfl
  rw [← hlast] at hp
  have hq : Answers ⟨[], []⟩ ((fun _ => okHop : Network) loopStart.trace)
      (loopStart.direct loopUrl) _ _ := ok_answers rfl
  have hrest : Settled (loopPrepared (loopStart.direct loopUrl)).engine.httpType
      [.error ErrorCode.eof] := by
    intro ec hec
    obtain rfl : ErrorCode.eof = ec := Read.error.inj (Option.some.inj hec)
    decide
  refine redirects_leave_no_trace hchain (by decide) rfl hp hq hrest fun hfollowed => ?_
  have hend := ok_returns (w := loopStart.direct loopUrl) rfl
  cases hend.symm.trans hfollowed

end Anetd
