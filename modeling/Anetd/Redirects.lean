import Anetd.ParseBody
import Anetd.Send

/-!
# Redirects

`Followed` counts the calls of `send` that returned `true`; each of them has
counted a redirect below the limit, so there are at most six
(`sendLoop_ends`). `Chain` is the servers' side of it: connections that
succeed and 3xx heads with a usable Location. `redirectBound_iff` says when
the limit is reported.
-/

namespace Anetd

section runs
variable {R : Type} [ResponseClass R] (env : Environment) (net : Network)

/-- A run of the loop through so many redirects. -/
inductive Followed : Nat → World R → World R → Prop where
  | none (w : World R) : Followed 0 w w
  | more {k : Nat} {w v w' : World R} (h : send env (net w.trace) w = (.ok true, v))
      (rest : Followed k v w') : Followed (k + 1) w w'

variable {env net}

theorem Followed.redirtimes {k : Nat} {w w' : World R} (h : Followed env net k w w') :
    w'.engine.redirtimes = w.engine.redirtimes + k ∧ (0 < k → w'.engine.redirtimes ≤ 6) := by
  induction h with
  | none w => exact ⟨by omega, fun h => absurd h (Nat.lt_irrefl 0)⟩
  | @more k w v w' hsend rest ih =>
    obtain ⟨hbound, hcount⟩ := send_counted hsend
    constructor
    · omega
    · intro _
      cases rest with
      | none w => omega
      | more h' rest' => exact ih.2 (Nat.succ_pos _)

theorem sendLoop_followed {k : Nat} {w w' : World R} (h : Followed env net k w w') (calls : Nat) :
    sendLoop env net (k + calls) w = sendLoop env net calls w' := by
  induction h with
  | none w => rw [Nat.zero_add]
  | @more k w v w' hsend rest ih =>
    have hcalls : k + 1 + calls = k + calls + 1 := by omega
    rw [hcalls, sendLoop, hsend]
    exact ih

theorem connect_followed {k : Nat} {w w' : World R} (h : Followed env net k w w') (calls : Nat) :
    connect env net (k + calls) w = connect env net calls w' := by
  rw [connect, sendLoop_followed h, connect]

theorem connect_returns {w v : World R} (h : send env (net w.trace) w = (.ok false, v))
    (calls : Nat) :
    connect env net (calls + 1) w = some (.ok (), { v with trace := v.trace ++ [.callback] }) := by
  rw [connect, sendLoop, h]
  rfl

theorem connect_throws {w v : World R} {stop : Stop}
    (h : send env (net w.trace) w = (.error stop, v)) (calls : Nat) :
    connect env net (calls + 1) w = some (.error stop, v) := by
  rw [connect, sendLoop, h]
  rfl

/-- A loop ends where it has ended behind each redirect that it follows. -/
theorem sendLoop_ends_of {calls : Nat} {w : World R} (h : ∀ v,
    send env (net w.trace) w = (.ok true, v) → ∃ result, sendLoop env net calls v = some result) :
    ∃ result, sendLoop env net (calls + 1) w = some result := by
  rw [sendLoop]
  rcases hsend : send env (net w.trace) w with ⟨result, v⟩
  cases result with
  | error stop => exact ⟨_, rfl⟩
  | ok again =>
    cases again with
    | false => exact ⟨_, rfl⟩
    | true => exact h v hsend

/-- **Seven calls are enough.** -/
theorem sendLoop_ends {calls : Nat} {w : World R} (hbound : w.engine.redirtimes ≤ 6)
    (hcalls : 7 ≤ w.engine.redirtimes + calls) :
    ∃ result, sendLoop env net calls w = some result := by
  induction calls generalizing w with
  | zero => omega
  | succ calls ih =>
    apply sendLoop_ends_of
    intro v hsend
    obtain ⟨hlow, hcount⟩ := send_counted hsend
    exact ih (by omega) (by omega)

theorem connect_ends {w : World R} (hzero : w.engine.redirtimes = 0) :
    ∃ result, connect env net 7 w = some result := by
  obtain ⟨result, hresult⟩ : ∃ result, sendLoop env net 7 w = some result :=
    sendLoop_ends (by omega) (by omega)
  exact ⟨_, by rw [connect, hresult]; rfl⟩

theorem Followed.at_most_six {k : Nat} {w w' : World R} (h : Followed env net k w w')
    (hzero : w.engine.redirtimes = 0) : k ≤ 6 := by
  obtain ⟨hcount, hbound⟩ := h.redirtimes
  cases k with
  | zero => omega
  | succ k =>
    have := hbound (Nat.succ_pos k)
    omega

end runs

/-! ## The servers' side -/

section servers
variable (env : Environment) (hop : Hop) (w : World HttpResponse) (p : Prepared HttpResponse)

/-- A hop that connects and answers with a head, whatever follows it. -/
structure Answered (h : Head) : Prop where
  prepared : prepare env w.engine w.response = some p
  connected : (dial hop p).2 = .ok ()
  sent : hop.send = none
  head : ∃ rest, delivered (hop.reads p.request) = h.text ++ rest

/-- A hop that answers with a redirect to an absolute http or https URL the
expression accepts, on a connection that can be closed. -/
structure Redirects (h : Head) (url : Bytes) : Prop extends Answered env hop w p h where
  low : 300 ≤ h.status
  high : h.status < 400
  location : h.headers.find? (str "Location") = some url
  absolute : ∃ parts, urlParts url = some parts ∧ parts.Known
  closed : ¬ (dialed hop p.engine).ShutdownFails hop.disconnection

/-- The response when `receive` is called. -/
def Prepared.sentResponse {R : Type} [ResponseClass R] (p : Prepared R) : R :=
  update (fun b => b.setContentLength p.engine.body.length) p.response

/-- What has happened when it is called. -/
def World.sentTrace (w : World HttpResponse) (hop : Hop) (p : Prepared HttpResponse) :
    List Event :=
  w.trace ++ (dial hop p).1 ++ [.request p.engine.httpType p.request]

/-- The world after a redirect that was followed. -/
def World.next (w : World HttpResponse) (hop : Hop) (p : Prepared HttpResponse) (url : Bytes) :
    World HttpResponse where
  engine := (((dialed hop p.engine).redirected url).disconnect hop.disconnection).1
  response := p.sentResponse.setURL url
  trace := w.sentTrace hop p

variable {env hop w p} {h : Head} {url : Bytes}

theorem send_answered (ha : Answered env hop w p h) (hlow : 300 ≤ h.status)
    (hhigh : h.status < 400) :
    send env hop w =
      let x := redirect hop.disconnection ⟨h.locals, dialed hop p.engine, p.sentResponse⟩
      (x.result, ⟨x.engine, x.response, w.sentTrace hop p⟩) := by
  obtain ⟨rest, hdelivered⟩ := ha.head
  rw [send_received ha.prepared ha.connected ha.sent]
  simp only [update_self]
  rw [receive_redirected hop.disconnection (dialed hop p.engine) _ hop.buffer hdelivered hlow hhigh]
  rfl

theorem Answered.redirtimes (ha : Answered env hop w p h) :
    (dialed hop p.engine).redirtimes = w.engine.redirtimes := by
  rw [dialed_fields]
  exact prepare_redirtimes ha.prepared

/-- Below the limit a redirect is followed. -/
theorem send_redirects (hr : Redirects env hop w p h url) (htimes : w.engine.redirtimes ≤ 5) :
    send env hop w = (.ok true, w.next hop p url) := by
  have hlimit : ¬ 5 < (dialed hop p.engine).redirtimes := by
    rw [hr.redirtimes]
    omega
  rw [send_answered hr.toAnswered hr.low hr.high,
    redirect_follow hop.disconnection (f := ⟨h.locals, dialed hop p.engine, p.sentResponse⟩)
      hlimit hr.location (Engine.disconnect_quiet _ _ hr.closed)]
  rfl

/-- An endpoint that accepts everything and answers with a redirect. -/
theorem answering_redirects {reply : Chunk 2048} (hp : prepare env w.engine w.response = some p)
    (hreply : reply.bytes = h.text) (hlow : 300 ≤ h.status) (hhigh : h.status < 400)
    (hlocation : h.headers.find? (str "Location") = some url)
    (habsolute : ∃ parts, urlParts url = some parts ∧ parts.Known) :
    Redirects env (answering reply ⟨none, none⟩) w p h url where
  prepared := hp
  connected := answering_dial reply _ p
  sent := rfl
  head := ⟨[], congrArg (· ++ []) hreply⟩
  low := hlow
  high := hhigh
  location := hlocation
  absolute := habsolute
  closed := by
    rintro ⟨-, -, se, hse, -⟩
    cases hse

/-- At the limit the status and the description are stored. -/
theorem send_limit (ha : Answered env hop w p h) (hlow : 300 ≤ h.status) (hhigh : h.status < 400)
    (htimes : 5 < w.engine.redirtimes)
    (hclosed : ¬ (dialed hop p.engine).ShutdownFails hop.disconnection) :
    send env hop w = (.ok false,
      ⟨((dialed hop p.engine).counted.disconnect hop.disconnection).1,
        (p.sentResponse.setStatus h.status).setDescription h.description, w.sentTrace hop p⟩) := by
  have hlimit : 5 < (dialed hop p.engine).redirtimes := by rwa [ha.redirtimes]
  rw [send_answered ha hlow hhigh,
    redirect_limit hop.disconnection (f := ⟨h.locals, dialed hop p.engine, p.sentResponse⟩)
      hlimit (Engine.disconnect_quiet _ _ hclosed)]
  rfl

/-- Unless the TLS shutdown fails: then its error code is thrown before. -/
theorem send_limit_throws (ha : Answered env hop w p h) (hlow : 300 ≤ h.status)
    (hhigh : h.status < 400) (htimes : 5 < w.engine.redirtimes)
    (hfails : (dialed hop p.engine).ShutdownFails hop.disconnection) :
    ∃ se, send env hop w = (.error (.threw (.errorCode se)),
      ⟨((dialed hop p.engine).counted.disconnect hop.disconnection).1, p.sentResponse,
        w.sentTrace hop p⟩) := by
  have hlimit : 5 < (dialed hop p.engine).redirtimes := by rwa [ha.redirtimes]
  obtain ⟨se, hse⟩ :=
    Engine.disconnect_throws (dialed hop p.engine).counted hop.disconnection hfails
  refine ⟨se, ?_⟩
  rw [send_answered ha hlow hhigh,
    redirect_limit_throws hop.disconnection (f := ⟨h.locals, dialed hop p.engine, p.sentResponse⟩)
      hlimit hse]

end servers

/-- So many redirects, one after the other. -/
inductive Chain (env : Environment) (net : Network) :
    Nat → World HttpResponse → World HttpResponse → Prop where
  | none (w : World HttpResponse) : Chain env net 0 w w
  | more {k : Nat} {w w' : World HttpResponse} {p : Prepared HttpResponse} {h : Head} {url : Bytes}
      (redirects : Redirects env (net w.trace) w p h url)
      (rest : Chain env net k (w.next (net w.trace) p url) w') : Chain env net (k + 1) w w'

section chain
variable {env : Environment} {net : Network} {w : World HttpResponse}
variable {p : Prepared HttpResponse} {h : Head} {url : Bytes}

theorem next_redirtimes (hr : Redirects env (net w.trace) w p h url) :
    (w.next (net w.trace) p url).engine.redirtimes = w.engine.redirtimes + 1 := by
  rw [← hr.redirtimes, World.next, Engine.disconnect_fields]
  rfl

/-- **A chain below the limit is followed.** -/
theorem Chain.followed {k : Nat} {w w' : World HttpResponse} (hc : Chain env net k w w')
    (hbound : w.engine.redirtimes + k ≤ 6) : Followed env net k w w' := by
  induction hc with
  | none w => exact .none w
  | @more k w w' p h url hr rest ih =>
    refine .more (send_redirects hr (by omega)) (ih ?_)
    rw [next_redirtimes hr]
    omega

end chain

/-! ## The bound -/

section bound
variable (env : Environment) (net : Network) (w : World HttpResponse)

/-- The loop ends after seven calls, follows six redirects at most and every
chain of as many, and stops at a seventh 3xx with its status and description
stored, having done nothing more than post the callback. -/
structure RedirectBound : Prop where
  ends : ∃ result, connect env net 7 w = some result
  atMostSix : ∀ k w', Followed env net k w w' → k ≤ 6
  chains : ∀ k w', k ≤ 6 → Chain env net k w w' →
    Followed env net k w w' ∧ connect env net 7 w = connect env net (7 - k) w'
  limit : ∀ w₆ p h, Followed env net 6 w w₆ → Answered env (net w₆.trace) w₆ p h →
    300 ≤ h.status → h.status < 400 →
      ∃ w₇, connect env net 7 w = some (.ok (), w₇) ∧ w₇.response.status = h.status ∧
        w₇.response.description = h.description ∧
        w₇.trace = w₆.sentTrace (net w₆.trace) p ++ [.callback]

/-- The connection of a seventh 3xx can be closed. -/
def LimitCloses : Prop :=
  ∀ w₆ p h, Followed env net 6 w w₆ → Answered env (net w₆.trace) w₆ p h →
    300 ≤ h.status → h.status < 400 →
      ¬ (dialed (net w₆.trace) p.engine).ShutdownFails (net w₆.trace).disconnection

variable {env net w}

theorem bound_of_closes (hzero : w.engine.redirtimes = 0) (hcloses : LimitCloses env net w) :
    RedirectBound env net w where
  ends := connect_ends hzero
  atMostSix := fun k w' hf => hf.at_most_six hzero
  chains := by
    intro k w' hk hc
    have hf := hc.followed (by omega)
    have hseven : 7 = k + (7 - k) := by omega
    refine ⟨hf, ?_⟩
    rw [← connect_followed hf, ← hseven]
  limit := by
    intro w₆ p h hf ha hlow hhigh
    have htimes : 5 < w₆.engine.redirtimes := by
      have := hf.redirtimes.1
      omega
    have hsend := send_limit ha hlow hhigh htimes (hcloses w₆ p h hf ha hlow hhigh)
    exact ⟨_, (connect_followed hf 1).trans (connect_returns hsend 0), rfl, rfl, rfl⟩

theorem closes_of_bound (hzero : w.engine.redirtimes = 0) (hbound : RedirectBound env net w) :
    LimitCloses env net w := by
  intro w₆ p h hf ha hlow hhigh hfails
  have htimes : 5 < w₆.engine.redirtimes := by
    have := hf.redirtimes.1
    omega
  obtain ⟨se, hsend⟩ := send_limit_throws ha hlow hhigh htimes hfails
  obtain ⟨w₇, hconnect, -⟩ := hbound.limit w₆ p h hf ha hlow hhigh
  have hthrows := (connect_followed hf 1).trans (connect_throws hsend 0)
  rw [hthrows] at hconnect
  cases hconnect

end bound

/-- **The redirect bound** holds of every response class, and its limit is
reported exactly when the connection of the seventh 3xx can be closed. -/
theorem redirectBound_iff (env : Environment) (net : Network) :
    (∀ (R : Type) [ResponseClass R] (w : World R), JustReset w.engine →
      (∃ result, connect env net 7 w = some result) ∧
        ∀ k w', Followed env net k w w' → k ≤ 6) ∧
    ∀ w : World HttpResponse, JustReset w.engine →
      (RedirectBound env net w ↔ LimitCloses env net w) := by
  constructor
  · intro R _ w hfresh
    exact ⟨connect_ends hfresh.redirtimes, fun k w' hf => hf.at_most_six hfresh.redirtimes⟩
  · intro w hfresh
    constructor
    · exact closes_of_bound hfresh.redirtimes
    · exact bound_of_closes hfresh.redirtimes

/-! ## A redirect loop over TLS -/

def loopUrl : Bytes := str "https://a/"

def loopParts : UrlParts := ⟨str "https", str "a", [], str "/", [], []⟩

theorem loopUrl_parts : urlParts loopUrl = some loopParts := by decide

/-- `HTTP/1.0 302 Found` and one header line. -/
def foundHead (line : Bytes) (h : sp ∈ line ∧ lf ∉ line) : Head where
  version := str "HTTP/1.0"
  code := str "302"
  status := 302
  reason := str "Found\r"
  lines := [line]
  last := str "\r"
  version_ok := http10_ok
  code_ok := code302_word
  status_ok := code302_status
  reason_ok := reasonFound_line
  lines_ok := List.forall_mem_singleton.mpr h
  last_ok := crLine_ok

def loopHead : Head := foundHead (str "Location: https://a/\r") (by decide)

/-- An endpoint that redirects to itself. -/
def loopHop (d : Disconnection) : Hop := answering ⟨loopHead.text, by decide, by decide⟩ d

/-- The seventh TLS shutdown, after four events for each hop before, fails. -/
def loopNet : Network := fun trace =>
  loopHop ⟨if trace.length = 24 then some ⟨.ssl, 1⟩ else none, none⟩

/-- What the loop prepares. -/
def loopPrepared (w : World HttpResponse) : Prepared HttpResponse where
  parts := loopParts
  target := ⟨str "a", str "443"⟩
  engine := w.engine.overwrite ⟨[], []⟩ loopParts
  response := w.response.setHost (str "a")

section loop
variable {w : World HttpResponse} (hurl : w.response.url = loopUrl)
variable (hproxy : w.engine.httpProxy = .none)

include hurl in
theorem loop_prepare : prepare ⟨[], []⟩ w.engine w.response = some (loopPrepared w) := by
  have hparts : urlParts (base w.response).url = some loopParts := by
    rw [base_self, hurl, loopUrl_parts]
  rw [prepare_known _ _ hparts (by decide)]
  rfl

include hproxy in
theorem loop_dial (reply : Chunk 2048) (d : Disconnection) :
    dial (answering reply d) (loopPrepared w) =
      ([.query (str "a") (str "443"), .connect .sslHttps (loopPrepared w).engine.isOpen,
        .handshake], .ok ()) := by
  have hcommand : (loopPrepared w).engine.command = none := by
    change (if w.engine.httpProxy = .httpProxy then _ else _) = _
    rw [hproxy]
    rfl
  simp only [dial, answering, hcommand]
  rfl

include hurl hproxy in
theorem loop_answered (d : Disconnection) :
    Answered ⟨[], []⟩ (loopHop d) w (loopPrepared w) loopHead ∧
      (w.sentTrace (loopHop d) (loopPrepared w)).length = w.trace.length + 4 := by
  have hdial := loop_dial hproxy ⟨loopHead.text, by decide, by decide⟩ d
  refine ⟨⟨loop_prepare hurl, by rw [loopHop, hdial], rfl, [], rfl⟩, ?_⟩
  simp only [World.sentTrace, loopHop, hdial, List.length_append, List.length_cons,
    List.length_nil]

include hurl in
theorem loop_redirects :
    Redirects ⟨[], []⟩ (loopHop ⟨none, none⟩) w (loopPrepared w) loopHead loopUrl :=
  answering_redirects (loop_prepare hurl) rfl (by decide) (by decide) (by decide)
    ⟨loopParts, loopUrl_parts, by decide⟩

end loop

theorem loop_chain {k : Nat} {w : World HttpResponse} (hurl : w.response.url = loopUrl)
    (hproxy : w.engine.httpProxy = .none) (hroom : w.trace.length + 4 * k ≤ 24) :
    ∃ w', Chain ⟨[], []⟩ loopNet k w w' ∧ w'.response.url = loopUrl ∧
      w'.engine.httpProxy = .none ∧ w'.trace.length = w.trace.length + 4 * k ∧
      w'.response.status = w.response.status := by
  induction k generalizing w with
  | zero => exact ⟨w, .none w, hurl, hproxy, rfl, rfl⟩
  | succ k ih =>
    have hquiet : loopNet w.trace = loopHop ⟨none, none⟩ := by
      have hlength : w.trace.length ≠ 24 := by omega
      simp only [loopNet, if_neg hlength]
    have hlength := (loop_answered hurl hproxy ⟨none, none⟩).2
    have hredirects : Redirects ⟨[], []⟩ (loopNet w.trace) w (loopPrepared w) loopHead loopUrl := by
      rw [hquiet]
      exact loop_redirects hurl
    have hnextproxy : (w.next (loopNet w.trace) (loopPrepared w) loopUrl).engine.httpProxy =
        .none := by
      rw [World.next, Engine.disconnect_fields, dialed_fields]
      exact hproxy
    have hnextlength : (w.next (loopNet w.trace) (loopPrepared w) loopUrl).trace.length =
        w.trace.length + 4 := by
      rw [← hlength, hquiet]
      rfl
    obtain ⟨w', hchain, hurl', hproxy', hlength', hstatus⟩ := ih (w := w.next (loopNet w.trace)
      (loopPrepared w) loopUrl) rfl hnextproxy (by omega)
    exact ⟨w', .more hredirects hchain, hurl', hproxy', by omega, hstatus⟩

/-- A new engine, and a response that is to be got from the loop. -/
def loopStart : World HttpResponse := ⟨.new, HttpResponse.new.setURL loopUrl, []⟩

theorem redirectBound_iff_loop :
    RedirectBound ⟨[], []⟩ loopNet loopStart ↔ LimitCloses ⟨[], []⟩ loopNet loopStart :=
  (redirectBound_iff ⟨[], []⟩ loopNet).2 loopStart .constructed

/-- The seventh 302 leaves `connect` by an exception, its status not stored. -/
theorem loop_not_reported :
    (∃ se w₇, connect ⟨[], []⟩ loopNet 7 loopStart = some (.error (.threw (.errorCode se)), w₇) ∧
      w₇.response.status = 0) ∧
    ¬ RedirectBound ⟨[], []⟩ loopNet loopStart := by
  obtain ⟨w₆, hchain, hurl, hproxy, hlength, hstatus⟩ :=
    loop_chain (k := 6) (w := loopStart) rfl rfl (by decide)
  have hf : Followed ⟨[], []⟩ loopNet 6 loopStart w₆ := hchain.followed (by decide)
  have hseventh : loopNet w₆.trace = loopHop ⟨some ⟨.ssl, 1⟩, none⟩ := by
    have htrace : w₆.trace.length = 24 := hlength
    simp only [loopNet, if_pos htrace]
  have htimes : 5 < w₆.engine.redirtimes := by
    rw [hf.redirtimes.1]
    decide
  have hanswered := (loop_answered hurl hproxy ⟨some ⟨.ssl, 1⟩, none⟩).1
  rw [← hseventh] at hanswered
  have hfails : (dialed (loopNet w₆.trace) (loopPrepared w₆).engine).ShutdownFails
      (loopNet w₆.trace).disconnection := by
    rw [hseventh]
    exact ⟨rfl, rfl, ⟨.ssl, 1⟩, rfl, by decide⟩
  obtain ⟨se, hsend⟩ := send_limit_throws hanswered (by decide) (by decide) htimes hfails
  have hthrows := (connect_followed hf 1).trans (connect_throws hsend 0)
  refine ⟨⟨se, _, hthrows, ?_⟩, fun hbound => ?_⟩
  · exact hstatus
  · obtain ⟨w₇, hconnect, -⟩ := hbound.limit w₆ _ _ hf hanswered (by decide) (by decide)
    rw [hthrows] at hconnect
    cases hconnect

end Anetd
