import Anetd.Hops

/-!
# Inside the tunnel

One flag of the engine decides on the `CONNECT` command, on the absolute form
of the request line and on the proxy's credentials in the request. So what is
written inside the TLS session to the origin server shows that there is a
proxy, and its credentials (`tunnel_shows`).
-/

namespace Anetd

section tunnel
variable {R : Type} [ResponseClass R]

/-- A call of `send` writes a text to the TLS session. -/
def Writes (env : Environment) (hop : Hop) (w : World R) (text : Bytes) : Prop :=
  .request .sslHttps text ∈ (send env hop w).2.trace.drop w.trace.length

/-- `setProxyAuth`. -/
def World.setProxyAuth (w : World R) (auth : Bytes × Bytes) : World R :=
  { w with engine := { w.engine with proxyauth := auth } }

/-- The environment without a proxy for https. -/
def Environment.withoutHttps (env : Environment) : Environment := { env with httpsProxy := [] }

/-- What the origin server is sent is what it would be sent without a proxy. -/
def AsDirect (env : Environment) (w : World R) : Prop :=
  ∀ hop hop' text text', Writes env hop w text → Writes env.withoutHttps hop' w text' →
    text = text'

/-- It is the same for any two pairs of credentials for the proxy. -/
def HidesProxyAuth (env : Environment) (w : World R) : Prop :=
  ∀ auth auth' hop hop' text text', Writes env hop (w.setProxyAuth auth) text →
    Writes env hop' (w.setProxyAuth auth') text' → text = text'

/-! ## What a willing proxy and server are sent -/

variable {env : Environment} {w : World R} {parts : UrlParts}

/-- A world that is to get an https URL, at an endpoint that is known. -/
structure Https (env : Environment) (w : World R) (parts : UrlParts) : Prop where
  url : urlParts (base w.response).url = some parts
  scheme : toLower parts.protocol = str "https"
  endpoint : ∃ target, endpoint env parts = some target

theorem variable_https (hscheme : toLower parts.protocol = str "https") :
    env.variable parts = env.httpsProxy := by
  rw [Environment.variable, hscheme]
  rfl

theorem https_proxied (hurl : urlParts (base w.response).url = some parts)
    (hscheme : toLower parts.protocol = str "https") {proxy : ProxyParts}
    (hproxy : proxyParts env.httpsProxy = some proxy) (hset : env.httpsProxy ≠ []) :
    Https env w parts := by
  refine ⟨hurl, hscheme, ⟨proxy.host, proxy.port⟩, ?_⟩
  rw [endpoint, variable_https hscheme, if_pos hset, hproxy]
  rfl

theorem https_direct (hurl : urlParts (base w.response).url = some parts)
    (hscheme : toLower parts.protocol = str "https") : Https env.withoutHttps w parts := by
  refine ⟨hurl, hscheme, ⟨parts.host, parts.portOrDefault⟩, ?_⟩
  rw [endpoint, variable_https hscheme]
  rfl

variable [LawfulResponse R]

theorem writes_answering {p : Prepared R} (hp : prepare env w.engine w.response = some p)
    (htype : p.engine.httpType = .sslHttps) (reply : Chunk 2048) (d : Disconnection) :
    Writes env (answering reply d) w (requestText p.engine p.parts (base p.response)) := by
  obtain ⟨events, hevents⟩ := events_answering p reply d
  rw [Writes, send_trace hp, List.drop_left, hevents, htype, request_lawful]
  exact List.mem_append_right _ List.mem_cons_self

theorem Https.writes (h : Https env w parts) :
    ∃ hop, Writes env hop w (requestText (w.engine.overwrite env parts) parts
      ((base w.response).setHost parts.host)) := by
  obtain ⟨target, htarget⟩ := h.endpoint
  have hp := prepare_known env w.engine h.url (.inr h.scheme)
  rw [htarget] at hp
  have htype : (w.engine.overwrite env parts).httpType = .sslHttps := by
    change parts.transport = _
    rw [UrlParts.transport, h.scheme]
    rfl
  have hwrites := writes_answering hp htype ⟨established, by decide, by decide⟩ ⟨none, none⟩
  rw [LawfulResponse.base_update] at hwrites
  exact ⟨_, hwrites⟩

/-- The request line shows the proxy. -/
theorem not_asDirect (h : Https env w parts) (h' : Https env.withoutHttps w parts)
    (hset : env.httpsProxy ≠ []) (hmode : w.engine.httpProxy = .none) : ¬ AsDirect env w := by
  intro hdirect
  obtain ⟨hop, hwrites⟩ := h.writes
  obtain ⟨hop', hwrites'⟩ := h'.writes
  have hsame := congrArg List.length (hdirect hop hop' _ _ hwrites hwrites')
  have hlonger : (requestText (w.engine.overwrite env.withoutHttps parts) parts
      ((base w.response).setHost parts.host)).length <
        (requestText (w.engine.overwrite env parts) parts
          ((base w.response).setHost parts.host)).length := by
    apply requestText_longer
    · apply (overwrite_mode (.inl _)).mpr <;> rwa [variable_https h.scheme]
    · refine (overwrite_unset ?_).trans hmode
      rw [variable_https h.scheme]
      rfl
    · exact overwrite_host w.engine
    · exact overwrite_asked rfl env env.withoutHttps
    · rfl
    · rfl
  exact absurd hsame.symm (Nat.ne_of_lt hlonger)

/-- A line of the request shows the credentials. -/
theorem not_hidesProxyAuth (h : ∀ auth, Https env (w.setProxyAuth auth) parts)
    (hset : env.httpsProxy ≠ []) : ¬ HidesProxyAuth env w := by
  intro hhides
  obtain ⟨hop, hwrites⟩ := (h (str "u", [])).writes
  obtain ⟨hop', hwrites'⟩ := (h ([], [])).writes
  have hsame := congrArg List.length (hhides _ _ hop hop' _ _ hwrites hwrites')
  have hlength (auth : Bytes × Bytes) :
      (requestText ((w.setProxyAuth auth).engine.overwrite env parts) parts
        ((base w.response).setHost parts.host)).length =
      (requestText ((w.engine.overwrite env parts).mode .none) parts
        ((base w.response).setHost parts.host)).length +
          (w.engine.overwrite env parts).host.length +
          (basicLine (str "Proxy-Authorization") auth).length := by
    have hproxied := requestText_proxied ((w.setProxyAuth auth).engine.overwrite env parts) parts
      ((base w.response).setHost parts.host)
    have hmode : ((w.setProxyAuth auth).engine.overwrite env parts).httpProxy = .httpProxy := by
      apply (overwrite_mode (.inl _)).mpr <;> rwa [variable_https (h auth).scheme]
    rw [mode_self hmode] at hproxied
    exact hproxied
  have hauth : 0 < (basicLine (str "Proxy-Authorization") (str "u", [])).length :=
    basicLine_length (by decide)
  have hnone : (basicLine (str "Proxy-Authorization") ([], [])).length = 0 := rfl
  have hleft := hlength (str "u", [])
  have hright := hlength ([], [])
  have hboth := hleft.symm.trans (hsame.trans hright)
  omega

end tunnel

/-- **The tunnel shows the proxy** and its credentials, whatever the https URL,
the credentials and the proxy. -/
theorem tunnel_shows {R : Type} [ResponseClass R] [LawfulResponse R] {env : Environment}
    {w : World R} {parts : UrlParts} {proxy : ProxyParts}
    (hurl : urlParts (base w.response).url = some parts)
    (hscheme : toLower parts.protocol = str "https")
    (hproxy : proxyParts env.httpsProxy = some proxy) (hset : env.httpsProxy ≠ []) :
    (JustReset w.engine → ∀ auth, ¬ AsDirect env (w.setProxyAuth auth)) ∧
      ¬ HidesProxyAuth env w := by
  constructor
  · intro hw auth
    exact not_asDirect (w := w.setProxyAuth auth) (https_proxied hurl hscheme hproxy hset)
      (https_direct hurl hscheme) hset hw.httpProxy
  · exact not_hidesProxyAuth (fun auth => https_proxied hurl hscheme hproxy hset) hset

/-- A proxy for https. -/
def tunnelEnv : Environment := ⟨[], str "http://p:3128"⟩

theorem tunnel_shows_new :
    (∀ auth, ¬ AsDirect tunnelEnv ((newWorld (str "https://b/")).setProxyAuth auth)) ∧
      ¬ HidesProxyAuth tunnelEnv (newWorld (str "https://b/")) := by
  have hurl : urlParts (base (newWorld (str "https://b/")).response).url = some httpsParts := by
    decide
  have hproxy : proxyParts tunnelEnv.httpsProxy = some ⟨str "http", str "p", str "3128"⟩ := by
    decide
  obtain ⟨hdirect, hhides⟩ := tunnel_shows hurl (by decide) hproxy (by decide)
  exact ⟨hdirect .constructed, hhides⟩

/-- It is to be got with the password `p` for the proxy. -/
def tunnelWorld : World HttpResponse :=
  (newWorld (str "https://b/")).setProxyAuth (str "u", str "p")

/-- What `b` is sent with and without the proxy. -/
theorem tunnel_shows_password :
    (∃ hop, Writes tunnelEnv hop tunnelWorld
      (str "GET https://b:443/ HTTP/1.0\r\nHost: b\r\nProxy-Authorization: Basic dTpw\r\n" ++
        str "Accept: */*\r\nConnection: close\r\n\r\n\r\n")) ∧
    (∃ hop, Writes tunnelEnv.withoutHttps hop tunnelWorld
      (str "GET / HTTP/1.0\r\nHost: b\r\n" ++
        str "Accept: */*\r\nConnection: close\r\n\r\n\r\n")) ∧
    ¬ AsDirect tunnelEnv tunnelWorld := by
  have hurl : urlParts (base tunnelWorld.response).url = some httpsParts := by decide
  have hscheme : toLower httpsParts.protocol = str "https" := by decide
  have hproxy : proxyParts tunnelEnv.httpsProxy = some ⟨str "http", str "p", str "3128"⟩ := by
    decide
  have hset : Https tunnelEnv tunnelWorld httpsParts :=
    https_proxied hurl hscheme hproxy (by decide)
  have hunset : Https tunnelEnv.withoutHttps tunnelWorld httpsParts := https_direct hurl hscheme
  have htext : requestText (tunnelWorld.engine.overwrite tunnelEnv httpsParts) httpsParts
      ((base tunnelWorld.response).setHost httpsParts.host) =
        str "GET https://b:443/ HTTP/1.0\r\nHost: b\r\nProxy-Authorization: Basic dTpw\r\n" ++
          str "Accept: */*\r\nConnection: close\r\n\r\n\r\n" := by
    decide
  have hwrites := hset.writes
  rw [htext] at hwrites
  exact ⟨hwrites, hunset.writes, not_asDirect hset hunset (by decide) rfl⟩

end Anetd
