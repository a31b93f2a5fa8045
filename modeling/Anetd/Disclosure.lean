import Anetd.Callback
import Anetd.History
import Anetd.Hops

/-!
# Where the credentials go

A transfer goes to whatever host a redirect names, and takes along what has been
configured for it. So the credentials for the server are in the request of every
hop, and those for a proxy in every request from the first hop on that had one
(`credentials_disclosed`).
-/

namespace Anetd

section requests
variable {R : Type} [ResponseClass R] {env : Environment} {net : Network}

/-- A call writes at most the request that it has prepared. -/
theorem send_requests (env : Environment) (hop : Hop) (w : World R) :
    ∃ events, (send env hop w).2.trace = w.trace ++ events ∧
      ∀ type text, .request type text ∈ events → ∃ p, prepare env w.engine w.response = some p ∧
        type = p.engine.httpType ∧ text = p.request := by
  cases hp : prepare env w.engine w.response with
  | none =>
    refine ⟨[], ?_, fun _ _ h => by cases h⟩
    simp only [send, hp, List.append_nil]
  | some p =>
    refine ⟨p.events hop, send_trace hp hop, fun type text hmem => ⟨p, rfl, ?_⟩⟩
    obtain ⟨dials, hdials, hquiet⟩ := dial_events hop p
    rcases List.mem_append.mp hmem with hdialed | hwritten
    · rw [hdials] at hdialed
      rcases List.mem_cons.mp hdialed with hquery | hdialed
      · cases hquery
      · exact absurd (hquiet _ hdialed) (by simp [Event.dials])
    · split at hwritten
      · cases List.mem_singleton.mp hwritten
        exact ⟨rfl, rfl⟩
      · cases hwritten

/-- **The requests of a transfer** are those that are prepared on its hops. -/
theorem sendLoop_requests {calls : Nat} {w v : World R} {result : Except Stop Unit}
    (h : sendLoop env net calls w = some (result, v)) :
    ∃ events, v.trace = w.trace ++ events ∧ ∀ type text, .request type text ∈ events →
      ∃ k w' p, Followed env net k w w' ∧ prepare env w'.engine w'.response = some p ∧
        type = p.engine.httpType ∧ text = p.request := by
  induction calls generalizing w with
  | zero => cases h
  | succ calls ih =>
    obtain ⟨first, hfirst, hown⟩ := send_requests env (net w.trace) w
    have hends {u : World R} (hsend : (send env (net w.trace) w).2 = u) :
        ∃ events, u.trace = w.trace ++ events ∧ ∀ type text, .request type text ∈ events →
          ∃ k w' p, Followed env net k w w' ∧ prepare env w'.engine w'.response = some p ∧
            type = p.engine.httpType ∧ text = p.request := by
      refine ⟨first, by rw [← hsend, hfirst], fun type text hmem => ?_⟩
      obtain ⟨p, hp⟩ := hown type text hmem
      exact ⟨0, w, p, .none w, hp⟩
    rw [sendLoop] at h
    split at h
    · rename_i stop v' heq
      cases h
      exact hends (congrArg Prod.snd heq)
    · rename_i v' heq
      obtain ⟨rest, hrest, hlater⟩ := ih h
      obtain ⟨events, hevents, hhere⟩ := hends (congrArg Prod.snd heq)
      refine ⟨events ++ rest, by rw [hrest, hevents, List.append_assoc], ?_⟩
      intro type text hmem
      rcases List.mem_append.mp hmem with hmem | hmem
      · exact hhere type text hmem
      · obtain ⟨k, w', p, hfollowed, hp⟩ := hlater type text hmem
        exact ⟨k + 1, w', p, .more heq hfollowed, hp⟩
    · rename_i v' heq
      cases h
      exact hends (congrArg Prod.snd heq)

end requests

/-! ## What is in a request -/

theorem requestText_authorization (e : Engine) (parts : UrlParts) (r : HttpResponse) :
    basicLine (str "Authorization") r.httpauth <:+: requestText e parts r := by
  refine ⟨requestTarget e parts ++ (str " " ++ e.version ++ crlf) ++ headerText r.sendheaders, ?_⟩
  simp only [requestText, List.append_assoc]
  exact ⟨_, rfl⟩

theorem requestText_proxyAuthorization {e : Engine} (hmode : e.httpProxy = .httpProxy)
    (parts : UrlParts) (r : HttpResponse) :
    basicLine (str "Proxy-Authorization") e.proxyauth <:+: requestText e parts r := by
  refine ⟨requestTarget e parts ++ (str " " ++ e.version ++ crlf) ++ headerText r.sendheaders ++
    basicLine (str "Authorization") r.httpauth, ?_⟩
  simp only [requestText, hmode, if_true, List.append_assoc]
  exact ⟨_, rfl⟩

section transfer
variable {R : Type} [ResponseClass R] [LawfulResponse R] {env : Environment} {net : Network}
variable {us : List UrlParts} {w w' : World R} {p : Prepared R}

theorem Carries.authorization (hc : Carries env us w w')
    (hp : prepare env w'.engine w'.response = some p) :
    basicLine (str "Authorization") (base w.response).httpauth <:+: p.request := by
  have hauth : (base p.response).httpauth = (base w.response).httpauth := by
    rcases (prepare_cases hp).2 with ⟨-, -, -, hresponse⟩ | ⟨-, -, -, hresponse⟩
    · rw [hresponse, LawfulResponse.base_update]
      exact hc.httpauth
    · rw [hresponse]
      exact hc.httpauth
  rw [request_lawful, ← hauth]
  exact requestText_authorization _ _ _

theorem Carries.proxyAuthorization (hc : Carries env us w w')
    (hp : prepare env w'.engine w'.response = some p)
    (hproxied : ∃ u ∈ us ++ [p.parts], u.Known ∧ env.variable u ≠ []) :
    basicLine (str "Proxy-Authorization") w.engine.proxyauth <:+: p.request := by
  have hsettings : p.engine.settings = w.engine.settings := (prepare_settings hp).trans hc.settings
  have hfields := congrArg Engine.proxyauth hsettings
  have hauth : p.engine.proxyauth = w.engine.proxyauth := hfields
  have hmode : p.engine.httpProxy = .httpProxy := by
    obtain ⟨u, hu, hknown, hset⟩ := hproxied
    have hearlier (hu : u ∈ us) : w'.engine.httpProxy = .httpProxy :=
      hc.proxied ⟨u, hu, hknown, hset⟩
    rcases (prepare_cases hp).2 with ⟨-, -, hengine, -⟩ | ⟨hunknown, -, hengine, -⟩
    · rw [hengine]
      by_cases hhere : env.variable p.parts ≠ []
      · exact if_pos hhere
      · rw [overwrite_unset (not_not.mp hhere)]
        rcases List.mem_append.mp hu with hu | hu
        · exact hearlier hu
        · rw [List.mem_singleton.mp hu] at hset
          exact absurd hset hhere
    · rw [hengine]
      rcases List.mem_append.mp hu with hu | hu
      · exact hearlier hu
      · rw [List.mem_singleton.mp hu] at hknown
        exact absurd hknown hunknown
  rw [request_lawful, ← hauth]
  exact requestText_proxyAuthorization hmode _ _

/-- **Every server that a transfer is led to gets the credentials**, over TLS or
in plain text; and those for the proxy too, once one hop has had a proxy. -/
theorem credentials_disclosed {calls : Nat} {v : World R} {result : Except Stop Unit}
    (h : connect env net calls w = some (result, v)) :
    ∃ events, v.trace = w.trace ++ events ∧ ∀ type text, .request type text ∈ events →
      ∃ us w' p, Visited env net us w w' ∧ prepare env w'.engine w'.response = some p ∧
        type = p.engine.httpType ∧ text = p.request ∧
        basicLine (str "Authorization") (base w.response).httpauth <:+: text ∧
        ((∃ u ∈ us ++ [p.parts], u.Known ∧ env.variable u ≠ []) →
          basicLine (str "Proxy-Authorization") w.engine.proxyauth <:+: text) := by
  obtain ⟨⟨result', v'⟩, hloop, heq⟩ := Option.map_eq_some_iff.mp h
  obtain ⟨events, htrace, hrequests⟩ := sendLoop_requests hloop
  have hall (type : HttpType) (text : Bytes) (hmem : .request type text ∈ events) :
      ∃ us w' p, Visited env net us w w' ∧ prepare env w'.engine w'.response = some p ∧
        type = p.engine.httpType ∧ text = p.request ∧
        basicLine (str "Authorization") (base w.response).httpauth <:+: text ∧
        ((∃ u ∈ us ++ [p.parts], u.Known ∧ env.variable u ≠ []) →
          basicLine (str "Proxy-Authorization") w.engine.proxyauth <:+: text) := by
    obtain ⟨k, w', p, hfollowed, hp, rfl, rfl⟩ := hrequests type text hmem
    obtain ⟨us, -, hvisited⟩ := hfollowed.visited
    have hcarries : Carries env us w w' := hvisited.carries (.refl w)
    exact ⟨us, w', p, hvisited, hp, rfl, rfl, hcarries.authorization hp,
      hcarries.proxyAuthorization hp⟩
  cases result' with
  | error stop =>
    cases heq
    exact ⟨events, htrace, hall⟩
  | ok =>
    cases heq
    refine ⟨events ++ [.callback], by rw [htrace, List.append_assoc], fun type text hmem => ?_⟩
    rcases List.mem_append.mp hmem with hmem | hmem
    · exact hall type text hmem
    · cases List.mem_singleton.mp hmem

/-- Both servers of a transfer that is moved from one to the other. -/
theorem credentials_disclosed_moved : ∃ result v,
    connect ⟨[], []⟩ moving 2
        ⟨.new, ((HttpResponse.new.setURL movedUrl).setHTTPAuth (str "u") (str "p")).2, []⟩ =
        some (result, v) ∧
      ∃ events, v.trace = [] ++ events ∧ ∀ type text, .request type text ∈ events →
        basicLine (str "Authorization") (str "u", str "p") <:+: text := by
  have hends : (connect ⟨[], []⟩ moving 2
      ⟨.new, ((HttpResponse.new.setURL movedUrl).setHTTPAuth (str "u") (str "p")).2, []⟩).isSome =
        true := by decide +kernel
  obtain ⟨⟨result, v⟩, hconnect⟩ := Option.isSome_iff_exists.mp hends
  obtain ⟨events, htrace, hall⟩ := credentials_disclosed hconnect
  refine ⟨result, v, hconnect, events, htrace, fun type text hmem => ?_⟩
  obtain ⟨us, w', p, -, -, -, -, hauthorization, -⟩ := hall type text hmem
  exact hauthorization

end transfer

end Anetd
