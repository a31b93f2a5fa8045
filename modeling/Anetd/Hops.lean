import Anetd.Derived
import Anetd.Redirects
import Anetd.Wire

/-!
# What one hop hands to the next

`send` assigns some of the fields that feed its request on some branches only,
and a redirect resets none of them. `Carries` says what the hops of a run have
left in the engine and the response, and `hop_alone_iff` for which URLs it
shows in the next request.
-/

namespace Anetd

open Lib.Machine Lib.OrdMap

/-! ## What `receive` leaves alone -/

/-- The engine without what a redirect and the sockets change of it. -/
def Engine.carried (e : Engine) : Engine :=
  { e with url := [], redirtimes := 0, socketOpen := false, sslsocketOpen := false }

/-- The fields that no call of `send` assigns. -/
def Engine.settings (e : Engine) : Engine :=
  { e.carried with host := [], targeturl := [], httpProxy := .none, httpType := .plainHttp }

/-- A response with the request headers and the credentials of another. -/
def Keeps {R : Type} [ResponseClass R] (b : HttpResponse) (r : R) : Prop :=
  (base r).sendheaders = b.sendheaders ∧ (base r).httpauth = b.httpauth

section keeps
variable {R : Type} [ResponseClass R] [LawfulResponse R] {b : HttpResponse}

theorem Keeps.update {r : R} (h : Keeps b r) {f : HttpResponse → HttpResponse}
    (hf : ∀ c, (f c).sendheaders = c.sendheaders ∧ (f c).httpauth = c.httpauth) :
    Keeps b (update f r) := by
  obtain ⟨hheaders, hauth⟩ := hf (base r)
  rw [Keeps, LawfulResponse.base_update]
  exact ⟨hheaders.trans h.1, hauth.trans h.2⟩

variable (d : Disconnection) {f : Frame R}

theorem redirect_keeps (h : Keeps b f.response) :
    (redirect d f).result = .ok true → Keeps b (redirect d f).response := by
  let E : Exit R → Prop := fun x => x.result = .ok true → Keeps b x.response
  apply redirect_rule d f (E := E)
  · intro e hresult
    cases hresult
  · intro se e r _ hresult
    cases hresult
  · intro e url _
    rw [Keeps, LawfulResponse.base_setURL]
    exact h

/-- **What `send` reads of the response, no byte changes.** -/
theorem step_keeps (h : Keeps b f.response) (c : Byte) :
    Both (fun x => x.result = .ok true → Keeps b x.response) (fun g => Keeps b g.response)
      (step d f c) := by
  have hparse : Both (fun x => x.result = .ok true → Keeps b x.response)
      (fun g => Keeps b g.response) (parse d f [c]) := by
    apply parse_rule (fun g r hg hr => hr.update fun c => (hg c).2) ?_ ?_
      (fun f hf => redirect_keeps d hf) h
    · intro e r _ hresult
      cases hresult
    · intro f _ hresult
      cases hresult
  rwa [parse, run_singleton] at hparse

theorem receiveLoop_keeps (reads : List (Read 2048)) (buffer : Buffer) (h : Keeps b f.response)
    (hresult : (receiveLoop d reads buffer f).1.result = .ok true) :
    Keeps b (receiveLoop d reads buffer f).1.response := by
  let I : Frame R → Prop := fun f => Keeps b f.response
  let E : Exit R → Prop := fun x => x.result = .ok true → Keeps b x.response
  have flushes (f : Frame R) (r : R) (hf : I f) (hflush : ResponseClass.flush f.response = .ok r) :
      I { f with response := r } := by
    obtain ⟨hheaders, hauth⟩ := LawfulResponse.base_flush hflush
    exact ⟨hheaders.trans hf.1, hauth.trans hf.2⟩
  have throws (stop : Stop) (e : Engine) (r : R) : E ⟨.error stop, e, r⟩ := fun hstop => by
    cases hstop
  have reads_end (f : Frame R) (ec : ErrorCode) (_ : I f) : E (handle (.systemError ec) f) := by
    intro hend
    unfold handle at hend
    split at hend <;> cases hend
  have completes (f : Frame R) (_ : I f) (_ : f.parserState = .ok) : E (complete f) :=
    fun hend => by cases hend
  exact receiveLoop_rule (I := I) (E := E) (fun f c hf => step_keeps d hf c) flushes
    (fun f x r _ _ => throws _ _ _) (fun f _ => throws _ _ _) reads_end completes h reads buffer
    hresult

theorem send_keeps {env : Environment} {hop : Hop} {w w' : World R} {p : Prepared R}
    (hp : prepare env w.engine w.response = some p) (h : send env hop w = (.ok true, w')) :
    Keeps (base p.response) w'.response := by
  obtain ⟨p', hp', hdial, hsent, -⟩ := send_followed h
  obtain rfl : p' = p := Option.some.inj (hp'.symm.trans hp)
  rw [send_received hp hdial hsent] at h
  obtain ⟨hresult, rfl⟩ := Prod.mk.inj h
  have hstart : Keeps (base p'.response)
      (ResponseClass.update (fun b => b.setContentLength p'.engine.body.length) p'.response) :=
    Keeps.update ⟨rfl, rfl⟩ fun _ => ⟨rfl, rfl⟩
  exact receiveLoop_keeps hop.disconnection (f := .start _ _) (hop.reads p'.request) hop.buffer
    hstart hresult

end keeps

section carried
variable {R : Type} [ResponseClass R]

/-- **What a followed redirect hands on** of the engine, `prepare` has put there. -/
theorem send_carried {env : Environment} {hop : Hop} {w w' : World R}
    (h : send env hop w = (.ok true, w')) :
    ∃ p, prepare env w.engine w.response = some p ∧ w'.engine.carried = p.engine.carried := by
  obtain ⟨p, hp, -, -, -, url, hengine⟩ := send_followed h
  refine ⟨p, hp, ?_⟩
  rw [hengine, Engine.disconnect_fields, dialed_fields]
  rfl

/-! ## Runs with their URLs -/

variable (env : Environment) (net : Network)

/-- A run of the loop through redirects, with the URLs it went to. -/
inductive Visited : List UrlParts → World R → World R → Prop where
  | none (w : World R) : Visited [] w w
  | more {parts : UrlParts} {us : List UrlParts} {w v w' : World R}
      (hurl : urlParts (base w.response).url = some parts)
      (h : send env (net w.trace) w = (.ok true, v)) (rest : Visited us v w') :
      Visited (parts :: us) w w'

variable {env net}

/-- It is the run that `connect` makes. -/
theorem Followed.visited {k : Nat} {w w' : World R} (h : Followed env net k w w') :
    ∃ us, us.length = k ∧ Visited env net us w w' := by
  induction h with
  | none w => exact ⟨[], rfl, .none w⟩
  | @more k w v w' hsend rest ih =>
    obtain ⟨us, hlength, hvisited⟩ := ih
    obtain ⟨p, hp, -⟩ := send_carried hsend
    exact ⟨p.parts :: us, congrArg (· + 1) hlength, .more (prepare_cases hp).1 hsend hvisited⟩

/-- What the hops to some URLs have left in a world. -/
structure Carries (env : Environment) (us : List UrlParts) (w w' : World R) : Prop where
  settings : w'.engine.settings = w.engine.settings
  httpauth : (base w'.response).httpauth = (base w.response).httpauth
  proxied : (∃ u ∈ us, u.Known ∧ env.variable u ≠ []) → w'.engine.httpProxy = .httpProxy
  unproxied : (∀ u ∈ us, u.Known → env.variable u = []) →
    w'.engine.httpProxy = w.engine.httpProxy
  routed : (∃ u ∈ us, u.Known) → ∃ host, (base w'.response).sendheaders =
    (base w.response).sendheaders.set (str "Host") host
  unrouted : (∀ u ∈ us, ¬ u.Known) → w'.engine.host = w.engine.host ∧
    w'.engine.httpType = w.engine.httpType ∧
    (base w'.response).sendheaders = (base w.response).sendheaders

theorem Carries.refl (w : World R) : Carries env [] w w where
  settings := rfl
  httpauth := rfl
  proxied := by
    rintro ⟨u, hu, -⟩
    cases hu
  unproxied := fun _ => rfl
  routed := by
    rintro ⟨u, hu, -⟩
    cases hu
  unrouted := fun _ => ⟨rfl, rfl, rfl⟩

end carried

section runs
variable {R : Type} [ResponseClass R] {env : Environment} {net : Network}
variable {us : List UrlParts} {w v v' : World R} {parts : UrlParts}

/-- The Host header is the only one that differs. -/
theorem Carries.setHost (hc : Carries env us w v) (host : Bytes) :
    (base v.response).sendheaders.set (str "Host") host =
      (base w.response).sendheaders.set (str "Host") host := by
  by_cases hany : ∃ u ∈ us, u.Known
  · obtain ⟨host', hhost⟩ := hc.routed hany
    rw [hhost, set_set]
  · have hnone : ∀ u ∈ us, ¬ u.Known := fun u hu huknown => hany ⟨u, hu, huknown⟩
    rw [(hc.unrouted hnone).2.2]

/-- A hop to a known scheme overwrites what the ones before have left, but for
the proxy mode, which it only turns on. -/
theorem Carries.known (hc : Carries env us w v) (hknown : parts.Known)
    (hengine : v'.engine.carried = (v.engine.overwrite env parts).carried)
    (hheaders : (base v'.response).sendheaders =
      (base v.response).sendheaders.set (str "Host") parts.host)
    (hauth : (base v'.response).httpauth = (base v.response).httpauth) :
    Carries env (us ++ [parts]) w v' := by
  have hmode : v'.engine.httpProxy =
      if env.variable parts ≠ [] then .httpProxy else v.engine.httpProxy :=
    congrArg Engine.httpProxy hengine
  constructor
  · exact (congrArg Engine.settings hengine).trans hc.settings
  · exact hauth.trans hc.httpauth
  · rintro ⟨u, hu, huknown, hset⟩
    rw [hmode]
    split
    · rfl
    · rename_i hunset
      rcases List.mem_append.mp hu with hu | hu
      · exact hc.proxied ⟨u, hu, huknown, hset⟩
      · rw [List.mem_singleton.mp hu] at hset
        exact absurd hset hunset
  · intro hall
    have hunset : ¬ env.variable parts ≠ [] :=
      not_not_intro (hall parts (List.mem_append_right _ List.mem_cons_self) hknown)
    rw [hmode, if_neg hunset]
    exact hc.unproxied fun u hu => hall u (List.mem_append_left _ hu)
  · intro _
    refine ⟨parts.host, ?_⟩
    rw [hheaders, hc.setHost]
  · intro hnone
    exact absurd hknown (hnone parts (List.mem_append_right _ List.mem_cons_self))

/-- A hop to another scheme leaves it all. -/
theorem Carries.unknown (hc : Carries env us w v) (hunknown : ¬ parts.Known)
    (hengine : v'.engine.carried = v.engine.carried)
    (hheaders : (base v'.response).sendheaders = (base v.response).sendheaders)
    (hauth : (base v'.response).httpauth = (base v.response).httpauth) :
    Carries env (us ++ [parts]) w v' := by
  have hfields := congrArg Engine.httpProxy hengine
  have hmode : v'.engine.httpProxy = v.engine.httpProxy := hfields
  have hearlier {u : UrlParts} (hu : u ∈ us ++ [parts]) (huknown : u.Known) : u ∈ us := by
    rcases List.mem_append.mp hu with hu | hu
    · exact hu
    · rw [List.mem_singleton.mp hu] at huknown
      exact absurd huknown hunknown
  constructor
  · exact (congrArg Engine.settings hengine).trans hc.settings
  · exact hauth.trans hc.httpauth
  · rintro ⟨u, hu, huknown, hset⟩
    exact hmode.trans (hc.proxied ⟨u, hearlier hu huknown, huknown, hset⟩)
  · intro hall
    exact hmode.trans (hc.unproxied fun u hu => hall u (List.mem_append_left _ hu))
  · rintro ⟨u, hu, huknown⟩
    rw [hheaders]
    exact hc.routed ⟨u, hearlier hu huknown, huknown⟩
  · intro hnone
    obtain ⟨hhost, htype, hsent⟩ := hc.unrouted fun u hu => hnone u (List.mem_append_left _ hu)
    exact ⟨(congrArg Engine.host hengine).trans hhost,
      (congrArg Engine.httpType hengine).trans htype, hheaders.trans hsent⟩

variable [LawfulResponse R]

/-- One more hop. -/
theorem Carries.hop {hop : Hop} (hc : Carries env us w v)
    (hurl : urlParts (base v.response).url = some parts)
    (h : send env hop v = (.ok true, v')) : Carries env (us ++ [parts]) w v' := by
  obtain ⟨p, hp, hcarried⟩ := send_carried h
  obtain ⟨hheaders, hauth⟩ := send_keeps hp h
  obtain ⟨hparts, hcases⟩ := prepare_cases hp
  obtain rfl : p.parts = parts := Option.some.inj (hparts.symm.trans hurl)
  rcases hcases with ⟨hknown, -, hengine, hresponse⟩ | ⟨hunknown, -, hengine, hresponse⟩
  · rw [hengine] at hcarried
    rw [hresponse, LawfulResponse.base_update] at hheaders hauth
    exact hc.known hknown hcarried hheaders hauth
  · rw [hengine] at hcarried
    rw [hresponse] at hheaders hauth
    exact hc.unknown hunknown hcarried hheaders hauth

/-- **A whole run.** -/
theorem Visited.carries {us' : List UrlParts} {w' : World R} (h : Visited env net us' v w')
    (hc : Carries env us w v) : Carries env (us ++ us') w w' := by
  induction h generalizing us with
  | none v => rwa [List.append_nil]
  | @more parts us' v v₁ w' hurl hsend rest ih =>
    have hall := ih (hc.hop hurl hsend)
    rwa [List.append_assoc, List.singleton_append] at hall

end runs

/-! ## A hop and a fresh engine -/

section alone
variable {R : Type} [ResponseClass R] {env : Environment} {us : List UrlParts}
variable {w w' v : World R} {parts : UrlParts}

/-- A transfer to the URL of a hop alone, by an engine that has just been reset,
with the credentials and the request headers from the start of the run. -/
structure Alone (w w' v : World R) : Prop where
  fresh : JustReset v.engine
  proxyauth : v.engine.proxyauth = w.engine.proxyauth
  body : v.engine.body = w.engine.body
  httpauth : (base v.response).httpauth = (base w.response).httpauth
  sendheaders : (base v.response).sendheaders = (base w.response).sendheaders
  url : (base v.response).url = (base w'.response).url

/-- The hop connects, commands and requests as that transfer does, and is in
proxy mode exactly when the variable of its scheme is set. -/
structure HopAlone (env : Environment) (w' v : World R) : Prop where
  wires : ∀ hop, w'.wires env hop = v.wires env hop
  mode : ∀ p, prepare env w'.engine w'.response = some p →
    (p.engine.httpProxy = .httpProxy ↔ p.parts.Known ∧ env.variable p.parts ≠ [])

/-- The variable of the scheme is set, or that of no earlier hop was; and no
hop with a scheme that `send` knows comes before one with another. -/
def Unmixed (env : Environment) (us : List UrlParts) (parts : UrlParts) : Prop :=
  if parts.Known then env.variable parts ≠ [] ∨ ∀ u ∈ us, u.Known → env.variable u = []
  else ∀ u ∈ us, ¬ u.Known

theorem JustReset.host {e : Engine} (h : JustReset e) : e.host = [] := by
  cases h <;> rfl

theorem JustReset.settings {e : Engine} (h : JustReset e) :
    e.settings = { Engine.new.settings with proxyauth := e.proxyauth, body := e.body } := by
  cases h <;> rfl

theorem overwrite_still {e e' : Engine} (hsettings : e.settings = e'.settings)
    (hmode : env.variable parts ≠ [] ∨ e.httpProxy = e'.httpProxy) :
    (e.overwrite env parts).still = (e'.overwrite env parts).still := by
  have hfields (e : Engine) : (e.overwrite env parts).still =
      { e.settings.overwrite env parts with
        httpProxy := if env.variable parts ≠ [] then .httpProxy else e.httpProxy } := rfl
  rw [hfields e, hfields e', hsettings]
  rcases hmode with hset | hsame
  · rw [if_pos hset, if_pos hset]
  · rw [hsame]

/-- Two overwritten engines differ in a request by their proxy modes at most. -/
theorem overwrite_asked {e e' : Engine} (hsettings : e.settings = e'.settings)
    (env env' : Environment) :
    ((e.overwrite env parts).mode .none).asked = ((e'.overwrite env' parts).mode .none).asked := by
  have hfields (e : Engine) (env : Environment) : ((e.overwrite env parts).mode .none).asked =
      ((e.settings.overwrite ⟨[], []⟩ parts).mode .none).asked := rfl
  rw [hfields e, hfields e', hsettings]

theorem overwrite_host (e : Engine) : (e.overwrite env parts).host ≠ [] := by
  change toLower parts.protocol ++ str "://" ++ parts.host ++ str ":" ++ parts.portOrDefault ≠ []
  intro hnil
  simp only [List.append_eq_nil_iff] at hnil
  exact absurd hnil.1.2 (by decide)

theorem Alone.settings (ha : Alone w w' v) (hw : JustReset w.engine)
    (hc : Carries env us w w') : w'.engine.settings = v.engine.settings := by
  rw [hc.settings, hw.settings, ha.fresh.settings, ha.proxyauth, ha.body]

section forward
variable [LawfulResponse R] (hw : JustReset w.engine) (hc : Carries env us w w')
variable (ha : Alone w w' v)
include hw hc ha

/-- For a known scheme nothing but the proxy mode can differ. -/
theorem known_wire (hmode : env.variable parts ≠ [] ∨ w'.engine.httpProxy = v.engine.httpProxy)
    (target : Target) : SameWire
      (⟨parts, target, w'.engine.overwrite env parts,
        update (fun b => b.setHost parts.host) w'.response⟩ : Prepared R)
      ⟨parts, target, v.engine.overwrite env parts,
        update (fun b => b.setHost parts.host) v.response⟩ := by
  have hstill : (w'.engine.overwrite env parts).still = (v.engine.overwrite env parts).still :=
    overwrite_still (ha.settings hw hc) hmode
  refine ⟨rfl, rfl, command_congr hstill, ?_⟩
  have hasked := congrArg Engine.asked hstill
  rw [request_lawful, request_lawful]
  refine requestText_congr parts hasked ?_ ?_
  · rw [LawfulResponse.base_update, LawfulResponse.base_update]
    refine (hc.setHost parts.host).trans ?_
    rw [← ha.sendheaders]
    rfl
  · rw [LawfulResponse.base_update, LawfulResponse.base_update]
    exact hc.httpauth.trans ha.httpauth.symm

/-- For another scheme nothing can, as long as nothing has been assigned. -/
theorem unknown_wire (hnone : ∀ u ∈ us, ¬ u.Known) (target : Target) : SameWire
      (⟨parts, target, { w'.engine with url := parts.path }, w'.response⟩ : Prepared R)
      ⟨parts, target, { v.engine with url := parts.path }, v.response⟩ := by
  obtain ⟨hhost, htype, hheaders⟩ := hc.unrouted hnone
  have hproxy : w'.engine.httpProxy = .none :=
    (hc.unproxied fun u hu hknown => absurd hknown (hnone u hu)).trans hw.httpProxy
  have hasked : ({ w'.engine with url := parts.path } : Engine).asked =
      ({ v.engine with url := parts.path } : Engine).asked := by
    have hfields (e : Engine) : ({ e with url := parts.path } : Engine).asked =
        { e.settings with
          url := parts.path
          host := e.host
          httpProxy := e.httpProxy
          httpType := e.httpType } := rfl
    rw [hfields, hfields, ha.settings hw hc, hhost, htype, hproxy, hw.host, hw.httpType,
      ha.fresh.host, ha.fresh.httpType, ha.fresh.httpProxy]
  have hcommand {e : Engine} (h : e.httpProxy = .none) : e.command = none := by
    rw [Engine.command, h]
    rfl
  constructor
  · rfl
  · exact htype.trans (hw.httpType.trans ha.fresh.httpType.symm)
  · exact (hcommand hproxy).trans (hcommand ha.fresh.httpProxy).symm
  · rw [request_lawful, request_lawful]
    exact requestText_congr parts hasked (hheaders.trans ha.sendheaders.symm)
      (hc.httpauth.trans ha.httpauth.symm)

theorem known_alone (hurl : urlParts (base w'.response).url = some parts) (hknown : parts.Known)
    (h : env.variable parts ≠ [] ∨ ∀ u ∈ us, u.Known → env.variable u = []) :
    HopAlone env w' v := by
  have hurl' : urlParts (base v.response).url = some parts := by rw [ha.url, hurl]
  have hmode : env.variable parts ≠ [] ∨ w'.engine.httpProxy = .none :=
    h.imp id fun hunset => (hc.unproxied hunset).trans hw.httpProxy
  constructor
  · intro hop
    have hp := prepare_known env w'.engine hurl hknown
    have hq := prepare_known env v.engine hurl' hknown
    cases hendpoint : endpoint env parts with
    | none =>
      rw [hendpoint] at hp hq
      rw [wires_unprepared hp, wires_unprepared hq]
    | some target =>
      rw [hendpoint] at hp hq
      rw [wires_prepared hp, wires_prepared hq]
      refine (known_wire hw hc ha ?_ target).events hop
      exact hmode.imp id fun hnone => hnone.trans ha.fresh.httpProxy.symm
  · intro p hp
    obtain ⟨hparts, ⟨-, -, hengine, -⟩ | ⟨hunknown, -⟩⟩ := prepare_cases hp <;>
      obtain rfl : p.parts = parts := Option.some.inj (hparts.symm.trans hurl)
    · rw [hengine, overwrite_mode hmode]
      exact ⟨fun hset => ⟨hknown, hset⟩, fun hboth => hboth.2⟩
    · exact absurd hknown hunknown

theorem unknown_alone (hurl : urlParts (base w'.response).url = some parts)
    (hunknown : ¬ parts.Known) (hnone : ∀ u ∈ us, ¬ u.Known) : HopAlone env w' v := by
  have hurl' : urlParts (base v.response).url = some parts := by rw [ha.url, hurl]
  have hp := prepare_unknown env w'.engine hurl hunknown
  have hq := prepare_unknown env v.engine hurl' hunknown
  constructor
  · intro hop
    rw [wires_prepared hp, wires_prepared hq]
    exact (unknown_wire hw hc ha hnone ⟨parts.host, parts.port⟩).events hop
  · intro p hp'
    rw [hp] at hp'
    obtain rfl := Option.some.inj hp'
    have hproxy : w'.engine.httpProxy = .none :=
      (hc.unproxied fun u hu hknown => absurd hknown (hnone u hu)).trans hw.httpProxy
    constructor
    · intro hmode
      exact absurd (hproxy.symm.trans hmode) (by decide)
    · rintro ⟨hknown, -⟩
      exact absurd hknown hunknown

theorem alone_of_unmixed (hurl : urlParts (base w'.response).url = some parts)
    (h : Unmixed env us parts) : HopAlone env w' v := by
  by_cases hknown : parts.Known
  · rw [Unmixed, if_pos hknown] at h
    exact known_alone hw hc ha hurl hknown h
  · rw [Unmixed, if_neg hknown] at h
    exact unknown_alone hw hc ha hurl hknown h

end forward

section backward
variable [LawfulResponse R] (hw : JustReset w.engine) (hc : Carries env us w w')
variable (ha : Alone w w' v)

/-- The two calls write one request. -/
theorem HopAlone.request (h : HopAlone env w' v) {p q : Prepared R}
    (hp : prepare env w'.engine w'.response = some p)
    (hq : prepare env v.engine v.response = some q) :
    requestText p.engine p.parts (base p.response) =
      requestText q.engine q.parts (base q.response) := by
  rw [← request_lawful, ← request_lawful]
  apply request_of_events
  intro hop
  rw [← wires_prepared hp, ← wires_prepared hq]
  exact h.wires hop

include hw hc ha

/-- A variable that an earlier hop found set leaves its proxy mode on. -/
theorem known_mixed (hurl : urlParts (base w'.response).url = some parts) (hknown : parts.Known)
    (hunset : env.variable parts = []) (hset : ∃ u ∈ us, u.Known ∧ env.variable u ≠ []) :
    ¬ HopAlone env w' v := by
  intro h
  have hurl' : urlParts (base v.response).url = some parts := by rw [ha.url, hurl]
  have hendpoint : endpoint env parts = some ⟨parts.host, parts.portOrDefault⟩ := by
    rw [endpoint, if_neg (not_not_intro hunset)]
  have hp := prepare_known env w'.engine hurl hknown
  have hq := prepare_known env v.engine hurl' hknown
  rw [hendpoint] at hp hq
  have hrequest := congrArg List.length (h.request hp hq)
  have hlonger : (requestText (v.engine.overwrite env parts) parts
      (base (update (fun b => b.setHost parts.host) v.response))).length <
        (requestText (w'.engine.overwrite env parts) parts
          (base (update (fun b => b.setHost parts.host) w'.response))).length := by
    apply requestText_longer
    · exact (overwrite_unset hunset).trans (hc.proxied hset)
    · exact (overwrite_unset hunset).trans ha.fresh.httpProxy
    · exact overwrite_host w'.engine
    · exact overwrite_asked (ha.settings hw hc) env env
    · rw [LawfulResponse.base_update, LawfulResponse.base_update]
      exact (hc.setHost parts.host).trans (by rw [← ha.sendheaders]; rfl)
    · rw [LawfulResponse.base_update, LawfulResponse.base_update]
      exact hc.httpauth.trans ha.httpauth.symm
  exact absurd hrequest.symm (Nat.ne_of_lt hlonger)

/-- A hop that `send` has a scheme for leaves its Host header. -/
theorem unknown_mixed (hheaders : (base w.response).sendheaders.find? (str "Host") = none)
    (hurl : urlParts (base w'.response).url = some parts) (hunknown : ¬ parts.Known)
    (hany : ∃ u ∈ us, u.Known) : ¬ HopAlone env w' v := by
  intro h
  have hurl' : urlParts (base v.response).url = some parts := by rw [ha.url, hurl]
  have hp := prepare_unknown env w'.engine hurl hunknown
  have hq := prepare_unknown env v.engine hurl' hunknown
  have hrequest := congrArg List.length (h.request hp hq)
  obtain ⟨host, hsent⟩ := hc.routed hany
  have hheader : (requestText { v.engine with url := parts.path } parts (base v.response)).length <
      (requestText { v.engine with url := parts.path } parts (base w'.response)).length := by
    apply requestText_headers
    · exact ha.httpauth.trans hc.httpauth.symm
    · rw [hsent, ha.sendheaders]
      exact headerText_set host hheaders
  have hmode : (requestText { v.engine with url := parts.path } parts (base w'.response)).length ≤
      (requestText { w'.engine with url := parts.path } parts (base w'.response)).length := by
    have hfields (e : Engine) (r : HttpResponse) :
        requestText (Engine.mode { e with url := parts.path } .none) parts r =
          requestText { e.settings with url := parts.path } parts r := rfl
    have hself : Engine.mode { v.engine with url := parts.path } .none =
        { v.engine with url := parts.path } := mode_self ha.fresh.httpProxy
    rw [← hself, hfields, ← ha.settings hw hc, ← hfields]
    refine requestText_mode_le ?_ parts _
    by_cases hset : ∃ u ∈ us, u.Known ∧ env.variable u ≠ []
    · exact .inr (hc.proxied hset)
    · refine .inl ((hc.unproxied fun u hu hknown => ?_).trans hw.httpProxy)
      exact Classical.not_not.mp fun hne => hset ⟨u, hu, hknown, hne⟩
  exact absurd hrequest.symm (Nat.ne_of_lt (Nat.lt_of_lt_of_le hheader hmode))

theorem unmixed_of_alone (hheaders : (base w.response).sendheaders.find? (str "Host") = none)
    (hurl : urlParts (base w'.response).url = some parts) (h : HopAlone env w' v) :
    Unmixed env us parts := by
  unfold Unmixed
  split
  · rename_i hknown
    by_cases hset : env.variable parts ≠ []
    · exact .inl hset
    · right
      intro u hu huknown
      apply Classical.byContradiction
      intro hearlier
      exact known_mixed hw hc ha hurl hknown (Classical.not_not.mp hset)
        ⟨u, hu, huknown, hearlier⟩ h
  · rename_i hunknown
    intro u hu huknown
    exact unknown_mixed hw hc ha hheaders hurl hunknown ⟨u, hu, huknown⟩ h

end backward

end alone

/-- **No state leaks from one hop's request into the next**, in any run from an
engine that has just been reset, as long as its URLs are not mixed; and only
then, of a response that has no Host header at the start. -/
theorem hop_alone_iff {R : Type} [ResponseClass R] [LawfulResponse R] {env : Environment}
    {net : Network} {us : List UrlParts} {w w' v : World R} {parts : UrlParts}
    (hw : JustReset w.engine) (hrun : Visited env net us w w') (ha : Alone w w' v)
    (hurl : urlParts (base w'.response).url = some parts) :
    (Unmixed env us parts → HopAlone env w' v) ∧
      ((base w.response).sendheaders.find? (str "Host") = none →
        (HopAlone env w' v ↔ Unmixed env us parts)) := by
  have hc : Carries env us w w' := hrun.carries (.refl w)
  constructor
  · exact alone_of_unmixed hw hc ha hurl
  · intro hheaders
    constructor
    · exact unmixed_of_alone hw hc ha hheaders hurl
    · exact alone_of_unmixed hw hc ha hurl

/-! ## From a proxy to a direct connection -/

/-- A proxy for http and none for https. -/
def mixedEnv : Environment := ⟨str "http://p:3128", []⟩

def mixedHead : Head := foundHead (str "Location: https://b/\r") (by decide)

def mixedHop : Hop := answering ⟨mixedHead.text, by decide, by decide⟩ ⟨none, none⟩

def httpParts : UrlParts := ⟨str "http", str "a", [], str "/", [], []⟩

def httpsParts : UrlParts := ⟨str "https", str "b", [], str "/", [], []⟩

/-- A new engine that is to get a URL. -/
def newWorld (url : Bytes) : World HttpResponse := ⟨.new, HttpResponse.new.setURL url, []⟩

def mixedPrepared : Prepared HttpResponse where
  parts := httpParts
  target := ⟨str "p", str "3128"⟩
  engine := Engine.new.overwrite mixedEnv httpParts
  response := (HttpResponse.new.setURL (str "http://a/")).setHost (str "a")

/-- The world after the redirect from http to https. -/
def mixedWorld : World HttpResponse :=
  (newWorld (str "http://a/")).next mixedHop mixedPrepared (str "https://b/")

theorem mixed_visited : Visited mixedEnv (fun _ => mixedHop) [httpParts]
    (newWorld (str "http://a/")) mixedWorld := by
  have hhttp : urlParts (str "http://a/") = some httpParts := by decide
  have hhttps : urlParts (str "https://b/") = some httpsParts := by decide
  have hproxy : proxyParts (str "http://p:3128") = some ⟨str "http", str "p", str "3128"⟩ := by
    decide
  have hprepare : prepare mixedEnv (newWorld (str "http://a/")).engine
      (newWorld (str "http://a/")).response = some mixedPrepared := by
    have hendpoint : endpoint mixedEnv httpParts = some ⟨str "p", str "3128"⟩ :=
      congrArg (Option.map fun (p : ProxyParts) => Target.mk p.host p.port) hproxy
    rw [prepare_known mixedEnv _ hhttp (by decide), hendpoint]
    rfl
  have hredirects : Redirects mixedEnv mixedHop (newWorld (str "http://a/")) mixedPrepared
      mixedHead (str "https://b/") :=
    answering_redirects hprepare rfl (by decide) (by decide) (by decide)
      ⟨httpsParts, hhttps, by decide⟩
  exact .more hhttp (send_redirects hredirects (by decide)) (.none _)

theorem mixed_alone :
    Alone (newWorld (str "http://a/")) mixedWorld (newWorld (str "https://b/")) where
  fresh := .constructed
  proxyauth := rfl
  body := rfl
  httpauth := rfl
  sendheaders := rfl
  url := rfl

theorem hop_alone_iff_mixed :
    HopAlone mixedEnv mixedWorld (newWorld (str "https://b/")) ↔
      Unmixed mixedEnv [httpParts] httpsParts :=
  (hop_alone_iff .constructed mixed_visited mixed_alone (by decide)).2 rfl

/-- The request to `b` goes out as to a proxy that is not there. -/
theorem mixed_not_alone :
    Visited mixedEnv (fun _ => mixedHop) [httpParts] (newWorld (str "http://a/")) mixedWorld ∧
    Alone (newWorld (str "http://a/")) mixedWorld (newWorld (str "https://b/")) ∧
    (prepare mixedEnv mixedWorld.engine mixedWorld.response).map
        (fun p => (p.target.host, p.engine.command, p.request)) =
      some (str "b", some (str "CONNECT b:443 HTTP/1.0\r\n\r\n"),
        str "GET https://b:443/ HTTP/1.0\r\nHost: b\r\n" ++
          str "Accept: */*\r\nConnection: close\r\n\r\n\r\n") ∧
    ¬ HopAlone mixedEnv mixedWorld (newWorld (str "https://b/")) := by
  have hhttps : urlParts (str "https://b/") = some httpsParts := by decide
  refine ⟨mixed_visited, mixed_alone, ?_, ?_⟩
  · rw [prepare_known mixedEnv _ hhttps (by decide)]
    rfl
  · have hc := mixed_visited.carries (.refl (newWorld (str "http://a/")))
    exact known_mixed .constructed hc mixed_alone hhttps (by decide) rfl
      ⟨httpParts, List.mem_cons_self, by decide, by decide⟩

end Anetd
