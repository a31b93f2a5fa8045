import Anetd.Redirects
import Anetd.UrlText
import Anetd.Wire

/-!
# From any URL to a request line

`send` indexes what the URL expressions captured without a test that they
matched; `readsExisting_iff` says for which strings the elements are there. For
an absolute URL it resolves the host of the text and asks for the path and
query of the text (`sends_absolute`). What else it puts into the request line
for other accepted URLs is the subject of `originForm_iff`.
-/

namespace Anetd

open Lib.Regex

/-! ## The elements `send` reads -/

/-- What `regex_split` writes for the first match of `url_expression`; the
groups of later matches come behind these. -/
def urlGroups (url : Bytes) : List Bytes :=
  ((urlExpression.search url).map fun m => (List.range' 1 7).map (part m)).getD []

/-- The same for `proxy_expression`. -/
def proxyGroups (proxy : Bytes) : List Bytes :=
  ((proxyExpression.search proxy).map fun m => (List.range' 1 3).map (part m)).getD []

/-- The elements of `url_parts` up to index 5, and those of `proxy_parts` up to
index 2 where a proxy is used, exist. -/
structure ReadsExisting (env : Environment) (url : Bytes) : Prop where
  urlParts : ∀ i ≤ 5, i < (urlGroups url).length
  proxyParts : ∀ parts, Anetd.urlParts url = some parts → parts.Known → env.variable parts ≠ [] →
    ∀ i ≤ 2, i < (proxyGroups (env.variable parts)).length

/-- A match has written its groups, and only a match has. -/
theorem groups_length {α : Type} (found : Option α) (group : α → Nat → Bytes) {last count : Nat}
    (hlast : last < count) :
    (∀ i ≤ last, i < ((found.map fun m => (List.range' 1 count).map (group m)).getD []).length) ↔
      found.isSome := by
  cases found with
  | none =>
    constructor
    · intro h
      exact absurd (h 0 (Nat.zero_le last)) (Nat.not_lt_zero 0)
    · intro h
      cases h
  | some m =>
    constructor
    · exact fun _ => rfl
    · intro _ i hi
      rw [Option.map_some, Option.getD_some, List.length_map, List.length_range']
      omega

theorem urlGroups_length (url : Bytes) :
    (∀ i ≤ 5, i < (urlGroups url).length) ↔ (urlParts url).isSome := by
  rw [urlParts, Option.isSome_map]
  exact groups_length _ part (by decide)

theorem proxyGroups_length (proxy : Bytes) :
    (∀ i ≤ 2, i < (proxyGroups proxy).length) ↔ (proxyParts proxy).isSome := by
  rw [proxyParts, Option.isSome_map]
  exact groups_length _ part (by decide)

section reads
variable {R : Type} [ResponseClass R] (env : Environment) (e : Engine) (r : R)

/-- A call of `send` gets past its indexing exactly when they do. -/
theorem prepare_isSome : (prepare env e r).isSome ↔ ReadsExisting env (base r).url := by
  cases hparts : urlParts (base r).url with
  | none =>
    rw [prepare, hparts]
    constructor
    · intro h
      cases h
    · intro h
      have hsome := (urlGroups_length _).mp h.urlParts
      rw [hparts] at hsome
      cases hsome
  | some parts =>
    have hurl : ∀ i ≤ 5, i < (urlGroups (base r).url).length :=
      (urlGroups_length _).mpr (by rw [hparts]; rfl)
    by_cases hknown : parts.Known
    · rw [prepare_known env e hparts hknown, Option.isSome_map, endpoint]
      by_cases hset : env.variable parts ≠ []
      · rw [if_pos hset, Option.isSome_map, ← proxyGroups_length]
        constructor
        · intro hproxy
          refine ⟨hurl, fun parts' hparts' _ _ => ?_⟩
          rw [Option.some.inj (hparts'.symm.trans hparts)]
          exact hproxy
        · exact fun h => h.proxyParts parts hparts hknown hset
      · rw [if_neg hset]
        refine ⟨fun _ => ⟨hurl, fun parts' hparts' _ hset' => ?_⟩, fun _ => rfl⟩
        rw [Option.some.inj (hparts'.symm.trans hparts)] at hset'
        exact absurd hset' hset
    · rw [prepare_unknown env e hparts hknown]
      refine ⟨fun _ => ⟨hurl, fun parts' hparts' hknown' _ => ?_⟩, fun _ => rfl⟩
      rw [Option.some.inj (hparts'.symm.trans hparts)] at hknown'
      exact absurd hknown' hknown

theorem send_undefined {w : World R} (h : ¬ ReadsExisting env (base w.response).url) (hop : Hop) :
    send env hop w = (.error .undefined, w) := by
  cases hp : prepare env w.engine w.response with
  | none => simp only [send, hp]
  | some p =>
    have hsome := (prepare_isSome env w.engine w.response).mp (by rw [hp]; rfl)
    exact absurd hsome h

end reads

/-- **Which strings are safe**: the URL is accepted, and so is the proxy of its
scheme. -/
theorem readsExisting_iff (env : Environment) (url : Bytes) : ReadsExisting env url ↔
    Accepted url ∧ ∀ parts, urlParts url = some parts → parts.Known → env.variable parts ≠ [] →
      Accepted (env.variable parts) := by
  constructor
  · intro h
    refine ⟨(urlParts_isSome url).mp ((urlGroups_length url).mp h.urlParts), ?_⟩
    intro parts hparts hknown hset
    exact (proxyParts_isSome _).mp ((proxyGroups_length _).mp (h.proxyParts parts hparts hknown hset))
  · rintro ⟨hurl, hproxy⟩
    refine ⟨(urlGroups_length url).mpr ((urlParts_isSome url).mpr hurl), ?_⟩
    intro parts hparts hknown hset
    exact (proxyGroups_length _).mpr
      ((proxyParts_isSome _).mpr (hproxy parts hparts hknown hset))

/-- A redirect to a relative reference. -/
def relativeHead : Head := foundHead (str "Location: /x\r") (by decide)

def relativeHop : Hop := answering ⟨relativeHead.text, by decide, by decide⟩ ⟨none, none⟩

/-- The call of `send` after it indexes an empty vector. -/
theorem relative_undefined :
    (∃ w, connect ⟨[], []⟩ (fun _ => relativeHop) 7 loopStart = some (.error .undefined, w) ∧
      w.response.url = str "/x") ∧
    ¬ ReadsExisting ⟨[], []⟩ (str "/x") := by
  have hnone : urlParts (str "/x") = none := by decide
  have hnot : ¬ ReadsExisting ⟨[], []⟩ (str "/x") := by
    intro h
    have hsome := (urlGroups_length _).mp h.urlParts
    rw [hnone] at hsome
    cases hsome
  refine ⟨?_, hnot⟩
  have hanswered : Answered ⟨[], []⟩ relativeHop loopStart (loopPrepared loopStart) relativeHead :=
    ⟨loop_prepare rfl, answering_dial _ _ _, rfl, [], rfl⟩
  have hlocation : relativeHead.locals.tempheaders.find? (str "Location") = some (str "/x") := by
    decide
  have hfollow := redirect_follow relativeHop.disconnection
    (f := ⟨relativeHead.locals, dialed relativeHop (loopPrepared loopStart).engine,
      (loopPrepared loopStart).sentResponse⟩) (by decide) hlocation (by decide)
  have hsend := send_answered hanswered (by decide) (by decide)
  rw [hfollow] at hsend
  have hfirst : Followed ⟨[], []⟩ (fun _ => relativeHop) 1 loopStart
      (loopStart.next relativeHop (loopPrepared loopStart) (str "/x")) := .more hsend (.none _)
  have hsecond := send_undefined ⟨[], []⟩
    (w := loopStart.next relativeHop (loopPrepared loopStart) (str "/x")) hnot relativeHop
  exact ⟨_, (connect_followed hfirst 6).trans (connect_throws hsecond 5), rfl⟩

/-! ## Absolute URLs -/

/-- An http or https URL without a fragment. -/
structure AbsoluteUrl where
  scheme : Bytes
  host : Bytes
  port : Option Bytes
  path : Bytes
  query : Option Bytes
  scheme_ok : toLower scheme = str "http" ∨ toLower scheme = str "https"
  host_first : wordFirst host = true
  host_ok : ∀ c ∈ host, outside "/?#:" c = true
  port_ok : ∀ ds ∈ port, ds ≠ [] ∧ ∀ c ∈ ds, Lib.Decimal.isDigit c = true
  path_first : path = [] ∨ path.head? = some slash
  path_ok : ∀ c ∈ path, outside "?#" c = true
  query_ok : ∀ q ∈ query, ∀ c ∈ q, outside "#" c = true

namespace AbsoluteUrl

variable (u : AbsoluteUrl)

def portPart : Bytes := (u.port.map (colon :: ·)).getD []

def queryPart : Bytes := (u.query.map (question :: ·)).getD []

def text : Bytes := u.scheme ++ (str "://" ++ (u.host ++ (u.portPart ++ (u.path ++ u.queryPart))))

/-- The port of the text, or that of the scheme. -/
def portOrDefault : Bytes :=
  u.port.getD (if toLower u.scheme = str "http" then str "80" else str "443")

/-- The path, a slash for none, and the query. -/
def target : Bytes := (if u.path = [] then str "/" else u.path) ++ u.queryPart

def parts : UrlParts where
  protocol := u.scheme
  host := u.host
  port := u.port.getD []
  directory := u.path.rdropWhile (· != slash)
  file := u.path.rtakeWhile (· != slash)
  query := u.queryPart

theorem toLower_outside {scheme : Bytes}
    (h : toLower scheme = str "http" ∨ toLower scheme = str "https") :
    ∀ c ∈ scheme, outside ":/?#" c = true := by
  intro c hc
  rw [outside, Bool.not_eq_true', List.contains_eq_mem, decide_eq_false_iff_not]
  intro hmem
  have hlower : (if 65 ≤ c && c ≤ 90 then c + 32 else c) ∈ toLower scheme :=
    List.mem_map_of_mem hc
  have hsame : (if 65 ≤ c && c ≤ 90 then c + 32 else c) = c := by
    have hall : ∀ c ∈ str ":/?#", (if 65 ≤ c && c ≤ 90 then c + 32 else c) = c :=
      forall_of_all (by decide)
    exact hall c hmem
  rw [hsame] at hlower
  have hnot : ∀ c ∈ str ":/?#", c ∉ str "http" ∧ c ∉ str "https" := forall_of_all (by decide)
  rcases h with h | h <;> rw [h] at hlower
  · exact (hnot c hmem).1 hlower
  · exact (hnot c hmem).2 hlower

theorem scheme_ne_nil : u.scheme ≠ [] := by
  intro hnil
  have h := u.scheme_ok
  rw [hnil] at h
  exact absurd h (by decide)

/-- What may stand behind the path, the port and the host. -/
theorem queryPart_first : ∀ c ∈ u.queryPart.head?, c = question := by
  intro c hc
  rw [queryPart] at hc
  cases hq : u.query with
  | none =>
    rw [hq] at hc
    cases hc
  | some q =>
    rw [hq] at hc
    exact (Option.some.inj hc).symm

theorem pathPart_first : ∀ c ∈ (u.path ++ u.queryPart).head?, c = slash ∨ c = question := by
  intro c hc
  rcases u.path_first with hnil | hfirst
  · rw [hnil, List.nil_append] at hc
    exact .inr (u.queryPart_first c hc)
  · rw [List.head?_append, hfirst, Option.some_or] at hc
    exact .inl (Option.some.inj hc).symm

theorem afterHost_first : ∀ c ∈ (u.portPart ++ (u.path ++ u.queryPart)).head?,
    c = colon ∨ c = slash ∨ c = question := by
  intro c hc
  rw [portPart] at hc
  cases hport : u.port with
  | none =>
    rw [hport] at hc
    exact .inr (u.pathPart_first c hc)
  | some ds =>
    rw [hport] at hc
    exact .inl (Option.some.inj hc).symm

/-- The expression divides the text into the parts it was put together from. -/
theorem urlParts_text : urlParts u.text = some u.parts := by
  have hhost := span_append u.host_ok (v := u.portPart ++ (u.path ++ u.queryPart)) fun c hc => by
    rcases u.afterHost_first c hc with rfl | rfl | rfl <;> decide
  have hpath := span_append u.path_ok (v := u.queryPart) fun c hc => by
    rw [u.queryPart_first c hc]
    decide
  have hword : wordFirst (u.host ++ (u.portPart ++ (u.path ++ u.queryPart))) = true := by
    obtain ⟨c, cs, hcs, hc⟩ := wordFirst_iff.mp u.host_first
    exact wordFirst_iff.mpr ⟨c, _, by rw [hcs]; rfl, hc⟩
  have hport : portOf (u.portPart ++ (u.path ++ u.queryPart)) = u.port.getD [] ∧
      pastPort (u.portPart ++ (u.path ++ u.queryPart)) = u.path ++ u.queryPart := by
    cases hds : u.port with
    | none =>
      have hnone : portOf (u.path ++ u.queryPart) = [] := by
        rw [portOf, if_neg]
        intro hcolon
        rcases u.pathPart_first colon hcolon with h | h <;> exact absurd h (by decide)
      rw [portPart, hds]
      exact ⟨hnone, if_pos hnone⟩
    | some ds =>
      obtain ⟨hne, hdigits⟩ := u.port_ok ds hds
      have hsplit := span_append hdigits (v := u.path ++ u.queryPart) fun c hc => by
        rcases u.pathPart_first c hc with rfl | rfl <;> decide
      have hsome : portOf (colon :: (ds ++ (u.path ++ u.queryPart))) = ds := by
        rw [portOf, if_pos List.head?_cons]
        exact hsplit.1
      rw [portPart, hds]
      refine ⟨hsome, ?_⟩
      change pastPort (colon :: (ds ++ (u.path ++ u.queryPart))) = _
      rw [pastPort, hsome, if_neg hne]
      exact hsplit.2
  have hquery : queryOf u.queryPart = u.queryPart := by
    rw [queryOf]
    cases hq : u.queryPart with
    | nil => rfl
    | cons c q =>
      have hc := u.queryPart_first c (by rw [hq]; rfl)
      rw [hc]
      rfl
  rw [text, urlParts_schemed u.scheme_ne_nil (toLower_outside u.scheme_ok) hword]
  simp only [UrlParts.ofText, hostText, afterHost, pathText, afterPath, hhost.1, hhost.2, hport.1,
    hport.2, hpath.1, hpath.2, hquery, parts]

theorem portOrDefault_parts : u.parts.portOrDefault = u.portOrDefault := by
  rw [UrlParts.portOrDefault, portOrDefault, parts]
  cases hport : u.port with
  | none => rfl
  | some ds => exact if_neg (u.port_ok ds hport).1

theorem path_parts : u.parts.path = if u.path = [] then str "/" else u.path := by
  have hpath : u.parts.directory ++ u.parts.file = u.path := List.rdropWhile_append_rtakeWhile
  rw [UrlParts.path, hpath]

end AbsoluteUrl

section absolute
variable {R : Type} [ResponseClass R]

/-- A call of `send` resolves one endpoint, before anything else. -/
def Resolves (env : Environment) (hop : Hop) (w : World R) (target : Target) : Prop :=
  ∃ events, (send env hop w).2.trace = w.trace ++ .query target.host target.port :: events ∧
    ∀ event ∈ events, ∀ host port, event ≠ .query host port

/-- It writes a request when it has got its connection, and any that it writes
starts with a certain line. -/
structure Requests (env : Environment) (hop : Hop) (w : World R) (line : Bytes) : Prop where
  starts : ∀ type text, .request type text ∈ (send env hop w).2.trace.drop w.trace.length →
    ∃ rest, text = line ++ crlf ++ rest
  written : ∀ p, prepare env w.engine w.response = some p → (dial hop p).2 = .ok () →
    ∃ rest, .request p.engine.httpType (line ++ crlf ++ rest) ∈
      (send env hop w).2.trace.drop w.trace.length

variable {env : Environment} {w : World R}

theorem resolves_prepared {p : Prepared R} (hp : prepare env w.engine w.response = some p)
    (hop : Hop) : Resolves env hop w p.target := by
  obtain ⟨events, hdial, hevents⟩ := dial_events hop p
  refine ⟨_, by rw [send_trace hp, Prepared.events, hdial, List.cons_append], ?_⟩
  intro event hmem host port heq
  subst heq
  rcases List.mem_append.mp hmem with hmem | hmem
  · exact absurd (hevents _ hmem) Bool.false_ne_true
  · split at hmem
    · cases List.mem_singleton.mp hmem
    · cases hmem

/-- What is written as a request is that of the prepared call. -/
theorem request_prepared {hop : Hop} {type : HttpType} {text : Bytes}
    (h : .request type text ∈ (send env hop w).2.trace.drop w.trace.length) :
    ∃ p, prepare env w.engine w.response = some p ∧ text = p.request := by
  cases hp : prepare env w.engine w.response with
  | none =>
    simp only [send, hp, List.drop_length] at h
    cases h
  | some p =>
    obtain ⟨events, hdial, hevents⟩ := dial_events hop p
    rw [send_trace hp, List.drop_left, Prepared.events, hdial] at h
    refine ⟨p, rfl, ?_⟩
    cases h with
    | tail _ h =>
      rcases List.mem_append.mp h with h | h
      · exact absurd (hevents _ h) Bool.false_ne_true
      · split at h
        · injection List.mem_singleton.mp h
        · cases h

theorem requests_of_prepared {line : Bytes} (h : ∀ p, prepare env w.engine w.response = some p →
    ∃ rest, p.request = line ++ crlf ++ rest) (hop : Hop) : Requests env hop w line where
  starts := by
    intro type text hmem
    obtain ⟨p, hp, rfl⟩ := request_prepared hmem
    exact h p hp
  written := by
    intro p hp hdial
    obtain ⟨rest, hrest⟩ := h p hp
    refine ⟨rest, ?_⟩
    rw [send_trace hp, List.drop_left, Prepared.events, hdial, ← hrest]
    exact List.mem_append_right _ List.mem_cons_self

/-- The request line of an engine without arguments. -/
theorem requestText_line {e : Engine} (harguments : e.arguments = ∅) (parts : UrlParts)
    (r : HttpResponse) : ∃ rest, requestText e parts r =
      e.method ++ str " " ++ ((if e.httpProxy = .none then [] else e.host) ++ e.url ++ parts.query) ++
        str " " ++ e.version ++ crlf ++ rest := by
  have htarget : requestTarget e parts = e.method ++ str " " ++
      ((if e.httpProxy = .none then [] else e.host) ++ e.url ++ parts.query) := by
    have htext : argumentText e parts = [] := by
      rw [argumentText, harguments]
      rfl
    rw [requestTarget, htext, List.append_nil]
    cases e.httpProxy <;> simp
  rw [requestText, htarget]
  refine ⟨headerText r.sendheaders ++ (basicLine (str "Authorization") r.httpauth ++
    ((if e.httpProxy = .httpProxy then basicLine (str "Proxy-Authorization") e.proxyauth else []) ++
      (str "Accept: */*\r\n" ++ (str "Connection: close\r\n" ++ (str "\r\n\r\n" ++ e.body))))), ?_⟩
  simp only [List.append_assoc]

variable {u : AbsoluteUrl} (hfresh : JustReset w.engine) (hurl : (base w.response).url = u.text)
include hfresh hurl

/-- What a fresh engine prepares for an absolute URL, and asks for. -/
theorem absolute_prepared {p : Prepared R} (hp : prepare env w.engine w.response = some p) :
    endpoint env u.parts = some p.target ∧ ∃ rest, p.request = w.engine.method ++ str " " ++
      ((if env.variable u.parts = [] then []
        else toLower u.scheme ++ str "://" ++ u.host ++ str ":" ++ u.portOrDefault) ++ u.target) ++
      str " " ++ w.engine.version ++ crlf ++ rest := by
  have hparts : urlParts (base w.response).url = some u.parts := by rw [hurl, u.urlParts_text]
  have hknown : u.parts.Known := u.scheme_ok
  rw [prepare_known env w.engine hparts hknown] at hp
  obtain ⟨target, htarget, rfl⟩ := Option.map_eq_some_iff.mp hp
  refine ⟨htarget, ?_⟩
  have harguments : (w.engine.overwrite env u.parts).arguments = ∅ := hfresh.arguments
  obtain ⟨rest, hrest⟩ := requestText_line harguments u.parts
    (base (update (fun b => b.setContentLength (w.engine.overwrite env u.parts).body.length)
      (update (fun b => b.setHost u.parts.host) w.response)))
  refine ⟨rest, hrest.trans ?_⟩
  have hhost : (if (w.engine.overwrite env u.parts).httpProxy = .none then []
      else (w.engine.overwrite env u.parts).host) = if env.variable u.parts = [] then []
        else toLower u.scheme ++ str "://" ++ u.host ++ str ":" ++ u.portOrDefault := by
    by_cases hset : env.variable u.parts = []
    · rw [overwrite_unset hset, hfresh.httpProxy, if_pos rfl, if_pos hset]
    · have hmode := (overwrite_mode (e := w.engine) (.inl hset)).mpr hset
      rw [hmode, if_neg (by decide), if_neg hset, ← u.portOrDefault_parts]
      rfl
  have htarget : (w.engine.overwrite env u.parts).url ++ u.parts.query = u.target :=
    congrArg (· ++ u.queryPart) u.path_parts
  rw [List.append_assoc, List.append_assoc _ _ u.parts.query, htarget, hhost]
  simp only [List.append_assoc]
  rfl

/-- **From an absolute URL to its request**: the host and port of the text are
resolved, and its path and query asked for, behind a proxy in absolute form. -/
theorem sends_absolute (hop : Hop) :
    (env.httpProxy = [] → env.httpsProxy = [] →
      Resolves env hop w ⟨u.host, u.portOrDefault⟩ ∧
      Requests env hop w
        (w.engine.method ++ str " " ++ u.target ++ str " " ++ w.engine.version)) ∧
    (toLower u.scheme = str "http" → env.httpProxy ≠ [] →
      Requests env hop w (w.engine.method ++ str " " ++
        (toLower u.scheme ++ str "://" ++ u.host ++ str ":" ++ u.portOrDefault ++ u.target) ++
          str " " ++ w.engine.version)) := by
  have hparts : urlParts (base w.response).url = some u.parts := by rw [hurl, u.urlParts_text]
  constructor
  · intro hhttp hhttps
    have hunset : env.variable u.parts = [] := by
      rw [Environment.variable, hhttp, hhttps, ite_self]
    have hendpoint : endpoint env u.parts = some ⟨u.host, u.portOrDefault⟩ := by
      rw [endpoint, if_neg (not_not_intro hunset), u.portOrDefault_parts]
      rfl
    have hp := prepare_known env w.engine hparts u.scheme_ok
    rw [hendpoint] at hp
    refine ⟨resolves_prepared hp hop, requests_of_prepared (fun p hp' => ?_) hop⟩
    obtain ⟨rest, hrest⟩ := (absolute_prepared hfresh hurl hp').2
    rw [if_pos hunset, List.nil_append] at hrest
    exact ⟨rest, hrest⟩
  · intro hscheme hset
    have hvariable : env.variable u.parts = env.httpProxy := if_pos hscheme
    refine requests_of_prepared (fun p hp => ?_) hop
    obtain ⟨rest, hrest⟩ := (absolute_prepared hfresh hurl hp).2
    rw [hvariable, if_neg hset] at hrest
    exact ⟨rest, hrest⟩

end absolute

/-- `HTTP://a.example/d/f?q`. -/
def upperUrl : AbsoluteUrl where
  scheme := str "HTTP"
  host := str "a.example"
  port := none
  path := str "/d/f"
  query := some (str "q")
  scheme_ok := .inl (by decide)
  host_first := by decide
  host_ok := forall_of_all (by decide)
  port_ok := fun ds hds => by cases hds
  path_first := .inr (by decide)
  path_ok := forall_of_all (by decide)
  query_ok := fun q hq => by
    obtain rfl := Option.some.inj hq
    exact forall_of_all (by decide)

/-- A new engine that is to get it. -/
def upperWorld : World HttpResponse := ⟨.new, HttpResponse.new.setURL upperUrl.text, []⟩

theorem sends_absolute_upper :
    (Resolves ⟨[], []⟩ relativeHop upperWorld ⟨str "a.example", str "80"⟩ ∧
      Requests ⟨[], []⟩ relativeHop upperWorld (str "GET /d/f?q HTTP/1.0")) ∧
    Requests ⟨str "http://p:3128", []⟩ relativeHop upperWorld
      (str "GET http://a.example:80/d/f?q HTTP/1.0") := by
  have hdirect := @sends_absolute HttpResponse _ ⟨[], []⟩ upperWorld upperUrl .constructed rfl
    relativeHop
  have hproxied := @sends_absolute HttpResponse _ ⟨str "http://p:3128", []⟩ upperWorld upperUrl
    .constructed rfl relativeHop
  refine ⟨hdirect.1 rfl rfl, hproxied.2 ?_ ?_⟩
  · decide
  · decide

end Anetd
