import Anetd.Engine
import Anetd.Lib.Base64
import Anetd.Lib.Split
import Anetd.Url

/-!
# From a URL to a request

The first half of `http_engine::send`: what the URL, the environment and the
engine make of the endpoint to connect to, and the two texts that are written
to it, the `CONNECT` command for a proxy and the request.
-/

namespace Anetd

/-- The variables `send` reads. `get_env` gives an empty string for an unset one. -/
structure Environment where
  httpProxy : Bytes
  httpsProxy : Bytes
  deriving DecidableEq

/-- The host and port of the resolver query. -/
structure Target where
  host : Bytes
  port : Bytes
  deriving DecidableEq, Repr

/-! ## The endpoint -/

section route
variable {R : Type} [ResponseClass R]

/-- `response->sendheaders["Host"] = host`. -/
def HttpResponse.setHost (r : HttpResponse) (host : Bytes) : HttpResponse :=
  { r with sendheaders := r.sendheaders.set (str "Host") host }

/-- `response->headers["Content-Length"]` as `send` assigns it. -/
def HttpResponse.setContentLength (r : HttpResponse) (n : Nat) : HttpResponse :=
  { r with headers := r.headers.set (str "Content-Length") (Lib.Decimal.render n) }

/-- The branch for one scheme: its default port, its transport and the value
of its proxy variable. `none` when `proxy_parts` has no element 1. -/
def viaScheme (scheme defaultPort : Bytes) (type : HttpType) (proxy : Bytes) (parts : UrlParts)
    (e : Engine) (r : R) : Option (Target × Engine × R) :=
  let port := if parts.port = [] then defaultPort else parts.port
  let e := { e with
    httpType := type
    host := scheme ++ str "://" ++ parts.host ++ str ":" ++ port
    targeturl := parts.host ++ str ":" ++ port }
  let r := update (fun b => b.setHost parts.host) r
  if proxy ≠ [] then
    (proxyParts proxy).map fun p => (⟨p.host, p.port⟩, { e with httpProxy := .httpProxy }, r)
  else some (⟨parts.host, port⟩, e, r)

def viaHttp (env : Environment) : UrlParts → Engine → R → Option (Target × Engine × R) :=
  viaScheme (str "http") (str "80") .plainHttp env.httpProxy

def viaHttps (env : Environment) : UrlParts → Engine → R → Option (Target × Engine × R) :=
  viaScheme (str "https") (str "443") .sslHttps env.httpsProxy

/-- The scheme selection. Another scheme leaves engine and response alone. -/
def route (env : Environment) (parts : UrlParts) (e : Engine) (r : R) :
    Option (Target × Engine × R) :=
  if toLower parts.protocol = str "http" then viaHttp env parts e r
  else if toLower parts.protocol = str "https" then viaHttps env parts e r
  else some (⟨parts.host, parts.port⟩, e, r)

/-- What `send` knows before it resolves the host. -/
structure Prepared (R : Type) where
  parts : UrlParts
  target : Target
  engine : Engine
  response : R

/-- The path that `send` stores as `url`. -/
def UrlParts.path (parts : UrlParts) : Bytes :=
  if parts.directory ++ parts.file = [] then str "/" else parts.directory ++ parts.file

/-- `send` up to the resolver query. `none` is an index out of range. -/
def prepare (env : Environment) (e : Engine) (r : R) : Option (Prepared R) :=
  (urlParts (base r).url).bind fun parts =>
    (route env parts { e with url := parts.path } r).map fun (target, e, r) =>
      ⟨parts, target, e, r⟩

end route

/-! ## The texts -/

/-- `Base64Encode`. -/
def base64Encode (s : Bytes) : Bytes :=
  Lib.Base64.breakLines 72 72 ((Lib.Base64.sextets s).map Lib.Base64.char) ++
    Lib.Base64.padding s.length

/-- A line with credentials, if there is a user name. -/
def basicLine (name : Bytes) (auth : Bytes × Bytes) : Bytes :=
  if auth.1.length > 0 then
    name ++ str ": Basic " ++ base64Encode (auth.1 ++ str ":" ++ auth.2) ++ crlf
  else []

/-- `proxycmd`. -/
def proxyCommand (e : Engine) : Bytes :=
  str "CONNECT " ++ e.targeturl ++ str " " ++ e.version ++ crlf ++
    basicLine (str "Proxy-Authorization") e.proxyauth ++ crlf

/-- `name=value` for each value of an argument. -/
def argumentPairs (argument : Bytes × Bytes) : List Bytes :=
  (Lib.Split.split (fun c => (str ", ").contains c) argument.2).map fun value =>
    argument.1 ++ str "=" ++ value

def argumentText (e : Engine) (parts : UrlParts) : Bytes :=
  if e.arguments.entries ≠ [] then
    (if parts.query.length > 0 then str "&" else str "?") ++
      List.intercalate (str "&") (e.arguments.entries.flatMap argumentPairs)
  else []

/-- The request line up to the version: the origin form, or the absolute form
in proxy mode. -/
def requestTarget (e : Engine) (parts : UrlParts) : Bytes :=
  (match e.httpProxy with
    | .none => e.method ++ str " " ++ e.url
    | .httpProxy | .httpsProxy => e.method ++ str " " ++ (e.host ++ e.url)) ++
    parts.query ++ argumentText e parts

def headerText (headers : StringMap) : Bytes :=
  headers.entries.flatMap fun h => h.1 ++ str ": " ++ h.2 ++ crlf

/-- `request`. -/
def requestText (e : Engine) (parts : UrlParts) (r : HttpResponse) : Bytes :=
  requestTarget e parts ++ (str " " ++ e.version ++ crlf) ++
    headerText r.sendheaders ++
    basicLine (str "Authorization") r.httpauth ++
    (if e.httpProxy = .httpProxy then basicLine (str "Proxy-Authorization") e.proxyauth else []) ++
    str "Accept: */*\r\n" ++
    str "Connection: close\r\n" ++
    (str "\r\n\r\n" ++ e.body)

/-! ## What `prepare` decides -/

/-- The schemes `send` knows. -/
def UrlParts.Known (parts : UrlParts) : Prop :=
  toLower parts.protocol = str "http" ∨ toLower parts.protocol = str "https"

instance (parts : UrlParts) : Decidable parts.Known := inferInstanceAs (Decidable (_ ∨ _))

/-- The scheme's proxy variable. -/
def Environment.variable (env : Environment) (parts : UrlParts) : Bytes :=
  if toLower parts.protocol = str "http" then env.httpProxy else env.httpsProxy

def UrlParts.transport (parts : UrlParts) : HttpType :=
  if toLower parts.protocol = str "http" then .plainHttp else .sslHttps

def UrlParts.portOrDefault (parts : UrlParts) : Bytes :=
  if parts.port = [] then
    if toLower parts.protocol = str "http" then str "80" else str "443"
  else parts.port

/-- The endpoint for a known scheme: the proxy's, or that of the URL. -/
def endpoint (env : Environment) (parts : UrlParts) : Option Target :=
  if env.variable parts ≠ [] then
    (proxyParts (env.variable parts)).map fun p => ⟨p.host, p.port⟩
  else some ⟨parts.host, parts.portOrDefault⟩

/-- The engine a known scheme prepares. -/
def Engine.overwrite (e : Engine) (env : Environment) (parts : UrlParts) : Engine :=
  { e with
    url := parts.path
    httpType := parts.transport
    host := toLower parts.protocol ++ str "://" ++ parts.host ++ str ":" ++ parts.portOrDefault
    targeturl := parts.host ++ str ":" ++ parts.portOrDefault
    httpProxy := if env.variable parts ≠ [] then .httpProxy else e.httpProxy }

section prepare
variable {R : Type} [ResponseClass R] (env : Environment) (e : Engine) {r : R} {parts : UrlParts}

/-- **A known scheme** assigns every field that feeds the request but the proxy
mode, which it only ever turns on. -/
theorem prepare_known (hparts : urlParts (base r).url = some parts) (hknown : parts.Known) :
    prepare env e r = (endpoint env parts).map fun target =>
      ⟨parts, target, e.overwrite env parts, update (fun b => b.setHost parts.host) r⟩ := by
  have hother : str "https" ≠ str "http" := by decide
  rw [prepare, hparts, Option.bind_some]
  rcases hknown with hhttp | hhttps
  · simp only [route, hhttp, if_true, viaHttp, viaScheme, endpoint, Environment.variable,
      Engine.overwrite, UrlParts.transport, UrlParts.portOrDefault]
    split
    · rw [Option.map_map, Option.map_map]
      rfl
    · rfl
  · simp only [route, hhttps, hother, if_false, if_true, viaHttps, viaScheme, endpoint,
      Environment.variable, Engine.overwrite, UrlParts.transport, UrlParts.portOrDefault]
    split
    · rw [Option.map_map, Option.map_map]
      rfl
    · rfl

/-- Any other scheme leaves them as they are. -/
theorem prepare_unknown (hparts : urlParts (base r).url = some parts) (hunknown : ¬ parts.Known) :
    prepare env e r =
      some ⟨parts, ⟨parts.host, parts.port⟩, { e with url := parts.path }, r⟩ := by
  have hhttp : toLower parts.protocol ≠ str "http" := fun h => hunknown (.inl h)
  have hhttps : toLower parts.protocol ≠ str "https" := fun h => hunknown (.inr h)
  rw [prepare, hparts, Option.bind_some]
  simp only [route, hhttp, hhttps, if_false, Option.map_some]

variable {env e}

/-- **What `prepare` can do.** -/
theorem prepare_cases {p : Prepared R} (h : prepare env e r = some p) :
    urlParts (base r).url = some p.parts ∧
      (p.parts.Known ∧ endpoint env p.parts = some p.target ∧
          p.engine = e.overwrite env p.parts ∧
          p.response = update (fun b => b.setHost p.parts.host) r ∨
        ¬ p.parts.Known ∧ p.target = ⟨p.parts.host, p.parts.port⟩ ∧
          p.engine = { e with url := p.parts.path } ∧ p.response = r) := by
  cases hparts : urlParts (base r).url with
  | none =>
    rw [prepare, hparts] at h
    cases h
  | some parts =>
    by_cases hknown : parts.Known
    · rw [prepare_known env e hparts hknown] at h
      obtain ⟨target, htarget, rfl⟩ := Option.map_eq_some_iff.mp h
      exact ⟨rfl, .inl ⟨hknown, htarget, rfl, rfl⟩⟩
    · rw [prepare_unknown env e hparts hknown] at h
      rw [← Option.some.inj h]
      exact ⟨rfl, .inr ⟨hknown, rfl, rfl, rfl⟩⟩

theorem prepare_redirtimes {p : Prepared R} (h : prepare env e r = some p) :
    p.engine.redirtimes = e.redirtimes := by
  rcases (prepare_cases h).2 with ⟨-, -, hengine, -⟩ | ⟨-, -, hengine, -⟩
  · rw [hengine]; rfl
  · rw [hengine]

/-! The proxy mode a known scheme prepares. -/

theorem overwrite_unset (hunset : env.variable parts = []) :
    (e.overwrite env parts).httpProxy = e.httpProxy :=
  if_neg (not_not_intro hunset)

theorem overwrite_mode (h : env.variable parts ≠ [] ∨ e.httpProxy = .none) :
    (e.overwrite env parts).httpProxy = .httpProxy ↔ env.variable parts ≠ [] := by
  change (if env.variable parts ≠ [] then HttpProxy.httpProxy else e.httpProxy) = _ ↔ _
  split
  · rename_i hset
    exact ⟨fun _ => hset, fun _ => rfl⟩
  · rename_i hunset
    rw [h.resolve_left hunset]
    constructor
    · intro hmode
      cases hmode
    · exact fun hset => absurd hset hunset

end prepare

end Anetd
