import Anetd.FileResponse
import Anetd.Fresh
import Anetd.RequestMessage
import Anetd.Threads
import Anetd.Wire

/-!
# What servers cannot write

The URL of a redirect comes from a server, and the next request is made of it.
But the value of a header ends with its line, and carriage returns are dropped
from it; so no server can end a line of a request, or add one. As long as the
application hands over texts of one line, all texts that a program gives to its
sockets are whole: a `GET` or a `CONNECT`, and the fields of the application and
of `send` (`requests_whole`). That a server can put blanks into the line is
another matter, and so is how much of the text a socket takes.
-/

namespace Anetd

open Lib.Machine

/-! ## What is sent of a response -/

/-- The fields that a request is made of. -/
def HttpResponse.outgoing (r : HttpResponse) : Bytes × StringMap × (Bytes × Bytes) :=
  (r.url, r.sendheaders, r.httpauth)

/-- A class whose functions leave them alone, also when they fail. -/
class QuietResponse (R : Type) [ResponseClass R] : Prop extends LawfulResponse R where
  outgoing_flush (r : R) : Both (fun x => (base x.2).outgoing = (base r).outgoing)
    (fun s => (base s).outgoing = (base r).outgoing) (ResponseClass.flush r)
  outgoing_completed (r : R) : (base (ResponseClass.completed r)).outgoing = (base r).outgoing
  base_reset (r : R) : base (ResponseClass.reset r) = (base r).reset

instance : QuietResponse HttpResponse where
  outgoing_flush _ := rfl
  outgoing_completed _ := rfl
  base_reset _ := rfl

instance : QuietResponse HttpResponseFile where
  outgoing_flush r := by
    obtain ⟨hbase, -⟩ := r.openFile_fields
    rw [flush_file]
    have hsame : (base r.openFile.2).outgoing = (base r).outgoing :=
      congrArg HttpResponse.outgoing hbase
    rcases hopen : r.openFile with ⟨x | _ | _, s⟩
    · rw [HttpResponseFile.flush_lost hopen]
      rwa [hopen] at hsame
    · rw [HttpResponseFile.flush_closed hopen]
      rwa [hopen] at hsame
    · rw [HttpResponseFile.flush_open hopen]
      rw [hopen] at hsame
      split <;> exact hsame
  outgoing_completed _ := rfl
  base_reset _ := rfl

/-- The names of the fields that `send` adds. -/
def standard : List Bytes :=
  [str "Host", str "Authorization", str "Proxy-Authorization", str "Accept", str "Connection"]

/-- A response that can be asked for in whole lines, with further headers of
certain names only. -/
structure HttpResponse.Clean (names : List Bytes) (r : HttpResponse) : Prop where
  url : OneLine r.url
  headers : ∀ h ∈ r.sendheaders.entries, h.1 ∈ names ++ standard ∧ OneLine h.2
  httpauth : OneLine (base64Encode (r.httpauth.1 ++ str ":" ++ r.httpauth.2))

section clean
variable {names : List Bytes} {r s : HttpResponse}

theorem HttpResponse.Clean.same (h : r.Clean names) (hsame : s.outgoing = r.outgoing) :
    s.Clean names := by
  obtain ⟨hurl, hrest⟩ := Prod.mk.inj hsame
  obtain ⟨hheaders, hauth⟩ := Prod.mk.inj hrest
  constructor
  · rw [hurl]
    exact h.url
  · rw [hheaders]
    exact h.headers
  · rw [hauth]
    exact h.httpauth

theorem HttpResponse.Clean.setURL (h : r.Clean names) {url : Bytes} (hurl : OneLine url) :
    (r.setURL url).Clean names := ⟨hurl, h.headers, h.httpauth⟩

theorem HttpResponse.Clean.setHost (h : r.Clean names) {host : Bytes} (hhost : OneLine host) :
    (r.setHost host).Clean names where
  url := h.url
  headers := by
    intro f hf
    rcases Lib.OrdMap.mem_set hf with rfl | hf
    · exact ⟨List.mem_append_right _ (by simp [standard]), hhost⟩
    · exact h.headers f hf
  httpauth := h.httpauth

theorem HttpResponse.Clean.reset (h : r.Clean names) : r.reset.Clean names :=
  ⟨fun c hc => (by cases hc), h.headers, h.httpauth⟩

end clean

/-! ## What is read -/

/-- Header values of one line. -/
structure Locals.Whole (l : Locals) : Prop where
  value : OneLine l.tempvalue
  values : ∀ name v, l.tempheaders.find? name = some v → OneLine v

theorem start_whole {R : Type} (e : Engine) (r : R) : (Frame.start e r).toLocals.Whole :=
  ⟨fun c hc => (by cases hc), fun _ _ h => (by cases h)⟩

section read
variable {R : Type} [ResponseClass R] {d : Disconnection} {f : Frame R}

theorem endOfHeaders_locals : Both (fun _ => True)
    (fun g : Frame R => g.tempvalue = f.tempvalue ∧ g.tempheaders = f.tempheaders)
    (endOfHeaders d f) := by
  unfold endOfHeaders
  split
  · trivial
  · split
    · trivial
    · cases run publishHeader (setup f) f.tempheaders.entries with
      | error r => trivial
      | ok r =>
        simp only
        split <;> exact ⟨rfl, rfl⟩

/-- **A value ends with its line**, and has no carriage return. -/
theorem step_whole (h : f.toLocals.Whole) (c : Byte) :
    Both (fun _ => True) (fun g => g.toLocals.Whole) (step d f c) := by
  have hsame {l : Locals} (hvalue : l.tempvalue = f.tempvalue)
      (hheaders : l.tempheaders = f.tempheaders) : l.Whole := by
    constructor
    · rw [hvalue]
      exact h.value
    · rw [hheaders]
      exact h.values
  unfold step
  split
  · split <;> exact hsame rfl rfl
  · split
    · exact hsame rfl rfl
    · split
      · trivial
      · exact hsame rfl rfl
  · split
    · exact h
    · split <;> exact hsame rfl rfl
  · split
    · exact h
    · split
      · exact endOfHeaders_locals.imp (fun _ _ => trivial) fun g hg => hsame hg.1 hg.2
      · split
        · exact h
        · split
          · exact hsame rfl rfl
          · exact ⟨fun c hc => (by cases hc), h.values⟩
  · split
    · exact h
    · rename_i hcr
      split
      · rename_i hlf
        refine ⟨List.forall_mem_append.mpr ⟨h.value, ?_⟩, h.values⟩
        exact List.forall_mem_singleton.mpr ⟨hcr, hlf⟩
      · refine ⟨h.value, fun name v hv => ?_⟩
        rw [Lib.OrdMap.find?_insert] at hv
        split at hv
        · cases hold : f.tempheaders.find? f.tempkey with
          | none =>
            rw [hold] at hv
            cases hv
            exact h.value
          | some w =>
            rw [hold] at hv
            cases hv
            exact h.values f.tempkey w hold
        · exact h.values name v hv
  · exact hsame rfl rfl
  · exact h

/-- What a redirect leaves of a response. -/
theorem redirect_response (d : Disconnection) (f : Frame R) :
    (∃ e, (redirect d f).response = (refuse { f with engine := e }).response) ∨
      (redirect d f).response = f.response ∨
      ∃ url, f.tempheaders.find? (str "Location") = some url ∧
        (redirect d f).response = ResponseClass.setURL f.response url := by
  by_cases htimes : 5 < f.engine.redirtimes
  · have hbeyond := redirect_beyond d (l := f.toLocals) (r := f.response) htimes
    cases hthrown : (f.engine.counted.disconnect d).2 with
    | none =>
      rw [hthrown] at hbeyond
      exact .inl ⟨_, congrArg Exit.response hbeyond⟩
    | some x =>
      rw [hthrown] at hbeyond
      exact .inr (.inl (congrArg Exit.response hbeyond))
  · cases hurl : f.tempheaders.find? (str "Location") with
    | none => exact .inl ⟨_, congrArg Exit.response (redirect_lost d htimes hurl)⟩
    | some url =>
      have htarget := redirect_target d (l := f.toLocals) (r := f.response) htimes hurl
      exact .inr (.inr ⟨url, rfl, congrArg Exit.response htarget⟩)

variable [QuietResponse R] {names : List Bytes}

theorem clean_update {r : R} {g : HttpResponse → HttpResponse}
    (hg : ∀ b, (g b).outgoing = b.outgoing) (h : (base r).Clean names) :
    (base (update g r)).Clean names := by
  rw [LawfulResponse.base_update]
  exact h.same (hg _)

theorem clean_completed {r : R} (h : (base r).Clean names) :
    (base (ResponseClass.completed r)).Clean names := h.same (QuietResponse.outgoing_completed r)

theorem clean_refuse (h : (base f.response).Clean names) :
    (base (refuse f).response).Clean names := clean_completed (clean_update (fun _ => rfl) h)

theorem clean_redirect (hl : f.toLocals.Whole) (h : (base f.response).Clean names) :
    (base (redirect d f).response).Clean names := by
  rcases redirect_response d f with ⟨e, hrefused⟩ | hsame | ⟨url, hurl, hset⟩
  · rw [hrefused]
    exact clean_refuse h
  · rw [hsame]
    exact h
  · rw [hset, LawfulResponse.base_setURL]
    exact h.setURL (hl.values _ url hurl)

theorem clean_publishHeader {r : R} (h : (base r).Clean names) (header : Bytes × Bytes) :
    Both (fun s => (base s).Clean names) (fun s => (base s).Clean names)
      (publishHeader r header) := by
  have hset := clean_update (g := fun b => b.setHeaders header.1 header.2) (fun _ => rfl) h
  unfold publishHeader
  simp only
  split
  · split
    · exact hset
    · exact clean_update (fun _ => rfl) hset
  · exact hset

theorem clean_endOfHeaders (hl : f.toLocals.Whole) (h : (base f.response).Clean names) :
    Both (fun x : Exit R => (base x.response).Clean names)
      (fun g : Frame R => (base g.response).Clean names) (endOfHeaders d f) := by
  have hsetup : (base (setup f)).Clean names := clean_update (fun _ => rfl) h
  have hpublish := run_both (fun _ header hr => clean_publishHeader hr header) hsetup
    f.tempheaders.entries
  unfold endOfHeaders
  split
  · exact clean_refuse h
  · split
    · exact clean_redirect hl h
    · cases hrun : run publishHeader (setup f) f.tempheaders.entries with
      | error r =>
        rw [hrun] at hpublish
        exact hpublish
      | ok r =>
        rw [hrun] at hpublish
        simp only
        split
        · exact hpublish
        · exact clean_update (fun _ => rfl) hpublish

theorem clean_step (hl : f.toLocals.Whole) (h : (base f.response).Clean names) (c : Byte) :
    Both (fun x : Exit R => (base x.response).Clean names)
      (fun g : Frame R => (base g.response).Clean names) (step d f c) := by
  unfold step
  split
  · split <;> exact h
  · split
    · exact h
    · split <;> exact h
  · split
    · exact h
    · split <;> exact h
  · split
    · exact h
    · split
      · exact clean_endOfHeaders hl h
      · split
        · exact h
        · split <;> exact h
  · split
    · exact h
    · split <;> exact h
  · exact clean_update (fun _ => rfl) h
  · exact h

/-- **A call leaves a response that can be asked for in whole lines**, whatever
is read. -/
theorem clean_receive (d : Disconnection) (reads : List (Read 2048)) (buffer : Buffer)
    (e : Engine) {r : R} (h : (base r).Clean names) :
    (base (receive d reads buffer e r).1.response).Clean names := by
  let I : Frame R → Prop := fun f => f.toLocals.Whole ∧ (base f.response).Clean names
  let E : Exit R → Prop := fun x => (base x.response).Clean names
  have hstep (f : Frame R) (c : Byte) (hf : I f) : Both E I (step d f c) := by
    have hwhole := step_whole (d := d) hf.1 c
    have hclean := clean_step (d := d) hf.1 hf.2 c
    cases hread : step d f c with
    | error x =>
      rw [hread] at hclean
      exact hclean
    | ok g =>
      rw [hread] at hwhole hclean
      exact ⟨hwhole, hclean⟩
  have hflush (f : Frame R) (hf : I f) :
      Both (fun x => (base x.2).Clean names) (fun r => (base r).Clean names)
        (ResponseClass.flush f.response) :=
    (QuietResponse.outgoing_flush f.response).imp (fun _ hx => hf.2.same hx)
      fun _ hr => hf.2.same hr
  refine receiveLoop_rule (I := I) (E := E) hstep ?_ ?_ (fun _ hf => hf.2) ?_
    (fun _ hf _ => clean_completed hf.2) ⟨start_whole e r, h⟩ reads buffer
  · intro f s hf hs
    have hkept := hflush f hf
    rw [hs] at hkept
    exact ⟨hf.1, hkept⟩
  · intro f x s hf hs
    have hkept := hflush f hf
    rw [hs] at hkept
    exact hkept
  · intro f ec hf
    change (base (handle (.systemError ec) f).response).Clean names
    unfold handle
    split
    · exact clean_update (fun _ => rfl) hf.2
    · exact hf.2

end read

/-! ## What is written -/

/-- A text of whole lines: a first one, and fields with names of the application
or of `send`; with something behind them. -/
def Whole (names : List Bytes) (line rest text : Bytes) : Prop :=
  OneLine line ∧ ∃ fields : List (Bytes × Bytes),
    (∀ f ∈ fields, f.1 ∈ names ++ standard ∧ OneLine (fieldLine f)) ∧
    text = linesText (line :: fields.map fieldLine) ++ rest

/-- A request is a `GET` with nothing but a line end behind its empty line, and
what a proxy is told is a `CONNECT`. Their line is one, but need not be three
words. -/
def Event.Whole (names : List Bytes) : Event → Prop
  | .request _ text => ∃ target,
      Anetd.Whole names (str "GET " ++ target ++ str " HTTP/1.0") crlf text
  | .command text => ∃ target,
      Anetd.Whole names (str "CONNECT " ++ target ++ str " HTTP/1.0") [] text
  | _ => True

def Event.isRequest : Event → Bool
  | .request _ _ => true
  | _ => false

/-- An engine whose requests are whole: none of its fields has a line end, and
those that only `reset` assigns are as it leaves them. -/
structure Engine.Clean (e : Engine) : Prop where
  settings : e.settings = { Engine.new.settings with proxyauth := e.proxyauth }
  host : OneLine e.host
  targeturl : OneLine e.targeturl
  proxyauth : OneLine (base64Encode (e.proxyauth.1 ++ str ":" ++ e.proxyauth.2))

namespace Engine.Clean
variable {e e' : Engine}

theorem carried (h : e.Clean) (hsame : e'.carried = e.carried) : e'.Clean where
  settings := by
    have hsettings : e'.carried.settings = e.carried.settings := congrArg Engine.settings hsame
    have hauth : e'.carried.proxyauth = e.carried.proxyauth := congrArg Engine.proxyauth hsame
    change e'.carried.settings = { Engine.new.settings with proxyauth := e'.carried.proxyauth }
    rw [hsettings, hauth]
    exact h.settings
  host := (congrArg (fun e => OneLine e.host) hsame).mpr h.host
  targeturl := (congrArg (fun e => OneLine e.targeturl) hsame).mpr h.targeturl
  proxyauth := (congrArg (fun e => OneLine (base64Encode
    (e.proxyauth.1 ++ str ":" ++ e.proxyauth.2))) hsame).mpr h.proxyauth

theorem fields (h : e.Clean) : e.method = str "GET" ∧ e.version = str "HTTP/1.0" ∧
    e.arguments = ∅ ∧ e.body = [] :=
  ⟨congrArg Engine.method h.settings, congrArg Engine.version h.settings,
    congrArg Engine.arguments h.settings, congrArg Engine.body h.settings⟩

theorem new : Engine.new.Clean where
  settings := rfl
  host := fun c hc => by cases hc
  targeturl := fun c hc => by cases hc
  proxyauth := forall_of_all (by decide)

/-- The parts of a URL of one line. -/
theorem overwrite (h : e.Clean) (env : Environment) {parts : UrlParts} (hknown : parts.Known)
    (hparts : parts.All fun c => c ≠ cr ∧ c ≠ lf) : (e.overwrite env parts).Clean := by
  simp only [UrlParts.All, List.forall_mem_cons] at hparts
  obtain ⟨-, hhost, hport, -⟩ := hparts
  have hscheme : OneLine (toLower parts.protocol) := by
    rcases hknown with hhttp | hhttps
    · rw [hhttp]
      exact forall_of_all (by decide)
    · rw [hhttps]
      exact forall_of_all (by decide)
  have hdefault : OneLine parts.portOrDefault := by
    rw [UrlParts.portOrDefault]
    split
    · split <;> exact forall_of_all (by decide)
    · exact hport
  have hslashes : OneLine (str "://") := forall_of_all (by decide)
  have hcolon : OneLine (str ":") := forall_of_all (by decide)
  have hauthority := (OneLine.append hhost hcolon).append hdefault
  refine ⟨h.settings, ?_, hauthority, h.proxyauth⟩
  change OneLine (toLower parts.protocol ++ str "://" ++ parts.host ++ str ":" ++
    parts.portOrDefault)
  rw [List.append_assoc (toLower parts.protocol ++ str "://" ++ parts.host),
    List.append_assoc (toLower parts.protocol ++ str "://"), ← List.append_assoc parts.host]
  exact (hscheme.append hslashes).append hauthority

theorem setProxyAuth (h : e.Clean) {auth : Bytes × Bytes}
    (hauth : OneLine (base64Encode (auth.1 ++ str ":" ++ auth.2))) :
    { e with proxyauth := auth }.Clean where
  settings := congrArg (fun e : Engine => { e with proxyauth := auth }) h.settings
  host := h.host
  targeturl := h.targeturl
  proxyauth := hauth

theorem clearFields (h : e.Clean) : e.clearFields.Clean where
  settings := by
    obtain ⟨-, -, -, hbody⟩ := h.fields
    rw [Engine.clearFields, Engine.settings, Engine.carried, hbody]
    rfl
  host := fun c hc => by cases hc
  targeturl := h.targeturl
  proxyauth := h.proxyauth

theorem reset (h : e.Clean) {R : Type} [ResponseClass R] [QuietResponse R] {names : List Bytes}
    {r : R} (hr : (base r).Clean names) (d : Disconnection) :
    (e.reset r d).2.1.Clean ∧ (base (e.reset r d).2.2).Clean names := by
  have hclosed : (e.disconnect d).1.Clean := h.carried (by rw [Engine.disconnect_fields]; rfl)
  rw [Engine.reset]
  split
  · rename_i e' x heq
    rw [heq] at hclosed
    exact ⟨hclosed, hr⟩
  · rename_i e' heq
    rw [heq] at hclosed
    refine ⟨hclosed.clearFields, ?_⟩
    rw [QuietResponse.base_reset]
    exact hr.reset

end Engine.Clean

section written
variable {R : Type} [ResponseClass R] [QuietResponse R] {names : List Bytes}
variable {env : Environment} {e : Engine} {r : R} {p : Prepared R}

/-- What is prepared with an engine and a response that are clean is clean. -/
theorem clean_prepare (he : e.Clean) (hr : (base r).Clean names)
    (hp : prepare env e r = some p) :
    p.engine.Clean ∧ (base p.response).Clean names ∧
      OneLine (p.engine.url ++ p.parts.query) := by
  obtain ⟨hparts, hcases⟩ := prepare_cases hp
  have hall := urlParts_all hparts hr.url
  have hlines := hall
  simp only [UrlParts.All, List.forall_mem_cons] at hlines
  obtain ⟨-, hhost, -, hdirectory, hfile, hquery, -⟩ := hlines
  have hpath : OneLine p.parts.path := by
    rw [UrlParts.path]
    split
    · exact forall_of_all (by decide)
    · exact OneLine.append hdirectory hfile
  rcases hcases with ⟨hknown, -, hengine, hresponse⟩ | ⟨-, -, hengine, hresponse⟩
  · rw [hengine, hresponse, LawfulResponse.base_update]
    exact ⟨he.overwrite env hknown hall, hr.setHost hhost, OneLine.append hpath hquery⟩
  · rw [hengine, hresponse]
    exact ⟨he.carried rfl, hr, OneLine.append hpath hquery⟩

section prepared
variable (hnames : ∀ name ∈ names, OneLine name)
include hnames

theorem fieldLine_oneLine {f : Bytes × Bytes} (hname : f.1 ∈ names ++ standard)
    (hvalue : OneLine f.2) : OneLine (fieldLine f) := by
  have hstandard : ∀ name ∈ standard, OneLine name := by
    simp only [standard, List.forall_mem_cons]
    refine ⟨?_, ?_, ?_, ?_, ?_, fun _ h => by cases h⟩ <;> exact forall_of_all (by decide)
  have hcolon : OneLine (str ": ") := forall_of_all (by decide)
  have hown : OneLine f.1 := (List.mem_append.mp hname).elim (hnames _) (hstandard _)
  exact (hown.append hcolon).append hvalue

/-- The field of a line with credentials. -/
theorem basicField_whole {name : Bytes} {auth : Bytes × Bytes} (hname : name ∈ standard)
    (hauth : OneLine (base64Encode (auth.1 ++ str ":" ++ auth.2))) :
    ∀ f ∈ basicField name auth, f.1 ∈ names ++ standard ∧ OneLine (fieldLine f) := by
  intro f hf
  have hbasic : OneLine (str "Basic ") := forall_of_all (by decide)
  rw [basicField] at hf
  split at hf
  · rw [List.mem_singleton.mp hf]
    have hmem := List.mem_append_right names hname
    exact ⟨hmem, fieldLine_oneLine hnames hmem (hbasic.append hauth)⟩
  · cases hf

theorem command_whole (he : e.Clean) {text : Bytes} (h : e.command = some text) :
    (Event.command text).Whole names := by
  obtain ⟨-, hversion, -⟩ := he.fields
  rw [Engine.command] at h
  split at h
  · cases h
    have hconnect : OneLine (str "CONNECT ") := forall_of_all (by decide)
    have hhttp : OneLine (str " HTTP/1.0") := forall_of_all (by decide)
    have hlast : str " " ++ str "HTTP/1.0" = str " HTTP/1.0" := by decide
    refine ⟨e.targeturl, (hconnect.append he.targeturl).append hhttp,
      basicField (str "Proxy-Authorization") e.proxyauth,
      basicField_whole hnames (by decide) he.proxyauth, ?_⟩
    rw [proxyCommand, hversion, List.append_assoc _ (str " "), hlast, basicLine_fields, linesText]
    simp only [List.flatMap_cons, List.append_assoc, List.append_nil]
  · cases h

theorem request_whole (he : p.engine.Clean) (hr : (base p.response).Clean names)
    (hurl : OneLine (p.engine.url ++ p.parts.query)) :
    (Event.request p.engine.httpType p.request).Whole names := by
  obtain ⟨hmethod, hversion, harguments, hbody⟩ := he.fields
  have hsender : p.sender.Clean names := clean_update (fun _ => rfl) hr
  have hfields : ∀ f ∈ (p.message crlf).fields,
      f.1 ∈ names ++ standard ∧ OneLine (fieldLine f) := by
    have hfixed (name value : Bytes) (hname : name ∈ standard) (hvalue : OneLine value) :
        name ∈ names ++ standard ∧ OneLine (fieldLine (name, value)) :=
      have hmem := List.mem_append_right names hname
      ⟨hmem, fieldLine_oneLine (f := (name, value)) hnames hmem hvalue⟩
    refine List.forall_mem_append.mpr ⟨List.forall_mem_append.mpr ⟨List.forall_mem_append.mpr
      ⟨?_, ?_⟩, ?_⟩, List.forall_mem_cons.mpr ⟨?_, List.forall_mem_singleton.mpr ?_⟩⟩
    · intro f hf
      obtain ⟨hname, hvalue⟩ := hsender.headers f hf
      exact ⟨hname, fieldLine_oneLine hnames hname hvalue⟩
    · exact basicField_whole hnames (by decide) hsender.httpauth
    · split
      · exact basicField_whole hnames (by decide) he.proxyauth
      · exact fun f hf => by cases hf
    · exact hfixed _ _ (by decide) (forall_of_all (by decide))
    · exact hfixed _ _ (by decide) (forall_of_all (by decide))
  have htarget : OneLine (p.message crlf).target := by
    have hnone : argumentText p.engine p.parts = [] := by
      rw [argumentText, harguments]
      rfl
    change OneLine ((if p.engine.httpProxy = .none then [] else p.engine.host) ++ p.engine.url ++
      p.parts.query ++ argumentText p.engine p.parts)
    rw [hnone, List.append_nil, List.append_assoc]
    refine OneLine.append ?_ hurl
    split
    · exact fun c hc => by cases hc
    · exact he.host
  have hget : OneLine (str "GET ") := forall_of_all (by decide)
  have hhttp : OneLine (str " HTTP/1.0") := forall_of_all (by decide)
  have hfirst : str "GET" ++ str " " = str "GET " := by decide
  have hlast : str " " ++ str "HTTP/1.0" = str " HTTP/1.0" := by decide
  have hline : (p.message crlf).requestLine =
      str "GET " ++ (p.message crlf).target ++ str " HTTP/1.0" := by
    change p.engine.method ++ str " " ++ (p.message crlf).target ++ str " " ++ p.engine.version = _
    rw [hmethod, hversion, hfirst, List.append_assoc _ (str " "), hlast]
  refine ⟨(p.message crlf).target, (hget.append htarget).append hhttp, (p.message crlf).fields,
    hfields, ?_⟩
  rw [request_text, hbody, List.append_nil, RequestMessage.text, hline]
  rfl

end prepared

end written

/-- The attempts to connect, by what they are made of. -/
theorem tryEndpoints_all {P : Event → Prop} (hconnect : ∀ type isOpen, P (.connect type isOpen))
    (hhandshake : P .handshake) {command : Option Bytes}
    (hcommand : ∀ text, command = some text → P (.command text)) (type : HttpType)
    (isOpen : Bool) (attempts : List Attempt) :
    ∀ event ∈ (tryEndpoints type command isOpen attempts).1, P event := by
  have andThen {s t : Steps} (hs : ∀ event ∈ s.1, P event) (ht : ∀ event ∈ t.1, P event) :
      ∀ event ∈ (s.andThen t).1, P event := by
    unfold Steps.andThen
    split
    · exact List.forall_mem_append.mpr ⟨hs, ht⟩
    · exact hs
  have none : ∀ event ∈ ([] : List Event), P event := fun _ h => by cases h
  have attempt (a : Attempt) (isOpen : Bool) :
      ∀ event ∈ (a.run type command isOpen).1, P event := by
    refine andThen (List.forall_mem_singleton.mpr (hconnect type isOpen)) ?_
    cases type with
    | plainHttp => exact none
    | sslHttps =>
      refine andThen ?_ (List.forall_mem_singleton.mpr hhandshake)
      cases command with
      | none => exact none
      | some text => exact andThen (List.forall_mem_singleton.mpr (hcommand text rfl)) none
  induction attempts generalizing isOpen with
  | nil => exact none
  | cons a rest ih =>
    have hrun := attempt a isOpen
    rw [tryEndpoints]
    split
    · rename_i events heq
      rwa [heq] at hrun
    · rename_i events ec heq
      rw [heq] at hrun
      exact List.forall_mem_append.mpr ⟨hrun, ih true⟩
    · rename_i events stop hstop heq
      rwa [heq] at hrun

theorem dial_whole {R : Type} {names : List Bytes} (hnames : ∀ name ∈ names, OneLine name)
    {p : Prepared R} (he : p.engine.Clean) (hop : Hop) :
    ∀ event ∈ (dial hop p).1, event.Whole names := by
  have hattempts (attempts : List Attempt) : ∀ event ∈
      (tryEndpoints p.engine.httpType p.engine.command p.engine.isOpen attempts).1,
      event.Whole names :=
    tryEndpoints_all (fun _ _ => trivial) trivial (fun _ => command_whole hnames he) _ _ _
  have hquery : (Event.query p.target.host p.target.port).Whole names := trivial
  rw [dial]
  cases hop.resolve with
  | error ec => exact List.forall_mem_singleton.mpr hquery
  | ok attempts =>
    have hall := hattempts attempts
    rcases htry : tryEndpoints p.engine.httpType p.engine.command p.engine.isOpen attempts with
      ⟨events, stop | connected⟩
    · rw [htry] at hall
      simpa only [htry, Steps.andThen, List.singleton_append] using
        List.forall_mem_cons.mpr ⟨hquery, hall⟩
    · rw [htry] at hall
      cases connected <;> simpa only [htry, Steps.andThen, List.singleton_append] using
        List.forall_mem_cons.mpr ⟨hquery, hall⟩

section sent
variable {R : Type} [ResponseClass R] {names : List Bytes} {env : Environment}

/-- A world in which only whole texts have been written, and will be next. -/
structure World.Clean (names : List Bytes) (w : World R) : Prop where
  engine : w.engine.Clean
  response : (base w.response).Clean names
  written : ∀ event ∈ w.trace, event.Whole names

/-- **A hop keeps it**, whatever the server sends. -/
theorem World.Clean.send [QuietResponse R] (hnames : ∀ name ∈ names, OneLine name) {w : World R}
    (h : w.Clean names) (hop : Hop) : (send env hop w).2.Clean names := by
  cases hp : prepare env w.engine w.response with
  | none =>
    simp only [Anetd.send, hp]
    exact h
  | some p =>
    obtain ⟨hengine, hresponse, hurl⟩ := clean_prepare h.engine h.response hp
    have hdialed : (dialed hop p.engine).Clean := hengine.carried (by rw [dialed_fields]; rfl)
    have hsent : (base (update (fun b => b.setContentLength p.engine.body.length)
        p.response)).Clean names := clean_update (fun _ => rfl) hresponse
    have hwritten : ∀ event ∈ (Anetd.send env hop w).2.trace, event.Whole names := by
      rw [send_trace hp]
      refine List.forall_mem_append.mpr ⟨h.written, List.forall_mem_append.mpr
        ⟨dial_whole hnames hengine hop, ?_⟩⟩
      split
      · exact List.forall_mem_singleton.mpr (request_whole hnames hengine hresponse hurl)
      · exact fun _ hevent => by cases hevent
    rcases send_cases env hop w with ⟨hnone, -⟩ |
      ⟨p', hp', ⟨stop, -, hsend⟩ | ⟨-, ⟨ec, -, hsend⟩ | ⟨-, hsend⟩⟩⟩
    · cases hp.symm.trans hnone
    · obtain rfl := Option.some.inj (hp.symm.trans hp')
      rw [hsend] at hwritten ⊢
      exact ⟨hdialed, hresponse, hwritten⟩
    · obtain rfl := Option.some.inj (hp.symm.trans hp')
      rw [hsend] at hwritten ⊢
      exact ⟨hdialed, hsent, hwritten⟩
    · obtain rfl := Option.some.inj (hp.symm.trans hp')
      rw [hsend] at hwritten ⊢
      exact ⟨hdialed.carried (receive_carried _ _ _ _ _), clean_receive _ _ _ _ hsent, hwritten⟩

end sent

/-! ## Programs -/

/-- What an application does that hands over texts of one line. -/
def Act.Clean {R : Type} [ResponseClass R] (names : List Bytes) : Act R → Prop
  | .setProxyAuth username password => OneLine (base64Encode (username ++ str ":" ++ password))
  | .use _ f => ∀ r, (base r).Clean names → (base (f r)).Clean names
  | _ => True

namespace Program

section program
variable {R : Type} [ResponseClass R] {names : List Bytes} {env : Environment} {net : Network}
variable {p q : Program R}

structure Clean (names : List Bytes) (p : Program R) : Prop where
  engine : p.engine.Clean
  objects : ∀ i, (base (p.objects i)).Clean names
  written : ∀ event ∈ p.trace, event.Whole names

theorem Clean.world (h : p.Clean names) : p.world.Clean names :=
  ⟨h.engine, h.objects p.response, h.written⟩

theorem Clean.withWorld (h : p.Clean names) {w : World R} (hw : w.Clean names) :
    (p.withWorld w).Clean names where
  engine := hw.engine
  objects := by
    intro i
    by_cases hi : i = p.response
    · subst hi
      simpa [Program.withWorld] using hw.response
    · simpa [Program.withWorld, Function.update_of_ne hi] using h.objects i
  written := hw.written

variable [QuietResponse R] (hnames : ∀ name ∈ names, OneLine name)
include hnames

theorem Clean.resume (h : p.Clean names) (hq : p.resume env net = .ok q) : q.Clean names := by
  rcases resume_cases hq with ⟨-, result, w, hsend, hresult⟩ | ⟨-, rfl⟩ | ⟨-, rfl⟩ | ⟨x, -, rfl⟩
  · have hw : w.Clean names := by
      have hsent : (send env (net p.trace) p.world).2.Clean names :=
        h.world.send hnames (net p.trace)
      rwa [hsend] at hsent
    have hkept := h.withWorld hw
    rcases hresult with ⟨-, rfl⟩ | ⟨-, rfl⟩ | ⟨stop, -, rfl⟩
    · exact hkept
    · exact ⟨hkept.engine, hkept.objects, hkept.written⟩
    · exact ⟨hkept.engine, hkept.objects, hkept.written⟩
  · exact ⟨h.engine, h.objects,
      List.forall_mem_append.mpr ⟨h.written, List.forall_mem_singleton.mpr trivial⟩⟩
  · exact ⟨h.engine, h.objects, h.written⟩
  · exact ⟨h.engine, h.objects, h.written⟩

theorem Clean.step (h : p.Clean names) {a : Act R} (ha : a.Clean names)
    (hq : p.step env net a = .ok q) : q.Clean names := by
  cases a with
  | thread => exact h.resume hnames hq
  | setCallback func | starttransfer myresponse =>
    obtain ⟨-, rfl⟩ := allow_eq_ok.mp hq
    exact ⟨h.engine, h.objects, h.written⟩
  | setProxyAuth username password =>
    obtain ⟨-, rfl⟩ := allow_eq_ok.mp hq
    exact ⟨h.engine.setProxyAuth ha, h.objects, h.written⟩
  | reset d =>
    obtain ⟨-, rfl⟩ := allow_eq_ok.mp hq
    obtain ⟨hengine, hresponse⟩ := h.engine.reset (h.objects p.response) d
    exact h.withWorld ⟨hengine, hresponse, h.written⟩
  | use object f =>
    obtain ⟨-, rfl⟩ := allow_eq_ok.mp hq
    refine ⟨h.engine, fun i => ?_, h.written⟩
    by_cases hi : i = object
    · subst hi
      simpa using ha _ (h.objects i)
    · simpa [Function.update_of_ne hi] using h.objects i
  | callback =>
    obtain ⟨-, res, rest, -, rfl⟩ := callback_cases hq
    exact ⟨h.engine, h.objects, h.written⟩

/-- **All that a program has to write is whole**, whatever servers and proxies send
it: a line that no server has ended, and fields that no server has added. -/
theorem requests_whole {objects : Nat → R} {response : Nat} {acts : List (Act R)}
    (h : run (Program.step env net) (new objects response) acts = .ok q)
    (hobjects : ∀ i, (base (objects i)).Clean names) (hacts : ∀ a ∈ acts, a.Clean names) :
    ∀ event ∈ q.trace, event.Whole names := by
  have hnew : (new objects response).Clean names := ⟨.new, hobjects, fun _ h => by cases h⟩
  have hclean : q.Clean names :=
    run_invariant (fun a ha _ _ hp hq => hp.step hnames (hacts a ha) hq) hnew h
  exact hclean.written

end program

/-- A URL and credentials of one line, and two requests. -/
def plainActs : List (Act HttpResponse) :=
  [.setProxyAuth (str "u") (str "p"), .use 0 fun r => r.setURL loopUrl, .starttransfer 0, .thread,
    .thread]

theorem requests_whole_loop : ∃ q,
    run (Program.step ⟨[], []⟩ fun _ => loopHop ⟨none, none⟩) (new (fun _ => .new) 0) plainActs =
        .ok q ∧
      2 ≤ q.trace.countP Event.isRequest ∧
      ∀ event ∈ q.trace, event.Whole [] := by
  have hends : (run (Program.step ⟨[], []⟩ fun _ => loopHop ⟨none, none⟩) (new (fun _ => .new) 0)
      plainActs).toOption.map (fun q => decide (2 ≤ q.trace.countP Event.isRequest)) =
        some true := by
    decide +kernel
  have hobjects : ∀ i : Nat, (base (HttpResponse.new)).Clean [] := fun _ =>
    ⟨fun c hc => (by cases hc), fun h hh => (by cases hh), forall_of_all (by decide)⟩
  have hacts : ∀ a ∈ plainActs, a.Clean [] := by
    have hurl : OneLine loopUrl := forall_of_all (by decide)
    have hauth : OneLine (base64Encode (str "u" ++ str ":" ++ str "p")) := forall_of_all (by decide)
    simp only [plainActs, List.forall_mem_cons]
    exact ⟨hauth, fun r hr => hr.setURL hurl, trivial, trivial, trivial, fun _ h => by cases h⟩
  cases hrun : run (Program.step ⟨[], []⟩ fun _ => loopHop ⟨none, none⟩) (new (fun _ => .new) 0)
      plainActs with
  | error x =>
    rw [hrun] at hends
    cases hends
  | ok q =>
    rw [hrun] at hends
    exact ⟨q, rfl, of_decide_eq_true (Option.some.inj hends),
      requests_whole (fun _ h => by cases h) hrun hobjects hacts⟩

end Program

end Anetd
