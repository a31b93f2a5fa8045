import Anetd.Targets

/-!
# The request as a message

What the text of a request is by the grammar of HTTP: a request line, field
lines, an empty line, and the rest. `Parses.unique` says that a text has one
reading. `request_misframed` compares the reading of what `send` writes with
what it was made of: an empty line too many stands in front of the body.
-/

namespace Anetd

structure RequestMessage where
  method : Bytes
  target : Bytes
  version : Bytes
  fields : List (Bytes × Bytes)
  rest : Bytes
  deriving DecidableEq

/-- Free of line ends. -/
def OneLine (bs : Bytes) : Prop := ∀ c ∈ bs, c ≠ cr ∧ c ≠ lf

/-- Free of line ends and spaces. -/
def Word (bs : Bytes) : Prop := ∀ c ∈ bs, c ≠ sp ∧ c ≠ cr ∧ c ≠ lf

theorem OneLine.append {bs cs : Bytes} (hb : OneLine bs) (hc : OneLine cs) : OneLine (bs ++ cs) :=
  List.forall_mem_append.mpr ⟨hb, hc⟩

theorem Word.append {bs cs : Bytes} (hb : Word bs) (hc : Word cs) : Word (bs ++ cs) :=
  List.forall_mem_append.mpr ⟨hb, hc⟩

theorem Word.oneLine {bs : Bytes} (h : Word bs) : OneLine bs := fun c hc => (h c hc).2

theorem Word.sp_notMem {bs : Bytes} (h : Word bs) : sp ∉ bs := fun hc => (h sp hc).1 rfl

theorem OneLine.line {bs : Bytes} (h : OneLine bs) (hne : bs ≠ []) :
    bs ≠ [] ∧ cr ∉ bs ∧ lf ∉ bs :=
  ⟨hne, fun hc => (h cr hc).1 rfl, fun hc => (h lf hc).2 rfl⟩

/-! ## The grammar -/

/-- `name: value`. -/
def fieldLine (field : Bytes × Bytes) : Bytes := field.1 ++ str ": " ++ field.2

namespace RequestMessage

variable (q : RequestMessage)

def requestLine : Bytes := q.method ++ str " " ++ q.target ++ str " " ++ q.version

def text : Bytes := linesText (q.requestLine :: q.fields.map fieldLine) ++ q.rest

/-- Three words, and names that end at the first colon. -/
structure WellFormed : Prop where
  method : Word q.method
  target : Word q.target
  version : Word q.version
  names : ∀ f ∈ q.fields, OneLine f.1 ∧ colon ∉ f.1
  values : ∀ f ∈ q.fields, OneLine f.2

/-- A text is read as a message. -/
def Parses (text : Bytes) (q : RequestMessage) : Prop := q.WellFormed ∧ text = q.text

end RequestMessage

/-- A part without the byte that ends it is determined, and so is what follows. -/
theorem append_cons_inj {a : Byte} {u v u' v' : Bytes} (hu : a ∉ u) (hu' : a ∉ u')
    (h : u ++ a :: v = u' ++ a :: v') : u = u' ∧ v = v' := by
  have hfirst := congrArg (List.takeWhile (· != a)) h
  rw [takeWhile_ne hu, takeWhile_ne hu'] at hfirst
  subst hfirst
  exact ⟨rfl, (List.cons.inj (List.append_cancel_left h)).2⟩

namespace RequestMessage

variable {q q' : RequestMessage}

theorem WellFormed.lines (h : q.WellFormed) : Lines (q.requestLine :: q.fields.map fieldLine) := by
  have hblank : OneLine (str " ") := forall_of_all (by decide)
  have hcolon : OneLine (str ": ") := forall_of_all (by decide)
  refine List.forall_mem_cons.mpr ⟨?_, List.forall_mem_map.mpr fun f hf => ?_⟩
  · refine OneLine.line ((((h.method.oneLine.append hblank).append h.target.oneLine).append
      hblank).append h.version.oneLine) fun hnil => ?_
    exact absurd (List.append_eq_nil_iff.mp (List.append_eq_nil_iff.mp hnil).1).2 (by decide)
  · refine OneLine.line (((h.names f hf).1.append hcolon).append (h.values f hf)) fun hnil => ?_
    exact absurd (List.append_eq_nil_iff.mp (List.append_eq_nil_iff.mp hnil).1).2 (by decide)

theorem requestLine_inj (h : q.WellFormed) (h' : q'.WellFormed)
    (heq : q.requestLine = q'.requestLine) :
    q.method = q'.method ∧ q.target = q'.target ∧ q.version = q'.version := by
  have hwords (q : RequestMessage) :
      q.requestLine = q.method ++ sp :: (q.target ++ sp :: q.version) := by
    simp only [requestLine, List.append_assoc]
    rfl
  rw [hwords, hwords] at heq
  obtain ⟨hmethod, hbehind⟩ := append_cons_inj h.method.sp_notMem h'.method.sp_notMem heq
  obtain ⟨htarget, hversion⟩ := append_cons_inj h.target.sp_notMem h'.target.sp_notMem hbehind
  exact ⟨hmethod, htarget, hversion⟩

theorem fieldLine_inj {f f' : Bytes × Bytes} (h : colon ∉ f.1) (h' : colon ∉ f'.1)
    (heq : fieldLine f = fieldLine f') : f = f' := by
  have hline (f : Bytes × Bytes) : fieldLine f = f.1 ++ colon :: (sp :: f.2) := by
    simp only [fieldLine, List.append_assoc]
    rfl
  rw [hline, hline] at heq
  obtain ⟨hname, hbehind⟩ := append_cons_inj h h' heq
  exact Prod.ext hname (List.cons.inj hbehind).2

theorem fields_inj {fs fs' : List (Bytes × Bytes)} (h : ∀ f ∈ fs, colon ∉ f.1)
    (h' : ∀ f ∈ fs', colon ∉ f.1) (heq : fs.map fieldLine = fs'.map fieldLine) : fs = fs' := by
  induction fs generalizing fs' with
  | nil => exact (List.map_eq_nil_iff.mp heq.symm).symm
  | cons f fs ih =>
    cases fs' with
    | nil => cases heq
    | cons f' fs' =>
      obtain ⟨hf, hfs⟩ := List.forall_mem_cons.mp h
      obtain ⟨hf', hfs'⟩ := List.forall_mem_cons.mp h'
      obtain ⟨hfirst, hothers⟩ := List.cons.inj heq
      rw [fieldLine_inj hf hf' hfirst, ih hfs hfs' hothers]

/-- **A text has one reading.** -/
theorem Parses.unique {text : Bytes} (h : Parses text q) (h' : Parses text q') : q = q' := by
  have heq : q.text = q'.text := h.2.symm.trans h'.2
  have hlines := linesText_unique h.1.lines h'.1.lines heq
  have hrest : q.rest = q'.rest := by
    rw [RequestMessage.text, RequestMessage.text, hlines] at heq
    exact List.append_cancel_left heq
  obtain ⟨hline, hfields⟩ := List.cons.inj hlines
  obtain ⟨hmethod, htarget, hversion⟩ := requestLine_inj h.1 h'.1 hline
  have hnames {q : RequestMessage} (h : q.WellFormed) : ∀ f ∈ q.fields, colon ∉ f.1 :=
    fun f hf => (h.names f hf).2
  have hsame := fields_inj (hnames h.1) (hnames h'.1) hfields
  cases q
  cases q'
  cases hmethod
  cases htarget
  cases hversion
  cases hsame
  cases hrest
  rfl

end RequestMessage

/-! ## What `send` writes -/

/-- The field of a line with credentials, if there is a user name. -/
def basicField (name : Bytes) (auth : Bytes × Bytes) : List (Bytes × Bytes) :=
  if auth.1.length > 0 then
    [(name, str "Basic " ++ base64Encode (auth.1 ++ str ":" ++ auth.2))]
  else []

theorem basicLine_fields (name : Bytes) (auth : Bytes × Bytes) :
    basicLine name auth = ((basicField name auth).map fieldLine).flatMap (· ++ crlf) := by
  rw [basicLine, basicField]
  split
  · simp only [List.map_cons, List.map_nil, List.flatMap_singleton, fieldLine, List.append_assoc]
    rfl
  · rfl

theorem headerText_fields (headers : StringMap) :
    headerText headers = (headers.entries.map fieldLine).flatMap (· ++ crlf) := by
  rw [headerText, List.flatMap_map]
  rfl

section message
variable {R : Type} [ResponseClass R]

/-- The response whose headers and credentials are sent. -/
def Prepared.sender (p : Prepared R) : HttpResponse :=
  base (update (fun b => b.setContentLength p.engine.body.length) p.response)

/-- What a prepared call asks for, with something behind the head. -/
def Prepared.message (p : Prepared R) (rest : Bytes) : RequestMessage where
  method := p.engine.method
  target := (if p.engine.httpProxy = .none then [] else p.engine.host) ++ p.engine.url ++
    p.parts.query ++ argumentText p.engine p.parts
  version := p.engine.version
  fields := p.sender.sendheaders.entries ++
    basicField (str "Authorization") p.sender.httpauth ++
    (if p.engine.httpProxy = .httpProxy then
      basicField (str "Proxy-Authorization") p.engine.proxyauth else []) ++
    [(str "Accept", str "*/*"), (str "Connection", str "close")]
  rest := rest

theorem message_text (p : Prepared R) (rest : Bytes) :
    (p.message rest).text = (p.message []).text ++ rest := by
  simp only [RequestMessage.text, Prepared.message, RequestMessage.requestLine, List.append_nil]

/-- The line end of the last header is there already when the empty line and
another one are appended. -/
theorem request_text (p : Prepared R) : p.request = (p.message (crlf ++ p.engine.body)).text := by
  have htarget : requestTarget p.engine p.parts =
      (p.message []).method ++ str " " ++ (p.message []).target := by
    simp only [requestTarget, Prepared.message]
    cases p.engine.httpProxy <;> simp [List.append_assoc]
  have hproxy : (if p.engine.httpProxy = .httpProxy then
        basicLine (str "Proxy-Authorization") p.engine.proxyauth else []) =
      ((if p.engine.httpProxy = .httpProxy then
        basicField (str "Proxy-Authorization") p.engine.proxyauth else []).map fieldLine).flatMap
          (· ++ crlf) := by
    split
    · exact basicLine_fields _ _
    · rfl
  have haccept : str "Accept: */*\r\n" = fieldLine (str "Accept", str "*/*") ++ crlf := by decide
  have hclose : str "Connection: close\r\n" = fieldLine (str "Connection", str "close") ++ crlf := by
    decide
  have hempty : str "\r\n\r\n" = crlf ++ crlf := by decide
  change requestText p.engine p.parts p.sender = _
  rw [requestText, htarget, headerText_fields, basicLine_fields, hproxy, haccept, hclose, hempty]
  simp only [RequestMessage.text, RequestMessage.requestLine, linesText, Prepared.message,
    List.map_append, List.flatMap_append, List.flatMap_cons, List.map_cons, List.map_nil,
    List.flatMap_nil, List.append_assoc, List.nil_append]

/-- So it is never the message it was meant to be. -/
theorem request_not_parses (p : Prepared R) :
    ¬ RequestMessage.Parses p.request (p.message p.engine.body) := by
  intro h
  have heq : (p.message (crlf ++ p.engine.body)).text = (p.message p.engine.body).text :=
    (request_text p).symm.trans h.2
  rw [message_text, message_text p p.engine.body] at heq
  have hlength := congrArg List.length (List.append_cancel_left heq)
  rw [List.length_append] at hlength
  have hcrlf : 0 < crlf.length := by decide
  omega

/-! ### Inputs that can be read back -/

/-- Inputs none of which ends a line or a word by itself. -/
structure Readable (e : Engine) (r : HttpResponse) : Prop where
  method : Word e.method
  version : Word e.version
  host : Word e.host
  arguments : ∀ a ∈ e.arguments.entries, Word a.1 ∧ OneLine a.2
  url : Word r.url
  headers : ∀ h ∈ r.sendheaders.entries, (OneLine h.1 ∧ colon ∉ h.1) ∧ OneLine h.2
  httpauth : OneLine (base64Encode (r.httpauth.1 ++ str ":" ++ r.httpauth.2))
  proxyauth : OneLine (base64Encode (e.proxyauth.1 ++ str ":" ++ e.proxyauth.2))

theorem word_intercalate {texts : List Bytes} (h : ∀ t ∈ texts, Word t) :
    Word (List.intercalate (str "&") texts) := by
  have hamp : Word (str "&") := forall_of_all (by decide)
  induction texts with
  | nil => exact fun c hc => by cases hc
  | cons t ts ih =>
    obtain ⟨ht, hts⟩ := List.forall_mem_cons.mp h
    cases ts with
    | nil =>
      rw [List.intercalate_singleton]
      exact ht
    | cons t' ts =>
      rw [List.intercalate_cons_cons]
      exact (ht.append hamp).append (ih hts)

/-- The values are split at their blanks. -/
theorem word_argumentText {e : Engine} (h : ∀ a ∈ e.arguments.entries, Word a.1 ∧ OneLine a.2)
    (parts : UrlParts) : Word (argumentText e parts) := by
  have hmark : Word (if parts.query.length > 0 then str "&" else str "?") := by
    split <;> exact forall_of_all (by decide)
  have hequals : Word (str "=") := forall_of_all (by decide)
  rw [argumentText]
  split
  · refine hmark.append (word_intercalate fun t ht => ?_)
    obtain ⟨a, ha, ht⟩ := List.mem_flatMap.mp ht
    obtain ⟨value, hvalue, rfl⟩ := List.mem_map.mp ht
    refine ((h a ha).1.append hequals).append (Lib.Split.mem_split hvalue fun c hc hsep => ⟨?_, ?_⟩)
    · rintro rfl
      exact absurd hsep (by decide)
    · exact (h a ha).2 c hc
  · exact fun c hc => by cases hc

variable {env : Environment} {e : Engine} {r : R}

/-- The URL in the request line. -/
theorem readable_target {p : Prepared R} (hp : prepare env e r = some p)
    (h : Readable e (base r)) (rest : Bytes) : Word (p.message rest).target := by
  obtain ⟨hparts, hcases⟩ := prepare_cases hp
  have hall := urlParts_all hparts h.url
  simp only [UrlParts.All, List.forall_mem_cons] at hall
  obtain ⟨-, hhost, hport, hdirectory, hfile, hquery, -⟩ := hall
  have hpath : Word p.parts.path := by
    rw [UrlParts.path]
    split
    · exact forall_of_all (by decide)
    · exact Word.append hdirectory hfile
  have hengine : Word p.engine.host ∧ p.engine.url = p.parts.path ∧
      p.engine.arguments = e.arguments := by
    rcases hcases with ⟨hknown, -, hengine, -⟩ | ⟨-, -, hengine, -⟩
    · rw [hengine]
      refine ⟨?_, rfl, rfl⟩
      have hscheme : Word (toLower p.parts.protocol) := by
        rcases hknown with hhttp | hhttps
        · rw [hhttp]
          exact forall_of_all (by decide)
        · rw [hhttps]
          exact forall_of_all (by decide)
      have hdefault : Word p.parts.portOrDefault := by
        rw [UrlParts.portOrDefault]
        split
        · split <;> exact forall_of_all (by decide)
        · exact hport
      have hslashes : Word (str "://") := forall_of_all (by decide)
      have hcolon : Word (str ":") := forall_of_all (by decide)
      exact (((hscheme.append hslashes).append hhost).append hcolon).append hdefault
    · rw [hengine]
      exact ⟨h.host, rfl, rfl⟩
  have hauthority : Word (if p.engine.httpProxy = .none then [] else p.engine.host) := by
    split
    · exact fun c hc => by cases hc
    · exact hengine.1
  have harguments := word_argumentText (e := p.engine) (by rw [hengine.2.2]; exact h.arguments)
    p.parts
  have hurl : Word p.engine.url := by
    rw [hengine.2.1]
    exact hpath
  exact ((hauthority.append hurl).append hquery).append harguments

variable [LawfulResponse R]

/-- The headers that are sent: those of the response, and the host. -/
theorem readable_headers {p : Prepared R} (hp : prepare env e r = some p) (h : Readable e (base r)) :
    ∀ f ∈ p.sender.sendheaders.entries, (OneLine f.1 ∧ colon ∉ f.1) ∧ OneLine f.2 := by
  have hsender : p.sender.sendheaders = (base p.response).sendheaders := by
    rw [Prepared.sender, LawfulResponse.base_update]
    rfl
  obtain ⟨hparts, ⟨-, -, -, hresponse⟩ | ⟨-, -, -, hresponse⟩⟩ := prepare_cases hp
  · intro f hf
    rw [hsender, hresponse, LawfulResponse.base_update] at hf
    rcases Lib.OrdMap.mem_set hf with rfl | hf
    · have hhost : Word p.parts.host := by
        have hall := urlParts_all hparts h.url
        simp only [UrlParts.All, List.forall_mem_cons] at hall
        exact hall.2.1
      have hname : OneLine (str "Host") ∧ colon ∉ str "Host" :=
        ⟨forall_of_all (by decide), by decide⟩
      exact ⟨hname, hhost.oneLine⟩
    · exact h.headers f hf
  · intro f hf
    rw [hsender, hresponse] at hf
    exact h.headers f hf

theorem basicField_line {name : Bytes} {auth : Bytes × Bytes}
    (hname : OneLine name ∧ colon ∉ name)
    (h : OneLine (base64Encode (auth.1 ++ str ":" ++ auth.2))) :
    ∀ f ∈ basicField name auth, (OneLine f.1 ∧ colon ∉ f.1) ∧ OneLine f.2 := by
  intro f hf
  have hbasic : OneLine (str "Basic ") := forall_of_all (by decide)
  rw [basicField] at hf
  split at hf
  · rw [List.mem_singleton.mp hf]
    exact ⟨hname, hbasic.append h⟩
  · cases hf

/-- What is asked for is a message, whatever is behind its head. -/
theorem readable_message {p : Prepared R} (hp : prepare env e r = some p)
    (h : Readable e (base r)) (rest : Bytes) : (p.message rest).WellFormed := by
  have hkept : p.engine.method = e.method ∧ p.engine.version = e.version ∧
      p.engine.proxyauth = e.proxyauth := by
    rcases (prepare_cases hp).2 with ⟨-, -, hengine, -⟩ | ⟨-, -, hengine, -⟩ <;> rw [hengine] <;>
      exact ⟨rfl, rfl, rfl⟩
  have hauth : p.sender.httpauth = (base r).httpauth := by
    rw [Prepared.sender, LawfulResponse.base_update]
    rcases (prepare_cases hp).2 with ⟨-, -, -, hresponse⟩ | ⟨-, -, -, hresponse⟩ <;> rw [hresponse]
    · rw [LawfulResponse.base_update]
      rfl
    · rfl
  have hfields : ∀ f ∈ (p.message rest).fields, (OneLine f.1 ∧ colon ∉ f.1) ∧ OneLine f.2 := by
    refine List.forall_mem_append.mpr ⟨List.forall_mem_append.mpr ⟨List.forall_mem_append.mpr
      ⟨readable_headers hp h, ?_⟩, ?_⟩, ?_⟩
    · refine basicField_line ⟨forall_of_all (by decide), by decide⟩ ?_
      rw [hauth]
      exact h.httpauth
    · split
      · refine basicField_line ⟨forall_of_all (by decide), by decide⟩ ?_
        rw [hkept.2.2]
        exact h.proxyauth
      · exact fun f hf => by cases hf
    · refine List.forall_mem_cons.mpr ⟨?_, List.forall_mem_singleton.mpr ?_⟩ <;>
        exact ⟨⟨forall_of_all (by decide), by decide⟩, forall_of_all (by decide)⟩
  constructor
  · change Word p.engine.method
    rw [hkept.1]
    exact h.method
  · exact readable_target hp h rest
  · change Word p.engine.version
    rw [hkept.2.1]
    exact h.version
  · exact fun f hf => (hfields f hf).1
  · exact fun f hf => (hfields f hf).2

/-- **The request does not read back**: whatever the inputs are, it is not the
message that was asked for. Inputs that can be read back give that message
with a line end in front of the body. -/
theorem request_misframed {hop : Hop} {w : World R} {type : HttpType} {text : Bytes}
    (h : .request type text ∈ (send env hop w).2.trace.drop w.trace.length) :
    ∃ p, prepare env w.engine w.response = some p ∧
      ¬ RequestMessage.Parses text (p.message w.engine.body) ∧
      (Readable w.engine (base w.response) →
        ∀ q, RequestMessage.Parses text q ↔ q = p.message (crlf ++ w.engine.body)) := by
  obtain ⟨p, hp, rfl⟩ := request_prepared h
  have hbody : p.engine.body = w.engine.body := by
    rcases (prepare_cases hp).2 with ⟨-, -, hengine, -⟩ | ⟨-, -, hengine, -⟩
    · rw [hengine]
      rfl
    · rw [hengine]
  refine ⟨p, hp, ?_, fun hreadable q => ?_⟩
  · rw [← hbody]
    exact request_not_parses p
  · rw [← hbody]
    have hparses : RequestMessage.Parses p.request (p.message (crlf ++ p.engine.body)) :=
      ⟨readable_message hp hreadable _, request_text p⟩
    constructor
    · exact fun hq => hq.unique hparses
    · rintro rfl
      exact hparses

end message

/-! ### A request without a body -/

def upperPrepared : Prepared HttpResponse :=
  ⟨upperUrl.parts, ⟨upperUrl.host, upperUrl.parts.portOrDefault⟩,
    Engine.new.overwrite ⟨[], []⟩ upperUrl.parts, upperWorld.response.setHost upperUrl.host⟩

def upperText : Bytes := str ("GET /d/f?q HTTP/1.0\r\nHost: a.example\r\nAccept: */*\r\n" ++
  "Connection: close\r\n\r\n\r\n")

theorem upper_prepare :
    prepare ⟨[], []⟩ upperWorld.engine upperWorld.response = some upperPrepared := by
  have hknown : upperUrl.parts.Known := upperUrl.scheme_ok
  exact prepare_known _ _ upperUrl.urlParts_text hknown

theorem upper_request : .request .plainHttp upperText ∈
    (send ⟨[], []⟩ relativeHop upperWorld).2.trace.drop upperWorld.trace.length := by
  have hdial : (dial relativeHop upperPrepared).2 = .ok () := answering_dial _ _ _
  have hrequest : upperPrepared.request = upperText := by decide
  have htype : upperPrepared.engine.httpType = .plainHttp := by decide
  rw [send_trace upper_prepare, List.drop_left, Prepared.events, hdial, hrequest, htype]
  exact List.mem_append_right _ List.mem_cons_self

theorem upper_readable : Readable Engine.new upperWorld.response where
  method := forall_of_all (by decide)
  version := forall_of_all (by decide)
  host := forall_of_all (by decide)
  arguments := fun a ha => by cases ha
  url := forall_of_all (by decide)
  headers := fun h hh => by cases hh
  httpauth := forall_of_all (by decide)
  proxyauth := forall_of_all (by decide)

theorem request_misframed_upper : ∃ p,
    prepare ⟨[], []⟩ Engine.new upperWorld.response = some p ∧
      ¬ RequestMessage.Parses upperText (p.message []) ∧
      ∀ q, RequestMessage.Parses upperText q ↔ q = p.message (crlf ++ []) := by
  obtain ⟨p, hp, hnot, hreads⟩ := request_misframed upper_request
  exact ⟨p, hp, hnot, hreads upper_readable⟩

/-- The server is left with a line end that is not part of the body. -/
theorem request_body_shifted :
    .request .plainHttp upperText ∈ (send ⟨[], []⟩ relativeHop upperWorld).2.trace ∧
      upperWorld.engine.body = [] ∧
      ¬ RequestMessage.Parses upperText ⟨str "GET", str "/d/f?q", str "HTTP/1.0",
        [(str "Host", str "a.example"), (str "Accept", str "*/*"),
          (str "Connection", str "close")], []⟩ := by
  refine ⟨upper_request, rfl, fun h => ?_⟩
  exact absurd h.2 (by decide)

end Anetd
