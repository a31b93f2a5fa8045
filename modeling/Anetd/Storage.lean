import Anetd.FileTransfer
import Anetd.Web

/-!
# A reader into files

The web read into an `http_response_file`. Its body is measured anew after every
flush, so that what is announced does not bound what is written; on documents
with nothing behind their body, and URLs that name a file, a transfer leaves the
last document in one file, however its stream was cut (`connect_stores`).
-/

namespace Anetd

open Lib.OrdMap

/-! ## The body -/

section body
variable {d : Disconnection} {l : Locals} {e : Engine} {r : HttpResponseFile}
variable {before : List (Bytes × Bytes)} {qs : List Bytes}

/-- A call that returns with a body in its file, and has counted it. -/
structure Spooled (before : List (Bytes × Bytes)) (content : Bytes) (r : HttpResponse)
    (x : Exit HttpResponseFile) : Prop where
  result : x.result = .ok false
  written : Wrote before x.response.disk content
  response : ∃ size, x.response.toHttpResponse =
    (r.passed content.length).setBodySize size

/-- **Parts that bring no more than the body** are all written. -/
theorem parts_spooled (hl : l.parserState = .body) (hempty : r.body = [])
    (hspools : r.Spools before []) (hsize : r.bodySize = 0 ∨ qs.flatten.length ≤ r.bodySize) :
    Spooled before qs.flatten r.toHttpResponse
      (turns d (some (.systemError .eof)) qs ⟨l, e, r⟩) := by
  by_cases hall : ∀ q ∈ qs, ¬ reaches 0 r.bodySize q.length
  · obtain ⟨r₁, hbase, hspools₁, hpass⟩ := parts_pass (d := d) (e := e) hl hempty hspools hall
    have hturns := (hpass (some (.systemError .eof)) []).1
    rw [List.append_nil] at hturns
    rw [hturns]
    exact ⟨rfl, hspools₁.wrote, r₁.body.length, congrArg (HttpResponse.setBodySize · _) hbase⟩
  · -- the part that completes the body is all of it
    obtain ⟨q, hfound⟩ :
        ∃ q, qs.find? (fun q => decide (reaches 0 r.bodySize q.length)) = some q := by
      rw [← Option.isSome_iff_exists, List.find?_isSome]
      simpa using hall
    obtain ⟨hq, as, bs, rfl, has⟩ := List.find?_eq_some_iff_append.mp hfound
    have hreach : reaches 0 r.bodySize q.length := by simpa using hq
    have hpos := hreach.1
    have hle := hreach.2
    simp only [List.flatten_append, List.flatten_cons, List.length_append] at hsize
    have hbefore : as.flatten = [] := List.length_eq_zero_iff.mp (by omega)
    have hbehind : bs.flatten = [] := List.length_eq_zero_iff.mp (by omega)
    obtain ⟨r₁, hbase₁, hspools₁, hpass⟩ := parts_pass (d := d) (e := e) hl hempty hspools
      (fun a ha => by simpa using has a ha)
    rw [hbefore] at hbase₁ hspools₁
    have hsame : r₁.toHttpResponse = r.toHttpResponse := hbase₁
    obtain ⟨r₂, hbase₂, hspools₂, hdone⟩ := part_completes (d := d) (e := e) (q := q) hl
      (by rw [hsame, hempty]) hspools₁ (by rw [hsame]; exact hreach)
    have hlength : q.length = r.bodySize := by omega
    have hcontent : (as ++ q :: bs).flatten = q := by
      rw [List.flatten_append, List.flatten_cons, hbefore, hbehind, List.nil_append,
        List.append_nil]
    rw [(hpass _ (q :: bs)).1, (hdone _ bs).1, hcontent]
    refine ⟨rfl, ?_, r.bodySize, ?_⟩
    · have hwrote := hspools₂.wrote
      rw [hsame, ← hlength, List.take_length, List.nil_append] at hwrote
      exact hwrote
    · have hbase : r₂.toHttpResponse = r.toHttpResponse.passed q.length := by
        rw [hbase₂, hsame, hlength]
      exact hbase

end body

/-! ## One document -/

namespace Document

/-- A document with nothing behind its body. -/
def Exact (doc : Document) : Prop := doc.head.status < 300 → doc.body = doc.rest

/-- What a transfer into a file has, behind the files `before`, that started with
`r` and came to the document. -/
structure Stored (before : List (Bytes × Bytes)) (doc : Document) (r s : HttpResponseFile) :
    Prop where
  status : s.status = doc.head.status
  description : s.description = doc.head.description
  version : s.version = if doc.head.status < 300 then doc.head.version else r.version
  written : Wrote before s.disk (if doc.head.status < 300 then doc.body else [])
  progress : s.progress = if doc.head.status < 300 then doc.body.length else r.progress
  headers : ∀ name, name ≠ contentLength → s.headers.find? name = (r.headers.find? name).or
    (if doc.head.status < 300 then doc.head.headers.find? name else none)

section accepted
variable {doc : Document} {d : Disconnection} {e : Engine} {r : HttpResponseFile}
variable {before : List (Bytes × Bytes)} {ps : List Bytes}

/-- What is announced leaves room for what is sent. -/
theorem Exact.fits (h : doc.Exact) (hs : doc.head.status < 300) {size : Nat}
    (hawaits : doc.head.Awaits size) : size = 0 ∨ doc.rest.length ≤ size := by
  cases hawaits with
  | unannounced => exact .inl rfl
  | announced found number _ =>
    right
    have hall := h hs
    rw [body_announced found number] at hall
    exact (congrArg List.length hall).symm.trans_le (List.length_take_le _ _)

/-- A length of zero completes the response with its head. -/
theorem head_spooled (hs : doc.head.status < 300) (hempty : r.body = [])
    (hspools : r.Spools before []) {v : Bytes} {n : Int}
    (found : doc.head.headers.find? contentLength = some v) (number : lexicalCastInt v = some n)
    (zero : sizeOfInt n = 0) (post : List Bytes) :
    Spooled before [] (doc.head.publish r.toHttpResponse 0)
      (turns d (some (.systemError .eof)) (doc.head.text :: post) (.start e r)) := by
  have hparse := parse_announced d e r.toHttpResponse hs found number []
  have hdone : completes r.body.length (sizeOfInt n) ([] : Bytes).length := .inl zero
  rw [if_pos hdone, bodyPart, if_pos hdone, List.take_nil, HttpResponse.append_nil,
    List.append_nil, zero] at hparse
  have hparse' : parse d (.start e r) doc.head.text = _ := parse_file_ok hparse
  obtain ⟨r', hflush, hbase, hspools'⟩ := HttpResponseFile.Spools.flush
    (r := { r with toHttpResponse := doc.head.publish r.toHttpResponse 0 })
    ⟨hspools.willing, hspools.file⟩
  have hnil : (doc.head.publish r.toHttpResponse 0).body = [] := hempty
  rw [hnil] at hspools'
  rw [turns_done hparse' hflush rfl]
  refine ⟨rfl, hspools'.wrote, 0, ?_⟩
  have hsame : r'.toHttpResponse = doc.head.publish r.toHttpResponse 0 := by
    rw [hbase, HttpResponse.clearBody, ← hnil]
  exact hsame

/-- **A successful document is written to the end of its body.** -/
theorem read_spooled (hs : doc.head.status < 300) (hexact : doc.Exact) (hempty : r.body = [])
    (hspools : r.Spools before []) (hps : ps.flatten = doc.text) : ∃ size,
    Spooled before doc.body (doc.head.publish r.toHttpResponse size)
      (turns d (some (.systemError .eof)) ps (.start e r)) := by
  obtain ⟨c⟩ := head_pieces hps
  obtain ⟨r₁, hflushes, hbase, hspools₁⟩ := hspools.flushes hempty c.pre.length
  have hturns : turns d (some (.systemError .eof)) ps (.start e r) =
      turns d (some (.systemError .eof)) ((doc.head.text ++ c.part) :: c.post) (.start e r₁) := by
    rw [c.turns, hflushes]
  have hempty₁ : r₁.body = [] := by rw [hbase, hempty]
  rw [hturns, ← hbase]
  rcases doc.head.announcement with ⟨v, found, bad⟩ | ⟨v, n, found, number, zero⟩ |
    ⟨size, awaits⟩
  · obtain ⟨n, hn⟩ := doc.length_ok hs v found
    cases bad.symm.trans hn
  · have hnone : doc.body = [] := by rw [body_announced found number, zero, List.take_zero]
    have hrest := c.rest_eq.symm.trans ((hexact hs).symm.trans hnone)
    obtain ⟨hpart, -⟩ := List.append_eq_nil_iff.mp hrest
    rw [hpart, List.append_nil, hnone]
    exact ⟨0, head_spooled hs hempty₁ hspools₁ found number zero c.post⟩
  · have hparse := parse_awaits d e r₁.toHttpResponse hs awaits
    have hparse' : parse d (.start e r₁) doc.head.text = _ := parse_file_ok hparse
    have hspools₂ : HttpResponseFile.Spools before []
        { r₁ with toHttpResponse := doc.head.publish r₁.toHttpResponse size } :=
      ⟨hspools₁.willing, hspools₁.file⟩
    have hsize : size = 0 ∨ (c.part :: c.post).flatten.length ≤ size := by
      rw [List.flatten_cons, ← c.rest_eq]
      exact hexact.fits hs awaits
    have hspooled := parts_spooled (d := d) (e := e) (l := doc.head.behind)
      (r := { r₁ with toHttpResponse := doc.head.publish r₁.toHttpResponse size }) rfl hempty₁
      hspools₂ hsize
    have hall : doc.body = (c.part :: c.post).flatten := by
      rw [hexact hs, List.flatten_cons, ← c.rest_eq]
    rw [(turns_awaits hparse' _ c.part c.post).1, hall]
    exact ⟨size, hspooled⟩

end accepted

end Document

/-! ## The reader -/

/-- A file takes the documents that end with their body, and do not lead to a URL
without a file component. -/
def intoFile (before : List (Bytes × Bytes)) : Reader HttpResponseFile where
  Blank r := r.body = [] ∧ r.progress = 0 ∧ r.Spools before []
  Admits doc := doc.Exact ∧ ∀ next parts, doc.location = some next →
    urlParts next = some parts → parts.file ≠ []
  Obtained := Document.Stored before

section reader
variable {before : List (Bytes × Bytes)} {r s : HttpResponseFile}

theorem intoFile_leads (hr : (intoFile before).Blank r) (hspools : s.Spools before [])
    (hversion : s.version = r.version) (hbody : s.body = r.body)
    (hprogress : s.progress = r.progress)
    (hheaders : ∀ name, name ≠ contentLength → s.headers.find? name = r.headers.find? name) :
    (intoFile before).Leads r s where
  blank := ⟨hbody.trans hr.1, hprogress.trans hr.2.1, hspools⟩
  obtained doc t h := {
    status := h.status
    description := h.description
    version := by rw [h.version, hversion]
    written := h.written
    progress := by rw [h.progress, hprogress]
    headers := by
      intro name hname
      rw [h.headers name hname, hheaders name hname] }

/-- A new URL with a file component leaves an open file open, and names one that
is not. -/
theorem spools_setURL (h : r.Spools before []) {url : Bytes}
    (hfile : ∀ parts, urlParts url = some parts → parts.file ≠ []) :
    (r.setURL url).Spools before [] where
  willing := h.willing
  file := by
    rcases h.file with hopened | ⟨hclosed, hnamed, hcreated, -⟩
    · exact .inl hopened
    · refine .inr ⟨hclosed, ?_, hcreated, rfl⟩
      rw [HttpResponseFile.setURL]
      cases hparts : urlParts url with
      | none => exact hnamed
      | some parts => exact hfile parts hparts

theorem intoFile_lawful : (intoFile before).Lawful where
  host r host hr := intoFile_leads hr ⟨hr.2.2.willing, hr.2.2.file⟩ rfl rfl rfl fun _ _ => rfl
  contentLength r n hr := intoFile_leads hr ⟨hr.2.2.willing, hr.2.2.file⟩ rfl rfl rfl
    fun name hname => (find?_set _ _ _ _).trans (if_neg hname)
  flush := by
    intro r hr
    obtain ⟨r', hflush, hbase, hspools'⟩ := hr.2.2.flush
    have hsame : r'.toHttpResponse = r.toHttpResponse := by
      rw [hbase, HttpResponse.clearBody, ← hr.1]
    rw [hr.1] at hspools'
    refine ⟨r', hflush, congrArg HttpResponse.url hsame, intoFile_leads hr hspools' ?_ ?_ ?_ ?_⟩
    · rw [hsame]
    · rw [hsame]
    · rw [hsame]
    · intro name _
      rw [hsame]
  sent r doc next hr hadmits hnext := intoFile_leads hr
    (spools_setURL hr.2.2 fun parts hparts => hadmits.2 next parts hnext hparts) rfl rfl rfl
    fun _ _ => rfl
  refused := by
    rintro doc ⟨l, e, r⟩ hr hs rfl
    refine ⟨rfl, rfl, rfl, (if_neg hs).symm, ?_, (if_neg hs).symm, ?_⟩
    · rw [if_neg hs]
      exact hr.2.2.wrote
    · intro name _
      rw [if_neg hs, Option.or_none]
      rfl
  accepted := by
    intro doc d e r ps hr hadmits hs hps
    obtain ⟨hempty, hprogress, hspools⟩ := hr
    obtain ⟨announced, hresult, hwrote, size, hresponse⟩ :=
      Document.read_spooled (d := d) (e := e) hs hadmits.1 hempty hspools hps
    intro x
    have hbase : (base x.response) =
        ((doc.head.publish r.toHttpResponse announced).passed doc.body.length).setBodySize size :=
      hresponse
    have hurl := congrArg HttpResponse.url hbase
    refine ⟨hresult, hurl, congrArg HttpResponse.status hbase,
      congrArg HttpResponse.description hbase, ?_, ?_, ?_, ?_⟩
    · rw [if_pos hs]
      exact congrArg HttpResponse.version hbase
    · rw [if_pos hs]
      exact hwrote
    · rw [if_pos hs]
      refine (congrArg HttpResponse.progress hbase).trans ?_
      change r.progress + doc.body.length = doc.body.length
      rw [hprogress, Nat.zero_add]
    · intro name _
      rw [if_pos hs]
      refine (congrArg (HttpResponse.headers · |>.find? name) hbase).trans ?_
      exact find?_insertAll _ _ _

end reader

def helloDocument : Document where
  head := fiveBytes
  rest := str "hello"
  length_ok := by
    intro _ v hv
    have hfive : fiveBytes.headers.find? contentLength = some (str "5") := by decide
    cases hfive.symm.trans hv
    exact ⟨5, by decide⟩

def helloHead : Bytes := fiveBytes.text ++ str "he"

def helloTail : Bytes := str "llo"

theorem helloHead_pos : 0 < helloHead.length := by decide

theorem helloHead_le : helloHead.length ≤ 2048 := by decide

theorem helloTail_pos : 0 < helloTail.length := by decide

theorem helloTail_le : helloTail.length ≤ 2048 := by decide

def helloChunks : Cut 2048 helloDocument.text where
  chunks := [⟨helloHead, helloHead_pos, helloHead_le⟩, ⟨helloTail, helloTail_pos, helloTail_le⟩]
  join := by decide

def helloHop : Hop := { okHop with reads := fun _ => helloChunks.reads .eof }

/-- The start of a transfer of it. -/
def helloStart : World HttpResponseFile := ⟨.new, fileStart, []⟩

theorem hello_serves : Serves ⟨[], []⟩ helloHop helloStart fun _ => helloDocument := by
  obtain ⟨p, hp, hknown⟩ : ∃ p, prepare ⟨[], []⟩ helloStart.engine helloStart.response = some p ∧
      p.parts.Known := by
    have hsome : ((prepare ⟨[], []⟩ helloStart.engine helloStart.response).map
        fun p => decide p.parts.Known) = some true := by decide +kernel
    obtain ⟨p, hp, hknown⟩ := Option.map_eq_some_iff.mp hsome
    exact ⟨p, hp, of_decide_eq_true hknown⟩
  have hconnected := answering_dial ⟨okText, by decide, by decide⟩ ⟨none, none⟩ p
  refine .intro hp hknown hconnected rfl ?_ ?_
  · intro url parts mode _ _ _
    exact .intro helloChunks .eof [] rfl (.inl rfl)
  · rintro ⟨-, -, se, hse, -⟩
    cases hse

theorem hello_admitted (before : List (Bytes × Bytes)) :
    (intoFile before).Admits helloDocument := by
  refine ⟨fun _ => by decide, fun next parts hnext => ?_⟩
  have hnone : helloDocument.location = none := by decide
  cases hnone.symm.trans hnext

theorem hello_blank : (intoFile fileStart.disk.created).Blank helloStart.response :=
  ⟨fileStart_ready.empty, rfl, fileStart_ready.spools⟩

/-- Every URL has the document, and one is asked for. -/
theorem hello_served : (intoFile fileStart.disk.created).Served ⟨[], []⟩ (fun _ => helloHop)
    helloStart fun _ => helloDocument := by
  intro k w' hfollowed
  refine ⟨?_, hello_admitted _⟩
  cases hfollowed with
  | none => exact hello_serves
  | more hsend rest =>
    obtain ⟨v, hlast, -⟩ := hello_serves.last intoFile_lawful hello_blank (hello_admitted _)
      (.inl (by decide))
    cases hlast.symm.trans hsend

end Anetd
