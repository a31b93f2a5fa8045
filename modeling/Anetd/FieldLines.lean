import Anetd.HeadEnds

/-!
# Where the header section ends

Field lines as HTTP writes them, with optional whitespace around the value,
and what it means for `receive` to read them as such: each line becomes a
header of its name, the empty line ends the header section, and no byte before
it reaches the body. The parser takes the first space of a line for the
separator, and the first header of a name for all of them; `delimited_iff` says
for which lines that comes to the same.
-/

namespace Anetd

open Lib.Machine Lib.OrdMap

/-- The optional whitespace of a field line. -/
def isOws (c : Byte) : Bool := c = sp || c = tab

/-- `name ':' OWS value OWS`. -/
structure FieldLine where
  name : Bytes
  before : Bytes
  value : Bytes
  after : Bytes
  name_nonempty : name ≠ []
  name_ok : ∀ c ∈ name, c ≠ colon ∧ isSpace c = false
  before_ok : ∀ c ∈ before, isOws c = true
  value_ok : cr ∉ value ∧ lf ∉ value
  after_ok : ∀ c ∈ after, isOws c = true

namespace FieldLine

variable (l : FieldLine)

/-- What follows the colon. -/
def content : Bytes := l.before ++ l.value ++ l.after

def text : Bytes := l.name ++ colon :: (l.content ++ crlf)

/-- What follows the first space of the content. -/
def read : Bytes := (l.content.dropWhile (· != sp)).tail

/-- There is a space in the content, and nothing but colons before the first. -/
def Named : Prop := ∃ early, l.content = early ++ sp :: l.read ∧ ∀ c ∈ early, c = colon

/-! ## The parts of a line -/

theorem name_no {c : Byte} (hc : isSpace c = true) : c ∉ l.name := by
  intro h
  rw [(l.name_ok c h).2] at hc
  cases hc

theorem content_no {c : Byte} (hc : isOws c = false) (hv : c ∉ l.value) : c ∉ l.content := by
  intro h
  rcases List.mem_append.mp h with h | h
  · rcases List.mem_append.mp h with h | h
    · rw [l.before_ok c h] at hc
      cases hc
    · exact hv h
  · rw [l.after_ok c h] at hc
    cases hc

theorem filter_name : l.name.filter (fun c => c != cr && c != colon) = l.name := by
  rw [List.filter_eq_self]
  intro c hc
  have hcr : c ≠ cr := fun h => l.name_no (by decide) (h ▸ hc)
  rw [Bool.and_eq_true, bne_iff_ne, bne_iff_ne]
  exact ⟨hcr, (l.name_ok c hc).1⟩

/-- The line without its line feed. -/
def line : Bytes := l.name ++ colon :: (l.content ++ [cr])

theorem text_eq : l.text = l.line ++ [lf] := by
  simp only [text, line, crlf, List.append_assoc, List.cons_append, List.nil_append]

theorem line_lf : lf ∉ l.line := by
  have hname := l.name_no (c := lf) (by decide)
  have hcontent := l.content_no (c := lf) (by decide) l.value_ok.2
  have hother : lf ≠ colon ∧ lf ≠ cr := by decide
  simp only [line, List.mem_append, List.mem_cons, List.not_mem_nil, hname, hcontent,
    hother, or_self, not_false_eq_true]

/-- **A line is divided at its first space**, wherever that is in the content. -/
theorem fields_at {early late : Bytes} (hcontent : l.content = early ++ sp :: late)
    (hearly : sp ∉ early) :
    sp ∈ l.line ∧
      fieldName l.line = l.name ++ early.filter (fun c => c != cr && c != colon) ∧
      fieldValue l.line = late := by
  have hline : l.line = (l.name ++ colon :: early) ++ sp :: (late ++ [cr]) := by
    simp only [line, hcontent, List.append_assoc, List.cons_append]
  have hbefore : sp ∉ l.name ++ colon :: early := by
    rw [List.mem_append, List.mem_cons]
    rintro (hin | heq | hin)
    · exact l.name_no (by decide) hin
    · exact absurd heq (by decide)
    · exact hearly hin
  have hcr := l.content_no (c := cr) (by decide) l.value_ok.1
  have hlate : late.filter (· != cr) = late := by
    refine List.filter_eq_self.mpr fun c hc => bne_iff_ne.mpr fun e => hcr ?_
    rw [hcontent]
    exact List.mem_append_right _ (List.mem_cons_of_mem _ (e ▸ hc))
  refine ⟨?_, ?_, ?_⟩
  · rw [hline]
    exact List.mem_append_right _ List.mem_cons_self
  · rw [hline, fieldName_append hbefore, List.filter_append, filter_name,
      List.filter_cons_of_neg (by decide)]
  · rw [hline, fieldValue_append hbefore, List.filter_append, hlate,
      List.filter_cons_of_neg (by decide), List.filter_nil, List.append_nil]

/-! ## How the parser reads a line -/

variable {l}

theorem Named.fields (h : l.Named) :
    sp ∈ l.line ∧ fieldName l.line = l.name ∧ fieldValue l.line = l.read := by
  obtain ⟨early, hcontent, hcolons⟩ := h
  have hearly : sp ∉ early := fun hin => absurd (hcolons sp hin) (by decide)
  obtain ⟨hsp, hname, hvalue⟩ := l.fields_at hcontent hearly
  have hnone : early.filter (fun c => c != cr && c != colon) = [] := by
    refine List.filter_eq_nil_iff.mpr fun c hc => ?_
    rw [hcolons c hc]
    decide
  exact ⟨hsp, by rw [hname, hnone, List.append_nil], hvalue⟩

/-- **Only such a line is taken for a header of its name**: another one is none,
or gets what stands before its space into its name. -/
theorem named_of_parse {d : Disconnection} {f g : Frame HttpResponse}
    (hf : f.parserState = .headerKey) (hk : f.tempkey = []) (hread : parse d f l.line = .ok g)
    (hstate : g.parserState = .headerValue) (hname : g.tempkey = l.name) : l.Named := by
  by_cases hsp : sp ∈ l.content
  · obtain ⟨early, late, hcontent, hearly⟩ := List.eq_append_cons_of_mem hsp
    obtain ⟨hin, hreadName, -⟩ := l.fields_at hcontent hearly
    rw [parse_openLine d hf hk hin l.line_lf] at hread
    have hsame : fieldName l.line = l.name := by
      rw [← hname, ← Except.ok.inj hread]
    have hcolons : early.filter (fun c => c != cr && c != colon) = [] :=
      List.append_cancel_left ((hreadName.symm.trans hsame).trans (List.append_nil _).symm)
    refine ⟨early, ?_, fun c hc => ?_⟩
    · rw [read, hcontent, dropWhile_sp hearly, List.tail_cons]
    · have hcr := l.content_no (c := cr) (by decide) l.value_ok.1
      have hnotcr : c ≠ cr := fun e => hcr (hcontent ▸ List.mem_append_left _ (e ▸ hc))
      simpa [hnotcr] using List.filter_eq_nil_iff.mp hcolons c hc
  · have hnone : sp ∉ l.line := by
      have hname := l.name_no (c := sp) (by decide)
      have hother : sp ≠ colon ∧ sp ≠ cr := by decide
      simp only [line, List.mem_append, List.mem_cons, List.not_mem_nil, hname, hsp,
        hother, or_self, not_false_eq_true]
    rw [parse_key d hf hnone l.line_lf] at hread
    rw [← Except.ok.inj hread, hf] at hstate
    cases hstate

end FieldLine

/-! ## Whole responses -/

/-- A 2xx response with field lines as HTTP writes them. -/
structure FieldResponse where
  version : Bytes
  code : Bytes
  status : Nat
  description : Bytes
  fields : List FieldLine
  rest : Bytes
  version_ok : sp ∉ version
  code_ok : Lib.Decimal.IsNumeral code status
  status_ok : 200 ≤ status ∧ status < 300
  description_ok : cr ∉ description ∧ lf ∉ description

namespace FieldResponse

variable (m : FieldResponse)

/-- The status line and some field lines. -/
def upTo (fields : List FieldLine) : Bytes :=
  m.version ++ sp :: (m.code ++ sp :: (m.description ++ crlf)) ++ fields.flatMap FieldLine.text

/-- The bytes up to the empty line and with it. -/
def head : Bytes := m.upTo m.fields ++ crlf

def text : Bytes := m.head ++ m.rest

/-- `receive` finds the header section where it is: the parser leaves the header
states just with the empty line, the body gets only bytes from behind it, and
each field line is taken for a header of its name, whose value the response then
has. -/
structure Delimited (d : Disconnection) (e : Engine) (r : HttpResponse) : Prop where
  boundary : ∀ part, part <+: m.text → ∃ f, parse d (.start e r) part = .ok f ∧
    (f.parserState.inHead = true ↔ part.length < m.head.length)
  body : ∀ (cut : Cut 2048 m.text) (ending : ErrorCode) (x : Exn) (buffer : Buffer),
    thrown e.httpType ending = some x →
      ∃ part, part <+: m.rest ∧
        (receive d (cut.reads ending) buffer e r).1.response.body = r.body ++ part
  headers : ∀ before l after, m.fields = before ++ l :: after → ∃ f,
    parse d (.start e r) (m.upTo before ++ l.line) = .ok f ∧
    f.parserState = .headerValue ∧ f.tempkey = l.name ∧
    ∀ (cut : Cut 2048 m.text) (ending : ErrorCode) (x : Exn) (buffer : Buffer),
      thrown e.httpType ending = some x →
        (receive d (cut.reads ending) buffer e r).1.response.headers.find? l.name =
          some f.tempvalue

/-- The lines for which that is so: the first space of each follows its colon,
other colons apart; the lines of one name agree, and with what the response has
under it; and a length is an `int`. -/
structure Legible (r : HttpResponse) : Prop where
  named : ∀ l ∈ m.fields, l.Named
  alike : ∀ l ∈ m.fields, ∀ k ∈ m.fields, k.name = l.name → k.read = l.read
  new : ∀ l ∈ m.fields, ∀ v, r.headers.find? l.name = some v → v = l.read
  length : ∀ l ∈ m.fields, l.name = contentLength → lexicalCastInt l.read ≠ none

/-- The headers as the parser reads them off such lines. -/
def headers : List (Bytes × Bytes) := m.fields.map fun l => (l.name, l.read)

variable {m}

theorem lookup_headers {name v : Bytes} (h : lookup name m.headers = some v) :
    ∃ l ∈ m.fields, l.name = name ∧ l.read = v := by
  obtain ⟨l₁, l₂, hsplit, -⟩ := lookup_eq_some h
  have hmem : (name, v) ∈ m.headers := hsplit ▸ List.mem_append_right _ List.mem_cons_self
  obtain ⟨l, hl, heq⟩ := List.mem_map.mp hmem
  obtain ⟨hname, hread⟩ := Prod.mk.inj heq
  exact ⟨l, hl, hname, hread⟩

theorem headers_have {l : FieldLine} (hl : l ∈ m.fields) : lookup l.name m.headers ≠ none :=
  lookup_ne_none_iff.mpr (List.mem_map_of_mem (List.mem_map_of_mem hl))

/-- Of lines that agree each has its own value in the headers. -/
theorem Legible.found {r : HttpResponse} (h : m.Legible r) {l : FieldLine} (hl : l ∈ m.fields) :
    lookup l.name m.headers = some l.read := by
  obtain ⟨v, hv⟩ := Option.ne_none_iff_exists'.mp (headers_have hl)
  obtain ⟨k, hk, hname, rfl⟩ := lookup_headers hv
  rw [hv, h.alike l hl k hk hname]

/-! ## Responses whose lines are named -/

section named

theorem description_line : lf ∉ m.description ++ [cr] := by
  rw [List.mem_append, List.mem_singleton]
  rintro (hin | heq)
  · exact m.description_ok.2 hin
  · exact absurd heq (by decide)

/-- The response's head, as the parser delimits heads. -/
def toHead (h : ∀ l ∈ m.fields, l.Named) : Head where
  version := m.version
  code := m.code
  status := m.status
  reason := m.description ++ [cr]
  lines := m.fields.map FieldLine.line
  last := [cr]
  version_ok := m.version_ok
  code_ok := by
    intro hsp
    exact absurd (m.code_ok.digits sp hsp) (by decide)
  status_ok := lexicalCastInt_numeral m.code_ok (by have := m.status_ok; unfold intMax; omega)
  reason_ok := description_line
  lines_ok := by
    intro k hk
    obtain ⟨l, hl, rfl⟩ := List.mem_map.mp hk
    exact ⟨(h l hl).fields.1, l.line_lf⟩
  last_ok := crLine_ok

variable (h : ∀ l ∈ m.fields, l.Named)

theorem lines_text : (m.fields.map FieldLine.line).flatMap (· ++ [lf]) =
    m.fields.flatMap FieldLine.text := by
  rw [List.flatMap_map]
  congr 1
  funext l
  exact l.text_eq.symm

theorem toHead_statusLine :
    (toHead h).statusLine = m.version ++ sp :: (m.code ++ sp :: (m.description ++ crlf)) := by
  simp only [Head.statusLine, toHead, crlf, List.append_assoc, List.cons_append, List.nil_append]

theorem toHead_text : (toHead h).text = m.head := by
  rw [Head.text, toHead_statusLine, Head.headerSection]
  simp only [toHead, lines_text, head, upTo, crlf, List.append_assoc, List.cons_append,
    List.nil_append]

theorem toHead_low : (toHead h).status < 300 := by
  have := m.status_ok.2
  change (m.status : Int) < 300
  omega

theorem toHead_find? (name : Bytes) : (toHead h).headers.find? name = lookup name m.headers := by
  have hfields : (toHead h).fields = m.headers := by
    simp only [Head.fields, toHead, headers, List.map_map]
    refine List.map_congr_left fun l hl => ?_
    obtain ⟨-, hname, hvalue⟩ := (h l hl).fields
    rw [Function.comp, hname, hvalue]
  rw [Head.headers, find?_insertAll, hfields, find?_empty, Option.none_or]

/-- The parser behind the field lines. -/
theorem parse_fields (d : Disconnection) (e : Engine) (r : HttpResponse) :
    parse d (.start e r) (m.upTo m.fields) = .ok ⟨(toHead h).locals, e, r⟩ := by
  have hlines := (toHead h).lines_ok
  rw [upTo, ← toHead_statusLine h, ← lines_text, parse,
    run_append_ok (parse_statusLine d e r (toHead h))]
  exact parse_lines d rfl rfl hlines

theorem publish_find? (r : HttpResponse) (size : Nat) (name : Bytes) :
    ((toHead h).publish r size).headers.find? name =
      (r.headers.find? name).or (lookup name m.headers) := by
  rw [← toHead_find? h name]
  exact find?_insertAll r.headers (toHead h).headers.entries name

/-- The response after all bytes: the head published, a part of the rest read. -/
theorem receive_named (hlength : ∀ v, lookup contentLength m.headers = some v →
      lexicalCastInt v ≠ none) {d : Disconnection} {e : Engine} {r : HttpResponse}
    (cut : Cut 2048 m.text) {ending : ErrorCode} {x : Exn} (buffer : Buffer)
    (hx : thrown e.httpType ending = some x) :
    ∃ size size' part, part <+: m.rest ∧
      (receive d (cut.reads ending) buffer e r).1.response =
        { ((toHead h).publish r size).append part with bodySize := size' } := by
  rw [receive_eq_parse d cut hx, text, ← toHead_text h]
  cases hv : (toHead h).headers.find? contentLength with
  | none =>
    rw [parse_unannounced d e r (toHead_low h) hv]
    obtain ⟨size', hsettle⟩ := settle_response x
      ⟨{ (toHead h).locals with parserState := .body }, e, ((toHead h).publish r 0).append m.rest⟩
    exact ⟨0, size', m.rest, List.prefix_rfl, hsettle⟩
  | some v =>
    have hcast := hlength v ((toHead_find? h _).symm.trans hv)
    obtain ⟨n, hn⟩ := Option.ne_none_iff_exists'.mp hcast
    rw [parse_announced d e r (toHead_low h) hv hn]
    obtain ⟨size', hsettle⟩ := settle_response x
      ⟨{ (toHead h).locals with
          parserState :=
            if completes r.body.length (sizeOfInt n) m.rest.length then .ok else .body },
        e, ((toHead h).publish r (sizeOfInt n)).append
          (bodyPart r.body.length (sizeOfInt n) m.rest)⟩
    exact ⟨sizeOfInt n, size', _, bodyPart_prefix _ _ _, hsettle⟩

include h in
/-- The head is left with its last byte, if the length is an `int`. -/
theorem head_leaves (hlength : ∀ v, lookup contentLength m.headers = some v →
      lexicalCastInt v ≠ none) (d : Disconnection) (e : Engine) (r : HttpResponse) :
    LeavesHead d e r m.head := by
  rw [← toHead_text h]
  cases hv : (toHead h).headers.find? contentLength with
  | none =>
    exact Head.leaves (endOfHeaders_unannounced d (f := ⟨(toHead h).locals, e, r⟩)
      (toHead_low h) hv)
  | some v =>
    have hcast := hlength v ((toHead_find? h _).symm.trans hv)
    obtain ⟨n, hn⟩ := Option.ne_none_iff_exists'.mp hcast
    exact Head.leaves (endOfHeaders_announced d (f := ⟨(toHead h).locals, e, r⟩)
      (toHead_low h) hv hn)

end named

/-! ## The two directions -/

section directions
variable {d : Disconnection} {e : Engine} {r : HttpResponse}

theorem Legible.length_int (h : m.Legible r) : ∀ v, lookup contentLength m.headers = some v →
    lexicalCastInt v ≠ none := by
  intro v hv
  obtain ⟨l, hl, hname, rfl⟩ := lookup_headers hv
  exact h.length l hl hname

theorem delimited_of_legible (h : m.Legible r) : m.Delimited d e r where
  boundary := by
    intro part hpart
    exact (head_leaves h.named h.length_int d e r).boundary (List.prefix_append m.head m.rest) hpart
  body := by
    intro cut ending x buffer hx
    obtain ⟨size, size', part, hpart, hresponse⟩ := receive_named h.named h.length_int (d := d)
      (r := r) cut buffer hx
    exact ⟨part, hpart, by rw [hresponse]; rfl⟩
  headers := by
    intro before l after hsplit
    have hl : l ∈ m.fields := by simp [hsplit]
    have hbefore : ∀ k ∈ before, k.Named := fun k hk => h.named k (by simp [hsplit, hk])
    obtain ⟨hsp, hname, hvalue⟩ := (h.named l hl).fields
    have hupTo := parse_fields (m := { m with fields := before }) hbefore d e r
    refine ⟨_, (run_append_ok hupTo l.line).trans (parse_openLine d rfl rfl hsp l.line_lf),
      rfl, hname, ?_⟩
    intro cut ending x buffer hx
    obtain ⟨size, size', part, -, hresponse⟩ := receive_named h.named h.length_int (d := d)
      (r := r) cut buffer hx
    have hfind := publish_find? h.named r size l.name
    rw [hresponse]
    refine hfind.trans ?_
    rw [h.found hl, hvalue]
    cases hr : r.headers.find? l.name with
    | none => rfl
    | some v => rw [Option.some_or, h.new l hl v hr]

/-- The lines are named one after the other: up to each of them the parser is
where it should be. -/
theorem Delimited.named_upTo (h : m.Delimited d e r) {before after : List FieldLine}
    (hsplit : m.fields = before ++ after) : ∀ l ∈ before, l.Named := by
  induction before using List.reverseRecOn generalizing after with
  | nil => exact fun l hl => absurd hl List.not_mem_nil
  | append_singleton before l ih =>
    rw [List.append_assoc, List.singleton_append] at hsplit
    have hbefore := ih hsplit
    obtain ⟨f, hread, hstate, hname, -⟩ := h.headers before l after hsplit
    have hupTo := parse_fields (m := { m with fields := before }) hbefore d e r
    have hline := (run_append_ok hupTo l.line).symm.trans hread
    intro k hk
    rcases List.mem_append.mp hk with hk | hk
    · exact hbefore k hk
    · rw [List.mem_singleton.mp hk]
      exact FieldLine.named_of_parse rfl rfl hline hstate hname

theorem legible_of_delimited (h : m.Delimited d e r) : m.Legible r := by
  have hnamed : ∀ l ∈ m.fields, l.Named := h.named_upTo (List.append_nil _).symm
  have hlength : ∀ v, lookup contentLength m.headers = some v → lexicalCastInt v ≠ none := by
    intro v hv hnone
    obtain ⟨f, hf, -⟩ := h.boundary m.head (List.prefix_append _ _)
    have hparse := parse_misannounced d e r (toHead_low hnamed)
      ((toHead_find? hnamed _).trans hv) hnone []
    rw [List.append_nil, toHead_text, hf] at hparse
    cases hparse
  -- what the response has in the end under the name of a line is the line's value
  have hfind : ∀ l ∈ m.fields,
      (r.headers.find? l.name).or (lookup l.name m.headers) = some l.read := by
    intro l hl
    obtain ⟨before, after, hsplit⟩ := List.append_of_mem hl
    have hbefore : ∀ k ∈ before, k.Named := fun k hk => hnamed k (by simp [hsplit, hk])
    obtain ⟨hsp, -, hvalue⟩ := (hnamed l hl).fields
    obtain ⟨f, hread, -, -, hreceived⟩ := h.headers before l after hsplit
    have hupTo := parse_fields (m := { m with fields := before }) hbefore d e r
    have hline := (run_append_ok hupTo l.line).symm.trans hread
    rw [show run _ _ _ = _ from parse_openLine d rfl rfl hsp l.line_lf] at hline
    have hx : thrown e.httpType .eof = some (.systemError .eof) := thrown_endOfStream (.inl rfl)
    have hcut : Cut 2048 m.text := .bytewise (by decide) _
    obtain ⟨size, size', part, -, hresponse⟩ := receive_named hnamed hlength (d := d) (r := r)
      hcut (fun _ => 0) hx
    have hhas := hreceived hcut .eof _ (fun _ => 0) hx
    rw [hresponse, ← Except.ok.inj hline, hvalue] at hhas
    exact (publish_find? hnamed r size l.name).symm.trans hhas
  refine ⟨hnamed, fun l hl k hk hname => ?_, fun l hl v hv => ?_, fun l hl hname => ?_⟩
  · have hboth := hfind k hk
    rw [hname, hfind l hl] at hboth
    exact (Option.some.inj hboth).symm
  · have hl := hfind l hl
    rw [hv, Option.some_or] at hl
    exact Option.some.inj hl
  · obtain ⟨v, hv⟩ := Option.ne_none_iff_exists'.mp (headers_have hl)
    obtain ⟨k, hk, hsame, rfl⟩ := lookup_headers hv
    have hread := hfind k hk
    rw [hsame, hfind l hl] at hread
    rw [Option.some.inj hread]
    exact hlength _ (hname ▸ hv)

end directions

/-- A header without a value and without a space, then one with both. -/
def emptyValue : FieldResponse where
  version := str "HTTP/1.0"
  code := str "200"
  status := 200
  description := str "OK"
  fields := [
    ⟨str "X", [], [], [], by decide, forall_of_all (by decide), forall_of_all (by decide),
      by decide, forall_of_all (by decide)⟩,
    ⟨str "A", str " ", str "b", [], by decide, forall_of_all (by decide),
      forall_of_all (by decide), by decide, forall_of_all (by decide)⟩]
  rest := []
  version_ok := http10_ok
  code_ok := code200_ok
  status_ok := by decide
  description_ok := reasonOk_ok

end FieldResponse

end Anetd
