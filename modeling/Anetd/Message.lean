import Anetd.ParseBody

/-!
# Decoding undoes encoding

A `Message` is a response a server may write: status line, headers with
distinct names, body. Its text is one of the heads the parser reads, with the
body behind it; `receive_message` follows `receive` from there to the fields
of the response object.
-/

namespace Anetd

open Lib.OrdMap

/-- A response as a server composes it. -/
structure Message where
  version : Bytes
  code : Bytes
  status : Nat
  description : Bytes
  headers : List (Bytes × Bytes)
  body : Bytes
  version_ok : sp ∉ version
  code_ok : Lib.Decimal.IsNumeral code status
  status_ok : status < 300
  description_ok : cr ∉ description ∧ lf ∉ description
  names_ok : ∀ h ∈ headers, sp ∉ h.1 ∧ colon ∉ h.1 ∧ cr ∉ h.1 ∧ lf ∉ h.1
  values_ok : ∀ h ∈ headers, cr ∉ h.2 ∧ lf ∉ h.2
  distinct : (headers.map Prod.fst).Nodup

/-- `name: value` and its line end. -/
def headerLine (h : Bytes × Bytes) : Bytes := h.1 ++ colon :: sp :: (h.2 ++ crlf)

namespace Message

variable (m : Message)

def headText : Bytes :=
  m.version ++ sp :: (m.code ++ sp :: (m.description ++ crlf)) ++
    (m.headers.flatMap headerLine ++ crlf)

def text : Bytes := m.headText ++ m.body

/-- How much of the body there is, and what comes after it: an announced
length that is delivered, whatever happens then, or the end of the stream. -/
inductive Delivery (type : HttpType) : List (Read 2048) → Bytes → Prop where
  | announced {v : Bytes} {n : Nat} (rest : List (Read 2048))
      (header : (contentLength, v) ∈ m.headers) (decimal : Lib.Decimal.IsNumeral v n)
      (small : n ≤ intMax) (delivered : n ≤ m.body.length) :
      Delivery type rest (m.body.take n)
  | toEnd {ending : ErrorCode} (rest : List (Read 2048))
      (noHeader : contentLength ∉ m.headers.map Prod.fst) (ended : endOfStream type ending) :
      Delivery type (.error ending :: rest) m.body

/-! ## The head of a message -/

theorem digit_ne_sp {c : Byte} (h : Lib.Decimal.isDigit c = true) : c ≠ sp := by
  rintro rfl
  exact absurd h (by decide)

/-- A header line without its line feed, as a line of a `Head`. -/
def line (h : Bytes × Bytes) : Bytes := (h.1 ++ [colon]) ++ sp :: (h.2 ++ [cr])

theorem filter_key {name : Bytes} (hcr : cr ∉ name) (hcolon : colon ∉ name) :
    (name ++ [colon]).filter (fun c => c != cr && c != colon) = name := by
  rw [List.filter_append, List.filter_eq_self.mpr, List.filter_cons_of_neg (by decide),
    List.filter_nil, List.append_nil]
  intro c hc
  rw [Bool.and_eq_true, bne_iff_ne, bne_iff_ne]
  exact ⟨fun h => hcr (h ▸ hc), fun h => hcolon (h ▸ hc)⟩

theorem filter_line {bs : Bytes} (hcr : cr ∉ bs) : (bs ++ [cr]).filter (· != cr) = bs := by
  rw [List.filter_append, List.filter_eq_self.mpr, List.filter_cons_of_neg (by decide),
    List.filter_nil, List.append_nil]
  intro c hc
  exact bne_iff_ne.mpr fun h => hcr (h ▸ hc)

theorem line_ok {h : Bytes × Bytes} (hname : sp ∉ h.1 ∧ colon ∉ h.1 ∧ cr ∉ h.1 ∧ lf ∉ h.1)
    (hvalue : cr ∉ h.2 ∧ lf ∉ h.2) : sp ∈ line h ∧ lf ∉ line h := by
  have hother : lf ≠ colon ∧ lf ≠ sp ∧ lf ≠ cr := by decide
  constructor
  · exact List.mem_append_right _ List.mem_cons_self
  · simp only [line, List.mem_append, List.mem_cons, List.not_mem_nil, hname, hvalue,
      hother, or_self, not_false_eq_true]

theorem field_line {h : Bytes × Bytes} (hname : sp ∉ h.1 ∧ colon ∉ h.1 ∧ cr ∉ h.1 ∧ lf ∉ h.1)
    (hvalue : cr ∉ h.2 ∧ lf ∉ h.2) : (fieldName (line h), fieldValue (line h)) = h := by
  have hbefore : sp ∉ h.1 ++ [colon] := by
    rw [List.mem_append, List.mem_singleton]
    rintro (hin | heq)
    · exact hname.1 hin
    · exact absurd heq (by decide)
  rw [line, fieldName_append hbefore, fieldValue_append hbefore,
    filter_key hname.2.2.1 hname.2.1, filter_line hvalue.1]

/-- The lines of well-formed headers carry these headers. -/
theorem fields_lines {headers : List (Bytes × Bytes)}
    (names_ok : ∀ h ∈ headers, sp ∉ h.1 ∧ colon ∉ h.1 ∧ cr ∉ h.1 ∧ lf ∉ h.1)
    (values_ok : ∀ h ∈ headers, cr ∉ h.2 ∧ lf ∉ h.2) :
    (headers.map line).map (fun l => (fieldName l, fieldValue l)) = headers := by
  rw [List.map_map]
  refine (List.map_congr_left fun h hh => ?_).trans (List.map_id _)
  exact field_line (names_ok h hh) (values_ok h hh)

theorem flatMap_lines (headers : List (Bytes × Bytes)) :
    (headers.map line).flatMap (· ++ [lf]) = headers.flatMap headerLine := by
  rw [List.flatMap_map]
  congr 1
  funext h
  simp only [line, headerLine, crlf, List.append_assoc, List.cons_append, List.nil_append]

/-- The head of a message, as the parser delimits heads. -/
def toHead : Head where
  version := m.version
  code := m.code
  status := m.status
  reason := m.description ++ [cr]
  lines := m.headers.map line
  last := [cr]
  version_ok := m.version_ok
  code_ok := fun h => digit_ne_sp (m.code_ok.digits _ h) rfl
  status_ok := lexicalCastInt_numeral m.code_ok (by have := m.status_ok; unfold intMax; omega)
  reason_ok := by
    rw [List.mem_append, List.mem_singleton]
    rintro (hin | heq)
    · exact m.description_ok.2 hin
    · exact absurd heq (by decide)
  lines_ok := by
    intro l hl
    obtain ⟨h, hh, rfl⟩ := List.mem_map.mp hl
    exact line_ok (m.names_ok h hh) (m.values_ok h hh)
  last_ok := crLine_ok

theorem toHead_text : m.toHead.text = m.headText := by
  simp only [Head.text, Head.statusLine, Head.headerSection, toHead, flatMap_lines, headText, crlf,
    List.append_assoc, List.cons_append, List.nil_append]

theorem toHead_description : m.toHead.description = m.description :=
  filter_line m.description_ok.1

theorem toHead_find? (name : Bytes) : m.toHead.headers.find? name = lookup name m.headers := by
  have hfields : m.toHead.fields = m.headers := fields_lines m.names_ok m.values_ok
  rw [Head.headers, find?_insertAll, hfields, find?_empty, Option.none_or]

/-! ## The whole response -/

/-- What a call of `receive` that decoded the message leaves behind, when it
started from the response `r`. -/
structure Decoded (content : Bytes) (r : HttpResponse) (x : Exit HttpResponse) : Prop where
  returned : x.result = .ok false
  version : x.response.version = m.version
  status : x.response.status = m.status
  description : x.response.description = m.description
  headers : ∀ h ∈ m.headers, r.headers.find? h.1 = none → x.response.getHeader h.1 = h.2
  body : x.response.body = content
  bodySize : x.response.bodySize = content.length
  progress : x.response.progress = content.length

variable {m}

theorem getHeader_publish {r : HttpResponse} {h : Bytes × Bytes} (hh : h ∈ m.headers)
    (hfresh : r.headers.find? h.1 = none) :
    ((r.headers.insertAll m.toHead.headers.entries).find? h.1).getD [] = h.2 := by
  have hsent : lookup h.1 m.toHead.headers.entries = some h.2 := by
    have hfind := m.toHead_find? h.1
    rw [find?] at hfind
    rw [hfind, lookup_eq_some_of_mem hh m.distinct]
  rw [find?_insertAll, hfresh, Option.none_or, hsent, Option.getD_some]

/-- The response that has the head published and the content read decodes the message. -/
theorem decoded (content : Bytes) {r : HttpResponse} (hbody : r.body = [])
    (hprogress : r.progress = 0) (e : Engine) :
    m.Decoded content r
      ⟨.ok false, e, (m.toHead.publish r content.length).append content⟩ where
  returned := rfl
  version := rfl
  status := rfl
  description := m.toHead_description
  headers := fun _ hh hfresh => getHeader_publish hh hfresh
  body := by
    change r.body ++ content = content
    rw [hbody, List.nil_append]
  bodySize := rfl
  progress := by
    change r.progress + content.length = content.length
    rw [hprogress, Nat.zero_add]

/-- **Decoding undoes encoding.** -/
theorem receive_message (d : Disconnection) {e : Engine} {r : HttpResponse}
    (cut : Cut 2048 m.text) {rest : List (Read 2048)} {content : Bytes}
    (delivery : m.Delivery e.httpType rest content) (hbody : r.body = [])
    (hprogress : r.progress = 0) (buffer : Buffer) :
    m.Decoded content r (receive d (cut.chunks.map .data ++ rest) buffer e r).1 := by
  have hstatus : m.toHead.status < 300 := by
    have := m.status_ok
    change (m.status : Int) < 300
    omega
  have htext : m.text = m.toHead.text ++ m.body := by rw [text, toHead_text]
  cases delivery with
  | announced rest header decimal small delivered =>
    rename_i v n
    have hv : m.toHead.headers.find? contentLength = some v := by
      rw [toHead_find?, lookup_eq_some_of_mem header m.distinct]
    obtain ⟨buffer', h⟩ := receive_data d cut rest buffer e r
    have hcompletes : completes r.body.length n m.body.length := by
      rw [hbody, List.length_nil]
      unfold completes reaches
      omega
    have hpart : bodyPart r.body.length n m.body = m.body.take n := by
      rw [bodyPart, if_pos hcompletes, hbody, List.length_nil, Nat.sub_zero]
    have hsize : (m.body.take n).length = n := List.length_take_of_le delivered
    rw [h, htext, parse_announced d e r hstatus hv (lexicalCastInt_numeral decimal small),
      sizeOfInt_natCast small, if_pos hcompletes, hpart]
    have hdecoded := decoded (m := m) (m.body.take n) hbody hprogress e
    rwa [hsize] at hdecoded
  | toEnd rest noHeader ended =>
    have hv : m.toHead.headers.find? contentLength = none := by
      rw [toHead_find?, lookup_eq_none_iff]
      exact fun h hh heq => noHeader (heq ▸ List.mem_map_of_mem hh)
    have hx := thrown_endOfStream ended
    rw [receive_eq_parse_append d cut hx rest buffer r, htext,
      parse_unannounced d e r hstatus hv]
    have hlen : (r.body ++ m.body).length = m.body.length := by
      rw [hbody, List.nil_append]
    have hdecoded := decoded (m := m) m.body hbody hprogress e
    rw [← hlen] at hdecoded
    exact hdecoded

/-- Three body bytes, two of them announced. -/
def greeting : Message where
  version := str "HTTP/1.0"
  code := str "200"
  status := 200
  description := str "OK"
  headers := [(str "Via", []), (contentLength, str "2")]
  body := str "hi!"
  version_ok := http10_ok
  code_ok := code200_ok
  status_ok := by decide
  description_ok := reasonOk_ok
  names_ok := by decide
  values_ok := by decide
  distinct := by decide

theorem receive_message_greeting :
    greeting.Decoded (str "hi") .new
      (receive ⟨none, none⟩ ((Cut.bytewise (by decide) greeting.text).chunks.map .data ++ [])
        (fun _ => 0) .new .new).1 := by
  have announced : greeting.Delivery .plainHttp [] (greeting.body.take 2) :=
    .announced (v := str "2") (n := 2) [] (by decide)
      (Lib.Decimal.isNumeral_render 2) (by decide) (by decide)
  exact receive_message ⟨none, none⟩ _ announced rfl rfl _

end Message

end Anetd
