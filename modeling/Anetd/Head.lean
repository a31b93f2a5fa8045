import Anetd.Bytes

/-!
# Response heads as text

A `Head` is the text of a response head as this library delimits it: version,
status and description, then field lines, which are the lines with a space in
them, then the first line without a space, which ends the head. In a head of
the usual form that last line is empty.
-/

namespace Anetd

/-- What the parser makes the name of a field line: the bytes before the first
space, without colons. -/
def fieldName (line : Bytes) : Bytes :=
  (line.takeWhile (· != sp)).filter fun c => c != cr && c != colon

/-- What it makes the value: the bytes after the first space. -/
def fieldValue (line : Bytes) : Bytes := (line.dropWhile (· != sp)).tail.filter (· != cr)

theorem takeWhile_ne {a : Byte} {before : Bytes} (h : a ∉ before) (after : Bytes) :
    (before ++ a :: after).takeWhile (· != a) = before := by
  have all : ∀ c ∈ before, (c != a) = true := fun c hc => bne_iff_ne.mpr fun e => h (e ▸ hc)
  rw [List.takeWhile_append_of_pos all, List.takeWhile_cons]
  simp only [bne_self_eq_false, Bool.false_eq_true, if_false, List.append_nil]

theorem dropWhile_sp {before : Bytes} (h : sp ∉ before) (after : Bytes) :
    (before ++ sp :: after).dropWhile (· != sp) = sp :: after := by
  have all : ∀ c ∈ before, (c != sp) = true := fun c hc => bne_iff_ne.mpr fun e => h (e ▸ hc)
  rw [List.dropWhile_append_of_pos all, List.dropWhile_cons_of_neg (by decide)]

theorem fieldName_append {before : Bytes} (h : sp ∉ before) (after : Bytes) :
    fieldName (before ++ sp :: after) = before.filter fun c => c != cr && c != colon := by
  rw [fieldName, takeWhile_ne h]

theorem fieldValue_append {before : Bytes} (h : sp ∉ before) (after : Bytes) :
    fieldValue (before ++ sp :: after) = after.filter (· != cr) := by
  rw [fieldValue, dropWhile_sp h, List.tail_cons]

/-- A response head, its status already a number. -/
structure Head where
  version : Bytes
  code : Bytes
  status : Int
  reason : Bytes
  lines : List Bytes
  last : Bytes
  version_ok : sp ∉ version
  code_ok : sp ∉ code
  status_ok : lexicalCastInt code = some status
  reason_ok : lf ∉ reason
  lines_ok : ∀ l ∈ lines, sp ∈ l ∧ lf ∉ l
  last_ok : sp ∉ last ∧ lf ∉ last

namespace Head

variable (h : Head)

/-- The status line. -/
def statusLine : Bytes := h.version ++ sp :: (h.code ++ sp :: (h.reason ++ [lf]))

/-- The lines after it, the last one included. -/
def headerSection : Bytes := h.lines.flatMap (· ++ [lf]) ++ (h.last ++ [lf])

def text : Bytes := h.statusLine ++ h.headerSection

def description : Bytes := h.reason.filter (· != cr)

def fields : List (Bytes × Bytes) := h.lines.map fun l => (fieldName l, fieldValue l)

/-- The headers of the head; of lines with one name the first counts. -/
def headers : StringMap := Lib.OrdMap.insertAll ∅ h.fields

end Head

/-- A status field that is complete and no `int`. -/
def BadStatus (bs : Bytes) : Prop :=
  ∃ version code rest, bs = version ++ sp :: (code ++ sp :: rest) ∧
    sp ∉ version ∧ sp ∉ code ∧ lexicalCastInt code = none

/-! ## `HTTP/1.0 200 OK` -/

theorem http10_ok : sp ∉ str "HTTP/1.0" := by decide

theorem code200_ok : Lib.Decimal.IsNumeral (str "200") 200 := Lib.Decimal.isNumeral_render 200

theorem code200_word : sp ∉ str "200" := by decide

theorem code200_status : lexicalCastInt (str "200") = some 200 := by decide

theorem code302_word : sp ∉ str "302" := by decide

theorem code302_status : lexicalCastInt (str "302") = some 302 := by decide

theorem reasonOk_ok : cr ∉ str "OK" ∧ lf ∉ str "OK" := by decide

theorem reasonOk_line : lf ∉ str "OK\r" := by decide

theorem reasonFound_line : lf ∉ str "Found\r" := by decide

theorem crLine_ok : sp ∉ [cr] ∧ lf ∉ [cr] := by decide

end Anetd
