import Anetd.Head
import Anetd.Receive

/-!
# The parser on a response head

`parse_head`: over the text of a head the parser reaches the branch for the
end of the headers with the locals `Head.locals` reads off the text.
`parse_trichotomy`: every byte string starts with such a head, or has a bad
status field, or leaves the parser in the head with nothing changed.
-/

namespace Anetd

open Lib.Machine

section pieces
variable {R : Type} [ResponseClass R] (d : Disconnection)

/-! ## Token by token -/

theorem parse_version {f : Frame R} (hf : f.parserState = .version) {bs : Bytes}
    (hbs : sp ∉ bs) : parse d f bs = .ok { f with version := f.version ++ bs } := by
  refine run_collect_all (fun acc => { f with version := acc })
    (fun acc b hb => ?_) f.version
  have hne : b ≠ sp := fun h => hbs (h ▸ hb)
  simp only [step, hf, ne_eq, hne, not_false_eq_true, if_true]

theorem parse_status {f : Frame R} (hf : f.parserState = .status) {bs : Bytes}
    (hbs : sp ∉ bs) : parse d f bs = .ok { f with temp := f.temp ++ bs } := by
  refine run_collect_all (fun acc => { f with temp := acc })
    (fun acc b hb => ?_) f.temp
  have hne : b ≠ sp := fun h => hbs (h ▸ hb)
  simp only [step, hf, ne_eq, hne, not_false_eq_true, if_true]

theorem parse_description {f : Frame R} (hf : f.parserState = .description) {bs : Bytes}
    (hbs : lf ∉ bs) :
    parse d f bs = .ok { f with description := f.description ++ bs.filter (· != cr) } := by
  refine run_collect (fun acc => { f with description := acc }) (· != cr)
    (fun acc b hb => ?_) f.description
  have hne : b ≠ lf := fun h => hbs (h ▸ hb)
  by_cases hcr : b = cr <;> simp [step, hf, hne, hcr]

theorem parse_key {f : Frame R} (hf : f.parserState = .headerKey) {bs : Bytes}
    (hsp : sp ∉ bs) (hlf : lf ∉ bs) :
    parse d f bs =
      .ok { f with tempkey := f.tempkey ++ bs.filter fun c => c != cr && c != colon } := by
  refine run_collect (fun acc => { f with tempkey := acc })
    (fun c => c != cr && c != colon) (fun acc b hb => ?_) f.tempkey
  have hnsp : b ≠ sp := fun h => hsp (h ▸ hb)
  have hnlf : b ≠ lf := fun h => hlf (h ▸ hb)
  by_cases hcr : b = cr
  · simp [step, hf, hcr]
  · by_cases hcolon : b = colon
    · have hne : colon ≠ cr ∧ colon ≠ lf := by decide
      simp [step, hf, hcolon, hne]
    · simp [step, hf, hnsp, hnlf, hcr, hcolon]

theorem parse_value {f : Frame R} (hf : f.parserState = .headerValue) {bs : Bytes}
    (hlf : lf ∉ bs) :
    parse d f bs = .ok { f with tempvalue := f.tempvalue ++ bs.filter (· != cr) } := by
  refine run_collect (fun acc => { f with tempvalue := acc }) (· != cr)
    (fun acc b hb => ?_) f.tempvalue
  have hne : b ≠ lf := fun h => hlf (h ▸ hb)
  by_cases hcr : b = cr <;> simp [step, hf, hne, hcr]

/-! ## Fields and lines -/

theorem step_version_sp {f : Frame R} (hf : f.parserState = .version) :
    step d f sp = .ok { f with parserState := .status, temp := [] } := by
  simp only [step, hf, ne_eq, not_true_eq_false, if_false]

theorem step_status_sp {f : Frame R} (hf : f.parserState = .status) {n : Int}
    (hn : lexicalCastInt f.temp = some n) :
    step d f sp = .ok { f with status := n, parserState := .description } := by
  simp only [step, hf, ne_eq, not_true_eq_false, if_false, hn]

theorem step_status_bad {f : Frame R} (hf : f.parserState = .status)
    (hn : lexicalCastInt f.temp = none) :
    step d f sp = .error ⟨.error (.threw .badLexicalCast), f.engine, f.response⟩ := by
  simp only [step, hf, ne_eq, not_true_eq_false, if_false, hn]

theorem step_description_lf {f : Frame R} (hf : f.parserState = .description) :
    step d f lf = .ok { f with parserState := .headerKey } := by
  have hne : lf ≠ cr := by decide
  simp only [step, hf, hne, if_false, ne_eq, not_true_eq_false]

theorem step_key_lf {f : Frame R} (hf : f.parserState = .headerKey) :
    step d f lf = endOfHeaders d f := by
  have hne : lf ≠ cr := by decide
  simp only [step, hf, hne, if_false, if_true]

theorem step_key_sp {f : Frame R} (hf : f.parserState = .headerKey) :
    step d f sp = .ok { f with tempvalue := [], parserState := .headerValue } := by
  have hne : sp ≠ cr ∧ sp ≠ lf ∧ sp ≠ colon := by decide
  simp only [step, hf, hne, if_false, ne_eq, not_true_eq_false]

theorem step_value_lf {f : Frame R} (hf : f.parserState = .headerValue) :
    step d f lf = .ok { f with
      tempheaders := f.tempheaders.insert f.tempkey f.tempvalue
      tempkey := []
      parserState := .headerKey } := by
  have hne : lf ≠ cr := by decide
  simp only [step, hf, hne, if_false, ne_eq, not_true_eq_false]

/-- Up to its line feed a line with a space in it is a name and a value. -/
theorem parse_openLine {f : Frame R} (hf : f.parserState = .headerKey) (hk : f.tempkey = [])
    {line : Bytes} (hsp : sp ∈ line) (hlf : lf ∉ line) :
    parse d f line = .ok { f with
      parserState := .headerValue
      tempkey := fieldName line
      tempvalue := fieldValue line } := by
  obtain ⟨before, after, rfl, hbefore⟩ := List.eq_append_cons_of_mem hsp
  have hlf₁ : lf ∉ before := fun h => hlf (List.mem_append_left _ h)
  have hlf₂ : lf ∉ after := fun h => hlf (List.mem_append_right _ (List.mem_cons_of_mem _ h))
  rw [parse, run_append_ok (parse_key d hf hbefore hlf₁),
    run_cons_ok (step_key_sp d (by exact hf))]
  refine (parse_value d rfl hlf₂).trans ?_
  rw [fieldName_append hbefore, fieldValue_append hbefore]
  simp only [hk, List.nil_append]

/-- A line with a space in it becomes one header. -/
theorem parse_line {f : Frame R} (hf : f.parserState = .headerKey) (hk : f.tempkey = [])
    {line : Bytes} (hsp : sp ∈ line) (hlf : lf ∉ line) :
    parse d f (line ++ [lf]) = .ok { f with
      tempheaders := f.tempheaders.insert (fieldName line) (fieldValue line)
      tempvalue := fieldValue line } := by
  rw [parse, run_append_ok (parse_openLine d hf hk hsp hlf), run_singleton, step_value_lf d rfl]
  simp only [hk, hf]

theorem parse_lines {f : Frame R} (hf : f.parserState = .headerKey) (hk : f.tempkey = [])
    {lines : List Bytes} (h : ∀ l ∈ lines, sp ∈ l ∧ lf ∉ l) :
    parse d f (lines.flatMap (· ++ [lf])) = .ok { f with
      tempheaders := f.tempheaders.insertAll (lines.map fun l => (fieldName l, fieldValue l))
      tempvalue := lines.foldl (fun _ l => fieldValue l) f.tempvalue } := by
  induction lines generalizing f with
  | nil => rfl
  | cons l ls ih =>
    obtain ⟨hsp, hlf⟩ := h l List.mem_cons_self
    have rest := fun g (hg : g.parserState = .headerKey) (hgk : g.tempkey = []) =>
      ih (f := g) hg hgk fun k hkm => h k (List.mem_cons_of_mem _ hkm)
    rw [List.flatMap_cons, parse, run_append_ok (parse_line d hf hk hsp hlf)]
    exact rest _ hf hk

/-- The line without a space ends the headers. -/
theorem parse_last {f : Frame R} (hf : f.parserState = .headerKey) {last : Bytes}
    (hsp : sp ∉ last) (hlf : lf ∉ last) :
    parse d f (last ++ [lf]) = endOfHeaders d
      { f with tempkey := f.tempkey ++ last.filter fun c => c != cr && c != colon } := by
  rw [parse, run_append_ok (parse_key d hf hsp hlf), run_singleton]
  exact step_key_lf d hf

/-- The states before the end of the headers. -/
def ParserState.inHead : ParserState → Bool
  | .body | .ok => false
  | _ => true

theorem endOfHeaders_outOfHead (f : Frame R) :
    Both (fun _ => True) (fun g => g.parserState.inHead = false) (endOfHeaders d f) := by
  refine (endOfHeaders_leaves d f).imp (fun _ _ => trivial) ?_
  rintro g ⟨-, hstate | hstate⟩
  · rw [hstate]; rfl
  · rw [hstate]; rfl

end pieces

/-! ## Whole heads -/

/-- The locals of `receive` at the line feed that ends a head. -/
def Head.locals (h : Head) : Locals where
  parserState := .headerKey
  version := h.version
  status := h.status
  description := h.description
  tempheaders := h.headers
  temp := h.code
  tempkey := h.last.filter fun c => c != cr && c != colon
  tempvalue := h.lines.foldl (fun _ l => fieldValue l) []

section whole
variable {R : Type} [ResponseClass R] (d : Disconnection) (e : Engine) (r : R)

/-- The status line takes the parser to the first field line. -/
theorem parse_statusLine (h : Head) :
    parse d (.start e r) h.statusLine = .ok { Frame.start e r with
      parserState := .headerKey
      version := h.version
      status := h.status
      description := h.description
      temp := h.code } := by
  have hcode := h.status_ok
  rw [Head.statusLine, parse, run_append_ok (parse_version d rfl h.version_ok),
    run_cons_ok (step_version_sp d rfl), run_append_ok (parse_status d rfl h.code_ok),
    run_cons_ok (step_status_sp d rfl hcode), run_append_ok (parse_description d rfl h.reason_ok),
    run_singleton, step_description_lf d rfl]
  rfl

/-- **The parser reads a head as its text says**, up to the branch that ends
the headers. -/
theorem parse_head (h : Head) :
    parse d (.start e r) h.text = endOfHeaders d ⟨h.locals, e, r⟩ := by
  rw [Head.text, Head.headerSection, parse, run_append_ok (parse_statusLine d e r h),
    run_append_ok (parse_lines d rfl rfl h.lines_ok)]
  exact parse_last d rfl h.last_ok.1 h.last_ok.2

/-- The parser is still in the head, and has touched neither engine nor response. -/
def Waiting (f : Frame R) : Prop :=
  f.parserState.inHead = true ∧ f.engine = e ∧ f.response = r

/-- A header section without its last line leaves the parser in the head;
otherwise it is lines and a last line. -/
theorem headerSection_cases {f : Frame R} (hf : f.parserState = .headerKey) (hk : f.tempkey = [])
    (hw : Waiting e r f) (bs : Bytes) :
    (∃ (lines : List Bytes) (last rest : Bytes),
      bs = lines.flatMap (· ++ [lf]) ++ (last ++ [lf]) ++ rest ∧
      (∀ l ∈ lines, sp ∈ l ∧ lf ∉ l) ∧ sp ∉ last ∧ lf ∉ last) ∨
    ∃ g, parse d f bs = .ok g ∧ Waiting e r g := by
  generalize hn : bs.length = n
  induction n using Nat.strongRecOn generalizing bs f with
  | ind n ih =>
    by_cases hlf : lf ∈ bs
    · obtain ⟨line, after, rfl, hline⟩ := List.eq_append_cons_of_mem hlf
      by_cases hsp : sp ∈ line
      · have hread := parse_line d hf hk hsp hline
        have hlen : after.length < n := by
          rw [← hn, List.length_append, List.length_cons]; omega
        rcases ih _ hlen (f := { f with
            tempheaders := f.tempheaders.insert (fieldName line) (fieldValue line)
            tempvalue := fieldValue line }) hf hk hw after rfl with
          ⟨lines, last, rest, rfl, hlines, hlast⟩ | ⟨g, hg, hgw⟩
        · refine .inl ⟨line :: lines, last, rest, ?_, ?_, hlast⟩
          · simp only [List.flatMap_cons, List.append_assoc, List.cons_append, List.nil_append]
          · intro l hl
            rcases List.mem_cons.mp hl with rfl | hl
            · exact ⟨hsp, hline⟩
            · exact hlines l hl
        · refine .inr ⟨g, ?_, hgw⟩
          rw [← hg, ← List.singleton_append, ← List.append_assoc, parse, run_append_ok hread]
      · refine .inl ⟨[], line, after, ?_, fun l hl => absurd hl List.not_mem_nil, hsp, hline⟩
        simp only [List.flatMap_nil, List.nil_append, List.append_assoc, List.singleton_append]
    · -- no line feed: the bytes are a name, or a name and a value, cut short
      right
      by_cases hsp : sp ∈ bs
      · obtain ⟨before, after, rfl, hbefore⟩ := List.eq_append_cons_of_mem hsp
        have hlf₁ : lf ∉ before := fun h => hlf (List.mem_append_left _ h)
        have hlf₂ : lf ∉ after := fun h => hlf (List.mem_append_right _ (List.mem_cons_of_mem _ h))
        rw [parse, run_append_ok (parse_key d hf hbefore hlf₁),
          run_cons_ok (step_key_sp d (by exact hf))]
        exact ⟨_, parse_value d rfl hlf₂, rfl, hw.2⟩
      · exact ⟨_, parse_key d hf hsp hlf, hw⟩

theorem parse_badStatus {bs : Bytes} (h : BadStatus bs) :
    parse d (.start e r) bs = .error ⟨.error (.threw .badLexicalCast), e, r⟩ := by
  obtain ⟨version, code, rest, rfl, hversion, hcode, hcast⟩ := h
  rw [parse, run_append_ok (parse_version d rfl hversion), run_cons_ok (step_version_sp d rfl),
    run_append_ok (parse_status d rfl hcode)]
  exact run_cons_error (step_status_bad d rfl hcast) rest

/-- **What a byte string can be to the parser**: it starts with a head, or its
status field is no number, or the parser still waits in the head. -/
theorem parse_trichotomy (bs : Bytes) :
    (∃ h : Head, ∃ rest, bs = h.text ++ rest) ∨ BadStatus bs ∨
    ∃ f, parse d (.start e r) bs = .ok f ∧ Waiting e r f := by
  by_cases hsp₁ : sp ∈ bs
  · obtain ⟨version, bs, rfl, hversion⟩ := List.eq_append_cons_of_mem hsp₁
    rw [parse, run_append_ok (parse_version d rfl hversion), run_cons_ok (step_version_sp d rfl)]
    by_cases hsp₂ : sp ∈ bs
    · obtain ⟨code, bs, rfl, hcode⟩ := List.eq_append_cons_of_mem hsp₂
      rw [run_append_ok (parse_status d rfl hcode)]
      cases hcast : lexicalCastInt code with
      | none => exact .inr (.inl ⟨version, code, bs, rfl, hversion, hcode, hcast⟩)
      | some n =>
        rw [run_cons_ok (step_status_sp d rfl hcast)]
        by_cases hlf : lf ∈ bs
        · obtain ⟨reason, bs, rfl, hreason⟩ := List.eq_append_cons_of_mem hlf
          rw [run_append_ok (parse_description d rfl hreason),
            run_cons_ok (step_description_lf d rfl)]
          rcases headerSection_cases d e r (f := { Frame.start e r with
              parserState := .headerKey
              version := version
              status := n
              description := reason.filter (· != cr)
              temp := code }) rfl rfl ⟨rfl, rfl, rfl⟩ bs with
            ⟨lines, last, rest, rfl, hlines, hlast⟩ | hwaits
          · refine .inl ⟨⟨version, code, n, reason, lines, last, hversion, hcode, hcast, hreason,
              hlines, hlast⟩, rest, ?_⟩
            simp only [Head.text, Head.statusLine, Head.headerSection, List.append_assoc,
              List.cons_append, List.nil_append]
          · exact .inr (.inr hwaits)
        · exact .inr (.inr ⟨_, parse_description d rfl hlf, rfl, rfl, rfl⟩)
    · exact .inr (.inr ⟨_, parse_status d rfl hsp₂, rfl, rfl, rfl⟩)
  · exact .inr (.inr ⟨_, parse_version d rfl hsp₁, rfl, rfl, rfl⟩)

end whole

end Anetd
