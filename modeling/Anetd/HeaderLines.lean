import Anetd.HeadEnds
import Anetd.Message

/-!
# Heads of header lines, and the length among them

A `WrittenHead` is a status line and header lines `name: value`, names repeated
or not, as a server writes them; `length_honoured_iff` is about the value of
its Content-Length. The value goes through an `int` of 32 bits into a size of
64, so of the numbers below `2 ^ 64` only those below `2 ^ 31` are sizes, and
some that are no numbers are.
-/

namespace Anetd

open Lib.Machine Lib.OrdMap

/-- A head as a server writes it, its status a number or not. -/
structure WrittenHead where
  version : Bytes
  code : Bytes
  description : Bytes
  headers : List (Bytes × Bytes)
  version_ok : sp ∉ version
  code_ok : sp ∉ code
  description_ok : lf ∉ description
  names_ok : ∀ h ∈ headers, sp ∉ h.1 ∧ colon ∉ h.1 ∧ cr ∉ h.1 ∧ lf ∉ h.1
  values_ok : ∀ h ∈ headers, cr ∉ h.2 ∧ lf ∉ h.2

namespace WrittenHead

variable (w : WrittenHead)

def text : Bytes :=
  w.version ++ sp :: (w.code ++ sp :: (w.description ++ crlf)) ++
    (w.headers.flatMap headerLine ++ crlf)

/-- The head as the parser delimits it, once its status is a number. -/
def toHead {n : Int} (hn : lexicalCastInt w.code = some n) : Head where
  version := w.version
  code := w.code
  status := n
  reason := w.description ++ [cr]
  lines := w.headers.map Message.line
  last := [cr]
  version_ok := w.version_ok
  code_ok := w.code_ok
  status_ok := hn
  reason_ok := by
    rw [List.mem_append, List.mem_singleton]
    rintro (hin | heq)
    · exact w.description_ok hin
    · exact absurd heq (by decide)
  lines_ok := by
    intro l hl
    obtain ⟨h, hh, rfl⟩ := List.mem_map.mp hl
    exact Message.line_ok (w.names_ok h hh) (w.values_ok h hh)
  last_ok := crLine_ok

variable {w} {n : Int} (hn : lexicalCastInt w.code = some n)

theorem toHead_text : (w.toHead hn).text = w.text := by
  simp only [Head.text, Head.statusLine, Head.headerSection, toHead, Message.flatMap_lines, text,
    crlf, List.append_assoc, List.cons_append, List.nil_append]

theorem toHead_find? (name : Bytes) :
    (w.toHead hn).headers.find? name = lookup name w.headers := by
  have hfields : (w.toHead hn).fields = w.headers :=
    Message.fields_lines w.names_ok w.values_ok
  rw [Head.headers, find?_insertAll, hfields, find?_empty, Option.none_or]

theorem badStatus (hbad : lexicalCastInt w.code = none) (rest : Bytes) :
    BadStatus (w.text ++ rest) := by
  refine ⟨w.version, w.code, w.description ++ crlf ++ (w.headers.flatMap headerLine ++ crlf) ++ rest,
    ?_, w.version_ok, w.code_ok, hbad⟩
  simp only [text, List.append_assoc, List.cons_append]

end WrittenHead

/-! ## The announced length -/

/-- A call with no more than the reads of a cut to come. -/
theorem receive_cut_open (d : Disconnection) {bs : Bytes} (cut : Cut 2048 bs) (buffer : Buffer)
    (e : Engine) (r : HttpResponse) : (receive d (cut.chunks.map .data) buffer e r).1 =
      settle (finish none) (parse d (.start e r) bs) := by
  obtain ⟨buffer', h⟩ := receive_data d cut [] buffer e r
  rw [List.append_nil] at h
  exact h

/-- With the head read the size is `n` and no body is there yet, and the call
goes on for just `n` bytes, which it appends to the body. -/
structure Sized (d : Disconnection) (e : Engine) (r : HttpResponse) (w : WrittenHead) (n : Nat) :
    Prop where
  announced : ∀ (cut : Cut 2048 w.text) (buffer : Buffer),
    let x := (receive d (cut.chunks.map .data) buffer e r).1
    x.response.bodySize = n ∧ x.response.body = r.body
  completes : ∀ (rest : Bytes) (cut : Cut 2048 (w.text ++ rest)) (buffer : Buffer),
    let x := (receive d (cut.chunks.map .data) buffer e r).1
    x.result = (if n ≤ rest.length then .ok false else .error .blocked) ∧
      x.response.body = r.body ++ rest.take n

/-- Whatever follows the head, the call throws and has not come to the body. -/
def Rejects (d : Disconnection) (e : Engine) (r : HttpResponse) (w : WrittenHead) : Prop :=
  ∀ (rest : Bytes) (cut : Cut 2048 (w.text ++ rest)) (more : List (Read 2048)) (buffer : Buffer),
    (∃ y, (receive d (cut.chunks.map .data ++ more) buffer e r).1.result = .error (.threw y)) ∧
      ¬ EntersBody d e r (w.text ++ rest)

/-- A length that is a number below `2 ^ 64` is the size of the body, and every
other one is rejected. -/
structure LengthHonoured (d : Disconnection) (e : Engine) (r : HttpResponse) (w : WrittenHead)
    (v : Bytes) : Prop where
  number : ∀ n, Lib.Decimal.IsNumeral v n → n < 2 ^ 64 → Sized d e r w n
  other : (∀ n, Lib.Decimal.IsNumeral v n → ¬ n < 2 ^ 64) → Rejects d e r w

/-- The lengths for which that is so: numbers that fit an `int`, the body being
empty or the number zero, and what is neither such a number nor an `int`. -/
def Honourable (r : HttpResponse) (v : Bytes) : Prop :=
  (∃ n, Lib.Decimal.IsNumeral v n ∧ n ≤ intMax ∧ (n = 0 ∨ r.body = [])) ∨
    (∀ n, Lib.Decimal.IsNumeral v n → ¬ n < 2 ^ 64) ∧ lexicalCastInt v = none

section length
variable (d : Disconnection) (e : Engine) (r : HttpResponse) {w : WrittenHead} {s : Int}
variable (hcode : lexicalCastInt w.code = some s) (hs : s < 300)
variable {v : Bytes} (hv : lookup contentLength w.headers = some v)
include hcode hs hv

/-- A length that is an `int` is a size. -/
theorem parse_length {n : Int} (hn : lexicalCastInt v = some n) (rest : Bytes) :
    parse d (.start e r) (w.text ++ rest) = .ok { (w.toHead hcode).locals with
      parserState :=
        if completes r.body.length (sizeOfInt n) rest.length then .ok else .body
      engine := e
      response := ((w.toHead hcode).publish r (sizeOfInt n)).append
        (bodyPart r.body.length (sizeOfInt n) rest) } := by
  rw [← WrittenHead.toHead_text hcode]
  exact parse_announced d e r hs ((WrittenHead.toHead_find? hcode _).trans hv) hn rest

/-- One that is none ends the call. -/
theorem parse_badLength (hn : lexicalCastInt v = none) (rest : Bytes) :
    parse d (.start e r) (w.text ++ rest) =
      .error ⟨.error (.threw .badLexicalCast), e, (w.toHead hcode).abandon r⟩ := by
  rw [← WrittenHead.toHead_text hcode]
  exact parse_misannounced d e r hs ((WrittenHead.toHead_find? hcode _).trans hv) hn rest

theorem rejects_of_none (hn : lexicalCastInt v = none) : Rejects d e r w := by
  intro rest cut more buffer
  have hparse := parse_badLength d e r hcode hs hv hn rest
  obtain ⟨buffer', h⟩ := receive_data d cut more buffer e r
  rw [h, hparse]
  exact ⟨⟨_, rfl⟩, not_entersBody hparse⟩

/-- The two ends of a call whose length is an `int`. -/
theorem receive_length {n : Int} (hn : lexicalCastInt v = some n) {bs rest : Bytes}
    (hbs : bs = w.text ++ rest) (cut : Cut 2048 bs) (buffer : Buffer) :
    let x := (receive d (cut.chunks.map .data) buffer e r).1
    x.result = (if completes r.body.length (sizeOfInt n) rest.length then .ok false
      else .error .blocked) ∧
    x.response = ((w.toHead hcode).publish r (sizeOfInt n)).append
      (bodyPart r.body.length (sizeOfInt n) rest) := by
  rw [receive_cut_open, hbs, parse_length d e r hcode hs hv hn rest]
  by_cases hcompletes : completes r.body.length (sizeOfInt n) rest.length
  · simp only [if_pos hcompletes]
    exact ⟨rfl, rfl⟩
  · simp only [if_neg hcompletes]
    exact ⟨rfl, rfl⟩

theorem not_rejects {n : Int} (hn : lexicalCastInt v = some n) : ¬ Rejects d e r w := by
  intro hrejects
  obtain ⟨⟨y, hthrew⟩, -⟩ := hrejects [] (.bytewise (by decide) _) [] fun _ => 0
  rw [List.append_nil, (receive_length d e r hcode hs hv hn rfl _ _).1] at hthrew
  split at hthrew <;> cases hthrew

theorem sized_of_int {n : Nat} (hn : lexicalCastInt v = some (n : Int)) (hsmall : n ≤ intMax)
    (hstart : n = 0 ∨ r.body = []) : Sized d e r w n where
  announced := by
    intro cut buffer
    have hresponse := (receive_length d e r hcode hs hv hn (List.append_nil _).symm cut buffer).2
    have hprefix := bodyPart_prefix r.body.length (sizeOfInt n) []
    have hpart := List.prefix_nil.mp hprefix
    rw [hpart, HttpResponse.append_nil, sizeOfInt_natCast hsmall] at hresponse
    simp only [hresponse]
    exact ⟨rfl, rfl⟩
  completes := by
    intro rest cut buffer
    obtain ⟨hresult, hresponse⟩ := receive_length d e r hcode hs hv hn rfl cut buffer
    rw [sizeOfInt_natCast hsmall] at hresult hresponse
    have hends : completes r.body.length n rest.length ↔ n ≤ rest.length := by
      rcases hstart with rfl | hempty
      · exact iff_of_true (.inl rfl) (Nat.zero_le _)
      · rw [hempty, List.length_nil]
        unfold completes reaches
        omega
    have hpart : bodyPart r.body.length n rest = rest.take n := by
      unfold bodyPart
      split
      · rcases hstart with rfl | hempty
        · rw [Nat.zero_sub]
        · rw [hempty, List.length_nil, Nat.sub_zero]
      · rename_i hmore
        exact (List.take_of_length_le (by rw [hends] at hmore; omega)).symm
    refine ⟨?_, ?_⟩
    · simp only [hresult, hends]
    · simp only [hresponse, hpart]
      rfl

/-- A body that is not empty is full too early, or never. -/
theorem start_of_sized {n : Nat} (hn : lexicalCastInt v = some (n : Int)) (hsmall : n ≤ intMax)
    (hsized : Sized d e r w n) : n = 0 ∨ r.body = [] := by
  apply Classical.byContradiction
  intro hnot
  obtain ⟨hzero, hbody⟩ := not_or.mp hnot
  have hlen : 0 < r.body.length := List.length_pos_iff.mpr hbody
  have counts (k : Nat) : completes r.body.length n k ↔ n ≤ k := by
    have hcut : Cut 2048 (w.text ++ List.replicate k 0) := .bytewise (by decide) _
    have hsays := (hsized.completes _ hcut fun _ => 0).1
    have hdoes := (receive_length d e r hcode hs hv hn rfl hcut fun _ => 0).1
    rw [sizeOfInt_natCast hsmall, List.length_replicate] at hdoes
    rw [hdoes, List.length_replicate] at hsays
    by_cases hcompletes : completes r.body.length n k <;> by_cases hle : n ≤ k <;>
      simp [hcompletes, hle] at hsays ⊢
  have hfull := counts n
  have hshort := counts (n - 1)
  unfold completes reaches at hfull hshort
  omega

section number
variable {n : Nat} (hnumeral : Lib.Decimal.IsNumeral v n)
include hnumeral

/-- A number that fits an `int` is honoured if it can count the body. -/
theorem small_honoured (hsmall : n ≤ intMax) : LengthHonoured d e r w v ↔ Honourable r v := by
  have hn := lexicalCastInt_numeral hnumeral hsmall
  have hbound : n < 2 ^ 64 := by
    unfold intMax at hsmall
    omega
  have hsame {m : Nat} (hm : Lib.Decimal.IsNumeral v m) : m = n :=
    hm.denotes.symm.trans hnumeral.denotes
  have hother : ¬ ∀ n, Lib.Decimal.IsNumeral v n → ¬ n < 2 ^ 64 := fun h =>
    h n hnumeral hbound
  constructor
  · intro h
    have hstart := start_of_sized d e r hcode hs hv hn hsmall (h.number n hnumeral hbound)
    exact .inl ⟨n, hnumeral, hsmall, hstart⟩
  · rintro (⟨m, hm, -, hstart⟩ | ⟨hnone, -⟩)
    · refine ⟨fun k hk _ => ?_, fun h => absurd h hother⟩
      rw [hsame hk]
      exact sized_of_int d e r hcode hs hv hn hsmall (hsame hm ▸ hstart)
    · exact absurd hnone hother

/-- A larger one is not: the call throws. -/
theorem large_not_honoured (hlarge : ¬ n ≤ intMax) (hbound : n < 2 ^ 64) :
    ¬ LengthHonoured d e r w v := by
  intro h
  have hcut : Cut 2048 (w.text ++ []) := .bytewise (by decide) _
  have hsays := ((h.number n hnumeral hbound).completes [] hcut fun _ => 0).1
  obtain ⟨⟨y, hthrew⟩, -⟩ := rejects_of_none d e r hcode hs hv
    (lexicalCastInt_large hnumeral hlarge) [] hcut [] fun _ => 0
  rw [List.append_nil, hsays] at hthrew
  split at hthrew <;> cases hthrew

end number

/-- What is no such number is honoured if it is no `int` either. -/
theorem other_honoured (hother : ∀ n, Lib.Decimal.IsNumeral v n → ¬ n < 2 ^ 64) :
    LengthHonoured d e r w v ↔ lexicalCastInt v = none := by
  constructor
  · intro h
    cases hcast : lexicalCastInt v with
    | none => rfl
    | some n => exact absurd (h.other hother) (not_rejects d e r hcode hs hv hcast)
  · intro hcast
    have hrejects := rejects_of_none d e r hcode hs hv hcast
    exact ⟨fun n hn hbound => absurd hbound (hother n hn), fun _ => hrejects⟩

/-- **When the length is honoured**: when it is a number that fits an `int`, or
neither a number nor an `int`. -/
theorem length_honoured_iff : LengthHonoured d e r w v ↔ Honourable r v := by
  by_cases hnumber : ∃ n, Lib.Decimal.IsNumeral v n ∧ n < 2 ^ 64
  · obtain ⟨n, hnumeral, hbound⟩ := hnumber
    by_cases hsmall : n ≤ intMax
    · exact small_honoured d e r hcode hs hv hnumeral hsmall
    · refine iff_of_false (large_not_honoured d e r hcode hs hv hnumeral hsmall hbound) ?_
      rintro (⟨m, hm, hfits, -⟩ | ⟨hnone, -⟩)
      · rw [← hm.denotes, hnumeral.denotes] at hfits
        exact hsmall hfits
      · exact hnone n hnumeral hbound
  · have hother : ∀ n, Lib.Decimal.IsNumeral v n → ¬ n < 2 ^ 64 := fun n hn hbound =>
      hnumber ⟨n, hn, hbound⟩
    rw [other_honoured d e r hcode hs hv hother]
    constructor
    · intro hcast
      exact .inr ⟨hother, hcast⟩
    · rintro (⟨m, hm, hfits, -⟩ | ⟨-, hcast⟩)
      · refine absurd ?_ (hother m hm)
        unfold intMax at hfits
        omega
      · exact hcast

end length

theorem contentLength_ok :
    sp ∉ contentLength ∧ colon ∉ contentLength ∧ cr ∉ contentLength ∧ lf ∉ contentLength := by
  decide

/-- A 200 head with one header, a Content-Length. -/
def announcing (v : Bytes) (h : cr ∉ v ∧ lf ∉ v) : WrittenHead where
  version := str "HTTP/1.0"
  code := str "200"
  description := str "OK"
  headers := [(contentLength, v)]
  version_ok := http10_ok
  code_ok := code200_word
  description_ok := reasonOk_ok.2
  names_ok := fun _ hh => List.mem_singleton.mp hh ▸ contentLength_ok
  values_ok := fun _ hh => List.mem_singleton.mp hh ▸ h

theorem length_honoured_iff_two :
    LengthHonoured ⟨none, none⟩ .new .new (announcing (str "2") (by decide)) (str "2") ↔
      Honourable .new (str "2") :=
  length_honoured_iff ⟨none, none⟩ .new .new (s := 200) (by decide) (by decide) (by decide)

/-- A length of `2 ^ 31` makes the call throw, and one of `-1` does not. -/
theorem lengths_not_honoured :
    ¬ LengthHonoured ⟨none, none⟩ .new .new (announcing (str "2147483648") (by decide))
        (str "2147483648") ∧
      ¬ LengthHonoured ⟨none, none⟩ .new .new (announcing (str "-1") (by decide)) (str "-1") := by
  have huge : Lib.Decimal.IsNumeral (str "2147483648") (2 ^ 31) :=
    ⟨by decide, forall_of_all (by decide), by decide⟩
  have minus : lexicalCastInt (str "-1") = some (-1) := by decide
  constructor
  · exact large_not_honoured ⟨.none, .none⟩ .new .new (s := 200) (by decide) (by decide) (by decide)
      huge (by decide) (by decide)
  · intro h
    refine not_rejects ⟨.none, .none⟩ .new .new (w := announcing (str "-1") (by decide)) (s := 200)
      (by decide) (by decide) (v := str "-1") (by decide) minus (h.other fun n hn => ?_)
    exact absurd (hn.digits 45 (by decide)) (by decide)

end Anetd
