import Anetd.HeadPieces
import Anetd.Lib.Split

/-!
# A decoder by lines

`receive` reads byte by byte, with nine locals that outlive its reads. `decode`
takes a stream apart at its spaces and line feeds instead, all at once, and
`Stream.exit` says what becomes of it. They are the same function of the stream,
whatever it is and however it arrives (`receive_decodes`).
-/

namespace Anetd

open Lib.Split Lib.Machine

/-! ## The decoder -/

/-- The lines with a space, the first one without, and what is behind it. -/
def fieldLines : Nat → Bytes → Option (List Bytes × Bytes × Bytes)
  | 0, _ => none
  | n + 1, bs =>
    match cut lf bs with
    | none => none
    | some (line, behind) =>
      if sp ∈ line then (fieldLines n behind).map fun s => (line :: s.1, s.2)
      else some ([], line, behind)

theorem fieldLines_eq_some {n : Nat} {bs last rest : Bytes} {lines : List Bytes}
    (h : fieldLines n bs = some (lines, last, rest)) :
    bs = lines.flatMap (· ++ [lf]) ++ (last ++ [lf]) ++ rest ∧
      (∀ l ∈ lines, sp ∈ l ∧ lf ∉ l) ∧ sp ∉ last ∧ lf ∉ last := by
  induction n generalizing bs lines with
  | zero => cases h
  | succ n ih =>
    rw [fieldLines] at h
    split at h
    · cases h
    · rename_i line behind hcut
      obtain ⟨rfl, hline⟩ := cut_eq_some hcut
      split at h
      · rename_i hsp
        obtain ⟨⟨lines', last', rest'⟩, hlines, heq⟩ := Option.map_eq_some_iff.mp h
        cases heq
        obtain ⟨rfl, hall, hlast⟩ := ih hlines
        refine ⟨by simp, List.forall_mem_cons.mpr ⟨⟨hsp, hline⟩, hall⟩, hlast⟩
      · rename_i hsp
        cases h
        exact ⟨by simp, fun _ h => absurd h List.not_mem_nil, hsp, hline⟩

theorem fieldLines_text {lines : List Bytes} {last : Bytes}
    (hlines : ∀ l ∈ lines, sp ∈ l ∧ lf ∉ l) (hlast : sp ∉ last ∧ lf ∉ last) (rest : Bytes) {n : Nat}
    (hn : lines.length < n) :
    fieldLines n (lines.flatMap (· ++ [lf]) ++ (last ++ [lf]) ++ rest) =
      some (lines, last, rest) := by
  induction lines generalizing n with
  | nil =>
    obtain ⟨n, rfl⟩ : ∃ m, n = m + 1 := ⟨n - 1, (Nat.succ_pred_eq_of_pos hn).symm⟩
    simp only [List.flatMap_nil, List.nil_append, List.append_assoc, List.singleton_append,
      fieldLines, cut_append hlast.2, if_neg hlast.1]
  | cons line lines ih =>
    obtain ⟨⟨hsp, hlf⟩, hlines⟩ := List.forall_mem_cons.mp hlines
    obtain ⟨n, rfl⟩ : ∃ m, n = m + 1 := ⟨n - 1, (Nat.succ_pred_eq_of_pos (by omega)).symm⟩
    have hrest := ih hlines (Nat.lt_of_succ_lt_succ hn)
    simp only [List.append_assoc, List.singleton_append] at hrest
    simp only [List.flatMap_cons, List.append_assoc, List.cons_append, List.nil_append,
      fieldLines, cut_append hlf, if_pos hsp, hrest, Option.map_some]

/-- What a stream is: a head that is not over, a status that is no `int`, or a
head and what is behind it. -/
inductive Stream where
  | unfinished
  | badStatus
  | headed (h : Head) (rest : Bytes)

/-- The stream taken apart: two words, a line, and the header section. -/
def decode (bs : Bytes) : Stream :=
  match hversion : cut sp bs with
  | none => .unfinished
  | some (version, behind) =>
    match hcode : cut sp behind with
    | none => .unfinished
    | some (code, behind) =>
      match hstatus : lexicalCastInt code with
      | none => .badStatus
      | some status =>
        match hreason : cut lf behind with
        | none => .unfinished
        | some (reason, behind) =>
          match hlines : fieldLines (behind.length + 1) behind with
          | none => .unfinished
          | some (lines, last, rest) =>
            .headed {
              version := version
              code := code
              status := status
              reason := reason
              lines := lines
              last := last
              version_ok := (cut_eq_some hversion).2
              code_ok := (cut_eq_some hcode).2
              status_ok := hstatus
              reason_ok := (cut_eq_some hreason).2
              lines_ok := (fieldLines_eq_some hlines).2.1
              last_ok := (fieldLines_eq_some hlines).2.2 } rest

/-- There are no more lines than bytes. -/
theorem length_flatMap_lines (lines : List Bytes) :
    lines.length ≤ (lines.flatMap (· ++ [lf])).length := by
  induction lines with
  | nil => exact Nat.le_refl _
  | cons line lines ih =>
    simp only [List.flatMap_cons, List.length_append, List.length_cons, List.length_nil]
    omega

theorem decode_text (h : Head) (rest : Bytes) : decode (h.text ++ rest) = .headed h rest := by
  have htext : h.text ++ rest = h.version ++ sp :: (h.code ++ sp :: (h.reason ++ lf ::
      (h.headerSection ++ rest))) := by
    simp [Head.text, Head.statusLine]
  have hversion := cut_append h.version_ok (h.code ++ sp :: (h.reason ++ lf ::
      (h.headerSection ++ rest)))
  have hcode := cut_append h.code_ok (h.reason ++ lf :: (h.headerSection ++ rest))
  have hreason := cut_append h.reason_ok (h.headerSection ++ rest)
  have hfuel : h.lines.length < (h.headerSection ++ rest).length + 1 := by
    have hle := length_flatMap_lines h.lines
    simp only [Head.headerSection, List.length_append]
    omega
  have hlines := fieldLines_text h.lines_ok h.last_ok rest hfuel
  rw [htext]
  unfold decode
  split
  · rename_i hnone
    cases hnone.symm.trans hversion
  · rename_i version behind hsome
    cases hsome.symm.trans hversion
    split
    · rename_i hnone
      cases hnone.symm.trans hcode
    · rename_i code behind hsome
      cases hsome.symm.trans hcode
      split
      · rename_i hnone
        cases hnone.symm.trans h.status_ok
      · rename_i status hsome
        cases hsome.symm.trans h.status_ok
        split
        · rename_i hnone
          cases hnone.symm.trans hreason
        · rename_i reason behind hsome
          cases hsome.symm.trans hreason
          split
          · rename_i hnone
            cases hnone.symm.trans hlines
          · rename_i lines last rest' hsome
            cases hsome.symm.trans hlines
            rfl

theorem decode_bad {bs : Bytes} (h : BadStatus bs) : decode bs = .badStatus := by
  obtain ⟨version, code, rest, rfl, hversion, hcode, hbad⟩ := h
  have hfirst := cut_append hversion (code ++ sp :: rest)
  have hsecond := cut_append hcode rest
  unfold decode
  split
  · rename_i hnone
    cases hnone.symm.trans hfirst
  · rename_i version' behind hsome
    cases hsome.symm.trans hfirst
    split
    · rename_i hnone
      cases hnone.symm.trans hsecond
    · rename_i code' behind hsome
      cases hsome.symm.trans hsecond
      split
      · rfl
      · rename_i status hsome
        cases hbad.symm.trans hsome

/-- What a stream says of the bytes that it is made of, if the head is over. -/
def Stream.Of (bs : Bytes) : Stream → Prop
  | .unfinished => True
  | .badStatus => BadStatus bs
  | .headed h rest => bs = h.text ++ rest

theorem decode_of (bs : Bytes) : (decode bs).Of bs := by
  unfold decode
  split
  · trivial
  · rename_i version behind hversion
    obtain ⟨rfl, hword⟩ := cut_eq_some hversion
    split
    · trivial
    · rename_i code behind hcode
      obtain ⟨rfl, hnumber⟩ := cut_eq_some hcode
      split
      · rename_i hbad
        exact ⟨version, code, behind, rfl, hword, hnumber, hbad⟩
      · rename_i status hstatus
        split
        · trivial
        · rename_i reason behind hreason
          obtain ⟨rfl, -⟩ := cut_eq_some hreason
          split
          · trivial
          · rename_i lines last rest hlines
            obtain ⟨rfl, -⟩ := fieldLines_eq_some hlines
            simp [Stream.Of, Head.text, Head.statusLine, Head.headerSection]

theorem decode_within {l : Locals} {bs : Bytes} (h : Within .start l bs) :
    decode bs = .unfinished := by
  have hof := decode_of bs
  cases hdecode : decode bs with
  | unfinished => rfl
  | badStatus =>
    rw [hdecode] at hof
    exact absurd hof h.not_badStatus
  | headed head rest =>
    rw [hdecode] at hof
    exact absurd hof (h.not_head head rest)

/-! ## What becomes of a stream -/

/-- The end of a stream before the response is complete. -/
def lost (ending : Option Exn) (e : Engine) (r : HttpResponse) : Exit HttpResponse :=
  match ending with
  | none => ⟨.error .blocked, e, r⟩
  | some x =>
    if x = .systemError .eof then ⟨.ok false, e, r.setBodySize r.body.length⟩
    else ⟨.error (.threw x), e, r⟩

/-- What a stream makes of a response: it is refused, sent on, thrown at, or takes
the body up to the announced length. -/
def Stream.exit (d : Disconnection) (ending : Option Exn) (e : Engine) (r : HttpResponse) :
    Stream → Exit HttpResponse
  | .unfinished => lost ending e r
  | .badStatus => ⟨.error (.threw .badLexicalCast), e, r⟩
  | .headed h rest =>
    if 400 ≤ h.status then ⟨.ok false, e, (r.setStatus h.status).setDescription h.description⟩
    else if 300 ≤ h.status then redirect d ⟨h.locals, e, r⟩
    else
      match (h.headers.find? contentLength).map lexicalCastInt with
      | none => lost ending e ((h.publish r 0).append rest)
      | some none => ⟨.error (.threw .badLexicalCast), e, h.abandon r⟩
      | some (some n) =>
        let s := (h.publish r (sizeOfInt n)).append (bodyPart r.body.length (sizeOfInt n) rest)
        if completes r.body.length (sizeOfInt n) rest.length then ⟨.ok false, e, s⟩
        else lost ending e s

section exit
variable {d : Disconnection} {ending : Option Exn} {e : Engine} {r : HttpResponse}

theorem finish_lost (l : Locals) : finish ending ⟨l, e, r⟩ = lost ending e r := by
  cases ending <;> rfl

/-- A head and what is behind it. -/
theorem settle_headed (h : Head) (rest : Bytes) :
    settle (finish ending) (parse d (.start e r) (h.text ++ rest)) =
      (Stream.headed h rest).exit d ending e r := by
  rw [Stream.exit]
  by_cases hs : h.status < 300
  · rw [if_neg (by omega), if_neg (by omega)]
    cases hv : h.headers.find? contentLength with
    | none =>
      rw [parse_unannounced d e r hs hv]
      exact finish_lost _
    | some v =>
      rw [Option.map_some]
      cases hn : lexicalCastInt v with
      | none =>
        rw [parse_misannounced d e r hs hv hn]
        rfl
      | some n =>
        rw [parse_announced d e r hs hv hn]
        by_cases hdone : completes r.body.length (sizeOfInt n) rest.length
        · simp only [if_pos hdone]
          rfl
        · simp only [if_neg hdone]
          exact finish_lost _
  · rw [parse_final d e r hs]
    by_cases hhigh : h.status < 400
    · rw [if_pos hhigh, if_neg (Int.not_le.mpr hhigh), if_pos (Int.not_lt.mp hs)]
      rfl
    · rw [if_neg hhigh, if_pos (Int.not_lt.mp hhigh)]
      rfl

end exit

/-- **The parser is the decoder.** For every sequence of reads over either transport,
a call of `receive` ends as the bytes that came say, taken apart all at once. -/
theorem receive_decodes (d : Disconnection) (os : List (Read 2048)) (buffer : Buffer) (e : Engine)
    (r : HttpResponse) :
    (receive d os buffer e r).1 =
      (decode (pieces e.httpType os (buffer 0)).1.flatten).exit d
        (pieces e.httpType os (buffer 0)).2 e r := by
  rw [receive_pieces]
  rcases stream_cases (pieces e.httpType os (buffer 0)).1.flatten with
    ⟨h, rest, heq⟩ | hbad | ⟨l, hwithin⟩
  · rw [heq, decode_text]
    exact settle_headed h rest
  · rw [decode_bad hbad, parse_badStatus d e r hbad]
    rfl
  · rw [decode_within hwithin, Frame.start_eq, hwithin.passes]
    have hgoing : (⟨l, e, r⟩ : Frame HttpResponse).done = false := by
      simp [Frame.done, hwithin.not_ok]
    simp only [settle, hgoing, Bool.false_eq_true, if_false]
    exact finish_lost l

end Anetd
