import Anetd.ParseBody
import Anetd.Pieces

/-!
# A head that arrives in pieces

In the head the parser touches neither engine nor response, so what the pieces
before its end leave behind are the locals, the same for every class of
response (`Within`), and the flushes (`turns_within`). The piece that brings
the end of the head is then read as the whole head with its share of the body
(`head_pieces`).
-/

namespace Anetd

open Lib.Machine

/-- The bytes take the parser from some locals to others within the head,
whatever the engine and the response are. -/
structure Within (l m : Locals) (bs : Bytes) : Prop where
  inHead : m.parserState.inHead = true
  passes : ∀ {R : Type} [ResponseClass R] (d : Disconnection) (e : Engine) (r : R),
    parse d ⟨l, e, r⟩ bs = .ok ⟨m, e, r⟩

section within
variable {R : Type} [ResponseClass R] (d : Disconnection) {f g : Frame R}

/-- A byte behind which the parser is in the head was read in the head. -/
theorem step_within {c : Byte} (h : step d f c = .ok g) (hg : g.parserState.inHead = true) :
    f.parserState.inHead = true ∧ g.engine = f.engine ∧ g.response = f.response ∧
      Within f.toLocals g.toLocals [c] := by
  -- the step reads nothing but the locals: any other frame with them makes the same step
  have reads {m : Locals} (hm : m.parserState.inHead = true) (hstep : ∀ {Q : Type}
      [ResponseClass Q] (d : Disconnection) (e : Engine) (r : Q),
      step d ⟨f.toLocals, e, r⟩ c = .ok ⟨m, e, r⟩) : Within f.toLocals m [c] :=
    ⟨hm, fun d e r => (run_singleton _ _ _).trans (hstep d e r)⟩
  obtain ⟨⟨state, version, status, description, tempheaders, temp, tempkey, tempvalue⟩, e, r⟩ := f
  cases state with
  | version =>
    simp only [step] at h
    split at h <;> cases h
    · rename_i hc
      exact ⟨rfl, rfl, rfl, reads rfl fun d e r => by simp [step, hc]⟩
    · rename_i hc
      exact ⟨rfl, rfl, rfl, reads rfl fun d e r => by simp [step, hc]⟩
  | status =>
    simp only [step] at h
    split at h
    · rename_i hc
      cases h
      exact ⟨rfl, rfl, rfl, reads rfl fun d e r => by simp [step, hc]⟩
    · rename_i hc
      split at h <;> cases h
      rename_i n hn
      exact ⟨rfl, rfl, rfl, reads rfl fun d e r => by simp [step, hc, hn]⟩
  | description | headerValue =>
    simp only [step] at h
    split at h
    · rename_i hc
      cases h
      exact ⟨rfl, rfl, rfl, reads rfl fun d e r => by simp [step, hc]⟩
    · rename_i hcr
      split at h <;> cases h
      · rename_i hc
        exact ⟨rfl, rfl, rfl, reads rfl fun d e r => by simp [step, hcr, hc]⟩
      · rename_i hc
        exact ⟨rfl, rfl, rfl, reads rfl fun d e r => by simp [step, hcr, hc]⟩
  | headerKey =>
    simp only [step] at h
    split at h
    · rename_i hc
      cases h
      exact ⟨rfl, rfl, rfl, reads rfl fun d e r => by simp [step, hc]⟩
    · rename_i hcr
      split at h
      · have hout := endOfHeaders_outOfHead d
          (⟨⟨.headerKey, version, status, description, tempheaders, temp, tempkey, tempvalue⟩,
            e, r⟩ : Frame R)
        rw [h] at hout
        rw [show g.parserState.inHead = false from hout] at hg
        cases hg
      · rename_i hlf
        split at h
        · rename_i hc
          cases h
          have hne : colon ≠ cr ∧ colon ≠ lf := by decide
          exact ⟨rfl, rfl, rfl, reads rfl fun d e r => by simp [step, hc, hne]⟩
        · rename_i hcolon
          split at h <;> cases h
          · rename_i hc
            exact ⟨rfl, rfl, rfl, reads rfl fun d e r => by simp [step, hcr, hlf, hcolon, hc]⟩
          · rename_i hc
            exact ⟨rfl, rfl, rfl, reads rfl fun d e r => by simp [step, hcr, hlf, hcolon, hc]⟩
  | body =>
    simp only [step] at h
    cases h
    simp only at hg
    split at hg <;> cases hg
  | ok =>
    cases h
    cases hg

/-- Bytes behind which the parser is in the head were read in the head. -/
theorem parse_within {bs : Bytes} (h : parse d f bs = .ok g) (hg : g.parserState.inHead = true) :
    f.parserState.inHead = true ∧ g.engine = f.engine ∧ g.response = f.response ∧
      Within f.toLocals g.toLocals bs := by
  induction bs generalizing f with
  | nil =>
    cases h
    exact ⟨hg, rfl, rfl, hg, fun _ _ _ => rfl⟩
  | cons c bs ih =>
    cases hstep : step d f c with
    | error x =>
      rw [parse, run_cons_error hstep] at h
      cases h
    | ok m =>
      rw [parse, run_cons_ok hstep] at h
      obtain ⟨hm, hengine, hresponse, hrest⟩ := ih h
      obtain ⟨hf, hengine', hresponse', hfirst⟩ := step_within d hstep hm
      refine ⟨hf, hengine.trans hengine', hresponse.trans hresponse', hg, fun d e r => ?_⟩
      have hone := hfirst.passes d e r
      rw [parse, run_singleton] at hone
      rw [parse, run_cons_ok hone]
      exact hrest.passes d e r

theorem Within.split {l n : Locals} {as bs : Bytes} (h : Within l n (as ++ bs)) :
    ∃ m, Within l m as ∧ Within m n bs := by
  have hall := h.passes ⟨none, none⟩ .new HttpResponse.new
  cases hfirst : parse ⟨none, none⟩ ⟨l, .new, HttpResponse.new⟩ as with
  | error x =>
    rw [parse, run_append_error hfirst] at hall
    cases hall
  | ok g =>
    rw [parse, run_append_ok hfirst] at hall
    obtain ⟨hg, -, -, hsecond⟩ := parse_within ⟨none, none⟩ hall h.inHead
    obtain ⟨-, -, -, hfirst⟩ := parse_within ⟨none, none⟩ hfirst hg
    exact ⟨g.toLocals, hfirst, hsecond⟩

end within

theorem Within.not_ok {l m : Locals} {bs : Bytes} (h : Within l m bs) : m.parserState ≠ .ok := by
  intro hok
  have hin := h.inHead
  rw [hok] at hin
  cases hin

/-- The locals at the entry of `receive`. -/
def Locals.start : Locals := (Frame.start .new HttpResponse.new).toLocals

theorem Frame.start_eq {R : Type} [ResponseClass R] (e : Engine) (r : R) :
    Frame.start e r = ⟨.start, e, r⟩ := rfl

/-- A head is read within the head up to its last byte. -/
theorem Head.within (h : Head) :
    ∃ bs, h.text = bs ++ [lf] ∧ Within .start h.locals bs := by
  refine ⟨h.statusLine ++ (h.lines.flatMap (· ++ [lf]) ++ h.last), ?_, rfl, fun d e r => ?_⟩
  · simp only [Head.text, Head.headerSection, List.append_assoc]
  · rw [← Frame.start_eq, parse, run_append_ok (parse_statusLine d e r h),
      run_append_ok (parse_lines d rfl rfl h.lines_ok)]
    exact parse_key d rfl h.last_ok.1 h.last_ok.2

/-- So is every part of it that stops short of its end. -/
theorem Head.within_part (h : Head) {as bs : Bytes} (htext : h.text = as ++ bs) (hbs : bs ≠ []) :
    ∃ l, Within .start l as := by
  obtain ⟨whole, hwhole, hwithin⟩ := h.within
  obtain ⟨part, c, rfl⟩ := List.eq_nil_or_concat bs |>.resolve_left hbs
  have hsplit : whole = as ++ part := by
    have hboth : whole ++ [lf] = (as ++ part) ++ [c] := by
      rw [← hwhole, htext, List.concat_eq_append, List.append_assoc]
    exact (List.append_inj' hboth rfl).1
  rw [hsplit] at hwithin
  obtain ⟨l, hl, -⟩ := hwithin.split
  exact ⟨l, hl⟩

/-- **What a byte string is to any parser**: it starts with a head, or its
status field is no number, or it stays within the head. -/
theorem stream_cases (bs : Bytes) :
    (∃ h : Head, ∃ rest, bs = h.text ++ rest) ∨ BadStatus bs ∨ ∃ l, Within .start l bs := by
  rcases parse_trichotomy ⟨none, none⟩ .new HttpResponse.new bs with hhead | hbad | ⟨f, hf, hw⟩
  · exact .inl hhead
  · exact .inr (.inl hbad)
  · exact .inr (.inr ⟨f.toLocals, (parse_within ⟨none, none⟩ hf hw.1).2.2.2⟩)

theorem Within.not_badStatus {l : Locals} {bs : Bytes} (h : Within .start l bs) :
    ¬ BadStatus bs := by
  intro hbad
  have hparse := h.passes ⟨none, none⟩ .new HttpResponse.new
  have hthrows := parse_badStatus ⟨none, none⟩ .new HttpResponse.new hbad
  rw [Frame.start_eq, hparse] at hthrows
  cases hthrows

theorem Within.not_head {l : Locals} {bs : Bytes} (h : Within .start l bs) (head : Head)
    (rest : Bytes) : bs ≠ head.text ++ rest := by
  rintro rfl
  obtain ⟨m, hm, -⟩ := h.split
  have hparse := parse_head ⟨none, none⟩ .new HttpResponse.new head
  have hout := endOfHeaders_outOfHead ⟨none, none⟩
    (⟨head.locals, .new, .new⟩ : Frame HttpResponse)
  rw [← hparse, Frame.start_eq, hm.passes] at hout
  have hout : m.parserState.inHead = false := hout
  simp [hm.inHead] at hout

/-! ## Pieces within the head -/

section pieces
variable {R : Type} [ResponseClass R]

/-- So many flushes, one after the other. -/
def flushes : Nat → R → Except (Exn × R) R
  | 0, r => .ok r
  | n + 1, r =>
    match ResponseClass.flush r with
    | .error x => .error x
    | .ok r => flushes n r

theorem flushes_self (n : Nat) (b : HttpResponse) : flushes n b = .ok b := by
  induction n with
  | zero => rfl
  | succ n ih => exact ih

/-- **Of the pieces within a head nothing shows but the locals and the
flushes.** -/
theorem turns_within (d : Disconnection) (ending : Option Exn) {l m : Locals} {pre : List Bytes}
    (h : Within l m pre.flatten) (post : List Bytes) (e : Engine) (r : R) :
    turns d ending (pre ++ post) ⟨l, e, r⟩ =
      match flushes pre.length r with
      | .error x => ⟨.error (.threw x.1), e, x.2⟩
      | .ok r => turns d ending post ⟨m, e, r⟩ := by
  induction pre generalizing l r with
  | nil =>
    have hsame := Except.ok.inj (h.passes d e r)
    injection hsame with hlocals
    simp only [List.nil_append, List.length_nil, flushes]
    rw [← hlocals]
  | cons p pre ih =>
    rw [List.flatten_cons] at h
    obtain ⟨n, hfirst, hrest⟩ := h.split
    have hread := hfirst.passes d e r
    simp only [List.cons_append, List.length_cons, flushes]
    cases hflush : ResponseClass.flush r with
    | error x => exact turns_fail hread hflush
    | ok r' =>
      rw [turns_more hread hflush hfirst.not_ok]
      exact ih hrest r'

theorem asked_within (d : Disconnection) {l m : Locals} {pre : List Bytes}
    (h : Within l m pre.flatten) (post : List Bytes) (e : Engine) {r r' : R}
    (hflushes : flushes pre.length r = .ok r') :
    asked d (pre ++ post) ⟨l, e, r⟩ = asked d post ⟨m, e, r'⟩ + pre.length := by
  induction pre generalizing l r with
  | nil =>
    have hsame := Except.ok.inj (h.passes d e r)
    injection hsame with hlocals
    cases hflushes
    simp only [List.nil_append, List.length_nil, Nat.add_zero]
    rw [← hlocals]
  | cons p pre ih =>
    rw [List.flatten_cons] at h
    obtain ⟨n, hfirst, hrest⟩ := h.split
    simp only [List.length_cons, flushes] at hflushes
    split at hflushes
    · cases hflushes
    · rename_i r₁ hflush
      have hnext := ih hrest hflushes
      rw [List.cons_append, asked_more (hfirst.passes d e r) hflush hfirst.not_ok, hnext,
        List.length_cons, Nat.add_assoc]

/-- A flush that throws within a head ends the call there. -/
theorem asked_within_fail (d : Disconnection) {l m : Locals} {pre : List Bytes}
    (h : Within l m pre.flatten) (post : List Bytes) (e : Engine) {r : R} {x : Exn × R}
    (hflushes : flushes pre.length r = .error x) :
    asked d (pre ++ post) ⟨l, e, r⟩ ≤ pre.length := by
  induction pre generalizing l r with
  | nil => cases hflushes
  | cons p pre ih =>
    rw [List.flatten_cons] at h
    obtain ⟨n, hfirst, hrest⟩ := h.split
    have hread := hfirst.passes d e r
    simp only [List.length_cons, flushes] at hflushes
    rw [List.cons_append, List.length_cons]
    cases hflush : ResponseClass.flush r with
    | error y =>
      rw [asked_fail hread hflush]
      omega
    | ok r₁ =>
      rw [hflush] at hflushes
      rw [asked_more hread hflush hfirst.not_ok]
      exact Nat.succ_le_succ (ih hrest hflushes)

end pieces

/-- The pieces without the first so many of their bytes. -/
def behind : Nat → List Bytes → List Bytes
  | _, [] => []
  | k, p :: ps => p.drop k :: behind (k - p.length) ps

theorem behind_zero (ps : List Bytes) : behind 0 ps = ps := by
  induction ps with
  | nil => rfl
  | cons p ps ih => simp [behind, ih]

theorem behind_split (pre post : List Bytes) (u v : Bytes) :
    behind (pre.flatten ++ u).length (pre ++ (u ++ v) :: post) =
      List.replicate pre.length [] ++ v :: post := by
  induction pre with
  | nil => simp [behind, behind_zero]
  | cons p pre ih =>
    have hlength : (p ++ (pre.flatten ++ u)).length - p.length = (pre.flatten ++ u).length := by
      simp
    have hdrop : p.drop (p ++ (pre.flatten ++ u)).length = [] := by simp
    simp only [List.flatten_cons, List.append_assoc, List.cons_append, behind, hlength, hdrop, ih,
      List.length_cons, List.replicate_succ]

/-- The piece in which the first so many bytes end. -/
theorem exists_piece {k : Nat} {ps : List Bytes} (hpos : 0 < k) (hle : k ≤ ps.flatten.length) :
    ∃ pre u v post, ps = pre ++ (u ++ v) :: post ∧ u ≠ [] ∧ (pre.flatten ++ u).length = k := by
  induction ps generalizing k with
  | nil =>
    simp at hle
    omega
  | cons p ps ih =>
    by_cases hhere : k ≤ p.length
    · refine ⟨[], p.take k, p.drop k, ps, by simp, ?_, by simp [hhere]⟩
      rw [← List.length_pos_iff, List.length_take]
      omega
    · simp only [List.flatten_cons, List.length_append] at hle
      obtain ⟨pre, u, v, post, rfl, hu, hk⟩ := ih (k := k - p.length) (by omega) (by omega)
      refine ⟨p :: pre, u, v, post, rfl, hu, ?_⟩
      simp only [List.flatten_cons, List.length_append] at hk ⊢
      omega

/-- How the pieces of a stream carry its head: some lie within the head, and
the next one brings its end and the first part of what is behind it. -/
structure Carried (h : Head) (rest : Bytes) (ps : List Bytes) where
  pre : List Bytes
  locals : Locals
  piece : Bytes
  part : Bytes
  post : List Bytes
  split : ps = pre ++ piece :: post
  within : Within .start locals pre.flatten
  ends : pre.flatten ++ piece = h.text ++ part
  behind : behind h.text.length ps = List.replicate pre.length [] ++ part :: post
  rest_eq : rest = part ++ post.flatten

theorem Head.text_pos (h : Head) : 0 < h.text.length := by
  obtain ⟨bs, hbs, -⟩ := h.within
  simp [hbs]

/-- **Every stream with a head carries it so.** -/
theorem head_pieces {h : Head} {rest : Bytes} {ps : List Bytes}
    (hsplit : ps.flatten = h.text ++ rest) : Nonempty (Carried h rest ps) := by
  have hle : h.text.length ≤ ps.flatten.length := by simp [hsplit]
  obtain ⟨pre, u, v, post, rfl, hu, hlength⟩ := exists_piece h.text_pos hle
  have hflat : (pre.flatten ++ u) ++ (v ++ post.flatten) = h.text ++ rest := by
    simpa using hsplit
  obtain ⟨htext, hrest⟩ := List.append_inj hflat hlength
  obtain ⟨l, hl⟩ := h.within_part htext.symm hu
  exact ⟨{
    pre := pre
    locals := l
    piece := u ++ v
    part := v
    post := post
    split := rfl
    within := hl
    ends := by rw [← List.append_assoc, htext]
    behind := by rw [← hlength, behind_split]
    rest_eq := hrest.symm }⟩

section carried
variable {R : Type} [ResponseClass R] {h : Head} {rest : Bytes} {ps : List Bytes}

/-- The piece that brings the end of the head is read as the whole head. -/
theorem Carried.parse (c : Carried h rest ps) (d : Disconnection) (e : Engine) (r : R) :
    parse d ⟨c.locals, e, r⟩ c.piece = Anetd.parse d (.start e r) (h.text ++ c.part) := by
  rw [← c.ends, Frame.start_eq, Anetd.parse, Anetd.parse, run_append_ok (c.within.passes d e r)]

/-- The call from that piece on. -/
theorem Carried.turns (c : Carried h rest ps) (d : Disconnection) (ending : Option Exn)
    (e : Engine) (r : R) :
    turns d ending ps (.start e r) =
      match flushes c.pre.length r with
      | .error x => ⟨.error (.threw x.1), e, x.2⟩
      | .ok r => Anetd.turns d ending ((h.text ++ c.part) :: c.post) (.start e r) := by
  have hall := turns_within d ending c.within (c.piece :: c.post) e r
  rw [← c.split] at hall
  rw [Frame.start_eq, hall]
  cases flushes c.pre.length r with
  | error x => rfl
  | ok r' => simp only [Anetd.turns, c.parse, Frame.start_eq]

/-- The pieces before it fall short of the head. -/
theorem Carried.pre_length (c : Carried h rest ps) : c.pre.flatten.length < h.text.length := by
  apply Nat.lt_of_not_le
  intro hle
  have hprefix : h.text <+: c.pre.flatten :=
    List.prefix_of_prefix_length_le ⟨c.part, c.ends.symm⟩ (List.prefix_append _ _) hle
  obtain ⟨bs, hbs⟩ := hprefix
  exact c.within.not_head h bs hbs.symm

theorem Carried.asked (c : Carried h rest ps) (d : Disconnection) (e : Engine) {r r' : R}
    (hflushes : flushes c.pre.length r = .ok r') :
    asked d ps (.start e r) =
      Anetd.asked d ((h.text ++ c.part) :: c.post) (.start e r') + c.pre.length := by
  have hall := asked_within d c.within (c.piece :: c.post) e hflushes
  rw [← c.split] at hall
  rw [Frame.start_eq, hall]
  simp only [Anetd.asked, c.parse, Frame.start_eq]

end carried

/-- Pieces that do not stay within the head have a first one that leaves it. -/
theorem exists_leaving (ps : List Bytes) : (∃ l, Within .start l ps.flatten) ∨
    ∃ pre p post l, ps = pre ++ p :: post ∧ Within .start l pre.flatten ∧
      ¬ ∃ m, Within .start m (pre.flatten ++ p) := by
  induction ps using List.reverseRecOn with
  | nil => exact .inl ⟨.start, rfl, fun _ _ _ => rfl⟩
  | append_singleton ps p ih =>
    rcases ih with ⟨l, hl⟩ | ⟨pre, q, post, l, rfl, hl, hleaves⟩
    · by_cases hstays : ∃ m, Within .start m (ps.flatten ++ p)
      · left
        simpa using hstays
      · exact .inr ⟨ps, p, [], l, rfl, hl, hstays⟩
    · exact .inr ⟨pre, q, post ++ [p], l, by simp, hl, hleaves⟩

/-- A bad status field comes with one of the pieces, unless a head comes first. -/
theorem badStatus_pieces {ps : List Bytes} (hbad : BadStatus ps.flatten)
    (hnone : ¬ ∃ h : Head, ∃ rest, ps.flatten = h.text ++ rest) :
    ∃ pre p post l, ps = pre ++ p :: post ∧ Within .start l pre.flatten ∧
      BadStatus (pre.flatten ++ p) := by
  rcases exists_leaving ps with ⟨l, hl⟩ | ⟨pre, p, post, l, rfl, hl, hleaves⟩
  · exact absurd hbad hl.not_badStatus
  · refine ⟨pre, p, post, l, rfl, hl, ?_⟩
    rcases stream_cases (pre.flatten ++ p) with ⟨h, rest, hhead⟩ | hbad' | hstays
    · refine absurd ⟨h, rest ++ post.flatten, ?_⟩ hnone
      rw [← List.append_assoc, ← hhead]
      simp
    · exact hbad'
    · exact absurd hstays hleaves

/-- Pieces that stay in the head are walked in full when they can all be flushed. -/
theorem asked_inHead {R : Type} [ResponseClass R] (d : Disconnection) (e : Engine)
    (r : R) {ps : List Bytes} {l : Locals}
    (hl : Within .start l ps.flatten) :
    asked d ps (.start e r) = ps.length + 1 ↔ ∃ r', flushes ps.length r = .ok r' := by
  cases hflushes : flushes ps.length r with
  | error x =>
    have hfew := asked_within_fail d hl [] e hflushes
    rw [List.append_nil, ← Frame.start_eq] at hfew
    exact iff_of_false (by omega) fun ⟨_, h⟩ => nomatch h
  | ok r₁ =>
    have hall := asked_within d hl [] e hflushes
    rw [List.append_nil, ← Frame.start_eq, asked, Nat.add_comm] at hall
    exact iff_of_true hall ⟨r₁, rfl⟩

/-- A bad status field ends the call at its piece. -/
theorem asked_badStatus {R : Type} [ResponseClass R] (d : Disconnection) (e : Engine)
    (r : R) {ps : List Bytes}
    (hbad : BadStatus ps.flatten) (hnone : ¬ ∃ h : Head, ∃ rest, ps.flatten = h.text ++ rest) :
    asked d ps (.start e r) ≠ ps.length + 1 := by
  obtain ⟨pre, p, post, l, rfl, hl, hpiece⟩ := badStatus_pieces hbad hnone
  intro hasked
  rw [Frame.start_eq] at hasked
  simp only [List.length_append, List.length_cons] at hasked
  cases hflushes : flushes pre.length r with
  | error x =>
    have hfew := asked_within_fail d hl (p :: post) e hflushes
    omega
  | ok r₁ =>
    have hthrows := parse_badStatus d e r₁ hpiece
    rw [Frame.start_eq, parse, run_append_ok (hl.passes d e r₁)] at hthrows
    rw [asked_within d hl (p :: post) e hflushes, asked_error hthrows] at hasked
    omega

/-! ## Heads that a body follows -/

/-- The size of the body that the parser waits for behind a head; zero for one
that ends with the stream. -/
inductive Head.Awaits (h : Head) : Nat → Prop where
  | announced {v : Bytes} {n : Int} (found : h.headers.find? contentLength = some v)
      (number : lexicalCastInt v = some n) (pos : sizeOfInt n ≠ 0) : Awaits h (sizeOfInt n)
  | unannounced (found : h.headers.find? contentLength = none) : Awaits h 0

/-- The three kinds of heads that a body may follow. -/
theorem Head.announcement (h : Head) :
    (∃ v, h.headers.find? contentLength = some v ∧ lexicalCastInt v = none) ∨
    (∃ v n, h.headers.find? contentLength = some v ∧ lexicalCastInt v = some n ∧
      sizeOfInt n = 0) ∨ ∃ size, h.Awaits size := by
  cases found : h.headers.find? contentLength with
  | none => exact .inr (.inr ⟨0, .unannounced found⟩)
  | some v =>
    cases number : lexicalCastInt v with
    | none => exact .inl ⟨v, rfl, number⟩
    | some n =>
      by_cases zero : sizeOfInt n = 0
      · exact .inr (.inl ⟨v, n, rfl, number, zero⟩)
      · exact .inr (.inr ⟨_, .announced found number zero⟩)

theorem Head.Awaits.unique {h : Head} {m n : Nat} (hm : h.Awaits m) (hn : h.Awaits n) : m = n := by
  cases hm with
  | announced found number _ =>
    cases hn with
    | announced found' number' _ =>
      cases found.symm.trans found'
      cases number.symm.trans number'
      rfl
    | unannounced found' => cases found.symm.trans found'
  | unannounced found =>
    cases hn with
    | announced found' _ _ => cases found.symm.trans found'
    | unannounced _ => rfl

/-- The locals behind such a head. -/
def Head.behind (h : Head) : Locals := { h.locals with parserState := .body }

theorem parse_awaits (d : Disconnection) (e : Engine) (b : HttpResponse) {h : Head}
    (hs : h.status < 300) {size : Nat} (hsize : h.Awaits size) :
    parse d (.start e b) h.text = .ok ⟨h.behind, e, h.publish b size⟩ := by
  rw [parse_head]
  cases hsize with
  | announced found number pos =>
    rw [endOfHeaders_announced d hs found number, if_neg pos]
    rfl
  | unannounced found =>
    rw [endOfHeaders_unannounced d hs found]
    rfl

/-- The piece with the end of such a head is read as a part of the body. -/
theorem turns_awaits {R : Type} [ResponseClass R] {d : Disconnection} {h : Head} {e : Engine}
    {r r' : R} (hparse : parse d (.start e r) h.text = .ok ⟨h.behind, e, r'⟩)
    (ending : Option Exn) (part : Bytes) (post : List Bytes) :
    turns d ending ((h.text ++ part) :: post) (.start e r) =
        turns d ending (part :: post) ⟨h.behind, e, r'⟩ ∧
      asked d ((h.text ++ part) :: post) (.start e r) =
        asked d (part :: post) ⟨h.behind, e, r'⟩ := by
  have hread := run_append_ok hparse part
  simp only [turns, asked, parse, hread, and_self]

end Anetd
