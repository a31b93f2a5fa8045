import Anetd.Derived
import Anetd.FileResponse
import Anetd.HeadPieces

/-!
# A transfer into a file against one into memory

`flush` hands the body on and clears it, and `receive` goes on to measure the
body: a call over a file sees of it what one read has brought.
-/

namespace Anetd

open Lib.Machine

/-! ## A disk that takes everything -/

namespace Disk

/-- Every search for a path and every attempt to open or to write succeeds. -/
structure Willing (disk : Disk) : Prop where
  lookups : ∀ answer ∈ disk.lookups, answer = true
  opens : ∀ answer ∈ disk.opens, answer = true
  writes : ∀ answer ∈ disk.writes, answer = true

theorem willing_nil (existing : List Bytes) (created : List (Bytes × Bytes)) :
    Willing ⟨existing, created, [], [], []⟩ := by
  refine ⟨?_, ?_, ?_⟩ <;> intro answer hanswer <;> cases hanswer

end Disk

namespace HttpResponseFile

/-- The file is open, or can be opened, behind the files `before`, and has
been handed `content`. -/
structure Spools (before : List (Bytes × Bytes)) (content : Bytes) (r : HttpResponseFile) :
    Prop where
  willing : r.disk.Willing
  file : (r.opened = true ∧ ∃ path, r.disk.created = (path, content) :: before) ∨
    (r.opened = false ∧ r.filename ≠ [] ∧ r.disk.created = before ∧ content = [])

variable {before : List (Bytes × Bytes)} {content : Bytes} {r : HttpResponseFile}

/-- **A flush hands the body on.** -/
theorem Spools.flush (h : r.Spools before content) :
    ∃ r', r.flush = .ok r' ∧ r'.toHttpResponse = r.toHttpResponse.clearBody ∧
      r'.Spools before (content ++ r.body) := by
  obtain ⟨⟨hlookups, hopens, hwrites⟩, hfile⟩ := h
  have htail {answers : List Bool} (hall : ∀ a ∈ answers, a = true) :
      ∀ a ∈ answers.tail, a = true := fun a ha => hall a (List.mem_of_mem_tail ha)
  rcases r.openFile_cases with ⟨hopened, hopen⟩ | ⟨hclosed, hname, -⟩ | ⟨hclosed, -, -, hopen⟩ |
    ⟨-, -, ⟨-, hrefused⟩, -⟩ | ⟨-, -, hlost, -⟩
  · rcases hfile with ⟨-, path, hcreated⟩ | ⟨hclosed, -⟩
    · have hwrite := Disk.write_all hwrites r.body
      refine ⟨_, (flush_open hopen).trans (if_pos (Disk.headD_of_all hwrites)), rfl, ?_⟩
      rw [hwrite]
      exact ⟨⟨hlookups, hopens, htail hwrites⟩, .inl ⟨hopened, path, by simp [hcreated]⟩⟩
    · cases hopened.symm.trans hclosed
  · rcases hfile with ⟨hopened, -⟩ | ⟨-, hnamed, -⟩
    · cases hclosed.symm.trans hopened
    · exact absurd hname hnamed
  · rcases hfile with ⟨hopened, -⟩ | ⟨-, -, hcreated, rfl⟩
    · cases hclosed.symm.trans hopened
    · have hleft : ∀ answer ∈ r.afterOpen.disk.writes, answer = true := hwrites
      have hwrite := Disk.write_all hleft r.body
      refine ⟨_, (flush_open hopen).trans (if_pos (Disk.headD_of_all hwrites)), rfl, ?_⟩
      rw [show r.afterOpen.disk.write r.afterOpen.body = _ from hwrite]
      exact ⟨⟨htail hlookups, htail hopens, htail hwrites⟩,
        .inl ⟨rfl, r.disk.freePath r.filename, by simp [afterOpen, hcreated]⟩⟩
  · rw [Disk.headD_of_all hopens] at hrefused
    cases hrefused
  · rw [Disk.headD_of_all hlookups] at hlost
    cases hlost

/-- Flushes of an empty body only open the file. -/
theorem Spools.flushes (h : r.Spools before content) (hempty : r.body = []) (n : Nat) :
    ∃ r', flushes n r = .ok r' ∧ r'.toHttpResponse = r.toHttpResponse ∧
      r'.Spools before content := by
  induction n generalizing r with
  | zero => exact ⟨r, rfl, rfl, h⟩
  | succ n ih =>
    obtain ⟨r₁, hflush, hbase, hspools⟩ := h.flush
    have hsame : r₁.toHttpResponse = r.toHttpResponse := by
      rw [hbase, HttpResponse.clearBody, ← hempty]
    rw [hempty, List.append_nil] at hspools
    obtain ⟨r₂, hflushes, hbase₂, hspools₂⟩ := ih hspools (by rw [hsame, hempty])
    refine ⟨r₂, ?_, hbase₂.trans hsame, hspools₂⟩
    simp only [Anetd.flushes, flush_file, hflush, hflushes]

end HttpResponseFile

/-! ## The parser over a file -/

/-- What the class adds to the base class. -/
def HttpResponseFile.added (r : HttpResponseFile) : Bytes × Bytes × Bool × Disk :=
  (r.filename, r.filepath, r.opened, r.disk)

theorem eq_of_added {r s : HttpResponseFile} {b : HttpResponse} (hbase : s.toHttpResponse = b)
    (hadded : s.added = r.added) : s = { r with toHttpResponse := b } := by
  simp only [HttpResponseFile.added, Prod.mk.injEq] at hadded
  obtain ⟨hname, hpath, hopened, hdisk⟩ := hadded
  rw [← hbase, ← hname, ← hpath, ← hopened, ← hdisk]

section parser
variable {d : Disconnection} {l : Locals} {e : Engine} {r : HttpResponseFile}

theorem parse_file_ok {bs : Bytes} {l' : Locals} {b : HttpResponse}
    (h : parse d ⟨l, e, r.toHttpResponse⟩ bs = .ok ⟨l', e, b⟩) :
    parse d ⟨l, e, r⟩ bs = .ok ⟨l', e, { r with toHttpResponse := b }⟩ := by
  have hadd (f : HttpResponse → HttpResponse) (r : HttpResponseFile) :
      (update f r).added = r.added := rfl
  obtain ⟨r', hparse, hbase, hadded⟩ := parse_mirrors_ok hadd (r := r) h
  rw [hparse, eq_of_added hbase hadded]

theorem parse_file_bad {bs : Bytes} {b : HttpResponse}
    (h : parse d ⟨l, e, r.toHttpResponse⟩ bs = .error ⟨.error (.threw .badLexicalCast), e, b⟩) :
    parse d ⟨l, e, r⟩ bs =
      .error ⟨.error (.threw .badLexicalCast), e, { r with toHttpResponse := b }⟩ := by
  have hadd (f : HttpResponse → HttpResponse) (r : HttpResponseFile) :
      (update f r).added = r.added := rfl
  obtain ⟨⟨result, engine, response⟩, hparse, hresult, hengine, hsame⟩ :=
    parse_mirrors_error hadd (r := r) h
  obtain ⟨hbase, hadded⟩ := hsame rfl
  have hresponse : response = { r with toHttpResponse := b } := eq_of_added hbase hadded
  simp only at hresult hengine
  rw [hparse, hresponse, ← hresult, ← hengine]

end parser

/-! ## A body in parts -/

/-- The base part when so many body bytes have been handed on. -/
def HttpResponse.passed (r : HttpResponse) (n : Nat) : HttpResponse :=
  { r with progress := r.progress + n }

theorem HttpResponse.clearBody_append {r : HttpResponse} (h : r.body = []) (bs : Bytes) :
    (r.append bs).clearBody = r.passed bs.length := by
  simp only [HttpResponse.append, HttpResponse.clearBody, HttpResponse.passed, ← h]

section parts
variable {d : Disconnection} {l : Locals} {e : Engine} {r : HttpResponseFile}
variable {before : List (Bytes × Bytes)} {content q : Bytes}

/-- **A part that is too short is handed on**, and the size is measured anew. -/
theorem part_passes (hl : l.parserState = .body) (hempty : r.body = [])
    (hspools : r.Spools before content) (hq : ¬ reaches 0 r.bodySize q.length) :
    ∃ r', r'.toHttpResponse = r.toHttpResponse.passed q.length ∧ r'.Spools before (content ++ q) ∧
      ∀ (ending : Option Exn) (qs : List Bytes),
        turns d ending (q :: qs) ⟨l, e, r⟩ = turns d ending qs ⟨l, e, r'⟩ ∧
        asked d (q :: qs) ⟨l, e, r⟩ = asked d qs ⟨l, e, r'⟩ + 1 := by
  have hbase := parse_body d (f := ⟨l, e, r.toHttpResponse⟩) hl q
  have hlength : r.body.length = 0 := by simp [hempty]
  simp only [hlength, hq, if_false] at hbase
  have hparse := parse_file_ok hbase
  obtain ⟨r', hflush, hbase', hspools'⟩ := HttpResponseFile.Spools.flush
    (r := { r with toHttpResponse := r.toHttpResponse.append q })
    ⟨hspools.willing, hspools.file⟩
  have hbody : (r.toHttpResponse.append q).body = q := by simp [HttpResponse.append, hempty]
  have hl' : ({ l with parserState := .body } : Locals) = l := by simp [← hl]
  rw [hbody] at hspools'
  refine ⟨r', hbase'.trans (HttpResponse.clearBody_append hempty q), hspools', fun ending qs => ?_⟩
  rw [turns_more hparse hflush (by simp), asked_more hparse hflush (by simp)]
  simp only [hl', and_self]

/-- A part that is long enough completes the response. -/
theorem part_completes (hl : l.parserState = .body) (hempty : r.body = [])
    (hspools : r.Spools before content) (hq : reaches 0 r.bodySize q.length) :
    ∃ r', r'.toHttpResponse = r.toHttpResponse.passed r.bodySize ∧
      r'.Spools before (content ++ q.take r.bodySize) ∧
      ∀ (ending : Option Exn) (qs : List Bytes),
        turns d ending (q :: qs) ⟨l, e, r⟩ = complete ⟨{ l with parserState := .ok }, e, r'⟩ ∧
        asked d (q :: qs) ⟨l, e, r⟩ = 1 := by
  have hbase := parse_body d (f := ⟨l, e, r.toHttpResponse⟩) hl q
  have hlength : r.body.length = 0 := by simp [hempty]
  simp only [hlength, hq, if_true, Nat.sub_zero] at hbase
  have hparse := parse_file_ok hbase
  obtain ⟨r', hflush, hbase', hspools'⟩ := HttpResponseFile.Spools.flush
    (r := { r with toHttpResponse := r.toHttpResponse.append (q.take r.bodySize) })
    ⟨hspools.willing, hspools.file⟩
  have hbody : (r.toHttpResponse.append (q.take r.bodySize)).body = q.take r.bodySize := by
    simp [HttpResponse.append, hempty]
  have htake : (q.take r.bodySize).length = r.bodySize := by
    unfold reaches at hq
    rw [List.length_take]
    omega
  rw [hbody] at hspools'
  have hpassed := hbase'.trans (HttpResponse.clearBody_append hempty (q.take r.bodySize))
  rw [htake] at hpassed
  exact ⟨r', hpassed, hspools', fun ending qs =>
    ⟨turns_done hparse hflush rfl, asked_done hparse hflush rfl⟩⟩

/-- Parts that are all too short are all handed on. -/
theorem parts_pass (hl : l.parserState = .body) (hempty : r.body = [])
    (hspools : r.Spools before content) {qs : List Bytes}
    (hqs : ∀ q ∈ qs, ¬ reaches 0 r.bodySize q.length) :
    ∃ r', r'.toHttpResponse = r.toHttpResponse.passed qs.flatten.length ∧
      r'.Spools before (content ++ qs.flatten) ∧
      ∀ (ending : Option Exn) (post : List Bytes),
        turns d ending (qs ++ post) ⟨l, e, r⟩ = turns d ending post ⟨l, e, r'⟩ ∧
        asked d (qs ++ post) ⟨l, e, r⟩ = asked d post ⟨l, e, r'⟩ + qs.length := by
  induction qs generalizing r content with
  | nil => exact ⟨r, rfl, by simpa using hspools, fun ending post => ⟨rfl, rfl⟩⟩
  | cons q qs ih =>
    obtain ⟨hq, hrest⟩ := List.forall_mem_cons.mp hqs
    obtain ⟨r₁, hbase₁, hspools₁, hturn⟩ := part_passes (d := d) (e := e) hl hempty hspools hq
    have hempty₁ : r₁.body = [] := by rw [hbase₁]; exact hempty
    have hsize₁ : r₁.bodySize = r.bodySize := by rw [hbase₁]; rfl
    obtain ⟨r₂, hbase₂, hspools₂, hturns⟩ := ih hempty₁ hspools₁ (by rwa [hsize₁])
    refine ⟨r₂, ?_, ?_, fun ending post => ?_⟩
    · rw [hbase₂, hbase₁]
      simp [HttpResponse.passed, Nat.add_assoc]
    · simpa using hspools₂
    · obtain ⟨hone, hcount⟩ := hturn ending (qs ++ post)
      obtain ⟨hmore, hcounts⟩ := hturns ending post
      rw [List.cons_append, hone, hmore, hcount, hcounts, List.length_cons, Nat.add_assoc]
      exact ⟨rfl, rfl⟩

end parts

/-! ## The same parts in memory -/

section memory
variable {d : Disconnection} {l : Locals} {e : Engine} {b : HttpResponse}

theorem memory_passes (hl : l.parserState = .body) (qs : List Bytes)
    (hqs : ¬ reaches b.body.length b.bodySize qs.flatten.length) (ending : Option Exn)
    (post : List Bytes) :
    turns d ending (qs ++ post) ⟨l, e, b⟩ = turns d ending post ⟨l, e, b.append qs.flatten⟩ ∧
      asked d (qs ++ post) ⟨l, e, b⟩ = asked d post ⟨l, e, b.append qs.flatten⟩ + qs.length := by
  have hl' : ({ l with parserState := .body } : Locals) = l := by simp [← hl]
  induction qs generalizing b with
  | nil => simp
  | cons q qs ih =>
    have hfirst : ¬ reaches b.body.length b.bodySize q.length := by
      simp only [reaches, List.flatten_cons, List.length_append] at hqs ⊢
      omega
    have hparse := parse_body d (f := ⟨l, e, b⟩) hl q
    simp only [hfirst, if_false] at hparse
    have hrest : ¬ reaches (b.append q).body.length (b.append q).bodySize qs.flatten.length := by
      simp only [reaches, HttpResponse.append, List.flatten_cons, List.length_append] at hqs ⊢
      omega
    have happend : (b.append q).append qs.flatten = b.append (q :: qs).flatten := by
      simp [HttpResponse.append, Nat.add_assoc]
    obtain ⟨hturns, hasked⟩ := ih hrest
    rw [List.cons_append, turns_more hparse (flush_self _) (by simp),
      asked_more hparse (flush_self _) (by simp)]
    simp only [hl', hturns, hasked, happend, List.length_cons, Nat.add_assoc, and_self]

theorem memory_completes (hl : l.parserState = .body) {q : Bytes}
    (hq : reaches b.body.length b.bodySize q.length) (ending : Option Exn) (qs : List Bytes) :
    turns d ending (q :: qs) ⟨l, e, b⟩ = complete ⟨{ l with parserState := .ok }, e,
        b.append (q.take (b.bodySize - b.body.length))⟩ ∧
      asked d (q :: qs) ⟨l, e, b⟩ = 1 := by
  have hparse := parse_body d (f := ⟨l, e, b⟩) hl q
  simp only [hq, if_true] at hparse
  exact ⟨turns_done hparse (flush_self _) rfl, asked_done hparse (flush_self _) rfl⟩

end memory

/-! ## Agreement -/

/-- A call has put the content into one more file, or had nothing to write. -/
def Wrote (before : List (Bytes × Bytes)) (disk : Disk) (content : Bytes) : Prop :=
  (∃ path, disk.created = (path, content) :: before) ∨ disk.created = before ∧ content = []

/-- A call over a file ends as the one in memory does. -/
structure Tallies (before : List (Bytes × Bytes)) (x : Exit HttpResponseFile)
    (y : Exit HttpResponse) : Prop where
  result : x.result = y.result
  written : Wrote before x.response.disk y.response.body
  bodySize : x.response.bodySize = y.response.bodySize
  progress : x.response.progress = y.response.progress

/-- It also leaves the same reads. -/
structure Agrees (before : List (Bytes × Bytes)) (x : Exit HttpResponseFile × List (Read 2048))
    (y : Exit HttpResponse × List (Read 2048)) : Prop where
  consumed : x.2 = y.2
  ends : Tallies before x.1 y.1

theorem HttpResponseFile.Spools.wrote {before : List (Bytes × Bytes)} {content : Bytes}
    {r : HttpResponseFile} (h : r.Spools before content) : Wrote before r.disk content := by
  rcases h.file with ⟨-, hfile⟩ | ⟨-, -, hcreated, hempty⟩
  · exact .inl hfile
  · exact .inr ⟨hcreated, hempty⟩

section tallies
variable {before : List (Bytes × Bytes)} {l l' : Locals} {e : Engine} {r : HttpResponseFile}
variable {b : HttpResponse} {bs : Bytes} {ending : Option Exn}

/-- A stream that ends before the response is complete: what is measured at its
end is not there over a file. -/
theorem finish_tallies_iff (hb : b.body = []) (hr : r.toHttpResponse = b.passed bs.length)
    (hspools : r.Spools before bs) :
    Tallies before (finish ending ⟨l, e, r⟩) (finish ending ⟨l', e, b.append bs⟩) ↔
      (ending = some (.systemError .eof) → bs = []) := by
  have hbody : (b.append bs).body = bs := by simp [HttpResponse.append, hb]
  have hwrote : Wrote before r.disk (b.append bs).body := by
    rw [hbody]
    exact hspools.wrote
  have hsize : r.bodySize = b.bodySize := by rw [hr]; rfl
  have hprogress : r.progress = (b.append bs).progress := by rw [hr]; rfl
  have hempty : r.body = [] := by rw [hr]; exact hb
  cases ending with
  | none =>
    simp only [finish, reduceCtorEq, false_implies, iff_true]
    exact ⟨rfl, hwrote, hsize, hprogress⟩
  | some x =>
    by_cases hx : x = .systemError .eof
    · subst hx
      simp only [finish, handle, if_true, true_implies]
      constructor
      · intro h
        have hzero : r.body.length = (b.append bs).body.length := h.bodySize
        rw [hempty, hbody] at hzero
        exact List.length_eq_zero_iff.mp hzero.symm
      · intro h
        refine ⟨rfl, hwrote, ?_, hprogress⟩
        have hzero : r.body.length = (b.append bs).body.length := by rw [hempty, hbody, h]
        exact hzero
    · simp only [finish, handle, hx, if_false, Option.some.injEq, false_implies, iff_true]
      exact ⟨rfl, hwrote, hsize, hprogress⟩

/-- A response that is complete is the same over a file. -/
theorem complete_tallies (hb : b.body = []) (hr : r.toHttpResponse = b.passed bs.length)
    (hspools : r.Spools before bs) :
    Tallies before (complete ⟨l, e, r⟩) (complete ⟨l', e, b.append bs⟩) := by
  have hbody : (b.append bs).body = bs := by simp [HttpResponse.append, hb]
  refine ⟨rfl, ?_, ?_, ?_⟩
  · have hwrote := hspools.wrote
    rw [← hbody] at hwrote
    exact hwrote
  · have hsize : r.bodySize = b.bodySize := by rw [hr]; rfl
    exact hsize
  · have hprogress : r.progress = (b.append bs).progress := by rw [hr]; rfl
    exact hprogress

end tallies

section agreement
variable {d : Disconnection} {l : Locals} {e : Engine} {r : HttpResponseFile}
variable {before : List (Bytes × Bytes)} {ending : Option Exn} {qs : List Bytes}

/-- When the flushes do no harm to a body in parts: the first part that is not
empty completes it, or nothing does, and it is not the end of the stream that
is waited for. -/
def Harmless (size : Nat) (qs : List Bytes) (ending : Option Exn) : Prop :=
  (∃ q, qs.find? (· ≠ []) = some q ∧ reaches 0 size q.length) ∨
    (¬ reaches 0 size qs.flatten.length ∧ (ending = some (.systemError .eof) → qs.flatten = []))

theorem find?_nonempty {qs : List Bytes} {q : Bytes} (h : qs.find? (· ≠ []) = some q) :
    q ≠ [] ∧ ∃ as bs, qs = as ++ q :: bs ∧ as.flatten = [] := by
  obtain ⟨hq, as, bs, hsplit, has⟩ := List.find?_eq_some_iff_append.mp h
  refine ⟨by simpa using hq, as, bs, hsplit, ?_⟩
  rw [List.flatten_eq_nil_iff]
  intro a ha
  simpa using has a ha

/-- A body that does not become complete is handed on part by part. -/
theorem short_tallies_iff (hl : l.parserState = .body) (hempty : r.body = [])
    (hspools : r.Spools before []) (hshort : ¬ reaches 0 r.bodySize qs.flatten.length) :
    asked d qs ⟨l, e, r⟩ = asked d qs ⟨l, e, r.toHttpResponse⟩ ∧
      (Tallies before (turns d ending qs ⟨l, e, r⟩) (turns d ending qs ⟨l, e, r.toHttpResponse⟩) ↔
        (ending = some (.systemError .eof) → qs.flatten = [])) := by
  have hzero : r.toHttpResponse.body.length = 0 := by simp [hempty]
  have hparts : ∀ q ∈ qs, ¬ reaches 0 r.bodySize q.length := by
    intro q hq
    have hle := (List.sublist_flatten_of_mem hq).length_le
    unfold reaches at hshort ⊢
    omega
  obtain ⟨r₁, hbase₁, hspools₁, hpass⟩ := parts_pass (d := d) (e := e) hl hempty hspools hparts
  obtain ⟨hturns, hcount⟩ := hpass ending []
  obtain ⟨hturns', hcount'⟩ := memory_passes (d := d) (e := e) (b := r.toHttpResponse) hl qs
    (by rwa [hzero]) ending []
  rw [List.append_nil] at hturns hcount hturns' hcount'
  rw [hturns, hcount, hturns', hcount']
  exact ⟨rfl, finish_tallies_iff hempty hbase₁ hspools₁⟩

theorem tallies_of_harmless (hl : l.parserState = .body) (hempty : r.body = [])
    (hspools : r.Spools before []) (h : Harmless r.bodySize qs ending) :
    asked d qs ⟨l, e, r⟩ = asked d qs ⟨l, e, r.toHttpResponse⟩ ∧
      Tallies before (turns d ending qs ⟨l, e, r⟩) (turns d ending qs ⟨l, e, r.toHttpResponse⟩) := by
  have hzero : r.toHttpResponse.body.length = 0 := by simp [hempty]
  have hnone : ¬ reaches 0 r.bodySize 0 := by unfold reaches; omega
  rcases h with ⟨q, hfirst, hq⟩ | ⟨hshort, hending⟩
  · obtain ⟨-, as, bs, rfl, has⟩ := find?_nonempty hfirst
    have hlengths : ∀ a ∈ as, ¬ reaches 0 r.bodySize a.length := by
      intro a ha
      rw [List.flatten_eq_nil_iff.mp has a ha]
      exact hnone
    obtain ⟨r₁, hbase₁, hspools₁, hpass⟩ := parts_pass (d := d) (e := e) hl hempty hspools hlengths
    rw [has] at hbase₁ hspools₁
    have hsame : r₁.toHttpResponse = r.toHttpResponse := hbase₁
    obtain ⟨r₂, hbase₂, hspools₂, hdone⟩ := part_completes (d := d) (e := e) (q := q) hl
      (by rw [hsame, hempty]) hspools₁ (by rwa [hsame])
    -- in memory: the same parts, without a flush
    obtain ⟨hpass', hcount'⟩ := memory_passes (d := d) (e := e) (b := r.toHttpResponse) hl as
      (by rw [has, hzero]; exact hnone) ending (q :: bs)
    rw [has, HttpResponse.append_nil] at hpass' hcount'
    have hreach : reaches r.toHttpResponse.body.length r.bodySize q.length := by rwa [hzero]
    obtain ⟨hdone', hasked'⟩ := memory_completes (d := d) (e := e) hl hreach ending bs
    rw [hzero, Nat.sub_zero] at hdone'
    obtain ⟨hturns, hcount⟩ := hpass ending (q :: bs)
    obtain ⟨hlast, hasked⟩ := hdone ending bs
    have htake : (q.take r.bodySize).length = r.bodySize := by
      unfold reaches at hq
      rw [List.length_take]
      omega
    rw [hturns, hcount, hlast, hasked, hpass', hcount', hdone', hasked']
    refine ⟨rfl, complete_tallies hempty ?_ ?_⟩
    · rw [hbase₂, hsame, htake]
    · rwa [hsame] at hspools₂
  · obtain ⟨hcount, htallies⟩ := short_tallies_iff (d := d) (e := e) hl hempty hspools hshort
    exact ⟨hcount, htallies.mpr hending⟩

/-- What a complete response in memory shows. -/
theorem memory_reaches {b : HttpResponse} (hl : l.parserState = .body) (hb : b.body = [])
    (h : reaches 0 b.bodySize qs.flatten.length) :
    (turns d ending qs ⟨l, e, b⟩).result = .ok false ∧
      (turns d ending qs ⟨l, e, b⟩).response.bodySize = b.bodySize ∧
      (turns d ending qs ⟨l, e, b⟩).response.progress = b.progress + b.bodySize := by
  have hbody := parse_body d (f := ⟨l, e, b⟩) hl qs.flatten
  have hzero : b.body.length = 0 := by simp [hb]
  have htake : (qs.flatten.take b.bodySize).length = b.bodySize := by
    unfold reaches at h
    rw [List.length_take]
    omega
  simp only [hzero, h, if_true, Nat.sub_zero] at hbody
  rw [turns_settle d ending qs (by simp [Frame.done, hl]), hbody]
  refine ⟨rfl, rfl, ?_⟩
  simp only [settle, Frame.done, decide_true, if_true, complete, HttpResponse.append, htake]
  rfl

/-- All parts are handed on, or one of them completes the response, with as many
bytes more as its size. -/
theorem parts_end {content : Bytes} (hl : l.parserState = .body) (hempty : r.body = [])
    (hspools : r.Spools before content) (ending : Option Exn) (bs : List Bytes) :
    (∃ r', r'.body = [] ∧ turns d ending bs ⟨l, e, r⟩ = finish ending ⟨l, e, r'⟩) ∨
      ∃ r', r.progress + r.bodySize ≤ r'.progress ∧
        turns d ending bs ⟨l, e, r⟩ = complete ⟨{ l with parserState := .ok }, e, r'⟩ := by
  by_cases hall : ∀ x ∈ bs, ¬ reaches 0 r.bodySize x.length
  · left
    obtain ⟨r', hbase, -, hrest⟩ := parts_pass (d := d) (e := e) hl hempty hspools hall
    have hturns := (hrest ending []).1
    rw [List.append_nil] at hturns
    refine ⟨r', ?_, hturns⟩
    rw [hbase]
    exact hempty
  · right
    obtain ⟨x, hfound⟩ : ∃ x, bs.find? (fun x => decide (reaches 0 r.bodySize x.length)) = some x := by
      rw [← Option.isSome_iff_exists, List.find?_isSome]
      simpa using hall
    obtain ⟨hx, cs, ds, rfl, hcs⟩ := List.find?_eq_some_iff_append.mp hfound
    obtain ⟨r₁, hbase₁, hspools₁, hrest⟩ := parts_pass (d := d) (e := e) hl hempty hspools
      (fun c hc => by simpa using hcs c hc)
    have hempty₁ : r₁.body = [] := by rw [hbase₁]; exact hempty
    have hsize₁ : r₁.bodySize = r.bodySize := by rw [hbase₁]; rfl
    obtain ⟨r₂, hbase₂, -, hdone⟩ := part_completes (d := d) (e := e) hl hempty₁ hspools₁
      (q := x) (by simpa [hsize₁] using hx)
    refine ⟨r₂, ?_, (hrest ending (x :: ds)).1.trans (hdone ending ds).1⟩
    rw [hbase₂, hsize₁, hbase₁]
    simp only [HttpResponse.passed]
    omega

/-- **A first part that is too short shows**, if the body is complete in memory:
either the end of the stream is met instead, or more than the body is taken. -/
theorem not_tallies (hl : l.parserState = .body) (hempty : r.body = [])
    (hspools : r.Spools before []) {q : Bytes} {as bs : List Bytes} (hsplit : qs = as ++ q :: bs)
    (has : as.flatten = []) (hq : q ≠ []) (hshort : ¬ reaches 0 r.bodySize q.length)
    (hreach : reaches 0 r.bodySize qs.flatten.length) :
    ¬ Tallies before (turns d ending qs ⟨l, e, r⟩)
      (turns d ending qs ⟨l, e, r.toHttpResponse⟩) := by
  intro h
  obtain ⟨hresult, hsize, hprogress⟩ :=
    memory_reaches (d := d) (e := e) (b := r.toHttpResponse) hl hempty hreach
  have hfirst : ∀ a ∈ as ++ [q], ¬ reaches 0 r.bodySize a.length := by
    intro a ha
    rcases List.mem_append.mp ha with ha | ha
    · rw [List.flatten_eq_nil_iff.mp has a ha]
      simp [reaches]
      omega
    · rwa [List.mem_singleton.mp ha]
  obtain ⟨r₁, hbase₁, hspools₁, hpass⟩ := parts_pass (d := d) (e := e) hl hempty hspools hfirst
  have hempty₁ : r₁.body = [] := by rw [hbase₁]; exact hempty
  have hsize₁ : r₁.bodySize = r.bodySize := by rw [hbase₁]; rfl
  have hprogress₁ : r₁.progress = r.progress + q.length := by
    rw [hbase₁]
    simp [HttpResponse.passed, has]
  have hstart : turns d ending qs ⟨l, e, r⟩ = turns d ending bs ⟨l, e, r₁⟩ := by
    rw [hsplit, ← (hpass ending bs).1, List.append_assoc, List.singleton_append]
  have hpos : 0 < q.length := List.length_pos_iff.mpr hq
  rw [hstart] at h
  rcases parts_end (d := d) (e := e) hl hempty₁ hspools₁ ending bs with
    ⟨r₂, hempty₂, hturns⟩ | ⟨r₂, hmore, hturns⟩
  · -- the end of the stream finds an empty body
    rw [hturns] at h
    have hreturns := h.result
    rw [hresult] at hreturns
    cases ending with
    | none => cases hreturns
    | some x =>
      simp only [finish, handle] at h hreturns
      split at hreturns
      · rename_i hx
        have hzero := h.bodySize
        rw [hsize, if_pos hx] at hzero
        simp [hempty₂, HttpResponse.setBodySize] at hzero
        unfold reaches at hreach
        omega
      · cases hreturns
  · -- the bytes of the first part come on top of the body
    rw [hturns] at h
    have hsame : r₂.progress = r.progress + r.bodySize := h.progress.trans hprogress
    omega

theorem harmless_of_tallies (hl : l.parserState = .body) (hempty : r.body = [])
    (hspools : r.Spools before [])
    (h : Tallies before (turns d ending qs ⟨l, e, r⟩)
      (turns d ending qs ⟨l, e, r.toHttpResponse⟩)) :
    Harmless r.bodySize qs ending := by
  have hzero : r.toHttpResponse.body.length = 0 := by simp [hempty]
  by_cases hreach : reaches 0 r.bodySize qs.flatten.length
  · left
    cases hfirst : qs.find? (· ≠ []) with
    | none =>
      have hnil : qs.flatten = [] := by
        rw [List.flatten_eq_nil_iff]
        simpa using hfirst
      rw [hnil] at hreach
      simp [reaches] at hreach
      omega
    | some q =>
      refine ⟨q, rfl, ?_⟩
      apply Classical.byContradiction
      intro hshort
      obtain ⟨hq, as, bs, hsplit, has⟩ := find?_nonempty hfirst
      exact not_tallies hl hempty hspools hsplit has hq hshort hreach h
  · exact .inr ⟨hreach, (short_tallies_iff hl hempty hspools hreach).2.mp h⟩

end agreement

/-! ## When the two calls agree -/

/-- A response that has its URL and nothing else yet, over a disk that takes
everything. -/
structure HttpResponseFile.Ready (r : HttpResponseFile) : Prop where
  closed : r.opened = false
  named : r.filename ≠ []
  empty : r.body = []
  willing : r.disk.Willing

/-- So is every response that is reset and given a URL with a file component. -/
theorem ready_setURL {r : HttpResponseFile} (willing : r.disk.Willing) {url : Bytes}
    {parts : UrlParts} (hparts : urlParts url = some parts) (hfile : parts.file ≠ []) :
    (r.reset.setURL url).Ready where
  closed := rfl
  named := by simpa [HttpResponseFile.setURL, hparts] using hfile
  empty := rfl
  willing := willing

theorem HttpResponseFile.Ready.spools {r : HttpResponseFile} (h : r.Ready) :
    r.Spools r.disk.created [] where
  willing := h.willing
  file := .inr ⟨h.closed, h.named, rfl, rfl⟩

/-- The streams over which a flush does no harm: the announced length is no
number, or is zero, or the parts of the body are of the harmless kind. -/
inductive FlushHarmless (h : Head) (ps : List Bytes × Option Exn) : Prop where
  | bad {v : Bytes} (found : h.headers.find? contentLength = some v)
      (bad : lexicalCastInt v = none)
  | empty {v : Bytes} {n : Int} (found : h.headers.find? contentLength = some v)
      (number : lexicalCastInt v = some n) (zero : sizeOfInt n = 0)
  | body {size : Nat} (awaits : h.Awaits size)
      (harmless : Harmless size (behind h.text.length ps.1) ps.2)

theorem harmless_behind {h : Head} {rest : Bytes} {ps : List Bytes} (c : Carried h rest ps)
    (size : Nat) (ending : Option Exn) :
    Harmless size (behind h.text.length ps) ending ↔ Harmless size (c.part :: c.post) ending := by
  have hfind : (behind h.text.length ps).find? (· ≠ []) = (c.part :: c.post).find? (· ≠ []) := by
    rw [c.behind, List.find?_append, List.find?_eq_none.mpr, Option.none_or]
    intro x hx
    simp [List.eq_of_mem_replicate hx]
  have hflat : (behind h.text.length ps).flatten = (c.part :: c.post).flatten := by
    simp [c.behind]
  rw [Harmless, Harmless, hfind, hflat]

section calls
variable (d : Disconnection) {os : List (Read 2048)} (buffer : Buffer) (e : Engine) {h : Head}
variable {rest : Bytes}

/-- A call from the end of the head on. -/
theorem receive_carried_head {R : Type} [ResponseClass R] {r r' : R}
    (c : Carried h rest (pieces e.httpType os (buffer 0)).1)
    (hflushes : flushes c.pre.length r = .ok r') :
    receive d os buffer e r =
      (turns d (pieces e.httpType os (buffer 0)).2 ((h.text ++ c.part) :: c.post) (.start e r'),
        os.drop (asked d ((h.text ++ c.part) :: c.post) (.start e r') + c.pre.length)) := by
  have hturns := c.turns d (pieces e.httpType os (buffer 0)).2 e r
  rw [hflushes] at hturns
  refine Prod.ext ?_ ?_
  · rw [receive_turns]
    exact hturns
  · rw [receive, receiveLoop_asked]
    exact congrArg os.drop (c.asked d e hflushes)

variable {r : HttpResponseFile} {before : List (Bytes × Bytes)} {ending : Option Exn}
variable (hempty : r.body = []) (hspools : r.Spools before []) (hs : h.status < 300)
include hempty hspools hs

/-- A length that is no number throws before the body. -/
theorem bad_tallies {v : Bytes} (found : h.headers.find? contentLength = some v)
    (bad : lexicalCastInt v = none) (part : Bytes) (post : List Bytes) :
    asked d ((h.text ++ part) :: post) (.start e r) =
        asked d ((h.text ++ part) :: post) (.start e r.toHttpResponse) ∧
      Tallies before (turns d ending ((h.text ++ part) :: post) (.start e r))
        (turns d ending ((h.text ++ part) :: post) (.start e r.toHttpResponse)) := by
  have hparse := parse_misannounced d e r.toHttpResponse hs found bad part
  have hparse' : parse d (.start e r) (h.text ++ part) = _ := parse_file_bad hparse
  rw [asked_error hparse, turns_error hparse, asked_error hparse', turns_error hparse']
  refine ⟨rfl, rfl, ?_, rfl, rfl⟩
  have hbody : (h.abandon r.toHttpResponse).body = [] := hempty
  rw [hbody]
  exact hspools.wrote

/-- A length of zero completes the response before the body. -/
theorem empty_tallies {v : Bytes} {n : Int} (found : h.headers.find? contentLength = some v)
    (number : lexicalCastInt v = some n) (zero : sizeOfInt n = 0) (part : Bytes)
    (post : List Bytes) :
    asked d ((h.text ++ part) :: post) (.start e r) =
        asked d ((h.text ++ part) :: post) (.start e r.toHttpResponse) ∧
      Tallies before (turns d ending ((h.text ++ part) :: post) (.start e r))
        (turns d ending ((h.text ++ part) :: post) (.start e r.toHttpResponse)) := by
  have hparse := parse_announced d e r.toHttpResponse hs found number part
  have hdone : completes r.body.length (sizeOfInt n) part.length := .inl zero
  have hpart : bodyPart r.body.length (sizeOfInt n) part = [] := by
    rw [bodyPart, if_pos hdone, zero, Nat.zero_sub, List.take_zero]
  rw [if_pos hdone, hpart] at hparse
  have hparse' : parse d (.start e r) (h.text ++ part) = _ := parse_file_ok hparse
  obtain ⟨r', hflush, hbase, hspools'⟩ := HttpResponseFile.Spools.flush
    (r := { r with toHttpResponse := (h.publish r.toHttpResponse (sizeOfInt n)).append [] })
    ⟨hspools.willing, hspools.file⟩
  have hnil : ((h.publish r.toHttpResponse (sizeOfInt n)).append []).body = [] := by
    simp [HttpResponse.append, Head.publish, hempty]
  rw [hnil] at hspools'
  rw [asked_done hparse (flush_self _) rfl, turns_done hparse (flush_self _) rfl,
    asked_done hparse' hflush rfl, turns_done hparse' hflush rfl]
  have hpassed := HttpResponse.clearBody_append
    (r := h.publish r.toHttpResponse (sizeOfInt n)) hempty []
  exact ⟨rfl, complete_tallies hempty (hbase.trans hpassed) hspools'⟩

/-- A body is read in parts. -/
theorem body_tallies {size : Nat} (awaits : h.Awaits size) {part : Bytes} {post : List Bytes} :
    (Tallies before (turns d ending ((h.text ++ part) :: post) (.start e r))
        (turns d ending ((h.text ++ part) :: post) (.start e r.toHttpResponse)) ↔
      Harmless size (part :: post) ending) ∧
    (Harmless size (part :: post) ending → asked d ((h.text ++ part) :: post) (.start e r) =
      asked d ((h.text ++ part) :: post) (.start e r.toHttpResponse)) := by
  have hparse := parse_awaits d e r.toHttpResponse hs awaits
  have hparse' : parse d (.start e r) h.text = _ := parse_file_ok hparse
  have hspools' : HttpResponseFile.Spools before []
      { r with toHttpResponse := h.publish r.toHttpResponse size } :=
    ⟨hspools.willing, hspools.file⟩
  have hsame (hharmless : Harmless size (part :: post) ending) :=
    tallies_of_harmless (d := d) (l := h.behind) (e := e) rfl
      (r := { r with toHttpResponse := h.publish r.toHttpResponse size }) hempty hspools' hharmless
  rw [(turns_awaits hparse ending part post).1, (turns_awaits hparse' ending part post).1,
    (turns_awaits hparse ending part post).2, (turns_awaits hparse' ending part post).2]
  exact ⟨⟨harmless_of_tallies rfl hempty hspools', fun h => (hsame h).2⟩, fun h => (hsame h).1⟩

end calls

/-- **When a transfer into a file agrees with one into memory.** -/
theorem file_agrees_iff (d : Disconnection) {os : List (Read 2048)} (buffer : Buffer) (e : Engine)
    {r : HttpResponseFile} (hready : r.Ready) {h : Head} {rest : Bytes} (hhigh : h.status < 300)
    (hsplit : (pieces e.httpType os (buffer 0)).1.flatten = h.text ++ rest) :
    Agrees r.disk.created (receive d os buffer e r) (receive d os buffer e r.toHttpResponse) ↔
      FlushHarmless h (pieces e.httpType os (buffer 0)) := by
  obtain ⟨c⟩ := head_pieces hsplit
  obtain ⟨r₁, hflushes, hbase, hspools⟩ := hready.spools.flushes hready.empty c.pre.length
  have hempty : r₁.body = [] := by rw [hbase, hready.empty]
  rw [receive_carried_head d buffer e c hflushes,
    receive_carried_head d buffer e c (flushes_self _ r.toHttpResponse), ← hbase]
  constructor
  · rintro ⟨-, htallies⟩
    rcases h.announcement with ⟨v, found, bad⟩ | ⟨v, n, found, number, zero⟩ | ⟨size, awaits⟩
    · exact .bad found bad
    · exact .empty found number zero
    · refine .body awaits ((harmless_behind c size _).mpr ?_)
      exact (body_tallies d e hempty hspools hhigh awaits).1.mp htallies
  · intro hharmless
    cases hharmless with
    | bad found bad =>
      obtain ⟨hasked, htallies⟩ := bad_tallies d e hempty hspools hhigh found bad c.part c.post
      exact ⟨by rw [hasked], htallies⟩
    | empty found number zero =>
      obtain ⟨hasked, htallies⟩ :=
        empty_tallies d e hempty hspools hhigh found number zero c.part c.post
      exact ⟨by rw [hasked], htallies⟩
    | body awaits harmless =>
      have hparts := (harmless_behind c _ _).mp harmless
      obtain ⟨htallies, hasked⟩ := body_tallies d e hempty hspools hhigh awaits
      exact ⟨by rw [hasked hparts], htallies.mpr hparts⟩

/-- A new response for a URL with a file component. -/
def fileStart : HttpResponseFile :=
  (HttpResponseFile.new ⟨[str "f"], [], [], [], []⟩).setURL (str "http://a/f")

theorem fileStart_ready : fileStart.Ready := by
  have hwilling : (HttpResponseFile.new ⟨[str "f"], [], [], [], []⟩).disk.Willing :=
    Disk.willing_nil [str "f"] []
  have hparts : urlParts (str "http://a/f") = some ⟨str "http", str "a", [], str "/", str "f", []⟩ := by
    decide
  exact ready_setURL hwilling hparts (by decide)

/-- A head that announces five body bytes. -/
def fiveBytes : Head where
  version := str "HTTP/1.0"
  code := str "200"
  status := 200
  reason := str "OK\r"
  lines := [str "Content-Length: 5\r"]
  last := str "\r"
  version_ok := http10_ok
  code_ok := code200_word
  status_ok := code200_status
  reason_ok := reasonOk_line
  lines_ok := by decide
  last_ok := crLine_ok

/-- The whole of a response in one read. -/
def helloWhole : List (Read 2048) :=
  [.data ⟨fiveBytes.text ++ str "hello", by decide, by decide⟩, .error .eof]

theorem file_agrees_iff_hello :
    Agrees [] (receive ⟨none, none⟩ helloWhole (fun _ => 0) .new fileStart)
        (receive ⟨none, none⟩ helloWhole (fun _ => 0) .new fileStart.toHttpResponse) ↔
      FlushHarmless fiveBytes ([fiveBytes.text ++ str "hello"], some (.systemError .eof)) := by
  have hsplit : (pieces Engine.new.httpType helloWhole 0).1.flatten =
      fiveBytes.text ++ str "hello" := by decide
  exact file_agrees_iff ⟨none, none⟩ (fun _ => 0) .new fileStart_ready (by decide) hsplit

/-- The same response, its body in two reads. -/
def helloCut : List (Read 2048) :=
  [.data ⟨fiveBytes.text ++ str "he", by decide, by decide⟩,
    .data ⟨str "llo", by decide, by decide⟩, .error .eof]

/-- In memory the call stops with the body; over a file it reads the end of the
stream. -/
theorem file_differs_hello : fileStart.Ready ∧
    (pieces Engine.new.httpType helloCut 0).1.flatten = fiveBytes.text ++ str "hello" ∧
    200 ≤ fiveBytes.status ∧ fiveBytes.status < 300 ∧
    ¬ Agrees [] (receive ⟨none, none⟩ helloCut (fun _ => 0) .new fileStart)
      (receive ⟨none, none⟩ helloCut (fun _ => 0) .new fileStart.toHttpResponse) := by
  refine ⟨fileStart_ready, by decide, by decide, by decide, fun h => ?_⟩
  have hcount := congrArg List.length h.consumed
  rw [receive, receive, receiveLoop_asked, receiveLoop_asked] at hcount
  exact absurd hcount (by decide)

end Anetd
