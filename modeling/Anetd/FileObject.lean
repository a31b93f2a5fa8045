import Anetd.FileResponse
import Anetd.ParseBody
import Anetd.UrlText

/-!
# The response and its stream

A `http_response_file` keeps its flag `opened` beside a stream that is open or
not by itself. `FileObject` has both. Whatever is called, they never differ
(`Reached.merged`), so the object does what `HttpResponseFile` does, which has
the flag alone. `openFile_fresh` says where a file is created, and
`run_conserves` that every byte is in the file or still in the body.
-/

namespace Anetd

open Lib.Machine

/-- A `http_response_file` and whether its stream `is_open`. -/
structure FileObject extends HttpResponseFile where
  streamOpen : Bool
  deriving DecidableEq

namespace FileObject

/-- `http_response_file::CloseFile`. -/
def closeFile (o : FileObject) : FileObject :=
  { o with opened := false, filepath := [], filename := [], streamOpen := false }

/-- `http_response_file::reset`. -/
def reset (o : FileObject) : FileObject :=
  let o := closeFile { o with filename := [] }
  { o with toHttpResponse := o.toHttpResponse.reset }

/-- The constructor, over a disk and whatever `opened` holds before it is set. -/
def new (opened : Bool) (disk : Disk) : FileObject := reset ⟨⟨.new, [], [], opened, disk⟩, false⟩

/-- `http_response_file::completed`. -/
def completed (o : FileObject) : FileObject := o.closeFile

def setURL (o : FileObject) (url : Bytes) : FileObject :=
  { o with
    toHttpResponse := o.toHttpResponse.setURL url
    filename := ((urlParts url).map UrlParts.file).getD o.filename }

/-- `setBody(char)`. -/
def setBodyChar (o : FileObject) (c : Byte) : FileObject :=
  { o with toHttpResponse := o.toHttpResponse.setBody c }

/-- `setBody(std::string)`. -/
def setBodyString (o : FileObject) (mybod : Bytes) : FileObject :=
  { o with toHttpResponse := o.toHttpResponse.append mybod }

/-- `http_response_file::OpenFile`. A stream that is open does not open again,
and stays open. -/
def openFile (o : FileObject) : Except Exn Bool × FileObject :=
  if o.opened then (.ok true, o)
  else
    match o.disk.lookUp o.filename with
    | (false, disk) => (.error .filesystemError, { o with filepath := o.filename, disk := disk })
    | (true, disk) =>
      let filepath := o.disk.freePath o.filename
      let (isOpen, disk) := if o.streamOpen then (true, disk) else disk.create filepath
      let o := { o with filepath := filepath, disk := disk, streamOpen := isOpen }
      if isOpen then (.ok true, { o with opened := true }) else (.ok false, o)

/-- `http_response_file::flush`. Nothing can be written to a stream that is not open. -/
def flush (o : FileObject) : Except (Exn × FileObject) FileObject :=
  match o.openFile with
  | (.error x, o) => .error (x, o)
  | (.ok false, o) => .ok o
  | (.ok true, o) =>
    let (done, disk) := if o.streamOpen then o.disk.write o.body else (false, o.disk)
    let o := { o with disk := disk }
    if done then .ok { o with toHttpResponse := o.toHttpResponse.clearBody }
    else .error (.iosFailure, o)

/-! ## The flag and the stream -/

/-- The object whose stream is open when its flag says so. -/
def ofFile (r : HttpResponseFile) : FileObject := ⟨r, r.opened⟩

/-- The flag and the stream agree. -/
def Merged (o : FileObject) : Prop := o.streamOpen = o.opened

theorem Merged.eq_ofFile {o : FileObject} (h : o.Merged) : o = ofFile o.toHttpResponseFile := by
  rw [ofFile, ← h]

theorem merged_ofFile (r : HttpResponseFile) : (ofFile r).Merged := rfl

@[simp] theorem reset_eq (o : FileObject) : o.reset = ofFile o.toHttpResponseFile.reset := rfl

@[simp] theorem closeFile_eq (o : FileObject) : o.closeFile = ofFile o.toHttpResponseFile.closeFile :=
  rfl

@[simp] theorem setURL_ofFile (r : HttpResponseFile) (url : Bytes) :
    (ofFile r).setURL url = ofFile (r.setURL url) := rfl

/-- `OpenFile` returns the flag, or throws and leaves it unset. -/
theorem openFile_opened (r : HttpResponseFile) :
    r.openFile.1 = .ok r.openFile.2.opened ∨
      r.openFile.1 = .error .filesystemError ∧ r.openFile.2.opened = false := by
  rcases r.openFile_cases with ⟨hopened, h⟩ | ⟨hclosed, -, h⟩ | ⟨-, -, -, h⟩ | ⟨hclosed, -, -, h⟩ |
    ⟨hclosed, -, -, h⟩
  · rw [h]
    exact .inl (congrArg Except.ok hopened.symm)
  · rw [h]
    exact .inl (congrArg Except.ok hclosed.symm)
  · rw [h]
    exact .inl rfl
  · rw [h]
    exact .inl (congrArg Except.ok hclosed.symm)
  · rw [h]
    exact .inr ⟨rfl, hclosed⟩

@[simp] theorem openFile_ofFile (r : HttpResponseFile) :
    (ofFile r).openFile = (r.openFile.1, ofFile r.openFile.2) := by
  cases hopened : r.opened with
  | true => simp only [openFile, HttpResponseFile.openFile, ofFile, hopened, if_true]
  | false =>
    simp only [openFile, HttpResponseFile.openFile, ofFile, hopened, Bool.false_eq_true, if_false]
    rcases r.disk.lookUp r.filename with ⟨found, disk⟩
    cases found with
    | false => rfl
    | true =>
      dsimp only
      rcases disk.create (r.disk.freePath r.filename) with ⟨done, disk⟩
      cases done <;> rfl

/-- **While flag and stream agree, the object flushes as if there were only the flag.** -/
theorem flush_ofFile (r : HttpResponseFile) :
    (ofFile r).flush = (r.flush.map ofFile).mapError fun x => (x.1, ofFile x.2) := by
  have hopened := openFile_opened r
  unfold flush HttpResponseFile.flush
  rw [openFile_ofFile]
  rcases hopen : r.openFile with ⟨x | done, base, filename, filepath, opened, disk⟩
  · rfl
  · rw [hopen] at hopened
    obtain rfl : done = opened := Except.ok.inj (hopened.resolve_right fun h => nomatch h.1)
    cases done with
    | false => rfl
    | true =>
      simp only [ofFile, if_true]
      rcases disk.write base.body with ⟨_ | _, written⟩ <;> rfl

/-! ## What is written -/

/-- The calls on an object between a `reset` and the next `completed`. -/
inductive Call where
  | setBodyChar (c : Byte)
  | setBodyString (mybod : Bytes)
  | flush
  | setURL (url : Bytes)

def Call.run (o : FileObject) : Call → Except (Exn × FileObject) FileObject
  | .setBodyChar c => .ok (o.setBodyChar c)
  | .setBodyString mybod => .ok (o.setBodyString mybod)
  | .flush => o.flush
  | .setURL url => .ok (o.setURL url)

/-- What a call passes to `setBody`. -/
def Call.passes : Call → Bytes
  | .setBodyChar c => [c]
  | .setBodyString mybod => mybod
  | .flush | .setURL _ => []

/-- All that has been passed is in the body, or in the one file behind those
there were before and in the body behind it. -/
structure Accounted (before : List (Bytes × Bytes)) (passed : Bytes) (r : HttpResponseFile) :
    Prop where
  progress : r.progress = passed.length
  file : (r.opened = false ∧ r.disk.created = before ∧ r.body = passed) ∨
    (r.opened = true ∧ ∃ path content, r.disk.created = (path, content) :: before ∧
      content ++ r.body = passed)
  writes : ∀ answer ∈ r.disk.writes, answer = true

section accounted
variable {before : List (Bytes × Bytes)} {passed : Bytes} {r : HttpResponseFile}

theorem accounted_reset (r : HttpResponseFile) (h : ∀ answer ∈ r.disk.writes, answer = true) :
    Accounted r.disk.created [] r.reset :=
  ⟨rfl, .inl ⟨rfl, rfl, rfl⟩, h⟩

theorem Accounted.append (h : Accounted before passed r) (bs : Bytes) :
    Accounted before (passed ++ bs) { r with toHttpResponse := r.toHttpResponse.append bs } := by
  refine ⟨?_, ?_, h.writes⟩
  · rw [List.length_append, ← h.progress]
    rfl
  · rcases h.file with ⟨hclosed, hcreated, hbody⟩ | ⟨hopened, path, content, hcreated, hpassed⟩
    · exact .inl ⟨hclosed, hcreated, congrArg (· ++ bs) hbody⟩
    · refine .inr ⟨hopened, path, content, hcreated, ?_⟩
      rw [← hpassed, List.append_assoc]
      rfl

/-- A file is opened at most once, and empty. -/
theorem Accounted.openFile (h : Accounted before passed r) :
    Accounted before passed r.openFile.2 ∧ r.openFile.2.disk.lookups ⊆ r.disk.lookups := by
  rcases r.openFile_cases with ⟨-, hopen⟩ | ⟨-, -, hopen⟩ | ⟨hclosed, -, -, hopen⟩ |
    ⟨-, -, -, hopen⟩ | ⟨-, -, -, hopen⟩
  · rw [hopen]
    exact ⟨h, fun _ ha => ha⟩
  · rw [hopen]
    exact ⟨⟨h.progress, h.file, h.writes⟩, fun _ ha => ha⟩
  · rw [hopen]
    rcases h.file with ⟨-, hcreated, hbody⟩ | ⟨hopened, -⟩
    · refine ⟨⟨h.progress, .inr ⟨rfl, r.disk.freePath r.filename, [], ?_, hbody⟩, h.writes⟩,
        fun _ ha => List.mem_of_mem_tail ha⟩
      exact congrArg (_ :: ·) hcreated
    · cases hclosed.symm.trans hopened
  · rw [hopen]
    exact ⟨⟨h.progress, h.file, h.writes⟩, fun _ ha => List.mem_of_mem_tail ha⟩
  · rw [hopen]
    exact ⟨⟨h.progress, h.file, h.writes⟩, fun _ ha => List.mem_of_mem_tail ha⟩

/-- **A flush moves bytes, or leaves them**; it throws when no path can be looked up. -/
theorem Accounted.flush (h : Accounted before passed r) :
    Both (fun x => x.1 = .filesystemError ∧ Accounted before passed x.2 ∧
        false ∈ r.disk.lookups)
      (fun r' => Accounted before passed r' ∧ r'.disk.lookups ⊆ r.disk.lookups) r.flush := by
  obtain ⟨hafter, hlookups⟩ := h.openFile
  have hopened := openFile_opened r
  rcases hopen : r.openFile with ⟨x | _ | _, r'⟩
  · rw [HttpResponseFile.flush_lost hopen]
    rw [hopen] at hafter hopened
    refine ⟨Except.error.inj (hopened.resolve_left fun h => nomatch h).1, hafter, ?_⟩
    rcases r.openFile_cases with ⟨-, h⟩ | ⟨-, -, h⟩ | ⟨-, -, -, h⟩ | ⟨-, -, -, h⟩ |
      ⟨-, -, hlost, -⟩
    · cases hopen.symm.trans h
    · cases hopen.symm.trans h
    · cases hopen.symm.trans h
    · cases hopen.symm.trans h
    · cases hanswers : r.disk.lookups with
      | nil =>
        rw [hanswers] at hlost
        cases hlost
      | cons answer answers =>
        rw [hanswers] at hlost
        obtain rfl : answer = false := hlost
        exact List.mem_cons_self
  · rw [HttpResponseFile.flush_closed hopen]
    rw [hopen] at hafter hlookups
    exact ⟨hafter, hlookups⟩
  · rw [hopen] at hafter hlookups hopened
    obtain ⟨hprogress, hfile, hwrites⟩ : Accounted before passed r' := hafter
    have hflag : r'.opened = true :=
      (Except.ok.inj (hopened.resolve_right fun h => nomatch h.1)).symm
    have hwrite := Disk.write_all hwrites r'.body
    rw [(HttpResponseFile.flush_open hopen).trans (if_pos (Disk.headD_of_all hwrites))]
    refine ⟨⟨hprogress, ?_, ?_⟩, ?_⟩
    · rcases hfile with ⟨hclosed, -⟩ | ⟨-, path, content, hcreated, hpassed⟩
      · cases hclosed.symm.trans hflag
      · refine .inr ⟨hflag, path, content ++ r'.body, ?_, ?_⟩
        · simp only [hwrite, hcreated, List.modifyHead_cons]
        · rw [← hpassed]
          exact List.append_nil _
    · intro answer hanswer
      rw [hwrite] at hanswer
      exact hwrites answer (List.mem_of_mem_tail hanswer)
    · rw [hwrite]
      exact hlookups

theorem Accounted.call (h : Accounted before passed r) (c : Call) :
    Both (fun x => ∃ r', x = (.filesystemError, ofFile r') ∧ Accounted before passed r' ∧
        false ∈ r.disk.lookups)
      (fun o => ∃ r', o = ofFile r' ∧ Accounted before (passed ++ c.passes) r' ∧
        r'.disk.lookups ⊆ r.disk.lookups) (Call.run (ofFile r) c) := by
  cases c with
  | setBodyChar c => exact ⟨_, rfl, h.append [c], fun _ ha => ha⟩
  | setBodyString mybod => exact ⟨_, rfl, h.append mybod, fun _ ha => ha⟩
  | flush =>
    have hflush := h.flush
    rw [Call.run, flush_ofFile, Call.passes, List.append_nil]
    cases hrun : r.flush with
    | error x =>
      rw [hrun] at hflush
      obtain ⟨x, r'⟩ := x
      obtain ⟨rfl, hafter, hlost⟩ := hflush
      exact ⟨r', rfl, hafter, hlost⟩
    | ok r' =>
      rw [hrun] at hflush
      exact ⟨r', rfl, hflush⟩
  | setURL url =>
    refine ⟨r.setURL url, rfl, ?_, fun _ ha => ha⟩
    rw [Call.passes, List.append_nil]
    exact ⟨h.progress, h.file, h.writes⟩

/-- The calls up to one that throws, or all of them. -/
theorem Accounted.calls (h : Accounted before passed r) (calls : List Call) :
    ∃ r' done later, calls = done ++ later ∧
      Accounted before (passed ++ done.flatMap Call.passes) r' ∧
      (later = [] ∧ run Call.run (ofFile r) calls = .ok (ofFile r') ∨
        false ∈ r.disk.lookups ∧
          run Call.run (ofFile r) calls = .error (.filesystemError, ofFile r')) := by
  induction calls generalizing r passed with
  | nil =>
    refine ⟨r, [], [], rfl, ?_, .inl ⟨rfl, rfl⟩⟩
    rwa [List.flatMap_nil, List.append_nil]
  | cons c calls ih =>
    have hcall := h.call c
    cases hrun : Call.run (ofFile r) c with
    | error x =>
      rw [hrun] at hcall
      obtain ⟨r', rfl, hafter, hlost⟩ := hcall
      refine ⟨r', [], c :: calls, rfl, ?_, .inr ⟨hlost, run_cons_error hrun calls⟩⟩
      rwa [List.flatMap_nil, List.append_nil]
    | ok o =>
      rw [hrun] at hcall
      obtain ⟨r₁, rfl, hafter, hlookups⟩ := hcall
      obtain ⟨r₂, done, later, rfl, hend, hends⟩ := ih hafter
      refine ⟨r₂, c :: done, later, rfl, ?_, ?_⟩
      · rwa [List.flatMap_cons, ← List.append_assoc]
      · rw [run_cons_ok hrun]
        exact hends.imp_right fun hthrew => ⟨hlookups hthrew.1, hthrew.2⟩

end accounted

/-- **No byte is lost or written twice**: after any calls behind a `reset`, what
is in the file and in the body is what has been passed, and there is at most
one file more than before. So it is after the calls before one that throws, for
which no path can be looked up. -/
theorem run_conserves (o : FileObject) (hwrites : ∀ answer ∈ o.disk.writes, answer = true)
    (calls : List Call) :
    ∃ o' done later files, calls = done ++ later ∧
      (later = [] ∧ run Call.run o.reset calls = .ok o' ∨
        false ∈ o.disk.lookups ∧ run Call.run o.reset calls = .error (.filesystemError, o')) ∧
      o'.disk.created = files ++ o.disk.created ∧ files.length ≤ 1 ∧
      files.flatMap Prod.snd ++ o'.body = done.flatMap Call.passes ∧
      o'.progress = (done.flatMap Call.passes).length ∧
      (o'.opened = true ↔ o'.streamOpen = true) := by
  have hreset := accounted_reset o.toHttpResponseFile hwrites
  obtain ⟨r, done, later, hcalls, ⟨hprogress, hfile, -⟩, hends⟩ := hreset.calls calls
  rw [List.nil_append] at hprogress hfile
  rcases hfile with ⟨-, hcreated, hbody⟩ | ⟨-, path, content, hcreated, hpassed⟩
  · exact ⟨ofFile r, done, later, [], hcalls, hends, hcreated, Nat.zero_le 1, hbody, hprogress,
      Iff.rfl⟩
  · refine ⟨ofFile r, done, later, [(path, content)], hcalls, hends, hcreated, Nat.le_refl 1, ?_,
      hprogress, Iff.rfl⟩
    rw [List.flatMap_singleton]
    exact hpassed

/-- The first attempt to open a file fails, and behind it the name changes. -/
def renamedCalls : List Call := [.setURL (str "http://a/f"), .setBodyString (str "ab"), .flush,
  .setURL (str "http://a/g"), .setBodyChar 99, .flush, .setBodyString (str "d")]

theorem run_conserves_renamed :
    let o := new false ⟨[], [], [], [false], [true]⟩
    (run Call.run o.reset renamedCalls).toOption.map (fun o' => (o'.disk.created, o'.body)) =
      some ([(str "g", str "abc")], str "d") ∧
    ∃ (o' : FileObject) (files : List (Bytes × Bytes)),
      run Call.run o.reset renamedCalls = .ok o' ∧ files.length ≤ 1 ∧
      files.flatMap Prod.snd ++ o'.body = str "abcd" := by
  intro o
  refine ⟨by decide, ?_⟩
  obtain ⟨o', done, later, files, hcalls, hends, -, hone, hpassed, -⟩ :=
    run_conserves o (by decide) renamedCalls
  rcases hends with ⟨rfl, hrun⟩ | ⟨hlost, -⟩
  · rw [List.append_nil] at hcalls
    rw [← hcalls] at hpassed
    exact ⟨o', files, hrun, hone, hpassed⟩
  · cases hlost

end FileObject

/-! ## Where a file is created -/

namespace Disk

variable (disk : Disk) (filename : Bytes)

theorem numbered_digit (i : Nat) : ∃ c ∈ numbered filename i, Lib.Decimal.isDigit c = true := by
  have hnumeral := Lib.Decimal.isNumeral_render i
  obtain ⟨c, cs, hrender⟩ := List.exists_cons_of_ne_nil hnumeral.nonempty
  have hc : c ∈ Lib.Decimal.render i := by
    rw [hrender]
    exact List.mem_cons_self
  exact ⟨c, List.mem_append_right _ hc, hnumeral.digits c hc⟩

/-- A name in the directory has no candidate outside it. -/
theorem candidate_slash {filename : Bytes} (h : slash ∉ filename) (k : Nat) :
    slash ∉ candidate filename k := by
  cases k with
  | zero => exact h
  | succ k =>
    simp only [candidate, numbered, List.mem_append, not_or]
    refine ⟨⟨h, by decide⟩, fun hmem => ?_⟩
    have hdigit := (Lib.Decimal.isNumeral_render (k + 1)).digits slash hmem
    cases hdigit

/-- The directory or its parent is no candidate: only the name itself can be dots. -/
theorem exists_not_candidate : ∃ path, (path = str "." ∨ path = str "..") ∧
    ∀ k, candidate filename k ≠ path := by
  have hlater (path : Bytes) (hpath : ∀ c ∈ path, Lib.Decimal.isDigit c = false) (k : Nat) :
      candidate filename (k + 1) ≠ path := by
    intro heq
    obtain ⟨c, hc, hdigit⟩ := numbered_digit filename (k + 1)
    rw [hpath c (heq ▸ hc)] at hdigit
    cases hdigit
  by_cases hname : filename = str "."
  · refine ⟨str "..", .inr rfl, fun k => ?_⟩
    cases k with
    | zero =>
      rw [candidate, hname]
      decide
    | succ k => exact hlater _ (forall_of_all (by decide)) k
  · refine ⟨str ".", .inl rfl, fun k => ?_⟩
    cases k with
    | zero => exact hname
    | succ k => exact hlater _ (forall_of_all (by decide)) k

/-- So fewer candidates are taken than there are paths. -/
theorem taken_lt (hdot : str "." ∈ disk.paths) (hdotdot : str ".." ∈ disk.paths) {n : Nat}
    (h : ∀ j, j < n → disk.pathExists (candidate filename j) = true) :
    n < disk.paths.toFinset.card := by
  obtain ⟨path, hpath, hnot⟩ := exists_not_candidate filename
  have hmem : path ∈ disk.paths.toFinset := by
    rw [List.mem_toFinset]
    rcases hpath with rfl | rfl
    · exact hdot
    · exact hdotdot
  have hsubset : (Finset.range n).image (candidate filename) ⊂ disk.paths.toFinset := by
    refine (Finset.ssubset_iff_of_subset (disk.taken_subset filename h)).mpr ⟨path, hmem, ?_⟩
    intro himage
    obtain ⟨k, -, hk⟩ := Finset.mem_image.mp himage
    exact hnot k hk
  have hcard := Finset.card_lt_card hsubset
  rwa [card_candidates] at hcard

/-- A path for a new file of a name: in the directory, not there yet, and the
name itself, or with the first number that is free. -/
structure Fresh (path : Bytes) : Prop where
  inside : slash ∉ path
  named : path ≠ []
  notDirectory : path ≠ str "." ∧ path ≠ str ".."
  free : path ∉ disk.paths
  least : path = filename ∨ (filename ∈ disk.paths ∧ ∃ k, 1 ≤ k ∧ path = numbered filename k ∧
    ∀ j, 1 ≤ j → j < k → numbered filename j ∈ disk.paths)

variable {disk filename}

theorem fresh_freePath (hdot : str "." ∈ disk.paths) (hdotdot : str ".." ∈ disk.paths)
    (hslash : slash ∉ filename) (hname : filename ≠ []) :
    disk.Fresh filename (disk.freePath filename) := by
  obtain ⟨k, hpath, hbefore, hfree⟩ := disk.freePath_least filename
  have hne : disk.freePath filename ≠ [] := fun hnil =>
    hname ((disk.freePath_eq_nil filename).mp hnil)
  rw [hpath] at hne ⊢
  have hnew : candidate filename k ∉ disk.paths := fun hmem =>
    of_decide_eq_false hfree ⟨hne, hmem⟩
  have htaken (j : Nat) (hj : j < k) : candidate filename j ∈ disk.paths :=
    (of_decide_eq_true (hbefore j hj)).2
  refine ⟨candidate_slash hslash k, hne, ⟨?_, ?_⟩, hnew, ?_⟩
  · intro heq
    rw [heq] at hnew
    exact hnew hdot
  · intro heq
    rw [heq] at hnew
    exact hnew hdotdot
  · cases k with
    | zero => exact .inl rfl
    | succ k =>
      refine .inr ⟨htaken 0 (by omega), k + 1, by omega, rfl, ?_⟩
      intro j hj hjk
      cases j with
      | zero => omega
      | succ j => exact htaken (j + 1) hjk

end Disk

namespace FileObject

/-- The objects there can be. The engine calls the virtual functions and sets
fields of the base part; others can change the file system at any time. The
URLs meant have no NUL, which would end a path for the system. -/
inductive Reached : FileObject → Prop where
  | constructed (opened : Bool) (disk : Disk) : Reached (new opened disk)
  | reset {o : FileObject} (h : Reached o) : Reached o.reset
  | setURL {o : FileObject} (h : Reached o) (url : Bytes) : Reached (o.setURL url)
  | base {o : FileObject} (h : Reached o) (b : HttpResponse) :
      Reached { o with toHttpResponse := b }
  | flushed {o o' : FileObject} (h : Reached o) (hflush : o.flush = .ok o') : Reached o'
  | threw {o o' : FileObject} {x : Exn} (h : Reached o) (hflush : o.flush = .error (x, o')) :
      Reached o'
  | completed {o : FileObject} (h : Reached o) : Reached o.completed
  | elsewhere {o : FileObject} (h : Reached o) (disk : Disk) : Reached { o with disk := disk }

/-- The flag and the stream agree, and the name has no directory. -/
structure Plain (o : FileObject) : Prop where
  merged : o.Merged
  name : slash ∉ o.filename

theorem Plain.setURL {o : FileObject} (h : o.Plain) (url : Bytes) : (o.setURL url).Plain := by
  refine ⟨h.merged, ?_⟩
  change slash ∉ ((urlParts url).map UrlParts.file).getD o.filename
  cases hparts : urlParts url with
  | none => exact h.name
  | some parts => exact urlParts_file hparts

theorem flush_filename (r : HttpResponseFile) :
    Both (fun x => x.2.filename = r.filename) (fun r' => r'.filename = r.filename) r.flush := by
  obtain ⟨-, hname⟩ := r.openFile_fields
  rcases hopen : r.openFile with ⟨x | _ | _, r'⟩
  · rw [HttpResponseFile.flush_lost hopen]
    rwa [hopen] at hname
  · rw [HttpResponseFile.flush_closed hopen]
    rwa [hopen] at hname
  · rw [HttpResponseFile.flush_open hopen]
    rw [hopen] at hname
    split <;> exact hname

theorem Plain.flush {o : FileObject} (h : o.Plain) : Both (fun x => x.2.Plain) Plain o.flush := by
  obtain ⟨r, rfl⟩ : ∃ r, o = ofFile r := ⟨o.toHttpResponseFile, h.merged.eq_ofFile⟩
  have hname := flush_filename r
  rw [flush_ofFile]
  cases hflush : r.flush with
  | error x =>
    rw [hflush] at hname
    exact ⟨merged_ofFile x.2, fun hmem => h.name (hname ▸ hmem)⟩
  | ok r' =>
    rw [hflush] at hname
    exact ⟨merged_ofFile r', fun hmem => h.name (hname ▸ hmem)⟩

theorem Reached.plain {o : FileObject} (h : o.Reached) : o.Plain := by
  have hempty : slash ∉ ([] : Bytes) := List.not_mem_nil
  induction h with
  | constructed | reset | completed => exact ⟨rfl, hempty⟩
  | setURL _ url ih => exact ih.setURL url
  | base _ _ ih | elsewhere _ _ ih => exact ⟨ih.merged, ih.name⟩
  | flushed _ hflush ih =>
    have hafter := ih.flush
    rwa [hflush] at hafter
  | threw _ hflush ih =>
    have hafter := ih.flush
    rwa [hflush] at hafter

theorem Reached.merged {o : FileObject} (h : o.Reached) : o.Merged := h.plain.merged

/-- A call of `OpenFile` that opens the stream creates a file. -/
theorem Plain.creates {o : FileObject} (h : o.Plain) (hclosed : o.streamOpen = false)
    (hopened : o.openFile.2.streamOpen = true) : o.filename ≠ [] ∧
      o.openFile.2.filepath = o.disk.freePath o.filename ∧
      o.openFile.2.disk.created = (o.disk.freePath o.filename, []) :: o.disk.created := by
  obtain ⟨r, rfl⟩ : ∃ r, o = ofFile r := ⟨o.toHttpResponseFile, h.merged.eq_ofFile⟩
  rw [openFile_ofFile] at hopened ⊢
  have hflag : r.opened = false := hclosed
  rcases r.openFile_cases with ⟨hopen, -⟩ | ⟨-, -, hopen⟩ | ⟨-, hname, -, hopen⟩ |
    ⟨-, -, -, hopen⟩ | ⟨-, -, -, hopen⟩
  · cases hflag.symm.trans hopen
  · rw [hopen] at hopened
    cases hflag.symm.trans hopened
  · rw [hopen]
    exact ⟨hname, rfl, rfl⟩
  · rw [hopen] at hopened
    cases hflag.symm.trans hopened
  · rw [hopen] at hopened
    cases hflag.symm.trans hopened

/-- **No file is overwritten, and none is outside the directory**: the loop ends
before its number leaves `int`, and a file that is opened is a new one. -/
theorem openFile_fresh {o : FileObject} (h : o.Reached) (hdot : str "." ∈ o.disk.paths)
    (hdotdot : str ".." ∈ o.disk.paths) (hfinite : o.disk.paths.toFinset.card < 2 ^ 31) :
    (∃ k, k + 1 ≤ intMax ∧
      (∀ j, j < k → o.disk.pathExists (Disk.candidate o.filename j) = true) ∧
      o.disk.pathExists (Disk.candidate o.filename k) = false ∧
      ∀ turns, k ≤ turns →
        o.disk.search o.filename turns 1 o.filename = Disk.candidate o.filename k) ∧
    (o.streamOpen = false → o.openFile.2.streamOpen = true →
      o.disk.Fresh o.filename o.openFile.2.filepath ∧
      o.openFile.2.disk.created = (o.openFile.2.filepath, []) :: o.disk.created) := by
  constructor
  · obtain ⟨k, -, hbefore, hfree⟩ := o.disk.freePath_least o.filename
    refine ⟨k, ?_, hbefore, hfree, fun turns => o.disk.search_least o.filename hbefore hfree⟩
    have hless := o.disk.taken_lt o.filename hdot hdotdot hbefore
    unfold intMax
    omega
  · intro hclosed hopened
    obtain ⟨hname, hpath, hcreated⟩ := h.plain.creates hclosed hopened
    rw [hpath]
    exact ⟨Disk.fresh_freePath hdot hdotdot h.plain.name hname, hcreated⟩

/-- A directory with one file in it. -/
def takenDisk : Disk := ⟨[str ".", str "..", str "f"], [], [], [], []⟩

/-- A URL with the name of that file gets another one. -/
theorem openFile_fresh_taken :
    let o := (new false takenDisk).setURL (str "http://a/d/f")
    o.openFile.2.filepath = str "f.1" ∧ o.disk.Fresh o.filename o.openFile.2.filepath := by
  intro o
  have hreached : o.Reached := (Reached.constructed false takenDisk).setURL (str "http://a/d/f")
  obtain ⟨-, hopens⟩ := openFile_fresh hreached (by decide) (by decide) (by decide)
  exact ⟨by decide, (hopens rfl (by decide)).1⟩

end FileObject

end Anetd
