import Anetd.Lib.Shares
import Anetd.FileObject

/-!
# One folder for all responses

A `Disk` is the file system as one response meets it. In truth there may be many
responses, and other processes, in one file system: a stream empties the file
that it opens and then writes over what is at its place, so two of them on one
path would spoil what they write. They never get there, as long as nothing comes
between the search for a path and the opening of it. Then every response does
what it would do with a disk of its own, and every file has one owner
(`folder_private`).
-/

namespace Anetd

open Lib Lib.Machine

/-! ## The file system -/

/-- What is in the files, and which paths exist that are none. -/
structure FileSystem where
  files : StringMap
  directories : List Bytes

namespace FileSystem

def paths (fs : FileSystem) : List Bytes := fs.directories ++ fs.files.entries.map Prod.fst

/-- What a response finds. -/
def found (fs : FileSystem) : Disk := ⟨fs.paths, [], [], [], []⟩

/-- `std::ofstream::open`, which empties a file that is there. -/
def truncate (fs : FileSystem) (path : Bytes) : FileSystem :=
  { fs with files := fs.files.set path [] }

/-- A content with bytes over it from a place on; a gap before the place is zeros. -/
def overlay (content : Bytes) (place : Nat) (bytes : Bytes) : Bytes :=
  content.take place ++ List.replicate (place - content.length) 0 ++ bytes ++
    content.drop (place + bytes.length)

/-- The output of a stream at its place. -/
def put (fs : FileSystem) (path : Bytes) (place : Nat) (bytes : Bytes) : FileSystem :=
  { fs with files := fs.files.set path (overlay ((fs.files.find? path).getD []) place bytes) }

theorem overlay_end (content bytes : Bytes) :
    overlay content content.length bytes = content ++ bytes := by
  simp [overlay]

theorem mem_paths {fs : FileSystem} {path : Bytes} :
    path ∈ fs.paths ↔ path ∈ fs.directories ∨ fs.files.find? path ≠ none := by
  rw [paths, List.mem_append, OrdMap.find?, OrdMap.lookup_ne_none_iff]

theorem find?_free {fs : FileSystem} {path : Bytes} (hpath : path ≠ [])
    (hfree : fs.found.pathExists path = false) : fs.files.find? path = none := by
  by_contra hthere
  refine of_decide_eq_false hfree ⟨hpath, List.mem_append_left _ ?_⟩
  exact mem_paths.mpr (.inr hthere)

end FileSystem

/-! ## A response in it -/

/-- A `http_response_file` whose disk is shared: where its stream is in the file
belongs to it, the file does not. -/
structure SharedFile extends HttpResponse where
  filename : Bytes
  filepath : Bytes
  opened : Bool
  place : Nat
  deriving DecidableEq

namespace SharedFile

/-- `http_response_file::CloseFile`. -/
def closeFile (o : SharedFile) : SharedFile :=
  { o with opened := false, filepath := [], filename := [] }

def reset (o : SharedFile) : SharedFile :=
  { o.closeFile with toHttpResponse := o.toHttpResponse.reset }

/-- The constructor. -/
def new : SharedFile := reset ⟨.new, [], [], false, 0⟩

def setURL (o : SharedFile) (url : Bytes) : SharedFile :=
  { o with
    toHttpResponse := o.toHttpResponse.setURL url
    filename := ((urlParts url).map UrlParts.file).getD o.filename }

/-- `http_response_file::OpenFile`, with whether the file system lets paths be
looked up and a file be opened. The empty path is looked up and does not open. -/
def openFile (o : SharedFile) (fs : FileSystem) (looks opens : Bool) :
    Except Exn Bool × SharedFile × FileSystem :=
  if o.opened then (.ok true, o, fs)
  else if o.filename ≠ [] ∧ ¬ looks then
    (.error .filesystemError, { o with filepath := o.filename }, fs)
  else
    let filepath := fs.found.freePath o.filename
    if filepath ≠ [] ∧ opens then
      (.ok true, { o with filepath := filepath, opened := true, place := 0 }, fs.truncate filepath)
    else (.ok false, { o with filepath := filepath }, fs)

theorem openFile_closed {o : SharedFile} (h : o.opened = false) {fs : FileSystem} {path : Bytes}
    (hpath : fs.found.freePath o.filename = path) (looks opens : Bool)
    (hlooks : o.filename = [] ∨ looks = true) : o.openFile fs looks opens =
      if path ≠ [] ∧ opens then
        (.ok true, { o with filepath := path, opened := true, place := 0 }, fs.truncate path)
      else (.ok false, { o with filepath := path }, fs) := by
  subst hpath
  have hfound : ¬ (o.filename ≠ [] ∧ ¬ looks = true) := fun hlost =>
    hlooks.elim hlost.1 hlost.2
  simp only [openFile, h, Bool.false_eq_true, if_false, hfound]

/-- `http_response_file::flush`, where every write succeeds. An exception goes to
the caller. -/
def flush (o : SharedFile) (fs : FileSystem) (looks opens : Bool) : SharedFile × FileSystem :=
  match o.openFile fs looks opens with
  | (.error _, o, fs) | (.ok false, o, fs) => (o, fs)
  | (.ok true, o, fs) =>
    ({ o with toHttpResponse := o.toHttpResponse.clearBody, place := o.place + o.body.length },
      fs.put o.filepath o.place o.body)

end SharedFile

/-- The response as it meets its disk: with what it finds there, and with what the
next attempts are answered. -/
def HttpResponseFile.meet (r : HttpResponseFile) (found : List Bytes) (looks opens : Bool) :
    HttpResponseFile :=
  { r with disk := ⟨found, r.disk.created, [looks], [opens], []⟩ }

/-- What is done to a response. -/
inductive Op where
  | setURL (url : Bytes)
  | setBodyChar (c : Byte)
  | setBodyString (mybod : Bytes)
  | flush (looks opens : Bool)
  | reset
  | completed

namespace Op

/-- In the file system that is shared. -/
def run (fs : FileSystem) (o : SharedFile) : Op → SharedFile × FileSystem
  | setURL url => (o.setURL url, fs)
  | setBodyChar c => ({ o with toHttpResponse := o.toHttpResponse.setBody c }, fs)
  | setBodyString mybod => ({ o with toHttpResponse := o.toHttpResponse.append mybod }, fs)
  | flush looks opens => o.flush fs looks opens
  | reset => (o.reset, fs)
  | completed => (o.closeFile, fs)

/-- With a disk of its own, on which certain paths are found. -/
def alone (found : List Bytes) (r : HttpResponseFile) : Op → HttpResponseFile
  | setURL url => r.setURL url
  | setBodyChar c => { r with toHttpResponse := r.toHttpResponse.setBody c }
  | setBodyString mybod => { r with toHttpResponse := r.toHttpResponse.append mybod }
  | flush looks opens =>
    match (r.meet found looks opens).flush with
    | .ok s | .error (_, s) => s
  | reset => r.reset
  | completed => r.closeFile

end Op

/-! ## Each by itself -/

/-- The search depends on nothing but which paths exist. -/
theorem Disk.freePath_congr {disk disk' : Disk}
    (h : ∀ path, disk.pathExists path = disk'.pathExists path) (filename : Bytes) :
    disk.freePath filename = disk'.freePath filename := by
  obtain ⟨k, hk, hbefore, hfree⟩ := disk.freePath_least filename
  obtain ⟨k', hk', hbefore', hfree'⟩ := disk'.freePath_least filename
  rw [hk, hk']
  rcases Nat.lt_trichotomy k k' with hlt | rfl | hgt
  · have htaken := hbefore' k hlt
    rw [← h, hfree] at htaken
    cases htaken
  · rfl
  · have htaken := hbefore k' hgt
    rw [h, hfree'] at htaken
    cases htaken

/-- The response is the other's, and its stream is at the end of the file. -/
structure SharedFile.Shows (o : SharedFile) (r : HttpResponseFile) : Prop where
  response : o.toHttpResponse = r.toHttpResponse
  filename : o.filename = r.filename
  filepath : o.filepath = r.filepath
  opened : o.opened = r.opened
  place : r.opened = true → ∃ content rest, r.disk.created = (r.filepath, content) :: rest ∧
    o.place = content.length

section alone
variable {ι : Type} {fs : FileSystem} {owned : ι → List (Bytes × Bytes)} {i : ι}
variable {o : SharedFile} {r : HttpResponseFile}

/-- Both searches end at one path. -/
theorem freePath_found {looks opens : Bool} (hs : Shares fs.files owned)
    (hi : owned i = r.disk.created) (filename : Bytes) :
    (r.meet fs.paths looks opens).disk.freePath filename = fs.found.freePath filename := by
  refine Disk.freePath_congr (fun path => ?_) filename
  have hmem : path ∈ (r.meet fs.paths looks opens).disk.paths ↔ path ∈ fs.found.paths := by
    simp only [HttpResponseFile.meet, Disk.paths, FileSystem.found, List.mem_append, List.map_nil,
      List.append_nil]
    refine ⟨fun h => h.elim id fun hcreated => ?_, .inl⟩
    obtain ⟨⟨q, content⟩, hfile, rfl⟩ := List.mem_map.mp hcreated
    have hthere := (hs.entries q content).mpr ⟨i, hi ▸ hfile⟩
    exact FileSystem.mem_paths.mpr (.inr (by simp [hthere]))
  simp only [Disk.pathExists, hmem]

variable [DecidableEq ι]

/-- **They open alike**, and a file that is opened is new. -/
theorem openFile_alone (h : o.Shows r) (hs : Shares fs.files owned)
    (hi : owned i = r.disk.created) (looks opens : Bool) :
    let a := o.openFile fs looks opens
    let b := (r.meet fs.paths looks opens).openFile
    a.1 = b.1 ∧ a.2.1.Shows b.2 ∧ b.2.disk.writes = [] ∧
      Shares a.2.2.files (Function.update owned i b.2.disk.created) := by
  have hpath : (r.meet fs.paths looks opens).disk.freePath r.filename =
      fs.found.freePath r.filename := freePath_found hs hi r.filename
  have hsearch : fs.found.freePath o.filename = fs.found.freePath r.filename := by rw [h.filename]
  have hsame := hs.same hi
  rcases (r.meet fs.paths looks opens).openFile_cases with ⟨hopened, hopen⟩ |
    ⟨hclosed, hname, hopen⟩ | ⟨hclosed, hname, ⟨hlooks, hopens⟩, hopen⟩ |
    ⟨hclosed, hname, ⟨hlooks, hopens⟩, hopen⟩ | ⟨hclosed, hname, hlooks, hopen⟩
  · have ho : o.openFile fs looks opens = (.ok true, o, fs) := by
      rw [SharedFile.openFile, h.opened]
      exact if_pos hopened
    simp only [ho, hopen]
    exact ⟨trivial, ⟨h.response, h.filename, h.filepath, h.opened, h.place⟩, rfl, hsame⟩
  · have hnil : fs.found.freePath o.filename = [] :=
      (Disk.freePath_eq_nil _ _).mpr (h.filename.trans hname)
    have ho := (SharedFile.openFile_closed (h.opened.trans hclosed) hnil looks opens
      (.inl (h.filename.trans hname))).trans (if_neg fun hfound => hfound.1 rfl)
    simp only [ho, hopen]
    refine ⟨trivial, ⟨h.response, h.filename, rfl, h.opened, fun hopened => ?_⟩, rfl, hsame⟩
    cases hclosed.symm.trans hopened
  · obtain rfl : opens = true := hopens
    have hsome : fs.found.freePath r.filename ≠ [] := mt (Disk.freePath_eq_nil _ _).mp hname
    have hfree : fs.files.find? (fs.found.freePath r.filename) = none :=
      FileSystem.find?_free hsome (fs.found.freePath_free r.filename)
    have ho := (SharedFile.openFile_closed (h.opened.trans hclosed) hsearch looks true
      (.inr hlooks)).trans (if_pos ⟨hsome, rfl⟩)
    simp only [ho, hopen, HttpResponseFile.afterOpen]
    refine ⟨trivial, ⟨h.response, h.filename, hpath.symm, rfl, fun _ => ?_⟩, rfl, ?_⟩
    · exact ⟨[], r.disk.created, rfl, rfl⟩
    · change Shares _ (Function.update owned i
        (((r.meet fs.paths looks true).disk.freePath r.filename, []) :: r.disk.created))
      rw [hpath, ← hi]
      exact hs.add hfree i []
  · obtain rfl : opens = false := hopens
    have ho := (SharedFile.openFile_closed (h.opened.trans hclosed) hsearch looks false
      (.inr hlooks)).trans (if_neg fun hfound => Bool.false_ne_true hfound.2)
    simp only [ho, hopen, HttpResponseFile.afterRefusal]
    refine ⟨trivial, ⟨h.response, h.filename, hpath.symm, h.opened, fun hopened => ?_⟩, rfl, hsame⟩
    cases hclosed.symm.trans hopened
  · obtain rfl : looks = false := hlooks
    have hnamed : o.filename ≠ [] := fun hnil => hname (h.filename.symm.trans hnil)
    have ho : o.openFile fs false opens =
        (.error .filesystemError, { o with filepath := o.filename }, fs) := by
      rw [SharedFile.openFile, if_neg (by rw [h.opened.trans hclosed]; exact Bool.false_ne_true),
        if_pos ⟨hnamed, Bool.false_ne_true⟩]
    simp only [ho, hopen, HttpResponseFile.afterLookUp]
    refine ⟨trivial, ⟨h.response, h.filename, h.filename, h.opened, fun hopened => ?_⟩, rfl, hsame⟩
    cases hclosed.symm.trans hopened

/-- **They flush alike**, and what is written goes to the end of a file of its own. -/
theorem flush_alone (h : o.Shows r) (hs : Shares fs.files owned) (hi : owned i = r.disk.created)
    (looks opens : Bool) :
    let r' := (Op.flush looks opens).alone fs.paths r
    (o.flush fs looks opens).1.Shows r' ∧
      Shares (o.flush fs looks opens).2.files (Function.update owned i r'.disk.created) := by
  obtain ⟨hdone, hshows, hwrites, hshares⟩ := openFile_alone h hs hi looks opens
  have hopened := FileObject.openFile_opened (r.meet fs.paths looks opens)
  rcases ho : o.openFile fs looks opens with ⟨done, o', fs'⟩
  rcases hr : (r.meet fs.paths looks opens).openFile with ⟨done', s⟩
  simp only [ho, hr] at hdone hshows hwrites hshares hopened
  subst hdone
  rcases done with x | _ | _
  · simp only [SharedFile.flush, Op.alone, ho, HttpResponseFile.flush_lost hr]
    exact ⟨hshows, hshares⟩
  · simp only [SharedFile.flush, Op.alone, ho, HttpResponseFile.flush_closed hr]
    exact ⟨hshows, hshares⟩
  · have hflag : s.opened = true :=
      (Except.ok.inj (hopened.resolve_right fun h => nomatch h.1)).symm
    obtain ⟨content, rest, hcreated, hplace⟩ := hshows.place hflag
    have hflush := HttpResponseFile.flush_open hr
    rw [hwrites, List.headD_nil, if_pos rfl] at hflush
    have hwrite : (s.disk.write s.body).2.created = (s.filepath, content ++ s.body) :: rest := by
      simp only [Disk.write, hwrites, List.headD_nil, if_true, hcreated, List.modifyHead_cons]
    have hput : fs'.put o'.filepath o'.place o'.body =
        { fs' with files := fs'.files.set s.filepath (content ++ s.body) } := by
      have hthere : fs'.files.find? s.filepath = some content :=
        (hshares.entries _ _).mpr ⟨i, by simp [hcreated]⟩
      rw [FileSystem.put, hshows.filepath, hthere, hplace, Option.getD_some,
        FileSystem.overlay_end, hshows.response]
    have hchanged := hshares.change (by rw [Function.update_self, hcreated]) (content ++ s.body)
    simp only [SharedFile.flush, Op.alone, ho, hflush, hput, hwrite]
    refine ⟨⟨congrArg HttpResponse.clearBody hshows.response, hshows.filename, hshows.filepath,
      hshows.opened, fun _ => ⟨content ++ s.body, rest, hwrite, ?_⟩⟩, ?_⟩
    · rw [hplace, hshows.response, List.length_append]
    · rwa [Function.update_idem] at hchanged

/-- **Nothing that is done to a response shows that its disk is shared.** -/
theorem run_alone (h : o.Shows r) (hs : Shares fs.files owned) (hi : owned i = r.disk.created)
    (op : Op) :
    (op.run fs o).1.Shows (op.alone fs.paths r) ∧
      Shares (op.run fs o).2.files
        (Function.update owned i (op.alone fs.paths r).disk.created) := by
  have hsame := hs.same hi
  cases op with
  | flush looks opens => exact flush_alone h hs hi looks opens
  | setURL url =>
    refine ⟨⟨?_, ?_, h.filepath, h.opened, h.place⟩, hsame⟩
    · exact congrArg (·.setURL url) h.response
    · exact congrArg (((urlParts url).map UrlParts.file).getD ·) h.filename
  | setBodyChar c =>
    exact ⟨⟨congrArg (·.setBody c) h.response, h.filename, h.filepath, h.opened, h.place⟩, hsame⟩
  | setBodyString mybod =>
    exact ⟨⟨congrArg (·.append mybod) h.response, h.filename, h.filepath, h.opened, h.place⟩, hsame⟩
  | reset =>
    exact ⟨⟨congrArg HttpResponse.reset h.response, rfl, rfl, rfl,
      fun hopened => (by cases hopened)⟩, hsame⟩
  | completed =>
    exact ⟨⟨h.response, rfl, rfl, rfl, fun hopened => (by cases hopened)⟩, hsame⟩

end alone

/-! ## The folder -/

/-- Responses in one file system. -/
structure Folder where
  fs : FileSystem
  objects : Nat → SharedFile

namespace Folder

/-- A call on a response, or a file that another process makes. -/
inductive Act where
  | op (i : Nat) (action : Op)
  | appears (path content : Bytes)

def Act.on (i : Nat) : Act → Option Op
  | .op j action => if j = i then some action else none
  | .appears _ _ => none

def Act.appeared : Act → Option (Bytes × Bytes)
  | .op _ _ => none
  | .appears path content => some (path, content)

def step (d : Folder) : Act → Except Unit Folder
  | .op i action =>
    let x := action.run d.fs (d.objects i)
    .ok ⟨x.2, Function.update d.objects i x.1⟩
  | .appears path content =>
    if path = [] ∨ d.fs.found.pathExists path = true then .error ()
    else .ok { d with fs := { d.fs with files := d.fs.files.set path content } }

/-- The start, with no response used yet. -/
def new (fs : FileSystem) : Folder := ⟨fs, fun _ => .new⟩

/-! ## All together -/

/-- A response that has only been through its own calls, on a disk of its own,
whatever it has found there. -/
inductive Met : List Op → HttpResponseFile → Prop where
  | new : Met [] (.new ⟨[], [], [], [], []⟩)
  | op {ops : List Op} {r : HttpResponseFile} (h : Met ops r) (found : List Bytes) (action : Op) :
      Met (ops ++ [action]) (action.alone found r)

/-- Whose the files are: the others' or a response's. -/
def owned (others : List (Bytes × Bytes)) (views : Nat → HttpResponseFile) :
    Option Nat → List (Bytes × Bytes)
  | none => others
  | some i => (views i).disk.created

theorem owned_update (others : List (Bytes × Bytes)) (views : Nat → HttpResponseFile) (i : Nat)
    (r : HttpResponseFile) : owned others (Function.update views i r) =
      Function.update (owned others views) (some i) r.disk.created := by
  funext who
  cases who with
  | none => rfl
  | some j =>
    by_cases hj : j = i
    · subst hj
      simp [owned]
    · simp [owned, hj]

theorem owned_others (others : List (Bytes × Bytes)) (views : Nat → HttpResponseFile)
    (file : Bytes × Bytes) : owned (file :: others) views =
      Function.update (owned others views) none (file :: others) := by
  funext who
  cases who <;> simp [owned]

/-- The folder is divided, and each response stands where it would stand alone. -/
structure Divided (fs : FileSystem) (acts : List Act) (views : Nat → HttpResponseFile)
    (d : Folder) : Prop where
  met : ∀ i, Met (acts.filterMap (Act.on i)) (views i)
  shows : ∀ i, (d.objects i).Shows (views i)
  shares : Shares d.fs.files
    (owned ((acts.filterMap Act.appeared).reverse ++ fs.files.entries) views)

section run
variable {fs : FileSystem} {acts : List Act} {views : Nat → HttpResponseFile} {d d' : Folder}

theorem divided_new (fs : FileSystem) :
    Divided fs [] (fun _ => .new ⟨[], [], [], [], []⟩) (new fs) where
  met _ := .new
  shows _ := ⟨rfl, rfl, rfl, rfl, fun hopened => (by cases hopened)⟩
  shares := by
    refine .of_entries (i := none) rfl fun who hwho => ?_
    cases who with
    | none => exact absurd rfl hwho
    | some i => rfl

theorem Divided.step (h : Divided fs acts views d) {a : Act} (hd : d.step a = .ok d') :
    ∃ views', Divided fs (acts ++ [a]) views' d' := by
  cases a with
  | op i action =>
    cases hd
    have hon (j : Nat) (hj : j ≠ i) : Act.on j (.op i action) = none := if_neg (Ne.symm hj)
    have hown : Act.on i (.op i action) = some action := if_pos rfl
    have hothers : Act.appeared (.op i action) = none := rfl
    obtain ⟨hshows, hshares⟩ := run_alone (i := some i) (h.shows i) h.shares rfl action
    refine ⟨Function.update views i (action.alone d.fs.paths (views i)), fun j => ?_,
      fun j => ?_, ?_⟩
    · by_cases hj : j = i
      · subst hj
        simpa [hown] using (h.met j).op d.fs.paths action
      · simpa [hon j hj, hj] using h.met j
    · by_cases hj : j = i
      · subst hj
        simpa using hshows
      · simpa [hj] using h.shows j
    · rw [owned_update]
      simpa [hothers] using hshares
  | appears path content =>
    simp only [Folder.step] at hd
    split at hd
    · cases hd
    · rename_i hnew
      cases hd
      obtain ⟨hpath, hnew⟩ := not_or.mp hnew
      have hfree := FileSystem.find?_free hpath (Bool.eq_false_iff.mpr hnew)
      have hon (j : Nat) : Act.on j (.appears path content) = none := rfl
      have hothers : Act.appeared (.appears path content) = some (path, content) := rfl
      refine ⟨views, fun j => ?_, h.shows, ?_⟩
      · simpa [hon j] using h.met j
      · have hnewest : ((acts ++ [Act.appears path content]).filterMap Act.appeared).reverse =
            (path, content) :: (acts.filterMap Act.appeared).reverse := by simp [hothers]
        rw [hnewest, List.cons_append, owned_others]
        exact h.shares.add hfree none content

/-- **One folder for all responses.** Whatever is done to them in which order, and
whatever files others make meanwhile, each response has been through its own
calls on a disk of its own, and the files of all these disks are apart from each
other, from those that were there and from those the others made. -/
theorem folder_private (h : run step (new fs) acts = .ok d) :
    ∃ views, Divided fs acts views d := by
  induction acts using List.reverseRecOn generalizing d with
  | nil =>
    cases h
    exact ⟨_, divided_new fs⟩
  | append_singleton acts a ih =>
    obtain ⟨u, hu, ha⟩ := run_append_eq_ok h
    rw [run_singleton] at ha
    obtain ⟨views, hdivided⟩ := ih hu
    exact hdivided.step ha

end run

/-! ## One name for two responses -/

/-- Two responses write by turns what is at the same URL, and another process
takes the name that the second one would have got. -/
def twoActs : List Act :=
  [.op 0 (.setURL (str "http://a/f")), .op 1 (.setURL (str "http://b/f")),
    .op 0 (.setBodyString (str "ab")), .op 0 (.flush true true), .appears (str "f.1") (str "x"),
    .op 1 (.setBodyString (str "1")), .op 1 (.flush true true), .op 0 (.setBodyChar 99),
    .op 0 (.flush true true), .op 1 (.setBodyString (str "23")), .op 1 (.flush true true)]

def emptyFolder : FileSystem := ⟨∅, [str ".", str ".."]⟩

theorem folder_private_two : ∃ d views, run step (new emptyFolder) twoActs = .ok d ∧
    d.fs.files.entries = [(str "f", str "abc"), (str "f.1", str "x"), (str "f.2", str "123")] ∧
    Divided emptyFolder twoActs views d := by
  have hfiles : (run step (new emptyFolder) twoActs).toOption.map (fun d => d.fs.files.entries) =
      some [(str "f", str "abc"), (str "f.1", str "x"), (str "f.2", str "123")] := by
    decide +kernel
  cases hrun : run step (new emptyFolder) twoActs with
  | error x =>
    rw [hrun] at hfiles
    cases hfiles
  | ok d =>
    rw [hrun] at hfiles
    obtain ⟨views, hdivided⟩ := folder_private hrun
    exact ⟨d, views, rfl, Option.some.inj hfiles, hdivided⟩

end Folder

end Anetd
