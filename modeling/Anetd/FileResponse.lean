import Mathlib.Data.Finset.Card
import Anetd.Response
import Anetd.Url

/-!
# The response in a file

`http_response_file`, which hands its body on to a file at every `flush`, and
what it needs of the file system: which paths are taken, and whether a file can
be opened and written. A name that is taken gets a number behind it, and
`freePath_free` says that the search for one ends at a path that is free.
-/

namespace Anetd

/-- The file system as one response object meets it: the paths that it finds,
the files it has created with what is in them, the newest first, and whether
its next searches for a path, its next attempts to open a file and those to
write to it succeed. All later ones do. -/
structure Disk where
  existing : List Bytes
  created : List (Bytes × Bytes)
  lookups : List Bool
  opens : List Bool
  writes : List Bool
  deriving DecidableEq

namespace Disk

def paths (disk : Disk) : List Bytes := disk.existing ++ disk.created.map Prod.fst

/-- `boost::filesystem::exists`. The empty path is none. -/
def pathExists (disk : Disk) (path : Bytes) : Bool := path ≠ [] ∧ path ∈ disk.paths

/-- `this->filename + "." + lexical_cast<std::string>(i)`. -/
def numbered (filename : Bytes) (i : Nat) : Bytes := filename ++ str "." ++ Lib.Decimal.render i

/-- The `while` loop of `OpenFile` from a path and a number on, for at most so
many turns. -/
def search (disk : Disk) (filename : Bytes) : Nat → Nat → Bytes → Bytes
  | 0, _, filepath => filepath
  | turns + 1, i, filepath =>
    if disk.pathExists filepath then search disk filename turns (i + 1) (numbered filename i)
    else filepath

/-- The path the loop ends at. -/
def freePath (disk : Disk) (filename : Bytes) : Bytes :=
  disk.search filename disk.paths.length 1 filename

/-- Whether the loop can look its paths up: `exists` throws for one it cannot,
as for one that is too long, but never for the empty path. -/
def lookUp (disk : Disk) (filename : Bytes) : Bool × Disk :=
  if filename = [] then (true, disk)
  else (disk.lookups.headD true, { disk with lookups := disk.lookups.tail })

/-- `file.open(filepath)` for a path that is free. The empty path does not open. -/
def create (disk : Disk) (filepath : Bytes) : Bool × Disk :=
  if filepath = [] then (false, disk)
  else if disk.opens.headD true then
    (true, { disk with
      opens := disk.opens.tail
      created := (filepath, []) :: disk.created })
  else (false, { disk with opens := disk.opens.tail })

/-- `file << bytes` and `file.flush()`; the open file is the one created last. -/
def write (disk : Disk) (bytes : Bytes) : Bool × Disk :=
  if disk.writes.headD true then
    (true, { disk with
      writes := disk.writes.tail
      created := disk.created.modifyHead fun file => (file.1, file.2 ++ bytes) })
  else (false, { disk with writes := disk.writes.tail })

end Disk

/-- The state of a `http_response_file`. Its `file` is open when `opened` says
so: the two change together. No write on it has failed: what a failed write
leaves in the buffer of the stream, which then throws whenever it is used, is
not in this state. -/
structure HttpResponseFile extends HttpResponse where
  filename : Bytes
  filepath : Bytes
  opened : Bool
  disk : Disk
  deriving DecidableEq

/-- `this->body.clear()`. -/
def HttpResponse.clearBody (r : HttpResponse) : HttpResponse := { r with body := [] }

namespace HttpResponseFile

/-- `http_response_file::CloseFile`. -/
def closeFile (r : HttpResponseFile) : HttpResponseFile :=
  { r with opened := false, filepath := [], filename := [] }

def reset (r : HttpResponseFile) : HttpResponseFile :=
  { r.closeFile with toHttpResponse := r.toHttpResponse.reset }

/-- The constructor, over a disk. -/
def new (disk : Disk) : HttpResponseFile := reset ⟨.new, [], [], false, disk⟩

/-- The file component of a URL becomes the file name; a URL without parts
leaves the old one. -/
def setURL (r : HttpResponseFile) (url : Bytes) : HttpResponseFile :=
  { r with
    toHttpResponse := r.toHttpResponse.setURL url
    filename := ((urlParts url).map UrlParts.file).getD r.filename }

/-- `http_response_file::OpenFile`. A file that does not open is logged; a path
that cannot be looked up makes it throw. -/
def openFile (r : HttpResponseFile) : Except Exn Bool × HttpResponseFile :=
  if r.opened then (.ok true, r)
  else
    match r.disk.lookUp r.filename with
    | (false, disk) => (.error .filesystemError, { r with filepath := r.filename, disk := disk })
    | (true, disk) =>
      let filepath := r.disk.freePath r.filename
      let (done, disk) := disk.create filepath
      (.ok done, { r with filepath := filepath, opened := done, disk := disk })

/-- `http_response_file::flush`. The stream throws when it cannot write, and
the body is then not cleared. -/
def flush (r : HttpResponseFile) : Except (Exn × HttpResponseFile) HttpResponseFile :=
  match r.openFile with
  | (.error x, r) => .error (x, r)
  | (.ok false, r) => .ok r
  | (.ok true, r) =>
    match r.disk.write r.body with
    | (true, disk) => .ok { r with disk := disk, toHttpResponse := r.toHttpResponse.clearBody }
    | (false, disk) => .error (.iosFailure, { r with disk := disk })

end HttpResponseFile

namespace Disk

theorem headD_of_all {answers : List Bool} (h : ∀ answer ∈ answers, answer = true) :
    answers.headD true = true := by
  cases answers with
  | nil => rfl
  | cons answer answers => exact h answer List.mem_cons_self

/-- A write that succeeds. -/
theorem write_all {disk : Disk} (h : ∀ answer ∈ disk.writes, answer = true) (bytes : Bytes) :
    disk.write bytes = (true, { disk with
      writes := disk.writes.tail
      created := disk.created.modifyHead fun file => (file.1, file.2 ++ bytes) }) := by
  simp only [write, headD_of_all h, if_true]

/-! ## The search for a path -/

/-- The paths that the search tries, by number. -/
def candidate (filename : Bytes) : Nat → Bytes
  | 0 => filename
  | i + 1 => numbered filename (i + 1)

theorem candidate_injective (filename : Bytes) : Function.Injective (candidate filename) := by
  have hnumbered (i : Nat) : filename.length < (numbered filename i).length := by
    have hdot : 0 < (str ".").length := by decide
    simp only [numbered, List.length_append]
    omega
  intro i j h
  cases i with
  | zero =>
    cases j with
    | zero => rfl
    | succ j =>
      have hlength := congrArg List.length h
      have := hnumbered (j + 1)
      simp only [candidate] at hlength
      omega
  | succ i =>
    cases j with
    | zero =>
      have hlength := congrArg List.length h
      have := hnumbered (i + 1)
      simp only [candidate] at hlength
      omega
    | succ j =>
      have hrender := List.append_cancel_left h
      rw [← (Lib.Decimal.isNumeral_render (i + 1)).denotes, hrender,
        (Lib.Decimal.isNumeral_render (j + 1)).denotes]

variable (disk : Disk) (filename : Bytes)

/-- The search passes over candidates that exist, and stops at one that does
not or after its turns. -/
theorem search_candidate (turns i : Nat) :
    ∃ k, disk.search filename turns (i + 1) (candidate filename i) = candidate filename k ∧
      i ≤ k ∧ k ≤ i + turns ∧
      (∀ j, i ≤ j → j < k → disk.pathExists (candidate filename j) = true) ∧
      (k < i + turns → disk.pathExists (candidate filename k) = false) := by
  induction turns generalizing i with
  | zero => exact ⟨i, rfl, by omega, by omega, fun j _ _ => by omega, fun _ => by omega⟩
  | succ turns ih =>
    rw [search]
    split
    · rename_i hexists
      obtain ⟨k, hk, hlow, hhigh, hbefore, hfree⟩ := ih (i + 1)
      refine ⟨k, hk, by omega, by omega, fun j hj hjk => ?_, fun hlt => hfree (by omega)⟩
      by_cases hji : j = i
      · rw [hji]
        exact hexists
      · exact hbefore j (by omega) hjk
    · rename_i hexists
      exact ⟨i, rfl, by omega, by omega, fun j _ _ => by omega, fun _ => by simpa using hexists⟩

theorem card_candidates (n : Nat) : ((Finset.range n).image (candidate filename)).card = n := by
  rw [Finset.card_image_of_injective _ (candidate_injective filename), Finset.card_range]

/-- Candidates that are taken are paths on the disk. -/
theorem taken_subset {n : Nat}
    (h : ∀ j, j < n → disk.pathExists (candidate filename j) = true) :
    (Finset.range n).image (candidate filename) ⊆ disk.paths.toFinset := by
  intro path hpath
  obtain ⟨j, hj, rfl⟩ := Finset.mem_image.mp hpath
  have htaken := h j (Finset.mem_range.mp hj)
  exact List.mem_toFinset.mpr (of_decide_eq_true htaken).2

/-- **The search ends at a path that is free**: not every candidate can be taken. -/
theorem freePath_free : disk.pathExists (disk.freePath filename) = false := by
  obtain ⟨k, hk, -, hhigh, hbefore, hfree⟩ := disk.search_candidate filename disk.paths.length 0
  have hpath : disk.freePath filename = candidate filename k := hk
  rw [hpath]
  cases hexists : disk.pathExists (candidate filename k) with
  | false => rfl
  | true =>
    have hall : k = disk.paths.length := by
      rcases Nat.lt_or_ge k (0 + disk.paths.length) with hlt | hge
      · rw [hfree hlt] at hexists
        cases hexists
      · omega
    -- every path on the disk would be a candidate, and there is one candidate more
    have htaken : ∀ j, j < k + 1 → disk.pathExists (candidate filename j) = true := by
      intro j hj
      rcases Nat.lt_succ_iff_lt_or_eq.mp hj with hlt | rfl
      · exact hbefore j (by omega) hlt
      · exact hexists
    have hsubset := Finset.card_le_card (disk.taken_subset filename htaken)
    rw [card_candidates] at hsubset
    have hcard := List.toFinset_card_le disk.paths
    omega

/-- It is the first candidate that is free. -/
theorem freePath_least : ∃ k, disk.freePath filename = candidate filename k ∧
    (∀ j, j < k → disk.pathExists (candidate filename j) = true) ∧
    disk.pathExists (candidate filename k) = false := by
  obtain ⟨k, hk, -, -, hbefore, -⟩ := disk.search_candidate filename disk.paths.length 0
  have hpath : disk.freePath filename = candidate filename k := hk
  refine ⟨k, hpath, fun j hj => hbefore j (Nat.zero_le j) hj, ?_⟩
  rw [← hpath]
  exact disk.freePath_free filename

/-- **More turns do not change where the loop ends.** -/
theorem search_least {k : Nat}
    (hbefore : ∀ j, j < k → disk.pathExists (candidate filename j) = true)
    (hfree : disk.pathExists (candidate filename k) = false) {turns : Nat} (hturns : k ≤ turns) :
    disk.search filename turns 1 filename = candidate filename k := by
  obtain ⟨k', hk', -, -, hbefore', hfree'⟩ := disk.search_candidate filename turns 0
  have hsame : k' = k := by
    rcases Nat.lt_trichotomy k' k with hlt | heq | hgt
    · have hstopped := hfree' (by omega)
      rw [hbefore k' hlt] at hstopped
      cases hstopped
    · exact heq
    · rw [hbefore' k (Nat.zero_le k) hgt] at hfree
      cases hfree
  rw [← hsame]
  exact hk'

/-- It is the name, or the name with a number behind it. -/
theorem freePath_named : disk.freePath filename = filename ∨
    ∃ k, disk.freePath filename = numbered filename k := by
  obtain ⟨k, hk, -⟩ := disk.freePath_least filename
  cases k with
  | zero => exact .inl hk
  | succ k => exact .inr ⟨k + 1, hk⟩

theorem freePath_eq_nil : disk.freePath filename = [] ↔ filename = [] := by
  constructor
  · intro h
    rcases disk.freePath_named filename with hname | ⟨k, hname⟩
    · rw [← hname, h]
    · simp [hname, numbered, str] at h
  · rintro rfl
    rw [freePath]
    cases disk.paths.length with
    | zero => rfl
    | succ n => simp [search, pathExists]

end Disk

instance : ResponseClass HttpResponseFile where
  base := HttpResponseFile.toHttpResponse
  update f r := { r with toHttpResponse := f r.toHttpResponse }
  reset := HttpResponseFile.reset
  setURL := HttpResponseFile.setURL
  flush := HttpResponseFile.flush
  completed := HttpResponseFile.closeFile

namespace HttpResponseFile

variable (r : HttpResponseFile)

/-! ## What a flush does -/

/-- The response with a new file open. -/
def afterOpen : HttpResponseFile :=
  { r with
    filepath := r.disk.freePath r.filename
    opened := true
    disk := { r.disk with
      lookups := r.disk.lookups.tail
      opens := r.disk.opens.tail
      created := (r.disk.freePath r.filename, []) :: r.disk.created } }

/-- The response when the file did not open. -/
def afterRefusal : HttpResponseFile :=
  { r with
    filepath := r.disk.freePath r.filename
    disk := { r.disk with lookups := r.disk.lookups.tail, opens := r.disk.opens.tail } }

/-- The response when no path could be looked up. -/
def afterLookUp : HttpResponseFile :=
  { r with filepath := r.filename, disk := { r.disk with lookups := r.disk.lookups.tail } }

/-- **What opening can do**: there is a file already, or there is no name for
one, or a new one is created, or it cannot be, or no path can be looked up. -/
theorem openFile_cases :
    (r.opened = true ∧ r.openFile = (.ok true, r)) ∨
    (r.opened = false ∧ r.filename = [] ∧ r.openFile = (.ok false, { r with filepath := [] })) ∨
    (r.opened = false ∧ r.filename ≠ [] ∧
      (r.disk.lookups.headD true = true ∧ r.disk.opens.headD true = true) ∧
      r.openFile = (.ok true, r.afterOpen)) ∨
    (r.opened = false ∧ r.filename ≠ [] ∧
      (r.disk.lookups.headD true = true ∧ r.disk.opens.headD true = false) ∧
      r.openFile = (.ok false, r.afterRefusal)) ∨
    (r.opened = false ∧ r.filename ≠ [] ∧ r.disk.lookups.headD true = false ∧
      r.openFile = (.error .filesystemError, r.afterLookUp)) := by
  have hnil := r.disk.freePath_eq_nil r.filename
  cases hopened : r.opened with
  | true => exact .inl ⟨rfl, by simp only [openFile, hopened, if_true]⟩
  | false =>
    right
    by_cases hname : r.filename = []
    · have hpath : r.disk.freePath r.filename = [] := hnil.mpr hname
      have hlook : r.disk.lookUp r.filename = (true, r.disk) := if_pos hname
      refine .inl ⟨rfl, hname, ?_⟩
      simp only [openFile, hopened, Bool.false_eq_true, if_false, hlook, Disk.create, hpath, if_true]
    · right
      have hpath : r.disk.freePath r.filename ≠ [] := fun h => hname (hnil.mp h)
      have hlook : r.disk.lookUp r.filename =
          (r.disk.lookups.headD true, { r.disk with lookups := r.disk.lookups.tail }) :=
        if_neg hname
      cases hfound : r.disk.lookups.headD true with
      | false =>
        refine .inr (.inr ⟨rfl, hname, rfl, ?_⟩)
        simp only [openFile, hopened, Bool.false_eq_true, if_false, hlook, hfound, afterLookUp]
      | true =>
        cases hcreate : r.disk.opens.headD true with
        | true =>
          refine .inl ⟨rfl, hname, ⟨rfl, rfl⟩, ?_⟩
          simp only [openFile, hopened, Bool.false_eq_true, if_false, hlook, hfound, Disk.create,
            hpath, hcreate, if_true, afterOpen]
        | false =>
          refine .inr (.inl ⟨rfl, hname, ⟨rfl, rfl⟩, ?_⟩)
          simp only [openFile, hopened, Bool.false_eq_true, if_false, hlook, hfound, Disk.create,
            hpath, hcreate, afterRefusal]

theorem openFile_fields : r.openFile.2.toHttpResponse = r.toHttpResponse ∧
    r.openFile.2.filename = r.filename := by
  rcases r.openFile_cases with ⟨-, h⟩ | ⟨-, -, h⟩ | ⟨-, -, -, h⟩ | ⟨-, -, -, h⟩ | ⟨-, -, -, h⟩ <;>
    rw [h] <;> exact ⟨rfl, rfl⟩

/-- A flush of an open file writes the body. -/
theorem flush_open {r r' : HttpResponseFile} (hopen : r.openFile = (.ok true, r')) :
    r.flush = if r'.disk.writes.headD true then
        .ok { r' with
          disk := (r'.disk.write r'.body).2
          toHttpResponse := r'.toHttpResponse.clearBody }
      else .error (.iosFailure, { r' with disk := (r'.disk.write r'.body).2 }) := by
  cases hwrite : r'.disk.writes.headD true <;>
    simp only [flush, hopen, Disk.write, hwrite, if_true, Bool.false_eq_true, if_false]

/-- Without a file it leaves the body. -/
theorem flush_closed {r r' : HttpResponseFile} (hopen : r.openFile = (.ok false, r')) :
    r.flush = .ok r' := by
  simp only [flush, hopen]

/-- Without a path it throws. -/
theorem flush_lost {r r' : HttpResponseFile} {x : Exn} (hopen : r.openFile = (.error x, r')) :
    r.flush = .error (x, r') := by
  simp only [flush, hopen]

/-- A flush leaves the body alone or takes all of it, and touches no other field
of the base class. -/
theorem flush_base {r r' : HttpResponseFile} (h : r.flush = .ok r') :
    r'.filename = r.filename ∧ (r'.toHttpResponse = r.toHttpResponse ∨
      r'.toHttpResponse = r.toHttpResponse.clearBody) := by
  obtain ⟨hbase, hname⟩ := r.openFile_fields
  rcases hopen : r.openFile with ⟨x | _ | _, s⟩
  · rw [flush_lost hopen] at h
    cases h
  · rw [hopen] at hbase hname
    rw [flush_closed hopen] at h
    cases h
    exact ⟨hname, .inl hbase⟩
  · rw [hopen] at hbase hname
    rw [flush_open hopen] at h
    split at h
    · cases h
      exact ⟨hname, .inr (congrArg HttpResponse.clearBody hbase)⟩
    · cases h

end HttpResponseFile

instance : LawfulResponse HttpResponseFile where
  base_update _ _ := rfl
  base_setURL _ _ := rfl
  base_flush h := by
    obtain ⟨-, hbase⟩ := HttpResponseFile.flush_base h
    simp only [base]
    rcases hbase with hbase | hbase
    · simp [hbase]
    · simp [hbase, HttpResponse.clearBody]

section
variable (r : HttpResponseFile)

@[simp] theorem base_file : base r = r.toHttpResponse := rfl

@[simp] theorem update_file (f : HttpResponse → HttpResponse) :
    update f r = { r with toHttpResponse := f r.toHttpResponse } := rfl

@[simp] theorem flush_file : ResponseClass.flush r = r.flush := rfl

@[simp] theorem completed_file : ResponseClass.completed r = r.closeFile := rfl

end

end Anetd
