import Anetd.FileResponse
import Anetd.History

/-!
# The files of a transfer

A `http_response_file` creates files and writes to the one it has open. Over all
the states of a transfer (`files_kept`): a file that has been closed is written
no more, a file that is open is appended to, and no byte of what has been passed
is lost or written twice.
-/

namespace Anetd

open Lib.Machine

namespace HttpResponseFile

/-- All that has been passed: what is in the files, the oldest first, and behind
it what is still in memory. -/
def passed (r : HttpResponseFile) : Bytes := r.disk.created.reverse.flatMap Prod.snd ++ r.body

/-- The files are at paths of their own, which no other file had; the one that is
open is among them, and no write to it will fail. -/
structure OnDisk (r : HttpResponseFile) : Prop where
  distinct : (r.disk.created.map Prod.fst).Nodup
  free : ∀ path ∈ r.disk.created.map Prod.fst, path ∉ r.disk.existing
  opened : r.opened = true → ∃ content before, r.disk.created = (r.filepath, content) :: before
  writes : ∀ answer ∈ r.disk.writes, answer = true

/-- Later files: new ones, and the newest before them with more in it, if it was
open; one that is open now was open, or is new. -/
def Later (a b : HttpResponseFile) : Prop :=
  ∃ new more, b.disk.created =
      new ++ a.disk.created.modifyHead (fun file => (file.1, file.2 ++ more)) ∧
    (a.opened = false → more = []) ∧ (b.opened = true → a.opened = true ∨ new ≠ [])

/-- A later state of a transfer. -/
structure Extends (a b : HttpResponseFile) : Prop where
  existing : b.disk.existing = a.disk.existing
  files : a.Later b
  passed : a.passed <+: b.passed
  progress : a.progress + b.passed.length = b.progress + a.passed.length

variable {a b c r : HttpResponseFile}

theorem modifyHead_nil (files : List (Bytes × Bytes)) :
    files.modifyHead (fun file => (file.1, file.2 ++ [])) = files := by
  cases files with
  | nil => rfl
  | cons file files =>
    rw [List.modifyHead_cons, List.append_nil]

theorem modifyHead_append (files : List (Bytes × Bytes)) (more more' : Bytes) :
    (files.modifyHead (fun file => (file.1, file.2 ++ more))).modifyHead
        (fun file => (file.1, file.2 ++ more')) =
      files.modifyHead (fun file => (file.1, file.2 ++ (more ++ more'))) := by
  cases files with
  | nil => rfl
  | cons file files => simp only [List.modifyHead_cons, List.append_assoc]

theorem Later.of_same (hcreated : b.disk.created = a.disk.created)
    (hopened : b.opened = true → a.opened = true) : a.Later b :=
  ⟨[], [], by rw [hcreated, modifyHead_nil]; rfl, fun _ => rfl, fun h => .inl (hopened h)⟩

theorem Later.trans (hab : a.Later b) (hbc : b.Later c) : a.Later c := by
  obtain ⟨new, more, hb, hmore, hopened⟩ := hab
  obtain ⟨new', more', hc, hmore', hopened'⟩ := hbc
  cases new with
  | nil =>
    -- one file is written to all along
    refine ⟨new', more ++ more', ?_, fun hclosed => ?_, fun hopen => ?_⟩
    · rw [hc, hb, List.nil_append, modifyHead_append]
    · have hstill : b.opened = false := by
        cases hopen : b.opened with
        | false => rfl
        | true => rcases hopened hopen with h | h
                  · cases hclosed.symm.trans h
                  · exact absurd rfl h
      rw [hmore hclosed, hmore' hstill]
      rfl
    · rcases hopened' hopen with h | h
      · exact .inl ((hopened h).resolve_right (fun h => h rfl))
      · exact .inr h
  | cons file new =>
    refine ⟨new' ++ (file.1, file.2 ++ more') :: new, more, ?_, hmore, fun _ => .inr (by simp)⟩
    rw [hc, hb, List.cons_append, List.modifyHead_cons, List.append_assoc, List.cons_append]

namespace Extends

theorem of_same (hdisk : b.disk.created = a.disk.created)
    (hexisting : b.disk.existing = a.disk.existing) (hbody : b.body = a.body)
    (hprogress : b.progress = a.progress) (hopened : b.opened = true → a.opened = true) :
    a.Extends b := by
  have hpassed : b.passed = a.passed := by rw [HttpResponseFile.passed, hdisk, hbody]; rfl
  refine ⟨hexisting, .of_same hdisk hopened, ?_, by rw [hpassed, hprogress]⟩
  rw [hpassed]

theorem refl (r : HttpResponseFile) : r.Extends r := of_same rfl rfl rfl rfl fun h => h

theorem trans (hab : a.Extends b) (hbc : b.Extends c) : a.Extends c where
  existing := hbc.existing.trans hab.existing
  files := hab.files.trans hbc.files
  passed := hab.passed.trans hbc.passed
  progress := by
    have h₁ := hab.progress
    have h₂ := hbc.progress
    omega

end Extends

/-! ## A flush -/

theorem OnDisk.openFile (h : r.OnDisk) :
    r.openFile.2.OnDisk ∧ r.Extends r.openFile.2 ∧
      (r.openFile.1 = .ok true → r.openFile.2.opened = true) := by
  rcases r.openFile_cases with ⟨hopened, hopen⟩ | ⟨hclosed, -, hopen⟩ | ⟨-, hname, -, hopen⟩ |
    ⟨hclosed, -, -, hopen⟩ | ⟨hclosed, -, -, hopen⟩
  · rw [hopen]
    exact ⟨h, .refl r, fun _ => hopened⟩
  · rw [hopen]
    exact ⟨⟨h.distinct, h.free, fun hopened => (by cases hclosed.symm.trans hopened), h.writes⟩,
      .of_same rfl rfl rfl rfl fun h => h, fun h => by cases h⟩
  · rw [hopen]
    -- a file is created, at a path that is free
    have hpath : r.disk.freePath r.filename ≠ [] := fun hnil =>
      hname ((r.disk.freePath_eq_nil r.filename).mp hnil)
    have hfree : r.disk.freePath r.filename ∉ r.disk.paths := fun hmem => by
      have hexists := r.disk.freePath_free r.filename
      rw [Disk.pathExists, decide_eq_false_iff_not] at hexists
      exact hexists ⟨hpath, hmem⟩
    rw [Disk.paths, List.mem_append, not_or] at hfree
    refine ⟨⟨List.nodup_cons.mpr ⟨hfree.2, h.distinct⟩, ?_, fun _ => ⟨[], _, rfl⟩, h.writes⟩, ?_,
      fun _ => rfl⟩
    · intro path hmem
      rcases List.mem_cons.mp hmem with rfl | hold
      · exact hfree.1
      · exact h.free path hold
    · have hpassed : r.afterOpen.passed = r.passed := by
        simp only [HttpResponseFile.passed, afterOpen, List.reverse_cons, List.flatMap_append,
          List.flatMap_cons, List.flatMap_nil, List.append_nil]
      refine ⟨rfl, ⟨[(r.disk.freePath r.filename, [])], [], ?_, fun _ => rfl, fun _ => .inr (by simp)⟩,
        ?_, by rw [hpassed]; rfl⟩
      · rw [modifyHead_nil]
        rfl
      · rw [hpassed]
  · rw [hopen]
    exact ⟨⟨h.distinct, h.free, fun hopened => (by cases hclosed.symm.trans hopened), h.writes⟩,
      .of_same rfl rfl rfl rfl fun h => h, fun h => by cases h⟩
  · rw [hopen]
    exact ⟨⟨h.distinct, h.free, fun hopened => (by cases hclosed.symm.trans hopened), h.writes⟩,
      .of_same rfl rfl rfl rfl fun h => h, fun h => by cases h⟩

/-- The response with its body written behind the open file. -/
theorem OnDisk.write (h : r.OnDisk) (hopened : r.opened = true) :
    let s : HttpResponseFile := { r with
      disk := { r.disk with
        writes := r.disk.writes.tail
        created := r.disk.created.modifyHead fun file => (file.1, file.2 ++ r.body) }
      toHttpResponse := r.toHttpResponse.clearBody }
    s.OnDisk ∧ r.Extends s := by
  obtain ⟨content, before, hcreated⟩ := h.opened hopened
  have hpaths : (r.disk.created.modifyHead fun file => (file.1, file.2 ++ r.body)).map Prod.fst =
      r.disk.created.map Prod.fst := by
    rw [hcreated]
    rfl
  intro s
  refine ⟨⟨?_, ?_, fun _ => ⟨content ++ r.body, before, ?_⟩,
    fun answer ha => h.writes answer (List.mem_of_mem_tail ha)⟩, ?_⟩
  · change (List.map Prod.fst (r.disk.created.modifyHead _)).Nodup
    rw [hpaths]
    exact h.distinct
  · intro path hmem
    exact h.free path (hpaths ▸ hmem)
  · simp only [s, hcreated, List.modifyHead_cons]
  · have hpassed (s : HttpResponseFile) (hs : s.disk.created =
          r.disk.created.modifyHead fun file => (file.1, file.2 ++ r.body)) (hbody : s.body = []) :
        s.passed = r.passed := by
      rw [HttpResponseFile.passed, hs, hbody, hcreated, HttpResponseFile.passed, hcreated]
      simp only [List.modifyHead_cons, List.reverse_cons, List.flatMap_append, List.flatMap_cons,
        List.flatMap_nil, List.append_nil, List.append_assoc]
    refine ⟨rfl, ⟨[], r.body, rfl, fun hclosed => ?_, fun _ => .inl hopened⟩, ?_, ?_⟩
    · cases hclosed.symm.trans hopened
    · have hsame := hpassed s rfl rfl
      rw [hsame]
    · have hsame := hpassed s rfl rfl
      rw [hsame]
      rfl

/-- **A flush.** -/
theorem OnDisk.flush (h : r.OnDisk) :
    Both (fun x => x.2.OnDisk ∧ r.Extends x.2) (fun s => s.OnDisk ∧ r.Extends s) r.flush := by
  obtain ⟨hopened, hextends, hdone⟩ := h.openFile
  rcases hopen : r.openFile with ⟨x | _ | _, s⟩
  · rw [hopen] at hopened hextends
    rw [flush_lost hopen]
    exact ⟨hopened, hextends⟩
  · rw [hopen] at hopened hextends
    rw [flush_closed hopen]
    exact ⟨hopened, hextends⟩
  · rw [hopen] at hopened hextends hdone
    obtain ⟨hkept, hmore⟩ := OnDisk.write hopened (hdone rfl)
    rw [flush_open hopen, if_pos (Disk.headD_of_all hopened.writes),
      Disk.write_all hopened.writes]
    exact ⟨hkept, hextends.trans hmore⟩

/-! ## All that a transfer does -/

theorem Extends.edit {f : HttpResponse → HttpResponse} (hf : Edit f) (r : HttpResponseFile) :
    r.Extends (update f r) := by
  cases hf <;> exact .of_same rfl rfl rfl rfl fun h => h

theorem Extends.setBody (r : HttpResponseFile) (c : Byte) :
    r.Extends (update (fun b => b.setBody c) r) := by
  have hpassed : (update (fun b => b.setBody c) r).passed = r.passed ++ [c] :=
    (List.append_assoc _ _ _).symm
  refine ⟨rfl, .of_same rfl fun h => h, ?_, ?_⟩
  · rw [hpassed]
    exact List.prefix_append _ _
  · rw [hpassed, List.length_append, List.length_singleton]
    simp only [update_file, HttpResponse.setBody]
    omega

theorem ascends_onDisk : Ascends OnDisk Extends where
  stable :=
    { edit := fun _ _ h => ⟨h.distinct, h.free, h.opened, h.writes⟩
      setURL := fun _ _ h => ⟨h.distinct, h.free, h.opened, h.writes⟩
      completed := fun _ h => ⟨h.distinct, h.free, fun hopened => (by cases hopened), h.writes⟩
      body := fun _ _ h => ⟨h.distinct, h.free, h.opened, h.writes⟩
      flush := fun _ h => h.flush.imp (fun _ hx => hx.1) (fun _ hs => hs.1) }
  trans := Extends.trans
  edit r _ hf := .edit hf r
  body r c _ := .setBody r c
  setURL _ _ _ := .of_same rfl rfl rfl rfl fun h => h
  flush _ h := h.flush.imp (fun _ hx => hx.2) (fun _ hs => hs.2)
  completed _ _ := .of_same rfl rfl rfl rfl fun h => by cases h

end HttpResponseFile

/-- **The files of a transfer**, over all its states and on all of its hops, where
the disk takes what is written: no file that was there is touched, every new one
has a path of its own, a file is only appended to, and only while it is open;
what has been passed is in the files and in memory, in order and once. -/
theorem files_kept {env : Environment} {net : Network} {calls : Nat}
    {w v : World HttpResponseFile} {result : Except Stop Unit} (hw : w.response.OnDisk)
    (h : connect env net calls w = some (result, v)) :
    ∃ r, connect env net calls w.record = some (result, r) ∧ r.present = v ∧
      r.response.states.Pairwise HttpResponseFile.Extends ∧
      ∀ s ∈ r.response.states, s.OnDisk := by
  obtain ⟨r, hrecord, hpresent⟩ := w.recording h
  exact ⟨r, hrecord, hpresent, HttpResponseFile.ascends_onDisk.connect hw hrecord⟩

/-- A page behind a redirect, into a directory that has another file. -/
theorem files_kept_moved : ∃ result r,
    connect ⟨[], []⟩ moving 2
        (World.record ⟨.new, (HttpResponseFile.new ⟨[str "b"], [], [], [], []⟩).setURL movedUrl, []⟩) =
        some (result, r) ∧
      r.response.present.disk.created = [(str "c", str "abc")] ∧
      r.response.states.Pairwise HttpResponseFile.Extends := by
  have hends : (connect ⟨[], []⟩ moving 2
      ⟨.new, (HttpResponseFile.new ⟨[str "b"], [], [], [], []⟩).setURL movedUrl, []⟩).map
        (fun x => x.2.response.disk.created) = some [(str "c", str "abc")] := by
    decide +kernel
  obtain ⟨⟨result, v⟩, hconnect, hcreated⟩ := Option.map_eq_some_iff.mp hends
  have honDisk : ((HttpResponseFile.new ⟨[str "b"], [], [], [], []⟩).setURL movedUrl).OnDisk := by
    refine ⟨List.nodup_nil, ?_, ?_, ?_⟩
    · intro path hmem
      cases hmem
    · intro hopened
      cases hopened
    · intro answer hanswer
      cases hanswer
  obtain ⟨r, hrecord, rfl, hextends, -⟩ := files_kept honDisk hconnect
  exact ⟨result, r, hrecord, hcreated, hextends⟩

end Anetd
