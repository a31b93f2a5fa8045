import Anetd.Callback
import Anetd.Completion

/-!
# The name of the file

A flush opens the file under the name it then finds, also between two reads of
a head. A redirect changes the name, and leaves a file that is open as it is.
So what a transfer leaves on the disk depends on where its heads are cut:
`files_named` says when it is no more than a file for the final URL.
-/

namespace Anetd

open Lib.Machine

/-- The name, or the name with a number behind it. -/
def NamedAfter (name path : Bytes) : Prop := path = name ∨ ∃ k, path = Disk.numbered name k

/-- A write goes to the file created last. -/
theorem Disk.write_created {disk : Disk} {path content : Bytes} {before : List (Bytes × Bytes)}
    (h : disk.created = (path, content) :: before) (bytes : Bytes) :
    ∃ content', (disk.write bytes).2.created = (path, content') :: before := by
  cases hwrite : disk.writes.headD true with
  | true => exact ⟨content ++ bytes, by simp only [write, hwrite, if_true, h, List.modifyHead_cons]⟩
  | false => exact ⟨content, by simp only [write, hwrite, Bool.false_eq_true, if_false, h]⟩

/-- No file is opened in so many flushes: the disk refuses to, each time, or one
of them finds no path and is the last. -/
def Disk.Refuses : Nat → List Bool → List Bool → Prop
  | 0, _, _ => True
  | n + 1, lookups, opens => lookups.headD true = false ∨
      opens.headD true = false ∧ Disk.Refuses n lookups.tail opens.tail

theorem Disk.Refuses.fewer {n : Nat} {lookups opens : List Bool}
    (h : Disk.Refuses (n + 1) lookups opens) : Disk.Refuses n lookups opens := by
  induction n generalizing lookups opens with
  | zero => trivial
  | succ n ih => exact h.imp_right fun hlater => ⟨hlater.1, ih hlater.2⟩

namespace HttpResponseFile

/-- A response that has its URL, but neither a file nor a final status. -/
structure Addressed (r : HttpResponseFile) : Prop where
  closed : r.opened = false
  low : r.status < 300
  named : ∀ parts, urlParts r.url = some parts → r.filename = parts.file

/-- So has every response that is reset and given a URL. -/
theorem addressed_setURL (r : HttpResponseFile) (url : Bytes) : (r.reset.setURL url).Addressed where
  closed := rfl
  low := Int.ofNat_lt.mpr (by decide)
  named parts hparts := by
    have hurl : urlParts url = some parts := hparts
    simp [setURL, hurl]

/-- The response and the disk within a call for some URL: no file, or one more
than there were, under the name that goes with it. -/
structure Current (url name : Bytes) (before : List (Bytes × Bytes)) (r : HttpResponseFile) :
    Prop where
  url : r.url = url
  low : r.status < 300
  filename : r.filename = name
  file : (r.opened = false ∧ r.disk.created = before) ∨ (r.opened = true ∧
    ∃ path content, r.disk.created = (path, content) :: before ∧ NamedAfter name path)

variable {url name : Bytes} {before : List (Bytes × Bytes)} {r : HttpResponseFile}

theorem Addressed.current (h : r.Addressed) : r.Current r.url r.filename r.disk.created :=
  ⟨rfl, h.low, rfl, .inl ⟨h.closed, rfl⟩⟩

theorem Current.update (h : r.Current url name before) {f : HttpResponse → HttpResponse}
    (hurl : (f r.toHttpResponse).url = r.url) (hlow : (f r.toHttpResponse).status < 300) :
    (update f r).Current url name before :=
  ⟨hurl.trans h.url, hlow, h.filename, h.file⟩

theorem Current.openFile (h : r.Current url name before) :
    r.openFile.2.Current url name before ∧
      (r.openFile.1 = .ok true → r.openFile.2.opened = true) := by
  rcases r.openFile_cases with ⟨hopened, hopen⟩ | ⟨hclosed, -, hopen⟩ | ⟨hclosed, -, -, hopen⟩ |
    ⟨hclosed, -, -, hopen⟩ | ⟨hclosed, -, -, hopen⟩
  · rw [hopen]
    exact ⟨h, fun _ => hopened⟩
  · rw [hopen]
    exact ⟨⟨h.url, h.low, h.filename, h.file⟩, fun hdone => by cases hdone⟩
  · rw [hopen]
    refine ⟨⟨h.url, h.low, h.filename, .inr ⟨rfl, r.disk.freePath r.filename, [], ?_, ?_⟩⟩,
      fun _ => rfl⟩
    · rcases h.file with ⟨-, hcreated⟩ | ⟨hopened, -⟩
      · simp only [afterOpen, hcreated]
      · rw [hclosed] at hopened
        cases hopened
    · rw [← h.filename]
      exact r.disk.freePath_named r.filename
  · rw [hopen]
    exact ⟨⟨h.url, h.low, h.filename, h.file⟩, fun hdone => by cases hdone⟩
  · rw [hopen]
    exact ⟨⟨h.url, h.low, h.filename, h.file⟩, fun hdone => by cases hdone⟩

/-- **A flush opens no file but one with the current name.** -/
theorem Current.flush (h : r.Current url name before) :
    Both (fun x => x.2.Current url name before) (Current url name before) r.flush := by
  obtain ⟨hcurrent, hopened⟩ := h.openFile
  rcases hopen : r.openFile with ⟨x | _ | _, r'⟩
  · rw [hopen] at hcurrent
    rw [flush_lost hopen]
    exact hcurrent
  · rw [hopen] at hcurrent
    rw [flush_closed hopen]
    exact hcurrent
  · rw [hopen] at hcurrent hopened
    obtain ⟨hurl, hlow, hname, ⟨hclosed, -⟩ | ⟨-, path, content, hcreated, hnamed⟩⟩ := hcurrent
    · cases hclosed.symm.trans (hopened rfl)
    obtain ⟨content', hwritten⟩ := Disk.write_created hcreated r'.body
    rw [flush_open hopen]
    split <;> exact ⟨hurl, hlow, hname, .inr ⟨hopened rfl, path, content', hwritten, hnamed⟩⟩

theorem Current.flushes (h : r.Current url name before) (n : Nat) :
    Both (fun x => x.2.Current url name before) (Current url name before) (flushes n r) := by
  induction n generalizing r with
  | zero => exact h
  | succ n ih =>
    have hflush := h.flush
    simp only [Anetd.flushes, flush_file]
    cases hrun : r.flush with
    | error x =>
      rw [hrun] at hflush
      exact hflush
    | ok r₁ =>
      rw [hrun] at hflush
      exact ih hflush

/-- Without a file still, and otherwise as before. -/
def Spared (r r' : HttpResponseFile) : Prop :=
  r'.opened = false ∧ r'.toHttpResponse = r.toHttpResponse ∧ r'.disk.created = r.disk.created

/-- Flushes that are refused a file do nothing, or find no path and throw. -/
theorem refused_flushes (n : Nat) (hclosed : r.opened = false)
    (hrefused : Disk.Refuses n r.disk.lookups r.disk.opens) :
    Both (fun x => r.Spared x.2) r.Spared (Anetd.flushes n r) := by
  induction n generalizing r with
  | zero => exact ⟨hclosed, rfl, rfl⟩
  | succ n ih =>
    simp only [Anetd.flushes, flush_file]
    rcases r.openFile_cases with ⟨hopened, -⟩ | ⟨-, -, hopen⟩ | ⟨-, -, ⟨hlooks, hopens⟩, -⟩ |
      ⟨-, -, ⟨hlooks, -⟩, hopen⟩ | ⟨-, -, -, hopen⟩
    · cases hclosed.symm.trans hopened
    · rw [flush_closed hopen]
      exact ih (r := { r with filepath := [] }) hclosed hrefused.fewer
    · rcases hrefused with hlost | ⟨hrefused, -⟩
      · cases hlooks.symm.trans hlost
      · cases hopens.symm.trans hrefused
    · rcases hrefused with hlost | ⟨-, hlater⟩
      · cases hlooks.symm.trans hlost
      · rw [flush_closed hopen]
        exact ih (r := r.afterRefusal) hclosed hlater
    · rw [flush_lost hopen]
      exact ⟨hclosed, rfl, rfl⟩

end HttpResponseFile

/-! ## One call -/

section call
variable {d : Disconnection} {url name : Bytes} {before : List (Bytes × Bytes)}

/-- What a call leaves that has met no head which redirects or refuses. -/
structure LeftCurrent (url name : Bytes) (before : List (Bytes × Bytes))
    (x : Exit HttpResponseFile) : Prop where
  ended : x.result ≠ .ok true
  url : x.response.url = url
  low : x.response.status < 300
  file : x.response.disk.created = before ∨
    ∃ path content, x.response.disk.created = (path, content) :: before ∧ NamedAfter name path

theorem HttpResponseFile.Current.left {r : HttpResponseFile} (h : r.Current url name before)
    (e : Engine) {result : Except Stop Bool} (hresult : result ≠ .ok true) :
    LeftCurrent url name before ⟨result, e, r⟩ :=
  ⟨hresult, h.url, h.low, h.file.imp And.right And.right⟩

theorem threw_ne {stop : Stop} : (.error stop : Except Stop Bool) ≠ .ok true := by simp

theorem finish_current {ending : Option Exn} {f : Frame HttpResponseFile}
    (h : f.response.Current url name before) : LeftCurrent url name before (finish ending f) := by
  cases ending with
  | none => exact h.left f.engine threw_ne
  | some x =>
    simp only [finish, handle]
    split
    · exact HttpResponseFile.Current.left (h.update (f := fun b => b.setBodySize b.body.length)
        rfl h.low) f.engine (by simp)
    · exact h.left f.engine threw_ne

theorem publishHeader_current {r : HttpResponseFile} (h : r.Current url name before)
    (header : Bytes × Bytes) :
    Both (HttpResponseFile.Current url name before) (HttpResponseFile.Current url name before)
      (publishHeader r header) := by
  have hset := h.update (f := fun b => b.setHeaders header.1 header.2) rfl h.low
  unfold publishHeader
  simp only
  split
  · cases lexicalCastInt header.2 with
    | none => exact hset
    | some n => exact hset.update (f := fun b => b.setBodySize (sizeOfInt n)) rfl hset.low
  · exact hset

/-- Behind the head of such a response. -/
def PastHead (url name : Bytes) (before : List (Bytes × Bytes)) (f : Frame HttpResponseFile) :
    Prop :=
  f.parserState.inHead = false ∧ f.response.Current url name before

theorem endOfHeaders_current {f : Frame HttpResponseFile} (hs : f.status < 300)
    (h : f.response.Current url name before) :
    Both (LeftCurrent url name before) (PastHead url name before) (endOfHeaders d f) := by
  obtain ⟨hparse, hredirect⟩ := accepts hs
  have hsetup : (setup f).Current url name before := h.update (f := fun b =>
    ((b.setVersion f.version).setStatus f.status).setDescription f.description) rfl hs
  have hpublish := run_both (fun r header hr => publishHeader_current hr header) hsetup
    f.tempheaders.entries
  simp only [endOfHeaders, hparse, hredirect, not_true_eq_false, if_false]
  split
  · rename_i r hrun
    rw [hrun] at hpublish
    exact HttpResponseFile.Current.left hpublish f.engine threw_ne
  · rename_i r hrun
    rw [hrun] at hpublish
    split
    · refine ⟨?_, hpublish⟩
      simp only
      split <;> rfl
    · exact ⟨rfl, HttpResponseFile.Current.update hpublish rfl hpublish.low⟩

theorem step_past {f : Frame HttpResponseFile} (h : PastHead url name before f) (c : Byte) :
    Both (LeftCurrent url name before) (PastHead url name before) (step d f c) := by
  obtain ⟨hstate, hcurrent⟩ := h
  unfold step
  split <;> rename_i hs
  case h_6 =>
    refine ⟨?_, hcurrent.update (f := fun b => b.setBody c) rfl hcurrent.low⟩
    simp only
    split <;> rfl
  case h_7 => exact ⟨hstate, hcurrent⟩
  all_goals
    rw [hs] at hstate
    cases hstate

theorem turns_past {ending : Option Exn} {f : Frame HttpResponseFile}
    (h : PastHead url name before f) (ps : List Bytes) :
    LeftCurrent url name before (turns d ending ps f) := by
  have parses (f : Frame HttpResponseFile) (p : Bytes) (hf : PastHead url name before f) :
      Both (LeftCurrent url name before) (PastHead url name before) (parse d f p) :=
    run_both (fun _ c hf => step_past hf c) hf p
  have flushes (f : Frame HttpResponseFile) (hf : PastHead url name before f) :
      Both (fun x => LeftCurrent url name before ⟨.error (.threw x.1), f.engine, x.2⟩)
        (fun r => PastHead url name before { f with response := r }) f.response.flush :=
    hf.2.flush.imp (fun x hx => hx.left f.engine threw_ne) fun r hr => ⟨hf.1, hr⟩
  have completes (f : Frame HttpResponseFile) (hf : PastHead url name before f) :
      LeftCurrent url name before (complete f) :=
    ⟨by simp [complete], hf.2.url, hf.2.low, hf.2.file.imp And.right And.right⟩
  rcases turns_rule ending parses flushes completes ps h with
    ⟨-, hleft⟩ | ⟨-, g, hg, hturns⟩
  · exact hleft
  · rw [hturns]
    exact finish_current hg.2

/-- A call whose first piece brings a whole head of a status below 300. -/
theorem turns_low {h : Head} (hs : h.status < 300) {r : HttpResponseFile}
    (hr : r.Current url name before) (ending : Option Exn) (e : Engine) (part : Bytes)
    (post : List Bytes) :
    LeftCurrent url name before (turns d ending ((h.text ++ part) :: post) (.start e r)) := by
  have hend := endOfHeaders_current (d := d) (f := ⟨h.locals, e, r⟩) hs hr
  rw [← parse_head] at hend
  cases hrun : parse d (.start e r) h.text with
  | error x =>
    rw [hrun] at hend
    rw [turns_error (run_append_error hrun part)]
    exact hend
  | ok f =>
    rw [hrun] at hend
    have hsame : turns d ending ((h.text ++ part) :: post) (.start e r) =
        turns d ending (part :: post) f := by
      simp only [turns, parse, run_append_ok hrun]
    rw [hsame]
    exact turns_past hend (part :: post)

/-- A call that meets no head of a status of 300 or more. -/
theorem turns_current {ps : List Bytes} (hlow : ∀ (h : Head) rest,
    ps.flatten = h.text ++ rest → h.status < 300) {r : HttpResponseFile}
    (hr : r.Current url name before) (ending : Option Exn) (e : Engine) :
    LeftCurrent url name before (turns d ending ps (.start e r)) := by
  -- the pieces before the one that matters are flushed, and nothing else comes of them
  have after {pre post : List Bytes} {l : Locals} (hl : Within .start l pre.flatten)
      (hsplit : ps = pre ++ post) (hpost : ∀ {r' : HttpResponseFile}, r'.Current url name before →
        LeftCurrent url name before (turns d ending post ⟨l, e, r'⟩)) :
      LeftCurrent url name before (turns d ending ps (.start e r)) := by
    have hflushes := hr.flushes pre.length
    rw [hsplit, Frame.start_eq, turns_within d ending hl]
    cases hrun : flushes pre.length r with
    | error x =>
      rw [hrun] at hflushes
      exact HttpResponseFile.Current.left hflushes e threw_ne
    | ok r' =>
      rw [hrun] at hflushes
      exact hpost hflushes
  by_cases hhead : ∃ h : Head, ∃ rest, ps.flatten = h.text ++ rest
  · obtain ⟨h, rest, hsplit⟩ := hhead
    obtain ⟨c⟩ := head_pieces hsplit
    refine after c.within c.split fun {r'} hr' => ?_
    have hread : turns d ending (c.piece :: c.post) ⟨c.locals, e, r'⟩ =
        turns d ending ((h.text ++ c.part) :: c.post) (.start e r') := by
      simp only [turns, c.parse]
    rw [hread]
    exact turns_low (hlow h rest hsplit) hr' ending e c.part c.post
  · rcases stream_cases ps.flatten with hsome | hbad | ⟨l, hl⟩
    · exact absurd hsome hhead
    · obtain ⟨pre, p, post, l, hsplit, hl, hpiece⟩ := badStatus_pieces hbad hhead
      refine after hl hsplit fun {r'} hr' => ?_
      have hthrows := parse_badStatus d e r' hpiece
      rw [Frame.start_eq, parse, run_append_ok (hl.passes d e r')] at hthrows
      rw [turns_error hthrows]
      exact hr'.left e threw_ne
    · exact after hl (List.append_nil ps).symm fun hr' => finish_current hr'

end call

/-- No flush between these pieces can open a file before the end of a head of a
status of 300 or more: the disk refuses one for each piece that ends in it. -/
def HeadsPrompt (ps : List Bytes) (lookups opens : List Bool) : Prop :=
  ∀ (h : Head) rest pre post, 300 ≤ h.status → ps.flatten = h.text ++ rest → ps = pre ++ post →
    pre.flatten.length < h.text.length → Disk.Refuses pre.length lookups opens

/-- A first piece with the whole head is enough. -/
theorem headsPrompt_first {ps : List Bytes} (lookups opens : List Bool) (hfirst : ∀ (h : Head) rest,
    300 ≤ h.status → ps.flatten = h.text ++ rest → ∃ p post, ps = p :: post ∧ h.text <+: p) :
    HeadsPrompt ps lookups opens := by
  intro h rest pre post hs hsplit hps hlength
  obtain ⟨p, others, hp, hprefix⟩ := hfirst h rest hs hsplit
  cases pre with
  | nil => trivial
  | cons q pre =>
    rw [hp] at hps
    obtain ⟨rfl, -⟩ := List.cons.inj hps
    have hle := hprefix.length_le
    rw [List.flatten_cons, List.length_append] at hlength
    omega

/-- On a disk that opens every file nothing else is. -/
theorem headsPrompt_nil {ps : List Bytes} : HeadsPrompt ps [] [] ↔
    ∀ (h : Head) rest, 300 ≤ h.status → ps.flatten = h.text ++ rest →
      ∃ p post, ps = p :: post ∧ h.text <+: p := by
  constructor
  · intro hprompt h rest hs hsplit
    obtain ⟨c⟩ := head_pieces hsplit
    have hrefused := hprompt h rest c.pre (c.piece :: c.post) hs hsplit c.split c.pre_length
    have hnil : c.pre = [] := by
      cases hpre : c.pre with
      | nil => rfl
      | cons p pre =>
        rw [hpre] at hrefused
        rcases hrefused with hlost | ⟨hrefused, -⟩
        · cases hlost
        · cases hrefused
    refine ⟨c.piece, c.post, by simpa [hnil] using c.split, c.part, ?_⟩
    rw [← c.ends, hnil]
    rfl
  · exact headsPrompt_first [] []

/-- The files of a transfer that ends with a response: no file, or one for the
URL of the response, if its status is below 300. -/
def FilesOf (before : List (Bytes × Bytes)) (r : HttpResponseFile) : Prop :=
  r.disk.created = before ∨ r.status < 300 ∧ ∃ parts path content,
    urlParts r.url = some parts ∧ r.disk.created = (path, content) :: before ∧
      NamedAfter parts.file path

/-- What one call leaves, whether it follows a redirect or not. -/
structure CallFiles (before : List (Bytes × Bytes)) (x : Exit HttpResponseFile) : Prop where
  followed : x.result = .ok true → x.response.Addressed ∧ x.response.disk.created = before
  ended : x.result ≠ .ok true → FilesOf before x.response

theorem LeftCurrent.files {url name : Bytes} {before : List (Bytes × Bytes)}
    {x : Exit HttpResponseFile} (h : LeftCurrent url name before x) {parts : UrlParts}
    (hparts : urlParts url = some parts) (hname : name = parts.file) : CallFiles before x where
  followed hresult := absurd hresult h.ended
  ended _ := by
    rcases h.file with hcreated | ⟨path, content, hcreated, hnamed⟩
    · exact .inl hcreated
    · refine .inr ⟨h.low, parts, path, content, ?_, hcreated, hname ▸ hnamed⟩
      rw [h.url, hparts]

section final
variable (d : Disconnection) {before : List (Bytes × Bytes)}

theorem refuse_files {f : Frame HttpResponseFile} (h : f.response.disk.created = before) :
    CallFiles before (refuse f) where
  followed hresult := by cases hresult
  ended _ := .inl h

theorem threw_files {stop : Stop} (e : Engine) {r : HttpResponseFile}
    (h : r.disk.created = before) : CallFiles before ⟨.error stop, e, r⟩ where
  followed hresult := by cases hresult
  ended _ := .inl h

/-- A redirect gives an unopened file its new name. -/
theorem redirect_files {f : Frame HttpResponseFile} (hclosed : f.response.opened = false)
    (hlow : f.response.status < 300) (hcreated : f.response.disk.created = before) :
    CallFiles before (redirect d f) := by
  apply redirect_rule d f
  · exact fun e => refuse_files hcreated
  · rintro se e r (rfl | ⟨url, rfl⟩)
    · exact threw_files e hcreated
    · exact threw_files e hcreated
  · intro e url
    refine ⟨fun _ => ⟨⟨hclosed, hlow, fun parts hparts => ?_⟩, hcreated⟩,
      fun hresult => absurd rfl hresult⟩
    have hurl : urlParts url = some parts := hparts
    simp [ResponseClass.setURL, HttpResponseFile.setURL, hurl]

theorem turns_high {h : Head} (hs : 300 ≤ h.status) {r : HttpResponseFile}
    (hclosed : r.opened = false) (hlow : r.status < 300) (hcreated : r.disk.created = before)
    (ending : Option Exn) (e : Engine) (part : Bytes) (post : List Bytes) :
    CallFiles before (turns d ending ((h.text ++ part) :: post) (.start e r)) := by
  rw [turns_error (parse_final d e r (Int.not_lt.mpr hs) part)]
  split
  · exact redirect_files d hclosed hlow hcreated
  · exact refuse_files hcreated

/-- **One call.** -/
theorem turns_files {r : HttpResponseFile} (h : r.Addressed) {parts : UrlParts}
    (hparts : urlParts r.url = some parts) {ps : List Bytes}
    (hprompt : HeadsPrompt ps r.disk.lookups r.disk.opens) (ending : Option Exn) (e : Engine) :
    CallFiles r.disk.created (turns d ending ps (.start e r)) := by
  by_cases hhigh : ∃ h : Head, ∃ rest, ps.flatten = h.text ++ rest ∧ 300 ≤ h.status
  · obtain ⟨head, rest, hsplit, hs⟩ := hhigh
    obtain ⟨c⟩ := head_pieces hsplit
    have hrefused := hprompt head rest c.pre (c.piece :: c.post) hs hsplit c.split c.pre_length
    have hspared := HttpResponseFile.refused_flushes c.pre.length h.closed hrefused
    rw [c.turns]
    cases hflushes : flushes c.pre.length r with
    | error x =>
      rw [hflushes] at hspared
      exact threw_files e hspared.2.2
    | ok r' =>
      rw [hflushes] at hspared
      obtain ⟨hclosed, hbase, hcreated⟩ := hspared
      have hlow : r'.status < 300 := by
        rw [hbase]
        exact h.low
      exact turns_high d hs hclosed hlow hcreated ending e c.part c.post
  · have hleft : LeftCurrent r.url r.filename r.disk.created (turns d ending ps (.start e r)) :=
      turns_current (fun head rest hsplit => Int.not_le.mp fun hs => hhigh ⟨head, rest, hsplit, hs⟩)
        h.current ending e
    exact hleft.files hparts (h.named parts hparts)

end final

/-! ## A file too early -/

/-- A file that is open under some path, behind the files `before`. -/
def Holds (before : List (Bytes × Bytes)) (path : Bytes) (r : HttpResponseFile) : Prop :=
  r.opened = true ∧ ∃ content, r.disk.created = (path, content) :: before

section early
variable {d : Disconnection} {before : List (Bytes × Bytes)} {path : Bytes}

theorem flush_holds {r : HttpResponseFile} (h : Holds before path r) :
    Both (fun x => Holds before path x.2) (Holds before path) r.flush := by
  obtain ⟨hopened, content, hcreated⟩ := h
  have hopen : r.openFile = (.ok true, r) := if_pos hopened
  obtain ⟨content', hwritten⟩ := Disk.write_created hcreated r.body
  rw [HttpResponseFile.flush_open hopen]
  split <;> exact ⟨hopened, content', hwritten⟩

theorem kept_holds : Kept (Holds before path)
    fun x => ∃ content, x.response.disk.created = (path, content) :: before where
  update _ _ h := h
  setURL _ _ h := h
  flush _ h := flush_holds h
  throws _ _ _ h := h.2
  follows _ _ h := h.2
  completes _ _ h := h.2

/-- Whatever a call reads, an open file stays the file of the response. -/
theorem turns_holds {r : HttpResponseFile} (h : Holds before path r) (ending : Option Exn)
    (ps : List Bytes) (l : Locals) (e : Engine) :
    ∃ content, (turns d ending ps ⟨l, e, r⟩).response.disk.created = (path, content) :: before := by
  rcases kept_holds.turns d ending ps (f := ⟨l, e, r⟩) h with
    ⟨-, hfile⟩ | ⟨-, -, e', r', hr', hturns⟩
  · exact hfile
  · rw [hturns]
    exact hr'.2

/-- **A first piece that ends within the head opens a file**, whatever the head
then says. -/
theorem turns_early {r : HttpResponseFile} (hready : r.Ready) {h : Head} {rest p : Bytes}
    {ps : List Bytes} (hsplit : (p :: ps).flatten = h.text ++ rest)
    (hshort : p.length < h.text.length) (ending : Option Exn) (e : Engine) :
    ∃ content, (turns d ending (p :: ps) (.start e r)).response.disk.created =
      (r.disk.freePath r.filename, content) :: r.disk.created := by
  obtain ⟨bs, hbs⟩ : p <+: h.text := by
    have hp : p <+: h.text ++ rest := by
      rw [← hsplit, List.flatten_cons]
      exact List.prefix_append _ _
    exact List.prefix_of_prefix_length_le hp (List.prefix_append _ _) hshort.le
  have hne : bs ≠ [] := by
    rintro rfl
    rw [List.append_nil] at hbs
    rw [hbs] at hshort
    omega
  obtain ⟨l, hl⟩ := h.within_part hbs.symm hne
  have hread := hl.passes d e r
  rcases r.openFile_cases with ⟨hopened, -⟩ | ⟨-, hname, -⟩ | ⟨-, -, -, hopen⟩ |
    ⟨-, -, ⟨-, hopens⟩, -⟩ | ⟨-, -, hlooks, -⟩
  · cases hready.closed.symm.trans hopened
  · exact absurd hname hready.named
  · have hflush := HttpResponseFile.flush_open hopen
    have hopened : Holds r.disk.created (r.disk.freePath r.filename) r.afterOpen := ⟨rfl, [], rfl⟩
    have hholds := flush_holds hopened
    rw [HttpResponseFile.flush_open (r := r.afterOpen) (if_pos rfl), ← hflush] at hholds
    cases hresult : r.flush with
    | error x =>
      rw [hresult] at hholds
      rw [Frame.start_eq, turns_fail hread hresult]
      exact hholds.2
    | ok r' =>
      rw [hresult] at hholds
      rw [Frame.start_eq, turns_more hread hresult hl.not_ok]
      exact turns_holds hholds ending ps l e
  · rw [Disk.headD_of_all hready.willing.opens] at hopens
    cases hopens
  · rw [Disk.headD_of_all hready.willing.lookups] at hlooks
    cases hlooks

/-- A refusal leaves it behind. -/
theorem refused_early {r : HttpResponseFile} (hready : r.Ready) {h : Head} {rest p : Bytes}
    {ps : List Bytes} (hsplit : (p :: ps).flatten = h.text ++ rest)
    (hshort : p.length < h.text.length) (hs : 400 ≤ h.status) (ending : Option Exn) (e : Engine) :
    ¬ FilesOf r.disk.created (turns d ending (p :: ps) (.start e r)).response := by
  rintro (hnone | ⟨hlow, -⟩)
  · obtain ⟨content, hcreated⟩ := turns_early (d := d) hready hsplit hshort ending e
    have hlength := congrArg List.length (hcreated.symm.trans hnone)
    rw [List.length_cons] at hlength
    omega
  · obtain ⟨c⟩ := head_pieces hsplit
    obtain ⟨r', hflushes, -, -⟩ := hready.spools.flushes hready.empty c.pre.length
    have hparse := parse_final d e r' (h := h) (by omega) c.part
    rw [if_neg (Int.not_lt.mpr hs)] at hparse
    rw [c.turns, hflushes] at hlow
    simp only [turns_error hparse] at hlow
    have hstatus : h.status < 300 := hlow
    omega

end early

/-! ## The transfer -/

/-- The heads of a hop come before a flush can open a file, if it comes to
reading at all. -/
def Prompt (env : Environment) (hop : Hop) (w : World HttpResponseFile) : Prop :=
  ∀ p, prepare env w.engine w.response = some p → (dial hop p).2 = .ok () → hop.send = none →
    HeadsPrompt (pieces p.engine.httpType (hop.reads p.request) (hop.buffer 0)).1
      w.response.disk.lookups w.response.disk.opens

/-- What a call of `send` is given and hands on. -/
theorem prepare_addressed {env : Environment} {e : Engine} {r : HttpResponseFile}
    {p : Prepared HttpResponseFile} (hp : prepare env e r = some p) (h : r.Addressed) :
    urlParts p.response.url = some p.parts ∧ p.response.Addressed ∧ p.response.disk = r.disk := by
  obtain ⟨hparts, ⟨-, -, -, hr⟩ | ⟨-, -, -, hr⟩⟩ := prepare_cases hp
  · rw [hr]
    exact ⟨hparts, ⟨h.closed, h.low, h.named⟩, rfl⟩
  · rw [hr]
    exact ⟨hparts, h, rfl⟩

/-- **One hop.** -/
theorem send_files {env : Environment} {hop : Hop} {w v : World HttpResponseFile}
    {result : Except Stop Bool} (h : w.response.Addressed) (hprompt : Prompt env hop w)
    (hsend : send env hop w = (result, v)) :
    CallFiles w.response.disk.created ⟨result, v.engine, v.response⟩ := by
  rcases send_cases env hop w with ⟨-, heq⟩ |
    ⟨p, hp, ⟨stop, -, heq⟩ | ⟨hdial, ⟨ec, -, heq⟩ | ⟨hsent, heq⟩⟩⟩ <;> rw [heq] at hsend
  · cases hsend
    exact threw_files _ rfl
  · obtain ⟨-, -, hdisk⟩ := prepare_addressed hp h
    cases hsend
    exact threw_files _ (congrArg Disk.created hdisk)
  · obtain ⟨-, -, hdisk⟩ := prepare_addressed hp h
    cases hsend
    exact threw_files _ (congrArg Disk.created hdisk)
  · obtain ⟨hparts, haddressed, hdisk⟩ := prepare_addressed hp h
    have htype : (dialed hop p.engine).httpType = p.engine.httpType := by rw [dialed_fields]
    have hheads := hprompt p hp hdial hsent
    rw [receive_turns, htype] at hsend
    cases hsend
    rw [← hdisk] at hheads ⊢
    exact turns_files hop.disconnection (r := update
      (fun b => b.setContentLength p.engine.body.length) p.response)
      ⟨haddressed.closed, haddressed.low, haddressed.named⟩ hparts hheads _ _

variable {env : Environment} {net : Network}

/-- The hops before the last. -/
theorem followed_addressed {k : Nat} {w w' : World HttpResponseFile} (h : w.response.Addressed)
    (hfollowed : Followed env net k w w')
    (hprompt : ∀ j v, Followed env net j w v → Prompt env (net v.trace) v) :
    w'.response.Addressed ∧ w'.response.disk.created = w.response.disk.created := by
  induction hfollowed with
  | none w => exact ⟨h, rfl⟩
  | @more k w v w' hsend rest ih =>
    obtain ⟨haddressed, hcreated⟩ := (send_files h (hprompt 0 w (.none w)) hsend).followed rfl
    obtain ⟨haddressed', hcreated'⟩ := ih haddressed fun j u hu => hprompt (j + 1) u (.more hsend hu)
    exact ⟨haddressed', hcreated'.trans hcreated⟩

/-- **The files of a transfer.** When the heads of all its hops come before a
flush can open a file, a transfer creates no file or one, and none unless it
ends with a status below 300; the file then has its name from the final URL. -/
theorem files_named {w v : World HttpResponseFile} (h : w.response.Addressed)
    (hprompt : ∀ k w', Followed env net k w w' → Prompt env (net w'.trace) w') {calls : Nat}
    {result : Except Stop Unit} (hconnect : connect env net calls w = some (result, v)) :
    FilesOf w.response.disk.created v.response := by
  obtain ⟨⟨result', u⟩, hloop, heq⟩ := Option.map_eq_some_iff.mp hconnect
  obtain ⟨k, w', hfollowed, hlast⟩ := sendLoop_last hloop
  obtain ⟨haddressed, hcreated⟩ := followed_addressed h hfollowed hprompt
  have hresponse : v.response = u.response := by
    cases result' <;> cases heq <;> rfl
  rw [hresponse, ← hcreated]
  rcases hlast with ⟨-, hsend⟩ | ⟨stop, -, hsend⟩
  · exact (send_files haddressed (hprompt k w' hfollowed) hsend).ended (by simp)
  · exact (send_files haddressed (hprompt k w' hfollowed) hsend).ended (by simp)

/-! ## `http://a/f` -/

def fileParts : UrlParts := ⟨str "http", str "a", [], str "/", str "f", []⟩

def fileWorld : World HttpResponseFile := ⟨.new, fileStart, []⟩

theorem fileStart_addressed : fileStart.Addressed :=
  HttpResponseFile.addressed_setURL ⟨.new, [], [], false, ⟨[str "f"], [], [], [], []⟩⟩ (str "http://a/f")

def filePrepared : Prepared HttpResponseFile where
  parts := fileParts
  target := ⟨str "a", str "80"⟩
  engine := Engine.new.overwrite ⟨[], []⟩ fileParts
  response := update (fun b => b.setHost (str "a")) fileStart

theorem file_prepare : prepare ⟨[], []⟩ fileWorld.engine fileWorld.response = some filePrepared := by
  have hparts : urlParts (base fileWorld.response).url = some fileParts := by decide
  rw [prepare_known _ _ hparts (by decide)]
  rfl

/-- A server that is reached and answers with some reads. -/
def fileHop (os : List (Read 2048)) : Hop := { okHop with reads := fun _ => os }

theorem file_dial (os : List (Read 2048)) (p : Prepared HttpResponseFile) :
    (dial (fileHop os) p).2 = .ok () :=
  answering_dial ⟨okText, by decide, by decide⟩ ⟨none, none⟩ p

/-- The end of the call over it. -/
def fileExit (os : List (Read 2048)) : Exit HttpResponseFile :=
  turns ⟨none, none⟩ (pieces .plainHttp os 0).2 (pieces .plainHttp os 0).1
    (.start (dialed (fileHop os) filePrepared.engine)
      (update (fun b => b.setContentLength 0) filePrepared.response))

theorem file_send (os : List (Read 2048)) : ∃ trace, send ⟨[], []⟩ (fileHop os) fileWorld =
    ((fileExit os).result, ⟨(fileExit os).engine, (fileExit os).response, trace⟩) := by
  rw [send_received file_prepare (file_dial os _) rfl, receive_turns]
  exact ⟨_, rfl⟩

theorem file_connect {os : List (Read 2048)} (hresult : (fileExit os).result = .ok false) :
    ∃ v, connect ⟨[], []⟩ (fun _ => fileHop os) 1 fileWorld = some (.ok (), v) ∧
      v.response = (fileExit os).response := by
  obtain ⟨trace, hsend⟩ := file_send os
  rw [hresult] at hsend
  exact ⟨_, connect_returns hsend 0, rfl⟩

/-- An answer in one read. -/
def fileAnswer : List (Read 2048) := okHop.reads []

theorem files_named_answer : ∃ v,
    connect ⟨[], []⟩ (fun _ => fileHop fileAnswer) 1 fileWorld = some (.ok (), v) ∧
      FilesOf [] v.response := by
  have hresult : (fileExit fileAnswer).result = .ok false := by decide
  obtain ⟨v, hconnect, -⟩ := file_connect hresult
  refine ⟨v, hconnect, files_named fileStart_addressed ?_ hconnect⟩
  intro k w' hfollowed
  cases hfollowed with
  | none =>
    intro p hp _ _
    cases file_prepare.symm.trans hp
    refine headsPrompt_first _ _ fun h rest _ hsplit => ⟨okText, [], rfl, rest, ?_⟩
    rw [← hsplit]
    decide
  | more hsend _ =>
    obtain ⟨trace, heq⟩ := file_send fileAnswer
    rw [show send _ _ _ = _ from heq, hresult] at hsend
    cases hsend

/-- A refusal, its head in two reads. -/
def fileRefusal : List (Read 2048) :=
  [.data ⟨str "HTTP/1.0 404 Not", by decide, by decide⟩,
    .data ⟨str " Found\r\n\r\n", by decide, by decide⟩, .error .eof]

/-- It leaves an empty file. -/
theorem file_of_refusal : fileStart.Addressed ∧ ∃ v,
    connect ⟨[], []⟩ (fun _ => fileHop fileRefusal) 1 fileWorld = some (.ok (), v) ∧
      v.response.status = 404 ∧ v.response.disk.created = [(str "f.1", [])] ∧
      ¬ FilesOf fileStart.disk.created v.response := by
  have hresult : (fileExit fileRefusal).result = .ok false := by decide
  obtain ⟨v, hconnect, hresponse⟩ := file_connect hresult
  have hstatus : v.response.status = 404 := by
    rw [hresponse]
    decide
  have hcreated : v.response.disk.created = [(str "f.1", [])] := by
    rw [hresponse]
    decide
  refine ⟨fileStart_addressed, v, hconnect, hstatus, hcreated, ?_⟩
  rintro (hnone | ⟨hlow, -⟩)
  · rw [hcreated] at hnone
    cases hnone
  · rw [hstatus] at hlow
    exact absurd hlow (by decide)

end Anetd
