import Mathlib.Data.List.DropRight
import Anetd.Lib.Greedy
import Anetd.Url

/-!
# How the URL expressions divide a URL

The two expressions are greedy and, behind the host, all their groups are
optional, so the first way to match divides the text as `UrlParts.ofText` does:
the host ends at the first of `/?#:`, a port is a colon with digits, the path
ends at the first of `?#`, and a query is what follows a question mark.
`urlParts_isSome` says which texts are accepted at all.
-/

namespace Anetd

open Lib (Regex)
open Lib.Regex

def slash : Byte := 47
def question : Byte := 63

/-- The bytes of `[^…]`. -/
def outside (s : String) (c : Byte) : Bool := !(str s).contains c

def wordFirst (bs : Bytes) : Bool := bs.head?.any isWord

/-! ## The text behind the scheme -/

def hostText (rest : Bytes) : Bytes := rest.takeWhile (outside "/?#:")

def afterHost (rest : Bytes) : Bytes := rest.dropWhile (outside "/?#:")

/-- The digits behind a colon. -/
def portOf (tail : Bytes) : Bytes :=
  if tail.head? = some colon then tail.tail.takeWhile Lib.Decimal.isDigit else []

/-- A colon without digits is not part of a port. -/
def pastPort (tail : Bytes) : Bytes :=
  if portOf tail = [] then tail else tail.tail.dropWhile Lib.Decimal.isDigit

def pathText (rest : Bytes) : Bytes := (pastPort (afterHost rest)).takeWhile (outside "?#")

def afterPath (rest : Bytes) : Bytes := (pastPort (afterHost rest)).dropWhile (outside "?#")

def queryOf (tail : Bytes) : Bytes := if tail.head? = some question then tail else []

/-- The groups of a text that starts with a host. -/
def UrlParts.ofText (protocol rest : Bytes) : UrlParts where
  protocol := protocol
  host := hostText rest
  port := portOf (afterHost rest)
  directory := (pathText rest).rdropWhile (· != slash)
  file := (pathText rest).rtakeWhile (· != slash)
  query := queryOf (afterPath rest)

/-! ## The groups, one after the other -/

section groups
variable {s : Position}

def hostGroup : Regex :=
  .group 2 (.seq (.plus (.chars isWord)) (.star (noneOf "/?#:")))

def portGroup : Regex :=
  .opt (.seq (literal ":") (.group 3 (.plus (.chars Lib.Decimal.isDigit))))

def segment : Regex := .seq (.star (noneOf "?#/")) (literal "/")

def directoryGroup : Regex := .opt (.group 4 (.seq (.opt (literal "/")) (.star segment)))

def fileGroup : Regex := .opt (.group 5 (.star (noneOf "?#")))

def queryGroup : Regex :=
  .opt (.group 6 (.seq (literal "?") (.group 7 (.star (.chars fun _ => true)))))

end groups

theorem outside_of {p : Byte → Bool} {s : String} (h : ((str s).all fun c => !p c) = true) {c : Byte}
    (hc : p c = true) : outside s c = true := by
  rw [outside, Bool.not_eq_true', List.contains_eq_mem, decide_eq_false_iff_not]
  intro hmem
  have hfalse := List.all_eq_true.mp h c hmem
  rw [hc] at hfalse
  cases hfalse

theorem isWord_outside {c : Byte} (h : isWord c = true) : outside "/?#:" c = true :=
  outside_of (by decide) h

theorem head?_dropWhile_false {p : Byte → Bool} (bs : Bytes) :
    ∀ c ∈ (bs.dropWhile p).head?, p c = false := by
  intro c hc
  have hnot := List.head?_dropWhile_not p bs
  rw [Option.mem_def.mp hc] at hnot
  simpa using hnot

theorem takeWhile_all {p : Byte → Bool} (bs : Bytes) : ∀ c ∈ bs.takeWhile p, p c = true :=
  fun _ hc => List.mem_takeWhile_imp hc

theorem span_append {p : Byte → Bool} {u v : Bytes} (hu : ∀ c ∈ u, p c = true)
    (hv : ∀ c ∈ v.head?, p c = false) : (u ++ v).takeWhile p = u ∧ (u ++ v).dropWhile p = v := by
  rw [List.takeWhile_append_of_pos hu, List.dropWhile_append_of_pos hu]
  cases v with
  | nil => exact ⟨List.append_nil u, rfl⟩
  | cons c v =>
    have hc : p c = false := hv c rfl
    have hnot : ¬ p c = true := by
      rw [hc]
      exact Bool.false_ne_true
    rw [List.takeWhile_cons, if_neg hnot, List.dropWhile_cons, if_neg hnot, List.append_nil]
    exact ⟨rfl, rfl⟩

/-- A word character starts the host. -/
theorem wordFirst_iff {bs : Bytes} : wordFirst bs = true ↔ ∃ c cs, bs = c :: cs ∧ isWord c = true := by
  rw [wordFirst]
  cases bs with
  | nil => simp
  | cons c cs => simp

section first
variable {s : Position}

/-- A word, then whatever else is no separator. -/
theorem takes_host (h : wordFirst s.rest = true) : ∃ t, Takes hostGroup s (hostText s.rest) t ∧
    t.rest = afterHost s.rest ∧ t.captures = (s.store 2 (hostText s.rest)).captures := by
  obtain ⟨c, cs, hrest, hc⟩ := wordFirst_iff.mp h
  let word := (hostText s.rest).takeWhile isWord
  let more := (hostText s.rest).dropWhile isWord
  have hhost : word ++ more = hostText s.rest := List.takeWhile_append_dropWhile
  have hsplit : s.rest = word ++ (more ++ afterHost s.rest) := by
    rw [← List.append_assoc, hhost]
    exact List.takeWhile_append_dropWhile.symm
  have hne : word ≠ [] := by
    have hfirst : hostText s.rest = c :: cs.takeWhile (outside "/?#:") := by
      rw [hostText, hrest, List.takeWhile_cons, if_pos (isWord_outside hc)]
    change (hostText s.rest).takeWhile isWord ≠ []
    rw [hfirst, List.takeWhile_cons, if_pos hc]
    exact List.cons_ne_nil _ _
  have hstop : ∀ c ∈ (more ++ afterHost s.rest).head?, isWord c = false := by
    intro c hc
    cases hmore : more with
    | nil =>
      rw [hmore, List.nil_append] at hc
      have hout := head?_dropWhile_false s.rest c hc
      cases hword : isWord c with
      | false => rfl
      | true => rw [isWord_outside hword] at hout; cases hout
    | cons b bs =>
      rw [hmore, List.cons_append] at hc
      refine head?_dropWhile_false (p := isWord) (hostText s.rest) c ?_
      change c ∈ more.head?
      rw [hmore]
      exact hc
  have hmore : ∀ c ∈ more, outside "/?#:" c = true := fun c hc =>
    takeWhile_all s.rest c (List.dropWhile_sublist isWord |>.mem hc)
  obtain ⟨t, hword, htrest, htcaptures⟩ := takes_plus hne hsplit (takeWhile_all _) hstop
  obtain ⟨t', hstar, hrest', hcaptures'⟩ :=
    takes_star (s := t) htrest hmore (head?_dropWhile_false s.rest)
  have hgroup := (hword.seq hstar).group 2
  rw [hhost] at hgroup
  refine ⟨_, hgroup, hrest', ?_⟩
  simp only [Position.store, hcaptures', htcaptures]

/-- A colon without digits behind it is no port. -/
theorem port_fails (hport : portOf s.rest = []) :
    Fails (.seq (literal ":") (.group 3 (.plus (.chars Lib.Decimal.isDigit)))) s := by
  intro t hmatch
  cases hmatch with
  | seq hcolon hdigits =>
    have hrest := Matches.literal_inv (u := str ":") (by decide) hcolon
    cases hdigits with
    | group hplus =>
      obtain ⟨u, hne, hu, hall⟩ := hplus.plus_inv
      obtain ⟨c, cs, rfl⟩ := List.exists_cons_of_ne_nil hne
      rw [hu] at hrest
      rw [hrest] at hport
      have hfirst : (c :: (cs ++ _)).takeWhile Lib.Decimal.isDigit = [] := hport
      rw [List.takeWhile_cons, if_pos (hall c List.mem_cons_self)] at hfirst
      cases hfirst

theorem takes_port (h : s.captures 3 = none) : ∃ u t, Takes portGroup s u t ∧
    t.rest = pastPort s.rest ∧ part t.captures 3 = portOf s.rest ∧
      ∀ j, j ≠ 3 → t.captures j = s.captures j := by
  by_cases hport : portOf s.rest = []
  · refine ⟨[], s, .optNone (port_fails hport), ?_, ?_, fun _ _ => rfl⟩
    · rw [pastPort, if_pos hport]
    · rw [hport, part, h]
      rfl
  · have hcolon : s.rest.head? = some colon := by
      apply Classical.byContradiction
      intro hnot
      exact hport (by rw [portOf, if_neg hnot])
    have hrest : s.rest = str ":" ++ s.rest.tail := by
      obtain ⟨ds, hds⟩ := List.head?_eq_some_iff.mp hcolon
      rw [hds]
      rfl
    have hdigits : portOf s.rest = s.rest.tail.takeWhile Lib.Decimal.isDigit := by
      rw [portOf, if_pos hcolon]
    obtain ⟨t, hfirst, htrest, htcaptures⟩ := takes_literal (u := str ":") (by decide) hrest
    have hsplit : t.rest = portOf s.rest ++ s.rest.tail.dropWhile Lib.Decimal.isDigit := by
      rw [htrest, hdigits]
      exact List.takeWhile_append_dropWhile.symm
    obtain ⟨t', hplus, hrest', hcaptures'⟩ := takes_plus hport hsplit
      (by rw [hdigits]; exact takeWhile_all _) (head?_dropWhile_false _)
    refine ⟨_, _, .optSome (hfirst.seq (hplus.group 3)), ?_, rfl, ?_⟩
    · rw [pastPort, if_neg hport]
      exact hrest'
    · intro j hj
      simp only [Position.store, if_neg hj, hcaptures', htcaptures]

end first

/-! ### The directory -/

/-- No directory goes on here. -/
def NoSlash (v : Bytes) : Prop :=
  ∀ u w, v = u ++ slash :: w → ¬ ∀ c ∈ u, outside "?#/" c = true

theorem noSlash_append {file q : Bytes} (hfile : ∀ c ∈ file, c ≠ slash)
    (hq : ∀ c ∈ q.head?, outside "?#" c = false) : NoSlash (file ++ q) := by
  intro u w hsplit hall
  rcases List.append_eq_append_iff.mp hsplit with ⟨u', hu, hq'⟩ | ⟨file', hfile', hslash⟩
  · cases u' with
    | nil =>
      have hfalse := hq slash (by rw [hq']; rfl)
      cases hfalse
    | cons c u' =>
      have hout := hall c (by rw [hu]; exact List.mem_append_right _ List.mem_cons_self)
      have hfalse := hq c (by rw [hq']; rfl)
      have hless : outside "?#/" c = true → outside "?#" c = true := by
        simp only [outside, Bool.not_eq_true', List.contains_eq_mem, decide_eq_false_iff_not]
        intro hnot hmem
        refine hnot ?_
        change c ∈ str "?#" ++ str "/"
        exact List.mem_append_left _ hmem
      rw [hless hout] at hfalse
      cases hfalse
  · cases file' with
    | nil =>
      have hfalse := hq slash (by rw [← List.nil_append q, ← hslash]; rfl)
      cases hfalse
    | cons c file' =>
      obtain ⟨rfl, -⟩ := List.cons.inj hslash
      exact hfile slash (by rw [hfile']; exact List.mem_append_right _ List.mem_cons_self) rfl

theorem fails_segment {s : Position} (h : NoSlash s.rest) : Fails segment s := by
  intro t hmatch
  cases hmatch with
  | seq hrun hslash =>
    obtain ⟨u, hu, hall⟩ := Matches.star_inv hrun
    have hrest := Matches.literal_inv (u := str "/") (by decide) hslash
    exact h u t.rest (by rw [hu, hrest]; rfl) hall

/-- Empty, or with a slash at the end. -/
def Directory (dir : Bytes) : Prop := dir = [] ∨ ∃ d, dir = d ++ [slash]

theorem Directory.tail {c : Byte} {dir : Bytes} (h : Directory (c :: dir)) : Directory dir := by
  rcases h with hnil | ⟨d, hd⟩
  · cases hnil
  · cases d with
    | nil => exact .inl (List.cons.inj hd).2
    | cons b d => exact .inr ⟨d, (List.cons.inj hd).2⟩

theorem Directory.append {x dir : Bytes} (h : Directory (x ++ dir)) : Directory dir := by
  induction x with
  | nil => exact h
  | cons c x ih => exact ih h.tail

/-- A directory starts with a segment. -/
theorem Directory.segment {dir : Bytes} (h : Directory dir) (hne : dir ≠ [])
    (hall : ∀ c ∈ dir, outside "?#" c = true) :
    ∃ x rest, dir = x ++ slash :: rest ∧ (∀ c ∈ x, outside "?#/" c = true) := by
  have hsplit : dir.takeWhile (· != slash) ++ dir.dropWhile (· != slash) = dir :=
    List.takeWhile_append_dropWhile
  cases hrest : dir.dropWhile (· != slash) with
  | nil =>
    obtain ⟨d, hd⟩ := h.resolve_left hne
    have hlast : slash ∈ dir.takeWhile (· != slash) := by
      rw [hrest, List.append_nil] at hsplit
      rw [hsplit, hd]
      exact List.mem_append_right _ List.mem_cons_self
    exact absurd (takeWhile_all dir slash hlast) (by decide)
  | cons c rest =>
    have hslash := head?_dropWhile_false (p := (· != slash)) dir c (by rw [hrest]; rfl)
    have hc : c = slash := by simpa using hslash
    rw [hrest, hc] at hsplit
    refine ⟨dir.takeWhile (· != slash), rest, hsplit.symm, ?_⟩
    intro b hb
    have hb' := hall b (List.takeWhile_sublist _ |>.mem hb)
    have hnot := takeWhile_all dir b hb
    simp only [outside, Bool.not_eq_true', List.contains_eq_mem, decide_eq_false_iff_not] at hb' ⊢
    intro hmem
    have hmem' : b ∈ str "?#" ++ [slash] := hmem
    rcases List.mem_append.mp hmem' with hmem | hmem
    · exact hb' hmem
    · rw [List.mem_singleton.mp hmem] at hnot
      exact absurd hnot (by decide)

theorem directory_rdropWhile (path : Bytes) : Directory (path.rdropWhile (· != slash)) := by
  by_cases hne : path.rdropWhile (· != slash) = []
  · exact .inl hne
  · have hlast := List.rdropWhile_last_not (· != slash) path hne
    have hslash : (path.rdropWhile (· != slash)).getLast hne = slash := by simpa using hlast
    have hsplit := List.dropLast_append_getLast hne
    rw [hslash] at hsplit
    exact .inr ⟨_, hsplit.symm⟩

theorem takes_segments {s : Position} {dir v : Bytes} (h : s.rest = dir ++ v)
    (hdir : Directory dir) (hall : ∀ c ∈ dir, outside "?#" c = true) (hv : NoSlash v) :
    ∃ t, Takes (.star segment) s dir t ∧ t.rest = v ∧ t.captures = s.captures := by
  generalize hn : dir.length = n
  induction n using Nat.strongRecOn generalizing s dir with
  | ind n ih =>
    by_cases hne : dir = []
    · subst hne
      rw [List.nil_append] at h
      exact ⟨s, .starStop (fails_segment (by rwa [h])), h, rfl⟩
    · obtain ⟨x, rest, rfl, hx⟩ := hdir.segment hne hall
      have hrest : s.rest = x ++ (str "/" ++ (rest ++ v)) := by
        rw [h, List.append_assoc]
        rfl
      obtain ⟨t, hrun, htrest, htcaptures⟩ := takes_star hrest hx fun c hc => by
        obtain rfl : slash = c := Option.some.inj hc
        decide
      obtain ⟨t', hslash, hrest', hcaptures'⟩ := takes_literal (u := str "/") (by decide) htrest
      have hturn : Takes segment s (x ++ str "/") t' := hrun.seq hslash
      have hmore : Directory rest := hdir.append.tail
      have hless : rest.length < n := by
        rw [← hn, List.length_append, List.length_cons]
        omega
      have hallrest : ∀ c ∈ rest, outside "?#" c = true := fun c hc =>
        hall c (List.mem_append_right _ (List.mem_cons_of_mem _ hc))
      obtain ⟨w, hstar, hwrest, hwcaptures⟩ := ih rest.length hless hrest' hmore hallrest rfl
      have htakes := hturn.starMore
        (fun hnil => absurd (List.append_eq_nil_iff.mp hnil).2 (by decide)) hstar
      rw [List.append_assoc] at htakes
      exact ⟨w, htakes, hwrest, by rw [hwcaptures, hcaptures', htcaptures]⟩

theorem takes_directory {s : Position} {dir v : Bytes} (h : s.rest = dir ++ v)
    (hdir : Directory dir) (hall : ∀ c ∈ dir, outside "?#" c = true) (hv : NoSlash v) :
    ∃ t, Takes directoryGroup s dir t ∧ t.rest = v ∧
      t.captures = (s.store 4 dir).captures := by
  by_cases hslash : ∃ d, dir = str "/" ++ d
  · obtain ⟨d, rfl⟩ := hslash
    rw [List.append_assoc] at h
    obtain ⟨t, hfirst, htrest, htcaptures⟩ := takes_literal (u := str "/") (by decide) h
    obtain ⟨t', hstar, hrest', hcaptures'⟩ := takes_segments htrest hdir.append
      (fun c hc => hall c (List.mem_append_right _ hc)) hv
    have htakes := ((hfirst.optSome).seq hstar).group 4
    refine ⟨_, .optSome htakes, hrest', ?_⟩
    simp only [Position.store, hcaptures', htcaptures]
  · have hfails : Fails (literal "/") s := by
      intro t hmatch
      have hrest := Matches.literal_inv (u := str "/") (by decide) hmatch
      rw [h] at hrest
      cases dir with
      | nil => exact hv [] t.rest hrest fun c hc => by cases hc
      | cons c dir => exact hslash ⟨dir, by rw [(List.cons.inj hrest).1]; rfl⟩
    obtain ⟨t, hstar, htrest, htcaptures⟩ := takes_segments h hdir hall hv
    have htakes := ((Takes.optNone hfails).seq hstar).group 4
    refine ⟨_, .optSome htakes, htrest, ?_⟩
    simp only [Position.store, htcaptures, List.nil_append]

/-! ### The file and the query -/

theorem takes_file {s : Position} {file q : Bytes} (h : s.rest = file ++ q)
    (hall : ∀ c ∈ file, outside "?#" c = true) (hq : ∀ c ∈ q.head?, outside "?#" c = false) :
    ∃ t, Takes fileGroup s file t ∧ t.rest = q ∧ t.captures = (s.store 5 file).captures := by
  obtain ⟨t, hstar, hrest, hcaptures⟩ := takes_star h hall hq
  refine ⟨_, .optSome (hstar.group 5), hrest, ?_⟩
  simp only [Position.store, hcaptures]

theorem takes_query {s : Position} (h : s.captures 6 = none) :
    ∃ u t, Takes queryGroup s u t ∧ part t.captures 6 = queryOf s.rest ∧
      ∀ j, j ≠ 6 → j ≠ 7 → t.captures j = s.captures j := by
  by_cases hquestion : s.rest.head? = some question
  · obtain ⟨q, hq⟩ := List.head?_eq_some_iff.mp hquestion
    have hrest : s.rest = str "?" ++ q := hq
    obtain ⟨t, hfirst, htrest, htcaptures⟩ := takes_literal (u := str "?") (by decide) hrest
    obtain ⟨t', hstar, hrest', hcaptures'⟩ := takes_star (p := fun _ => true) (v := [])
      (htrest.trans (List.append_nil q).symm) (fun _ _ => rfl) (fun c hc => by cases hc)
    refine ⟨_, _, .optSome ((hfirst.seq (hstar.group 7)).group 6), ?_, ?_⟩
    · rw [queryOf, if_pos hquestion, hrest]
      rfl
    · intro j h6 h7
      simp only [Position.store, if_neg h6, if_neg h7, hcaptures', htcaptures]
  · have hfails : Fails (.group 6 (.seq (literal "?") (.group 7 (.star (.chars fun _ => true))))) s := by
      intro t hmatch
      cases hmatch with
      | group hseq =>
        cases hseq with
        | seq hfirst _ =>
          have hrest := Matches.literal_inv (u := str "?") (by decide) hfirst
          exact hquestion (by rw [hrest]; rfl)
    refine ⟨[], s, .optNone hfails, ?_, fun _ _ _ => rfl⟩
    rw [queryOf, if_neg hquestion, part, h]
    rfl

/-! ## The whole expressions -/

/-- Behind a host, the expression always matches, and `P` holds of the scheme,
the text from the host on and what is captured. -/
def Divides (behind : Regex) (P : Bytes → Bytes → Regex.Captures → Prop) : Prop :=
  ∀ s : Position, wordFirst s.rest = true → (∀ j, j ≠ 1 → s.captures j = none) →
    ∃ u t, Takes (.seq hostGroup behind) s u t ∧ P (part s.captures 1) s.rest t.captures

def behindUrl : Regex := .seq portGroup (.seq directoryGroup (.seq fileGroup queryGroup))

theorem divides_url : Divides behindUrl fun protocol rest m =>
    (⟨part m 1, part m 2, part m 3, part m 4, part m 5, part m 6⟩ : UrlParts) =
      .ofText protocol rest := by
  intro s h hfresh
  obtain ⟨t₂, hhost, hrest₂, hcaptures₂⟩ := takes_host h
  obtain ⟨u₃, t₃, hport, hrest₃, hpart₃, hsame₃⟩ := takes_port (s := t₂) (by
    rw [hcaptures₂]
    exact hfresh 3 (by decide))
  let path := pathText s.rest
  let q := afterPath s.rest
  have hpath : path = path.rdropWhile (· != slash) ++ path.rtakeWhile (· != slash) :=
    List.rdropWhile_append_rtakeWhile.symm
  have hall : ∀ c ∈ path, outside "?#" c = true := takeWhile_all _
  have hq : ∀ c ∈ q.head?, outside "?#" c = false := head?_dropWhile_false _
  have hrest : t₃.rest = path.rdropWhile (· != slash) ++ (path.rtakeWhile (· != slash) ++ q) := by
    rw [← List.append_assoc, ← hpath, hrest₃, hrest₂]
    exact List.takeWhile_append_dropWhile.symm
  have hfile : ∀ c ∈ path.rtakeWhile (· != slash), c ≠ slash := fun c hc =>
    bne_iff_ne.mp (List.mem_rtakeWhile_imp (p := (· != slash)) hc)
  obtain ⟨t₄, hdirectory, hrest₄, hcaptures₄⟩ := takes_directory hrest (directory_rdropWhile path)
    (fun c hc => hall c (List.rdropWhile_prefix _ _ |>.mem hc)) (noSlash_append hfile hq)
  obtain ⟨t₅, hfilegroup, hrest₅, hcaptures₅⟩ := takes_file hrest₄
    (fun c hc => hall c (List.rtakeWhile_suffix _ _ |>.mem hc)) hq
  have hparts₅ (j : Nat) (h4 : j ≠ 4) (h5 : j ≠ 5) : t₅.captures j = t₃.captures j := by
    rw [hcaptures₅, store_ne h5, hcaptures₄, store_ne h4]
  have hparts₃ (j : Nat) (h2 : j ≠ 2) (h3 : j ≠ 3) : t₃.captures j = s.captures j := by
    rw [hsame₃ j h3, hcaptures₂, store_ne h2]
  obtain ⟨u₆, t₆, hquery, hpart₆, hsame₆⟩ := takes_query (s := t₅) (by
    rw [hparts₅ 6 (by decide) (by decide), hparts₃ 6 (by decide) (by decide)]
    exact hfresh 6 (by decide))
  refine ⟨_, t₆, hhost.seq (hport.seq (hdirectory.seq (hfilegroup.seq hquery))), ?_⟩
  simp only [UrlParts.ofText, UrlParts.mk.injEq]
  refine ⟨?_, ?_, ?_, ?_, ?_, ?_⟩
  · rw [part, hsame₆ 1 (by decide) (by decide), hparts₅ 1 (by decide) (by decide),
      hparts₃ 1 (by decide) (by decide), part]
  · rw [part, hsame₆ 2 (by decide) (by decide), hparts₅ 2 (by decide) (by decide),
      hsame₃ 2 (by decide), hcaptures₂, store_same, Option.getD_some]
  · rw [part, hsame₆ 3 (by decide) (by decide), hparts₅ 3 (by decide) (by decide)]
    exact hpart₃.trans (congrArg portOf hrest₂)
  · rw [part, hsame₆ 4 (by decide) (by decide), hcaptures₅, store_ne (by decide), hcaptures₄,
      store_same, Option.getD_some]
  · rw [part, hsame₆ 5 (by decide) (by decide), hcaptures₅, store_same, Option.getD_some]
  · rw [hpart₆, hrest₅]

theorem divides_proxy : Divides portGroup fun protocol rest m =>
    (⟨part m 1, part m 2, part m 3⟩ : ProxyParts) =
      ⟨protocol, hostText rest, portOf (afterHost rest)⟩ := by
  intro s h hfresh
  obtain ⟨t, hhost, hrest, hcaptures⟩ := takes_host h
  obtain ⟨u', t', hport, -, hpart, hsame⟩ := takes_port (s := t) (by
    rw [hcaptures]
    exact hfresh 3 (by decide))
  refine ⟨_, t', hhost.seq hport, ?_⟩
  simp only [ProxyParts.mk.injEq]
  refine ⟨?_, ?_, hpart.trans (congrArg portOf hrest)⟩
  · rw [part, hsame 1 (by decide), hcaptures, store_ne (by decide), part]
  · rw [part, hsame 2 (by decide), hcaptures, store_same, Option.getD_some]

/-- A scheme, and a host behind it. -/
def Schemed (bs : Bytes) : Prop :=
  ∃ p rest, bs = p ++ (str "://" ++ rest) ∧ p ≠ [] ∧ (∀ c ∈ p, outside ":/?#" c = true) ∧
    wordFirst rest = true

def schemeGroup : Regex := .seq (.group 1 (.plus (noneOf ":/?#"))) (literal "://")

theorem schemeGroup_inv {s t : Position} (h : Matches schemeGroup s t) :
    ∃ p, s.rest = p ++ (str "://" ++ t.rest) ∧ p ≠ [] ∧ ∀ c ∈ p, outside ":/?#" c = true := by
  cases h with
  | seq hgroup hliteral =>
    have hrest := Matches.literal_inv (u := str "://") (by decide) hliteral
    cases hgroup with
    | group hplus =>
      obtain ⟨p, hne, hp, hall⟩ := hplus.plus_inv
      refine ⟨p, ?_, hne, hall⟩
      rw [hp]
      exact congrArg (p ++ ·) hrest

theorem takes_scheme {s : Position} {p rest : Bytes} (h : s.rest = p ++ (str "://" ++ rest))
    (hne : p ≠ []) (hall : ∀ c ∈ p, outside ":/?#" c = true) :
    ∃ t, Takes schemeGroup s (p ++ str "://") t ∧ t.rest = rest ∧
      t.captures = (s.store 1 p).captures := by
  obtain ⟨t, hplus, htrest, htcaptures⟩ := takes_plus hne h hall fun c hc => by
    obtain rfl : colon = c := Option.some.inj hc
    decide
  obtain ⟨t', hliteral, hrest', hcaptures'⟩ :=
    takes_literal (s := t.store 1 p) (u := str "://") (by decide) htrest
  refine ⟨t', (hplus.group 1).seq hliteral, hrest', ?_⟩
  simp only [hcaptures', Position.store, htcaptures]

/-- A host starts with a word character. -/
theorem fails_host {s : Position} (h : ¬ wordFirst s.rest = true) : Fails hostGroup s := by
  intro t hmatch
  cases hmatch with
  | group hseq =>
    cases hseq with
    | seq hplus _ =>
      obtain ⟨u, hne, hu, hall⟩ := hplus.plus_inv
      obtain ⟨c, cs, rfl⟩ := List.exists_cons_of_ne_nil hne
      exact h (wordFirst_iff.mpr ⟨c, _, hu, hall c List.mem_cons_self⟩)

/-- What both expressions begin with. -/
def fromStart (behind : Regex) : Regex :=
  .seq .lineStart (.seq (.opt schemeGroup) (.seq hostGroup behind))

theorem fromStart_inv {behind : Regex} {s t : Position} (h : Matches (fromStart behind) s t) :
    s.atLineStart = true ∧ (wordFirst s.rest = true ∨ Schemed s.rest) := by
  have hword {s t : Position} (h : Matches (.seq hostGroup behind) s t) :
      wordFirst s.rest = true := by
    apply Classical.byContradiction
    intro hnot
    cases h with
    | seq hhost _ => exact fails_host hnot _ hhost
  cases h with
  | seq hline hmore =>
    cases hline with
    | lineStart hstart =>
      refine ⟨hstart, ?_⟩
      cases hmore with
      | seq hopt hhost =>
        cases hopt with
        | optNone => exact .inl (hword hhost)
        | optSome hscheme =>
          obtain ⟨p, hp, hne, hall⟩ := schemeGroup_inv hscheme
          exact .inr ⟨p, _, hp, hne, hall, hword hhost⟩

namespace Divides

variable {behind : Regex} {P : Bytes → Bytes → Regex.Captures → Prop} {s : Position}

theorem schemed (hd : Divides behind P) (hline : s.atLineStart = true)
    (hfresh : ∀ j, s.captures j = none) {p rest : Bytes} (h : s.rest = p ++ (str "://" ++ rest))
    (hne : p ≠ []) (hall : ∀ c ∈ p, outside ":/?#" c = true) (hword : wordFirst rest = true) :
    ∃ u t, Takes (fromStart behind) s u t ∧ P p rest t.captures := by
  obtain ⟨t, hscheme, hrest, hcaptures⟩ := takes_scheme h hne hall
  obtain ⟨u', t', htakes, hP⟩ := hd t (by rwa [hrest]) fun j hj => by
    rw [hcaptures, store_ne hj, hfresh j]
  refine ⟨_, t', (Takes.lineStart hline).seq (hscheme.optSome.seq htakes), ?_⟩
  rwa [part, hcaptures, store_same, hrest, Option.getD_some] at hP

theorem bare (hd : Divides behind P) (hline : s.atLineStart = true)
    (hfresh : ∀ j, s.captures j = none) (hword : wordFirst s.rest = true)
    (hnot : ¬ Schemed s.rest) :
    ∃ u t, Takes (fromStart behind) s u t ∧ P [] s.rest t.captures := by
  obtain ⟨u', t', htakes, hP⟩ := hd s hword fun j _ => hfresh j
  have hskip (t : Position) (ht : Matches schemeGroup s t) : Fails (.seq hostGroup behind) t := by
    obtain ⟨p, hp, hne, hall⟩ := schemeGroup_inv ht
    exact (fails_host fun hw => hnot ⟨p, t.rest, hp, hne, hall, hw⟩).seq
  refine ⟨_, t', (Takes.lineStart hline).seq (.optSkip hskip htakes), ?_⟩
  rwa [part, hfresh 1] at hP

/-- Where a line starts with a host, or with a scheme and a host, there is a match. -/
theorem takes (hd : Divides behind P) (hline : s.atLineStart = true)
    (hfresh : ∀ j, s.captures j = none) (hstart : wordFirst s.rest = true ∨ Schemed s.rest) :
    ∃ u t p rest, Takes (fromStart behind) s u t ∧ P p rest t.captures := by
  by_cases hschemed : Schemed s.rest
  · obtain ⟨p, rest, h, hne, hall, hword⟩ := hschemed
    obtain ⟨u, t, htakes, hP⟩ := hd.schemed hline hfresh h hne hall hword
    exact ⟨u, t, p, rest, htakes, hP⟩
  · obtain ⟨u, t, htakes, hP⟩ := hd.bare hline hfresh (hstart.resolve_right hschemed) hschemed
    exact ⟨u, t, [], s.rest, htakes, hP⟩

/-- **What is accepted**: somewhere a line starts with a host, or with a scheme
and a host. -/
theorem search_isSome (hd : Divides behind P) (text : Bytes) :
    ((fromStart behind).search text).isSome ↔ ∃ pre suf, text = pre ++ suf ∧
      (Position.behind none pre suf).atLineStart = true ∧
        (wordFirst suf = true ∨ Schemed suf) := by
  rw [search, searchFrom_isSome]
  constructor
  · rintro ⟨pre, suf, hsplit, hsome⟩
    obtain ⟨x, hx⟩ := Option.isSome_iff_exists.mp hsome
    obtain ⟨t, hmatch, -⟩ := matchAt_sound _ _ _ _ hx
    exact ⟨pre, suf, hsplit, fromStart_inv hmatch⟩
  · rintro ⟨pre, suf, hsplit, hline, hstart⟩
    refine ⟨pre, suf, hsplit, ?_⟩
    obtain ⟨u, t, _, _, htakes, -⟩ := hd.takes hline (fun _ => rfl) hstart
    rw [htakes.first (fun t => some t.captures) t.captures rfl]
    rfl

/-- **Whatever is accepted is divided**, wherever the match starts. -/
theorem search_eq_some (hd : Divides behind P) {text : Bytes} {m : Captures}
    (h : (fromStart behind).search text = some m) : ∃ p rest, P p rest m := by
  obtain ⟨pre, suf, -, hmatchAt⟩ := searchFrom_eq_some h
  obtain ⟨_, hmatch, -⟩ := matchAt_sound _ _ _ _ hmatchAt
  obtain ⟨hline, hstart⟩ := fromStart_inv hmatch
  obtain ⟨u, t, p, rest, htakes, hP⟩ := hd.takes hline (fun _ => rfl) hstart
  rw [htakes.first (fun t => some t.captures) t.captures rfl] at hmatchAt
  rw [← Option.some.inj hmatchAt]
  exact ⟨p, rest, hP⟩

end Divides

/-! ## URLs -/

/-- A line of the text starts with a host, or with a scheme and a host. -/
def Accepted (text : Bytes) : Prop :=
  ∃ pre suf, text = pre ++ suf ∧ (Position.behind none pre suf).atLineStart = true ∧
    (wordFirst suf = true ∨ Schemed suf)

theorem urlParts_isSome (url : Bytes) : (urlParts url).isSome ↔ Accepted url := by
  rw [urlParts, Option.isSome_map]
  exact divides_url.search_isSome url

theorem proxyParts_isSome (proxy : Bytes) : (proxyParts proxy).isSome ↔ Accepted proxy := by
  rw [proxyParts, Option.isSome_map]
  exact divides_proxy.search_isSome proxy

/-- Only the last component of the path is in the file group. -/
theorem urlParts_file {url : Bytes} {parts : UrlParts} (h : urlParts url = some parts) :
    slash ∉ parts.file := by
  obtain ⟨m, hm, rfl⟩ := Option.map_eq_some_iff.mp h
  obtain ⟨p, rest, hparts⟩ := divides_url.search_eq_some hm
  rw [hparts]
  intro hmem
  have hne := List.mem_rtakeWhile_imp (p := (· != slash)) (l := pathText rest) hmem
  exact absurd rfl (bne_iff_ne.mp hne)

/-- **An absolute URL** is divided from its start. -/
theorem urlParts_schemed {p rest : Bytes} (hne : p ≠ [])
    (hall : ∀ c ∈ p, outside ":/?#" c = true) (hword : wordFirst rest = true) :
    urlParts (p ++ (str "://" ++ rest)) = some (.ofText p rest) := by
  obtain ⟨u, t, htakes, hparts⟩ := divides_url.schemed
    (s := ⟨none, p ++ (str "://" ++ rest), fun _ => none⟩) rfl (fun _ => rfl) rfl hne hall hword
  have hsearch := search_takes htakes
  change urlExpression.search _ = _ at hsearch
  rw [urlParts, hsearch, Option.map_some, hparts]

theorem urlParts_bare {url : Bytes} (hword : wordFirst url = true) (hnot : ¬ Schemed url) :
    urlParts url = some (.ofText [] url) := by
  obtain ⟨u, t, htakes, hparts⟩ := divides_url.bare (s := ⟨none, url, fun _ => none⟩) rfl
    (fun _ => rfl) hword hnot
  have hsearch := search_takes htakes
  change urlExpression.search _ = _ at hsearch
  rw [urlParts, hsearch, Option.map_some, hparts]

/-- In a single line nothing but its start is looked at. -/
theorem accepted_line {url : Bytes} (hline : ∀ c ∈ url, isSeparator c = false)
    (h : Accepted url) : wordFirst url = true ∨ Schemed url := by
  obtain ⟨pre, suf, rfl, hstart, hfirst⟩ := h
  cases hlast : pre.getLast? with
  | none =>
    rw [List.getLast?_eq_none_iff.mp hlast]
    exact hfirst
  | some c =>
    have hc := hline c (List.mem_append_left _ (List.mem_of_getLast? hlast))
    rw [Position.behind, hlast] at hstart
    simp only [Position.atLineStart, Option.some_or, hc, Bool.false_and] at hstart
    cases hstart

/-- **A scheme comes only from the start of the line.** -/
theorem urlParts_protocol {url : Bytes} (hline : ∀ c ∈ url, isSeparator c = false)
    {parts : UrlParts} (h : urlParts url = some parts) (hprotocol : parts.protocol ≠ []) :
    ∃ p rest, url = p ++ (str "://" ++ rest) ∧ p ≠ [] ∧ (∀ c ∈ p, outside ":/?#" c = true) ∧
      wordFirst rest = true ∧ parts = .ofText p rest := by
  by_cases hschemed : Schemed url
  · obtain ⟨p, rest, rfl, hne, hall, hword⟩ := hschemed
    rw [urlParts_schemed hne hall hword] at h
    exact ⟨p, rest, rfl, hne, hall, hword, (Option.some.inj h).symm⟩
  · have haccepted := (urlParts_isSome url).mp (by rw [h]; rfl)
    have hword := (accepted_line hline haccepted).resolve_right hschemed
    rw [urlParts_bare hword hschemed] at h
    rw [← Option.some.inj h] at hprotocol
    exact absurd rfl hprotocol

/-- Every part of a URL is taken from it. -/
def UrlParts.All (P : Byte → Prop) (parts : UrlParts) : Prop :=
  ∀ s ∈ [parts.protocol, parts.host, parts.port, parts.directory, parts.file, parts.query],
    ∀ c ∈ s, P c

theorem urlParts_all {P : Byte → Prop} {url : Bytes} {parts : UrlParts}
    (h : urlParts url = some parts) (hall : ∀ c ∈ url, P c) : parts.All P := by
  obtain ⟨m, hm, rfl⟩ := Option.map_eq_some_iff.mp h
  have hpart (i : Nat) : ∀ c ∈ part m i, P c := by
    intro c hc
    rw [part] at hc
    cases hcapture : m i with
    | none =>
      rw [hcapture] at hc
      cases hc
    | some u =>
      rw [hcapture] at hc
      exact search_captured hm hall i u hcapture c hc
  simp only [UrlParts.All, List.forall_mem_cons]
  exact ⟨hpart 1, hpart 2, hpart 3, hpart 4, hpart 5, hpart 6, fun _ h => by cases h⟩

end Anetd
