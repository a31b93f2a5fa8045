import Anetd.OriginForm

/-!
# The parts of a URL and the URL

`send` divides a URL by a regular expression and goes on with the parts alone.
They are all there is: an absolute URL is its parts written one after the other,
up to a fragment that `send` has no use for. And parts that are written down are
found again just when nothing of one can be taken for another
(`urlParts_eq_some_iff`).
-/

namespace Anetd

open Lib.Decimal

namespace UrlParts

def portText (port : Bytes) : Bytes := if port = [] then [] else colon :: port

/-- The path, the query and the fragment. -/
def behind (parts : UrlParts) (fragment : Bytes) : Bytes :=
  parts.directory ++ parts.file ++ (parts.query ++ fragment)

/-- The parts one after the other. -/
def text (parts : UrlParts) (fragment : Bytes) : Bytes :=
  parts.protocol ++ (str "://" ++ (parts.host ++ (portText parts.port ++ parts.behind fragment)))

/-- No part can be taken for another. -/
structure Distinct (parts : UrlParts) (fragment : Bytes) : Prop where
  protocol : parts.protocol ≠ [] ∧ ∀ c ∈ parts.protocol, outside ":/?#" c = true
  host : wordFirst parts.host = true ∧ ∀ c ∈ parts.host, outside "/?#:" c = true
  port : ∀ c ∈ parts.port, isDigit c = true
  behindHost : parts.port = [] → (∀ c ∈ (parts.behind fragment).head?, outside "/?#:" c = false) ∧
    portOf (parts.behind fragment) = []
  behindPort : parts.port ≠ [] → ∀ c ∈ (parts.behind fragment).head?, isDigit c = false
  path : ∀ c ∈ parts.directory ++ parts.file, outside "?#" c = true
  directory : Directory parts.directory
  file : slash ∉ parts.file
  query : ∀ c ∈ parts.query.head?, c = question
  onlyQuery : parts.query = [] ∨ fragment = []
  hashed : ∀ c ∈ fragment.head?, c = hash

end UrlParts

open UrlParts

/-! ## From the text to the parts -/

section find
variable {parts : UrlParts} {fragment : Bytes} (h : parts.Distinct fragment)
include h

theorem UrlParts.Distinct.port_text :
    (∀ c ∈ (portText parts.port ++ parts.behind fragment).head?, outside "/?#:" c = false) ∧
      portOf (portText parts.port ++ parts.behind fragment) = parts.port ∧
      pastPort (portText parts.port ++ parts.behind fragment) = parts.behind fragment := by
  by_cases hport : parts.port = []
  · obtain ⟨hfirst, hnone⟩ := h.behindHost hport
    rw [portText, if_pos hport, List.nil_append, hport, pastPort, if_pos hnone]
    exact ⟨hfirst, hnone, rfl⟩
  · obtain ⟨hdigits, hrest⟩ := span_append h.port (h.behindPort hport)
    have hfound : portOf (colon :: parts.port ++ parts.behind fragment) = parts.port := hdigits
    rw [portText, if_neg hport, pastPort, hfound, if_neg hport]
    refine ⟨fun c hc => ?_, rfl, hrest⟩
    cases hc
    decide

theorem UrlParts.Distinct.path_text :
    (parts.behind fragment).takeWhile (outside "?#") = parts.directory ++ parts.file ∧
      (parts.behind fragment).dropWhile (outside "?#") = parts.query ++ fragment := by
  apply span_append h.path
  intro c hc
  cases hquery : parts.query with
  | nil =>
    rw [hquery, List.nil_append] at hc
    rw [h.hashed c hc]
    decide
  | cons q query =>
    rw [hquery] at hc
    obtain rfl : q = c := Option.some.inj hc
    rw [h.query q (by rw [hquery]; rfl)]
    decide

theorem UrlParts.Distinct.directory_text :
    (parts.directory ++ parts.file).rdropWhile (· != slash) = parts.directory ∧
      (parts.directory ++ parts.file).rtakeWhile (· != slash) = parts.file := by
  have hfile : ∀ c ∈ parts.file.reverse, (c != slash) = true := fun c hc => by
    rw [bne_iff_ne]
    rintro rfl
    exact h.file (List.mem_reverse.mp hc)
  have hdirectory : ∀ c ∈ parts.directory.reverse.head?, (c != slash) = false := by
    intro c hc
    rcases h.directory with hnil | ⟨d, hd⟩
    · rw [hnil] at hc
      cases hc
    · rw [hd, List.reverse_append] at hc
      obtain rfl : slash = c := Option.some.inj hc
      exact bne_self_eq_false _
  obtain ⟨htake, hdrop⟩ := span_append hfile hdirectory
  rw [← List.reverse_append] at htake hdrop
  rw [List.rdropWhile, List.rtakeWhile, htake, hdrop, List.reverse_reverse, List.reverse_reverse]
  exact ⟨rfl, rfl⟩

theorem UrlParts.Distinct.query_text : queryOf (parts.query ++ fragment) = parts.query := by
  rcases h.onlyQuery with hquery | hfragment
  · have hnot : fragment.head? ≠ some question := fun hhead =>
      absurd (h.hashed question hhead) (by decide)
    rw [hquery, List.nil_append, queryOf, if_neg hnot]
  · rw [hfragment, List.append_nil, queryOf]
    cases hquery : parts.query with
    | nil => rfl
    | cons q query =>
      rw [h.query q (by rw [hquery]; rfl)]
      exact if_pos rfl

/-- **Distinct parts are found again.** -/
theorem UrlParts.Distinct.found : urlParts (parts.text fragment) = some parts := by
  obtain ⟨hfirst, hport, hpast⟩ := h.port_text
  obtain ⟨hhost, hafter⟩ := span_append h.host.2 hfirst
  obtain ⟨hpath, hquery⟩ := h.path_text
  obtain ⟨hdirectory, hfile⟩ := h.directory_text
  have hword : wordFirst (parts.host ++ (portText parts.port ++ parts.behind fragment)) = true := by
    obtain ⟨c, cs, heq, hword⟩ := wordFirst_iff.mp h.host.1
    rw [heq]
    exact wordFirst_iff.mpr ⟨c, _, rfl, hword⟩
  rw [text, urlParts_schemed h.protocol.1 h.protocol.2 hword]
  congr 1
  simp only [ofText, hostText, afterHost, pathText, afterPath, hhost, hafter, hport, hpast, hpath,
    hquery, hdirectory, hfile, h.query_text]

end find

/-! ## From the parts to the text -/

/-- What is behind a host, with its port in front. -/
theorem port_append (tail : Bytes) : portText (portOf tail) ++ pastPort tail = tail := by
  unfold pastPort
  split
  · rename_i hnone
    rw [portText, if_pos hnone]
    rfl
  · rename_i hport
    rw [portText, if_neg hport]
    cases tail with
    | nil => exact absurd rfl hport
    | cons c cs =>
      by_cases hcolon : c = colon
      · rw [portOf, List.head?_cons, hcolon, if_pos rfl]
        exact congrArg (colon :: ·) List.takeWhile_append_dropWhile
      · refine absurd (if_neg fun hhead => hcolon ?_) hport
        exact Option.some.inj hhead

/-- What no query takes is the fragment. -/
def fragmentOf (tail : Bytes) : Bytes := if tail.head? = some question then [] else tail

theorem query_append (tail : Bytes) : queryOf tail ++ fragmentOf tail = tail := by
  unfold queryOf fragmentOf
  split
  · exact List.append_nil tail
  · rfl

theorem behind_ofText (protocol rest : Bytes) :
    (ofText protocol rest).behind (fragmentOf (afterPath rest)) = pastPort (afterHost rest) := by
  change (pathText rest).rdropWhile (· != slash) ++ (pathText rest).rtakeWhile (· != slash) ++
    (queryOf (afterPath rest) ++ fragmentOf (afterPath rest)) = _
  rw [List.rdropWhile_append_rtakeWhile, query_append]
  exact List.takeWhile_append_dropWhile

theorem text_ofText (protocol rest : Bytes) :
    (ofText protocol rest).text (fragmentOf (afterPath rest)) = protocol ++ (str "://" ++ rest) := by
  rw [text, behind_ofText]
  change protocol ++ (str "://" ++ (hostText rest ++ (portText (portOf (afterHost rest)) ++ _))) = _
  rw [port_append, host_append]

/-- **The parts of a URL are distinct.** -/
theorem distinct_ofText {protocol rest : Bytes} (hne : protocol ≠ [])
    (hall : ∀ c ∈ protocol, outside ":/?#" c = true) (hword : wordFirst rest = true) :
    (ofText protocol rest).Distinct (fragmentOf (afterPath rest)) := by
  have htail : ∀ c ∈ (afterPath rest).head?, c = question ∨ c = hash := by
    intro c hc
    have hnot := head?_dropWhile_false (p := outside "?#") _ c hc
    have hcases : ¬ c = 63 → c = 35 := by simpa [outside, str] using hnot
    by_cases hquestion : c = 63
    · exact .inl hquestion
    · exact .inr (hcases hquestion)
  constructor
  · exact ⟨hne, hall⟩
  · refine ⟨?_, takeWhile_all rest⟩
    obtain ⟨c, cs, rfl, hc⟩ := wordFirst_iff.mp hword
    refine wordFirst_iff.mpr ⟨c, cs.takeWhile (outside "/?#:"), ?_, hc⟩
    exact List.takeWhile_cons_of_pos (isWord_outside hc)
  · intro c hc
    change c ∈ portOf (afterHost rest) at hc
    unfold portOf at hc
    split at hc
    · exact takeWhile_all _ c hc
    · cases hc
  · intro hport
    change portOf (afterHost rest) = [] at hport
    rw [behind_ofText, pastPort, if_pos hport]
    exact ⟨head?_dropWhile_false rest, hport⟩
  · intro hport
    change portOf (afterHost rest) ≠ [] at hport
    rw [behind_ofText, pastPort, if_neg hport]
    exact head?_dropWhile_false _
  · change ∀ c ∈ (pathText rest).rdropWhile (· != slash) ++ (pathText rest).rtakeWhile (· != slash), _
    rw [List.rdropWhile_append_rtakeWhile]
    exact takeWhile_all _
  · exact directory_rdropWhile (pathText rest)
  · intro hmem
    have hnot := List.mem_rtakeWhile_imp (p := (· != slash)) (l := pathText rest) hmem
    exact absurd rfl (bne_iff_ne.mp hnot)
  · intro c hc
    change c ∈ (queryOf (afterPath rest)).head? at hc
    unfold queryOf at hc
    split at hc
    · rename_i hquestion
      exact Option.some.inj (hc.symm.trans hquestion)
    · cases hc
  · change queryOf (afterPath rest) = [] ∨ _
    unfold queryOf fragmentOf
    split
    · exact .inr rfl
    · exact .inl rfl
  · intro c hc
    unfold fragmentOf at hc
    split at hc
    · cases hc
    · rename_i hquestion
      refine (htail c hc).resolve_left fun heq => hquestion ?_
      rw [← heq]
      exact hc

/-- **What a URL is divided into.** The parts of an absolute URL in one line are
those distinct ones that it is made of. -/
theorem urlParts_eq_some_iff {url : Bytes} (hline : ∀ c ∈ url, Lib.Regex.isSeparator c = false)
    {parts : UrlParts} (hprotocol : parts.protocol ≠ []) :
    urlParts url = some parts ↔
      ∃ fragment, parts.Distinct fragment ∧ url = parts.text fragment := by
  constructor
  · intro h
    obtain ⟨p, rest, rfl, hne, hall, hword, rfl⟩ := urlParts_protocol hline h hprotocol
    exact ⟨_, distinct_ofText hne hall hword, (text_ofText p rest).symm⟩
  · rintro ⟨fragment, hdistinct, rfl⟩
    exact hdistinct.found

/-- A URL with every part. -/
theorem urlParts_eq_some_iff_full :
    urlParts (str "http://h:80/d/f?q") = some ⟨str "http", str "h", str "80", str "/d/", str "f",
        str "?q"⟩ ↔
      ∃ fragment, UrlParts.Distinct ⟨str "http", str "h", str "80", str "/d/", str "f", str "?q"⟩
        fragment ∧
      str "http://h:80/d/f?q" =
        text ⟨str "http", str "h", str "80", str "/d/", str "f", str "?q"⟩ fragment :=
  urlParts_eq_some_iff (by decide +kernel) (by decide)

end Anetd
