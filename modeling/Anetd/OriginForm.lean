import Anetd.Targets

/-!
# The origin form of the request target

Every group behind the host is optional, so what is no port and no path of an
accepted URL still goes into some group. `originForm_iff` says for which
accepted URLs the target that `send` puts into the request line starts with a
slash and has no fragment.
-/

namespace Anetd

open Lib.Regex

def hash : Byte := 35

/-- The target of a request to an origin server. -/
structure OriginForm (target : Bytes) : Prop where
  slash : target.head? = some Anetd.slash
  fragment : hash ∉ target

/-- The text behind `://`. -/
def afterScheme (url : Bytes) : Bytes := (url.dropWhile (outside ":/?#")).drop 3

/-- From the first colon of the authority to its end. -/
def portPart (rest : Bytes) : Bytes := (rest.takeWhile (outside "/?#")).dropWhile (· != colon)

/-- A colon in the authority is followed by digits, and by nothing else; and
the first question mark starts a query without a hash, or stands behind one. -/
structure TargetClean (rest : Bytes) : Prop where
  port : portPart rest = [] ∨
    (portPart rest).tail ≠ [] ∧ ∀ c ∈ (portPart rest).tail, Lib.Decimal.isDigit c = true
  query : (rest.dropWhile (outside "?#")).head? = some question →
    hash ∉ rest.dropWhile (outside "?#")

/-! ## Behind the host -/

theorem outside_append {s t : String} {c : Byte} (h : str s ⊆ str t) (hc : outside t c = true) :
    outside s c = true := by
  simp only [outside, Bool.not_eq_true', List.contains_eq_mem, decide_eq_false_iff_not] at hc ⊢
  exact fun hmem => hc (h hmem)

theorem isDigit_outside {c : Byte} (h : Lib.Decimal.isDigit c = true) : outside "/?#" c = true :=
  outside_of (by decide) h

/-- The first byte that the host leaves. -/
theorem afterHost_cases (rest : Bytes) : afterHost rest = [] ∨
    ∃ c v, afterHost rest = c :: v ∧ (c = colon ∨ outside "/?#" c = false) := by
  cases htail : afterHost rest with
  | nil => exact .inl rfl
  | cons c v =>
    refine .inr ⟨c, v, rfl, ?_⟩
    have hc := head?_dropWhile_false (p := outside "/?#:") rest c (by
      change c ∈ (afterHost rest).head?
      rw [htail]
      rfl)
    simp only [outside, Bool.not_eq_false', List.contains_eq_mem, decide_eq_true_eq] at hc ⊢
    have hmem : c ∈ str "/?#" ++ [colon] := hc
    rcases List.mem_append.mp hmem with hmem | hmem
    · exact .inr hmem
    · exact .inl (List.mem_singleton.mp hmem)

theorem host_append (rest : Bytes) : hostText rest ++ afterHost rest = rest :=
  List.takeWhile_append_dropWhile

/-- The part from the colon on is found behind the host. -/
theorem portPart_eq (rest : Bytes) :
    portPart rest = ((afterHost rest).takeWhile (outside "/?#")).dropWhile (· != colon) := by
  have hhost : ∀ c ∈ hostText rest, outside "/?#" c = true := fun c hc =>
    outside_append (by decide) (takeWhile_all rest c hc)
  have hcolon : ∀ c ∈ hostText rest, (c != colon) = true := by
    intro c hc
    have hout := takeWhile_all (p := outside "/?#:") rest c hc
    rw [bne_iff_ne]
    rintro rfl
    cases hout
  rw [portPart, ← host_append rest, List.takeWhile_append_of_pos hhost,
    List.dropWhile_append_of_pos hcolon, host_append]

theorem outside_slash {c : Byte} : outside "/?#" c = (outside "?#" c && c != slash) := by
  have hmem : c ∈ str "/?#" ↔ c = slash ∨ c ∈ str "?#" := by
    change c ∈ slash :: str "?#" ↔ _
    exact List.mem_cons
  rw [Bool.eq_iff_iff]
  simp only [outside, Bool.not_eq_true', List.contains_eq_mem, decide_eq_false_iff_not, hmem,
    Bool.and_eq_true, bne_iff_ne, ne_eq, not_or]
  exact And.comm

/-- A path starts with a slash when nothing of the authority is left. -/
theorem head?_path_iff (tail : Bytes) : (∀ c ∈ (tail.takeWhile (outside "?#")).head?, c = slash) ↔
    tail.takeWhile (outside "/?#") = [] := by
  cases tail with
  | nil => exact ⟨fun _ => rfl, fun _ c hc => by cases hc⟩
  | cons b v =>
    rw [List.takeWhile_cons, List.takeWhile_cons, outside_slash]
    cases hb : outside "?#" b with
    | false => exact ⟨fun _ => rfl, fun _ c hc => by cases hc⟩
    | true =>
      rw [Bool.true_and, if_pos rfl]
      by_cases hslash : b = slash
      · subst hslash
        exact ⟨fun _ => rfl, fun _ c hc => (Option.some.inj hc).symm⟩
      · rw [if_pos (bne_iff_ne.mpr hslash)]
        constructor
        · exact fun h => absurd (h b rfl) hslash
        · intro h
          cases h

section digits
variable {v : Bytes}

/-- Text without a digit at its start is no port. -/
theorem not_port (hnone : v.takeWhile Lib.Decimal.isDigit = []) :
    ¬ (v.takeWhile (outside "/?#") ≠ [] ∧
      ∀ c ∈ v.takeWhile (outside "/?#"), Lib.Decimal.isDigit c = true) := by
  rintro ⟨hne, hall⟩
  cases v with
  | nil => exact hne rfl
  | cons b v =>
    rw [List.takeWhile_cons] at hne hall
    split at hne
    · rename_i hout
      rw [if_pos hout] at hall
      have hb := hall b List.mem_cons_self
      rw [List.takeWhile_cons, if_pos hb] at hnone
      cases hnone
    · exact hne rfl

/-- Text with one is a port when nothing but digits comes before the path. -/
theorem port_iff (hsome : v.takeWhile Lib.Decimal.isDigit ≠ []) :
    (v.dropWhile Lib.Decimal.isDigit).takeWhile (outside "/?#") = [] ↔
      v.takeWhile (outside "/?#") ≠ [] ∧
        ∀ c ∈ v.takeWhile (outside "/?#"), Lib.Decimal.isDigit c = true := by
  have hdigits : ∀ c ∈ v.takeWhile Lib.Decimal.isDigit, outside "/?#" c = true := fun c hc =>
    isDigit_outside (takeWhile_all v c hc)
  have hv : v.takeWhile (outside "/?#") = v.takeWhile Lib.Decimal.isDigit ++
      (v.dropWhile Lib.Decimal.isDigit).takeWhile (outside "/?#") := by
    rw [← List.takeWhile_append_of_pos hdigits, List.takeWhile_append_dropWhile]
  rw [hv]
  constructor
  · intro hleft
    rw [hleft, List.append_nil]
    exact ⟨hsome, takeWhile_all v⟩
  · rintro ⟨-, hall⟩
    cases hleft : (v.dropWhile Lib.Decimal.isDigit).takeWhile (outside "/?#") with
    | nil => rfl
    | cons b w =>
      have hb := hall b (List.mem_append_right _ (by rw [hleft]; exact List.mem_cons_self))
      have hfirst : b ∈ (v.dropWhile Lib.Decimal.isDigit).head? := by
        cases hdrop : v.dropWhile Lib.Decimal.isDigit with
        | nil =>
          rw [hdrop] at hleft
          cases hleft
        | cons c u =>
          rw [hdrop, List.takeWhile_cons] at hleft
          split at hleft
          · rw [(List.cons.inj hleft).1]
            rfl
          · cases hleft
      rw [head?_dropWhile_false v b hfirst] at hb
      cases hb

end digits

/-- **A path starts with a slash**, unless text of the authority is left over. -/
theorem pathFirst_iff (rest : Bytes) :
    (∀ c ∈ (pathText rest).head?, c = slash) ↔ portPart rest = [] ∨
      (portPart rest).tail ≠ [] ∧ ∀ c ∈ (portPart rest).tail, Lib.Decimal.isDigit c = true := by
  rw [portPart_eq, pathText, head?_path_iff]
  rcases afterHost_cases rest with hnil | ⟨c, v, htail, hc⟩
  · rw [hnil]
    exact ⟨fun _ => .inl rfl, fun _ => rfl⟩
  rw [htail]
  by_cases hcolon : c = colon
  · subst hcolon
    have hauthority : ((colon :: v).takeWhile (outside "/?#")).dropWhile (· != colon) =
        colon :: v.takeWhile (outside "/?#") := rfl
    have hport : portOf (colon :: v) = v.takeWhile Lib.Decimal.isDigit := if_pos List.head?_cons
    rw [hauthority, pastPort, hport, List.tail_cons, List.tail_cons]
    by_cases hnone : v.takeWhile Lib.Decimal.isDigit = []
    · rw [if_pos hnone]
      constructor
      · intro h
        cases h
      · rintro (h | h)
        · cases h
        · exact absurd h (not_port hnone)
    · rw [if_neg hnone, port_iff hnone]
      constructor
      · exact .inr
      · exact fun h => h.resolve_left (List.cons_ne_nil _ _)
  · have hnone : portOf (c :: v) = [] := by
      rw [portOf, if_neg]
      exact fun h => hcolon (Option.some.inj h)
    have hnot : ¬ outside "/?#" c = true := by
      rw [hc.resolve_left hcolon]
      exact Bool.false_ne_true
    rw [pastPort, if_pos hnone, List.takeWhile_cons, if_neg hnot]
    exact ⟨fun _ => .inl rfl, fun _ => rfl⟩

/-- What the path leaves is what comes from the first of `?#` on. -/
theorem afterPath_eq (rest : Bytes) : afterPath rest = rest.dropWhile (outside "?#") := by
  have hhost : ∀ c ∈ hostText rest, outside "?#" c = true := fun c hc =>
    outside_append (by decide) (takeWhile_all rest c hc)
  have hskip : (afterHost rest).dropWhile (outside "?#") =
      (pastPort (afterHost rest)).dropWhile (outside "?#") := by
    rw [pastPort]
    split
    · rfl
    · rename_i hport
      have hcolon : (afterHost rest).head? = some colon := by
        apply Classical.byContradiction
        intro hnot
        exact hport (if_neg hnot)
      obtain ⟨v, hv⟩ := List.head?_eq_some_iff.mp hcolon
      have hdigits : ∀ c ∈ v.takeWhile Lib.Decimal.isDigit, outside "?#" c = true := fun c hc =>
        outside_of (by decide) (takeWhile_all v c hc)
      have hsplit : v = v.takeWhile Lib.Decimal.isDigit ++ v.dropWhile Lib.Decimal.isDigit :=
        List.takeWhile_append_dropWhile.symm
      rw [hv, List.tail_cons, List.dropWhile_cons, if_pos (by decide)]
      conv => lhs; rw [hsplit]
      exact List.dropWhile_append_of_pos hdigits
  conv => rhs; rw [← host_append rest]
  rw [List.dropWhile_append_of_pos hhost, hskip, afterPath]

/-! ## The target -/

theorem path_ofText (protocol rest : Bytes) : (UrlParts.ofText protocol rest).path =
    if pathText rest = [] then str "/" else pathText rest := by
  have happend : (UrlParts.ofText protocol rest).directory ++
      (UrlParts.ofText protocol rest).file = pathText rest := List.rdropWhile_append_rtakeWhile
  rw [UrlParts.path, happend]

/-- The target starts with a slash when the path does, or is empty. -/
theorem head?_target_iff (protocol rest : Bytes) :
    ((UrlParts.ofText protocol rest).path ++ (UrlParts.ofText protocol rest).query).head? =
      some slash ↔ ∀ c ∈ (pathText rest).head?, c = slash := by
  rw [path_ofText]
  cases pathText rest with
  | nil =>
    constructor
    · intro _ c hc
      cases hc
    · exact fun _ => rfl
  | cons b v =>
    rw [if_neg (List.cons_ne_nil _ _)]
    constructor
    · intro h c hc
      exact (Option.some.inj hc).symm.trans (Option.some.inj h)
    · intro h
      exact congrArg some (h b rfl)

/-- A fragment is in the target when a query brings it there. -/
theorem hash_target_iff (protocol rest : Bytes) :
    hash ∉ (UrlParts.ofText protocol rest).path ++ (UrlParts.ofText protocol rest).query ↔
      ((rest.dropWhile (outside "?#")).head? = some question →
        hash ∉ rest.dropWhile (outside "?#")) := by
  have hpath : hash ∉ (UrlParts.ofText protocol rest).path := by
    rw [path_ofText]
    split
    · decide
    · intro hmem
      exact absurd (takeWhile_all _ hash hmem) (by decide)
  change hash ∉ _ ++ queryOf (afterPath rest) ↔ _
  rw [List.mem_append, not_or, and_iff_right hpath, afterPath_eq, queryOf]
  split
  · rename_i h
    exact ⟨fun hnot _ => hnot, fun hnot => hnot h⟩
  · rename_i h
    exact ⟨fun _ hq => absurd hq h, fun _ hmem => by cases hmem⟩

/-- For a text behind a scheme. -/
theorem originForm_text (protocol rest : Bytes) :
    OriginForm ((UrlParts.ofText protocol rest).path ++ (UrlParts.ofText protocol rest).query) ↔
      TargetClean rest := by
  have hslash := head?_target_iff protocol rest
  have hfragment := hash_target_iff protocol rest
  constructor
  · rintro ⟨hs, hf⟩
    exact ⟨(pathFirst_iff rest).mp (hslash.mp hs), hfragment.mp hf⟩
  · rintro ⟨hport, hquery⟩
    exact ⟨hslash.mpr ((pathFirst_iff rest).mpr hport), hfragment.mpr hquery⟩

theorem afterScheme_append {p rest : Bytes} (hp : ∀ c ∈ p, outside ":/?#" c = true) :
    afterScheme (p ++ (str "://" ++ rest)) = rest := by
  have hsplit := span_append hp (v := str "://" ++ rest) fun c hc => by
    obtain rfl : colon = c := Option.some.inj hc
    decide
  rw [afterScheme, hsplit.2]
  rfl

/-- **When the target is in origin form.** -/
theorem originForm_iff {R : Type} [ResponseClass R] {env : Environment} {e : Engine} {r : R}
    {p : Prepared R} (hp : prepare env e r = some p) (hknown : p.parts.Known)
    (hspace : ∀ c ∈ (base r).url, isSpace c = false) :
    OriginForm (p.engine.url ++ p.parts.query) ↔ TargetClean (afterScheme (base r).url) := by
  obtain ⟨hparts, hcases⟩ := prepare_cases hp
  have hurl : p.engine.url = p.parts.path := by
    rcases hcases with ⟨-, -, hengine, -⟩ | ⟨-, -, hengine, -⟩
    · rw [hengine]; rfl
    · rw [hengine]
  have hline : ∀ c ∈ (base r).url, isSeparator c = false := by
    intro c hc
    cases hsep : isSeparator c with
    | false => rfl
    | true =>
      have hnot := hspace c hc
      simp only [isSeparator, Bool.or_eq_true, decide_eq_true_eq] at hsep
      rcases hsep with (rfl | rfl) | rfl <;> exact absurd hnot (by decide)
  have hprotocol : p.parts.protocol ≠ [] := by
    intro hnil
    rw [UrlParts.Known, hnil] at hknown
    exact absurd hknown (by decide)
  obtain ⟨scheme, rest, htext, -, hscheme, -, hdivided⟩ :=
    urlParts_protocol hline hparts hprotocol
  rw [hurl, htext, afterScheme_append hscheme, hdivided]
  exact originForm_text scheme rest

/-- A colon without a port, and a fragment behind a query. -/
theorem originForm_fails :
    ((prepare ⟨[], []⟩ .new (HttpResponse.new.setURL (str "http://h:/path"))).map
        fun p => p.engine.url ++ p.parts.query) = some (str ":/path") ∧
      ¬ OriginForm (str ":/path") ∧
    ((prepare ⟨[], []⟩ .new (HttpResponse.new.setURL (str "http://h/p?q#f"))).map
        fun p => p.engine.url ++ p.parts.query) = some (str "/p?q#f") ∧
      ¬ OriginForm (str "/p?q#f") := by
  refine ⟨by decide, fun h => ?_, by decide, fun h => ?_⟩
  · exact absurd h.slash (by decide)
  · exact absurd (by decide) h.fragment

/-- `http://h:80/p` has a port. -/
theorem originForm_iff_port : OriginForm (str "/p") ↔ TargetClean (str "h:80/p") := by
  let parts : UrlParts := ⟨str "http", str "h", str "80", str "/", str "p", []⟩
  let r : HttpResponse := HttpResponse.new.setURL (str "http://h:80/p")
  have hparts : urlParts (base r).url = some parts := by decide
  have hp := prepare_known ⟨[], []⟩ .new hparts (.inl (by decide))
  have hendpoint : endpoint ⟨[], []⟩ parts = some ⟨str "h", str "80"⟩ := rfl
  rw [hendpoint, Option.map_some] at hp
  exact originForm_iff hp (.inl (by decide)) (forall_of_all (by decide))

end Anetd
