import Anetd.Conclusions
import Anetd.Lib.Split

/-!
# Streams that end too early

A stream is truncated when it ends inside the header section, or inside a body
whose length the head has announced, both as HTTP has them. `receive` treats
every end of a stream alike, and cuts heads and lengths in its own way, so what
it makes of a truncated stream depends on how it concludes
(`truncation_reported_iff`).
-/

namespace Anetd

open Lib.Machine

/-! ## Messages as HTTP has them -/

/-- A line with nothing on it. -/
def Blank (line : Bytes) : Prop := line = [] ∨ line = [cr]

instance (line : Bytes) : Decidable (Blank line) := inferInstanceAs (Decidable (_ ∨ _))

/-- The head of a message: a status line and header lines, up to the first that
is blank. A line ends with a line feed, and may have a carriage return before it. -/
structure HttpHead where
  first : Bytes
  lines : List Bytes
  last : Bytes
  first_ok : lf ∉ first
  lines_ok : ∀ line ∈ lines, lf ∉ line ∧ ¬ Blank line
  last_ok : Blank last

namespace HttpHead
variable (m : HttpHead)

def text : Bytes := (m.first :: m.lines ++ [m.last]).flatMap (· ++ [lf])

/-- The status line says that the request has succeeded. -/
def Succeeds : Prop :=
  ∃ version code reason n, m.first = version ++ sp :: (code ++ sp :: reason) ∧ sp ∉ version ∧
    Lib.Decimal.IsNumeral code n ∧ 200 ≤ n ∧ n < 300

/-- A header line that says how long the body is, in any letter case and with
any white space around the value. -/
def LengthLine (line value : Bytes) : Prop :=
  ∃ name before behind, line = name ++ colon :: (before ++ value ++ behind) ∧
    toLower name = toLower contentLength ∧ ∀ c ∈ before ++ behind, c = sp ∨ c = tab ∨ c = cr

/-- The header lines announce a body of `n` bytes, and none of another length. -/
structure Announces (n : Nat) : Prop where
  said : ∃ line ∈ m.lines, ∃ v, LengthLine line v ∧ Lib.Decimal.IsNumeral v n
  alike : ∀ line ∈ m.lines, ∀ v k, LengthLine line v → Lib.Decimal.IsNumeral v k → k = n

/-- A line has one value. -/
theorem LengthLine.unique {line v w : Bytes} {k n : Nat} (hv : LengthLine line v)
    (hw : LengthLine line w) (hk : Lib.Decimal.IsNumeral v k) (hn : Lib.Decimal.IsNumeral w n) :
    k = n := by
  obtain ⟨name, before, behind, hline, hname, hspace⟩ := hv
  obtain ⟨name', before', behind', hline', hname', hspace'⟩ := hw
  have hcolon {name : Bytes} (h : toLower name = toLower contentLength) : colon ∉ name := by
    intro hin
    have hlower : colon ∈ toLower name := List.mem_map_of_mem hin
    rw [h] at hlower
    exact absurd hlower (by decide)
  have hdigits {before v behind : Bytes} {k : Nat}
      (hspace : ∀ c ∈ before ++ behind, c = sp ∨ c = tab ∨ c = cr)
      (hv : Lib.Decimal.IsNumeral v k) :
      (before ++ v ++ behind).filter Lib.Decimal.isDigit = v := by
    have hnone {s : Bytes} (hs : ∀ c ∈ s, c ∈ before ++ behind) :
        s.filter Lib.Decimal.isDigit = [] := by
      refine List.filter_eq_nil_iff.mpr fun c hc => ?_
      rcases hspace c (hs c hc) with rfl | rfl | rfl <;> decide
    rw [List.filter_append, List.filter_append, hnone fun c => List.mem_append_left _,
      hnone fun c => List.mem_append_right _, List.filter_eq_self.mpr hv.digits, List.nil_append,
      List.append_nil]
  have hcut := Lib.Split.cut_append (hcolon hname) (before ++ v ++ behind)
  rw [← hline, hline', Lib.Split.cut_append (hcolon hname')] at hcut
  have hsame : w = v := by
    rw [← hdigits hspace hk, ← hdigits hspace' hn]
    exact congrArg (List.filter Lib.Decimal.isDigit) (Prod.mk.inj (Option.some.inj hcut)).2
  rw [← hk.denotes, ← hn.denotes, hsame]

end HttpHead

/-- The header section has not ended. -/
def HeadIncomplete (bs : Bytes) : Prop := ¬ ∃ m : HttpHead, ∃ rest, bs = m.text ++ rest

/-- The stream begins with a 2xx head that announces `n` body bytes, and has
fewer of them. -/
def BodyShort (bs : Bytes) (n : Nat) : Prop :=
  ∃ m : HttpHead, ∃ rest, bs = m.text ++ rest ∧ m.Succeeds ∧ m.Announces n ∧ rest.length < n

def Truncated (bs : Bytes) : Prop := HeadIncomplete bs ∨ ∃ n, BodyShort bs n

/-! ## When a truncation is reported -/

/-- A truncated stream makes the call throw or leaves a negative status; and a
call that returns with a 2xx status and an announced length has received just
that many body bytes. -/
structure TruncationReported {R : Type} [ResponseClass R] (bs : Bytes) (r : R) (x : Exit R) :
    Prop where
  reported : Truncated bs →
    (∃ y, x.result = .error (.threw y)) ∨ (base x.response).status < 0
  exact : x.result = .ok false →
    200 ≤ (base x.response).status → (base x.response).status < 300 →
    ∀ (m : HttpHead) (rest : Bytes) (n : Nat), bs = m.text ++ rest → m.Announces n →
      (base x.response).progress = (base r).progress + n

/-- What has to hold of the pieces of a stream for that. If they are truncated,
a call on them concludes with a negative status, if at all; and if it concludes
with a 2xx status, it takes as many bytes for the body as are announced. -/
structure Reportable {R : Type} [ResponseClass R] [Draining R] (d : Disconnection) (e : Engine)
    (r : R) (ps : List Bytes) : Prop where
  truncated : Truncated ps.flatten → ∀ c, Concludes d e r ps c → c.status < 0
  counted : ∀ c, Concludes d e r ps c → c.returns ≠ some true → 200 ≤ c.status → c.status < 300 →
    ∀ (m : HttpHead) (rest : Bytes) (n : Nat), ps.flatten = m.text ++ rest → m.Announces n →
      c.received = n

section
variable {R : Type} [ResponseClass R] [LawfulResponse R] [Draining R]

/-- A call that concludes, and then meets the end of the stream, returns. -/
theorem Concludes.returns {d : Disconnection} {e : Engine} {r : R} {ps : List Bytes}
    {c : Conclusion} (h : Concludes d e r ps c) :
    (turns d (some (.systemError .eof)) ps (.start e r)).result = .ok (c.returns.getD false) := by
  rw [(h.shows _).result]
  cases c.returns with
  | none => rfl
  | some again => rfl

/-- **A truncation is reported exactly where the call throws or concludes so.** -/
theorem turns_reported_iff (d : Disconnection) (e : Engine) (r : R) (ps : List Bytes) :
    TruncationReported ps.flatten r (turns d (some (.systemError .eof)) ps (.start e r)) ↔
      Reportable d e r ps := by
  constructor
  · intro h
    refine ⟨fun htruncated c hc => ?_, fun c hc hagain hlow hhigh m rest n hsplit hn => ?_⟩
    · rcases h.reported htruncated with ⟨y, hthrew⟩ | hnegative
      · rw [hc.returns] at hthrew
        cases hthrew
      · rwa [(hc.shows _).status] at hnegative
    · have hshows := hc.shows (some (.systemError .eof))
      have hresult : c.returns.getD false = false := by
        cases hreturns : c.returns with
        | none => rfl
        | some again =>
          cases again with
          | false => rfl
          | true => exact absurd hreturns hagain
      have hprogress := h.exact (by rw [hc.returns, hresult]) (by rwa [hshows.status])
        (by rwa [hshows.status]) m rest n hsplit hn
      rw [hshows.received] at hprogress
      exact Nat.add_left_cancel hprogress
  · intro h
    rcases concludes_or_throws d e r ps (some (.systemError .eof)) with ⟨c, hc⟩ | ⟨y, hthrew⟩
    · have hshows := hc.shows (some (.systemError .eof))
      refine ⟨fun htruncated => .inr ?_, fun hresult hlow hhigh m rest n hsplit hn => ?_⟩
      · rw [hshows.status]
        exact h.truncated htruncated c hc
      · rw [hshows.status] at hlow hhigh
        have hagain : c.returns ≠ some true := by
          intro hagain
          rw [hc.returns, hagain] at hresult
          cases hresult
        rw [hshows.received, h.counted c hc hagain hlow hhigh m rest n hsplit hn]
    · refine ⟨fun _ => .inl ⟨y, hthrew⟩, fun hresult => ?_⟩
      rw [hthrew] at hresult
      cases hresult

end

/-- Its head as HTTP has it. -/
def fiveHead : HttpHead where
  first := str "HTTP/1.0 200 OK\r"
  lines := [str "Content-Length: 5\r"]
  last := [cr]
  first_ok := by decide
  lines_ok := by decide
  last_ok := by decide

theorem fiveHead_succeeds : fiveHead.Succeeds :=
  ⟨str "HTTP/1.0", str "200", str "OK\r", 200, by decide, by decide, code200_ok, by decide,
    by decide⟩

theorem fiveHead_announces : fiveHead.Announces 5 := by
  have hline : HttpHead.LengthLine (str "Content-Length: 5\r") (str "5") :=
    ⟨contentLength, [sp], [cr], by decide, rfl, by simp⟩
  have hfive : Lib.Decimal.IsNumeral (str "5") 5 := Lib.Decimal.isNumeral_render 5
  refine ⟨⟨_, List.mem_singleton_self _, str "5", hline, hfive⟩, ?_⟩
  intro line hin v k hv hk
  rw [List.mem_singleton.mp hin] at hv
  exact hv.unique hline hk hfive

end Anetd
