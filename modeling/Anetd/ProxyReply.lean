import Anetd.Head
import Anetd.Lib.Split
import Anetd.Receive

/-!
# The reply to `CONNECT`

The loop in `http_engine::send` that waits for a proxy. It makes a string of
the whole buffer after its first read, up to the first NUL, and looks at the
second word of it. `handshakeSound_iff` says for which replies this reads a
response head.
-/

namespace Anetd

open Lib.Split

/-- `std::string(data)` for a buffer of `size` bytes; `none` when the buffer
has no NUL. -/
def cString (buffer : Buffer) (size : Nat) : Option Bytes :=
  let cells := (List.range size).map buffer
  if 0 ∈ cells then some (cells.takeWhile (· != 0)) else none

/-- The body of the loop, with the string made of the buffer: a `break`, an
index out of range, or a `throw;` outside of any handler. -/
def readProxyResponse (proxyresponse : Option Bytes) : Except Stop Unit :=
  match proxyresponse with
  | none => .error .undefined
  | some text =>
    match (splitRuns isSpace text)[1]? with
    | none => .error .undefined
    | some code => if code = str "200" then .ok () else .error .terminated

/-- The loop around `read_some`, in a buffer that holds `memory` before the
first read, and the reads it leaves. Every way through its body ends it. -/
def awaitProxy (memory : Buffer) : List (Read 1024) → Except Stop Unit × List (Read 1024)
  | [] => (.error .blocked, [])
  | .error ec :: reads => (.error (.threw (.systemError ec)), reads)
  | .data c :: reads => (readProxyResponse (cString (memory.store c.bytes) 1024), reads)

/-! ## Heads of replies -/

/-- Lines with their line ends, and the empty line behind them. -/
def linesText (lines : List Bytes) : Bytes := lines.flatMap (· ++ crlf) ++ crlf

theorem linesText_cons (l : Bytes) (ls : List Bytes) (rest : Bytes) :
    linesText (l :: ls) ++ rest = l ++ cr :: (lf :: (linesText ls ++ rest)) := by
  simp only [linesText, crlf, List.flatMap_cons, List.append_assoc, List.cons_append,
    List.nil_append]

/-- Lines that can be told apart: not empty, and free of line ends. -/
def Lines (ls : List Bytes) : Prop := ∀ l ∈ ls, l ≠ [] ∧ cr ∉ l ∧ lf ∉ l

/-- The lines before the first empty one are determined by the text. -/
theorem linesText_unique {ls ks : List Bytes} (hls : Lines ls) (hks : Lines ks) {rest rest' : Bytes}
    (h : linesText ls ++ rest = linesText ks ++ rest') : ls = ks := by
  have nonempty_line {l : Bytes} (hl : l ≠ [] ∧ cr ∉ l ∧ lf ∉ l) (ms : List Bytes)
      (rest rest' : Bytes) : linesText (l :: ms) ++ rest ≠ linesText [] ++ rest' := by
    intro heq
    rw [linesText_cons] at heq
    cases l with
    | nil => exact hl.1 rfl
    | cons c cs =>
      have hc : c = cr := (List.cons.inj heq).1
      exact hl.2.1 (hc ▸ List.mem_cons_self)
  induction ls generalizing ks with
  | nil =>
    cases ks with
    | nil => rfl
    | cons k ks => exact absurd h.symm (nonempty_line (hks k List.mem_cons_self) ks _ _)
  | cons l ls ih =>
    cases ks with
    | nil => exact absurd h (nonempty_line (hls l List.mem_cons_self) ls _ _)
    | cons k ks =>
      have hl := (hls l List.mem_cons_self).2.1
      have hk := (hks k List.mem_cons_self).2.1
      rw [linesText_cons, linesText_cons] at h
      have hline : l = k := by
        have htake := congrArg (List.takeWhile (· != cr)) h
        rwa [takeWhile_ne hl, takeWhile_ne hk] at htake
      subst hline
      have htail := List.append_cancel_left h
      have hrest := (List.cons.inj (List.cons.inj htail).2).2
      rw [ih (fun m hm => hls m (List.mem_cons_of_mem _ hm))
        (fun m hm => hks m (List.mem_cons_of_mem _ hm)) hrest]

/-- The head of a reply with status 200. -/
structure ReplyHead where
  version : Bytes
  reason : Bytes
  lines : List Bytes
  version_ok : ∀ c ∈ version, isSpace c = false
  reason_ok : reason = [] ∨ reason.head? = some sp
  reason_line : cr ∉ reason ∧ lf ∉ reason
  lines_ok : Lines lines

namespace ReplyHead

variable (h : ReplyHead)

def statusLine : Bytes := h.version ++ sp :: (str "200" ++ h.reason)

def text : Bytes := linesText (h.statusLine :: h.lines)

theorem statusLine_ok : h.statusLine ≠ [] ∧ cr ∉ h.statusLine ∧ lf ∉ h.statusLine := by
  have hversion {c : Byte} (hc : isSpace c = true) : c ∉ h.version := by
    intro hin
    rw [h.version_ok c hin] at hc
    cases hc
  have hcode : cr ∉ sp :: str "200" ∧ lf ∉ sp :: str "200" := by decide
  refine ⟨?_, ?_, ?_⟩
  · intro hnil
    exact absurd (List.append_eq_nil_iff.mp hnil).2 (List.cons_ne_nil _ _)
  · rw [statusLine, ← List.cons_append, List.mem_append, List.mem_append]
    rintro (hin | hin | hin)
    · exact hversion (by decide) hin
    · exact hcode.1 hin
    · exact h.reason_line.1 hin
  · rw [statusLine, ← List.cons_append, List.mem_append, List.mem_append]
    rintro (hin | hin | hin)
    · exact hversion (by decide) hin
    · exact hcode.2 hin
    · exact h.reason_line.2 hin

theorem text_unique {h k : ReplyHead} {rest rest' : Bytes}
    (heq : h.text ++ rest = k.text ++ rest') : h.text = k.text := by
  have hlines (h : ReplyHead) : Lines (h.statusLine :: h.lines) := by
    intro l hl
    rcases List.mem_cons.mp hl with rfl | hl
    · exact h.statusLine_ok
    · exact h.lines_ok l hl
  rw [text, text, linesText_unique (hlines h) (hlines k) heq]

theorem text_ne_nil : h.text ≠ [] := by
  intro hnil
  have hlast := (List.append_eq_nil_iff.mp hnil).2
  exact absurd hlast (by decide)

end ReplyHead

/-! ## What the loop makes of a reply -/

section await
variable {bs : Bytes} (cut : Cut 1024 bs) (ending : ErrorCode)

/-- The loop tells a head with status 200 from everything else: it takes just
the head, refuses what does not begin with one by an exception, and stays
within the bytes it has received. -/
structure HandshakeSound : Prop where
  accepts : ∀ (h : ReplyHead) (rest : Bytes), bs = h.text ++ rest → ∀ memory,
    (awaitProxy memory (cut.reads ending)).1 = .ok () ∧
      ∃ taken : List (Chunk 1024), (taken.map Chunk.bytes).flatten = h.text ∧
        cut.reads ending = taken.map .data ++ (awaitProxy memory (cut.reads ending)).2
  rejects : (¬ ∃ h : ReplyHead, ∃ rest, bs = h.text ++ rest) → ∀ memory,
    ∃ x, (awaitProxy memory (cut.reads ending)).1 = .error (.threw x)
  received : ∀ c cs, cut.chunks = c :: cs → ∀ memory : Buffer,
    ∃ s, cString (memory.store c.bytes) 1024 = some s ∧ s.length < c.bytes.length

/-- Nothing arrives before the connection fails; or the first read is a whole
head with status 200 that has a NUL in it, behind the status. -/
def Acceptable : Prop :=
  cut.chunks = [] ∨ ∃ (c : Chunk 1024) (cs : List (Chunk 1024)) (h : ReplyHead),
    cut.chunks = c :: cs ∧ c.bytes = h.text ∧ 0 ∈ c.bytes ∧
      (splitRuns isSpace (c.bytes.takeWhile (· != 0)))[1]? = some (str "200")

end await

theorem cells_store (memory : Buffer) {bs : Bytes} {size : Nat} (h : bs.length ≤ size) :
    (List.range size).map (memory.store bs) =
      bs ++ (List.range' bs.length (size - bs.length)).map memory := by
  apply List.ext_getElem
  · simp only [List.length_map, List.length_range, List.length_append, List.length_range']
    omega
  · intro i h₁ h₂
    rw [List.getElem_map, List.getElem_range, Buffer.store, List.getD_eq_getElem?_getD]
    by_cases hi : i < bs.length
    · rw [List.getElem?_eq_getElem hi, Option.getD_some, List.getElem_append_left hi]
    · rw [List.getElem?_eq_none (by omega), Option.getD_none,
        List.getElem_append_right (by omega), List.getElem_map, List.getElem_range',
        Nat.one_mul, Nat.add_sub_cancel' (by omega)]

/-- The string stays within the received bytes exactly when they have a NUL. -/
theorem cString_received {c : Chunk 1024} {memory : Buffer} :
    (∃ s, cString (memory.store c.bytes) 1024 = some s ∧ s.length < c.bytes.length) ↔
      0 ∈ c.bytes := by
  rw [cString, cells_store memory c.le]
  constructor
  · rintro ⟨s, hs, hlen⟩
    apply Classical.byContradiction
    intro hnone
    have all : ∀ b ∈ c.bytes, (b != 0) = true := fun b hb => bne_iff_ne.mpr fun e => hnone (e ▸ hb)
    split at hs
    · rw [List.takeWhile_append_of_pos all] at hs
      rw [← Option.some.inj hs, List.length_append] at hlen
      omega
    · cases hs
  · intro hnul
    obtain ⟨before, after, hsplit, hbefore⟩ := List.eq_append_cons_of_mem hnul
    refine ⟨before, ?_, ?_⟩
    · have hin : (0 : Byte) ∈ c.bytes ++ (List.range' c.bytes.length
          (1024 - c.bytes.length)).map memory := List.mem_append_left _ hnul
      simp only [hin, if_true]
      rw [hsplit, List.append_assoc, List.cons_append, takeWhile_ne hbefore]
    · rw [hsplit, List.length_append, List.length_cons]
      omega

theorem cString_nul {c : Chunk 1024} (hnul : 0 ∈ c.bytes) (memory : Buffer) :
    cString (memory.store c.bytes) 1024 = some (c.bytes.takeWhile (· != 0)) := by
  obtain ⟨before, after, hsplit, hbefore⟩ := List.eq_append_cons_of_mem hnul
  have hin : (0 : Byte) ∈ c.bytes ++ (List.range' c.bytes.length
      (1024 - c.bytes.length)).map memory := List.mem_append_left _ hnul
  rw [cString, cells_store memory c.le]
  simp only [hin, if_true]
  rw [hsplit, List.append_assoc, List.cons_append, takeWhile_ne hbefore, takeWhile_ne hbefore]

/-- In a cleared buffer the string is what was received. -/
theorem cString_cleared {c : Chunk 1024} (hnul : 0 ∉ c.bytes) (hroom : c.bytes.length < 1024) :
    cString (Buffer.store (fun _ => 0) c.bytes) 1024 = some c.bytes := by
  obtain ⟨room, hlength⟩ := Nat.exists_eq_add_of_lt hroom
  have hfill : 1024 - c.bytes.length = room + 1 := by omega
  rw [cString, cells_store _ c.le, hfill, List.range'_succ, List.map_cons]
  have hin : (0 : Byte) ∈ c.bytes ++ 0 ::
      (List.range' (c.bytes.length + 1) room).map fun _ => 0 :=
    List.mem_append_right _ List.mem_cons_self
  simp only [hin, if_true]
  rw [takeWhile_ne hnul]

theorem readProxyResponse_ok {text : Bytes} : readProxyResponse (some text) = .ok () ↔
    (splitRuns isSpace text)[1]? = some (str "200") := by
  rw [readProxyResponse]
  cases (splitRuns isSpace text)[1]? with
  | none => constructor <;> (intro h; cases h)
  | some code =>
    simp only [Option.some.injEq]
    constructor
    · intro h
      split at h
      · assumption
      · cases h
    · intro h
      rw [if_pos h]

/-- No reply that has arrived makes the loop throw an exception. -/
theorem readProxyResponse_ne_threw (text : Option Bytes) (x : Exn) :
    readProxyResponse text ≠ .error (.threw x) := by
  unfold readProxyResponse
  split
  · intro h
    cases h
  · split
    · intro h
      cases h
    · split <;> (intro h; cases h)

section await
variable {bs : Bytes} {cut : Cut 1024 bs} {ending : ErrorCode}

theorem acceptable_of_sound (h : HandshakeSound cut ending) : Acceptable cut := by
  cases hchunks : cut.chunks with
  | nil => exact .inl hchunks
  | cons c cs =>
    right
    have hreads : cut.reads ending = .data c :: (cs.map .data ++ [.error ending]) := by
      rw [Cut.reads, hchunks, List.map_cons, List.cons_append]
    have hnul : 0 ∈ c.bytes := cString_received.mp (h.received c cs hchunks fun _ => 0)
    by_cases hhead : ∃ k : ReplyHead, ∃ rest, bs = k.text ++ rest
    · obtain ⟨k, rest, hsplit⟩ := hhead
      obtain ⟨hok, taken, htaken, hunread⟩ := h.accepts k rest hsplit fun _ => 0
      rw [hreads] at hok hunread
      simp only [awaitProxy, cString_nul hnul, readProxyResponse_ok] at hok hunread
      have hlength := congrArg List.length hunread
      simp only [List.length_cons, List.length_append, List.length_map] at hlength
      have hone : taken.length = 1 := by omega
      obtain ⟨c', rfl⟩ := List.length_eq_one_iff.mp hone
      have hc : c = c' := Read.data.inj (List.cons.inj hunread).1
      subst hc
      refine ⟨c, cs, k, hchunks, ?_, hnul, hok⟩
      simpa only [List.map_cons, List.map_nil, List.flatten_cons, List.flatten_nil,
        List.append_nil] using htaken
    · obtain ⟨x, hx⟩ := h.rejects hhead fun _ => 0
      rw [hreads] at hx
      simp only [awaitProxy] at hx
      exact absurd hx (readProxyResponse_ne_threw _ x)

theorem sound_of_acceptable (h : Acceptable cut) : HandshakeSound cut ending := by
  rcases h with hchunks | ⟨c, cs, k, hchunks, hk, hnul, hword⟩
  · have hbs : bs = [] := by rw [← cut.join, hchunks]; rfl
    have hreads : cut.reads ending = [.error ending] := by rw [Cut.reads, hchunks]; rfl
    refine ⟨?_, ?_, ?_⟩
    · intro k rest hsplit
      rw [hbs] at hsplit
      exact absurd (List.append_eq_nil_iff.mp hsplit.symm).1 k.text_ne_nil
    · intro _ memory
      rw [hreads]
      exact ⟨_, rfl⟩
    · intro c cs hcons
      rw [hchunks] at hcons
      cases hcons
  · have hbs : bs = k.text ++ (cs.map Chunk.bytes).flatten := by
      rw [← cut.join, hchunks, List.map_cons, List.flatten_cons, hk]
    have hreads : cut.reads ending = .data c :: (cs.map .data ++ [.error ending]) := by
      rw [Cut.reads, hchunks, List.map_cons, List.cons_append]
    refine ⟨?_, ?_, ?_⟩
    · intro k' rest hsplit memory
      have htext : k.text = k'.text := ReplyHead.text_unique (hbs.symm.trans hsplit)
      rw [hreads]
      simp only [awaitProxy, cString_nul hnul, readProxyResponse_ok]
      refine ⟨hword, [c], ?_, rfl⟩
      rw [← htext, ← hk]
      simp only [List.map_cons, List.map_nil, List.flatten_cons, List.flatten_nil, List.append_nil]
    · intro hnone
      exact absurd ⟨k, _, hbs⟩ hnone
    · intro c' cs' hcons memory
      rw [hchunks] at hcons
      rw [← (List.cons.inj hcons).1]
      exact cString_received.mpr hnul

/-- **When the loop tells the replies apart.** -/
theorem handshakeSound_iff (cut : Cut 1024 bs) (ending : ErrorCode) :
    HandshakeSound cut ending ↔ Acceptable cut := by
  constructor
  · exact acceptable_of_sound
  · exact sound_of_acceptable

end await

/-- The refusal of a proxy that wants credentials. -/
def refusal : Bytes := str "HTTP/1.0 407 Proxy Authentication Required\r\n\r\n"

/-- All of it in one read. -/
def refusalCut : Cut 1024 refusal := Cut.whole _ (by decide) (by decide)

/-- It ends the program, where an exception was to refuse it. -/
theorem refusal_terminates :
    (awaitProxy (fun _ => 0) (refusalCut.reads .eof)).1 = .error .terminated ∧
      ¬ HandshakeSound refusalCut .eof := by
  have hnul : 0 ∉ refusal := by decide
  constructor
  · have hread := cString_cleared (c := ⟨refusal, by decide, by decide⟩) hnul (by decide)
    have hended : readProxyResponse (some refusal) = .error .terminated := by rfl
    have hreads : refusalCut.reads .eof =
        [.data ⟨refusal, by decide, by decide⟩, .error .eof] := rfl
    simp only [hreads, awaitProxy, hread, hended]
  · intro hsound
    exact hnul (cString_received.mp (hsound.received _ [] rfl fun _ => 0))

end Anetd
