import Anetd.Parser

/-!
# The read loop

`receive` as the source has it: an outer loop that reads into a buffer, an
inner loop that walks it, the flush after each read, and the handlers around
both. The reads the transport will answer are a list; a call that wants one
more than there are is `blocked`. A call also gives back the reads it did not
ask for.

The last part proves what the loops compute. For a transport that never
reports a read of zero bytes, they are one run of the parser over all the
bytes (`receive_eq_parse`), so the cut into reads cannot be observed
(`receive_cut_independent`).
-/

namespace Anetd

open Lib.Machine

/-- The buffer of `receive`, by position. Before the first read its cells hold
whatever the allocation left there. -/
abbrev Buffer := Nat → Byte

/-- The buffer after a read has stored bytes from its start. -/
def Buffer.store (buffer : Buffer) (bs : Bytes) : Buffer := fun i => bs.getD i (buffer i)

/-- `http_engine::sockget`: the count it returns, and the buffer after it. -/
def sockget (type : HttpType) (o : Read 2048) (buffer : Buffer) : Except Exn (Nat × Buffer) :=
  match type with
  | .plainHttp =>
    match o with
    | .data c => .ok (c.bytes.length, buffer.store c.bytes)
    | .error ec => .error (.systemError ec)
  | .sslHttps =>
    let (retsize, es, buffer) := match o with
      | .data c => (c.bytes.length, ErrorCode.success, buffer.store c.bytes)
      | .error ec => (0, ec, buffer)
    if es.sslFailure then .ok (retsize, buffer)
    else if retsize = 0 then .error (.systemError .eof)
    else .ok (retsize, buffer)

variable {R : Type} [ResponseClass R]

/-- The inner `do … while (position < buffer + bytes_read)`, entered at
`position`. It looks at its first byte before it tests the count. -/
def scan (d : Disconnection) (buffer : Buffer) (bytesRead position : Nat) (f : Frame R) :
    Except (Exit R) (Frame R) :=
  if f.parserState = .ok then .ok f
  else do
    let f ← step d f (buffer position)
    if position + 1 < bytesRead then scan d buffer bytesRead (position + 1) f else .ok f
termination_by bytesRead - position

/-- The handlers of `receive`: the end of the stream is a normal return. -/
def handle (x : Exn) (f : Frame R) : Exit R :=
  if x = .systemError .eof then
    ⟨.ok false, f.engine, update (fun b => b.setBodySize b.body.length) f.response⟩
  else ⟨.error (.threw x), f.engine, f.response⟩

/-- The lines after the outer loop. -/
def complete (f : Frame R) : Exit R :=
  ⟨.ok false, f.engine, ResponseClass.completed f.response⟩

/-- The outer `do … while (parser_state != ANETD_OK)`. -/
def receiveLoop (d : Disconnection) :
    List (Read 2048) → Buffer → Frame R → Exit R × List (Read 2048)
  | [], _, f => (⟨.error .blocked, f.engine, f.response⟩, [])
  | o :: reads, buffer, f =>
    match sockget f.engine.httpType o buffer with
    | .error x => (handle x f, reads)
    | .ok (bytesRead, buffer) =>
      match scan d buffer bytesRead 0 f with
      | .error x => (x, reads)
      | .ok f =>
        match ResponseClass.flush f.response with
        | .error (x, r) => (⟨.error (.threw x), f.engine, r⟩, reads)
        | .ok r =>
          let f := { f with response := r }
          if f.parserState = .ok then (complete f, reads)
          else receiveLoop d reads buffer f

/-- `http_engine::receive`. -/
def receive (d : Disconnection) (reads : List (Read 2048)) (buffer : Buffer) (e : Engine) (r : R) :
    Exit R × List (Read 2048) :=
  receiveLoop d reads buffer (.start e r)

/-! ## The inner loop -/

/-- The bytes the inner loop walks: those the count covers, and at least one. -/
def scanned (buffer : Buffer) (bytesRead position : Nat) : Bytes :=
  (List.range' position (max (bytesRead - position) 1)).map buffer

theorem scanned_step {buffer : Buffer} {bytesRead position : Nat} :
    scanned buffer bytesRead position = buffer position ::
      (if position + 1 < bytesRead then scanned buffer bytesRead (position + 1) else []) := by
  unfold scanned
  split
  · have hmax : max (bytesRead - position) 1 = max (bytesRead - (position + 1)) 1 + 1 := by omega
    rw [hmax, List.range'_succ, List.map_cons]
  · have hmax : max (bytesRead - position) 1 = 1 := by omega
    rw [hmax, List.range'_succ, List.map_cons, List.range'_zero, List.map_nil]

theorem parse_ok_state (d : Disconnection) {f : Frame R} (h : f.parserState = .ok) (bs : Bytes) :
    parse d f bs = .ok f :=
  run_done (fun (f : Frame R) c hs => step_ok_state d (f := f) (of_decide_eq_true hs) c)
    (decide_eq_true h) bs

/-- **The inner loop is a run of the parser over the bytes it walks.** -/
theorem scan_eq_parse (d : Disconnection) (buffer : Buffer) (bytesRead position : Nat)
    (f : Frame R) :
    scan d buffer bytesRead position f = parse d f (scanned buffer bytesRead position) := by
  generalize hn : bytesRead - position = n
  induction n using Nat.strongRecOn generalizing position f with
  | ind n ih =>
    rw [scan, scanned_step]
    split
    · rename_i hok
      exact (parse_ok_state d hok _).symm
    · rw [parse, run_cons]
      cases step d f (buffer position) with
      | error x => rfl
      | ok g =>
        change (if position + 1 < bytesRead then _ else _) = parse d g (if _ then _ else _)
        split
        · exact ih (bytesRead - (position + 1)) (by omega) (position + 1) g rfl
        · rfl

/-- A count of zero has one byte walked. -/
theorem scanned_zero (buffer : Buffer) : scanned buffer 0 0 = [buffer 0] := by
  rw [scanned_step]
  rfl

theorem scanned_store (buffer : Buffer) (c : Chunk 2048) :
    scanned (buffer.store c.bytes) c.bytes.length 0 = c.bytes := by
  have hpos := c.pos
  have hmax : max (c.bytes.length - 0) 1 = c.bytes.length := by omega
  rw [scanned, hmax]
  apply List.ext_getElem
  · simp only [List.length_map, List.length_range']
  · intro i h₁ h₂
    simp only [List.getElem_map, List.getElem_range', Buffer.store, List.getD_eq_getElem?_getD,
      Nat.zero_add, Nat.one_mul, List.getElem?_eq_getElem h₂, Option.getD_some]

/-! ## The outer loop -/

theorem sockget_data (type : HttpType) (c : Chunk 2048) (buffer : Buffer) :
    sockget type (.data c) buffer = .ok (c.bytes.length, buffer.store c.bytes) := by
  have hpos : c.bytes.length ≠ 0 := Nat.pos_iff_ne_zero.mp c.pos
  cases type with
  | plainHttp => rfl
  | sslHttps => simp [sockget, ErrorCode.sslFailure, ErrorCode.success, hpos]

/-- What a failed read throws out of `sockget`; `none` when it returns a
count of zero instead. -/
def thrown (type : HttpType) (ec : ErrorCode) : Option Exn :=
  match type with
  | .plainHttp => some (.systemError ec)
  | .sslHttps => if ec.sslFailure then none else some (.systemError .eof)

/-- The errors that say a stream has ended: `eof`, and over TLS also the
short-read code. -/
def endOfStream (type : HttpType) (ec : ErrorCode) : Prop :=
  ec = .eof ∨ type = .sslHttps ∧ ec = .truncated

theorem thrown_endOfStream {type : HttpType} {ec : ErrorCode} (h : endOfStream type ec) :
    thrown type ec = some (.systemError .eof) := by
  rcases h with rfl | ⟨rfl, rfl⟩
  · cases type <;> decide
  · decide

theorem sockget_error (type : HttpType) (ec : ErrorCode) (buffer : Buffer) :
    sockget type (.error ec) buffer =
      match thrown type ec with
      | some x => .error x
      | none => .ok (0, buffer) := by
  cases type with
  | plainHttp => rfl
  | sslHttps =>
    simp only [sockget, thrown]
    split <;> rfl

def Frame.done (f : Frame R) : Bool := f.parserState = .ok

theorem step_done (d : Disconnection) (f : Frame R) (c : Byte) (h : f.done = true) :
    step d f c = .ok f :=
  step_ok_state d (by simpa [Frame.done] using h) c

theorem sockget_throws {type : HttpType} {o : Read 2048} {buffer : Buffer} {x : Exn}
    (h : sockget type o buffer = .error x) : ∃ ec, x = .systemError ec := by
  cases o with
  | data c =>
    rw [sockget_data] at h
    cases h
  | error ec =>
    rw [sockget_error] at h
    cases type with
    | plainHttp => exact ⟨ec, (Except.error.inj h).symm⟩
    | sslHttps =>
      simp only [thrown] at h
      split at h
      · rename_i hnone
        split at hnone <;> cases hnone
        exact ⟨.eof, (Except.error.inj h).symm⟩
      · cases h

/-- **The rule of the read loop.** What the parser and the flush keep of a
frame, and make of the ways out, holds of the whole loop. -/
theorem receiveLoop_rule {d : Disconnection} {I : Frame R → Prop} {E : Exit R → Prop}
    (hstep : ∀ f c, I f → Both E I (step d f c))
    (hflush : ∀ f r, I f → ResponseClass.flush f.response = .ok r → I { f with response := r })
    (hfail : ∀ f x r, I f → ResponseClass.flush f.response = .error (x, r) →
      E ⟨.error (.threw x), f.engine, r⟩)
    (hblocked : ∀ f, I f → E ⟨.error .blocked, f.engine, f.response⟩)
    (hread : ∀ f ec, I f → E (handle (.systemError ec) f))
    (hcomplete : ∀ f, I f → f.parserState = .ok → E (complete f))
    {f : Frame R} (hf : I f) (reads : List (Read 2048)) (buffer : Buffer) :
    E (receiveLoop d reads buffer f).1 := by
  induction reads generalizing buffer f with
  | nil => exact hblocked f hf
  | cons o reads ih =>
    simp only [receiveLoop]
    split
    · rename_i x hget
      obtain ⟨ec, rfl⟩ := sockget_throws hget
      exact hread f ec hf
    · rename_i bytesRead buffer' hget
      rw [scan_eq_parse]
      have hparse : Both E I (parse d f (scanned buffer' bytesRead 0)) := run_both hstep hf _
      cases hrun : parse d f (scanned buffer' bytesRead 0) with
      | error x =>
        rw [hrun] at hparse
        exact hparse
      | ok g =>
        rw [hrun] at hparse
        simp only
        cases hresult : ResponseClass.flush g.response with
        | error x => exact hfail g x.1 x.2 hparse hresult
        | ok r =>
          have hkept := hflush g r hparse hresult
          simp only
          split
          · rename_i hok
            exact hcomplete _ hkept hok
          · exact ih hkept buffer'

/-- **The parser is the only way to a redirect**, and nothing else changes the
engine. -/
theorem receiveLoop_exits (d : Disconnection) (reads : List (Read 2048)) (buffer : Buffer)
    (f : Frame R) :
    Leaves d f.engine (receiveLoop d reads buffer f).1 ∨
      ((receiveLoop d reads buffer f).1.engine = f.engine ∧
        (receiveLoop d reads buffer f).1.result ≠ .ok true) := by
  let I : Frame R → Prop := fun g => g.engine = f.engine
  let E : Exit R → Prop := fun x =>
    Leaves d f.engine x ∨ (x.engine = f.engine ∧ x.result ≠ .ok true)
  have throws {g : Frame R} (hg : I g) (stop : Stop) (r : R) : E ⟨.error stop, g.engine, r⟩ :=
    .inr ⟨hg, fun h => by cases h⟩
  have returns {g : Frame R} (hg : I g) (r : R) : E ⟨.ok false, g.engine, r⟩ :=
    .inr ⟨hg, fun h => by cases h⟩
  have leaves (g : Frame R) (c : Byte) (hg : I g) : Both E I (step d g c) :=
    (hg ▸ step_leaves d g c).imp (fun _ hx => .inl hx) (fun _ hk => hk)
  have reads_end (g : Frame R) (ec : ErrorCode) (hg : I g) : E (handle (.systemError ec) g) := by
    unfold handle
    split
    · exact returns hg _
    · exact throws hg _ _
  exact receiveLoop_rule (I := I) (E := E) leaves (fun _ _ hg _ => hg)
    (fun g x r hg _ => throws hg _ r) (fun g hg => throws hg _ _) reads_end
    (fun g hg _ => returns hg _) rfl reads buffer

theorem receiveLoop_leaves (d : Disconnection) (reads : List (Read 2048)) (buffer : Buffer)
    (f : Frame R) :
    Leaves d f.engine (receiveLoop d reads buffer f).1 ∨
      (receiveLoop d reads buffer f).1.result ≠ .ok true :=
  (receiveLoop_exits d reads buffer f).imp_right And.right

/-- How a call ends once the parser has had its bytes: it has left already, or
the response is complete, or `next` happens. -/
def settle (next : Frame R → Exit R) : Except (Exit R) (Frame R) → Exit R
  | .error x => x
  | .ok f => if f.done then complete f else next f

/-- After the last byte nothing but the size of the body changes. -/
theorem settle_response (x : Exn) (f : Frame HttpResponse) :
    ∃ size, (settle (handle x) (.ok f)).response = { f.response with bodySize := size } := by
  simp only [settle, handle]
  split
  · exact ⟨f.response.bodySize, rfl⟩
  · split
    · exact ⟨f.response.body.length, rfl⟩
    · exact ⟨f.response.bodySize, rfl⟩

/-! ## Outcomes as a cut and what follows it -/

/-- The bytes before the first error. -/
def delivered : List (Read 2048) → Bytes
  | .data c :: os => c.bytes ++ delivered os
  | _ => []

def firstError : List (Read 2048) → Option ErrorCode
  | [] => none
  | .data _ :: os => firstError os
  | .error ec :: _ => some ec

theorem exists_cut (os : List (Read 2048)) : ∃ (cut : Cut 2048 (delivered os)) (rest : _),
    os = cut.chunks.map .data ++ rest ∧ rest.head? = (firstError os).map .error := by
  induction os with
  | nil => exact ⟨⟨[], rfl⟩, [], rfl, rfl⟩
  | cons o os ih =>
    cases o with
    | error ec => exact ⟨⟨[], rfl⟩, .error ec :: os, rfl, rfl⟩
    | data c =>
      obtain ⟨cut, rest, hos, hrest⟩ := ih
      refine ⟨⟨c :: cut.chunks, ?_⟩, rest, ?_, hrest⟩
      · rw [List.map_cons, List.flatten_cons, cut.join]
        rfl
      · rw [List.map_cons, List.cons_append, ← hos]

section base
variable (d : Disconnection)

/-- One delivered read: its bytes go through the parser, and the loop stops or
goes on with the next read. -/
theorem receiveLoop_cons_data (c : Chunk 2048) (reads : List (Read 2048)) (buffer : Buffer)
    (f : Frame HttpResponse) :
    receiveLoop d (.data c :: reads) buffer f =
      match parse d f c.bytes with
      | .error x => (x, reads)
      | .ok g =>
        if g.done then (complete g, reads) else receiveLoop d reads (buffer.store c.bytes) g := by
  simp only [receiveLoop, sockget_data, scan_eq_parse, scanned_store]
  cases parse d f c.bytes with
  | error x => rfl
  | ok g => simp only [flush_self, Frame.done, decide_eq_true_eq]

/-- Delivered bytes go through the parser as one string, however they were cut. -/
theorem receiveLoop_data (chunks : List (Chunk 2048)) (rest : List (Read 2048)) (buffer : Buffer)
    {f : Frame HttpResponse} (hf : f.done = false) :
    ∃ buffer', (receiveLoop d (chunks.map .data ++ rest) buffer f).1 =
      settle (fun g => (receiveLoop d rest buffer' g).1)
        (parse d f (chunks.map Chunk.bytes).flatten) := by
  rw [parse, ← feed_eq_run (step_done d)]
  induction chunks generalizing buffer f with
  | nil => exact ⟨buffer, by simp only [List.map_nil, List.nil_append, feed, settle, hf]; rfl⟩
  | cons c cs ih =>
    simp only [List.map_cons, List.cons_append, receiveLoop_cons_data]
    cases h : parse d f c.bytes with
    | error x => exact ⟨buffer, by rw [feed_cons_error h]; rfl⟩
    | ok g =>
      rw [feed_cons_ok h]
      cases hg : g.done with
      | true => exact ⟨buffer, by simp only [if_true, settle, hg]⟩
      | false =>
        simpa only [hg, Bool.false_eq_true, if_false] using ih (buffer.store c.bytes) hg

/-- The bytes that reads deliver go through the parser as one string, and what
comes after them matters only to a call that neither left nor completed. -/
theorem receive_data {bs : Bytes} (cut : Cut 2048 bs) (rest : List (Read 2048)) (buffer : Buffer)
    (e : Engine) (r : HttpResponse) :
    ∃ buffer', (receive d (cut.chunks.map .data ++ rest) buffer e r).1 =
      settle (fun g => (receiveLoop d rest buffer' g).1) (parse d (.start e r) bs) := by
  obtain ⟨buffer', h⟩ := receiveLoop_data d cut.chunks rest buffer (f := Frame.start e r) rfl
  rw [cut.join] at h
  exact ⟨buffer', h⟩

/-- The failed read that throws out of `sockget` ends the call. -/
theorem receiveLoop_thrown {f : Frame HttpResponse} {ending : ErrorCode} {x : Exn}
    (hx : thrown f.engine.httpType ending = some x) (rest : List (Read 2048)) (buffer : Buffer) :
    (receiveLoop d (.error ending :: rest) buffer f).1 = handle x f := by
  simp only [receiveLoop, sockget_error, hx]

/-- **`receive` is one run of the parser** over the bytes delivered before a
failed read that throws, and the handlers decide what that read means. -/
theorem receive_eq_parse_append {bs : Bytes} (cut : Cut 2048 bs) {e : Engine} {ending : ErrorCode}
    {x : Exn} (hx : thrown e.httpType ending = some x) (rest : List (Read 2048)) (buffer : Buffer)
    (r : HttpResponse) :
    (receive d (cut.chunks.map .data ++ .error ending :: rest) buffer e r).1 =
      settle (handle x) (parse d (.start e r) bs) := by
  obtain ⟨buffer', h⟩ := receive_data d cut (.error ending :: rest) buffer e r
  rw [h]
  cases hp : parse d (Frame.start e r) bs with
  | error y => rfl
  | ok g =>
    have hg : g.engine = e := parse_engine d (Frame.start e r) hp
    rw [← hg] at hx
    simp only [settle, receiveLoop_thrown d hx]

theorem receive_eq_parse {bs : Bytes} (cut : Cut 2048 bs) {e : Engine} {ending : ErrorCode}
    {x : Exn} (hx : thrown e.httpType ending = some x) (buffer : Buffer) (r : HttpResponse) :
    (receive d (cut.reads ending) buffer e r).1 =
      settle (handle x) (parse d (.start e r) bs) :=
  receive_eq_parse_append d cut hx [] buffer r

/-- **The cut into reads cannot be observed.** -/
theorem receive_cut_independent {bs : Bytes} (cut₁ cut₂ : Cut 2048 bs) (ending : ErrorCode)
    {e : Engine} (he : e.httpType = .plainHttp) (r : HttpResponse) (buffer₁ buffer₂ : Buffer) :
    (receive d (cut₁.reads ending) buffer₁ e r).1 =
      (receive d (cut₂.reads ending) buffer₂ e r).1 := by
  have hx : thrown e.httpType ending = some (.systemError ending) := by rw [he]; rfl
  rw [receive_eq_parse d cut₁ hx, receive_eq_parse d cut₂ hx]

end base

/-- A response of six bytes, in one read and byte by byte. -/
theorem receive_cut_independent_short :
    (receive ⟨none, none⟩ ((Cut.whole (str "H 200 ") (by decide) (by decide)).reads .eof)
        (fun _ => 0) .new HttpResponse.new).1 =
      (receive ⟨none, none⟩ ((Cut.bytewise (by decide) (str "H 200 ")).reads .eof)
        (fun _ => 1) .new HttpResponse.new).1 :=
  receive_cut_independent ⟨none, none⟩ _ _ .eof rfl _ _ _

end Anetd
