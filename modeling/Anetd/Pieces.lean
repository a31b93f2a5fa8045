import Anetd.Receive

/-!
# A call as the pieces it walks

What a list of reads is to the read loop: the bytes that the inner loop walks
after each of them, and what ends the reading. A failed read that `sockget`
returns as a count of zero has the first byte of the buffer walked once more.
`receiveLoop_pieces` says that nothing else of the reads and the buffer matters.
-/

namespace Anetd

open Lib.Machine

/-- The pieces that the inner loop walks, in a buffer with a certain first
byte, and the exception of the read behind them; `none` when none is answered. -/
def pieces (type : HttpType) : List (Read 2048) → Byte → List Bytes × Option Exn
  | [], _ => ([], none)
  | .data c :: os, _ =>
    (c.bytes :: (pieces type os (c.bytes.headD 0)).1, (pieces type os (c.bytes.headD 0)).2)
  | .error ec :: os, first =>
    match thrown type ec with
    | some x => ([], some x)
    | none => ([first] :: (pieces type os first).1, (pieces type os first).2)

/-- The reads of a cut are its chunks. -/
theorem pieces_cut {type : HttpType} {ending : ErrorCode} {x : Exn}
    (hx : thrown type ending = some x) {bs : Bytes} (cut : Cut 2048 bs) (first : Byte) :
    pieces type (cut.reads ending) first = (cut.chunks.map Chunk.bytes, some x) := by
  have hchunks (cs : List (Chunk 2048)) (first : Byte) :
      pieces type (cs.map .data ++ [.error ending]) first = (cs.map Chunk.bytes, some x) := by
    induction cs generalizing first with
    | nil => simp [pieces, hx]
    | cons c cs ih => simp [pieces, ih]
  exact hchunks cut.chunks first

section turns
variable {R : Type} [ResponseClass R] (d : Disconnection) (ending : Option Exn)

/-- What a call does for want of another piece. -/
def finish (f : Frame R) : Exit R :=
  match ending with
  | none => ⟨.error .blocked, f.engine, f.response⟩
  | some x => handle x f

/-- The outer loop over the pieces. -/
def turns : List Bytes → Frame R → Exit R
  | [], f => finish ending f
  | p :: ps, f =>
    match parse d f p with
    | .error x => x
    | .ok g =>
      match ResponseClass.flush g.response with
      | .error (x, r) => ⟨.error (.threw x), g.engine, r⟩
      | .ok r =>
        if g.parserState = .ok then complete { g with response := r }
        else turns ps { g with response := r }

variable {d ending}

theorem turns_error {p : Bytes} {ps : List Bytes} {f : Frame R} {x : Exit R}
    (h : parse d f p = .error x) : turns d ending (p :: ps) f = x := by
  simp only [turns, h]

theorem turns_fail {p : Bytes} {ps : List Bytes} {f g : Frame R} {x : Exn} {r : R}
    (h : parse d f p = .ok g) (hflush : ResponseClass.flush g.response = .error (x, r)) :
    turns d ending (p :: ps) f = ⟨.error (.threw x), g.engine, r⟩ := by
  simp only [turns, h, hflush]

theorem turns_done {p : Bytes} {ps : List Bytes} {f g : Frame R} {r : R}
    (h : parse d f p = .ok g) (hflush : ResponseClass.flush g.response = .ok r)
    (hdone : g.parserState = .ok) :
    turns d ending (p :: ps) f = complete { g with response := r } := by
  simp only [turns, h, hflush, hdone, if_true]

theorem turns_more {p : Bytes} {ps : List Bytes} {f g : Frame R} {r : R}
    (h : parse d f p = .ok g) (hflush : ResponseClass.flush g.response = .ok r)
    (hmore : g.parserState ≠ .ok) :
    turns d ending (p :: ps) f = turns d ending ps { g with response := r } := by
  simp only [turns, h, hflush, hmore, if_false]

variable (d) in
/-- How many reads the loop asks for: one for each piece it walks, and the one
behind the last piece. -/
def asked : List Bytes → Frame R → Nat
  | [], _ => 1
  | p :: ps, f =>
    match parse d f p with
    | .error _ => 1
    | .ok g =>
      match ResponseClass.flush g.response with
      | .error _ => 1
      | .ok r => if g.parserState = .ok then 1 else asked ps { g with response := r } + 1

theorem asked_error {p : Bytes} {ps : List Bytes} {f : Frame R} {x : Exit R}
    (h : parse d f p = .error x) : asked d (p :: ps) f = 1 := by
  simp only [asked, h]

theorem asked_fail {p : Bytes} {ps : List Bytes} {f g : Frame R} {x : Exn × R}
    (h : parse d f p = .ok g) (hflush : ResponseClass.flush g.response = .error x) :
    asked d (p :: ps) f = 1 := by
  simp only [asked, h, hflush]

theorem asked_done {p : Bytes} {ps : List Bytes} {f g : Frame R} {r : R}
    (h : parse d f p = .ok g) (hflush : ResponseClass.flush g.response = .ok r)
    (hdone : g.parserState = .ok) : asked d (p :: ps) f = 1 := by
  simp only [asked, h, hflush, hdone, if_true]

/-- Behind the piece that ends the response nothing is asked, whatever the flush does. -/
theorem asked_ended {p : Bytes} {ps : List Bytes} {f g : Frame R} (h : parse d f p = .ok g)
    (hdone : g.parserState = .ok) : asked d (p :: ps) f = 1 := by
  cases hflush : ResponseClass.flush g.response with
  | error x => exact asked_fail h hflush
  | ok r => exact asked_done h hflush hdone

theorem asked_more {p : Bytes} {ps : List Bytes} {f g : Frame R} {r : R}
    (h : parse d f p = .ok g) (hflush : ResponseClass.flush g.response = .ok r)
    (hmore : g.parserState ≠ .ok) :
    asked d (p :: ps) f = asked d ps { g with response := r } + 1 := by
  simp only [asked, h, hflush, hmore, if_false]

/-- **The rule of the loop over the pieces.** It leaves them with what the
parser, the flush and the end of a response make of the frames, or it walks all
of them and is left to what ends the reading. -/
theorem turns_rule (ending : Option Exn) {I : Frame R → Prop} {E : Exit R → Prop}
    (hparse : ∀ f p, I f → Both E I (parse d f p))
    (hflush : ∀ f, I f → Both (fun x => E ⟨.error (.threw x.1), f.engine, x.2⟩)
      (fun r => I { f with response := r }) (ResponseClass.flush f.response))
    (hcomplete : ∀ f, I f → E (complete f)) (ps : List Bytes) {f : Frame R} (hf : I f) :
    (asked d ps f ≠ ps.length + 1 ∧ E (turns d ending ps f)) ∨
      (asked d ps f = ps.length + 1 ∧ ∃ g, I g ∧ turns d ending ps f = finish ending g) := by
  induction ps generalizing f with
  | nil => exact .inr ⟨rfl, f, hf, rfl⟩
  | cons p ps ih =>
    have hread := hparse f p hf
    cases hrun : parse d f p with
    | error x =>
      rw [hrun] at hread
      rw [asked_error hrun, turns_error hrun]
      exact .inl ⟨by simp, hread⟩
    | ok g =>
      rw [hrun] at hread
      have hflushed := hflush g hread
      cases hresult : ResponseClass.flush g.response with
      | error x =>
        rw [hresult] at hflushed
        rw [asked_fail hrun hresult, turns_fail hrun hresult]
        exact .inl ⟨by simp, hflushed⟩
      | ok r =>
        rw [hresult] at hflushed
        by_cases hdone : g.parserState = .ok
        · rw [asked_done hrun hresult hdone, turns_done hrun hresult hdone]
          exact .inl ⟨by simp, hcomplete _ hflushed⟩
        · rw [asked_more hrun hresult hdone, turns_more hrun hresult hdone]
          simp only [List.length_cons, ne_eq, Nat.add_right_cancel_iff]
          exact ih hflushed

end turns

section loop
variable {R : Type} [ResponseClass R] (d : Disconnection)

/-- The first byte that a delivered read leaves in the buffer. -/
theorem store_first (buffer : Buffer) (c : Chunk 2048) :
    buffer.store c.bytes 0 = c.bytes.headD 0 := by
  cases hc : c.bytes with
  | nil => exact absurd c.pos (by rw [hc]; decide)
  | cons b bs => rfl

/-- One turn of the loop. -/
theorem receiveLoop_cons {o : Read 2048} {os : List (Read 2048)} {buffer buffer' : Buffer}
    {f : Frame R} {n : Nat} (hget : sockget f.engine.httpType o buffer = .ok (n, buffer'))
    (ih : ∀ g : Frame R, receiveLoop d os buffer' g =
      (turns d (pieces g.engine.httpType os (buffer' 0)).2
          (pieces g.engine.httpType os (buffer' 0)).1 g,
        os.drop (asked d (pieces g.engine.httpType os (buffer' 0)).1 g))) :
    receiveLoop d (o :: os) buffer f =
      (turns d (pieces f.engine.httpType os (buffer' 0)).2
          (scanned buffer' n 0 :: (pieces f.engine.httpType os (buffer' 0)).1) f,
        (o :: os).drop
          (asked d (scanned buffer' n 0 :: (pieces f.engine.httpType os (buffer' 0)).1) f)) := by
  simp only [receiveLoop, hget, scan_eq_parse]
  cases hparse : parse d f (scanned buffer' n 0) with
  | error x =>
    rw [turns_error hparse, asked_error hparse]
    rfl
  | ok g =>
    have hengine : g.engine = f.engine := parse_engine d f hparse
    cases hflush : ResponseClass.flush g.response with
    | error x =>
      simp only [hflush]
      rw [turns_fail hparse hflush, asked_fail hparse hflush]
      rfl
    | ok r =>
      by_cases hdone : g.parserState = .ok
      · simp only [hflush, hdone, if_true]
        rw [turns_done hparse hflush hdone, asked_done hparse hflush hdone]
        rfl
      · simp only [hflush, hdone, if_false]
        rw [turns_more hparse hflush hdone, asked_more hparse hflush hdone, ih, hengine,
          List.drop_succ_cons]

/-- **The read loop is the loop over its pieces**, and leaves the reads that it
does not ask for. -/
theorem receiveLoop_pieces (os : List (Read 2048)) (buffer : Buffer) (f : Frame R) :
    receiveLoop d os buffer f =
      (turns d (pieces f.engine.httpType os (buffer 0)).2
          (pieces f.engine.httpType os (buffer 0)).1 f,
        os.drop (asked d (pieces f.engine.httpType os (buffer 0)).1 f)) := by
  induction os generalizing buffer f with
  | nil =>
    rw [List.drop_nil]
    rfl
  | cons o os ih =>
    cases o with
    | data c =>
      have hturn := receiveLoop_cons d (f := f) (sockget_data _ c buffer) (ih (buffer.store c.bytes))
      rw [scanned_store, store_first] at hturn
      exact hturn
    | error ec =>
      have hget := sockget_error f.engine.httpType ec buffer
      simp only [pieces]
      cases hx : thrown f.engine.httpType ec with
      | some x =>
        rw [hx] at hget
        simp only [receiveLoop, hget]
        rfl
      | none =>
        rw [hx] at hget
        have hturn := receiveLoop_cons d hget (ih buffer)
        rw [scanned_zero] at hturn
        exact hturn

theorem receiveLoop_turns (os : List (Read 2048)) (buffer : Buffer) (f : Frame R) :
    (receiveLoop d os buffer f).1 =
      turns d (pieces f.engine.httpType os (buffer 0)).2
        (pieces f.engine.httpType os (buffer 0)).1 f := by
  rw [receiveLoop_pieces]

theorem receive_turns (os : List (Read 2048)) (buffer : Buffer) (e : Engine) (r : R) :
    (receive d os buffer e r).1 =
      turns d (pieces e.httpType os (buffer 0)).2 (pieces e.httpType os (buffer 0)).1 (.start e r) :=
  receiveLoop_turns d os buffer (.start e r)

theorem receiveLoop_asked (os : List (Read 2048)) (buffer : Buffer) (f : Frame R) :
    (receiveLoop d os buffer f).2 =
      os.drop (asked d (pieces f.engine.httpType os (buffer 0)).1 f) := by
  rw [receiveLoop_pieces]

end loop

/-- Without a flush the pieces are read as one string. -/
theorem turns_settle (d : Disconnection) (ending : Option Exn) (ps : List Bytes)
    {f : Frame HttpResponse} (hf : f.done = false) :
    turns d ending ps f = settle (finish ending) (parse d f ps.flatten) := by
  rw [parse, ← feed_eq_run (step_done d)]
  induction ps generalizing f with
  | nil => simp only [turns, feed, settle, hf]; rfl
  | cons p ps ih =>
    cases hparse : parse d f p with
    | error x => rw [turns_error hparse, feed_cons_error hparse]; rfl
    | ok g =>
      rw [feed_cons_ok hparse]
      by_cases hdone : g.parserState = .ok
      · rw [turns_done hparse (flush_self g.response) hdone]
        simp only [Frame.done, hdone, decide_true, if_true, settle]
      · rw [turns_more hparse (flush_self g.response) hdone]
        simp only [Frame.done, hdone, decide_false, Bool.false_eq_true, if_false]
        exact ih (by simp only [Frame.done, hdone, decide_false])

/-- **Without a flush the cut into pieces cannot be observed.** -/
theorem receive_pieces (d : Disconnection) (os : List (Read 2048)) (buffer : Buffer) (e : Engine)
    (r : HttpResponse) :
    (receive d os buffer e r).1 = settle (finish (pieces e.httpType os (buffer 0)).2)
      (parse d (.start e r) (pieces e.httpType os (buffer 0)).1.flatten) := by
  rw [receive_turns]
  exact turns_settle d _ _ rfl

end Anetd
