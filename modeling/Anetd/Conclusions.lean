import Anetd.Completion
import Anetd.Transports

/-!
# How a call concludes

What `receive` makes of the pieces it walks as long as nothing throws
(`Concludes`): where the parser lets it stop, which status it then leaves, and
how many bytes it has taken for the body. A call that concludes so shows it
(`Concludes.shows`), and one that does not throws (`concludes_or_throws`). This
depends on the class of the response only in its flushes.
-/

namespace Anetd

open Lib.Machine

/-- How many of the pieces end before so many bytes are there. -/
def early : Nat → List Bytes → Nat
  | _, [] => 0
  | k, p :: ps => if p.length < k then early (k - p.length) ps + 1 else 0

/-- So many flushes of a response go through. -/
def Flushed {R : Type} [ResponseClass R] (n : Nat) (r : R) : Prop := ∃ r', flushes n r = .ok r'

/-- What the pieces of a body bring to a response with so many bytes in memory:
whether these reach the size, and how many of the bytes it takes. A flush takes
away what is in memory or leaves it; `none` when one throws. -/
def fill (R : Type) [ResponseClass R] [Draining R] (size : Nat) :
    Draining.State R → Nat → List Bytes → Option (Bool × Nat)
  | _, _, [] => some (false, 0)
  | s, len, q :: qs =>
    (Draining.drain s).bind fun out =>
      if reaches len size q.length then some (true, size - len)
      else (fill R size out.2 (if out.1 then 0 else len + q.length) qs).map fun filled =>
        (filled.1, q.length + filled.2)

/-- What a call returns, if its pieces do not leave it to what ends the reading,
the status it leaves, and how many bytes it takes for the body. -/
structure Conclusion where
  returns : Option Bool
  status : Int
  received : Nat

/-- What a call returns that is left to it. -/
def leftTo (ending : Option Exn) : Except Stop Bool :=
  ending.elim (.error .blocked) fun x =>
    if x = .systemError .eof then .ok false else .error (.threw x)

/-- The end of a call on a response. -/
structure Conclusion.Shows {R : Type} [ResponseClass R] (c : Conclusion) (ending : Option Exn)
    (r : R) (x : Exit R) : Prop where
  result : x.result = c.returns.elim (leftTo ending) .ok
  status : (base x.response).status = c.status
  received : (base x.response).progress = (base r).progress + c.received

/-- A redirect that the engine follows. -/
structure Head.Moves (h : Head) (e : Engine) : Prop where
  low : 300 ≤ h.status
  high : h.status < 400
  limit : ¬ 5 < e.redirtimes
  target : h.headers.find? (str "Location") ≠ none

/-- The calls that do not throw: the pieces stay within the head; it refuses the
response or is a redirect, and the connection can be shut down where that is
tried; it announces a body of no bytes, or one that may follow. A flush comes
behind each piece but one at which the parser leaves. -/
inductive Concludes {R : Type} [ResponseClass R] [Draining R] (d : Disconnection) (e : Engine)
    (r : R) (ps : List Bytes) : Conclusion → Prop
  | head (none : ∀ (h : Head) rest, ps.flatten ≠ h.text ++ rest) (good : ¬ BadStatus ps.flatten)
      (flushed : Flushed ps.length r) : Concludes d e r ps ⟨Option.none, (base r).status, 0⟩
  | refused {h : Head} {rest : Bytes} (split : ps.flatten = h.text ++ rest) (high : 300 ≤ h.status)
      (final : ¬ h.Moves e) (quiet : ¬ (h.status < 400 ∧ 5 < e.redirtimes ∧ e.ShutdownFails d))
      (flushed : Flushed (early h.text.length ps) r) : Concludes d e r ps ⟨some false, h.status, 0⟩
  | followed {h : Head} {rest : Bytes} (split : ps.flatten = h.text ++ rest) (moves : h.Moves e)
      (quiet : ¬ e.ShutdownFails d) (flushed : Flushed (early h.text.length ps) r) :
      Concludes d e r ps ⟨some true, (base r).status, 0⟩
  | empty {h : Head} {rest v : Bytes} {n : Int} (split : ps.flatten = h.text ++ rest)
      (low : h.status < 300) (found : h.headers.find? contentLength = some v)
      (number : lexicalCastInt v = some n) (zero : sizeOfInt n = 0)
      (flushed : Flushed (early h.text.length ps + 1) r) :
      Concludes d e r ps ⟨some false, h.status, 0⟩
  | body {h : Head} {rest : Bytes} {size n : Nat} {full : Bool}
      (split : ps.flatten = h.text ++ rest) (low : h.status < 300) (awaits : h.Awaits size)
      (fills : fill R size (Draining.state r) (base r).body.length (behind h.text.length ps) =
        some (full, n)) :
      Concludes d e r ps ⟨if full then some false else Option.none, h.status, n⟩

/-! ## Counting and filling -/

theorem early_split {k : Nat} {pre : List Bytes} {piece : Bytes} (post : List Bytes)
    (hpre : pre.flatten.length < k) (hpiece : k ≤ pre.flatten.length + piece.length) :
    early k (pre ++ piece :: post) = pre.length := by
  induction pre generalizing k with
  | nil =>
    simp only [List.flatten_nil, List.length_nil, Nat.zero_add] at hpiece
    exact if_neg (Nat.not_lt.mpr hpiece)
  | cons p pre ih =>
    simp only [List.flatten_cons, List.length_append] at hpre hpiece
    have hshort : p.length < k := by omega
    rw [List.cons_append, early, if_pos hshort, ih (by omega) (by omega), List.length_cons]

theorem Carried.early {h : Head} {rest : Bytes} {ps : List Bytes} (c : Carried h rest ps) :
    early h.text.length ps = c.pre.length := by
  have hlength := congrArg List.length c.ends
  simp only [List.length_append] at hlength
  refine (congrArg (Anetd.early _) c.split).trans ?_
  exact early_split c.post c.pre_length (by omega)

theorem flushes_add {R : Type} [ResponseClass R] (m n : Nat) (r : R) :
    flushes (m + n) r = (flushes m r).bind (flushes n) := by
  induction m generalizing r with
  | zero => rw [Nat.zero_add]; rfl
  | succ m ih =>
    rw [Nat.add_right_comm]
    simp only [flushes]
    cases ResponseClass.flush r with
    | error x => rfl
    | ok r' => exact ih r'

section flushes
variable {R : Type} [ResponseClass R] [Draining R]

/-- One flush, by its state. -/
theorem flush_drained {r r' : R} (h : ResponseClass.flush r = .ok r') :
    ∃ taken, Draining.drain (Draining.state r) = some (taken, Draining.state r') ∧
      base r' = if taken then (base r).clearBody else base r := by
  cases hdrain : Draining.drain (Draining.state r) with
  | none =>
    obtain ⟨x, hx⟩ := Draining.throws r hdrain
    rw [hx] at h
    cases h
  | some out =>
    obtain ⟨taken, s⟩ := out
    obtain ⟨r₁, hflush, rfl, hbase⟩ := Draining.drains hdrain
    rw [h] at hflush
    cases hflush
    exact ⟨taken, rfl, hbase⟩

/-- Flushes change nothing but the body in memory. -/
theorem flushes_base {n : Nat} {r r' : R} (h : flushes n r = .ok r') :
    (base r').status = (base r).status ∧ (base r').progress = (base r).progress := by
  induction n generalizing r with
  | zero =>
    cases h
    exact ⟨rfl, rfl⟩
  | succ n ih =>
    simp only [flushes] at h
    split at h
    · cases h
    · rename_i r₁ hflush
      obtain ⟨taken, -, hbase⟩ := flush_drained hflush
      obtain ⟨hstatus, hprogress⟩ := ih h
      rw [hstatus, hprogress, hbase]
      cases taken <;> exact ⟨rfl, rfl⟩

/-- Pieces without a byte bring nothing. -/
theorem fill_flushes {n : Nat} {r r' : R} (h : flushes n r = .ok r') (size : Nat)
    (qs : List Bytes) :
    fill R size (Draining.state r) (base r).body.length (List.replicate n [] ++ qs) =
      fill R size (Draining.state r') (base r').body.length qs := by
  induction n generalizing r with
  | zero =>
    cases h
    rfl
  | succ n ih =>
    simp only [flushes] at h
    split at h
    · cases h
    · rename_i r₁ hflush
      obtain ⟨taken, hdrain, hbase⟩ := flush_drained hflush
      have hnot : ¬ reaches (base r).body.length size 0 := by
        unfold reaches
        omega
      have hbody := drained_length hbase
      rw [List.replicate_succ, List.cons_append, fill, hdrain, Option.bind_some]
      simp only [List.length_nil, hnot, if_false, Nat.add_zero, Nat.zero_add]
      rw [← hbody, ih h]
      exact Option.map_id'

/-- A flush that throws within the head is one behind such a piece. -/
theorem fill_flushes_fail {n : Nat} {r : R} {x : Exn × R} (h : flushes n r = .error x)
    (size len : Nat) (qs : List Bytes) :
    fill R size (Draining.state r) len (List.replicate n [] ++ qs) = none := by
  induction n generalizing r len with
  | zero => cases h
  | succ n ih =>
    rw [List.replicate_succ, List.cons_append, fill]
    cases hdrain : Draining.drain (Draining.state r) with
    | none => rfl
    | some out =>
      obtain ⟨taken, s⟩ := out
      obtain ⟨r₁, hflush, hstate, -⟩ := Draining.drains hdrain
      have hnot : ¬ reaches len size 0 := by
        unfold reaches
        omega
      simp only [flushes, hflush] at h
      simp only [Option.bind_some, List.length_nil, hnot, if_false]
      rw [← hstate, ih h]
      rfl

end flushes

/-! ## Behind the head -/

/-- Seen from an earlier response, from which on `n` bytes have come. -/
theorem Conclusion.Shows.since {R : Type} [ResponseClass R] {c : Conclusion}
    {ending : Option Exn} {r r' : R} {x : Exit R} (h : c.Shows ending r' x) {n : Nat}
    (hprogress : (base r').progress = (base r).progress + n) :
    Conclusion.Shows ⟨c.returns, c.status, n + c.received⟩ ending r x :=
  ⟨h.result, h.status, by rw [h.received, hprogress, Nat.add_assoc]⟩

/-- Seen from a response before some flushes. -/
theorem Conclusion.Shows.flushed {R : Type} [ResponseClass R] [Draining R] {c : Conclusion}
    {ending : Option Exn} {r r' : R} {x : Exit R} (h : c.Shows ending r' x) {n : Nat}
    (hflushes : flushes n r = .ok r') : c.Shows ending r x :=
  ⟨h.result, h.status, by rw [h.received, (flushes_base hflushes).2]⟩

theorem complete_shows {R : Type} [ResponseClass R] [Draining R] (ending : Option Exn)
    (f : Frame R) :
    Conclusion.Shows ⟨some false, (base f.response).status, 0⟩ ending f.response (complete f) :=
  have hbase := Draining.base_completed f.response
  ⟨rfl, congrArg HttpResponse.status hbase, congrArg HttpResponse.progress hbase⟩

theorem finish_shows {R : Type} [ResponseClass R] [LawfulResponse R] (ending : Option Exn)
    (f : Frame R) :
    Conclusion.Shows ⟨none, (base f.response).status, 0⟩ ending f.response (finish ending f) := by
  cases ending with
  | none => exact ⟨rfl, rfl, rfl⟩
  | some x =>
    by_cases hx : x = .systemError .eof
    · subst hx
      have hbase := LawfulResponse.base_update (fun b => b.setBodySize b.body.length) f.response
      simp only [finish, handle, if_true]
      exact ⟨rfl, by rw [hbase]; rfl, by rw [hbase]; rfl⟩
    · simp only [finish, handle, hx, if_false]
      exact ⟨(if_neg hx).symm, rfl, rfl⟩

theorem followed_shows {R : Type} [ResponseClass R] [LawfulResponse R] {d : Disconnection}
    {e : Engine} {h : Head} (moves : h.Moves e) (quiet : ¬ e.ShutdownFails d)
    (ending : Option Exn) (r : R) (part : Bytes) (post : List Bytes) :
    Conclusion.Shows ⟨some true, (base r).status, 0⟩ ending r
      (turns d ending ((h.text ++ part) :: post) (.start e r)) := by
  obtain ⟨url, hurl⟩ := Option.ne_none_iff_exists'.mp moves.target
  have hquiet := (e.redirected url).disconnect_quiet d quiet
  rw [turns_error (parse_final d e r (Int.not_lt.mpr moves.low) part), if_pos moves.high,
    redirect_follow d moves.limit hurl hquiet]
  have hbase := LawfulResponse.base_setURL r url
  exact ⟨rfl, by rw [hbase]; rfl, by rw [hbase]; rfl⟩

section shows
variable {R : Type} [ResponseClass R] [LawfulResponse R] [Draining R]
variable (d : Disconnection) (ending : Option Exn)

/-- **The pieces of a body.** They are taken as far as they fill it, unless a
flush throws. -/
theorem turns_fill (e : Engine) {l : Locals} (hl : l.parserState = .body) (r : R)
    (qs : List Bytes) :
    (fill R (base r).bodySize (Draining.state r) (base r).body.length qs).elim
      (∃ x, (turns d ending qs ⟨l, e, r⟩).result = .error (.threw x)) fun filled =>
        Conclusion.Shows ⟨if filled.1 then some false else none, (base r).status, filled.2⟩ ending
          r (turns d ending qs ⟨l, e, r⟩) := by
  induction qs generalizing l r with
  | nil => exact finish_shows ending ⟨l, e, r⟩
  | cons q qs ih =>
    have hbody := parse_body d (f := ⟨l, e, base r⟩) hl q
    cases hdrain : Draining.drain (Draining.state r) with
    | none =>
      have hnone : fill R (base r).bodySize (Draining.state r) (base r).body.length (q :: qs) =
          none := by rw [fill, hdrain, Option.bind_none]
      rw [hnone, Option.elim_none]
      have hfails {l' : Locals} {b : HttpResponse}
          (h : parse d ⟨l, e, base r⟩ q = .ok ⟨l', e, b⟩) :
          ∃ x, (turns d ending (q :: qs) ⟨l, e, r⟩).result = .error (.threw x) := by
        obtain ⟨r₁, hparse, -, hstate⟩ := parse_mirrors_ok Draining.state_update h
        obtain ⟨x, hflush⟩ := Draining.throws r₁ (by rw [hstate]; exact hdrain)
        rw [turns_fail hparse hflush]
        exact ⟨x.1, rfl⟩
      split at hbody
      · exact hfails hbody
      · exact hfails hbody
    | some out =>
      obtain ⟨taken, s⟩ := out
      by_cases hq : reaches (base r).body.length (base r).bodySize q.length
      · have hfull : fill R (base r).bodySize (Draining.state r) (base r).body.length (q :: qs) =
            some (true, (base r).bodySize - (base r).body.length) := by
          rw [fill, hdrain, Option.bind_some, if_pos hq]
        simp only [hq, if_true] at hbody
        obtain ⟨r₁, hparse, hbase, hstate⟩ := parse_mirrors_ok Draining.state_update hbody
        obtain ⟨r₂, hflush, -, hbase₂⟩ := Draining.drains (by rw [hstate]; exact hdrain)
        have hshows := complete_shows ending
          (⟨{ l with parserState := .ok }, e, r₂⟩ : Frame R)
        have hstatus : (base r₂).status = (base r).status := by
          rw [hbase₂, hbase]
          cases taken <;> rfl
        have hprogress : (base r₂).progress =
            (base r).progress + ((base r).bodySize - (base r).body.length) := by
          have htake : (q.take ((base r).bodySize - (base r).body.length)).length =
              (base r).bodySize - (base r).body.length := by
            unfold reaches at hq
            rw [List.length_take]
            omega
          rw [hbase₂, hbase]
          cases taken <;> exact congrArg ((base r).progress + ·) htake
        rw [hfull, Option.elim_some, turns_done hparse hflush rfl, ← hstatus]
        exact hshows.since hprogress
      · simp only [hq, if_false] at hbody
        obtain ⟨r₁, hparse, hbase, hstate⟩ := parse_mirrors_ok Draining.state_update hbody
        obtain ⟨r₂, hflush, hstate₂, hbase₂⟩ := Draining.drains (by rw [hstate]; exact hdrain)
        have hsize : (base r₂).bodySize = (base r).bodySize := by
          rw [hbase₂, hbase]
          cases taken <;> rfl
        have hstatus : (base r₂).status = (base r).status := by
          rw [hbase₂, hbase]
          cases taken <;> rfl
        have hprogress : (base r₂).progress = (base r).progress + q.length := by
          rw [hbase₂, hbase]
          cases taken <;> rfl
        have hlength : (base r₂).body.length =
            if taken then 0 else (base r).body.length + q.length := by
          rw [drained_length hbase₂, hbase]
          simp [HttpResponse.append]
        have hrest : fill R (base r).bodySize (Draining.state r) (base r).body.length (q :: qs) =
            (fill R (base r₂).bodySize (Draining.state r₂) (base r₂).body.length qs).map
              fun filled => (filled.1, q.length + filled.2) := by
          rw [fill, hdrain, Option.bind_some, if_neg hq, hsize, hstate₂, hlength]
        have hturns := ih (l := { l with parserState := .body }) rfl r₂
        rw [hrest, turns_more hparse hflush (by simp)]
        cases hfill : fill R (base r₂).bodySize (Draining.state r₂) (base r₂).body.length qs with
        | none =>
          rw [hfill] at hturns
          exact hturns
        | some filled =>
          rw [hfill, Option.elim_some] at hturns
          rw [Option.map_some, Option.elim_some, ← hstatus]
          exact hturns.since hprogress

/-! ## The head -/

theorem refuse_shows (f : Frame R) :
    Conclusion.Shows ⟨some false, f.status, 0⟩ ending f.response (refuse f) := by
  have hbase := LawfulResponse.base_update
    (fun b => (b.setStatus f.status).setDescription f.description) f.response
  refine ⟨rfl, ?_, ?_⟩ <;>
  · simp only [refuse]
    rw [Draining.base_completed, hbase]
    rfl

variable (e : Engine) (r : R) {h : Head}

/-- A head that no body follows, and that is not followed itself. -/
theorem refused_shows (high : 300 ≤ h.status) (final : ¬ h.Moves e)
    (quiet : ¬ (h.status < 400 ∧ 5 < e.redirtimes ∧ e.ShutdownFails d)) (part : Bytes)
    (post : List Bytes) :
    Conclusion.Shows ⟨some false, h.status, 0⟩ ending r
      (turns d ending ((h.text ++ part) :: post) (.start e r)) := by
  rw [turns_error (parse_final d e r (Int.not_lt.mpr high) part)]
  split
  · rename_i hredirect
    by_cases hlimit : 5 < e.redirtimes
    · have hquiet := e.counted.disconnect_quiet d fun hfails => quiet ⟨hredirect, hlimit, hfails⟩
      rw [redirect_limit d hlimit hquiet]
      exact refuse_shows ending ⟨h.locals, (e.counted.disconnect d).1, r⟩
    · have hlost : h.headers.find? (str "Location") = none := by
        by_contra htarget
        exact final ⟨high, hredirect, hlimit, htarget⟩
      rw [redirect_lost d hlimit hlost]
      exact refuse_shows ending ⟨h.locals, e.counted, r⟩
  · exact refuse_shows ending ⟨h.locals, e, r⟩

/-- A head that announces a body of no bytes: there is a flush behind it. -/
theorem turns_empty (low : h.status < 300) {v : Bytes} {n : Int}
    (found : h.headers.find? contentLength = some v) (number : lexicalCastInt v = some n)
    (zero : sizeOfInt n = 0) (part : Bytes) (post : List Bytes) :
    (Draining.drain (Draining.state r)).elim
      (∃ x, (turns d ending ((h.text ++ part) :: post) (.start e r)).result = .error (.threw x))
      fun _ => Conclusion.Shows ⟨some false, h.status, 0⟩ ending r
        (turns d ending ((h.text ++ part) :: post) (.start e r)) := by
  have hcompletes : completes (base r).body.length (sizeOfInt n) part.length := .inl zero
  have hnothing : bodyPart (base r).body.length (sizeOfInt n) part = [] := by
    rw [bodyPart, if_pos hcompletes, zero, Nat.zero_sub, List.take_zero]
  have hparse := parse_announced d e (base r) low found number part
  rw [if_pos hcompletes, hnothing, HttpResponse.append_nil] at hparse
  obtain ⟨r₁, hread, hbase, hstate⟩ := parse_mirrors_ok Draining.state_update hparse
  have hread : parse d (.start e r) (h.text ++ part) =
    .ok ⟨{ h.locals with parserState := .ok }, e, r₁⟩ := hread
  cases hdrain : Draining.drain (Draining.state r) with
  | none =>
    obtain ⟨x, hflush⟩ := Draining.throws r₁ (by rw [hstate]; exact hdrain)
    rw [turns_fail hread hflush]
    exact ⟨x.1, rfl⟩
  | some out =>
    obtain ⟨taken, s⟩ := out
    obtain ⟨r₂, hflush, -, hbase₂⟩ := Draining.drains (by rw [hstate]; exact hdrain)
    have hstatus : (base r₂).status = h.status := by
      rw [hbase₂, hbase]
      cases taken <;> rfl
    have hprogress : (base r₂).progress = (base r).progress + 0 := by
      rw [hbase₂, hbase]
      cases taken <;> rfl
    have hshows := complete_shows ending
      (⟨{ h.locals with parserState := .ok }, e, r₂⟩ : Frame R)
    rw [Option.elim_some, turns_done hread hflush rfl, ← hstatus]
    exact hshows.since hprogress

/-- A head that a body may follow. -/
theorem turns_awaited (low : h.status < 300) {size : Nat} (awaits : h.Awaits size) (part : Bytes)
    (post : List Bytes) :
    (fill R size (Draining.state r) (base r).body.length (part :: post)).elim
      (∃ x, (turns d ending ((h.text ++ part) :: post) (.start e r)).result = .error (.threw x))
      fun filled => Conclusion.Shows ⟨if filled.1 then some false else none, h.status, filled.2⟩
        ending r (turns d ending ((h.text ++ part) :: post) (.start e r)) := by
  obtain ⟨r₁, hparse, hbase, hstate⟩ :=
    parse_mirrors_ok Draining.state_update (parse_awaits d e (base r) low awaits)
  have hfill := turns_fill d ending e (l := h.behind) rfl r₁ (part :: post)
  have hsize : (base r₁).bodySize = size := by rw [hbase]; rfl
  have hbody : (base r₁).body = (base r).body := by rw [hbase]; rfl
  have hstatus : (base r₁).status = h.status := by rw [hbase]; rfl
  have hprogress : (base r₁).progress = (base r).progress + 0 := by rw [hbase]; rfl
  rw [hsize, hbody, hstate, hstatus] at hfill
  rw [(turns_awaits hparse ending part post).1]
  cases hfilled : fill R size (Draining.state r) (base r).body.length (part :: post) with
  | none =>
    rw [hfilled] at hfill
    exact hfill
  | some filled =>
    rw [hfilled, Option.elim_some] at hfill
    have hshows := hfill.since hprogress
    rwa [Nat.zero_add] at hshows

end shows

/-! ## The call -/

/-- From status 300 on only the shutdown of the connection can throw. -/
theorem final_throws {R : Type} [ResponseClass R] (d : Disconnection) (e : Engine) (r : R)
    {h : Head} (high : 300 ≤ h.status)
    (hthrows : h.Moves e ∧ e.ShutdownFails d ∨
      h.status < 400 ∧ 5 < e.redirtimes ∧ e.ShutdownFails d)
    (ending : Option Exn) (part : Bytes) (post : List Bytes) :
    ∃ x, (turns d ending ((h.text ++ part) :: post) (.start e r)).result = .error (.threw x) := by
  rw [turns_error (parse_final d e r (Int.not_lt.mpr high) part)]
  rcases hthrows with ⟨moves, hfails⟩ | ⟨hlow, hlimit, hfails⟩
  · obtain ⟨url, hurl⟩ := Option.ne_none_iff_exists'.mp moves.target
    obtain ⟨se, hse⟩ := (e.redirected url).disconnect_throws d hfails
    rw [if_pos moves.high, redirect_follow_throws d moves.limit hurl hse]
    exact ⟨.errorCode se, rfl⟩
  · obtain ⟨se, hse⟩ := e.counted.disconnect_throws d hfails
    rw [if_pos hlow, redirect_limit_throws d hlimit hse]
    exact ⟨.errorCode se, rfl⟩

section calls
variable {R : Type} [ResponseClass R] [LawfulResponse R] [Draining R] {d : Disconnection}
variable {e : Engine} {r : R} {ps : List Bytes}

/-- **A call that concludes so shows it.** -/
theorem Concludes.shows {c : Conclusion} (h : Concludes d e r ps c) (ending : Option Exn) :
    c.Shows ending r (turns d ending ps (.start e r)) := by
  cases h with
  | head none good flushed =>
    obtain ⟨r', hflushes⟩ := flushed
    rcases stream_cases ps.flatten with ⟨h, rest, hsplit⟩ | hbad | ⟨l, hl⟩
    · exact absurd hsplit (none h rest)
    · exact absurd hbad good
    · have hturns := turns_within d ending hl [] e r
      rw [List.append_nil, hflushes] at hturns
      rw [Frame.start_eq, hturns, ← (flushes_base hflushes).1]
      exact (finish_shows ending ⟨l, e, r'⟩).flushed hflushes
  | refused split high final quiet flushed =>
    obtain ⟨c⟩ := head_pieces split
    obtain ⟨r', hflushes⟩ := flushed
    rw [c.early] at hflushes
    rw [c.turns, hflushes]
    exact (refused_shows d ending e r' high final quiet c.part c.post).flushed hflushes
  | followed split moves quiet flushed =>
    obtain ⟨c⟩ := head_pieces split
    obtain ⟨r', hflushes⟩ := flushed
    rw [c.early] at hflushes
    rw [c.turns, hflushes, ← (flushes_base hflushes).1]
    exact (followed_shows moves quiet ending r' c.part c.post).flushed hflushes
  | empty split low found number zero flushed =>
    obtain ⟨c⟩ := head_pieces split
    obtain ⟨s, hall⟩ := flushed
    rw [c.early] at hall
    rw [flushes_add] at hall
    cases hflushes : flushes c.pre.length r with
    | error x =>
      rw [hflushes] at hall
      cases hall
    | ok r' =>
      rw [hflushes] at hall
      have hempty := turns_empty d ending e r' low found number zero c.part c.post
      cases hdrain : Draining.drain (Draining.state r') with
      | none =>
        obtain ⟨x, hflush⟩ := Draining.throws r' hdrain
        simp only [Except.bind, flushes, hflush] at hall
        cases hall
      | some out =>
        rw [hdrain] at hempty
        rw [c.turns, hflushes]
        exact hempty.flushed hflushes
  | body split low awaits fills =>
    obtain ⟨c⟩ := head_pieces split
    rw [c.behind] at fills
    cases hflushes : flushes c.pre.length r with
    | error x =>
      rw [fill_flushes_fail hflushes] at fills
      cases fills
    | ok r' =>
      rw [fill_flushes hflushes] at fills
      have hawaited := turns_awaited d ending e r' low awaits c.part c.post
      rw [fills] at hawaited
      rw [c.turns, hflushes]
      exact hawaited.flushed hflushes

variable (d e) in
/-- Behind the flushes within the head. -/
theorem Carried.concludes_or_throws {h : Head} {rest : Bytes} (c : Carried h rest ps)
    (split : ps.flatten = h.text ++ rest) {r' : R} (hflushes : flushes c.pre.length r = .ok r')
    (ending : Option Exn) : (∃ o, Concludes d e r ps o) ∨
      ∃ x, (Anetd.turns d ending ((h.text ++ c.part) :: c.post) (.start e r')).result =
        .error (.threw x) := by
  have hflushed : Flushed (Anetd.early h.text.length ps) r := ⟨r', by rw [c.early, hflushes]⟩
  by_cases hs : h.status < 300
  · rcases h.announcement with ⟨v, found, bad⟩ | ⟨v, n, found, number, zero⟩ | ⟨size, awaits⟩
    · have hparse := parse_misannounced d e (base r') hs found bad c.part
      obtain ⟨y, hy, hresult, -⟩ := parse_mirrors_error Draining.state_update hparse
      exact .inr ⟨.badLexicalCast, (congrArg Exit.result (turns_error hy)).trans hresult.symm⟩
    · have hempty := turns_empty d ending e r' hs found number zero c.part c.post
      cases hdrain : Draining.drain (Draining.state r') with
      | none =>
        rw [hdrain] at hempty
        exact .inr hempty
      | some out =>
        obtain ⟨taken, s⟩ := out
        obtain ⟨r₁, hflush, -⟩ := Draining.drains hdrain
        have hall : flushes (c.pre.length + 1) r = .ok r₁ := by
          rw [flushes_add, hflushes]
          simp only [Except.bind, flushes, hflush]
        exact .inl ⟨_, .empty split hs found number zero ⟨r₁, by rw [c.early, hall]⟩⟩
    · have hawaited := turns_awaited d ending e r' hs awaits c.part c.post
      cases hfilled : fill R size (Draining.state r') (base r').body.length
          (c.part :: c.post) with
      | none =>
        rw [hfilled] at hawaited
        exact .inr hawaited
      | some filled =>
        obtain ⟨full, n⟩ := filled
        have hfills : fill R size (Draining.state r) (base r).body.length
            (Anetd.behind h.text.length ps) = some (full, n) := by
          rw [c.behind, fill_flushes hflushes, hfilled]
        exact .inl ⟨_, .body split hs awaits hfills⟩
  · have high : 300 ≤ h.status := Int.not_lt.mp hs
    by_cases hmoves : h.Moves e
    · by_cases hfails : e.ShutdownFails d
      · exact .inr (final_throws d e r' high (.inl ⟨hmoves, hfails⟩) ending c.part c.post)
      · exact .inl ⟨_, .followed split hmoves hfails hflushed⟩
    · by_cases hbeyond : h.status < 400 ∧ 5 < e.redirtimes ∧ e.ShutdownFails d
      · exact .inr (final_throws d e r' high (.inr hbeyond) ending c.part c.post)
      · exact .inl ⟨_, .refused split high hmoves hbeyond hflushed⟩

variable (d e r ps) in
/-- **A call that does not conclude throws.** -/
theorem concludes_or_throws (ending : Option Exn) : (∃ c, Concludes d e r ps c) ∨
    ∃ x, (turns d ending ps (.start e r)).result = .error (.threw x) := by
  by_cases hhead : ∃ h : Head, ∃ rest, ps.flatten = h.text ++ rest
  · obtain ⟨h, rest, hsplit⟩ := hhead
    obtain ⟨c⟩ := head_pieces hsplit
    rw [c.turns]
    cases hflushes : flushes c.pre.length r with
    | error x => exact .inr ⟨x.1, rfl⟩
    | ok r' => exact c.concludes_or_throws d e hsplit hflushes ending
  · rcases stream_cases ps.flatten with hwhole | hbad | ⟨l, hl⟩
    · exact absurd hwhole hhead
    · obtain ⟨pre, p, post, l, rfl, hl, hpiece⟩ := badStatus_pieces hbad hhead
      right
      rw [Frame.start_eq, turns_within d ending hl (p :: post) e r]
      cases flushes pre.length r with
      | error x => exact ⟨x.1, rfl⟩
      | ok r' =>
        have hthrows := parse_badStatus d e r' hpiece
        rw [Frame.start_eq, parse, run_append_ok (hl.passes d e r')] at hthrows
        exact ⟨.badLexicalCast, congrArg Exit.result (turns_error hthrows)⟩
    · have hturns := turns_within d ending hl [] e r
      rw [List.append_nil] at hturns
      rw [Frame.start_eq, hturns]
      cases hflushes : flushes ps.length r with
      | error x => exact .inr ⟨x.1, rfl⟩
      | ok r' =>
        exact .inl ⟨_, .head (fun h rest hsplit => hhead ⟨h, rest, hsplit⟩) hl.not_badStatus
          ⟨r', hflushes⟩⟩

end calls

end Anetd
