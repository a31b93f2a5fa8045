import Anetd.FileTransfer

/-!
# The completion of a response

`receive` announces the end of a response with `completed`, on each of its ways
to return `false` but one: the handler for the end of the stream. A call gets
there when it has walked all its pieces and the response is still open
(`Stalls`), which depends on how much of the body each flush takes away.
-/

namespace Anetd

open Lib.Machine

/-! ## What holds of a call -/

section rule
variable {R : Type} [ResponseClass R]

/-- A property of responses that all they are called for keeps, and what it
makes of the ends of a call. -/
structure Kept (I : R → Prop) (E : Exit R → Prop) : Prop where
  update : ∀ f r, I r → I (update f r)
  setURL : ∀ r url, I r → I (ResponseClass.setURL r url)
  flush : ∀ r, I r → Both (fun x => I x.2) I (ResponseClass.flush r)
  throws : ∀ stop e r, I r → E ⟨.error stop, e, r⟩
  follows : ∀ e r, I r → E ⟨.ok true, e, r⟩
  completes : ∀ e r, I r → E ⟨.ok false, e, ResponseClass.completed r⟩

/-- **The ends of a call.** It ends as the property says, or its pieces leave it
to the end of the stream. -/
theorem Kept.turns {I : R → Prop} {E : Exit R → Prop} (h : Kept I E) (d : Disconnection)
    (ending : Option Exn) (ps : List Bytes) {f : Frame R} (hf : I f.response) :
    (¬ (ending = some (.systemError .eof) ∧ asked d ps f = ps.length + 1) ∧
        E (turns d ending ps f)) ∨
      (ending = some (.systemError .eof) ∧ asked d ps f = ps.length + 1 ∧
        ∃ e r, I r ∧ Anetd.turns d ending ps f = ⟨.ok false, e, r⟩) := by
  have refuses (f : Frame R) (hf : I f.response) : E (refuse f) :=
    h.completes f.engine _ (h.update _ _ hf)
  have parses (f : Frame R) (p : Bytes) (hf : I f.response) :
      Both E (fun g => I g.response) (parse d f p) := by
    apply parse_rule (fun g r _ hr => h.update g r hr) (fun e r hr => h.throws _ e r hr) refuses ?_ hf p
    intro f hf
    apply redirect_rule d f
    · exact fun e => refuses { f with engine := e } hf
    · rintro se e r (rfl | ⟨url, rfl⟩)
      · exact h.throws _ e _ hf
      · exact h.throws _ e _ (h.setURL _ url hf)
    · exact fun e url => h.follows e _ (h.setURL _ url hf)
  have flushes (f : Frame R) (hf : I f.response) :
      Both (fun x => E ⟨.error (.threw x.1), f.engine, x.2⟩)
        (fun r => I ({ f with response := r } : Frame R).response)
        (ResponseClass.flush f.response) :=
    (h.flush f.response hf).imp (fun x hx => h.throws _ _ _ hx) fun r hr => hr
  rcases turns_rule ending (I := fun f => I f.response) parses flushes
    (fun f hf => h.completes f.engine _ hf) ps hf with ⟨hasked, hend⟩ | ⟨hasked, g, hg, hturns⟩
  · exact .inl ⟨fun hstalls => hasked hstalls.2, hend⟩
  · rw [hturns]
    cases ending with
    | none => exact .inl ⟨fun heof => (nomatch heof.1), h.throws _ _ _ hg⟩
    | some x =>
      by_cases hx : x = .systemError .eof
      · subst hx
        exact .inr ⟨rfl, hasked, _, _, h.update _ _ hg, rfl⟩
      · left
        simp only [finish, handle, hx, if_false]
        exact ⟨fun heof => hx (Option.some.inj heof.1), h.throws _ _ _ hg⟩

end rule

/-! ## The calls of the hooks -/

/-- The functions of a response by which `receive` tells it how it gets on. -/
inductive Signal where
  | flush
  | completed
  deriving DecidableEq, Repr

/-- A response with a record of those calls. -/
structure Logged (R : Type) where
  inner : R
  log : List Signal

/-- A call that returns `false` has signalled completion once, behind all its
flushes, and one that returns `true` has not. -/
structure CompletedOnce {R : Type} (x : Exit (Logged R)) : Prop where
  returned : x.result = .ok false →
    ∃ k, x.response.log = List.replicate k .flush ++ [.completed]
  followed : x.result = .ok true → .completed ∉ x.response.log

/-- Nothing has been signalled but flushes. -/
def Flushing {R : Type} (r : Logged R) : Prop := ∃ k, r.log = List.replicate k .flush

section logged
variable {R : Type} [ResponseClass R]

instance : ResponseClass (Logged R) where
  base r := base r.inner
  update f r := { r with inner := update f r.inner }
  reset r := { r with inner := ResponseClass.reset r.inner }
  setURL r url := { r with inner := ResponseClass.setURL r.inner url }
  flush r :=
    match ResponseClass.flush r.inner with
    | .ok inner => .ok ⟨inner, r.log ++ [.flush]⟩
    | .error (x, inner) => .error (x, ⟨inner, r.log ++ [.flush]⟩)
  completed r := ⟨ResponseClass.completed r.inner, r.log ++ [.completed]⟩

/-- The end of the call without the record. -/
def Exit.inner (x : Exit (Logged R)) : Exit R := ⟨x.result, x.engine, x.response.inner⟩

theorem redirect_inner (d : Disconnection) (l : Locals) (e : Engine) (r : Logged R) :
    (redirect d ⟨l, e, r⟩).inner = redirect d ⟨l, e, r.inner⟩ := by
  by_cases htimes : e.redirtimes > 5
  · simp only [redirect, htimes, if_true]
    rcases ({ e with redirtimes := e.redirtimes + 1 } : Engine).disconnect d with ⟨e', x⟩
    cases x <;> rfl
  · simp only [redirect, htimes, if_false]
    cases l.tempheaders.find? (str "Location") with
    | none => rfl
    | some url =>
      simp only
      rcases ({ e with redirtimes := e.redirtimes + 1, url := url } : Engine).disconnect d with ⟨e', x⟩
      cases x <;> rfl

theorem parse_inner (d : Disconnection) (l : Locals) (e : Engine) (r : Logged R) (bs : Bytes) :
    Related (fun x y => x.inner = y) (Framed e e fun q r => q.inner = r) (parse d ⟨l, e, r⟩ bs)
      (parse d ⟨l, e, r.inner⟩ bs) := by
  have hS : Simulates fun (q : Logged R) r => q.inner = r :=
    ⟨fun h => by rw [← h]; rfl, fun _ h => by rw [← h]; rfl⟩
  have hE : Leaving d d e e (fun (q : Logged R) r => q.inner = r) fun x y => x.inner = y := by
    refine ⟨fun {q r} h => ?_, fun l {q r} h => ?_, fun l {q r} _ _ h => ?_⟩
    · rw [← h]
      rfl
    · rw [← h]
      rfl
    · rw [← h]
      exact redirect_inner d l e q
  exact parse_simulates hS hE ⟨l, r, r.inner, rfl, rfl, rfl⟩ bs

/-- **The record does not change the call.** -/
theorem turns_inner (d : Disconnection) (ending : Option Exn) (ps : List Bytes) (l : Locals)
    (e : Engine) (r : Logged R) :
    (turns d ending ps ⟨l, e, r⟩).inner = turns d ending ps ⟨l, e, r.inner⟩ ∧
      asked d ps ⟨l, e, r⟩ = asked d ps ⟨l, e, r.inner⟩ := by
  induction ps generalizing l e r with
  | nil =>
    refine ⟨?_, rfl⟩
    cases ending with
    | none => rfl
    | some x =>
      simp only [turns, finish, handle]
      split <;> rfl
  | cons p ps ih =>
    rcases (parse_inner d l e r p).cases with ⟨x, y, hx, hy, h⟩ |
      ⟨f, g, hf, hg, l', q, r', h, rfl, rfl⟩
    · rw [turns_error hx, turns_error hy, asked_error hx, asked_error hy]
      exact ⟨h, rfl⟩
    · cases h
      cases hflush : ResponseClass.flush q.inner with
      | error x =>
        have hflush' : ResponseClass.flush q = .error (x.1, ⟨x.2, q.log ++ [.flush]⟩) := by
          simp only [ResponseClass.flush, hflush]
        rw [turns_fail hf hflush', turns_fail hg hflush, asked_fail hf hflush',
          asked_fail hg hflush]
        exact ⟨rfl, rfl⟩
      | ok s =>
        have hflush' : ResponseClass.flush q = .ok ⟨s, q.log ++ [.flush]⟩ := by
          simp only [ResponseClass.flush, hflush]
        by_cases hdone : l'.parserState = .ok
        · rw [turns_done hf hflush' hdone, turns_done hg hflush hdone,
            asked_done hf hflush' hdone, asked_done hg hflush hdone]
          exact ⟨rfl, rfl⟩
        · rw [turns_more hf hflush' hdone, turns_more hg hflush hdone,
            asked_more hf hflush' hdone, asked_more hg hflush hdone]
          obtain ⟨hturns, hasked⟩ := ih l' e ⟨s, q.log ++ [.flush]⟩
          exact ⟨hturns, congrArg (· + 1) hasked⟩

theorem kept_completedOnce : Kept (R := Logged R) Flushing CompletedOnce where
  update _ _ h := h
  setURL _ _ h := h
  flush r h := by
    obtain ⟨k, hk⟩ := h
    have hmore : r.log ++ [.flush] = List.replicate (k + 1) .flush := by
      rw [hk, List.replicate_succ']
    simp only [ResponseClass.flush]
    cases ResponseClass.flush r.inner with
    | error x => exact ⟨k + 1, hmore⟩
    | ok inner => exact ⟨k + 1, hmore⟩
  throws stop e r _ := by
    constructor <;> intro h <;> cases h
  follows e r h := by
    obtain ⟨k, hk⟩ := h
    constructor
    · intro h
      cases h
    · intro _ hin
      have hflush : Signal.completed ∈ r.log := hin
      rw [hk] at hflush
      cases List.eq_of_mem_replicate hflush
  completes e r h := by
    obtain ⟨k, hk⟩ := h
    exact ⟨fun _ => ⟨k, congrArg (· ++ [.completed]) hk⟩, fun h => by cases h⟩

/-- **Only the handler for the end of the stream forgets to signal.** -/
theorem completedOnce_iff_asked (d : Disconnection) (ending : Option Exn) (ps : List Bytes)
    {f : Frame (Logged R)} (hf : Flushing f.response) :
    CompletedOnce (turns d ending ps f) ↔
      ¬ (ending = some (.systemError .eof) ∧ asked d ps f = ps.length + 1) := by
  rcases kept_completedOnce.turns d ending ps hf with
    ⟨hends, honce⟩ | ⟨heof, hasked, e, r, ⟨j, hj⟩, hturns⟩
  · exact ⟨fun _ => hends, fun _ => honce⟩
  · refine iff_of_false ?_ fun h => h ⟨heof, hasked⟩
    rw [hturns]
    rintro ⟨hreturned, -⟩
    obtain ⟨k, hk⟩ := hreturned rfl
    have hlast : Signal.completed ∈ List.replicate j Signal.flush := by
      rw [← hj, hk]
      simp
    cases List.eq_of_mem_replicate hlast

end logged

/-! ## What a flush takes away -/

/-- A class whose flushes are known by a state of their own: they throw, or
take all of the body, or leave it, and touch nothing else. -/
class Draining (R : Type) [ResponseClass R] where
  State : Type
  state : R → State
  drain : State → Option (Bool × State)
  state_update (f : HttpResponse → HttpResponse) (r : R) : state (update f r) = state r
  throws (r : R) (h : drain (state r) = none) : ∃ x, ResponseClass.flush r = .error x
  drains {r : R} {taken : Bool} {s : State} (h : drain (state r) = some (taken, s)) :
    ∃ r', ResponseClass.flush r = .ok r' ∧ state r' = s ∧
      base r' = if taken then (base r).clearBody else base r
  base_completed (r : R) : base (ResponseClass.completed r) = base r

instance : Draining HttpResponse where
  State := Unit
  state _ := ()
  drain _ := some (false, ())
  state_update _ _ := rfl
  throws _ h := by cases h
  drains {r _ _} h := by
    cases h
    exact ⟨r, rfl, rfl, rfl⟩
  base_completed _ := rfl

/-- What decides on the flushes of a file: whether it is open, whether there is
a name to open one under, and what the disk will answer. -/
structure Spooling where
  opened : Bool
  named : Bool
  lookups : List Bool
  opens : List Bool
  writes : List Bool

/-- The write of a flush. -/
def Spooling.write (s : Spooling) : Option (Bool × Spooling) :=
  if s.writes.headD true then some (true, { s with opened := true, writes := s.writes.tail })
  else none

/-- Behind a search for a path and an attempt to open it. -/
def Spooling.asked (s : Spooling) : Spooling :=
  { s with lookups := s.lookups.tail, opens := s.opens.tail }

/-- A flush of a file. -/
def Spooling.drain (s : Spooling) : Option (Bool × Spooling) :=
  if s.opened then s.write
  else if ¬ s.named then some (false, s)
  else if s.lookups.headD true then
    if s.opens.headD true then s.asked.write else some (false, s.asked)
  else none

namespace HttpResponseFile

def spooling (r : HttpResponseFile) : Spooling where
  opened := r.opened
  named := r.filename ≠ []
  lookups := r.disk.lookups
  opens := r.disk.opens
  writes := r.disk.writes

/-- A flush with the outcome: it throws, or it leaves the spooling so and the
body there or not. -/
def Flushes (r : HttpResponseFile) : Option (Bool × Spooling) → Prop
  | none => ∃ x, r.flush = .error x
  | some (taken, s) => ∃ r', r.flush = .ok r' ∧ r'.spooling = s ∧
      r'.toHttpResponse = if taken then r.toHttpResponse.clearBody else r.toHttpResponse

/-- With a file open the outcome is that of the write. -/
theorem flushes_write {r r' : HttpResponseFile} (hopen : r.openFile = (.ok true, r'))
    (hopened : r'.opened = true) : r.Flushes r'.spooling.write := by
  have hbase : r'.toHttpResponse = r.toHttpResponse := by
    have hfields := r.openFile_fields.1
    rwa [hopen] at hfields
  have hflush := flush_open hopen
  cases hwrite : r'.disk.writes.headD true with
  | true =>
    rw [hwrite, if_pos rfl] at hflush
    have hdrain : r'.spooling.write =
        some (true, { r'.spooling with opened := true, writes := r'.disk.writes.tail }) :=
      if_pos hwrite
    rw [hdrain]
    refine ⟨_, hflush, ?_, congrArg HttpResponse.clearBody hbase⟩
    simp only [spooling, hopened, Disk.write, hwrite, if_true]
  | false =>
    rw [hwrite] at hflush
    have hdrain : r'.spooling.write = none := if_neg (by simp only [spooling, hwrite]; decide)
    rw [hdrain]
    exact ⟨_, hflush⟩

/-- Without a file a flush looks for a path first, if there is a name for one. -/
theorem drain_closed {r : HttpResponseFile} (hclosed : r.opened = false) (hname : r.filename ≠ []) :
    r.spooling.drain = if r.disk.lookups.headD true then
        if r.disk.opens.headD true then r.spooling.asked.write else some (false, r.spooling.asked)
      else none := by
  have hnot : r.spooling.opened = false := hclosed
  have hnamed : r.spooling.named = true := decide_eq_true hname
  simp only [Spooling.drain, hnot, hnamed, Bool.false_eq_true, if_false, not_true_eq_false]
  rfl

theorem flush_spooling (r : HttpResponseFile) : r.Flushes r.spooling.drain := by
  rcases r.openFile_cases with ⟨hopened, hopen⟩ | ⟨hclosed, hname, hopen⟩ |
    ⟨hclosed, hname, ⟨hlookups, hopens⟩, hopen⟩ | ⟨hclosed, hname, ⟨hlookups, hopens⟩, hopen⟩ |
    ⟨hclosed, hname, hlookups, hopen⟩
  · have hdrain : r.spooling.drain = r.spooling.write := if_pos hopened
    rw [hdrain]
    exact flushes_write hopen hopened
  · have hdrain : r.spooling.drain = some (false, r.spooling) := by
      simp [Spooling.drain, spooling, hclosed, hname]
    rw [hdrain]
    exact ⟨_, flush_closed hopen, rfl, rfl⟩
  · -- the write does not look at whether the file was open
    have hafter : r.spooling.asked.write = r.afterOpen.spooling.write := rfl
    rw [drain_closed hclosed hname, if_pos hlookups, if_pos hopens, hafter]
    exact flushes_write hopen rfl
  · rw [drain_closed hclosed hname, if_pos hlookups, hopens, if_neg Bool.false_ne_true]
    exact ⟨_, flush_closed hopen, rfl, rfl⟩
  · rw [drain_closed hclosed hname, hlookups, if_neg Bool.false_ne_true]
    exact ⟨_, flush_lost hopen⟩

end HttpResponseFile

instance : Draining HttpResponseFile where
  State := Spooling
  state := HttpResponseFile.spooling
  drain := Spooling.drain
  state_update _ _ := rfl
  throws r h := by
    have hflush := r.flush_spooling
    rw [h] at hflush
    exact hflush
  drains {r taken s} h := by
    have hflush := r.flush_spooling
    rw [h] at hflush
    exact hflush
  base_completed _ := rfl

theorem drained_length {b b' : HttpResponse} {taken : Bool}
    (h : b' = if taken then b.clearBody else b) :
    b'.body.length = if taken then 0 else b.body.length := by
  rw [h]
  split <;> rfl

/-! ## The pieces that a call walks in full -/

section unfilled
variable {R : Type} [ResponseClass R] [Draining R]

/-- No flush throws between these pieces of a body, and none of them brings the
body to its size: it has a length before the first piece, and each flush takes
it away or leaves it. Nothing brings it to a size of zero. -/
def Unfilled (R : Type) [ResponseClass R] [Draining R] (size : Nat) :
    Draining.State R → Nat → List Bytes → Prop
  | _, _, [] => True
  | s, len, q :: qs => ¬ reaches len size q.length ∧ ∃ taken s', Draining.drain s = some (taken, s') ∧
      Unfilled R size s' (if taken then 0 else len + q.length) qs

/-- Without a file that is no more than a body that stays too short. -/
theorem unfilled_memory (size len : Nat) (qs : List Bytes) :
    Unfilled HttpResponse size () len qs ↔ ¬ reaches len size qs.flatten.length := by
  induction qs generalizing len with
  | nil =>
    simp only [Unfilled, List.flatten_nil, List.length_nil, true_iff, reaches]
    omega
  | cons q qs ih =>
    simp only [Unfilled, List.flatten_cons, List.length_append]
    constructor
    · rintro ⟨hq, taken, s', hdrain, hrest⟩
      cases hdrain
      rw [if_neg Bool.false_ne_true, ih] at hrest
      unfold reaches at hq hrest ⊢
      omega
    · intro h
      refine ⟨?_, false, (), rfl, ?_⟩
      · unfold reaches at h ⊢
        omega
      rw [if_neg Bool.false_ne_true, ih]
      unfold reaches at h ⊢
      omega

/-- Behind pieces without a byte the body is as the flushes have left it. -/
theorem unfilled_flushes {r r' : R} {n : Nat} (h : flushes n r = .ok r') (size : Nat)
    (qs : List Bytes) :
    Unfilled R size (Draining.state r) (base r).body.length (List.replicate n [] ++ qs) ↔
      Unfilled R size (Draining.state r') (base r').body.length qs := by
  induction n generalizing r with
  | zero =>
    cases h
    rfl
  | succ n ih =>
    simp only [flushes] at h
    split at h
    · cases h
    rename_i r₁ hflush
    simp only [List.replicate_succ, List.cons_append, Unfilled, List.length_nil, Nat.add_zero]
    have hnot : ¬ reaches (base r).body.length size 0 := by
      unfold reaches
      omega
    cases hdrain : Draining.drain (Draining.state r) with
    | none =>
      obtain ⟨x, hx⟩ := Draining.throws r hdrain
      rw [hx] at hflush
      cases hflush
    | some out =>
      obtain ⟨taken, s⟩ := out
      obtain ⟨r₂, hflush', hstate, hbase⟩ := Draining.drains hdrain
      have hbody := drained_length hbase
      rw [hflush'] at hflush
      cases hflush
      rw [← ih h, hbody, hstate]
      constructor
      · rintro ⟨-, taken', s', heq, hrest⟩
        cases heq
        exact hrest
      · exact fun hrest => ⟨hnot, taken, s, rfl, hrest⟩

theorem not_unfilled_flushes {r : R} {n : Nat} {x : Exn × R} (h : flushes n r = .error x)
    (size len : Nat) (qs : List Bytes) :
    ¬ Unfilled R size (Draining.state r) len (List.replicate n [] ++ qs) := by
  induction n generalizing r len with
  | zero => cases h
  | succ n ih =>
    rw [List.replicate_succ, List.cons_append]
    rintro ⟨-, taken, s, hdrain, hrest⟩
    obtain ⟨r₁, hflush, hstate, -⟩ := Draining.drains hdrain
    simp only [flushes, hflush] at h
    rw [← hstate] at hrest
    exact ih h _ hrest

/-- A size of zero asks for nothing but the flushes. -/
theorem unfilled_zero (r : R) (len : Nat) (ps : List Bytes) :
    Unfilled R 0 (Draining.state r) len ps ↔ ∃ r', flushes ps.length r = .ok r' := by
  induction ps generalizing r len with
  | nil => exact ⟨fun _ => ⟨r, rfl⟩, fun _ => trivial⟩
  | cons p ps ih =>
    simp only [Unfilled, List.length_cons, flushes]
    cases hdrain : Draining.drain (Draining.state r) with
    | none =>
      obtain ⟨x, hx⟩ := Draining.throws r hdrain
      simp [hx]
    | some out =>
      obtain ⟨taken, s⟩ := out
      obtain ⟨r₁, hflush, hstate, -⟩ := Draining.drains hdrain
      have hnot : ¬ reaches len 0 p.length := by
        unfold reaches
        omega
      simp only [hflush, hnot, not_false_eq_true, true_and]
      rw [← ih r₁, hstate]
      constructor
      · rintro ⟨taken', s', heq, hrest⟩
        cases heq
        exact hrest
      · exact fun hrest => ⟨taken, s, rfl, hrest⟩

end unfilled

section stalls
variable {R : Type} [ResponseClass R] [LawfulResponse R] [Draining R]

/-- **A body is walked in full when its pieces leave it unfilled.** -/
theorem asked_body (d : Disconnection) (e : Engine) {l : Locals} (hl : l.parserState = .body)
    (r : R) (qs : List Bytes) :
    asked d qs ⟨l, e, r⟩ = qs.length + 1 ↔
      Unfilled R (base r).bodySize (Draining.state r) (base r).body.length qs := by
  induction qs generalizing l r with
  | nil => exact ⟨fun _ => trivial, fun _ => rfl⟩
  | cons q qs ih =>
    have hbody := parse_body d (f := ⟨l, e, base r⟩) hl q
    by_cases hq : reaches (base r).body.length (base r).bodySize q.length
    · simp only [hq, if_true] at hbody
      obtain ⟨r₁, hparse, -, -⟩ := parse_mirrors_ok Draining.state_update hbody
      rw [asked_ended hparse rfl]
      exact iff_of_false (by simp) fun h => h.1 hq
    · simp only [hq, if_false] at hbody
      obtain ⟨r₁, hparse, hbase, hstate⟩ := parse_mirrors_ok Draining.state_update hbody
      simp only [Unfilled, hq, not_false_eq_true, true_and, ← hstate]
      cases hdrain : Draining.drain (Draining.state r₁) with
      | none =>
        obtain ⟨x, hflush⟩ := Draining.throws r₁ hdrain
        rw [asked_fail hparse hflush]
        simp
      | some out =>
        obtain ⟨taken, s⟩ := out
        obtain ⟨r₂, hflush, hstate₂, hbase₂⟩ := Draining.drains hdrain
        have hlength := drained_length hbase₂
        have hsize : (base r₂).bodySize = (base r₁).bodySize := by
          rw [hbase₂]
          split <;> rfl
        have hmore : ({ l with parserState := .body } : Locals).parserState ≠ .ok := by simp
        rw [asked_more hparse hflush hmore, List.length_cons, Nat.add_right_cancel_iff, ih rfl r₂,
          hstate₂, hsize, hlength, hbase]
        have hlen : ((base r).append q).body.length = (base r).body.length + q.length := by
          simp [HttpResponse.append]
        rw [hlen]
        constructor
        · exact fun h => ⟨taken, s, rfl, h⟩
        · rintro ⟨taken', s', heq, hrest⟩
          cases heq
          exact hrest

/-- A call that has the whole head in its first piece. -/
theorem asked_whole (d : Disconnection) (e : Engine) (r : R) (h : Head) (part : Bytes)
    (post : List Bytes) :
    asked d ((h.text ++ part) :: post) (.start e r) = post.length + 2 ↔
      h.status < 300 ∧ ∃ size, h.Awaits size ∧
        Unfilled R size (Draining.state r) (base r).body.length (part :: post) := by
  have stops (hone : asked d ((h.text ++ part) :: post) (.start e r) = 1)
      (hnone : ¬ (h.status < 300 ∧ ∃ size, h.Awaits size)) :
      asked d ((h.text ++ part) :: post) (.start e r) = post.length + 2 ↔
        h.status < 300 ∧ ∃ size, h.Awaits size ∧
          Unfilled R size (Draining.state r) (base r).body.length (part :: post) := by
    rw [hone]
    exact iff_of_false (by omega) fun ⟨hs, size, hsize, _⟩ => hnone ⟨hs, size, hsize⟩
  by_cases hs : h.status < 300
  · rcases h.announcement with ⟨v, found, bad⟩ | ⟨v, n, found, number, zero⟩ | ⟨size, awaits⟩
    · have hparse := parse_misannounced d e (base r) hs found bad part
      obtain ⟨x, hx, -⟩ := parse_mirrors_error Draining.state_update (r := r) hparse
      apply stops (asked_error hx)
      rintro ⟨-, size, found' | found'⟩
      · rename_i number _
        cases found.symm.trans found'
        rw [bad] at number
        cases number
      · cases found.symm.trans found'
    · have hparse := parse_announced d e (base r) hs found number part
      rw [if_pos (.inl zero)] at hparse
      obtain ⟨r₁, hx, -, -⟩ := parse_mirrors_ok Draining.state_update hparse
      apply stops (asked_ended hx rfl)
      rintro ⟨-, size, found' | found'⟩
      · rename_i number' pos
        cases found.symm.trans found'
        cases number.symm.trans number'
        exact pos zero
      · cases found.symm.trans found'
    · obtain ⟨r₁, hparse, hbase, hstate⟩ :=
        parse_mirrors_ok Draining.state_update (parse_awaits d e (base r) hs awaits)
      have hbody := asked_body d e (l := h.behind) rfl r₁ (part :: post)
      rw [hstate, hbase] at hbody
      rw [(turns_awaits hparse none part post).2]
      refine hbody.trans ⟨fun hrest => ⟨hs, size, awaits, hrest⟩, ?_⟩
      rintro ⟨-, size', awaits', hrest⟩
      cases awaits.unique awaits'
      exact hrest
  · have hx := parse_final d e r hs part
    exact stops (asked_error hx) fun ⟨hlow, _⟩ => hs hlow

/-- A call over any pieces with a head. -/
theorem asked_head (d : Disconnection) (e : Engine) (r : R) {h : Head} {rest : Bytes}
    {ps : List Bytes} (c : Carried h rest ps) :
    asked d ps (.start e r) = ps.length + 1 ↔
      h.status < 300 ∧ ∃ size, h.Awaits size ∧
        Unfilled R size (Draining.state r) (base r).body.length (behind h.text.length ps) := by
  have hlength : ps.length = c.pre.length + (c.post.length + 1) := by
    simpa using congrArg List.length c.split
  rw [c.behind]
  cases hflushes : flushes c.pre.length r with
  | error x =>
    have hfew := asked_within_fail d c.within (c.piece :: c.post) e hflushes
    rw [← c.split] at hfew
    apply iff_of_false
    · rw [Frame.start_eq]
      omega
    · rintro ⟨-, size, -, hrest⟩
      exact not_unfilled_flushes hflushes _ _ _ hrest
  | ok r₁ =>
    simp only [unfilled_flushes hflushes]
    rw [← asked_whole d e r₁ h c.part c.post, c.asked d e hflushes]
    omega

/-- The pieces are walked in full and leave the response open: there is no
whole head in them and no bad status field, or a body follows the head and they
leave it unfilled. -/
inductive Stalls (r : R) (ps : List Bytes) : Prop where
  | head (none : ∀ (h : Head) rest, ps.flatten ≠ h.text ++ rest) (good : ¬ BadStatus ps.flatten)
      (quiet : Unfilled R 0 (Draining.state r) (base r).body.length ps) : Stalls r ps
  | body {h : Head} {rest : Bytes} {size : Nat} (split : ps.flatten = h.text ++ rest)
      (low : h.status < 300) (awaits : h.Awaits size)
      (unfilled : Unfilled R size (Draining.state r) (base r).body.length (behind h.text.length ps)) :
      Stalls r ps

/-- **When a call walks all its pieces and is left to what ends the reading.** -/
theorem asked_iff_stalls (d : Disconnection) (e : Engine) (r : R) (ps : List Bytes) :
    asked d ps (.start e r) = ps.length + 1 ↔ Stalls r ps := by
  constructor
  · intro hasked
    by_cases hhead : ∃ h : Head, ∃ rest, ps.flatten = h.text ++ rest
    · obtain ⟨h, rest, hsplit⟩ := hhead
      obtain ⟨c⟩ := head_pieces hsplit
      obtain ⟨low, size, awaits, hrest⟩ := (asked_head d e r c).mp hasked
      exact .body hsplit low awaits hrest
    · rcases stream_cases ps.flatten with hwhole | hbad | ⟨l, hl⟩
      · exact absurd hwhole hhead
      · exact absurd hasked (asked_badStatus d e r hbad hhead)
      · refine .head (fun h rest => hl.not_head h rest) hl.not_badStatus ?_
        rw [unfilled_zero]
        exact (asked_inHead d e r hl).mp hasked
  · intro hstalls
    cases hstalls with
    | head none good quiet =>
      rcases stream_cases ps.flatten with ⟨h, rest, hsplit⟩ | hbad | ⟨l, hl⟩
      · exact absurd hsplit (none h rest)
      · exact absurd hbad good
      · exact (asked_inHead d e r hl).mpr ((unfilled_zero r _ ps).mp quiet)
    | body split low awaits unfilled =>
      obtain ⟨c⟩ := head_pieces split
      exact (asked_head d e r c).mpr ⟨low, _, awaits, unfilled⟩

end stalls

/-! ## When completion is signalled -/

/-- The stream ends while the response is open. -/
def EndsOpen {R : Type} [ResponseClass R] [Draining R] (r : R) (ps : List Bytes × Option Exn) :
    Prop :=
  ps.2 = some (.systemError .eof) ∧ Stalls r ps.1

/-- A call that returns `false` has closed the file. -/
def Closes (x : Exit (Logged HttpResponseFile)) : Prop :=
  x.result = .ok false → x.response.inner.opened = false

theorem kept_closes : Kept (R := Logged HttpResponseFile) (fun _ => True) Closes where
  update _ _ _ := trivial
  setURL _ _ _ := trivial
  flush r _ := by
    cases ResponseClass.flush r with
    | error x => trivial
    | ok r' => trivial
  throws _ _ _ _ := fun h => by cases h
  follows _ _ _ := fun h => by cases h
  completes _ _ _ := fun _ => rfl

theorem closes_of_ended {d : Disconnection} {ending : Option Exn} {ps : List Bytes}
    {f : Frame (Logged HttpResponseFile)}
    (h : ¬ (ending = some (.systemError .eof) ∧ asked d ps f = ps.length + 1)) :
    Closes (turns d ending ps f) := by
  rcases kept_closes.turns d ending ps (f := f) trivial with ⟨-, hcloses⟩ | ⟨heof, hasked, -⟩
  · exact hcloses
  · exact absurd ⟨heof, hasked⟩ h

section calls
variable {R : Type} [ResponseClass R] [LawfulResponse R] [Draining R] (d : Disconnection)
variable (os : List (Read 2048)) (buffer : Buffer) (e : Engine) (r : R)

theorem asked_logged (ps : List Bytes) :
    asked d ps (.start e (Logged.mk r [])) = ps.length + 1 ↔ Stalls r ps := by
  have hsame := (turns_inner d none ps .start e ⟨r, []⟩).2
  rw [Frame.start_eq, hsame]
  exact asked_iff_stalls d e r ps

theorem receive_completed_iff :
    CompletedOnce (receive d os buffer e (Logged.mk r [])).1 ↔
      ¬ EndsOpen r (pieces e.httpType os (buffer 0)) := by
  rw [receive_turns, completedOnce_iff_asked d _ _ (f := .start e (Logged.mk r [])) ⟨0, rfl⟩,
    asked_logged]
  rfl

end calls

/-- **When the completion of a response is signalled.** A call tells the
response exactly once that it is complete, behind its last flush, if it returns
`false`, and not if it follows a redirect, and it then leaves no file open:
unless the stream ends while the response is open. -/
theorem completed_once_iff (d : Disconnection) (os : List (Read 2048)) (buffer : Buffer)
    (e : Engine) :
    (∀ r : HttpResponse, CompletedOnce (receive d os buffer e (Logged.mk r [])).1 ↔
      ¬ EndsOpen r (pieces e.httpType os (buffer 0))) ∧
    ∀ r : HttpResponseFile, (CompletedOnce (receive d os buffer e (Logged.mk r [])).1 ∧
      Closes (receive d os buffer e (Logged.mk r [])).1) ↔
        ¬ EndsOpen r (pieces e.httpType os (buffer 0)) := by
  refine ⟨fun r => receive_completed_iff d os buffer e r, fun r => ?_⟩
  constructor
  · intro h
    exact (receive_completed_iff d os buffer e r).mp h.1
  · intro h
    refine ⟨(receive_completed_iff d os buffer e r).mpr h, ?_⟩
    rw [receive_turns]
    apply closes_of_ended
    rw [asked_logged]
    exact h

/-- A response that ends with its stream. -/
def untilEnd : List (Read 2048) :=
  [.data ⟨str "HTTP/1.0 200 OK\r\n\r\nhello", by decide, by decide⟩, .error .eof]

/-- Its end is not signalled, and the file stays open. -/
theorem completed_forgotten :
    ¬ CompletedOnce
      (receive ⟨none, none⟩ untilEnd (fun _ => 0) .new (Logged.mk HttpResponse.new [])).1 ∧
    ¬ Closes (receive ⟨none, none⟩ untilEnd (fun _ => 0) .new (Logged.mk fileStart [])).1 := by
  rw [receive_turns, receive_turns]
  constructor
  · intro h
    obtain ⟨k, hk⟩ := h.returned (by decide)
    have hin : Signal.completed ∈ List.replicate k .flush ++ [.completed] := by simp
    rw [← hk] at hin
    exact absurd hin (by decide)
  · intro h
    exact absurd (h (by decide)) (by decide)

end Anetd
