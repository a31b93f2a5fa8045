import Mathlib.Logic.Function.Basic
import Anetd.Lib.Behaviour
import Anetd.Redirects

/-!
# Transfers in a thread

`Starttransfer` runs `connect` in a thread of its own and returns at once. The
application gets to know of the end by the future `Status` or by the callback
function, which `connect` posts to an `io_service` of the application. A
`Program` is an engine with all of this and with the response objects of the
application, `step` what the application, the thread and the `io_service` can
do to it, in any order.

One transfer is started after the other, and the application leaves alone what
a transfer is working on. Under this discipline every callback is accounted for
(`callbacks_accounted`), and `getCompletion` tells the truth (`completion_iff`).
-/

namespace Anetd

open Lib.Machine

/-! ## The parts -/

/-- `boost::unique_future<http_response *>`; a response is known by its address. -/
inductive Future where
  | uninitialized
  | waiting
  | value (response : Nat)
  | exception (x : Exn)
  deriving DecidableEq

def Future.isReady : Future → Bool
  | uninitialized | waiting => false
  | value _ | exception _ => true

/-- Where the thread of a transfer is in `connect`, and in the task around it
that puts the result into the future. It hangs when a read is never answered,
and it can be the end of the program. -/
inductive Thread where
  | none
  | sending
  | posting
  | returning
  | throwing (x : Exn)
  | blocked
  | ended
  deriving DecidableEq

/-- Where an exception of `send` leaves it, or what else keeps `send` from returning. -/
def Thread.stopped : Stop → Thread
  | .threw x => throwing x
  | .blocked => blocked
  | .terminated | .undefined => ended

/-- An `http_engine` with its thread, the response objects of the application,
what is in the `io_service`, and the runs of `callback` so far: the function it
found, if there was one, and the response it was bound to. -/
structure Program (R : Type) where
  engine : Engine
  response : Nat
  status : Future
  callbackFunction : Option Nat
  postbackio : List Nat
  thread : Thread
  objects : Nat → R
  trace : List Event
  handled : List (Option Nat × Nat)

/-- What can be done: the calls of the application, with what it does to its
responses by itself, one step of the thread, and one handler of the `io_service`. -/
inductive Act (R : Type) where
  | setCallback (func : Option Nat)
  | setProxyAuth (username password : Bytes)
  | reset (d : Disconnection)
  | use (object : Nat) (f : R → R)
  | starttransfer (myresponse : Nat)
  | thread
  | callback

def Act.isThread {R : Type} : Act R → Bool
  | thread => true
  | _ => false

/-- The response of the transfer that an act starts. -/
def Act.starts {R : Type} : Act R → Option Nat
  | starttransfer myresponse => some myresponse
  | _ => none

namespace Program

section
variable {R : Type}

/-- The constructor, which makes a response of its own. -/
def new (objects : Nat → R) (response : Nat) : Program R where
  engine := .new
  response := response
  status := .uninitialized
  callbackFunction := none
  postbackio := []
  thread := .none
  objects := objects
  trace := []
  handled := []

/-- What a call of `send` works on. -/
def world (p : Program R) : World R := ⟨p.engine, p.objects p.response, p.trace⟩

def withWorld (p : Program R) (w : World R) : Program R :=
  { p with
    engine := w.engine
    objects := Function.update p.objects p.response w.response
    trace := w.trace }

/-- `http_engine::getCompletion`. -/
def getCompletion (p : Program R) : Bool := p.status.isReady

/-- `http_engine::Starttransfer`; the thread is detached. -/
def starttransfer (p : Program R) (myresponse : Nat) : Program R :=
  { p with response := myresponse, status := .waiting, thread := .sending }

/-- `postbackio->post(boost::bind(&http_engine::callback, this, this->response))`. -/
def post (p : Program R) : Program R :=
  { p with
    postbackio := p.postbackio ++ [p.response]
    trace := p.trace ++ [.callback]
    thread := .returning }

/-- The end of the task: the future gets what `connect` has returned or thrown. -/
def settle (p : Program R) (status : Future) : Program R :=
  { p with status := status, thread := .none }

/-- `http_engine::callback`, run as a handler. -/
def callback (p : Program R) (res : Nat) (rest : List Nat) : Program R :=
  { p with postbackio := rest, handled := p.handled ++ [(p.callbackFunction, res)] }

/-- A step under a condition. -/
def allow (condition : Prop) [Decidable condition] (p : Program R) : Except Unit (Program R) :=
  if condition then .ok p else .error ()

theorem allow_eq_ok {condition : Prop} [Decidable condition] {p q : Program R} :
    allow condition p = .ok q ↔ condition ∧ p = q := by
  unfold allow
  split
  · rename_i h
    exact ⟨fun heq => ⟨h, Except.ok.inj heq⟩, fun heq => congrArg _ heq.2⟩
  · rename_i h
    exact ⟨fun heq => (nomatch heq), fun heq => absurd heq.1 h⟩

end

section step
variable {R : Type} [ResponseClass R] (env : Environment) (net : Network)

/-- The next step of the thread: a call of `send`, the post behind the loop, or
the end of the task. -/
def resume (p : Program R) : Except Unit (Program R) :=
  match p.thread with
  | .sending =>
    match send env (net p.trace) p.world with
    | (.ok true, w) => .ok (p.withWorld w)
    | (.ok false, w) => .ok { p.withWorld w with thread := .posting }
    | (.error stop, w) => .ok { p.withWorld w with thread := .stopped stop }
  | .posting => .ok p.post
  | .returning => .ok (p.settle (.value p.response))
  | .throwing x => .ok (p.settle (.exception x))
  | .none | .blocked | .ended => .error ()

/-- What one act makes of the program, if it is possible. `setCallback` has no
return statement for the `bool` that it declares; it is taken to return. -/
def step (p : Program R) : Act R → Except Unit (Program R)
  | .setCallback func => allow (p.thread ≠ .ended) { p with callbackFunction := func }
  | .setProxyAuth username password =>
    allow (p.thread = .none) { p with engine := { p.engine with proxyauth := (username, password) } }
  | .reset d =>
    let x := (p.engine.reset (p.objects p.response) d).2
    allow (p.thread = .none) (p.withWorld ⟨x.1, x.2, p.trace⟩)
  | .use object f =>
    allow (p.thread = .none ∨ (p.thread ≠ .ended ∧ object ≠ p.response))
      { p with objects := Function.update p.objects object (f (p.objects object)) }
  | .starttransfer myresponse => allow (p.thread = .none) (p.starttransfer myresponse)
  | .thread => p.resume env net
  | .callback =>
    match p.postbackio with
    | [] => .error ()
    | res :: rest => allow (p.thread ≠ .ended) (p.callback res rest)

variable {env net} {p q : Program R}

/-- **What the thread can do.** -/
theorem resume_cases (h : p.resume env net = .ok q) :
    (p.thread = .sending ∧ ∃ result w, send env (net p.trace) p.world = (result, w) ∧
      ((result = .ok true ∧ q = p.withWorld w) ∨
        (result = .ok false ∧ q = { p.withWorld w with thread := .posting }) ∨
        ∃ stop, result = .error stop ∧ q = { p.withWorld w with thread := .stopped stop })) ∨
    (p.thread = .posting ∧ q = p.post) ∨
    (p.thread = .returning ∧ q = p.settle (.value p.response)) ∨
    ∃ x, p.thread = .throwing x ∧ q = p.settle (.exception x) := by
  unfold resume at h
  split at h
  · rename_i hthread
    refine .inl ⟨hthread, ?_⟩
    rcases hsend : send env (net p.trace) p.world with ⟨result, w⟩
    rw [hsend] at h
    refine ⟨result, w, rfl, ?_⟩
    cases result with
    | error stop => exact .inr (.inr ⟨stop, rfl, (Except.ok.inj h).symm⟩)
    | ok again =>
      cases again with
      | true => exact .inl ⟨rfl, (Except.ok.inj h).symm⟩
      | false => exact .inr (.inl ⟨rfl, (Except.ok.inj h).symm⟩)
  · rename_i hthread
    exact .inr (.inl ⟨hthread, (Except.ok.inj h).symm⟩)
  · rename_i hthread
    exact .inr (.inr (.inl ⟨hthread, (Except.ok.inj h).symm⟩))
  · rename_i x hthread
    exact .inr (.inr (.inr ⟨x, hthread, (Except.ok.inj h).symm⟩))
  · cases h
  · cases h
  · cases h

/-- A handler is the one that was posted first. -/
theorem callback_cases (h : step env net p .callback = .ok q) :
    p.thread ≠ .ended ∧ ∃ res rest, p.postbackio = res :: rest ∧ q = p.callback res rest := by
  simp only [step] at h
  split at h
  · cases h
  · rename_i res rest hposted
    obtain ⟨hgoing, rfl⟩ := allow_eq_ok.mp h
    exact ⟨hgoing, res, rest, hposted, rfl⟩

end step

/-! ## What becomes of the transfers -/

/-- A transfer is started, or its task is over: with a result, or with what it threw. -/
inductive Note where
  | started (response : Nat)
  | finished (response : Nat) (threw : Option Exn)
  deriving DecidableEq

namespace Note

/-- The responses of the transfers that have been started. -/
def starts : List Note → List Nat :=
  List.filterMap fun
    | started response => some response
    | finished _ _ => none

/-- The responses of those that are over. -/
def finishes : List Note → List Nat :=
  List.filterMap fun
    | started _ => none
    | finished response _ => some response

/-- The responses of those that returned. -/
def returns : List Note → List Nat :=
  List.filterMap fun
    | finished response none => some response
    | started _ | finished _ (some _) => none

/-- What the future says behind it. -/
def told : Note → Future
  | started _ => .waiting
  | finished response none => .value response
  | finished _ (some x) => .exception x

/-- What it says behind the last of them. -/
def future (notes : List Note) : Future := (notes.getLast?.map told).getD .uninitialized

end Note

section notes
variable {R : Type}

/-- What an act is for the transfers. -/
def note (p : Program R) : Act R → List Note
  | .starttransfer myresponse => [.started myresponse]
  | .thread =>
    match p.thread with
    | .returning => [.finished p.response none]
    | .throwing x => [.finished p.response (some x)]
    | _ => []
  | _ => []

/-- The response of the transfer that is running. -/
def running (p : Program R) : List Nat := if p.thread = .none then [] else [p.response]

/-- The callback that is posted although its transfer is not over yet. -/
def early (p : Program R) : List Nat := if p.thread = .returning then [p.response] else []

/-- **The books.** There is one callback for each transfer that returned, and
for one that is about to; every transfer that was started is over, or is the one
that is running; and the future says what became of the last. -/
structure Accounted (p : Program R) (notes : List Note) : Prop where
  callbacks : p.handled.map Prod.snd ++ p.postbackio = Note.returns notes ++ p.early
  starts : Note.starts notes = Note.finishes notes ++ p.running
  status : p.status = Note.future notes
  waits : p.status = .waiting ↔ p.thread ≠ .none

variable {p : Program R} {notes : List Note}

theorem accounted_new (objects : Nat → R) (response : Nat) : Accounted (new objects response) [] :=
  ⟨rfl, rfl, rfl, by simp [new]⟩

/-- What touches neither callbacks nor transfers. -/
theorem Accounted.same {q : Program R} (h : p.Accounted notes) (hhandled : q.handled = p.handled)
    (hposted : q.postbackio = p.postbackio) (hresponse : q.response = p.response)
    (hstatus : q.status = p.status) (hthread : q.thread = p.thread) : q.Accounted notes := by
  constructor
  · rw [hhandled, hposted, early, hthread, hresponse]
    exact h.callbacks
  · rw [running, hthread, hresponse]
    exact h.starts
  · rw [hstatus]
    exact h.status
  · rw [hstatus, hthread]
    exact h.waits

/-- A thread that goes on without a post. -/
theorem Accounted.moves (h : p.Accounted notes) (hthread : p.thread = .sending) (w : World R)
    (thread : Thread) (hgoes : thread ≠ .none) (hquiet : thread ≠ .returning) :
    Accounted { p.withWorld w with thread := thread } notes := by
  obtain ⟨hcallbacks, hstarts, hstatus, hwaits⟩ := h
  simp only [early, running, hthread, reduceCtorEq, if_false, ne_eq, not_false_eq_true, iff_true]
    at hcallbacks hstarts hwaits
  refine ⟨?_, ?_, hstatus, ?_⟩
  · simpa only [withWorld, early, hquiet, if_false] using hcallbacks
  · simpa only [withWorld, running, hgoes, if_false] using hstarts
  · exact iff_of_true hwaits hgoes

/-- The end of the task. -/
theorem Accounted.finished (h : p.Accounted notes) (threw : Option Exn)
    (hgoes : p.thread ≠ .none) (hearly : p.early = if threw = none then [p.response] else []) :
    (p.settle (Note.told (.finished p.response threw))).Accounted
      (notes ++ [.finished p.response threw]) := by
  obtain ⟨hcallbacks, hstarts, -, -⟩ := h
  refine ⟨?_, ?_, ?_, ?_⟩
  · rw [hearly] at hcallbacks
    cases threw <;> simpa [Note.returns, settle, early] using hcallbacks
  · simp only [running, hgoes, if_false] at hstarts
    simpa [Note.starts, Note.finishes, settle, running] using hstarts
  · simp [Note.future, settle]
  · cases threw <;> simp [Note.told, settle]

/-- The future is ready when the last transfer is over, and there was one. -/
theorem Accounted.ready_iff (h : p.Accounted notes) :
    p.getCompletion = true ↔ p.thread = .none ∧ Note.starts notes ≠ [] := by
  rw [getCompletion, h.starts]
  rcases List.eq_nil_or_concat' notes with rfl | ⟨before, last, rfl⟩
  · have hstatus := h.status
    have hidle : p.thread = .none := by
      by_contra hrunning
      cases hstatus.symm.trans (h.waits.mpr hrunning)
    simp [hstatus, Note.future, Future.isReady, Note.finishes, running, hidle]
  · have hstatus : p.status = last.told := by simp [h.status, Note.future]
    have hwaits := h.waits
    rw [hstatus] at hwaits ⊢
    cases last with
    | started response =>
      have hrunning : p.thread ≠ .none := hwaits.mp rfl
      simp [Note.told, Future.isReady, hrunning]
    | finished response threw =>
      have hidle : p.thread = .none := by
        by_contra hrunning
        cases threw <;> cases hwaits.mpr hrunning
      cases threw <;> simp [Note.told, Future.isReady, hidle, Note.finishes]

/-- A value is that of the last transfer, whose callback is the last. -/
theorem Accounted.last (h : p.Accounted notes) {r : Nat} (hr : p.status = .value r) :
    (Note.starts notes).getLast? = some r ∧
      (p.handled.map Prod.snd ++ p.postbackio).getLast? = some r := by
  have hidle : p.thread = .none := by
    by_contra hrunning
    cases hr.symm.trans (h.waits.mpr hrunning)
  rw [h.starts, h.callbacks]
  rcases List.eq_nil_or_concat' notes with rfl | ⟨before, last, rfl⟩
  · cases hr.symm.trans h.status
  · have hstatus : p.status = last.told := by simp [h.status, Note.future]
    rw [hstatus] at hr
    cases last with
    | started response => cases hr
    | finished response threw =>
      cases threw with
      | some x => cases hr
      | none =>
        obtain rfl : response = r := Future.value.inj hr
        simp [running, early, hidle, Note.finishes, Note.returns]

end notes

section accounts
variable {R : Type} [ResponseClass R] {env : Environment} {net : Network} {p q : Program R}
variable {notes : List Note}

theorem Accounted.resume (h : p.Accounted notes) (hq : p.resume env net = .ok q) :
    q.Accounted (notes ++ p.note .thread) := by
  rcases resume_cases hq with ⟨hthread, result, w, -, hresult⟩ | ⟨hthread, rfl⟩ |
    ⟨hthread, rfl⟩ | ⟨x, hthread, rfl⟩
  · simp only [note, hthread, List.append_nil]
    rcases hresult with ⟨-, rfl⟩ | ⟨-, rfl⟩ | ⟨stop, -, rfl⟩
    · have hmoves := h.moves hthread w .sending (by simp) (by simp)
      rw [← hthread] at hmoves
      exact hmoves
    · exact h.moves hthread w .posting (by simp) (by simp)
    · apply h.moves hthread w (.stopped stop) <;> cases stop <;> simp [Thread.stopped]
  · simp only [note, hthread, List.append_nil]
    obtain ⟨hcallbacks, hstarts, hstatus, hwaits⟩ := h
    simp only [early, running, hthread, reduceCtorEq, if_false, List.append_nil] at hcallbacks hstarts
    refine ⟨?_, ?_, hstatus, ?_⟩
    · rw [← hcallbacks]
      simp [post, early]
    · simpa [post, running] using hstarts
    · simpa [post, hthread] using hwaits
  · have hfinished := h.finished none (by simp [hthread]) (by simp [early, hthread])
    simp only [note, hthread]
    exact hfinished
  · have hfinished := h.finished (some x) (by simp [hthread]) (by simp [early, hthread])
    simp only [note, hthread]
    exact hfinished

/-- **No act spoils the books.** -/
theorem Accounted.step (h : p.Accounted notes) {a : Act R} (hq : p.step env net a = .ok q) :
    q.Accounted (notes ++ p.note a) := by
  cases a with
  | thread => exact h.resume hq
  | setCallback func | setProxyAuth username password | reset d | use object f =>
    obtain ⟨-, rfl⟩ := allow_eq_ok.mp hq
    simp only [note, List.append_nil]
    exact h.same rfl rfl rfl rfl rfl
  | starttransfer myresponse =>
    obtain ⟨hthread, rfl⟩ := allow_eq_ok.mp hq
    obtain ⟨hcallbacks, hstarts, -, -⟩ := h
    simp only [early, running, hthread, reduceCtorEq, if_true, if_false, List.append_nil]
      at hcallbacks hstarts
    refine ⟨?_, ?_, ?_, ?_⟩
    · simpa [note, starttransfer, early, Note.returns] using hcallbacks
    · simpa [note, starttransfer, running, Note.starts, Note.finishes] using hstarts
    · simp [note, starttransfer, Note.future, Note.told]
    · simp [starttransfer]
  | callback =>
    obtain ⟨-, res, rest, hposted, rfl⟩ := callback_cases hq
    simp only [note, List.append_nil]
    refine ⟨?_, h.starts, h.status, h.waits⟩
    have hearly : (p.callback res rest).early = p.early := rfl
    rw [hearly, ← h.callbacks, hposted]
    simp [callback]

/-- The thread of a transfer that is over stays so until another one is started. -/
theorem idle_stays (hidle : p.thread = .none) {acts : List (Act R)}
    (hnone : ∀ a ∈ acts, a.starts = none) (h : run (step env net) p acts = .ok q) :
    q.thread = .none ∧ q.status = p.status := by
  refine run_invariant (I := fun u => u.thread = .none ∧ u.status = p.status) ?_ ⟨hidle, rfl⟩ h
  intro a ha u v hu hv
  cases a with
  | setCallback func | setProxyAuth username password | reset d | use object f =>
    obtain ⟨-, rfl⟩ := allow_eq_ok.mp hv
    exact hu
  | starttransfer myresponse => cases hnone _ ha
  | thread => simp [step, resume, hu.1] at hv
  | callback =>
    obtain ⟨-, res, rest, -, rfl⟩ := callback_cases hv
    exact hu

/-- The transfers that are noted are those that the application starts. -/
theorem starts_shown {acts : List (Act R)} (h : run (step env net) p acts = .ok q) :
    Note.starts (shown (step env net) note p acts) = acts.filterMap Act.starts := by
  induction acts generalizing p with
  | nil => rfl
  | cons a acts ih =>
    cases ha : p.step env net a with
    | error x =>
      rw [run_cons_error ha] at h
      cases h
    | ok u =>
      rw [run_cons_ok ha] at h
      have hnote : Note.starts (p.note a) = a.starts.toList := by
        cases a with
        | thread => cases hthread : p.thread <;> simp [note, hthread, Note.starts, Act.starts]
        | _ => rfl
      have happend : Note.starts (shown (step env net) note p (a :: acts)) =
          Note.starts (p.note a) ++ Note.starts (shown (step env net) note u acts) := by
        simp only [shown, ha, Note.starts, List.filterMap_append]
      rw [happend, ih h, hnote]
      cases hstarts : a.starts <;> simp [hstarts]

end accounts

/-! ## Every run -/

section main
variable {R : Type} [ResponseClass R] {env : Environment} {net : Network} {p : Program R}
variable {objects : Nat → R} {response : Nat} {acts : List (Act R)}

theorem accounted (h : run (step env net) (new objects response) acts = .ok p) :
    p.Accounted (shown (step env net) note (new objects response) acts) :=
  run_shown (I := Accounted) (fun _ _ _ _ _ hbooks ha => hbooks.step ha)
    (accounted_new objects response) h

/-- **No callback is lost, doubled or mixed up.** In whatever order the
application, the thread and the `io_service` take their steps: the callbacks
that have run and those that wait are, in order, one for each transfer that
returned, bound to its response, and perhaps one for the transfer that is about
to; the transfers are those that were started, all over but the one that runs. -/
theorem callbacks_accounted (h : run (step env net) (new objects response) acts = .ok p) :
    let notes := shown (step env net) note (new objects response) acts
    p.handled.map Prod.snd ++ p.postbackio = Note.returns notes ++ p.early ∧
      Note.finishes notes ++ p.running = acts.filterMap Act.starts := by
  have hbooks := accounted h
  refine ⟨hbooks.callbacks, ?_⟩
  rw [← hbooks.starts]
  exact starts_shown h

/-- **What `getCompletion` tells.** It is true exactly when a transfer has been
started and no thread is running; a future with a value holds the response of
the last transfer, and its callback has been posted behind all others; and this
stays so until the next transfer is started. -/
theorem completion_iff (h : run (step env net) (new objects response) acts = .ok p) :
    (p.getCompletion = true ↔ p.thread = .none ∧ acts.filterMap Act.starts ≠ []) ∧
    (∀ r, p.status = .value r → (acts.filterMap Act.starts).getLast? = some r ∧
      (p.handled.map Prod.snd ++ p.postbackio).getLast? = some r) ∧
    ∀ later q, p.getCompletion = true → (∀ a ∈ later, a.starts = none) →
      run (step env net) p later = .ok q → q.status = p.status := by
  have hbooks := accounted h
  rw [← starts_shown h]
  generalize shown (step env net) note (new objects response) acts = notes at hbooks
  refine ⟨hbooks.ready_iff, fun r hr => hbooks.last hr, ?_⟩
  intro later q hready hnone hlater
  exact (idle_stays (hbooks.ready_iff.mp hready).1 hnone hlater).2

end main

/-! ## A transfer that is refused -/

def notFound : Bytes := str "HTTP/1.0 404 Not Found\r\n\r\n"

theorem notFound_pos : 0 < notFound.length := by decide

theorem notFound_le : notFound.length ≤ 2048 := by decide

/-- A server that refuses everything. -/
def refusing : Network := fun _ => answering ⟨notFound, notFound_pos, notFound_le⟩ ⟨none, none⟩

/-- The callback runs before the future is ready. -/
def refusedActs : List (Act HttpResponse) :=
  [.use 1 fun r => r.setURL loopUrl, .setCallback (some 7), .starttransfer 1, .thread, .thread,
    .callback, .thread]

/-- The start of a program whose responses are all new. -/
def fresh : Program HttpResponse := new (fun _ => .new) 0

theorem refused_runs :
    ∃ p, run (step ⟨[], []⟩ refusing) fresh refusedActs = .ok p ∧ p.thread = .none := by
  have hends : (run (step ⟨[], []⟩ refusing) fresh refusedActs).toOption.map Program.thread =
      some .none := by
    decide +kernel
  cases hrun : run (step ⟨[], []⟩ refusing) fresh refusedActs with
  | error x => simp [hrun, Except.toOption] at hends
  | ok p =>
    rw [hrun] at hends
    exact ⟨p, rfl, Option.some.inj hends⟩

theorem callbacks_accounted_refused :
    ∃ p, run (step ⟨[], []⟩ refusing) fresh refusedActs = .ok p ∧
      p.handled.map Prod.snd ++ p.postbackio = Note.returns
        (shown (step ⟨[], []⟩ refusing) note fresh refusedActs) ++ p.early := by
  obtain ⟨p, hrun, -⟩ := refused_runs
  exact ⟨p, hrun, (callbacks_accounted hrun).1⟩

theorem completion_iff_refused :
    ∃ p, run (step ⟨[], []⟩ refusing) fresh refusedActs = .ok p ∧
      (p.getCompletion = true ↔ p.thread = .none ∧ refusedActs.filterMap Act.starts ≠ []) := by
  obtain ⟨p, hrun, -⟩ := refused_runs
  exact ⟨p, hrun, (completion_iff hrun).1⟩

end Program

end Anetd
