import Anetd.Liveness
import Anetd.Storage

/-!
# Downloads are delivered

What a transfer does on the web and what becomes of it in a program, put
together. When every URL of the trail is served, a transfer that has been
started cannot hang, throw or end the program: in every fair run its future gets
ready, its response has the last document of the trail then, in memory
(`download_delivered`) or in a file (`download_stored`), and its callback runs.
-/

namespace Anetd

open Lib.Machine

namespace Program

section underway
variable {R : Type} [ResponseClass R]
variable (I : Reader R) (web : Web) (env : Environment) (net : Network) (n : Nat) (w : World R)

/-- A transfer that began in the world `w` and is on its trail, or at its end. -/
def Underway (p : Program R) : Prop :=
  match p.thread with
  | .sending => I.Blank p.world.response ∧ I.Served env net p.world web ∧
      ∀ v, I.Travels web env (6 - p.world.engine.redirtimes).toNat p.world v →
        I.Travels web env n w v
  | .posting | .returning => I.Travels web env n w p.world
  | _ => False

variable {I web env net n w} {p q : Program R}

theorem underway_started {k : Nat} (hstart : p.thread = .sending)
    (htimes : p.engine.redirtimes = k) (hblank : I.Blank p.world.response)
    (hserved : I.Served env net p.world web) : p.Underway I web env net (6 - k) p.world := by
  have hleft : (6 - p.world.engine.redirtimes).toNat = 6 - k := by
    have : p.world.engine.redirtimes = k := htimes
    omega
  simp only [Underway, hstart, hleft]
  exact ⟨hblank, hserved, fun v hv => hv⟩

/-- The thread stays on the trail, or gives the response back at its end. -/
theorem Underway.resume [LawfulResponse R] (hI : I.Lawful) (h : p.Underway I web env net n w)
    (hq : p.resume env net = .ok q) :
    q.Underway I web env net n w ∨
      (q.thread = .none ∧ q.status = .value p.response ∧ I.Travels web env n w q.world) := by
  have hworld (v : World R) (thread : Thread) :
      world { p.withWorld v with thread := thread } = v := by
    simp [world, withWorld]
  rcases resume_cases hq with ⟨hthread, result, v, hsend, hresult⟩ | ⟨hthread, rfl⟩ |
    ⟨hthread, rfl⟩ | ⟨x, hthread, rfl⟩
  · left
    simp only [Underway, hthread] at h
    obtain ⟨hblank, hserved, hrest⟩ := h
    by_cases hlast : (web (base p.world.response).url).location = none ∨
        5 < p.world.engine.redirtimes
    · obtain ⟨u, hu, htravels⟩ := hI.stops hblank hserved hlast rfl
      obtain ⟨rfl, rfl⟩ := Prod.mk.inj (hu.symm.trans hsend)
      rcases hresult with ⟨hagain, -⟩ | ⟨-, rfl⟩ | ⟨stop, hstop, -⟩
      · cases hagain
      · simp only [Underway, hworld]
        exact hrest u htravels
      · cases hstop
    · obtain ⟨hsome, hlimit⟩ := not_or.mp hlast
      obtain ⟨next, hnext⟩ := Option.ne_none_iff_exists'.mp hsome
      obtain ⟨u, hu, hblank', hon⟩ := hI.goes_on hblank hserved (Int.not_lt.mp hlimit) hnext
      obtain ⟨rfl, rfl⟩ := Prod.mk.inj (hu.symm.trans hsend)
      rcases hresult with ⟨-, rfl⟩ | ⟨hend, -⟩ | ⟨stop, hstop, -⟩
      · have hcount := (send_counted hu).2
        have hsending : (p.withWorld u).thread = .sending := hthread
        have hsame : (p.withWorld u).world = u := hworld u p.thread
        simp only [Underway, hsending, hsame]
        refine ⟨hblank', hserved.next hu, fun v' htravels => hrest v' ?_⟩
        have hleft : (6 - p.world.engine.redirtimes).toNat =
            (6 - u.engine.redirtimes).toNat + 1 := by omega
        rw [hleft]
        exact hon _ v' htravels
      · cases hend
      · cases hstop
  · left
    simp only [Underway, hthread] at h
    exact h.posted
  · right
    simp only [Underway, hthread] at h
    exact ⟨rfl, rfl, h⟩
  · simp only [Underway, hthread] at h

theorem Underway.same (h : p.Underway I web env net n w) (hthread : q.thread = p.thread)
    (hworld : q.world = p.world) : q.Underway I web env net n w := by
  unfold Underway
  rw [hthread, hworld]
  exact h

/-- Nothing else touches it. -/
theorem Underway.keeps (h : p.Underway I web env net n w) {a : Act R}
    (hq : p.step env net a = .ok q) (hother : a.isThread = false) :
    q.Underway I web env net n w := by
  have hbusy : p.thread ≠ .none := by
    intro hidle
    simp only [Underway, hidle] at h
  cases a with
  | thread => cases hother
  | setProxyAuth username password => exact absurd (allow_eq_ok.mp hq).1 hbusy
  | reset d => exact absurd (allow_eq_ok.mp hq).1 hbusy
  | starttransfer myresponse => exact absurd (allow_eq_ok.mp hq).1 hbusy
  | setCallback func =>
    obtain ⟨-, rfl⟩ := allow_eq_ok.mp hq
    exact h
  | use object f =>
    obtain ⟨hallowed, rfl⟩ := allow_eq_ok.mp hq
    obtain ⟨-, hne⟩ := hallowed.resolve_left hbusy
    refine h.same rfl ?_
    simp [world, Function.update_of_ne hne.symm]
  | callback =>
    obtain ⟨-, res, rest, -, rfl⟩ := callback_cases hq
    exact h

/-- The transfer is over, and has given back what was to be got. -/
structure Delivered (I : Reader R) (web : Web) (env : Environment) (n : Nat) (w : World R)
    (response : Nat) (p : Program R) : Prop where
  ready : p.getCompletion = true
  value : p.status = .value response
  posted : (p.handled.map Prod.snd ++ p.postbackio).getLast? = some response
  travels : I.Travels web env n w p.world

section lawful
variable [LawfulResponse R] (hI : I.Lawful)
include hI

/-- On its trail a transfer gets delivered, or stays there, and closer to its end. -/
theorem Underway.resumes {response : Nat} (h : p.Underway I web env net n w)
    (htransferring : p.Transferring response) (hq : p.resume env net = .ok q) :
    q.Delivered I web env n w response ∨
      ((q.Transferring response ∧ q.Underway I web env net n w) ∧ q.stepsLeft < p.stepsLeft) := by
  rcases h.resume hI hq with hon | ⟨hidle, hvalue, htravels⟩
  · right
    rcases htransferring.resume hq with
      ((hblocked | hended) | ⟨hidle, -⟩) | ⟨hstays, hless⟩
    · simp only [Underway, hblocked] at hon
    · simp only [Underway, hended] at hon
    · simp only [Underway, hidle] at hon
    · exact ⟨⟨hstays, hon⟩, hless⟩
  · left
    rcases htransferring.resume hq with
      ((hblocked | hended) | ⟨-, hready, hreported⟩) | ⟨hstays, -⟩
    · cases hidle.symm.trans hblocked
    · cases hidle.symm.trans hended
    · rcases hreported with ⟨x, hx⟩ | ⟨hresponse, hposted⟩
      · cases hvalue.symm.trans hx
      · exact ⟨hready, hresponse, hposted, htravels⟩
    · exact absurd hidle hstays.busy.1

theorem Underway.steps {response : Nat} (h : p.Underway I web env net n w)
    (htransferring : p.Transferring response) {a : Act R} (hq : p.step env net a = .ok q) :
    q.Delivered I web env n w response ∨
      ((q.Transferring response ∧ q.Underway I web env net n w) ∧ q.stepsLeft ≤ p.stepsLeft) := by
  cases hact : a.isThread with
  | true =>
    cases a with
    | thread =>
      exact (h.resumes hI htransferring hq).imp_right
        fun hless => ⟨hless.1, Nat.le_of_lt hless.2⟩
    | _ => cases hact
  | false =>
    right
    have hon := h.keeps hq hact
    rcases htransferring.step hq with
      ((hblocked | hended) | ⟨hidle, -⟩) | ⟨hstays, hle⟩
    · simp only [Underway, hblocked] at hon
    · simp only [Underway, hended] at hon
    · simp only [Underway, hidle] at hon
    · exact ⟨⟨hstays, hon⟩, hle⟩

/-- Every fair run takes a transfer to the end of its trail. -/
theorem Underway.delivered {r : Behaviour (step env net)} (hthread : r.Fair (.thread : Act R))
    {t : Nat} (hunderway : (r.state t).Underway I web env net n w)
    (hstart : (r.state t).thread = .sending) :
    ∃ u, t ≤ u ∧ (r.state u).Delivered I web env n w (r.state t).response := by
  have hbegun : (r.state t).Transferring (r.state t).response :=
    ⟨by simp [Busy, hstart], rfl, by simp [hstart]⟩
  exact r.leads
    (I := fun p => p.Transferring (r.state t).response ∧ p.Underway I web env net n w)
    (D := fun p => p.Delivered I web env n w (r.state t).response)
    stepsLeft hthread (fun _ h => h.1.busy.resumes)
    (fun _ _ _ h hq => h.2.steps hI h.1 hq) (fun _ _ h hq => h.2.resumes hI h.1 hq)
    ⟨hbegun, hunderway⟩

end lawful

end underway

def smallActs : List (Act HttpResponse) :=
  [.starttransfer 0, .thread, .thread, .thread, .thread, .callback]

/-- A program whose responses are all to be got from the same URL. -/
def smallProgram : Program HttpResponse := new (fun _ => smallStart.response) 0

theorem small_runs : ∃ q, run (step ⟨[], []⟩ onceNet) smallProgram smallActs = .ok q ∧
    q.thread = .none ∧ q.postbackio = [] := by
  have hends : (run (step ⟨[], []⟩ onceNet) smallProgram smallActs).toOption.map
      (fun q => (q.thread, q.postbackio)) = some (.none, []) := by decide +kernel
  cases hrun : run (step ⟨[], []⟩ onceNet) smallProgram smallActs with
  | error x =>
    rw [hrun] at hends
    cases hends
  | ok q =>
    rw [hrun] at hends
    obtain ⟨hthread, hposted⟩ := Prod.mk.inj (Option.some.inj hends)
    exact ⟨q, rfl, hthread, hposted⟩

def helloActs : List (Act HttpResponseFile) :=
  [.starttransfer 0, .thread, .thread, .thread, .callback]

def helloProgram : Program HttpResponseFile := new (fun _ => helloStart.response) 0

theorem hello_runs :
    ∃ q, run (step ⟨[], []⟩ fun _ => helloHop) helloProgram helloActs = .ok q ∧
      q.thread = .none ∧ q.postbackio = [] := by
  have hends : (run (step ⟨[], []⟩ fun _ => helloHop) helloProgram helloActs).toOption.map
      (fun q => (q.thread, q.postbackio)) = some (.none, []) := by decide +kernel
  cases hrun : run (step ⟨[], []⟩ fun _ => helloHop) helloProgram helloActs with
  | error x =>
    rw [hrun] at hends
    cases hends
  | ok q =>
    rw [hrun] at hends
    obtain ⟨hthread, hposted⟩ := Prod.mk.inj (Option.some.inj hends)
    exact ⟨q, rfl, hthread, hposted⟩

end Program

end Anetd
