import Anetd.Coupling
import Anetd.Effects

/-!
# The states a response goes through

A transfer works on one response object, which its owner may look at any time:
`getProgress` is meant for that. `Recorded` is a class that records the states
its object has had, and does the same otherwise (`World.recording`).
What each of the engine's edits and calls relates to the state before, then
holds between any two states of a whole transfer (`Ascends.connect`).
-/

namespace Anetd

open Lib.Machine

/-- A response and the states it has had before, the oldest first. -/
structure Recorded (R : Type) where
  past : List R
  present : R
  deriving DecidableEq

namespace Recorded
variable {R : Type}

def states (r : Recorded R) : List R := r.past ++ [r.present]

def become (r : Recorded R) (s : R) : Recorded R := ⟨r.states, s⟩

@[simp] theorem become_present (r : Recorded R) (s : R) : (r.become s).present = s := rfl

@[simp] theorem become_states (r : Recorded R) (s : R) : (r.become s).states = r.states ++ [s] := rfl

theorem present_mem (r : Recorded R) : r.present ∈ r.states :=
  List.mem_append_right _ List.mem_cons_self

variable [ResponseClass R]

instance : ResponseClass (Recorded R) where
  base r := base r.present
  update f r := r.become (update f r.present)
  reset r := r.become (ResponseClass.reset r.present)
  setURL r url := r.become (ResponseClass.setURL r.present url)
  flush r :=
    match ResponseClass.flush r.present with
    | .ok s => .ok (r.become s)
    | .error (x, s) => .error (x, r.become s)
  completed r := r.become (ResponseClass.completed r.present)

section
variable (r : Recorded R)

@[simp] theorem base_eq : base r = base r.present := rfl

@[simp] theorem update_eq (f : HttpResponse → HttpResponse) :
    update f r = r.become (update f r.present) := rfl

end

theorem flush_ok {r : Recorded R} {s : R} (h : ResponseClass.flush r.present = .ok s) :
    ResponseClass.flush r = .ok (r.become s) := by
  simp only [ResponseClass.flush, h]

/-- Recording changes nothing. -/
theorem couples : Couples fun (q : Recorded R) (r : R) => q.present = r where
  base h := congrArg base h
  update f h := congrArg (update f) h
  setURL url h := congrArg (fun r => ResponseClass.setURL r url) h
  flush := by
    rintro q _ rfl
    simp only [ResponseClass.flush]
    cases ResponseClass.flush q.present with
    | error x => exact ⟨rfl, rfl⟩
    | ok s => exact rfl
  completed h := congrArg ResponseClass.completed h

end Recorded

/-! ## Transfers that are recorded -/

namespace World
variable {R : Type}

/-- A recording from here on. -/
def record (w : World R) : World (Recorded R) := ⟨w.engine, ⟨[], w.response⟩, w.trace⟩

def present (w : World (Recorded R)) : World R := ⟨w.engine, w.response.present, w.trace⟩

end World

variable {R : Type} [ResponseClass R] {env : Environment} {net : Network} {calls : Nat}

/-- **A transfer is the same when it is recorded.** -/
theorem World.recording {w v : World R} {result : Except Stop Unit}
    (h : connect env net calls w = some (result, v)) :
    ∃ r, connect env net calls w.record = some (result, r) ∧ r.present = v := by
  have hconnect := Recorded.couples.connect env net calls
    (show w.record.Coupled _ w from ⟨rfl, rfl, rfl⟩)
  rw [h] at hconnect
  cases hr : connect env net calls w.record with
  | none =>
    rw [hr] at hconnect
    cases hconnect
  | some x =>
    rw [hr] at hconnect
    cases hconnect with
    | some hends =>
      obtain ⟨result', e, r, trace⟩ := x
      obtain ⟨_, _, _⟩ := v
      obtain ⟨rfl, rfl, rfl, rfl⟩ := hends
      exact ⟨_, rfl, rfl⟩

/-- A relation that holds between a response and what a transfer makes of it,
while it has a property that the transfer keeps. -/
structure Ascends (I : R → Prop) (G : R → R → Prop) : Prop where
  stable : Stable I
  trans : ∀ {a b c}, G a b → G b c → G a c
  edit : ∀ {f} r, I r → Edit f → G r (update f r)
  body : ∀ r c, I r → G r (update (fun b => b.setBody c) r)
  setURL : ∀ r url, I r → G r (ResponseClass.setURL r url)
  flush : ∀ r, I r → Both (fun x => G r x.2) (G r) (ResponseClass.flush r)
  completed : ∀ r, I r → G r (ResponseClass.completed r)

/-- The states recorded so far rise, and have the property. -/
def Recorded.Rising (I : R → Prop) (G : R → R → Prop) (r : Recorded R) : Prop :=
  r.states.Pairwise G ∧ ∀ s ∈ r.states, I s

namespace Ascends
variable {I : R → Prop} {G : R → R → Prop} (h : Ascends I G)
include h

theorem become {r : Recorded R} (hr : r.Rising I G) {s : R} (hs : I s) (hG : G r.present s) :
    (r.become s).Rising I G := by
  obtain ⟨hsorted, hall⟩ := hr
  constructor
  · refine List.pairwise_append.mpr ⟨hsorted, List.pairwise_singleton _ _, ?_⟩
    intro a ha b hb
    obtain rfl := List.mem_singleton.mp hb
    rcases List.mem_append.mp ha with hpast | hpresent
    · exact h.trans ((List.pairwise_append.mp hsorted).2.2 a hpast _ List.mem_cons_self) hG
    · obtain rfl := List.mem_singleton.mp hpresent
      exact hG
  · intro a ha
    rcases List.mem_append.mp ha with hold | hnew
    · exact hall a hold
    · obtain rfl := List.mem_singleton.mp hnew
      exact hs

theorem recorded : Stable (Recorded.Rising I G) := by
  have hpresent {r : Recorded R} (hr : r.Rising I G) : I r.present := hr.2 _ r.present_mem
  refine ⟨⟨?_, ?_, ?_⟩, ?_, ?_⟩
  · intro f r hf hr
    exact h.become hr (h.stable.edit _ hf (hpresent hr)) (h.edit _ (hpresent hr) hf)
  · intro r url hr
    exact h.become hr (h.stable.setURL _ url (hpresent hr)) (h.setURL _ url (hpresent hr))
  · intro r hr
    exact h.become hr (h.stable.completed _ (hpresent hr)) (h.completed _ (hpresent hr))
  · intro r c hr
    exact h.become hr (h.stable.body _ c (hpresent hr)) (h.body _ c (hpresent hr))
  · intro r hr
    have hI := h.stable.flush _ (hpresent hr)
    have hG := h.flush _ (hpresent hr)
    simp only [ResponseClass.flush]
    cases hflush : ResponseClass.flush r.present with
    | error x =>
      rw [hflush] at hI hG
      exact h.become hr hI hG
    | ok s =>
      rw [hflush] at hI hG
      exact h.become hr hI hG

/-- **All states of a transfer have the property, and of any two of them the
later is above the earlier.** -/
theorem connect {w : World R} {v : World (Recorded R)} {result : Except Stop Unit}
    (hw : I w.response) (hconnect : Anetd.connect env net calls w.record = some (result, v)) :
    v.response.Rising I G := by
  refine h.recorded.connect (w := w.record) ⟨List.pairwise_singleton _ _, fun s hs => ?_⟩ hconnect
  obtain rfl := List.mem_singleton.mp hs
  exact hw

end Ascends

/-! ## A transfer that is moved -/

def movedText : Bytes := str "HTTP/1.0 302 Found\r\nLocation: http://b/c\r\n\r\n"

theorem movedText_pos : 0 < movedText.length := by decide

theorem movedText_le : movedText.length ≤ 2048 := by decide

def pageText : Bytes := str "HTTP/1.0 200 OK\r\n\r\nab"

theorem pageText_pos : 0 < pageText.length := by decide

theorem pageText_le : pageText.length ≤ 2048 := by decide

/-- One redirect, and then a page of three bytes that comes in two reads. -/
def moving : Network := fun trace =>
  if trace = [] then answering ⟨movedText, movedText_pos, movedText_le⟩ ⟨none, none⟩
  else
    { answering ⟨pageText, pageText_pos, pageText_le⟩ ⟨none, none⟩ with
      reads := fun _ => [.data ⟨pageText, pageText_pos, pageText_le⟩,
        .data ⟨[99], Nat.one_pos, Nat.le_of_ble_eq_true rfl⟩, .error .eof] }

def movedUrl : Bytes := str "http://a/b"

end Anetd
