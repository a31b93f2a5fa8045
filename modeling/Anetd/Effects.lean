import Anetd.Pieces
import Anetd.Send

/-!
# What a transfer does to a response

A transfer edits the base part of its response in a few ways, appends to its
body, and calls the virtual functions of its class; it does nothing else to it.
So what these keep of a response, a whole transfer keeps (`Stable.connect`).
Outside the body state nothing is appended (`Steady.step`).
-/

namespace Anetd

open Lib.Machine

/-- What the engine writes into the base part of a response, beside its body. -/
inductive Edit : (HttpResponse → HttpResponse) → Prop where
  | host (host : Bytes) : Edit fun b => b.setHost host
  | contentLength (n : Nat) : Edit fun b => b.setContentLength n
  | accepted (version : Bytes) (status : Int) (description : Bytes) :
      Edit fun b => ((b.setVersion version).setStatus status).setDescription description
  | refused (status : Int) (description : Bytes) :
      Edit fun b => (b.setStatus status).setDescription description
  | header (key val : Bytes) : Edit fun b => b.setHeaders key val
  | size (n : Nat) : Edit fun b => b.setBodySize n
  | sizeOfBody : Edit fun b => b.setBodySize b.body.length

/-- A property of responses which all that a transfer does to one, but for the
bytes of its body, keeps. -/
structure Steady {R : Type} [ResponseClass R] (I : R → Prop) : Prop where
  edit : ∀ {f} r, Edit f → I r → I (update f r)
  setURL : ∀ r url, I r → I (ResponseClass.setURL r url)
  completed : ∀ r, I r → I (ResponseClass.completed r)

/-- One which all that a transfer does keeps. -/
structure Stable {R : Type} [ResponseClass R] (I : R → Prop) : Prop extends Steady I where
  body : ∀ r c, I r → I (update (fun b => b.setBody c) r)
  flush : ∀ r, I r → Both (fun x => I x.2) I (ResponseClass.flush r)

/-- What a property of responses says of frames, and of what the parser leaves with. -/
abbrev OfResponse {R : Type} (I : R → Prop) : Except (Exit R) (Frame R) → Prop :=
  Both (fun x => I x.response) fun g => I g.response

namespace Steady
variable {R : Type} [ResponseClass R] {I : R → Prop} (h : Steady I)
include h

section receive
variable (d : Disconnection)

theorem refuse {f : Frame R} (hf : I f.response) : I (Anetd.refuse f).response :=
  h.completed _ (h.edit _ (.refused _ _) hf)

theorem redirect {f : Frame R} (hf : I f.response) : I (Anetd.redirect d f).response := by
  apply redirect_rule (E := fun x => I x.response) d f
  · intro e
    exact h.refuse hf
  · rintro se e r (rfl | ⟨url, rfl⟩)
    · exact hf
    · exact h.setURL _ url hf
  · intro e url
    exact h.setURL _ url hf

theorem publishHeader {r : R} (hr : I r) (header : Bytes × Bytes) :
    Both I I (Anetd.publishHeader r header) := by
  have hset := h.edit r (.header header.1 header.2) hr
  unfold Anetd.publishHeader
  simp only
  split
  · split
    · exact hset
    · rename_i n _
      exact h.edit _ (.size (sizeOfInt n)) hset
  · exact hset

theorem endOfHeaders {f : Frame R} (hf : I f.response) : OfResponse I (Anetd.endOfHeaders d f) := by
  have hsetup : I (setup f) := h.edit _ (.accepted _ _ _) hf
  have hpublish := run_both (fun _ header hr => h.publishHeader hr header) hsetup
    f.tempheaders.entries
  unfold Anetd.endOfHeaders
  split
  · exact h.refuse hf
  · split
    · exact h.redirect d hf
    · cases hrun : run Anetd.publishHeader (setup f) f.tempheaders.entries with
      | error r =>
        rw [hrun] at hpublish
        exact hpublish
      | ok r =>
        rw [hrun] at hpublish
        have hpublish : I r := hpublish
        simp only
        split
        · exact hpublish
        · exact h.edit _ (.size 0) hpublish

/-- One byte that is not of the body. -/
theorem step {f : Frame R} (hhead : f.parserState ≠ .body) (hf : I f.response) (c : Byte) :
    OfResponse I (Anetd.step d f c) := by
  unfold Anetd.step
  split
  · split <;> exact hf
  · split
    · exact hf
    · split <;> exact hf
  · split
    · exact hf
    · split <;> exact hf
  · split
    · exact hf
    · split
      · exact h.endOfHeaders d hf
      · split
        · exact hf
        · split <;> exact hf
  · split
    · exact hf
    · split <;> exact hf
  · rename_i hbody
    exact absurd hbody hhead
  · exact hf

theorem finish (ending : Option Exn) {f : Frame R} (hf : I f.response) :
    I (Anetd.finish ending f).response := by
  cases ending with
  | none => exact hf
  | some x =>
    simp only [Anetd.finish, handle]
    split
    · exact h.edit _ .sizeOfBody hf
    · exact hf

end receive

theorem prepare {env : Environment} {e : Engine} {r : R} (hr : I r) {p : Prepared R}
    (hp : Anetd.prepare env e r = some p) : I p.response := by
  rcases (prepare_cases hp).2 with ⟨-, -, -, hresponse⟩ | ⟨-, -, -, hresponse⟩
  · rw [hresponse]
    exact h.edit _ (.host _) hr
  · rw [hresponse]
    exact hr

end Steady

namespace Stable
variable {R : Type} [ResponseClass R] {I : R → Prop} (h : Stable I)
include h

section receive
variable (d : Disconnection)

/-- One byte. -/
theorem step {f : Frame R} (hf : I f.response) (c : Byte) : OfResponse I (Anetd.step d f c) := by
  by_cases hbody : f.parserState = .body
  · simp only [Anetd.step, hbody]
    exact h.body _ c hf
  · exact h.toSteady.step d hbody hf c

theorem parse {f : Frame R} (hf : I f.response) (bs : Bytes) :
    OfResponse I (Anetd.parse d f bs) :=
  run_both (fun _ c hf => h.step d hf c) hf bs

/-- The pieces one after the other. -/
theorem turns (ending : Option Exn) (ps : List Bytes) {f : Frame R} (hf : I f.response) :
    I (Anetd.turns d ending ps f).response := by
  induction ps generalizing f with
  | nil => exact h.toSteady.finish ending hf
  | cons p ps ih =>
    have hparse := h.parse d hf p
    cases hrun : Anetd.parse d f p with
    | error x =>
      rw [hrun] at hparse
      rw [turns_error hrun]
      exact hparse
    | ok g =>
      rw [hrun] at hparse
      have hflushed := h.flush _ hparse
      cases hflush : ResponseClass.flush g.response with
      | error x =>
        rw [hflush] at hflushed
        rw [turns_fail hrun hflush]
        exact hflushed
      | ok r =>
        rw [hflush] at hflushed
        by_cases hdone : g.parserState = .ok
        · rw [turns_done hrun hflush hdone]
          exact h.completed _ hflushed
        · rw [turns_more hrun hflush hdone]
          exact ih hflushed

/-- One call. -/
theorem receive (reads : List (Read 2048)) (buffer : Buffer) (e : Engine) {r : R} (hr : I r) :
    I (Anetd.receive d reads buffer e r).1.response := by
  rw [receive_turns]
  exact h.turns d _ _ (f := .start e r) hr

end receive

section connect
variable {env : Environment} {w : World R}

/-- One hop. -/
theorem send (hop : Hop) (hw : I w.response) : I (Anetd.send env hop w).2.response := by
  rcases send_cases env hop w with ⟨-, hsend⟩ |
    ⟨p, hp, ⟨stop, -, hsend⟩ | ⟨-, ⟨ec, -, hsend⟩ | ⟨-, hsend⟩⟩⟩
  · rw [hsend]
    exact hw
  · rw [hsend]
    exact h.toSteady.prepare hw hp
  · rw [hsend]
    exact h.edit _ (.contentLength _) (h.toSteady.prepare hw hp)
  · rw [hsend]
    exact h.receive _ _ _ _ (h.edit _ (.contentLength _) (h.toSteady.prepare hw hp))

/-- **What all that is done to a response keeps, a transfer keeps.** -/
theorem connect {net : Network} {calls : Nat} {result : Except Stop Unit} {v : World R}
    (hw : I w.response) (hconnect : Anetd.connect env net calls w = some (result, v)) :
    I v.response :=
  connect_rule (I := fun w => I w.response) (fun w hw => h.send (net w.trace) hw)
    (fun _ _ hw => hw) hw hconnect

end connect

end Stable

end Anetd
