import Anetd.History

/-!
# The progress of a transfer

`getProgress` and `getBodySize` are for an indicator that is looked at while a
transfer runs. For a response in memory that starts out empty it never goes
back, and once there is a size never goes beyond it, whatever the server sends
on whatever hop (`progress_shown`).
-/

namespace Anetd

open Lib.Machine

namespace HttpResponse

/-- There is no size yet, or the progress is within it. -/
def Within (b : HttpResponse) : Prop := b.bodySize = 0 ∨ b.progress ≤ b.bodySize

/-- Nothing of a body is there. -/
def Blank (b : HttpResponse) : Prop := b.body = [] ∧ b.progress = 0

/-- A later state of a transfer: the body has been appended to, and the progress
has gone with it; what could be asked for of the headers still can, but for the
one that `send` overwrites; the credentials are the same. -/
structure Grows (a b : HttpResponse) : Prop where
  body : a.body <+: b.body
  progress : a.progress + b.body.length = b.progress + a.body.length
  headers : ∀ key val, key ≠ str "Content-Length" → a.headers.find? key = some val →
    b.headers.find? key = some val
  httpauth : b.httpauth = a.httpauth

variable {a b c : HttpResponse}

theorem Grows.refl (b : HttpResponse) : b.Grows b :=
  ⟨List.prefix_refl _, rfl, fun _ _ _ h => h, rfl⟩

theorem Grows.trans (hab : a.Grows b) (hbc : b.Grows c) : a.Grows c where
  body := hab.body.trans hbc.body
  progress := by
    have h₁ := hab.progress
    have h₂ := hbc.progress
    omega
  headers key val hkey h := hbc.headers key val hkey (hab.headers key val hkey h)
  httpauth := hbc.httpauth.trans hab.httpauth

theorem Grows.of_same (hbody : b.body = a.body) (hprogress : b.progress = a.progress)
    (hheaders : b.headers = a.headers) (hauth : b.httpauth = a.httpauth) : a.Grows b where
  body := hbody ▸ List.prefix_refl _
  progress := by rw [hbody, hprogress]
  headers _ _ _ h := hheaders ▸ h
  httpauth := hauth

theorem Grows.edit {f : HttpResponse → HttpResponse} (hf : Edit f) (b : HttpResponse) :
    b.Grows (f b) := by
  cases hf with
  | host | accepted | refused | size => exact .of_same rfl rfl rfl rfl
  | contentLength n =>
    refine ⟨List.prefix_refl _, rfl, fun key val hkey h => ?_, rfl⟩
    simp only [setContentLength, Lib.OrdMap.find?_set, hkey, if_false]
    exact h
  | header name value =>
    refine ⟨List.prefix_refl _, rfl, fun key val _ h => ?_, rfl⟩
    simp only [setHeaders, Lib.OrdMap.find?_insert]
    split
    · rename_i heq
      subst heq
      rw [h]
      rfl
    · exact h
  | sizeOfBody => exact .of_same rfl rfl rfl rfl

theorem Grows.setBody (b : HttpResponse) (c : Byte) : b.Grows (b.setBody c) := by
  refine ⟨List.prefix_append _ _, ?_, fun _ _ _ h => h, rfl⟩
  simp only [HttpResponse.setBody, List.length_append, List.length_singleton]
  omega

/-- The progress is the length of what is in memory. -/
def Counted (b : HttpResponse) : Prop := b.progress = b.body.length

theorem Counted.edit {f : HttpResponse → HttpResponse} (hf : Edit f) (h : b.Counted) :
    (f b).Counted := by
  cases hf <;> exact h

theorem Counted.setBody (h : b.Counted) (c : Byte) : (b.setBody c).Counted := by
  have hlength : b.progress = b.body.length := h
  simp only [Counted, HttpResponse.setBody, List.length_append, List.length_singleton, hlength]

/-- **What is in memory only grows.** -/
theorem ascends : Ascends Counted Grows where
  stable := ⟨⟨fun _ hf h => h.edit hf, fun _ _ h => h, fun _ h => h⟩, fun _ c h => h.setBody c,
    fun _ h => h⟩
  trans := Grows.trans
  edit r _ hf := .edit hf r
  body r c _ := .setBody r c
  setURL _ _ _ := .of_same rfl rfl rfl rfl
  flush r _ := .refl r
  completed r _ := .refl r

end HttpResponse

/-! ## The size -/

/-- What holds of the response between two bytes, by the state of the parser. -/
def Metered (state : ParserState) (b : HttpResponse) : Prop :=
  match state with
  | .body => b.Counted ∧ (b.bodySize = 0 ∨ b.progress < b.bodySize)
  | .ok => b.Counted ∧ b.Within
  | _ => b.Blank

namespace HttpResponse.Blank
variable {b : HttpResponse} (h : b.Blank)
include h

theorem counted : b.Counted := by
  rw [Counted, h.1, h.2]
  rfl

theorem within : b.Within := .inr (h.2 ▸ Nat.zero_le _)

theorem edit {f : HttpResponse → HttpResponse} (hf : Edit f) : (f b).Blank := by
  cases hf <;> exact h

/-- The body may begin, or be complete before it does. -/
theorem metered (state : ParserState) : Metered state b := by
  cases state with
  | version | status | description | headerKey | headerValue => exact h
  | body => exact ⟨h.counted, by rw [h.2]; omega⟩
  | ok => exact ⟨h.counted, h.within⟩

end HttpResponse.Blank

theorem Metered.counted {state : ParserState} {b : HttpResponse} (h : Metered state b) :
    b.Counted := by
  cases state with
  | version | status | description | headerKey | headerValue => exact HttpResponse.Blank.counted h
  | body | ok => exact h.1

theorem Metered.within {state : ParserState} {b : HttpResponse} (h : Metered state b) :
    b.Within := by
  cases state with
  | version | status | description | headerKey | headerValue => exact HttpResponse.Blank.within h
  | body => exact h.2.imp_right Nat.le_of_lt
  | ok => exact h.2

/-- All states of a response have the progress within the size. -/
def Recorded.Within (r : Recorded HttpResponse) : Prop := ∀ b ∈ r.states, b.Within

theorem Recorded.Within.become {r : Recorded HttpResponse} (h : r.Within) {b : HttpResponse}
    (hb : b.Within) : (r.become b).Within := by
  intro a ha
  rcases List.mem_append.mp ha with hold | hnew
  · exact h a hold
  · obtain rfl := List.mem_singleton.mp hnew
    exact hb

/-- A recorded response of which nothing is there yet. -/
def Recorded.Blank (r : Recorded HttpResponse) : Prop := r.Within ∧ r.present.Blank

theorem Recorded.Blank.become {r : Recorded HttpResponse} (h : r.Blank) {b : HttpResponse}
    (hb : b.Blank) : (r.become b).Blank :=
  ⟨h.1.become hb.within, hb⟩

/-- Before the body nothing of it is there. -/
theorem steady_blank : Steady Recorded.Blank where
  edit _ hf h := h.become (h.2.edit hf)
  setURL _ _ h := h.become h.2
  completed _ h := h.become h.2

/-- A frame of the parser. -/
def Metering (f : Frame (Recorded HttpResponse)) : Prop :=
  f.response.Within ∧ Metered f.parserState f.response.present

/-- A way out of `receive`: after a redirect there is still nothing of a body. -/
def Measured (x : Exit (Recorded HttpResponse)) : Prop :=
  x.response.Within ∧ (x.result = .ok true → x.response.present.Blank)

section receive
variable {f : Frame (Recorded HttpResponse)} {r : Recorded HttpResponse} (d : Disconnection)

/-- One byte of the body. -/
theorem step_body_metering (h : Metering f) (hbody : f.parserState = .body) (c : Byte) :
    Both Measured Metering (step d f c) := by
  obtain ⟨hwithin, hmetered⟩ := h
  rw [hbody] at hmetered
  obtain ⟨hcounted, hroom⟩ := hmetered
  have hset : (f.response.present.setBody c).Counted := hcounted.setBody c
  have hlength : (f.response.present.setBody c).progress =
      (f.response.present.setBody c).body.length := hset
  simp only [step, hbody, Recorded.base_eq, Recorded.update_eq, Recorded.become_present, base_self,
    update_self]
  refine ⟨hwithin.become hroom, ?_⟩
  by_cases hdone : (f.response.present.setBody c).body.length =
      (f.response.present.setBody c).bodySize
  · simp only [hdone, if_true]
    exact ⟨hset, hroom⟩
  · simp only [hdone, if_false]
    refine ⟨hset, hroom.imp_right fun hlt => ?_⟩
    have hle : (f.response.present.setBody c).progress ≤ (f.response.present.setBody c).bodySize :=
      hlt
    exact Nat.lt_of_le_of_ne hle (hlength ▸ hdone)

/-- One byte. -/
theorem step_metering (h : Metering f) (c : Byte) : Both Measured Metering (step d f c) := by
  by_cases hbody : f.parserState = .body
  · exact step_body_metering d h hbody c
  · by_cases hok : f.parserState = .ok
    · rw [step_ok_state d hok]
      exact h
    · have hblank : f.response.Blank := by
        obtain ⟨⟨state, _⟩, _, _⟩ := f
        cases state with
        | version | status | description | headerKey | headerValue => exact h
        | body => exact absurd rfl hbody
        | ok => exact absurd rfl hok
      exact (steady_blank.step d hbody hblank c).imp (fun x hx => ⟨hx.1, fun _ => hx.2⟩)
        (fun g hg => ⟨hg.1, hg.2.metered _⟩)

/-- One call. -/
theorem receive_measured (reads : List (Read 2048)) (buffer : Buffer) (e : Engine)
    (hr : r.Blank) : Measured (receive d reads buffer e r).1 := by
  have hthrows (f : Frame (Recorded HttpResponse)) (stop : Stop) (hf : Metering f) :
      Measured ⟨.error stop, f.engine, f.response⟩ := ⟨hf.1, fun hagain => by cases hagain⟩
  have hhandle (f : Frame (Recorded HttpResponse)) (ec : ErrorCode) (hf : Metering f) :
      Measured (handle (.systemError ec) f) := by
    unfold handle
    split
    · -- the size is set to what the body has come to
      exact ⟨hf.1.become (.inr (Nat.le_of_eq hf.2.counted)), fun hagain => by cases hagain⟩
    · exact hthrows f _ hf
  have hagain (f : Frame (Recorded HttpResponse)) (hf : Metering f) :
      Metering { f with response := f.response.become f.response.present } :=
    ⟨hf.1.become hf.2.within, hf.2⟩
  refine receiveLoop_rule (I := Metering) (E := Measured) (fun f c hf => step_metering d hf c)
    ?_ ?_ (fun f hf => hthrows f _ hf) hhandle ?_ (f := .start e r) ⟨hr.1, hr.2⟩ reads buffer
  · intro f r hf hflush
    cases hflush
    exact hagain f hf
  · intro f x r hf hflush
    cases hflush
  · intro f hf _
    exact ⟨(hagain f hf).1, fun h => by cases h⟩

end receive

/-! ## A transfer -/

section connect
variable {env : Environment} {net : Network} {calls : Nat} {w : World (Recorded HttpResponse)}

/-- One hop. -/
theorem send_measured (env : Environment) (hop : Hop) (hw : w.response.Blank) :
    Measured ⟨(send env hop w).1, (send env hop w).2.engine, (send env hop w).2.response⟩ := by
  have hstops {result : Except Stop Bool} {e : Engine} {r : Recorded HttpResponse} (hr : r.Blank)
      (hresult : result ≠ .ok true) : Measured ⟨result, e, r⟩ :=
    ⟨hr.1, fun hagain => absurd hagain hresult⟩
  rcases send_cases env hop w with ⟨-, hsend⟩ | ⟨p, hp, hcases⟩
  · rw [hsend]
    exact hstops hw (fun h => by cases h)
  · have hprepared := steady_blank.prepare hw hp
    have hsent : (update (fun b => b.setContentLength p.engine.body.length) p.response).Blank :=
      steady_blank.edit _ (.contentLength _) hprepared
    rcases hcases with ⟨stop, -, hsend⟩ | ⟨-, ⟨ec, -, hsend⟩ | ⟨-, hsend⟩⟩
    · rw [hsend]
      exact hstops hprepared (fun h => by cases h)
    · rw [hsend]
      exact hstops hsent (fun h => by cases h)
    · rw [hsend]
      exact receive_measured _ _ _ _ hsent

theorem sendLoop_within {v : World (Recorded HttpResponse)} {result : Except Stop Unit}
    (hw : w.response.Blank) (h : sendLoop env net calls w = some (result, v)) :
    v.response.Within := by
  induction calls generalizing w with
  | zero => cases h
  | succ calls ih =>
    obtain ⟨hwithin, hagain⟩ := send_measured env (net w.trace) hw
    rw [sendLoop] at h
    split at h
    · rename_i stop v' heq
      rw [heq] at hwithin
      cases h
      exact hwithin
    · rename_i v' heq
      rw [heq] at hwithin hagain
      have hblank : v'.response.Blank := ⟨hwithin, hagain rfl⟩
      exact ih hblank h
    · rename_i v' heq
      rw [heq] at hwithin
      cases h
      exact hwithin

theorem connect_within {v : World (Recorded HttpResponse)} {result : Except Stop Unit}
    (hw : w.response.Blank) (h : connect env net calls w = some (result, v)) :
    v.response.Within := by
  obtain ⟨⟨result', v'⟩, hloop, heq⟩ := Option.map_eq_some_iff.mp h
  have hwithin := sendLoop_within hw hloop
  cases result' with
  | ok =>
    cases heq
    exact hwithin
  | error stop =>
    cases heq
    exact hwithin

/-- **What an indicator is shown.** Over all states of a transfer into memory
that starts out empty, on all of its hops: the body is only appended to, and the
progress is its length; a progress beyond the size is seen only while there is
no size; no header is lost or changed, but for the one that `send` overwrites. -/
theorem progress_shown {w v : World HttpResponse} {result : Except Stop Unit}
    (hbody : w.response.body = []) (hprogress : w.response.progress = 0)
    (h : connect env net calls w = some (result, v)) :
    ∃ r, connect env net calls w.record = some (result, r) ∧ r.present = v ∧
      r.response.states.Pairwise HttpResponse.Grows ∧
      ∀ b ∈ r.response.states, b.progress = b.body.length ∧
        (b.bodySize = 0 ∨ b.progress ≤ b.bodySize) := by
  have hblank : w.record.response.Blank := by
    refine ⟨fun b hb => ?_, hbody, hprogress⟩
    obtain rfl := List.mem_singleton.mp hb
    exact HttpResponse.Blank.within ⟨hbody, hprogress⟩
  have hcounted : w.response.Counted := by
    rw [HttpResponse.Counted, hbody, hprogress]
    rfl
  obtain ⟨r, hrecord, hpresent⟩ := w.recording h
  obtain ⟨hgrows, hcounted⟩ := HttpResponse.ascends.connect hcounted hrecord
  have hwithin := connect_within hblank hrecord
  exact ⟨r, hrecord, hpresent, hgrows, fun b hb => ⟨hcounted b hb, hwithin b hb⟩⟩

/-- A page of three bytes behind a redirect. -/
theorem progress_shown_moved : ∃ result r,
    connect ⟨[], []⟩ moving 2 (World.record ⟨.new, HttpResponse.new.setURL movedUrl, []⟩) =
        some (result, r) ∧
      r.response.present.progress = 3 ∧ r.response.states.Pairwise HttpResponse.Grows := by
  have hends : (connect ⟨[], []⟩ moving 2 ⟨.new, HttpResponse.new.setURL movedUrl, []⟩).map
      (fun x => x.2.response.progress) = some 3 := by decide +kernel
  obtain ⟨⟨result, v⟩, hconnect, hprogress⟩ := Option.map_eq_some_iff.mp hends
  obtain ⟨r, hrecord, rfl, hgrows, -⟩ := progress_shown rfl rfl hconnect
  exact ⟨result, r, hrecord, hprogress, hgrows⟩

end connect

end Anetd
