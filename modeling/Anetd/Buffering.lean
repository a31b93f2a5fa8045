import Anetd.FileTransfer
import Anetd.History

/-!
# The memory of a download

A `http_response_file` hands its body to the file after every read, so that a
download of any length takes the memory of one read (`memory_bounded`): over
all states of a transfer at most 2048 bytes are in memory, unless there are some
and no name for a file.
-/

namespace Anetd

open Lib.Machine

/-- The reads walk pieces of their own size. -/
theorem pieces_length (type : HttpType) (reads : List (Read 2048)) (first : Byte) :
    ∀ p ∈ (pieces type reads first).1, p.length ≤ 2048 := by
  induction reads generalizing first with
  | nil =>
    intro p hp
    cases hp
  | cons o reads ih =>
    cases o with
    | data c => exact List.forall_mem_cons.mpr ⟨c.le, ih _⟩
    | error ec =>
      unfold pieces
      split
      · intro p hp
        cases hp
      · exact List.forall_mem_cons.mpr ⟨by simp, ih _⟩

/-- There are bytes in memory, and there is no name for a file. -/
def HttpResponseFile.Unnamed (r : HttpResponseFile) : Prop := r.filename = [] ∧ r.body ≠ []

namespace Recorded
variable {r : Recorded HttpResponseFile}

/-- It has been so. -/
def Unnamed (r : Recorded HttpResponseFile) : Prop := ∃ s ∈ r.states, s.Unnamed

theorem Unnamed.become (h : r.Unnamed) (s : HttpResponseFile) : (r.become s).Unnamed := by
  obtain ⟨q, hq, hunnamed⟩ := h
  exact ⟨q, List.mem_append_left _ hq, hunnamed⟩

/-- Once it has been so, that stays. -/
theorem stable_unnamed : Stable (Unnamed) := by
  refine ⟨⟨?_, ?_, ?_⟩, ?_, ?_⟩
  · exact fun r _ h => h.become _
  · exact fun r _ h => h.become _
  · exact fun r h => h.become _
  · exact fun r _ h => h.become _
  · intro r h
    simp only [ResponseClass.flush]
    cases r.present.flush with
    | error x => exact h.become _
    | ok s => exact h.become _

/-- No state has had more in memory than one read brings, there is room for some
more, and the disk takes everything. -/
structure Small (room : Nat) (r : Recorded HttpResponseFile) : Prop where
  states : ∀ s ∈ r.states, s.body.length ≤ 2048
  room : r.present.body.length + room ≤ 2048
  willing : r.present.disk.Willing

variable {room room' : Nat}

theorem Small.mono (h : r.Small room) (hle : room' ≤ room) : r.Small room' :=
  ⟨h.states, Nat.le_trans (Nat.add_le_add_left hle _) h.room, h.willing⟩

theorem Small.become (h : r.Small room) {s : HttpResponseFile}
    (hroom : s.body.length + room' ≤ 2048) (hwilling : s.disk.Willing) :
    (r.become s).Small room' := by
  refine ⟨fun q hq => ?_, hroom, hwilling⟩
  rcases List.mem_append.mp hq with hold | hnew
  · exact h.states q hold
  · obtain rfl := List.mem_singleton.mp hnew
    omega

/-- Outside the body nothing is added. -/
theorem steady_small : Steady (Small room) where
  edit _ hf h := by
    refine h.become (h.room.trans' ?_) h.willing
    cases hf <;> exact Nat.le_refl _
  setURL _ _ h := h.become h.room h.willing
  completed _ h := h.become h.room h.willing

/-- A byte of the body takes one. -/
theorem Small.body (h : r.Small (room + 1)) (c : Byte) :
    (update (fun b => b.setBody c) r).Small room := by
  refine h.become ?_ h.willing
  have hroom := h.room
  simp only [update_file, HttpResponse.setBody, List.length_append, List.length_singleton]
  omega

/-- **A flush empties the memory**, if there is a name for the file. -/
theorem Small.flush (h : r.Small 0) :
    ∃ s, ResponseClass.flush r = .ok s ∧ (s.Unnamed ∨ s.Small 2048) := by
  have htail {answers : List Bool} (hall : ∀ a ∈ answers, a = true) :
      ∀ a ∈ answers.tail, a = true := fun a ha => hall a (List.mem_of_mem_tail ha)
  have hwrites {s : HttpResponseFile} (hopen : r.present.openFile = (.ok true, s))
      (hwilling : s.disk.Willing) :
      ∃ s, ResponseClass.flush r = .ok s ∧ (s.Unnamed ∨ s.Small 2048) := by
    have hflush := (HttpResponseFile.flush_open hopen).trans
      (if_pos (Disk.headD_of_all hwilling.writes))
    refine ⟨_, flush_ok hflush, .inr (h.become (Nat.le_refl _) ?_)⟩
    rw [Disk.write_all hwilling.writes]
    exact ⟨hwilling.lookups, hwilling.opens, htail hwilling.writes⟩
  rcases r.present.openFile_cases with ⟨-, hopen⟩ | ⟨-, hname, hopen⟩ | ⟨-, -, -, hopen⟩ |
    ⟨-, -, ⟨-, hrefused⟩, -⟩ | ⟨-, -, hlost, -⟩
  · exact hwrites hopen h.willing
  · refine ⟨_, flush_ok (HttpResponseFile.flush_closed hopen), ?_⟩
    by_cases hbody : r.present.body = []
    · exact .inr (h.become (by rw [hbody]; exact Nat.le_refl _) h.willing)
    · exact .inl ⟨_, List.mem_append_right _ List.mem_cons_self, hname, hbody⟩
  · exact hwrites hopen ⟨htail h.willing.lookups, htail h.willing.opens, h.willing.writes⟩
  · rw [Disk.headD_of_all h.willing.opens] at hrefused
    cases hrefused
  · rw [Disk.headD_of_all h.willing.lookups] at hlost
    cases hlost

end Recorded

/-! ## A call of `receive` -/

open Recorded

/-- A frame of the parser, with so many bytes of a read to come: before the body
nothing is in memory. -/
def Buffering (room : Nat) (f : Frame (Recorded HttpResponseFile)) : Prop :=
  match f.parserState with
  | .body | .ok => f.response.Small room
  | _ => f.response.Small 2048

/-- A way out of `receive`: after a redirect nothing is in memory. -/
def Buffered (x : Exit (Recorded HttpResponseFile)) : Prop :=
  x.response.Small 0 ∧ (x.result = .ok true → x.response.Small 2048)

section receive
variable {f : Frame (Recorded HttpResponseFile)} {room room' : Nat} (d : Disconnection)

theorem Recorded.Small.buffering (h : f.response.Small 2048) (hroom : room ≤ 2048) :
    Buffering room f := by
  obtain ⟨⟨state, _⟩, _, r⟩ := f
  cases state with
  | version | status | description | headerKey | headerValue => exact h
  | body | ok => exact h.mono hroom

theorem Buffering.mono (h : Buffering room f) (hle : room' ≤ room) : Buffering room' f := by
  obtain ⟨⟨state, _⟩, _, r⟩ := f
  cases state with
  | version | status | description | headerKey | headerValue => exact h
  | body | ok => exact Small.mono h hle

theorem Buffering.small (h : Buffering room f) (hroom : room ≤ 2048) : f.response.Small room := by
  obtain ⟨⟨state, _⟩, _, r⟩ := f
  cases state with
  | version | status | description | headerKey | headerValue => exact Small.mono h hroom
  | body | ok => exact h

/-- What a response with nothing in memory leaves `receive` with. -/
theorem buffered_small {x : Exit (Recorded HttpResponseFile)} (h : x.response.Small 2048) :
    Buffered x :=
  ⟨h.mono (Nat.zero_le _), fun _ => h⟩

/-- One byte. -/
theorem step_buffering (hroom : room + 1 ≤ 2048) (h : Buffering (room + 1) f) (c : Byte) :
    Both Buffered (Buffering room) (step d f c) := by
  by_cases hbody : f.parserState = .body
  · have hsmall := (h.small hroom).body c
    simp only [step, hbody]
    split
    · exact hsmall
    · exact hsmall
  · by_cases hok : f.parserState = .ok
    · rw [step_ok_state d hok]
      exact h.mono (Nat.le_succ room)
    · have hempty : f.response.Small 2048 := by
        obtain ⟨⟨state, _⟩, _, _⟩ := f
        cases state with
        | version | status | description | headerKey | headerValue => exact h
        | body => exact absurd rfl hbody
        | ok => exact absurd rfl hok
      exact (steady_small.step d hbody hempty c).imp (fun x hx => buffered_small hx)
        (fun g hg => hg.buffering (by omega))

/-- One read. -/
theorem parse_buffering (h : f.response.Small 2048) {p : Bytes} (hp : p.length ≤ 2048) :
    Both Buffered (fun g => g.response.Small 0) (parse d f p) := by
  have hrun : Both Buffered (fun g => 0 ≤ 2048 ∧ Buffering 0 g) (parse d f p) :=
    run_both_spent (I := fun n g => n ≤ 2048 ∧ Buffering n g)
      (fun n g c hg => (step_buffering d hg.1 hg.2 c).imp (fun _ hx => hx)
        fun k hk => ⟨Nat.le_of_succ_le hg.1, hk⟩)
      ⟨hp, h.buffering hp⟩
  exact hrun.imp (fun _ hx => hx) fun g hg => hg.2.small hg.1

/-- The reads one after the other. -/
theorem turns_buffered (ending : Option Exn) {ps : List Bytes} (hps : ∀ p ∈ ps, p.length ≤ 2048)
    (h : f.response.Small 2048) :
    (turns d ending ps f).response.Unnamed ∨ Buffered (turns d ending ps f) := by
  induction ps generalizing f with
  | nil => exact .inr (buffered_small (steady_small.finish ending h))
  | cons p ps ih =>
    obtain ⟨hp, hps⟩ := List.forall_mem_cons.mp hps
    have hparse := parse_buffering d h hp
    cases hrun : parse d f p with
    | error x =>
      rw [hrun] at hparse
      rw [turns_error hrun]
      exact .inr hparse
    | ok g =>
      rw [hrun] at hparse
      obtain ⟨r, hflush, hunnamed | hsmall⟩ := hparse.flush
      · by_cases hdone : g.parserState = .ok
        · rw [turns_done hrun hflush hdone]
          exact .inl (stable_unnamed.completed _ hunnamed)
        · rw [turns_more hrun hflush hdone]
          exact .inl (stable_unnamed.turns d ending ps (f := { g with response := r }) hunnamed)
      · by_cases hdone : g.parserState = .ok
        · rw [turns_done hrun hflush hdone]
          exact .inr (buffered_small (steady_small.completed _ hsmall))
        · rw [turns_more hrun hflush hdone]
          exact ih hps hsmall

/-- One call. -/
theorem receive_buffered (reads : List (Read 2048)) (buffer : Buffer) (e : Engine)
    {r : Recorded HttpResponseFile} (h : r.Small 2048) :
    (receive d reads buffer e r).1.response.Unnamed ∨ Buffered (receive d reads buffer e r).1 := by
  rw [receive_turns]
  exact turns_buffered d _ (pieces_length _ _ _) (f := .start e r) h

end receive

/-! ## A transfer -/

section connect
variable {env : Environment} {net : Network} {calls : Nat} {w : World (Recorded HttpResponseFile)}

/-- One hop. -/
theorem send_buffered (env : Environment) (hop : Hop) (h : w.response.Small 2048) :
    (send env hop w).2.response.Unnamed ∨
      Buffered ⟨(send env hop w).1, (send env hop w).2.engine, (send env hop w).2.response⟩ := by
  rcases send_cases env hop w with ⟨-, hsend⟩ | ⟨p, hp, hcases⟩
  · rw [hsend]
    exact .inr (buffered_small h)
  · have hprepared := steady_small.prepare h hp
    have hsent : (update (fun b => b.setContentLength p.engine.body.length) p.response).Small 2048 :=
      steady_small.edit _ (.contentLength _) hprepared
    rcases hcases with ⟨stop, -, hsend⟩ | ⟨-, ⟨ec, -, hsend⟩ | ⟨-, hsend⟩⟩
    · rw [hsend]
      exact .inr (buffered_small hprepared)
    · rw [hsend]
      exact .inr (buffered_small hsent)
    · rw [hsend]
      exact receive_buffered _ _ _ _ hsent

theorem sendLoop_buffered {v : World (Recorded HttpResponseFile)} {result : Except Stop Unit}
    (h : w.response.Small 2048) (hloop : sendLoop env net calls w = some (result, v)) :
    v.response.Unnamed ∨ v.response.Small 0 := by
  induction calls generalizing w with
  | zero => cases hloop
  | succ calls ih =>
    have hsend := send_buffered env (net w.trace) h
    rw [sendLoop] at hloop
    split at hloop
    · rename_i stop v' heq
      rw [heq] at hsend
      cases hloop
      exact hsend.imp_right And.left
    · rename_i v' heq
      rw [heq] at hsend
      rcases hsend with hunnamed | ⟨-, hagain⟩
      · exact .inl (sendLoop_rule (I := fun w => w.response.Unnamed)
          (fun w hw => stable_unnamed.send (net w.trace) hw) hunnamed hloop)
      · have hsmall : v'.response.Small 2048 := hagain rfl
        exact ih hsmall hloop
    · rename_i v' heq
      rw [heq] at hsend
      cases hloop
      exact hsend.imp_right And.left

/-- **A download of any length takes the memory of one read.** Over all states of
a transfer into a file that starts with nothing in memory, on a disk that takes
everything, no more than 2048 bytes are in memory, unless there are bytes and no
name for a file. -/
theorem memory_bounded {w v : World HttpResponseFile} {result : Except Stop Unit}
    (hbody : w.response.body = []) (hwilling : w.response.disk.Willing)
    (h : connect env net calls w = some (result, v)) :
    ∃ r, connect env net calls w.record = some (result, r) ∧ r.present = v ∧
      ((∃ s ∈ r.response.states, s.filename = [] ∧ s.body ≠ []) ∨
        ∀ s ∈ r.response.states, s.body.length ≤ 2048) := by
  have hempty : w.record.response.present.body = [] := hbody
  have hsmall : w.record.response.Small 2048 := by
    refine ⟨fun s hs => ?_, ?_, hwilling⟩
    · obtain rfl := List.mem_singleton.mp hs
      rw [hempty]
      exact Nat.zero_le _
    · rw [hempty]
      exact Nat.le_refl _
  obtain ⟨r, hrecord, hpresent⟩ := w.recording h
  refine ⟨r, hrecord, hpresent, ?_⟩
  obtain ⟨⟨result', r'⟩, hloop, heq⟩ := Option.map_eq_some_iff.mp hrecord
  have hresponse : r.response = r'.response := by
    cases result' <;> cases heq <;> rfl
  rw [hresponse]
  exact (sendLoop_buffered hsmall hloop).imp_right Small.states

/-- A page behind a redirect. -/
theorem memory_bounded_moved : ∃ result r,
    connect ⟨[], []⟩ moving 2
        (World.record ⟨.new, (HttpResponseFile.new ⟨[], [], [], [], []⟩).setURL movedUrl, []⟩) =
        some (result, r) ∧
      ((∃ s ∈ r.response.states, s.filename = [] ∧ s.body ≠ []) ∨
        ∀ s ∈ r.response.states, s.body.length ≤ 2048) := by
  have hends : (connect ⟨[], []⟩ moving 2
      ⟨.new, (HttpResponseFile.new ⟨[], [], [], [], []⟩).setURL movedUrl, []⟩).isSome = true := by
    decide +kernel
  obtain ⟨⟨result, v⟩, hconnect⟩ := Option.isSome_iff_exists.mp hends
  have hwilling : Disk.Willing ⟨[], [], [], [], []⟩ := Disk.willing_nil [] []
  obtain ⟨r, hrecord, -, hbounded⟩ := memory_bounded rfl hwilling hconnect
  exact ⟨result, r, hrecord, hbounded⟩

end connect

end Anetd
