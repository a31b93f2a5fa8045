import Anetd.Pieces
import Anetd.Threads

/-!
# Programs and the streams they are sent

What a server sends arrives in reads as the network cuts it. For responses in
memory no program can tell: two networks whose hops answer with the same bytes
and the same end have the same runs, whatever is done while transfers run
(`Program.streams_alike`).
-/

namespace Anetd

open Lib.Machine

/-- Hops that answer alike and send the same bytes with the same end, each in
reads of its own. The end is no TLS failure, which `sockget` would return as a
count of zero. -/
structure Hop.SameStream (a b : Hop) : Prop where
  resolve : a.resolve = b.resolve
  send : a.send = b.send
  disconnection : a.disconnection = b.disconnection
  bytes : ∀ request, delivered (a.reads request) = delivered (b.reads request)
  ending : ∀ request, firstError (a.reads request) = firstError (b.reads request)
  sound : ∀ request ec, firstError (a.reads request) = some ec → ec.sslFailure = false

/-- Where the end is no such failure, the pieces are what is delivered. -/
theorem pieces_received (type : HttpType) {os : List (Read 2048)}
    (h : ∀ ec, firstError os = some ec → ec.sslFailure = false) (first : Byte) :
    (pieces type os first).1.flatten = delivered os ∧
      (pieces type os first).2 = (firstError os).bind (thrown type) := by
  induction os generalizing first with
  | nil => exact ⟨rfl, rfl⟩
  | cons o os ih =>
    cases o with
    | data c =>
      obtain ⟨hbytes, hending⟩ := ih h (c.bytes.headD 0)
      exact ⟨congrArg (c.bytes ++ ·) hbytes, hending⟩
    | error ec =>
      have hthrown : ∃ x, thrown type ec = some x := by
        cases type with
        | plainHttp => exact ⟨_, rfl⟩
        | sslHttps => exact ⟨.systemError .eof, if_neg (by simp [h ec rfl])⟩
      obtain ⟨x, hx⟩ := hthrown
      simp only [pieces, hx]
      exact ⟨rfl, hx.symm⟩

/-- Two cuts of what is sent. -/
theorem sameStream_cut (hop : Hop) {bytes : Bytes → Bytes}
    (cut cut' : ∀ request, Cut 2048 (bytes request)) (buffer buffer' : Buffer)
    {ending : ErrorCode} (hending : ending.sslFailure = false) :
    Hop.SameStream { hop with reads := fun request => (cut request).reads ending, buffer := buffer }
      { hop with reads := fun request => (cut' request).reads ending, buffer := buffer' } := by
  have hreads {bs : Bytes} (cut : Cut 2048 bs) :
      delivered (cut.reads ending) = bs ∧ firstError (cut.reads ending) = some ending := by
    have hchunks (cs : List (Chunk 2048)) :
        delivered (cs.map .data ++ [.error ending]) = (cs.map Chunk.bytes).flatten ∧
          firstError (cs.map .data ++ [.error ending]) = some ending := by
      induction cs with
      | nil => exact ⟨rfl, rfl⟩
      | cons c cs ih => exact ⟨congrArg (c.bytes ++ ·) ih.1, ih.2⟩
    obtain ⟨hbytes, hend⟩ := hchunks cut.chunks
    exact ⟨hbytes.trans cut.join, hend⟩
  refine ⟨rfl, rfl, rfl, fun request => ?_, fun request => ?_, fun request ec hec => ?_⟩
  · exact (hreads (cut request)).1.trans (hreads (cut' request)).1.symm
  · exact (hreads (cut request)).2.trans (hreads (cut' request)).2.symm
  · obtain rfl := Option.some.inj ((hreads (cut request)).2.symm.trans hec)
    exact hending

section send
variable {env : Environment} {a b : Hop} (h : a.SameStream b)
include h

theorem receive_sameStream (request : Bytes) (e : Engine) (r : HttpResponse) :
    (receive a.disconnection (a.reads request) a.buffer e r).1 =
      (receive b.disconnection (b.reads request) b.buffer e r).1 := by
  have hsound : ∀ ec, firstError (b.reads request) = some ec → ec.sslFailure = false := by
    rw [← h.ending]
    exact h.sound request
  obtain ⟨hbytes, hending⟩ := pieces_received e.httpType (h.sound request) (a.buffer 0)
  obtain ⟨hbytes', hending'⟩ := pieces_received e.httpType hsound (b.buffer 0)
  rw [receive_pieces, receive_pieces, hbytes, hending, hbytes', hending', h.bytes, h.ending,
    h.disconnection]

theorem dial_sameStream (p : Prepared HttpResponse) : dial a p = dial b p := by
  unfold dial
  rw [h.resolve]

theorem send_sameStream (w : World HttpResponse) : send env a w = send env b w := by
  have hdialed (e : Engine) : dialed a e = dialed b e := by
    unfold dialed
    rw [h.resolve]
  unfold Anetd.send
  cases prepare env w.engine w.response with
  | none => rfl
  | some p =>
    simp only [dial_sameStream h, hdialed]
    cases (dial b p).2 with
    | error stop => rfl
    | ok =>
      simp only [transmit, h.send, receive_sameStream h]

end send

namespace Program
variable {env : Environment} {net net' : Network}

theorem resume_streams (h : ∀ trace, (net trace).SameStream (net' trace))
    (p : Program HttpResponse) : p.resume env net = p.resume env net' := by
  unfold resume
  rw [send_sameStream (h p.trace)]

theorem step_streams (h : ∀ trace, (net trace).SameStream (net' trace)) :
    (step env net : Program HttpResponse → _) = step env net' := by
  funext p a
  cases a with
  | thread => exact resume_streams h p
  | setCallback | setProxyAuth | reset | use | starttransfer | callback => rfl

/-- **No program can tell how a stream was cut.** -/
theorem streams_alike (h : ∀ trace, (net trace).SameStream (net' trace))
    (p : Program HttpResponse) (acts : List (Act HttpResponse)) :
    run (step env net) p acts = run (step env net') p acts := by
  rw [step_streams h]

/-- The refusal, byte by byte. -/
def trickling : Network := fun _ =>
  { answering ⟨notFound, notFound_pos, notFound_le⟩ ⟨none, none⟩ with
    reads := fun _ => (Cut.bytewise (by decide) notFound).reads .eof }

theorem streams_alike_refused :
    run (step ⟨[], []⟩ refusing) fresh refusedActs =
      run (step ⟨[], []⟩ trickling) fresh refusedActs :=
  streams_alike (fun _ => sameStream_cut
    (answering ⟨notFound, notFound_pos, notFound_le⟩ ⟨none, none⟩)
    (fun _ => Cut.whole notFound notFound_pos notFound_le)
    (fun _ => Cut.bytewise (by decide) notFound) (fun _ => 0) (fun _ => 0) (by decide))
    fresh refusedActs

end Program

end Anetd
