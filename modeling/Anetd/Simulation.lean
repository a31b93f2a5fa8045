import Anetd.Pieces

/-!
# Two calls side by side

The parser looks at no more of a response than its base part, and outside the
redirect branch not at the engine. So two frames with the same locals, whose
responses are related, stay related under it or leave it related, when the
relation keeps to the base parts and to `update` (`parse_simulates`). With one
response beside two engines this says that two calls over the same bytes go on
alike or end alike, up to what the redirect branch makes of the engines.
-/

namespace Anetd

open Lib.Machine

section simulates
variable {Q R : Type} [ResponseClass Q] [ResponseClass R]

/-- A change of a response that spares its URL and what `send` reads of it. -/
def Sparing (f : HttpResponse → HttpResponse) : Prop :=
  ∀ b, (f b).url = b.url ∧ (f b).sendheaders = b.sendheaders ∧ (f b).httpauth = b.httpauth

/-- Related responses look alike to the parser, and remain so under what it does
to them. -/
structure Simulates (S : Q → R → Prop) : Prop where
  base : ∀ {q r}, S q r → base q = base r
  update : ∀ {q r f}, Sparing f → S q r → S (update f q) (update f r)

/-- What two engines and related responses make of the ways out of the parser. -/
structure Leaving (d₁ d₂ : Disconnection) (e₁ e₂ : Engine) (S : Q → R → Prop)
    (E : Exit Q → Exit R → Prop) : Prop where
  badLexicalCast : ∀ {q r}, S q r →
    E ⟨.error (.threw .badLexicalCast), e₁, q⟩ ⟨.error (.threw .badLexicalCast), e₂, r⟩
  refuse : ∀ (l : Locals) {q r}, S q r → E (refuse ⟨l, e₁, q⟩) (refuse ⟨l, e₂, r⟩)
  redirect : ∀ (l : Locals) {q r}, 300 ≤ l.status → l.status < 400 → S q r →
    E (redirect d₁ ⟨l, e₁, q⟩) (redirect d₂ ⟨l, e₂, r⟩)

/-- Frames with one set of locals, each with its engine and its response. -/
def Framed (e₁ e₂ : Engine) (S : Q → R → Prop) (f : Frame Q) (g : Frame R) : Prop :=
  ∃ l q r, S q r ∧ f = ⟨l, e₁, q⟩ ∧ g = ⟨l, e₂, r⟩

variable {S : Q → R → Prop} {E : Exit Q → Exit R → Prop} {d₁ d₂ : Disconnection} {e₁ e₂ : Engine}

theorem publishHeader_simulates (hS : Simulates S) {q : Q} {r : R} (h : S q r)
    (header : Bytes × Bytes) : Related S S (publishHeader q header) (publishHeader r header) := by
  have hset : S (update (fun b => b.setHeaders header.1 header.2) q)
      (update (fun b => b.setHeaders header.1 header.2) r) :=
    hS.update (fun _ => ⟨rfl, rfl, rfl⟩) h
  unfold publishHeader
  simp only
  split
  · cases lexicalCastInt header.2 with
    | none => exact hset
    | some n => exact hS.update (fun _ => ⟨rfl, rfl, rfl⟩) hset
  · exact hset

theorem endOfHeaders_simulates (hS : Simulates S) (hE : Leaving d₁ d₂ e₁ e₂ S E) (l : Locals)
    {q : Q} {r : R} (h : S q r) : Related E (Framed e₁ e₂ S) (endOfHeaders d₁ ⟨l, e₁, q⟩)
      (endOfHeaders d₂ ⟨l, e₂, r⟩) := by
  have hsetup : S (setup ⟨l, e₁, q⟩) (setup ⟨l, e₂, r⟩) := hS.update (fun _ => ⟨rfl, rfl, rfl⟩) h
  have hpublish : Related S S (run publishHeader (setup ⟨l, e₁, q⟩) l.tempheaders.entries)
      (run publishHeader (setup ⟨l, e₂, r⟩) l.tempheaders.entries) :=
    run_related (fun _ _ header h => publishHeader_simulates hS h header) hsetup _
  unfold endOfHeaders
  split
  · exact hE.refuse l h
  · split
    · rename_i hredirect
      exact hE.redirect l hredirect.1 hredirect.2 h
    · rcases hpublish.cases with ⟨q', r', h₁, h₂, h'⟩ | ⟨q', r', h₁, h₂, h'⟩
      · simp only [h₁, h₂]
        exact hE.badLexicalCast h'
      · have hsize : S (update (fun b => b.setBodySize 0) q') (update (fun b => b.setBodySize 0) r') :=
          hS.update (fun _ => ⟨rfl, rfl, rfl⟩) h'
        simp only [h₁, h₂, hS.base h']
        cases l.tempheaders.find? (str "Content-Length") with
        | some v => exact ⟨_, _, _, h', rfl, rfl⟩
        | none => exact ⟨_, _, _, hsize, rfl, rfl⟩

/-- One byte. -/
theorem step_simulates (hS : Simulates S) (hE : Leaving d₁ d₂ e₁ e₂ S E) {f : Frame Q}
    {g : Frame R} (h : Framed e₁ e₂ S f g) (c : Byte) :
    Related E (Framed e₁ e₂ S) (step d₁ f c) (step d₂ g c) := by
  obtain ⟨⟨state, version, status, description, tempheaders, temp, tempkey, tempvalue⟩, q, r,
    h, rfl, rfl⟩ := h
  cases state with
  | version =>
    simp only [step]
    split <;> exact ⟨_, _, _, h, rfl, rfl⟩
  | status =>
    simp only [step]
    split
    · exact ⟨_, _, _, h, rfl, rfl⟩
    · cases lexicalCastInt temp with
      | none => exact hE.badLexicalCast h
      | some n => exact ⟨_, _, _, h, rfl, rfl⟩
  | description =>
    simp only [step]
    split
    · exact ⟨_, _, _, h, rfl, rfl⟩
    · split <;> exact ⟨_, _, _, h, rfl, rfl⟩
  | headerKey =>
    simp only [step]
    split
    · exact ⟨_, _, _, h, rfl, rfl⟩
    · split
      · exact endOfHeaders_simulates hS hE _ h
      · split
        · exact ⟨_, _, _, h, rfl, rfl⟩
        · split <;> exact ⟨_, _, _, h, rfl, rfl⟩
  | headerValue =>
    simp only [step]
    split
    · exact ⟨_, _, _, h, rfl, rfl⟩
    · split <;> exact ⟨_, _, _, h, rfl, rfl⟩
  | body =>
    have hset : S (update (fun b => b.setBody c) q) (update (fun b => b.setBody c) r) :=
      hS.update (fun _ => ⟨rfl, rfl, rfl⟩) h
    simp only [step, hS.base hset]
    exact ⟨_, _, _, hset, rfl, rfl⟩
  | ok => exact ⟨_, _, _, h, rfl, rfl⟩

/-- **Related responses stay related under the parser.** -/
theorem parse_simulates (hS : Simulates S) (hE : Leaving d₁ d₂ e₁ e₂ S E) {f : Frame Q}
    {g : Frame R} (h : Framed e₁ e₂ S f g) (bs : Bytes) :
    Related E (Framed e₁ e₂ S) (parse d₁ f bs) (parse d₂ g bs) :=
  run_related (fun _ _ c h => step_simulates hS hE h c) h bs

end simulates

/-! ## Calls that differ in their engines -/

/-- Two frames with one set of locals and one response, each with its engine. -/
def Alike {R : Type} (e₁ e₂ : Engine) (f g : Frame R) : Prop :=
  ∃ (l : Locals) (r : R), f = ⟨l, e₁, r⟩ ∧ g = ⟨l, e₂, r⟩

theorem alike {R : Type} {e₁ e₂ : Engine} (l : Locals) (r : R) :
    Alike e₁ e₂ (⟨l, e₁, r⟩ : Frame R) ⟨l, e₂, r⟩ :=
  ⟨l, r, rfl, rfl⟩

section
variable {R : Type} [ResponseClass R] {d₁ d₂ : Disconnection} {e₁ e₂ : Engine}
variable {E : Exit R → Exit R → Prop}

/-- What a pair of engines makes of redirects and of the other exits. -/
structure ExitsRelated (E : Exit R → Exit R → Prop) (d₁ d₂ : Disconnection) (e₁ e₂ : Engine) :
    Prop where
  same : ∀ (result : Except Stop Bool) (r : R), E ⟨result, e₁, r⟩ ⟨result, e₂, r⟩
  redirect : ∀ (l : Locals) (r : R), 300 ≤ l.status → l.status < 400 →
    E (redirect d₁ ⟨l, e₁, r⟩) (redirect d₂ ⟨l, e₂, r⟩)

theorem ExitsRelated.leaving (hE : ExitsRelated E d₁ d₂ e₁ e₂) : Leaving d₁ d₂ e₁ e₂ Eq E where
  badLexicalCast h := h ▸ hE.same _ _
  refuse _ _ _ h := h ▸ hE.same _ _
  redirect l _ _ hlow hhigh h := h ▸ hE.redirect l _ hlow hhigh

/-- A byte string. -/
theorem parse_alike (hE : ExitsRelated E d₁ d₂ e₁ e₂) {f g : Frame R} (hfg : Alike e₁ e₂ f g)
    (bs : Bytes) : Related E (Alike e₁ e₂) (parse d₁ f bs) (parse d₂ g bs) := by
  obtain ⟨l, r, rfl, rfl⟩ := hfg
  have hS : Simulates (Eq : R → R → Prop) := ⟨fun h => h ▸ rfl, fun _ h => h ▸ rfl⟩
  refine (parse_simulates hS hE.leaving ⟨l, r, r, rfl, rfl, rfl⟩ bs).imp (fun _ _ h => h) ?_
  rintro f g ⟨l', r', _, rfl, rfl, rfl⟩
  exact alike l' r'

/-- A list of reads, over one transport. -/
theorem receiveLoop_alike (hE : ExitsRelated E d₁ d₂ e₁ e₂) (htype : e₁.httpType = e₂.httpType)
    (reads : List (Read 2048)) (buffer : Buffer) {f g : Frame R} (hfg : Alike e₁ e₂ f g) :
    E (receiveLoop d₁ reads buffer f).1 (receiveLoop d₂ reads buffer g).1 ∧
      (receiveLoop d₁ reads buffer f).2 = (receiveLoop d₂ reads buffer g).2 := by
  induction reads generalizing buffer f g with
  | nil =>
    obtain ⟨l, r, rfl, rfl⟩ := hfg
    exact ⟨hE.same _ _, rfl⟩
  | cons o reads ih =>
    obtain ⟨l, r, rfl, rfl⟩ := hfg
    simp only [receiveLoop, htype]
    cases sockget e₂.httpType o buffer with
    | error x =>
      refine ⟨?_, rfl⟩
      simp only [handle]
      split <;> exact hE.same _ _
    | ok count =>
      simp only [scan_eq_parse]
      have hstart : Alike e₁ e₂ (⟨l, e₁, r⟩ : Frame R) ⟨l, e₂, r⟩ := alike l r
      rcases (parse_alike hE hstart (scanned count.2 count.1 0)).cases with
        ⟨x, y, h₁, h₂, hxy⟩ | ⟨f, g, h₁, h₂, l', r', rfl, rfl⟩
      · simp only [h₁, h₂]
        exact ⟨hxy, trivial⟩
      · simp only [h₁, h₂]
        cases ResponseClass.flush r' with
        | error xr => exact ⟨hE.same _ _, rfl⟩
        | ok r'' =>
          simp only
          split
          · exact ⟨hE.same _ _, rfl⟩
          · exact ih count.2 (alike l' r'')

/-! ## The buffer before the call -/

/-- Reads that do not begin with an error `sockget` passes over. -/
def Settled (type : HttpType) (reads : List (Read 2048)) : Prop :=
  ∀ ec, reads.head? = some (.error ec) → thrown type ec ≠ none

/-- Such reads do not show what was in the buffer. -/
theorem pieces_settled {type : HttpType} {reads : List (Read 2048)} (h : Settled type reads)
    (first₁ first₂ : Byte) : pieces type reads first₁ = pieces type reads first₂ := by
  cases reads with
  | nil => rfl
  | cons o reads =>
    cases o with
    | data c => rfl
    | error ec =>
      cases hthrown : thrown type ec with
      | some x => simp only [pieces, hthrown]
      | none => exact absurd hthrown (h ec rfl)

theorem receiveLoop_settled (d : Disconnection) {reads : List (Read 2048)} {f : Frame R}
    (h : Settled f.engine.httpType reads) (buffer₁ buffer₂ : Buffer) :
    receiveLoop d reads buffer₁ f = receiveLoop d reads buffer₂ f := by
  have hpieces := pieces_settled h (buffer₁ 0) (buffer₂ 0)
  apply Prod.ext
  · rw [receiveLoop_turns, receiveLoop_turns, hpieces]
  · rw [receiveLoop_asked, receiveLoop_asked, hpieces]

end

/-! ## Calls that are sent the same bytes -/

/-- Two calls over one transport that are sent the same bytes, each in reads of
its own, and then the same further reads, end related. -/
theorem receive_alike {d₁ d₂ : Disconnection} {e₁ e₂ : Engine}
    {E : Exit HttpResponse → Exit HttpResponse → Prop} (hE : ExitsRelated E d₁ d₂ e₁ e₂)
    (htype : e₁.httpType = e₂.httpType) {bs : Bytes} (cut₁ cut₂ : Cut 2048 bs)
    {rest : List (Read 2048)} (hrest : Settled e₂.httpType rest) (buffer₁ buffer₂ : Buffer)
    (r : HttpResponse) :
    E (receive d₁ (cut₁.chunks.map .data ++ rest) buffer₁ e₁ r).1
      (receive d₂ (cut₂.chunks.map .data ++ rest) buffer₂ e₂ r).1 := by
  obtain ⟨left₁, h₁⟩ := receive_data d₁ cut₁ rest buffer₁ e₁ r
  obtain ⟨left₂, h₂⟩ := receive_data d₂ cut₂ rest buffer₂ e₂ r
  have hstart : Alike e₁ e₂ (Frame.start e₁ r) (Frame.start e₂ r) := alike _ r
  rw [h₁, h₂]
  rcases (parse_alike hE hstart bs).cases with
    ⟨x, y, hp₁, hp₂, hxy⟩ | ⟨f, g, hp₁, hp₂, l, r', rfl, rfl⟩
  · rw [hp₁, hp₂]
    exact hxy
  · rw [hp₁, hp₂]
    by_cases hdone : l.parserState = .ok
    · simp only [settle, Frame.done, hdone, decide_true, if_true]
      exact hE.same _ _
    · simp only [settle, Frame.done, hdone, decide_false, Bool.false_eq_true, if_false]
      rw [receiveLoop_settled d₂ (f := ⟨l, e₂, r'⟩) hrest left₂ left₁]
      exact (receiveLoop_alike hE htype rest left₁ (alike l r')).1

end Anetd
