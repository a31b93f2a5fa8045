import Anetd.ParseHead

/-!
# The parser after the head

What the end of the headers publishes in an `HttpResponse`, and where the body
stops: after as many bytes as bring its length to the announced size, or not
at all (`parse_body`).
-/

namespace Anetd

open Lib.Machine Lib.OrdMap

/-- The name of the header that announces the size of the body. -/
abbrev contentLength : Bytes := str "Content-Length"

/-- The response with some bytes appended to its body. -/
def HttpResponse.append (r : HttpResponse) (bs : Bytes) : HttpResponse :=
  { r with body := r.body ++ bs, progress := r.progress + bs.length }

@[simp] theorem HttpResponse.append_nil (r : HttpResponse) : r.append [] = r := by
  simp only [HttpResponse.append, List.append_nil, List.length_nil, Nat.add_zero]

theorem HttpResponse.setBody_append (r : HttpResponse) (c : Byte) (bs : Bytes) :
    (r.setBody c).append bs = r.append (c :: bs) := by
  simp only [HttpResponse.append, HttpResponse.setBody, List.append_assoc, List.singleton_append,
    List.length_cons, Nat.add_assoc, Nat.add_comm 1]

/-! ## Publishing the headers -/

section publish
variable {l : List (Bytes × Bytes)}

theorem publish_unannounced (r : HttpResponse) (h : lookup contentLength l = none) :
    run publishHeader r l = .ok { r with headers := r.headers.insertAll l } := by
  induction l generalizing r with
  | nil => rfl
  | cons e rest ih =>
    rw [lookup_cons] at h
    have hne : ¬ e.1 = contentLength := fun heq => by simp [heq] at h
    have hrest : lookup contentLength rest = none := by
      rwa [if_neg fun heq => hne heq.symm] at h
    have hstep : publishHeader r e = .ok (r.setHeaders e.1 e.2) := by
      simp only [publishHeader, hne, if_false, update_self]
    rw [run_cons_ok hstep, ih _ hrest]
    rfl

/-- The entries of a map around the announcement make no other one. -/
theorem split_announced {m : StringMap} {v : Bytes} (h : m.find? contentLength = some v) :
    ∃ l₁ l₂, m.entries = l₁ ++ (contentLength, v) :: l₂ ∧
      lookup contentLength l₁ = none ∧ lookup contentLength l₂ = none := by
  obtain ⟨l₁, l₂, hsplit, hfirst⟩ := lookup_eq_some h
  have hsorted := m.sorted
  rw [hsplit, List.pairwise_append] at hsorted
  refine ⟨l₁, l₂, hsplit, hfirst, ?_⟩
  exact lookup_eq_none_of_lt (List.pairwise_cons.mp hsorted.2.1).1

theorem publish_announced (r : HttpResponse) {m : StringMap} {v : Bytes} {n : Int}
    (h : m.find? contentLength = some v) (hn : lexicalCastInt v = some n) :
    run publishHeader r m.entries =
      .ok { r with headers := r.headers.insertAll m.entries, bodySize := sizeOfInt n } := by
  obtain ⟨l₁, l₂, hsplit, h₁, h₂⟩ := split_announced h
  have hstep (r : HttpResponse) : publishHeader r (contentLength, v) =
      .ok ((r.setHeaders contentLength v).setBodySize (sizeOfInt n)) := by
    simp only [publishHeader, if_true, hn, update_self]
  rw [hsplit, run_append_ok (publish_unannounced r h₁), run_cons_ok (hstep _),
    publish_unannounced _ h₂]
  simp only [HttpResponse.setHeaders, HttpResponse.setBodySize, insertAll,
    List.foldl_append, List.foldl_cons]

/-- The entries of a map that the walk in key order has reached when it comes to
the announcement. -/
def upToLength (m : StringMap) : List (Bytes × Bytes) :=
  m.entries.filter fun e => ¬ contentLength < e.1

theorem upToLength_split {m : StringMap} {v : Bytes} {l₁ l₂ : List (Bytes × Bytes)}
    (hsplit : m.entries = l₁ ++ (contentLength, v) :: l₂) :
    upToLength m = l₁ ++ [(contentLength, v)] := by
  have hsorted := m.sorted
  rw [hsplit, List.pairwise_append] at hsorted
  obtain ⟨-, hlast, hbefore⟩ := hsorted
  have hself : ¬ contentLength < contentLength := Std.Irrefl.irrefl (r := (· < ·)) _
  have hkept : l₁.filter (fun e => ¬ contentLength < e.1) = l₁ := by
    refine List.filter_eq_self.mpr fun e he => decide_eq_true fun hgt => hself ?_
    exact Trans.trans hgt (hbefore e he _ List.mem_cons_self)
  have hdropped : l₂.filter (fun e => ¬ contentLength < e.1) = [] := by
    refine List.filter_eq_nil_iff.mpr fun e he => ?_
    simpa using (List.pairwise_cons.mp hlast).1 e he
  rw [upToLength, hsplit, List.filter_append, hkept, List.filter_cons, hdropped]
  simp only [hself, not_false_eq_true, decide_true, if_true]

/-- A length that is no `int` throws with the headers before it inserted. -/
theorem publish_bad (r : HttpResponse) {m : StringMap} {v : Bytes}
    (h : m.find? contentLength = some v) (hn : lexicalCastInt v = none) :
    run publishHeader r m.entries =
      .error { r with headers := r.headers.insertAll (upToLength m) } := by
  obtain ⟨l₁, l₂, hsplit, h₁, -⟩ := split_announced h
  have hstep (r : HttpResponse) : publishHeader r (contentLength, v) =
      .error (r.setHeaders contentLength v) := by
    simp only [publishHeader, if_true, hn, update_self]
  rw [upToLength_split hsplit, hsplit, run_append_ok (publish_unannounced r h₁),
    run_cons_error (hstep _)]
  simp only [HttpResponse.setHeaders, insertAll, List.foldl_append, List.foldl_cons,
    List.foldl_nil]

end publish

section headers
variable (d : Disconnection)

/-- The response as the end of the headers leaves it for the body. -/
def published (f : Frame HttpResponse) (size : Nat) : HttpResponse :=
  { f.response with
    version := f.version
    status := f.status
    description := f.description
    headers := f.response.headers.insertAll f.tempheaders.entries
    bodySize := size }

theorem accepts {s : Int} (hs : s < 300) : parseStatus s = true ∧ ¬ (s ≥ 300 ∧ s < 400) := by
  simp only [parseStatus, hs, if_true, true_and]; omega

theorem endOfHeaders_announced {f : Frame HttpResponse} (hs : f.status < 300) {v : Bytes} {n : Int}
    (h : f.tempheaders.find? contentLength = some v) (hn : lexicalCastInt v = some n) :
    endOfHeaders d f = .ok { f with
      response := published f (sizeOfInt n)
      parserState := if sizeOfInt n = 0 then .ok else .body } := by
  obtain ⟨hp, hr⟩ := accepts hs
  simp only [endOfHeaders, hp, hr, not_true_eq_false, if_false, publish_announced _ h hn, h]
  rfl

theorem endOfHeaders_unannounced {f : Frame HttpResponse} (hs : f.status < 300)
    (h : f.tempheaders.find? contentLength = none) :
    endOfHeaders d f = .ok { f with response := published f 0, parserState := .body } := by
  obtain ⟨hp, hr⟩ := accepts hs
  simp only [endOfHeaders, hp, hr, not_true_eq_false, if_false, publish_unannounced _ h, h]
  rfl

/-- The response as a length that is no `int` leaves it. -/
def abandoned (f : Frame HttpResponse) : HttpResponse :=
  { f.response with
    version := f.version
    status := f.status
    description := f.description
    headers := f.response.headers.insertAll (upToLength f.tempheaders) }

theorem endOfHeaders_bad {f : Frame HttpResponse} (hs : f.status < 300) {v : Bytes}
    (h : f.tempheaders.find? contentLength = some v) (hn : lexicalCastInt v = none) :
    endOfHeaders d f = .error ⟨.error (.threw .badLexicalCast), f.engine, abandoned f⟩ := by
  obtain ⟨hp, hr⟩ := accepts hs
  simp only [endOfHeaders, hp, hr, not_true_eq_false, if_false, publish_bad _ h hn]
  rfl

end headers

/-- From status 300 on no body is read. -/
theorem parse_final {R : Type} [ResponseClass R] (d : Disconnection) (e : Engine) (r : R) {h : Head}
    (hs : ¬ h.status < 300) (rest : Bytes) :
    parse d (.start e r) (h.text ++ rest) = .error
      (if h.status < 400 then redirect d ⟨h.locals, e, r⟩ else refuse ⟨h.locals, e, r⟩) := by
  have hend : parse d (.start e r) h.text = .error
      (if h.status < 400 then redirect d ⟨h.locals, e, r⟩ else refuse ⟨h.locals, e, r⟩) := by
    rw [parse_head]
    split
    · rename_i hredirect
      exact endOfHeaders_redirect d (f := ⟨h.locals, e, r⟩) (Int.not_lt.mp hs) hredirect
    · rename_i hredirect
      exact endOfHeaders_refuse d (f := ⟨h.locals, e, r⟩) (Int.not_lt.mp hredirect)
  exact run_append_error hend rest

/-! ## The body -/

/-- Whether `n` more bytes bring a body of `len` bytes to its size. -/
def reaches (len size n : Nat) : Prop := len < size ∧ size ≤ len + n

instance (len size n : Nat) : Decidable (reaches len size n) := inferInstanceAs (Decidable (_ ∧ _))

/-- **Where a body stops**: at the byte that brings it to the announced size,
or nowhere. -/
theorem parse_body (d : Disconnection) {f : Frame HttpResponse} (hf : f.parserState = .body)
    (bs : Bytes) :
    parse d f bs = .ok (
      if reaches f.response.body.length f.response.bodySize bs.length then
        { f with
          parserState := .ok
          response := f.response.append
            (bs.take (f.response.bodySize - f.response.body.length)) }
      else { f with parserState := .body, response := f.response.append bs }) := by
  induction bs generalizing f with
  | nil =>
    have hnot : ¬ reaches f.response.body.length f.response.bodySize 0 := by
      unfold reaches; omega
    simp only [List.length_nil, hnot, if_false, HttpResponse.append_nil, ← hf]
    rfl
  | cons c cs ih =>
    have hstep : step d f c = .ok { f with
        response := f.response.setBody c
        parserState :=
          if f.response.body.length + 1 = f.response.bodySize then .ok else .body } := by
      simp only [step, hf, update_self, base_self, HttpResponse.setBody, List.length_append,
        List.length_singleton]
    have hset : f.response.setBody c = f.response.append [c] := rfl
    rw [parse, run_cons_ok hstep]
    by_cases hend : f.response.body.length + 1 = f.response.bodySize
    · have hreach : reaches f.response.body.length f.response.bodySize (c :: cs).length := by
        unfold reaches; rw [List.length_cons]; omega
      have hone : f.response.bodySize - f.response.body.length = 1 := by omega
      simp only [hend, if_true, hreach, hone, List.take_succ_cons, List.take_zero, hset]
      exact parse_ok_state d rfl cs
    · simp only [hend, if_false]
      refine Eq.trans (ih ?_) ?_
      · rfl
      have hlen : (f.response.setBody c).body.length = f.response.body.length + 1 := by
        simp only [HttpResponse.setBody, List.length_append, List.length_singleton]
      have hsize : (f.response.setBody c).bodySize = f.response.bodySize := rfl
      simp only [hlen, hsize, HttpResponse.setBody_append, List.length_cons]
      by_cases hreach : reaches f.response.body.length f.response.bodySize (cs.length + 1)
      · have hreach' : reaches (f.response.body.length + 1) f.response.bodySize cs.length := by
          unfold reaches at hreach ⊢; omega
        have htake : f.response.bodySize - f.response.body.length =
            f.response.bodySize - (f.response.body.length + 1) + 1 := by
          unfold reaches at hreach; omega
        simp only [hreach, hreach', if_true, htake, List.take_succ_cons]
      · have hreach' : ¬ reaches (f.response.body.length + 1) f.response.bodySize cs.length := by
          unfold reaches at hreach ⊢; omega
        simp only [hreach, hreach', if_false]

/-! ## Whole responses -/

/-- Whether a body that starts at length `len` is complete after `n` bytes: an
announced size of zero completes it at once. -/
def completes (len size n : Nat) : Prop := size = 0 ∨ reaches len size n

instance (len size n : Nat) : Decidable (completes len size n) :=
  inferInstanceAs (Decidable (_ ∨ _))

/-- The bytes that join a body of an announced size. -/
def bodyPart (len size : Nat) (bs : Bytes) : Bytes :=
  if completes len size bs.length then bs.take (size - len) else bs

/-- The response with the head of `h` published in it. -/
def Head.publish (h : Head) (r : HttpResponse) (size : Nat) : HttpResponse :=
  { r with
    version := h.version
    status := h.status
    description := h.description
    headers := r.headers.insertAll h.headers.entries
    bodySize := size }

/-- The response with the head of `h` published as far as a length that is no
`int`. -/
def Head.abandon (h : Head) (r : HttpResponse) : HttpResponse :=
  { r with
    version := h.version
    status := h.status
    description := h.description
    headers := r.headers.insertAll (upToLength h.headers) }

theorem bodyPart_prefix (len size : Nat) (bs : Bytes) : bodyPart len size bs <+: bs := by
  unfold bodyPart
  split
  · exact List.take_prefix _ _
  · exact List.prefix_rfl

section whole
variable (d : Disconnection) (e : Engine) (r : HttpResponse) {h : Head}

theorem parse_announced (hs : h.status < 300) {v : Bytes} {n : Int}
    (hv : h.headers.find? contentLength = some v) (hn : lexicalCastInt v = some n) (rest : Bytes) :
    parse d (.start e r) (h.text ++ rest) = .ok { h.locals with
      parserState :=
        if completes r.body.length (sizeOfInt n) rest.length then .ok else .body
      engine := e
      response := (h.publish r (sizeOfInt n)).append
        (bodyPart r.body.length (sizeOfInt n) rest) } := by
  have hhead := (parse_head d e r h).trans (endOfHeaders_announced d hs hv hn)
  rw [parse, run_append_ok hhead]
  by_cases hzero : sizeOfInt n = 0
  · have hdone : completes r.body.length (sizeOfInt n) rest.length := .inl hzero
    have hpart : bodyPart r.body.length (sizeOfInt n) rest = [] := by
      rw [bodyPart, if_pos hdone, hzero, Nat.zero_sub, List.take_zero]
    rw [hpart, if_pos hdone, HttpResponse.append_nil, if_pos hzero]
    exact parse_ok_state d rfl rest
  · rw [if_neg hzero]
    refine Eq.trans (parse_body d rfl rest) ?_
    by_cases hreach : reaches r.body.length (sizeOfInt n) rest.length
    · have hdone : completes r.body.length (sizeOfInt n) rest.length := .inr hreach
      rw [bodyPart, if_pos hdone, if_pos hdone]
      exact congrArg _ (if_pos hreach)
    · have hdone : ¬ completes r.body.length (sizeOfInt n) rest.length := by
        rintro (h | h)
        · exact hzero h
        · exact hreach h
      rw [bodyPart, if_neg hdone, if_neg hdone]
      exact congrArg _ (if_neg hreach)

theorem parse_unannounced (hs : h.status < 300) (hv : h.headers.find? contentLength = none)
    (rest : Bytes) :
    parse d (.start e r) (h.text ++ rest) = .ok { h.locals with
      parserState := .body
      engine := e
      response := (h.publish r 0).append rest } := by
  have hhead := (parse_head d e r h).trans (endOfHeaders_unannounced d hs hv)
  rw [parse, run_append_ok hhead]
  refine Eq.trans (parse_body d rfl rest) ?_
  have hnot : ¬ reaches r.body.length 0 rest.length := by
    unfold reaches; omega
  exact congrArg _ (if_neg hnot)

theorem parse_misannounced (hs : h.status < 300) {v : Bytes}
    (hv : h.headers.find? contentLength = some v) (hn : lexicalCastInt v = none) (rest : Bytes) :
    parse d (.start e r) (h.text ++ rest) =
      .error ⟨.error (.threw .badLexicalCast), e, h.abandon r⟩ := by
  have hbad := endOfHeaders_bad d (f := ⟨h.locals, e, r⟩) hs hv hn
  exact run_append_error ((parse_head d e r h).trans hbad) rest

/-- **Where the parser leaves**: at a bad status field, at the end of a head that
announces no `int`, or of one that lets no body follow. -/
theorem parse_error_cases {bs : Bytes} {x : Exit HttpResponse}
    (hx : parse d (.start e r) bs = .error x) :
    (BadStatus bs ∧ x = ⟨.error (.threw .badLexicalCast), e, r⟩) ∨
    (∃ (h : Head) (rest v : Bytes), bs = h.text ++ rest ∧ h.status < 300 ∧
      h.headers.find? contentLength = some v ∧ lexicalCastInt v = none ∧
      x = ⟨.error (.threw .badLexicalCast), e, h.abandon r⟩) ∨
    ∃ (h : Head) (rest : Bytes), bs = h.text ++ rest ∧ ¬ h.status < 300 ∧
      x = if h.status < 400 then redirect d ⟨h.locals, e, r⟩ else refuse ⟨h.locals, e, r⟩ := by
  rcases parse_trichotomy d e r bs with ⟨h, rest, rfl⟩ | hbad | ⟨f, hf, -⟩
  · by_cases hs : h.status < 300
    · cases hv : h.headers.find? contentLength with
      | none =>
        rw [parse_unannounced d e r hs hv] at hx
        cases hx
      | some v =>
        cases hn : lexicalCastInt v with
        | none =>
          rw [parse_misannounced d e r hs hv hn] at hx
          exact .inr (.inl ⟨h, rest, v, rfl, hs, hv, hn, (Except.error.inj hx).symm⟩)
        | some n =>
          rw [parse_announced d e r hs hv hn] at hx
          cases hx
    · rw [parse_final d e r hs rest] at hx
      exact .inr (.inr ⟨h, rest, rfl, hs, (Except.error.inj hx).symm⟩)
  · rw [parse_badStatus d e r hbad] at hx
    exact .inl ⟨hbad, (Except.error.inj hx).symm⟩
  · rw [hf] at hx
    cases hx

/-- A 3xx head that is delivered ends the call in the redirect branch. -/
theorem receive_redirected {os : List (Read 2048)} (buffer : Buffer) {rest : Bytes}
    (hsplit : delivered os = h.text ++ rest) (hlow : 300 ≤ h.status)
    (hhigh : h.status < 400) :
    (receive d os buffer e r).1 = redirect d ⟨h.locals, e, r⟩ := by
  obtain ⟨cut, unread, hos, -⟩ := exists_cut os
  obtain ⟨buffer', hdata⟩ := receive_data d cut unread buffer e r
  have hparse : parse d (.start e r) (delivered os) = .error (redirect d ⟨h.locals, e, r⟩) := by
    rw [hsplit, parse_final d e r (Int.not_lt.mpr hlow) rest, if_pos hhigh]
  rw [← hos, hparse] at hdata
  exact hdata

end whole

end Anetd
