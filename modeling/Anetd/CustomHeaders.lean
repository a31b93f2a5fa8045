import Anetd.Derived
import Anetd.RequestMessage

/-!
# Headers for the request

`setHeader` is to add a header to the requests of a response. It looks whether
the name is there already and inserts only if it is, where inserting changes
nothing; so it never does anything but return `false` (`setHeader_eq`), and the
headers of a request are those that `send` has put there (`custom_headers_iff`).
-/

namespace Anetd

open Lib.Machine Lib.OrdMap

/-! ## Calls of `setHeader` -/

namespace HttpResponse

/-- **No call sets a header.** -/
theorem setHeader_eq (r : HttpResponse) (name value : Bytes) :
    r.setHeader name value = (false, r) := by
  unfold setHeader
  split
  · rfl
  · rename_i hpresent
    have hsome := Option.isSome_iff_ne_none.mpr hpresent
    rw [insert_present hpresent, Option.isNone_eq_false_iff.mpr hsome]

/-- Calls one after the other, and what each of them returns. -/
def setHeaderCalls (r : HttpResponse) : List (Bytes × Bytes) → List Bool × HttpResponse
  | [] => ([], r)
  | call :: calls =>
    let (ok, r) := r.setHeader call.1 call.2
    let (oks, r) := r.setHeaderCalls calls
    (ok :: oks, r)

theorem setHeaderCalls_eq (r : HttpResponse) (calls : List (Bytes × Bytes)) :
    r.setHeaderCalls calls = (calls.map fun _ => false, r) := by
  induction calls with
  | nil => rfl
  | cons call calls ih => simp only [setHeaderCalls, setHeader_eq, ih, List.map_cons]

end HttpResponse

/-! ## Responses of a program -/

/-- A response that is sent without any header but the host. -/
def OnlyHost (headers : StringMap) : Prop := ∀ header ∈ headers.entries, header.1 = str "Host"

theorem OnlyHost.setHost {r : HttpResponse} (h : OnlyHost r.sendheaders) (host : Bytes) :
    OnlyHost (r.setHost host).sendheaders := by
  intro header hheader
  rcases mem_set hheader with rfl | hbefore
  · rfl
  · exact h header hbefore

section sendheaders
variable (d : Disconnection) {headers : StringMap}

/-- A call of `receive` leaves the request headers, however it ends. -/
theorem receive_sendheaders (reads : List (Read 2048)) (buffer : Buffer) (e : Engine)
    (r : HttpResponse) :
    (receive d reads buffer e r).1.response.sendheaders = r.sendheaders := by
  let I : Frame HttpResponse → Prop := fun f => f.response.sendheaders = r.sendheaders
  let E : Exit HttpResponse → Prop := fun x => x.response.sendheaders = r.sendheaders
  have redirects (f : Frame HttpResponse) (hf : f.response.sendheaders = r.sendheaders) :
      E (redirect d f) := by
    apply redirect_rule d f (E := E)
    · exact fun _ => hf
    · rintro se e r' (rfl | ⟨url, rfl⟩) <;> exact hf
    · exact fun _ _ => hf
  have steps (f : Frame HttpResponse) (c : Byte) (hf : I f) : Both E I (step d f c) := by
    have hparse : Both E I (parse d f [c]) :=
      parse_rule (I := fun b : HttpResponse => b.sendheaders = r.sendheaders)
        (fun g b hg hb => (hg b).2.1.trans hb) (fun _ _ hb => hb) (fun _ hf => hf) redirects hf [c]
    rwa [parse, run_singleton] at hparse
  have flushes (f : Frame HttpResponse) (b : HttpResponse) (hf : I f)
      (hflush : ResponseClass.flush f.response = .ok b) : I { f with response := b } := by
    cases hflush
    exact hf
  have reads_end (f : Frame HttpResponse) (ec : ErrorCode) (hf : I f) :
      E (handle (.systemError ec) f) := by
    unfold handle
    split <;> exact hf
  have fails (f : Frame HttpResponse) (x : Exn) (b : HttpResponse) (_ : I f)
      (hflush : ResponseClass.flush f.response = .error (x, b)) :
      E ⟨.error (.threw x), f.engine, b⟩ := by
    cases hflush
  exact receiveLoop_rule (I := I) (E := E) steps flushes fails (fun _ hf => hf) reads_end
    (fun _ hf _ => hf) (f := .start e r) rfl reads buffer

variable {d} {env : Environment}

theorem prepare_onlyHost {e : Engine} {r : HttpResponse} {p : Prepared HttpResponse}
    (hp : prepare env e r = some p) (h : OnlyHost r.sendheaders) :
    OnlyHost p.response.sendheaders := by
  rcases (prepare_cases hp).2 with ⟨-, -, -, hresponse⟩ | ⟨-, -, -, hresponse⟩
  · rw [hresponse]
    exact h.setHost _
  · rw [hresponse]
    exact h

theorem send_onlyHost (hop : Hop) {w : World HttpResponse} (h : OnlyHost w.response.sendheaders) :
    OnlyHost (send env hop w).2.response.sendheaders := by
  rcases send_cases env hop w with ⟨-, hsend⟩ |
    ⟨p, hp, ⟨stop, -, hsend⟩ | ⟨-, ⟨ec, -, hsend⟩ | ⟨-, hsend⟩⟩⟩ <;> rw [hsend]
  · exact h
  · exact prepare_onlyHost hp h
  · exact prepare_onlyHost hp h
  · have hkept := receive_sendheaders hop.disconnection (hop.reads p.request) hop.buffer
      (dialed hop p.engine) (p.response.setContentLength p.engine.body.length)
    simp only [update_self]
    rw [hkept]
    exact prepare_onlyHost hp h

theorem connect_onlyHost {net : Network} {calls : Nat} {w v : World HttpResponse}
    {result : Except Stop Unit} (hconnect : connect env net calls w = some (result, v))
    (h : OnlyHost w.response.sendheaders) : OnlyHost v.response.sendheaders :=
  connect_rule (I := fun v : World HttpResponse => OnlyHost v.response.sendheaders)
    (fun v hv => send_onlyHost (net v.trace) hv) (fun _ _ hv => hv) h hconnect

end sendheaders

/-- The responses a program can have. -/
inductive Owned : HttpResponse → Prop where
  | constructed : Owned .new
  | setHeader {r : HttpResponse} (h : Owned r) (name value : Bytes) :
      Owned (r.setHeader name value).2
  | setHTTPAuth {r : HttpResponse} (h : Owned r) (username password : Bytes) :
      Owned (r.setHTTPAuth username password).2
  | setURL {r : HttpResponse} (h : Owned r) (url : Bytes) : Owned (r.setURL url)
  | reset {r : HttpResponse} (h : Owned r) : Owned r.reset
  | transfer {env : Environment} {net : Network} {calls : Nat} {w v : World HttpResponse}
      {result : Except Stop Unit} (h : Owned w.response)
      (hconnect : connect env net calls w = some (result, v)) : Owned v.response

theorem Owned.onlyHost {r : HttpResponse} (h : Owned r) : OnlyHost r.sendheaders := by
  induction h with
  | constructed => exact fun header hheader => nomatch hheader
  | setHeader _ name value ih =>
    rw [HttpResponse.setHeader_eq]
    exact ih
  | setHTTPAuth _ _ _ ih => exact ih
  | setURL _ _ ih => exact ih
  | reset _ ih => exact ih
  | transfer _ hconnect ih => exact connect_onlyHost hconnect ih

/-! ## The next request -/

/-- The fields that `send` itself adds to a request. -/
def ownFields : List Bytes :=
  [str "Host", str "Authorization", str "Proxy-Authorization", str "Accept", str "Connection"]

/-- Every call succeeds, and the next request has for every name that was set,
the host apart, just one field, with the value set last, and no field beyond
these and those of `send`. -/
structure CustomHeaders (r : HttpResponse) (calls : List (Bytes × Bytes)) : Prop where
  returns : ∀ ok ∈ (r.setHeaderCalls calls).1, ok = true
  set : ∀ env e p, prepare env e (r.setHeaderCalls calls).2 = some p →
    ∀ name value, name ≠ str "Host" → lookup name calls.reverse = some value →
      (p.message []).fields.filter (fun field => field.1 = name) = [(name, value)]
  unset : ∀ env e p, prepare env e (r.setHeaderCalls calls).2 = some p →
    ∀ field ∈ (p.message []).fields, field.1 ∈ ownFields ∨ field.1 ∈ calls.map Prod.fst

theorem basicField_own {name : Bytes} {auth field : Bytes × Bytes}
    (h : field ∈ basicField name auth) : field.1 = name := by
  unfold basicField at h
  split at h
  · rw [List.mem_singleton.mp h]
  · cases h

/-- A request has no fields but those of `send`. -/
theorem message_fields {env : Environment} {e : Engine} {r : HttpResponse} (h : Owned r)
    {p : Prepared HttpResponse} (hp : prepare env e r = some p) {rest : Bytes}
    {field : Bytes × Bytes} (hfield : field ∈ (p.message rest).fields) :
    field.1 ∈ ownFields := by
  have hhost : OnlyHost p.response.sendheaders := prepare_onlyHost hp h.onlyHost
  simp only [Prepared.message, List.mem_append] at hfield
  rcases hfield with ((hheader | hauth) | hproxy) | hlast
  · rw [hhost field hheader]
    decide
  · rw [basicField_own hauth]
    decide
  · split at hproxy
    · rw [basicField_own hproxy]
      decide
    · cases hproxy
  · simp only [List.mem_cons, List.not_mem_nil, or_false] at hlast
    rcases hlast with rfl | rfl <;> decide

/-- **Custom headers work when there are none.** -/
theorem custom_headers_iff {r : HttpResponse} (h : Owned r) (calls : List (Bytes × Bytes)) :
    CustomHeaders r calls ↔ calls = [] := by
  constructor
  · intro hcustom
    cases calls with
    | nil => rfl
    | cons call calls =>
      have hreturns := hcustom.returns
      rw [HttpResponse.setHeaderCalls_eq] at hreturns
      exact absurd (hreturns false List.mem_cons_self) (by decide)
  · rintro rfl
    refine ⟨fun ok hok => (nomatch hok), fun _ _ _ _ _ _ _ hlast => (nomatch hlast), ?_⟩
    intro env e p hp field hfield
    exact .inl (message_fields h hp hfield)

/-- One header set on a new response, and a URL to get. -/
theorem custom_headers_iff_new :
    CustomHeaders upperWorld.response [(str "X-Key", str "1")] ↔
      [(str "X-Key", str "1")] = [] :=
  custom_headers_iff (.setURL .constructed _) _

/-- The call returns `false`, and the request goes out without the header. -/
theorem custom_header_lost :
    (upperWorld.response.setHeaderCalls [(str "X-Key", str "1")]).1 = [false] ∧
      prepare ⟨[], []⟩ .new (upperWorld.response.setHeaderCalls [(str "X-Key", str "1")]).2 =
        some upperPrepared ∧
      upperPrepared.request = upperText ∧
      ¬ CustomHeaders upperWorld.response [(str "X-Key", str "1")] := by
  have hcalls := upperWorld.response.setHeaderCalls_eq [(str "X-Key", str "1")]
  refine ⟨by rw [hcalls]; rfl, by rw [hcalls]; exact upper_prepare, by decide, fun hcustom => ?_⟩
  have hreturns := hcustom.returns
  rw [hcalls] at hreturns
  exact absurd (hreturns false List.mem_cons_self) (by decide)

end Anetd
