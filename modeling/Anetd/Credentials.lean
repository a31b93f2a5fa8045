import Anetd.RequestMessage

/-!
# Credentials in a header line

`Base64Encode` breaks its output into lines of 72 characters, as a mail body
wants it and a header does not. Up to 54 bytes of credentials there is only one
line, and the text is what every decoder expects (`headerSafe_iff`).
-/

namespace Anetd

/-- Text that can stand in a header line and from which the credentials can be
got back. -/
structure HeaderSafe (s : Bytes) : Prop where
  alphabet : ∀ c ∈ base64Encode s, (Lib.Base64.value c).isSome ∨ c = 61
  length : (base64Encode s).length = 4 * ((s.length + 2) / 3)
  decodes : Lib.Base64.decode (base64Encode s) = some s

/-- Groups that fill one line at most are not broken. -/
theorem base64Encode_short {s : Bytes} (h : s.length ≤ 54) :
    base64Encode s = Lib.Base64.encode s := by
  have hline : ((Lib.Base64.sextets s).map Lib.Base64.char).length ≤ 72 := by
    rw [List.length_map, Lib.Base64.length_sextets]
    omega
  rw [base64Encode, Lib.Base64.breakLines_short hline, Lib.Base64.encode]

theorem base64Encode_long {s : Bytes} (h : 54 < s.length) : lf ∈ base64Encode s := by
  have hline : 72 < ((Lib.Base64.sextets s).map Lib.Base64.char).length := by
    rw [List.length_map, Lib.Base64.length_sextets]
    omega
  exact List.mem_append_left _ (Lib.Base64.breakLines_long hline)

theorem not_headerSafe {s : Bytes} (h : 54 < s.length) : ¬ HeaderSafe s := by
  intro hsafe
  rcases hsafe.alphabet lf (base64Encode_long h) with hvalue | hpad
  · exact absurd hvalue (by decide)
  · exact absurd hpad (by decide)

/-- **Credentials are safe in a header line up to 54 bytes.** -/
theorem headerSafe_iff (s : Bytes) : HeaderSafe s ↔ s.length ≤ 54 := by
  constructor
  · exact fun h => Nat.le_of_not_lt fun hlong => not_headerSafe hlong h
  · intro h
    have hencode := base64Encode_short h
    constructor
    · intro c hc
      rw [hencode] at hc
      rcases Lib.Base64.mem_encode hc with ⟨n, hn, rfl⟩ | rfl
      · exact .inl (by rw [Lib.Base64.value_char hn]; rfl)
      · exact .inr rfl
    · rw [hencode, Lib.Base64.length_encode]
    · rw [hencode, Lib.Base64.decode_encode]

/-- A user name and a password of 55 bytes with the colon between them. -/
def longCredentials : Bytes × Bytes := (str "user", List.replicate 50 112)

/-- Their line in a request is two lines. -/
theorem longCredentials_broken :
    basicLine (str "Authorization") longCredentials =
      str "Authorization: Basic " ++
        str "dXNlcjpwcHBwcHBwcHBwcHBwcHBwcHBwcHBwcHBwcHBwcHBwcHBwcHBwcHBwcHBwcHBwcHBw" ++
        str "\ncA==\r\n" ∧
    ¬ HeaderSafe (longCredentials.1 ++ str ":" ++ longCredentials.2) :=
  ⟨by decide +kernel, not_headerSafe (by decide)⟩

end Anetd
