import Shiplog.Native.Verify
import Shiplog.Spec.IngestCorrect

/-!
# What the signature check accepts

The received text is compared by the bytes that Node's hex reader makes of it, and that
reader stops at the first thing that is not a pair of digits. So the check accepts every
text that begins with the digest and does not go on with such a pair, and not only the
digest itself.

## Key results

- `safeHexEqual_digest`: the comparison never throws, and compares what is read
- `verifyNangoSignature_eq_true_iff`: the check accepts exactly by the bytes read
- `verifyNangoSignature_exact_iff`: for which requests it accepts exactly the correct
  signature
-/

namespace Shiplog

variable {rt : Runtime} {hmac : String → List UInt8 → Digest} {rawBody : RawBody}
  {headers : JsVal} {signingKey : String}

/-- The value of the signature header, if it is a string. -/
def receivedText (headers : JsVal) : Option String :=
  match headerField headers "x-nango-hmac-sha256" with
  | some (_, .str s) => some s
  | _ => none

/-- Comparing a digest with any value: no error, and equality of the bytes read. -/
theorem safeHexEqual_digest (rt : Runtime) (mac : Digest) (received : JsVal) :
    safeHexEqual rt (.str (String.ofList (Hex.encode mac.1))) received =
      .ok (match received with
        | .str s => decide (Hex.decode s.toList = mac.1)
        | _ => false) := by
  cases received with
  | str s =>
    simp only [safeHexEqual, String.toList_ofList, Hex.decode_encode]
    by_cases hlen : mac.1.length = (Hex.decode s.toList).length
    · rw [if_neg (by have := mac.2; omega), timingSafeEqual, if_pos hlen]
      congr 1
      rw [beq_eq_decide]
      exact decide_eq_decide.mpr eq_comm
    · rw [if_pos (Or.inr hlen), decide_eq_false]
      intro heq
      exact hlen (by rw [heq])
  | _ => rfl

/-- Headers that are no object have no value. -/
private theorem headerValue_eq (headers : JsVal) (name : String) :
    headerValue headers name = match headerField headers name with
      | some field => field.2
      | none => .undefined := by
  unfold headerValue
  by_cases htruthy : headers.truthy = true
  · rw [htruthy]
    rfl
  · have hnone : headerField headers name = none := by
      cases headers with
      | obj fields => exact absurd rfl htruthy
      | _ => rfl
    rw [Bool.not_eq_true] at htruthy
    rw [htruthy, hnone]
    rfl

/-- **The check** never throws, and accepts a request exactly if there is a key and a
    signature text that is read as the digest. -/
theorem verifyNangoSignature_eq (rt : Runtime) (hmac : String → List UInt8 → Digest)
    (rawBody : RawBody) (headers : JsVal) (signingKey : String) :
    ∃ b, verifyNangoSignature rt hmac rawBody headers signingKey = .ok b ∧
      (b = true ↔ signingKey ≠ "" ∧ ∃ s, receivedText headers = some s ∧
        Hex.decode s.toList = (hmac signingKey rawBody.bytes).1) := by
  unfold verifyNangoSignature computeNangoHmac
  by_cases hkey : signingKey = ""
  · -- without a key the check fails closed
    exact ⟨false, if_pos hkey, by simp [hkey]⟩
  rw [if_neg hkey]
  simp only [safeHexEqual_digest, headerValue_eq, receivedText]
  cases headerField headers "x-nango-hmac-sha256" with
  | none => exact ⟨false, rfl, by simp⟩
  | some field =>
    obtain ⟨key, v⟩ := field
    cases v with
    | str s =>
      by_cases hempty : s = ""
      · -- the empty text is not even read, and no digest is empty
        subst hempty
        refine ⟨false, rfl, ?_⟩
        have hlen := (hmac signingKey rawBody.bytes).2
        simp only [Bool.false_eq_true, false_iff, not_and, not_exists]
        rintro - s hs hread
        cases hs
        rw [← hread] at hlen
        cases hlen
      · have htruthy : (JsVal.str s).truthy = true := by simp [JsVal.truthy, hempty]
        simp only [htruthy, Bool.not_true, Bool.false_eq_true, if_false]
        exact ⟨_, rfl, by simp [hkey]⟩
    | _ => exact ⟨false, by simp, by simp⟩

/-! ## The digest itself -/

/-- The signature text is 64 hex digits, up to case those of the body's digest, and there is
    a key. -/
def CorrectSignature (hmac : String → List UInt8 → Digest) (rawBody : RawBody) (headers : JsVal)
    (signingKey : String) : Prop :=
  signingKey ≠ "" ∧ ∃ s, receivedText headers = some s ∧ s.toList.length = 64 ∧
    (∀ c ∈ s.toList, (Hex.value? c).isSome = true) ∧
    toLowerCase s = computeNangoHmac hmac rawBody signingKey

/-- There is a key, and the signature text is longer than 64 characters: it begins, up to
    case, with the body's digest and does not go on with a pair of hex digits. -/
def OverlongSignature (hmac : String → List UInt8 → Digest) (rawBody : RawBody)
    (headers : JsVal) (signingKey : String) : Prop :=
  signingKey ≠ "" ∧ ∃ s, receivedText headers = some s ∧ 64 < s.toList.length ∧
    String.ofList ((s.toList.take 64).map Char.toLower) =
      computeNangoHmac hmac rawBody signingKey ∧
    Hex.startsWithPair (s.toList.drop 64) = false

/-- A text that is read as a digest is the digest, or goes on after it. -/
private theorem decode_eq_digest_iff (mac : Digest) (s : String) :
    Hex.decode s.toList = mac.1 ↔
      (s.toList.length = 64 ∧ (∀ c ∈ s.toList, (Hex.value? c).isSome = true) ∧
        toLowerCase s = String.ofList (Hex.encode mac.1)) ∨
      (64 < s.toList.length ∧
        String.ofList ((s.toList.take 64).map Char.toLower) = String.ofList (Hex.encode mac.1) ∧
        Hex.startsWithPair (s.toList.drop 64) = false) := by
  rw [Hex.decode_eq_iff, mac.2, toLowerCase, String.ofList_inj, String.ofList_inj]
  have hlen := Hex.length_encode mac.1
  rw [mac.2] at hlen
  constructor
  · rintro ⟨htake, hdrop⟩
    have htaken := congrArg List.length htake
    rw [List.length_map, List.length_take, hlen] at htaken
    -- the first 64 characters are the digest's; the question is what is left
    by_cases hlong : 64 < s.toList.length
    · exact Or.inr ⟨hlong, htake, hdrop⟩
    · have h64 : s.toList.length = 64 := by omega
      rw [show 2 * 32 = s.toList.length by omega, List.take_length] at htake
      exact Or.inl ⟨h64, Hex.isSome_value?_of_map htake, htake⟩
  · rintro (⟨h64, -, htake⟩ | ⟨-, htake, hdrop⟩)
    · rw [show 2 * 32 = s.toList.length by omega, List.take_length, List.drop_length]
      exact ⟨htake, rfl⟩
    · exact ⟨htake, hdrop⟩

/-- **The signature check** never throws. It accepts exactly the correct signature, if and
    only if the request does not carry a longer text that begins with the digest and does
    not go on with a pair of hex digits. -/
theorem verifyNangoSignature_exact_iff (rt : Runtime) (hmac : String → List UInt8 → Digest)
    (rawBody : RawBody) (headers : JsVal) (signingKey : String) :
    (∃ b, verifyNangoSignature rt hmac rawBody headers signingKey = .ok b) ∧
      ((verifyNangoSignature rt hmac rawBody headers signingKey = .ok true ↔
          CorrectSignature hmac rawBody headers signingKey) ↔
        ¬ OverlongSignature hmac rawBody headers signingKey) := by
  obtain ⟨b, hb, haccept⟩ := verifyNangoSignature_eq rt hmac rawBody headers signingKey
  refine ⟨⟨b, hb⟩, ?_⟩
  rw [hb, Except.ok.injEq, haccept]
  unfold CorrectSignature OverlongSignature computeNangoHmac
  by_cases hkey : signingKey = ""
  · simp [hkey]
  · cases hreceived : receivedText headers with
    | none => simp
    | some s =>
      have hread := decode_eq_digest_iff (hmac signingKey rawBody.bytes) s
      simp only [ne_eq, hkey, not_false_eq_true, true_and, Option.some.injEq, exists_eq_left']
      rw [hread]
      -- the two alternatives differ in the length
      constructor
      · rintro h ⟨hlong, hover⟩
        have h64 := (h.mp (Or.inr ⟨hlong, hover⟩)).1
        omega
      · intro hnot
        exact ⟨fun h => h.resolve_right hnot, Or.inl⟩

/-- The headers of a webhook with this signature. -/
def signedHeaders (signature : String) : JsVal :=
  .obj [("content-type", .str "application/json"), ("X-Nango-Hmac-Sha256", .str signature)]

/-- The signature is found whatever the case of its header's name. -/
private theorem receivedText_signedHeaders (signature : String) :
    receivedText (signedHeaders signature) = some signature := by
  have htype : arrayIndex? "content-type" = none := by decide +kernel
  have hname : arrayIndex? "X-Nango-Hmac-Sha256" = none := by decide +kernel
  have hother : (toLowerCase "content-type" == toLowerCase "x-nango-hmac-sha256") = false := by
    decide +kernel
  have hsame : (toLowerCase "X-Nango-Hmac-Sha256" == toLowerCase "x-nango-hmac-sha256") = true := by
    decide +kernel
  simp only [receivedText, headerField, signedHeaders, JsVal.fields, ownOrder, List.filter_cons,
    htype, hname, Option.isSome_none, Option.isNone_none, Bool.false_eq_true, if_false, if_true,
    List.filter_nil, List.insertionSort_nil, List.nil_append, List.find?_cons, hother, hsame]

/-- Whatever the digest is, one more character behind it goes unnoticed. -/
theorem verifyNangoSignature_accepts_overlong :
    ¬ ∃ hmac : String → List UInt8 → Digest,
      ∀ (rawBody : RawBody) (headers : JsVal) (signingKey : String),
        verifyNangoSignature plainRuntime hmac rawBody headers signingKey = .ok true ↔
          CorrectSignature hmac rawBody headers signingKey := by
  rintro ⟨hmac, h⟩
  let digest := Hex.encode (hmac "k" []).1
  let headers := signedHeaders (String.ofList (digest ++ ['z']))
  have hlen : digest.length = 64 := by
    rw [Hex.length_encode, (hmac "k" []).2]
  have hreceived : receivedText headers =
      some (String.ofList (digest ++ ['z'])) := receivedText_signedHeaders _
  -- the reader stops before the last character
  have hread : Hex.decode (digest ++ ['z']) = (hmac "k" []).1 := by
    rw [Hex.decode_eq_iff, ← Hex.length_encode, List.take_left, List.drop_left]
    exact ⟨Hex.toLower_encode _, rfl⟩
  obtain ⟨b, hb, haccept⟩ := verifyNangoSignature_eq plainRuntime hmac .missing headers "k"
  have htrue : b = true := by
    apply haccept.mpr
    refine ⟨by decide, _, hreceived, ?_⟩
    rw [String.toList_ofList]
    exact hread
  obtain ⟨-, s, hs, h64, -⟩ := (h .missing headers "k").mp (by rw [hb, htrue])
  rw [hreceived, Option.some.injEq] at hs
  rw [← hs, String.toList_ofList, List.length_append, hlen] at h64
  cases h64

end Shiplog
