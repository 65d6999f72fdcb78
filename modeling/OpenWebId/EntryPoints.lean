import OpenWebId.Alone
import OpenWebId.Keys

/-!
# The three ways to ask: `public_key_pem`, `signature_status` and `verify`

A caller who wants to check an OWID can ask for the key and check with it, ask for the status,
or ask whether the signature verifies. `ChecksAs` is what `signature_status` comes to where
`public_key_pem` comes to a key or a failure, with the same cache, transport and clock. It
tells a failure by its status, and a key that decides the signature decides it. Only where the
signature does not match under the key does it ask for more, and it then differs from the
caller's own check for one reason each: another key verifies, or the key tried was not in force
(`verify_agrees`).
-/

namespace OpenWebId

variable {σ κ : Type}

/-- The signature verifies with the public key exactly where its status is that it is valid. -/
theorem Owid.verifyWithPublicKey_iff {P : Provider σ κ} {o : Owid} {pem : String} :
    o.verifyWithPublicKey P pem = .ok true ↔ o.signatureStatus P pem = .signatureValid := by
  unfold Owid.verifyWithPublicKey
  cases hkey : Crypto.newVerifyOnly P pem with
  | error e =>
    refine iff_of_false (fun h => by cases h) ?_
    unfold Owid.signatureStatus
    rw [hkey]
    split
    next => exact fun h => by cases h
    next => split <;> exact fun h => by cases h
  | ok crypto =>
    show o.verifyWithCrypto P crypto = .ok true ↔ _
    by_cases hlength : o.signature.length = signatureLength
    · rw [Owid.signatureStatus_eq hkey hlength]
      cases o.verifyWithCrypto P crypto with
      | error e => exact iff_of_false (fun h => by cases h) fun h => by cases h
      | ok matched => cases matched <;> simp
    · -- both refuse a signature of another length
      refine iff_of_false ?_ ?_
      · unfold Owid.verifyWithCrypto Crypto.verifyByteArray
        cases o.signedBytes with
        | error e => exact fun h => by cases h
        | ok data =>
          simp only [Except.bind]
          split
          next => exact fun h => by cases h
          next =>
            rw [if_pos hlength]
            exact fun h => by cases h
      · rw [Owid.signatureStatus, if_neg (Crypto.newVerifyOnly_nonempty hkey).1, if_pos hlength]
        exact fun h => by cases h

namespace Fetch

/-- `_public_key_pem_at_url` of a caller with no other request for the URL in flight. -/
def publicKeyPemAtUrl (L : Stdlib) (P : Provider σ κ) (turn : Turn) (cache : Cache)
    (url domain : String) : Outcome String :=
  let asked := keyAtUrl L P turn cache url domain
  ⟨asked.result.map KeyAnswer.pem, asked.cache, asked.exchanges⟩

/-- `public_key_pem`. -/
def publicKeyPem (L : Stdlib) (P : Provider σ κ) (turn : Turn) (cache : Cache) (owid : Owid)
    (scheme : String) : Outcome String :=
  match publicKeyUrl owid scheme with
  | .error e => ⟨.error e, cache, []⟩
  | .ok url => publicKeyPemAtUrl L P turn cache url owid.domain

/-- `verify`. -/
def verify (L : Stdlib) (P : Provider σ κ) (turns : Nat → Turn) (cache : Cache) (owid : Owid)
    (scheme : String) : Outcome Bool :=
  let checked := signatureStatus L P turns cache owid scheme
  ⟨checked.result.map fun status => decide (status = .signatureValid), checked.cache,
    checked.exchanges⟩

/-- What `signature_status` comes to where `public_key_pem` comes to this. -/
inductive ChecksAs (P : Provider σ κ) (owid : Owid) (asked : Outcome String) :
    Outcome SignatureStatus → Prop
  /-- No key was obtained, which is told as such, and nothing more is asked for. -/
  | unobtained {e : PyExc} (hresult : asked.result = .error e)
      (hunjudged : ∀ status, failedStatus e = .ok status →
        status = .keyUnavailable ∨ status = .invalidKey) :
      ChecksAs P owid asked ⟨failedStatus e, asked.cache, asked.exchanges⟩
  /-- The key decides, and nothing more is asked for. -/
  | decided {pem : String} (hresult : asked.result = .ok pem)
      (hdecides : owid.signatureStatus P pem ≠ .signatureInvalid) :
      ChecksAs P owid asked ⟨.ok (owid.signatureStatus P pem), asked.cache, asked.exchanges⟩
  /-- The signature does not match under the key, and at most two more keys are asked for. -/
  | invalid {pem : String} {status : SignatureStatus} {cache : Cache} {more : List Exchange}
      (hresult : asked.result = .ok pem)
      (hinvalid : owid.signatureStatus P pem = .signatureInvalid) (hmore : more.length ≤ 2)
      (hstatus : status = .signatureInvalid ∨ status = .keyUnavailable ∨
        (status = .signatureValid ∧
          ∃ other, other ≠ pem ∧ owid.signatureStatus P other = .signatureValid)) :
      ChecksAs P owid asked ⟨.ok status, cache, asked.exchanges ++ more⟩
  /-- What is no `OwidError` goes out of the search for another key. -/
  | raised {pem : String} {e : PyExc} {cache : Cache} {more : List Exchange}
      (hresult : asked.result = .ok pem)
      (hinvalid : owid.signatureStatus P pem = .signatureInvalid) (hmore : more.length ≤ 2)
      (hnot : e.isOwidError = false) :
      ChecksAs P owid asked ⟨.error e, cache, asked.exchanges ++ more⟩

section Agree

variable {L : Stdlib} {P : Provider σ κ}

theorem keyAtUrl_exchanges_le (turn : Turn) (cache : Cache) (url domain : String) :
    (keyAtUrl L P turn cache url domain).exchanges.length ≤ 1 := by
  have hone : (if asks url then [(⟨url, turn.reply url⟩ : Exchange)] else []).length ≤ 1 := by
    split <;> simp
  unfold keyAtUrl
  simp only
  split
  next => exact Nat.zero_le _
  next => split <;> exact hone

/-- What a search for another key comes to: at most so many requests, another key where one
verifies, and no exception that is an `OwidError`. -/
structure Searched (P : Provider σ κ) (owid : Owid) (tried : KeyAnswer) (most : Nat)
    (out : Outcome Bool) : Prop where
  few : out.exchanges.length ≤ most
  found : out.result = .ok true →
    ∃ other, other ≠ tried.pem ∧ owid.signatureStatus P other = .signatureValid
  raised : ∀ e, out.result = .error e → e.isOwidError = false

theorem searched_tryNeighbours {owid : Owid} {url : String} {tried : KeyAnswer}
    {minutes : List Int} {turns : Nat → Turn} {cache : Cache} :
    Searched P owid tried minutes.length
      (tryNeighbours L P owid url tried turns cache minutes) := by
  induction minutes generalizing turns cache with
  | nil =>
    refine ⟨Nat.le_refl _, fun h => ?_, fun e h => ?_⟩
    · cases h
    · cases h
  | cons minute minutes ih =>
    have hone := keyAtUrl_exchanges_le (L := L) (P := P) (turns 0) cache
      (dateUrl (endPointOf url) minute.toNat) owid.domain
    generalize hasked : keyAtUrl L P (turns 0) cache (dateUrl (endPointOf url) minute.toNat)
      owid.domain = asked at hone
    have hstep := tryNeighbours_cons tried minutes hasked
    have hrest : Searched P owid tried minutes.length (tryNeighbours L P owid url tried
      (fun n => turns (n + 1)) asked.cache minutes) := ih
    generalize tryNeighbours L P owid url tried turns cache (minute :: minutes) = out at hstep ⊢
    rw [List.length_cons]
    cases hstep with
    | raised hresult hnot =>
      refine ⟨hone.trans (Nat.le_add_left 1 _), fun h => ?_, fun e h => ?_⟩
      · cases h
      · cases h
        exact hnot
    | @verified neighbour hresult hpem hvalid =>
      refine ⟨hone.trans (Nat.le_add_left 1 _), fun _ => ⟨neighbour.pem, hpem, hvalid⟩,
        fun e h => ?_⟩
      cases h
    | goOn =>
      refine ⟨?_, hrest.found, hrest.raised⟩
      have hfew := hrest.few
      rw [List.length_append]
      omega

/-- The search asks about two more minutes at most. -/
theorem searched_neighbourVerifies {owid : Owid} {minute : Int} {url : String} {tried : KeyAnswer}
    {turns : Nat → Turn} {cache : Cache} :
    Searched P owid tried 2 (neighbourVerifies L P turns cache owid minute url tried) := by
  unfold neighbourVerifies
  split
  next =>
    refine ⟨Nat.zero_le _, fun h => ?_, fun e h => ?_⟩
    · cases h
    · cases h
  next =>
    have hsearched : Searched P owid tried (beyond minute tried).length
      (tryNeighbours L P owid url tried turns cache (beyond minute tried)) := searched_tryNeighbours
    exact ⟨hsearched.few.trans (length_beyond minute tried), hsearched.found, hsearched.raised⟩

/-- A failure to obtain a key is told as nothing about the signature. -/
theorem keyAtUrl_unjudged {turn : Turn} {cache : Cache} {url domain : String} {e : PyExc}
    (h : (keyAtUrl L P turn cache url domain).result = .error e) (status : SignatureStatus)
    (hstatus : failedStatus e = .ok status) : status = .keyUnavailable ∨ status = .invalidKey := by
  have hobtained := keyAtUrl_obtained L P turn cache url domain
  generalize keyAtUrl L P turn cache url domain = asked at h hobtained
  cases hobtained with
  | served => cases h
  | fetched => cases h
  | failed hfetch =>
    cases h
    rcases fetch_error hfetch with hsame | hsame | rfl | rfl
    · exact Or.inl (Except.ok.inj (hstatus.symm.trans hsame))
    · exact Or.inr (Except.ok.inj (hstatus.symm.trans hsame))
    · cases hstatus
    · cases hstatus

/-- **`signature_status` against `public_key_pem`, at a URL.** -/
theorem signatureStatusAtUrl_checksAs (turns : Nat → Turn) (cache : Cache) (owid : Owid)
    (url : String) : ChecksAs P owid (publicKeyPemAtUrl L P (turns 0) cache url owid.domain)
      (signatureStatusAtUrl L P turns cache owid url) := by
  have hfailed : ∀ e, (keyAtUrl L P (turns 0) cache url owid.domain).result = .error e →
      ∀ status, failedStatus e = .ok status → status = .keyUnavailable ∨ status = .invalidKey :=
    fun _ he => keyAtUrl_unjudged he
  unfold publicKeyPemAtUrl signatureStatusAtUrl
  generalize keyAtUrl L P (turns 0) cache url owid.domain = asked at hfailed
  obtain ⟨result, cache', exchanges⟩ := asked
  cases result with
  | error e => exact .unobtained rfl (hfailed e rfl)
  | ok answer =>
    simp only
    split
    next hdecides => exact .decided rfl hdecides
    next hinvalid =>
      rw [not_not] at hinvalid
      split
      next =>
        -- a date that cannot be counted leaves nothing more to ask for
        have hnone : ChecksAs P owid ⟨.ok answer.pem, cache', exchanges⟩
            ⟨.ok .signatureInvalid, cache', exchanges ++ []⟩ :=
          .invalid rfl hinvalid (Nat.zero_le _) (Or.inl rfl)
        rw [List.append_nil] at hnone
        rw [hinvalid]
        exact hnone
      next =>
        have hsearched : Searched P owid answer 2 (neighbourVerifies L P (fun n => turns (n + 1))
          cache' owid (minutesSinceBase owid.date) url answer) := searched_neighbourVerifies
        generalize neighbourVerifies L P (fun n => turns (n + 1)) cache' owid
          (minutesSinceBase owid.date) url answer = tried at hsearched
        obtain ⟨result, cache, more⟩ := tried
        cases result with
        | error e => exact .raised rfl hinvalid hsearched.few (hsearched.raised e rfl)
        | ok verified =>
          refine .invalid rfl hinvalid hsearched.few ?_
          cases verified with
          | true => exact Or.inr (Or.inr ⟨rfl, hsearched.found rfl⟩)
          | false =>
            rw [hinvalid]
            simp only [Bool.false_eq_true, if_false]
            split
            next => exact Or.inr (Or.inl rfl)
            next => exact Or.inl rfl

/-- A URL that is refused leaves the key unavailable. -/
theorem failedStatus_publicKeyUrl {owid : Owid} {scheme : String} {e : PyExc}
    (h : publicKeyUrl owid scheme = .error e) : failedStatus e = .ok .keyUnavailable := by
  have hdomain : ∀ {domain : String}, checkDomain domain = .error e →
      failedStatus e = .ok .keyUnavailable := by
    intro domain hcheck
    unfold checkDomain at hcheck
    split at hcheck
    next =>
      cases hcheck
      rfl
    next =>
      split at hcheck
      next => cases hcheck
      next =>
        cases hcheck
        rfl
  unfold publicKeyUrl at h
  split at h
  next =>
    cases h
    rfl
  next =>
    split at h
    next =>
      cases h
      rfl
    next =>
      rcases bind_eq_error.mp h with hcheck | ⟨-, -, hurl⟩
      · exact hdomain hcheck
      · cases hurl

/-- **`signature_status` against `public_key_pem`.** -/
theorem signatureStatus_checksAs (turns : Nat → Turn) (cache : Cache) (owid : Owid)
    (scheme : String) : ChecksAs P owid (publicKeyPem L P (turns 0) cache owid scheme)
      (signatureStatus L P turns cache owid scheme) := by
  unfold publicKeyPem signatureStatus
  cases hurl : publicKeyUrl owid scheme with
  | error e =>
    have howid : e.isOwidError = true := publicKeyUrl_error hurl
    simp only [howid, if_true]
    have hstatus := failedStatus_publicKeyUrl hurl
    rw [← hstatus]
    exact .unobtained rfl fun status h => Or.inl (Except.ok.inj (h.symm.trans hstatus))
  | ok url => exact signatureStatusAtUrl_checksAs turns cache owid url

/-- **The three ways to ask agree.** For every OWID, scheme, cache, transport and clock:
`signature_status` comes to what `public_key_pem` and a check of one's own come to, except
where the signature does not match under the key; and `verify` says yes where the OWID
verifies with the public key that `public_key_pem` gives, and otherwise only where it does not
match under that key and verifies with another. -/
theorem verify_agrees (turns : Nat → Turn) (cache : Cache) (owid : Owid) (scheme : String) :
    let asked := publicKeyPem L P (turns 0) cache owid scheme
    let checked := signatureStatus L P turns cache owid scheme
    let verified := verify L P turns cache owid scheme
    ChecksAs P owid asked checked ∧
      (∀ pem, asked.result = .ok pem → owid.verifyWithPublicKey P pem = .ok true →
        verified = ⟨.ok true, asked.cache, asked.exchanges⟩) ∧
      (verified.result = .ok true → ∃ pem, asked.result = .ok pem ∧
        (owid.verifyWithPublicKey P pem = .ok true ∨
          (owid.signatureStatus P pem = .signatureInvalid ∧
            ∃ other, other ≠ pem ∧ owid.verifyWithPublicKey P other = .ok true))) := by
  have hchecks := signatureStatus_checksAs (L := L) (P := P) turns cache owid scheme
  simp only [verify]
  generalize publicKeyPem L P (turns 0) cache owid scheme = asked at hchecks ⊢
  generalize signatureStatus L P turns cache owid scheme = checked at hchecks ⊢
  refine ⟨hchecks, ?_, ?_⟩
  · intro pem hpem hverifies
    rw [Owid.verifyWithPublicKey_iff] at hverifies
    cases hchecks with
    | unobtained hresult => cases hpem.symm.trans hresult
    | decided hresult hdecides =>
      cases hpem.symm.trans hresult
      rw [hverifies]
      rfl
    | invalid hresult hinvalid | raised hresult hinvalid =>
      cases hpem.symm.trans hresult
      cases hverifies.symm.trans hinvalid
  · intro hverified
    cases hchecks with
    | @unobtained e hresult hunjudged =>
      cases hfailed : failedStatus e with
      | error e =>
        rw [hfailed] at hverified
        cases hverified
      | ok status =>
        rw [hfailed] at hverified
        have hvalid : status = .signatureValid := of_decide_eq_true (Except.ok.inj hverified)
        rcases hunjudged status hfailed with rfl | rfl
        · cases hvalid
        · cases hvalid
    | @decided pem hresult hdecides =>
      refine ⟨pem, hresult, Or.inl (Owid.verifyWithPublicKey_iff.mpr ?_)⟩
      exact of_decide_eq_true (Except.ok.inj hverified)
    | @invalid pem status _ _ hresult hinvalid _ hstatus =>
      have hvalid : status = .signatureValid := of_decide_eq_true (Except.ok.inj hverified)
      rcases hstatus with rfl | rfl | ⟨-, other, hne, hother⟩
      · cases hvalid
      · cases hvalid
      · exact ⟨pem, hresult, Or.inr ⟨hinvalid, other, hne, Owid.verifyWithPublicKey_iff.mpr hother⟩⟩
    | raised => cases hverified

end Agree

end Fetch

end OpenWebId
