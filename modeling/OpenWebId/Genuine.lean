import OpenWebId.Stream
import OpenWebId.Keys
import OpenWebId.Verdicts

/-!
# What a creator signs verifies wherever it is checked

The two ends of the package put together. A creator signs with the key its schedule has in
force at that moment and hands out the base 64 form (`Issued`). Somewhere else a process
reads it and checks it, among any other checks, callers, cancellations, shutdowns and
clearings, against end points of which some are not honest. The check comes to
`SIGNATURE_VALID`, unless the creator's end point is out or the check is cancelled.

Nothing is asked of the domain: the URL of the key can be built only for one that both
codecs keep.
-/

namespace OpenWebId

namespace Fetch

open Lib (Reaches encodeUtf8 decodeAscii IsAscii)

variable {σ κ : Type} {L : Stdlib} {P : Provider σ κ}

/-- The OWID was created with the key that the schedule has in force at that moment. -/
inductive Issued (P : Provider σ κ) (schedule : PublicKeySchedule) (o : Owid) : Prop
  | created {creator : Creator σ κ} {key : σ} {value : Bytes} {now : DateTime} {entropy : Nat}
      {dated : DatedPublicKey} (hkey : creator.crypto = Crypto.ofSigningKey P key)
      (hcreate : creator.create P value now entropy = .ok o)
      (hforce : schedule.keyInForce now = some dated)
      (hpem : Crypto.newVerifyOnly P dated.publicKeyPem = .ok ⟨none, some (P.publicKey key)⟩) :
      Issued P schedule o

/-- The OWID is what is read from the base 64 form of the other. -/
def ReadFrom (o owid : Owid) : Prop :=
  ∃ text r, o.asBase64 = .ok text ∧ Parse.parseBase64 (.text text) = .ok r ∧ r.owid = some owid

/-- A domain that a URL can be built for is ASCII. -/
theorem isAscii_of_checkDomain {domain : String} (h : checkDomain domain = .ok ()) :
    IsAscii domain := by
  intro c hc
  have hchar := (checkDomain_ok h).2 c hc
  simp only [isDomainChar, Bool.or_eq_true, beq_iff_eq] at hchar
  rcases hchar with (halnum | hdot) | hdash
  · exact (Lib.Url.IsPlain.of_isAlphanum halnum).2.1
  · subst hdot
    decide
  · subst hdash
    decide

/-- A URL is built for a domain that was checked alone. -/
theorem checkDomain_of_publicKeyUrl {owid : Owid} {scheme url : String}
    (h : publicKeyUrl owid scheme = .ok url) : checkDomain owid.domain = .ok () := by
  unfold publicKeyUrl at h
  split at h
  · cases h
  · split at h
    · cases h
    · obtain ⟨u, hdomain, -⟩ := bind_eq_ok.mp h
      exact hdomain

/-- What is read of a created OWID, where the key's URL can be built for it, is the OWID that
was created, and its signature verifies. -/
theorem ReadFrom.created (hP : P.Lawful) {o owid : Owid} (hread : ReadFrom o owid)
    {creator : Creator σ κ} {key : σ} (hkey : creator.crypto = Crypto.ofSigningKey P key)
    {value : Bytes} {now : DateTime} {entropy : Nat}
    (hcreate : creator.create P value now entropy = .ok o)
    (hdomain : checkDomain owid.domain = .ok ()) :
    owid = o ∧ Parsed owid ∧ o.verifyWithCrypto P creator.crypto = .ok true := by
  obtain ⟨text, r, htext, hparse, howid⟩ := hread
  obtain ⟨e, hbytes, hename, hback, hverify⟩ := Creator.create_envelope hP hkey
    (Creator.payload_lt hcreate) (Creator.baseDate_le hcreate) hcreate
  obtain ⟨text', htext', hparse'⟩ := parse_asBase64 hbytes
  cases htext.symm.trans htext'
  cases hparse.symm.trans hparse'
  obtain rfl : e.owid = owid := Option.some.inj howid
  -- what the reader's codec made of the domain is ASCII, so it replaced nothing
  have hlow : ∀ b ∈ e.domain, b.toNat < 0x80 :=
    Lib.isAscii_decodeAscii.mp (isAscii_of_checkDomain hdomain)
  have hkept : decodeAscii (encodeUtf8 creator.domain) = creator.domain := by
    apply Lib.encodeUtf8_injective
    rw [← hename]
    exact Lib.encodeUtf8_decodeAscii hlow
  obtain rfl : e.owid = o := hback.mpr hkept
  exact ⟨rfl, ⟨_, _, _, parseBytes_envelope e⟩, hverify⟩

/-- **The schedule itself finds what was issued valid**, and where the key's URL can be built
for what is read from it, that is the OWID that was issued. -/
theorem Issued.status (hP : P.Lawful) {schedule : PublicKeySchedule}
    (hservable : Servable L P schedule) {o owid : Owid} (h : Issued P schedule o)
    (hread : ReadFrom o owid) (hdomain : checkDomain owid.domain = .ok ()) :
    owid = o ∧ Parsed owid ∧ schedule.signatureStatus P owid = .signatureValid := by
  cases h with
  | @created creator key value now entropy dated hkey hcreate hforce hpem =>
    obtain ⟨rfl, hparsed, hverify⟩ := hread.created hP hkey hcreate hdomain
    refine ⟨rfl, hparsed, ?_⟩
    obtain ⟨-, -, hdate, -⟩ := Creator.create_ok hcreate
    have hvalid := Owid.signatureValid_of_pem hpem (by rw [hkey]; rfl)
      (Creator.create_signature hcreate) hverify
    rw [signatureStatus_of_inForceAt (by rw [hdate]; rfl) (hservable.inForceAt_minute hforce)]
    exact hvalid.2

/-- **What a creator issued is found valid in every run.** In any interleaving in which the
honest end points answer from their schedules or are out, a check that has ended of what was
read of an issued OWID, at its creator's end point, comes to `SIGNATURE_VALID`, or its key was
kept away by an outage, or it was cancelled. -/
theorem issued_of_reaches (hP : P.Lawful) {pub : String → Option PublicKeySchedule}
    (hpub : ∀ e s, pub e = some s → Steady L P s) {outage : Prop} {p : Process}
    (hreach : Reaches (processStep L P) (Answering L P pub outage) .start p) {c : Check}
    (hc : c ∈ p.checks) {result : Except PyExc SignatureStatus} (hdone : c.stage = .done result)
    {scheme : String} (hscheme : lower scheme ∈ acceptedSchemes)
    (hurl : publicKeyUrl c.owid scheme = .ok c.url) {schedule : PublicKeySchedule}
    (hschedule : pub (endPointOf c.url) = some schedule) {o : Owid}
    (hissued : Issued P schedule o) (hread : ReadFrom o c.owid) :
    result = .ok .signatureValid ∨ (outage ∧ result = .ok .keyUnavailable) ∨
      result = .error .cancelledError := by
  obtain ⟨-, hparsed, hvalid⟩ := hissued.status hP (hpub _ _ hschedule).toServable hread
    (checkDomain_of_publicKeyUrl hurl)
  have hheeds := heeds_of_answering hpub .start heeds_start hreach
  have hverdict := hheeds.verdict hc hdone hparsed hscheme hurl hschedule
  cases hverdict with
  | schedule => exact Or.inl (by rw [hvalid])
  | beyond _ _ hinvalid =>
    rw [hvalid] at hinvalid
    cases hinvalid
  | lost houtage => exact Or.inr (Or.inl ⟨houtage, rfl⟩)
  | cancelled => exact Or.inr (Or.inr rfl)

/-- A creator on `a.b` that signs with the second of the two keys. -/
def secondCreator : Creator Bytes Bytes :=
  ⟨"a.b", Crypto.ofSigningKey .plain (encodeUtf8 "B"), by decide, by decide, rfl⟩

theorem secondCreator_issued {now : DateTime} (hnow : secondStart ≤ now) {value : Bytes}
    {entropy : Nat} {o : Owid} (h : secondCreator.create .plain value now entropy = .ok o) :
    Issued .plain (rotated secondStart_lt) o ∧ ReadFrom o o := by
  constructor
  · exact .created rfl h (rotated_keyInForce_second secondStart_lt hnow)
      (Provider.plain_newVerifyOnly (by decide))
  · have hbase : baseDate ≤ now := Int.le_trans (Int.le_of_lt secondStart_lt) hnow
    obtain ⟨e, hbytes, -, hback, -⟩ := Creator.create_envelope Provider.plain_lawful rfl
      (Creator.payload_lt h) hbase h
    obtain rfl : e.owid = o := hback.mpr (Lib.decodeAscii_encodeUtf8 (by decide : IsAscii "a.b"))
    obtain ⟨text, htext, hread⟩ := parse_asBase64 hbytes
    exact ⟨text, _, htext, hread, rfl⟩

/-- What it creates of the payload `01` at minute 190. -/
def issuedOwid : Owid :=
  match secondCreator.create .plain [1] (atMinute 190 minute190_le) 0 with
  | .ok o => o
  | .error _ => secondCreator.unsigned [1] (atMinute 190 minute190_le)

theorem issuedOwid_created :
    secondCreator.create .plain [1] (atMinute 190 minute190_le) 0 = .ok issuedOwid := by
  have h0 : 0 ∉ encodeUtf8 secondCreator.domain := by
    show 0 ∉ encodeUtf8 "a.b"
    decide
  have hvalue : ([1] : Bytes).length < 2 ^ 32 := by decide
  have hkey : secondCreator.crypto = Crypto.ofSigningKey .plain (encodeUtf8 "B") := rfl
  have hbase : baseDate ≤ atMinute 190 minute190_le := by decide
  obtain ⟨o, ho⟩ := Creator.create_total Provider.plain_lawful hkey h0 hvalue hbase 0
  rw [issuedOwid, ho]

theorem issuedOwid_url : publicKeyUrl issuedOwid "https" = .ok (dateUrl endPointAB 190) := by
  decide +kernel

/-- Its check, after the two others, is not cancelled. -/
def issuedOutcome : Outcome SignatureStatus :=
  checkLatest staleOutcome.cache issuedOwid (dateUrl endPointAB 190)

theorem issuedOutcome_result : issuedOutcome.result ≠ .error .cancelledError := by
  decide +kernel

theorem issued_of_reaches_rotated :
    ∃ (p : Process) (c : Check),
      secondCreator.create .plain [1] (atMinute 190 minute190_le) 0 = .ok issuedOwid ∧
      Reaches (processStep laterStdlib .plain) (Answering laterStdlib .plain everywhere False)
        .start p ∧
      p.checks.length = 3 ∧ c ∈ p.checks ∧ c.owid = issuedOwid ∧
      c.stage = .done (.ok .signatureValid) := by
  obtain ⟨w₂, k₁, k₂, htwo, hquiet, hcache⟩ := twoChecked
  obtain ⟨w, k, hthird, -⟩ := hquiet.checked hcache
    (rfl : (checkLatest staleOutcome.cache issuedOwid (dateUrl endPointAB 190)).result =
      issuedOutcome.result) [earlyCheck k₁, staleCheck k₂]
  have hreach := htwo.trans hthird
  let c : Check := ⟨issuedOwid, dateUrl endPointAB 190, 0, k, .done issuedOutcome.result⟩
  have hmem : c ∈ [earlyCheck k₁, staleCheck k₂] ++ [c] :=
    List.mem_append_right _ (List.mem_singleton_self c)
  obtain ⟨hissued, hread⟩ := secondCreator_issued (by decide) issuedOwid_created
  have hresult := issued_of_reaches Provider.plain_lawful everywhere_steady hreach hmem rfl
    https_accepted issuedOwid_url rfl hissued hread
  refine ⟨_, c, issuedOwid_created, hreach, rfl, hmem, rfl, ?_⟩
  rcases hresult with hvalid | ⟨hout, -⟩ | hcancelled
  · exact congrArg Stage.done hvalid
  · exact hout.elim
  · exact absurd hcancelled issuedOutcome_result

end Fetch

end OpenWebId
