import OpenWebId.Agreement

/-!
# A genuine identifier near a rotation verifies

Two keys are adjacent in a schedule where one's period ends at the other's start, the
rotation. An OWID dated near the rotation may be signed with either: the clock of the
machine that signed it need not agree with the schedule to the minute.

The check selects the key of the OWID's own minute. Where that key made the signature
there is nothing to show. Where the other one did, the rotation is an edge of the span
stated, and the minute just beyond it is among those the loop over the neighbours asks
about. `tryNeighbours_verifies` says that the loop gets to it: whatever it asks about
before, it goes on, or has found a key that verifies.

Two conditions come with the design. The span is stated to the client only where its
start is counted, which is from the base date on, and there is no minute before the
first. And a creator answers for a minute later than its now with the key of its now, so
the key after a rotation can be had from the rotation on.
-/

namespace OpenWebId

variable {σ κ : Type}

namespace Fetch

/-- Two keys of a schedule, the first in force until the second starts. -/
structure Adjacent (schedule : PublicKeySchedule) (before after : DatedPublicKey) : Prop where
  inForce : schedule.keyInForce before.startsAt = some before
  next : schedule.nextStartAfter before = some after.startsAt
  nextInForce : schedule.keyInForce after.startsAt = some after

/-- The OWID carries a signature that the signer's key verifies, and no other key of the
schedule does. -/
structure SignedBy (P : Provider σ κ) (schedule : PublicKeySchedule) (owid : Owid)
    (signer : DatedPublicKey) : Prop where
  length : owid.signature.length = signatureLength
  verifies : ∀ key ∈ schedule.keys, ∀ crypto, Crypto.newVerifyOnly P key.publicKeyPem = .ok crypto →
    owid.verifyWithCrypto P crypto = .ok (decide (key = signer))

section Schedule

variable {schedule : PublicKeySchedule}

/-- The key a PEM of the schedule belongs to is in force wherever the PEM is. -/
theorem Distinct.keyInForce (h : Distinct schedule) {key : DatedPublicKey}
    (hkey : key ∈ schedule.keys) {minute : Int} {moment : DateTime}
    (hmicros : moment.micros = minute * microsPerMinute)
    (hforce : InForceAt schedule minute key.publicKeyPem) :
    schedule.keyInForce moment = some key := by
  obtain ⟨moment', key', hmicros', hkey', hpem⟩ := hforce
  have hsame : moment' = moment := DateTime.ext (hmicros'.trans hmicros.symm)
  have hmem := (PublicKeySchedule.keyInForce_eq_some.mp hkey').mem
  rw [← hsame, hkey', h key' hmem key hkey hpem]

theorem Adjacent.mem_before {before after : DatedPublicKey} (h : Adjacent schedule before after) :
    before ∈ schedule.keys := (PublicKeySchedule.keyInForce_eq_some.mp h.inForce).mem

theorem Adjacent.mem_after {before after : DatedPublicKey} (h : Adjacent schedule before after) :
    after ∈ schedule.keys := (PublicKeySchedule.keyInForce_eq_some.mp h.nextInForce).mem

theorem Adjacent.lt {before after : DatedPublicKey} (h : Adjacent schedule before after) :
    before.startsAt < after.startsAt := (PublicKeySchedule.nextStartAfter_eq_some h.next).1

theorem Adjacent.ne {before after : DatedPublicKey} (h : Adjacent schedule before after) :
    before ≠ after := by
  intro he
  have hlt := h.lt
  rw [he] at hlt
  exact Int.lt_irrefl _ hlt

end Schedule

section Rotation

variable {L : Stdlib} {P : Provider σ κ} {schedule : PublicKeySchedule}

/-- The status under a key of the schedule says whether it is the signer's. -/
theorem SignedBy.status (h : Servable L P schedule) {owid : Owid} {signer key : DatedPublicKey}
    (hsigned : SignedBy P schedule owid signer) (hkey : key ∈ schedule.keys) :
    owid.signatureStatus P key.publicKeyPem =
      if key = signer then .signatureValid else .signatureInvalid := by
  obtain ⟨crypto, hread⟩ := h.readable key hkey
  rw [Owid.signatureStatus_eq hread hsigned.length, hsigned.verifies key hkey crypto hread]
  by_cases hsame : key = signer
  · rw [if_pos hsame, decide_eq_true hsame]
    rfl
  · rw [if_neg hsame, decide_eq_false hsame]
    rfl

/-- The last minute of the key before a rotation, and the first of the key after it. -/
theorem Servable.inForceAt_before (h : Servable L P schedule) {before after : DatedPublicKey}
    (hadjacent : Adjacent schedule before after) {rotation : Int}
    (hrotation : after.startsAt.micros = rotation * microsPerMinute) :
    InForceAt schedule (rotation - 1) before.publicKeyPem := by
  have hlt := h.start_lt_next hadjacent.mem_before hadjacent.next
  have hcount : after.startsAt.micros / microsPerMinute = rotation :=
    ediv_microsPerMinute hrotation
  rw [hcount] at hlt
  refine h.counts hadjacent.inForce (Int.le_sub_one_of_lt hlt) (fun next hnext => ?_)
    (minute_le_maxMoment after.startsAt ?_)
  · rw [hadjacent.next] at hnext
    cases hnext
    rw [hcount]
    exact Int.sub_one_lt_of_le (Int.le_refl _)
  · rw [hcount]
    exact Int.sub_le_self _ (by decide)

/-! ## The loop gets to the neighbour that verifies -/

/-- **The loop over the neighbours verifies** where one of its minutes has another key in
force that does, and no minute up to that one is in the creator's future. -/
theorem tryNeighbours_verifies (h : Published L P schedule) (hreturn : NoReturn schedule)
    {owid : Owid} {base : String} {minute : Nat} (hbase : Clean base)
    (hasks : ∀ m, asks (dateUrl base m) = true) {tried : KeyAnswer} {pre post : List Int} {m : Int}
    {turns : Nat → Turn} {now : Nat → DateTime}
    (hserved : ∀ n url, (turns n).reply url = serve L P schedule (now n) url)
    (hpast : ∀ m' ∈ pre ++ [m], 0 ≤ m' ∧ ∀ n, m' * microsPerMinute ≤ (now n).micros) {pem : String}
    (hforce : InForceAt schedule m pem) (hne : pem ≠ tried.pem)
    (hvalid : owid.signatureStatus P pem = .signatureValid) {cache : Cache}
    (hcache : TrueTo schedule cache) :
    (tryNeighbours L P owid (dateUrl base minute) tried turns cache (pre ++ m :: post)).result =
      .ok true := by
  induction pre generalizing turns now cache with
  | nil =>
    obtain ⟨hnonneg, hreached⟩ := hpast m (List.mem_singleton_self m)
    generalize hasked : Fetch.keyAtUrl L P (turns 0) cache
      (dateUrl (endPointOf (dateUrl base minute)) m.toNat) owid.domain = asked
    have hstep := tryNeighbours_cons tried post hasked
    have hcount := Int.toNat_of_nonneg hnonneg
    obtain ⟨-, hlearned⟩ := h.neighbour hreturn hcache hbase hasks (hserved 0)
      (Int.le_of_lt (lt_lastMinute (hreached 0))) (Or.inr (hcount ▸ hreached 0)) hasked
    rw [List.nil_append]
    generalize tryNeighbours L P owid (dateUrl base minute) tried turns cache (m :: post) = out
      at hstep ⊢
    -- the key in force at the minute is what was learned of it
    generalize hlearn : asked.result = learned at hlearned
    cases hlearned with
    | none _ _ hnone =>
      rw [hcount] at hnone
      exact absurd hforce (hnone (hreached 0) pem)
    | @key answer _ hanswer _ =>
      rw [hcount] at hanswer
      have hpem := (hanswer (hreached 0)).1.unique hforce
      cases hstep with
      | raised herror =>
        rw [hlearn] at herror
        cases herror
      | verified => rfl
      | goOn _ hwhy =>
        rcases hwhy answer hlearn with hsame | hinvalid
        · exact absurd (hpem.symm.trans hsame) hne
        · rw [hpem] at hinvalid
          exact absurd hvalid hinvalid
  | cons m' pre ih =>
    obtain ⟨hnonneg, hreached⟩ := hpast m' (List.mem_cons_self ..)
    generalize hasked : Fetch.keyAtUrl L P (turns 0) cache
      (dateUrl (endPointOf (dateUrl base minute)) m'.toNat) owid.domain = asked
    have hstep := tryNeighbours_cons tried (pre ++ m :: post) hasked
    have hcount := Int.toNat_of_nonneg hnonneg
    obtain ⟨htrue, hlearned⟩ := h.neighbour hreturn hcache hbase hasks (hserved 0)
      (Int.le_of_lt (lt_lastMinute (hreached 0))) (Or.inr (hcount ▸ hreached 0)) hasked
    rw [List.cons_append]
    generalize tryNeighbours L P owid (dateUrl base minute) tried turns cache
      (m' :: (pre ++ m :: post)) = out at hstep ⊢
    cases hstep with
    | raised herror hnot =>
      rw [herror] at hlearned
      cases hlearned with
      | none _ howid =>
        rw [howid] at hnot
        cases hnot
    | verified => rfl
    | goOn =>
      exact ih (fun n => hserved (n + 1))
        (fun m'' hm => ⟨(hpast m'' (List.mem_cons_of_mem _ hm)).1,
          fun n => (hpast m'' (List.mem_cons_of_mem _ hm)).2 (n + 1)⟩) htrue

/-! ## What is asked about near a rotation -/

/-- A start that is counted is the first minute of a span that is known. -/
theorem stated_start (pem : String) (start : Int) (stop : Option Int) :
    (Fetch.stated pem (some start) stop).pem = pem ∧
      (Fetch.stated pem (some start) stop).first = start ∧
      (Fetch.stated pem (some start) stop).known = true := by
  cases stop with
  | none => exact ⟨rfl, rfl, rfl⟩
  | some stop =>
    simp only [Fetch.stated]
    split
    · exact ⟨rfl, rfl, rfl⟩
    · exact ⟨rfl, rfl, rfl⟩

theorem beyond_last {minute : Int} {tried : KeyAnswer} (hend : tried.last < lastMinute)
    (hnear : (minute - tried.last).natAbs ≤ clockDriftAllowanceMinutes) :
    ∃ pre, beyond minute tried = pre ++ [tried.last + 1] ∧
      ∀ m ∈ pre, m = tried.first - 1 ∧ 0 < tried.first := by
  refine ⟨if tried.first > 0 ∧ nearEdge minute tried.first then [tried.first - 1] else [], ?_, ?_⟩
  · have hasked : tried.last < lastMinute ∧ nearEdge minute tried.last = true :=
      ⟨hend, decide_eq_true hnear⟩
    rw [beyond, if_pos hasked]
  · intro m hm
    split at hm
    next hfirst => exact ⟨List.mem_singleton.mp hm, hfirst.1⟩
    next => cases hm

theorem beyond_first {minute : Int} {tried : KeyAnswer} (hpos : 0 < tried.first)
    (hnear : (minute - tried.first).natAbs ≤ clockDriftAllowanceMinutes) :
    ∃ post, beyond minute tried = (tried.first - 1) :: post := by
  rw [beyond, if_pos ⟨hpos, decide_eq_true hnear⟩]
  exact ⟨_, rfl⟩

/-- Before a rotation, the key after it is tried. -/
theorem Published.verifies_ahead (h : Published L P schedule) (hreturn : NoReturn schedule)
    {before after : DatedPublicKey} (hadjacent : Adjacent schedule before after) {rotation : Int}
    (hrotation : after.startsAt.micros = rotation * microsPerMinute)
    (hcounted : baseDate ≤ before.startsAt) {turns : Nat → Turn} {now : Nat → DateTime}
    (hserved : ∀ n url, (turns n).reply url = serve L P schedule (now n) url) {base : String}
    (hbase : Clean base) (hasks : ∀ m, asks (dateUrl base m) = true) {owid : Owid} {minute : Nat}
    (hnow : ∀ n, (minute : Int) * microsPerMinute ≤ (now n).micros)
    (hlate : ∀ n, rotation * microsPerMinute ≤ (now n).micros)
    (hstarted : before.startsAt.micros ≤ minute * microsPerMinute)
    (hbefore : (minute : Int) < rotation)
    (hnear : (minute - rotation).natAbs ≤ clockDriftAllowanceMinutes)
    (hne : after.publicKeyPem ≠ before.publicKeyPem)
    (hvalid : owid.signatureStatus P after.publicKeyPem = .signatureValid) {cache : Cache}
    (hcache : TrueTo schedule cache) :
    (Fetch.neighbourVerifies L P turns cache owid minute (dateUrl base minute)
      (Fetch.stated before.publicKeyPem (minutesOrNone (some before.startsAt))
        (minutesOrNone (schedule.nextStartAfter before)))).result = .ok true := by
  have hunit : microsPerMinute = 60000000 := rfl
  have hlt := h.start_lt_next hadjacent.mem_before hadjacent.next
  have hcount : after.startsAt.micros / microsPerMinute = rotation :=
    ediv_microsPerMinute hrotation
  have hafter : baseDate ≤ after.startsAt := Int.le_trans hcounted (Int.le_of_lt hadjacent.lt)
  have hfrom : 0 ≤ before.startsAt.micros := hcounted
  rw [hcount] at hlt
  rw [hadjacent.next, minutesOrNone_whole hcounted (h.wholeMinutes _ hadjacent.mem_before),
    minutesOrNone_whole hafter (h.nextWhole hadjacent.next), hcount]
  generalize hstart : before.startsAt.micros / microsPerMinute = start at hlt
  have hspan : Fetch.stated before.publicKeyPem (some start) (some rotation) =
      ⟨before.publicKeyPem, start, rotation - 1, true⟩ := if_pos hlt
  have hend : rotation - 1 < lastMinute :=
    Int.lt_trans (Int.sub_one_lt_of_le (Int.le_refl _)) (lt_lastMinute (hlate 0))
  have hedge : ((minute : Int) - (rotation - 1)).natAbs ≤ clockDriftAllowanceMinutes := by
    simp only [clockDriftAllowanceMinutes] at hnear ⊢
    omega
  rw [hspan, Fetch.neighbourVerifies, if_neg Bool.noConfusion]
  let tried : KeyAnswer := ⟨before.publicKeyPem, start, rotation - 1, true⟩
  obtain ⟨pre, hbeyond, hpre⟩ : ∃ pre, beyond minute tried = pre ++ [rotation - 1 + 1] ∧
      ∀ m ∈ pre, m = start - 1 ∧ 0 < start := beyond_last hend hedge
  rw [hbeyond]
  have hforce : InForceAt schedule (rotation - 1 + 1) after.publicKeyPem := by
    rw [Int.sub_add_cancel]
    exact inForceAt_of_moment hrotation hadjacent.nextInForce
  refine tryNeighbours_verifies h hreturn hbase hasks hserved ?_ hforce hne hvalid hcache
  intro m hm
  rcases List.mem_append.mp hm with hfirst | hlast
  · -- the minute before the span, which the OWID's own is behind
    obtain ⟨hm, hpos⟩ := hpre m hfirst
    subst hm
    refine ⟨Int.le_sub_one_of_lt hpos, fun n => ?_⟩
    have hreached := hnow n
    simp only [hunit] at hreached hstarted hstart ⊢
    omega
  · rw [List.mem_singleton.mp hlast, Int.sub_add_cancel]
    refine ⟨?_, hlate⟩
    omega

/-- After a rotation, the key before it is tried. -/
theorem Published.verifies_behind (h : Published L P schedule) (hreturn : NoReturn schedule)
    {before after : DatedPublicKey} (hadjacent : Adjacent schedule before after) {rotation : Int}
    (hrotation : after.startsAt.micros = rotation * microsPerMinute) (hpos : 0 < rotation)
    {turns : Nat → Turn} {now : Nat → DateTime}
    (hserved : ∀ n url, (turns n).reply url = serve L P schedule (now n) url) {base : String}
    (hbase : Clean base) (hasks : ∀ m, asks (dateUrl base m) = true) {owid : Owid} {minute : Nat}
    (hnow : ∀ n, (minute : Int) * microsPerMinute ≤ (now n).micros)
    (hafter : rotation ≤ minute)
    (hnear : (minute - rotation).natAbs ≤ clockDriftAllowanceMinutes)
    (hne : before.publicKeyPem ≠ after.publicKeyPem)
    (hvalid : owid.signatureStatus P before.publicKeyPem = .signatureValid) {cache : Cache}
    (hcache : TrueTo schedule cache) :
    (Fetch.neighbourVerifies L P turns cache owid minute (dateUrl base minute)
      (Fetch.stated after.publicKeyPem (minutesOrNone (some after.startsAt))
        (minutesOrNone (schedule.nextStartAfter after)))).result = .ok true := by
  have hunit : microsPerMinute = 60000000 := rfl
  have hcounted : baseDate ≤ after.startsAt := by
    show 0 ≤ after.startsAt.micros
    rw [hrotation, hunit]
    omega
  have hcount : after.startsAt.micros / microsPerMinute = rotation :=
    ediv_microsPerMinute hrotation
  rw [minutesOrNone_whole hcounted (h.nextWhole hadjacent.next), hcount]
  obtain ⟨hpem, hfirst, hknown⟩ :=
    stated_start after.publicKeyPem rotation (minutesOrNone (schedule.nextStartAfter after))
  generalize Fetch.stated after.publicKeyPem (some rotation)
    (minutesOrNone (schedule.nextStartAfter after)) = tried at hpem hfirst hknown
  rw [Fetch.neighbourVerifies, hknown, if_neg Bool.noConfusion]
  -- the minute before the start is the first that is tried
  obtain ⟨post, hbeyond⟩ : ∃ post, beyond minute tried = [] ++ (rotation - 1) :: post := by
    subst hfirst
    exact beyond_first hpos hnear
  rw [hbeyond]
  have hforce := h.inForceAt_before hadjacent hrotation
  refine tryNeighbours_verifies h hreturn hbase hasks hserved ?_ hforce
    (hpem ▸ hne) hvalid hcache
  intro m hm
  -- and the creator has reached it, since it is behind the OWID's own
  rw [List.mem_singleton.mp hm]
  refine ⟨Int.le_sub_one_of_lt hpos, fun n => ?_⟩
  have hreached := hnow n
  simp only [hunit] at hreached ⊢
  omega

/-- An OWID near the rotation between two keys, and the nows it is checked at: its minute
is in the period of one of the two, within the drift allowance of the rotation and not
later than any now, and it is signed with one of the two. -/
structure NearRotation (P : Provider σ κ) (schedule : PublicKeySchedule)
    (before after : DatedPublicKey) (owid : Owid) (minute rotation : Int)
    (now : Nat → DateTime) (selected signer : DatedPublicKey) : Prop where
  ofSelected : selected = before ∨ selected = after
  inForce : InForceAt schedule minute selected.publicKeyPem
  near : (minute - rotation).natAbs ≤ clockDriftAllowanceMinutes
  ofSigner : signer = before ∨ signer = after
  signed : SignedBy P schedule owid signer
  reached : ∀ n, minute * microsPerMinute ≤ (now n).micros

/-- **A check near a rotation, at the URL of the OWID's own minute.** -/
theorem Published.verifies_atUrl (h : Published L P schedule) (hdistinct : Distinct schedule)
    {before after : DatedPublicKey} (hadjacent : Adjacent schedule before after) {rotation : Int}
    (hrotation : after.startsAt.micros = rotation * microsPerMinute) {turns : Nat → Turn}
    {now : Nat → DateTime}
    (hserved : ∀ n url, (turns n).reply url = serve L P schedule (now n) url) {base : String}
    (hbase : Clean base) (hasks : ∀ m, asks (dateUrl base m) = true) {owid : Owid} {minute : Nat}
    (hminute : minute ≤ 0xFFFFFFFF) (hcount : minutesSinceBase owid.date = minute)
    {selected signer : DatedPublicKey}
    (hnear : NearRotation P schedule before after owid minute rotation now selected signer)
    (hahead : selected = before → signer = after →
      baseDate ≤ before.startsAt ∧ ∀ n, rotation * microsPerMinute ≤ (now n).micros)
    (hbehind : selected = after → signer = before → 0 < rotation) :
    (Fetch.signatureStatusAtUrl L P turns Cache.empty owid (dateUrl base minute)).result =
      .ok .signatureValid := by
  have hreturn := hdistinct.noReturn
  have hmem : selected ∈ schedule.keys := by
    rcases hnear.ofSelected with hbefore | hafter
    · rw [hbefore]
      exact hadjacent.mem_before
    · rw [hafter]
      exact hadjacent.mem_after
  have hmicros := momentRead_micros (hnear.reached 0)
  have hkey := hdistinct.keyInForce hmem hmicros hnear.inForce
  obtain ⟨hstarted, hends⟩ := PublicKeySchedule.keyInForce_bounds hkey
  have hok := (h.keyAtUrl_hold hbase hminute (hasks minute) (hserved 0 _) hkey
    (heldFor_empty _ _ _) owid.domain).1
  generalize hout : Fetch.keyAtUrl L P (turns 0) Cache.empty (dateUrl base minute) owid.domain = out
    at hok
  have htrue := (h.keyAtUrl hreturn Sound.empty hbase hminute (hasks minute) (hserved 0 _)
    (Or.inr (hnear.reached 0)) hout).1
  subst hout
  have hstatus := hnear.signed.status h.toServable hmem
  by_cases hsame : selected = signer
  · -- the key selected made the signature
    rw [if_pos hsame] at hstatus
    simp only [Fetch.signatureStatusAtUrl, hok, stated_pem, hstatus]
    rfl
  · rw [if_neg hsame] at hstatus
    have hdate : 0 ≤ minutesSinceBase owid.date := by
      rw [hcount]
      exact Int.natCast_nonneg minute
    have hvalid : signer ∈ schedule.keys →
        owid.signatureStatus P signer.publicKeyPem = .signatureValid := by
      intro hin
      rw [hnear.signed.status h.toServable hin, if_pos rfl]
    have hne : signer ∈ schedule.keys → signer.publicKeyPem ≠ selected.publicKeyPem :=
      fun hin hpem => hsame (hdistinct signer hin selected hmem hpem).symm
    refine signatureStatusAtUrl_verified hok (by rw [stated_pem]; exact hstatus) hdate ?_
    rw [hcount]
    rcases hnear.ofSelected with hselected | hselected
    · rcases hnear.ofSigner with hsigner | hsigner
      · exact absurd (hselected.trans hsigner.symm) hsame
      · -- dated before the rotation, and signed with the key after it
        subst hselected hsigner
        obtain ⟨hcounted, hlate⟩ := hahead rfl rfl
        have hin := hadjacent.mem_after
        have hbefore : (minute : Int) < rotation := by
          have hlt : (momentRead (now 0) minute).micros < signer.startsAt.micros :=
            hends _ hadjacent.next
          rw [hmicros, hrotation] at hlt
          exact mul_microsPerMinute_lt_iff.mp hlt
        exact h.verifies_ahead hreturn hadjacent hrotation hcounted (fun n => hserved (n + 1))
          hbase hasks (fun n => hnear.reached (n + 1)) (fun n => hlate (n + 1))
          (hmicros ▸ hstarted) hbefore hnear.near (hne hin) (hvalid hin) htrue
    · rcases hnear.ofSigner with hsigner | hsigner
      · -- dated after the rotation, and signed with the key before it
        subst hselected hsigner
        have hin := hadjacent.mem_before
        have hafter : rotation ≤ minute := by
          have hle : selected.startsAt.micros ≤ (momentRead (now 0) minute).micros := hstarted
          rw [hmicros, hrotation] at hle
          exact mul_microsPerMinute_le_iff.mp hle
        exact h.verifies_behind hreturn hadjacent hrotation (hbehind rfl rfl)
          (fun n => hserved (n + 1)) hbase hasks (fun n => hnear.reached (n + 1)) hafter
          hnear.near (hne hin) (hvalid hin) htrue
      · exact absurd (hselected.trans hsigner.symm) hsame

/-- **A genuine identifier near a rotation verifies.** An OWID dated within the drift
allowance of the rotation between two adjacent keys, in the period of one of them and
signed with either, is valid in a check from an empty cache. Where it is dated before the
rotation and signed with the key after it, the rotation has to have come, and the first
key's start has to be counted; where it is dated after and signed with the key before,
there has to be a minute before the rotation. -/
theorem signatureStatus_rotation (h : Published L P schedule) (hdistinct : Distinct schedule)
    {before after : DatedPublicKey} (hadjacent : Adjacent schedule before after) {rotation : Int}
    (hrotation : after.startsAt.micros = rotation * microsPerMinute) {turns : Nat → Turn}
    {now : Nat → DateTime}
    (hserved : ∀ n url, (turns n).reply url = serve L P schedule (now n) url) {owid : Owid}
    (hdomain : checkDomain owid.domain = .ok ()) {scheme : String}
    (hscheme : lower scheme ∈ acceptedSchemes) {minute : Nat}
    (hcount : minutesSinceBase owid.date = minute) {selected signer : DatedPublicKey}
    (hnear : NearRotation P schedule before after owid minute rotation now selected signer)
    (hahead : selected = before → signer = after →
      baseDate ≤ before.startsAt ∧ ∀ n, rotation * microsPerMinute ≤ (now n).micros)
    (hbehind : selected = after → signer = before → 0 < rotation) :
    (signatureStatus L P turns Cache.empty owid scheme).result = .ok .signatureValid := by
  have hminute : minute ≤ 0xFFFFFFFF := by
    have hlt := lt_lastMinute (hnear.reached 0)
    simp only [lastMinute] at hlt
    omega
  simp only [signatureStatus, publicKeyUrl_accepted hscheme hdomain hcount]
  exact h.verifies_atUrl hdistinct hadjacent hrotation hserved
    (endPoint_clean (isAlpha_of_accepted hscheme) hdomain)
    (fun m => asks_dateUrl hscheme hdomain m) hminute hcount hnear hahead hbehind

end Rotation

/-! ## Two keys -/

theorem rotated_adjacent {first second : DateTime} (h : first < second) :
    Adjacent (rotated h) (keyA first) (keyB second) :=
  ⟨rotated_keyInForce_first h (Int.le_refl _) h, rotated_next h,
    rotated_keyInForce_second h (Int.le_refl _)⟩

/-- The mark of `A` is 66, and that of `B` is 67. -/
theorem markedEnvelope_signed {first second : DateTime} (h : first < second) {count mark : Nat}
    (hcount : count ≤ maximumMinutes) {signer : DatedPublicKey}
    (hmark : (mark = 66 ∧ signer = keyA first) ∨ (mark = 67 ∧ signer = keyB second)) :
    SignedBy .plain (rotated h) (markedEnvelope count mark hcount).owid signer := by
  refine ⟨(markedEnvelope count mark hcount).signatureFits, ?_⟩
  intro key hkey crypto hread
  have hpems : "A" ≠ "B" := by decide
  have hbytes : Lib.encodeUtf8 (keyA first).publicKeyPem = [65] ∧
      Lib.encodeUtf8 (keyB second).publicKeyPem = [66] := by
    show Lib.encodeUtf8 "A" = [65] ∧ Lib.encodeUtf8 "B" = [66]
    decide
  have hmarks : mark = 66 ∨ mark = 67 := hmark.imp And.left And.left
  rw [markedEnvelope_verify hcount hmarks hread]
  -- each key against each mark
  rcases (mem_rotated h).mp hkey with ha | hb
  · rw [ha, hbytes.1]
    rcases hmark with ⟨hmark, hsigner⟩ | ⟨hmark, hsigner⟩
    · rw [hmark, hsigner, decide_eq_true rfl]
      decide
    · rw [hmark, hsigner, decide_eq_false fun he => hpems (congrArg DatedPublicKey.publicKeyPem he)]
      decide
  · rw [hb, hbytes.2]
    rcases hmark with ⟨hmark, hsigner⟩ | ⟨hmark, hsigner⟩
    · rw [hmark, hsigner,
        decide_eq_false fun he => hpems (congrArg DatedPublicKey.publicKeyPem he).symm]
      decide
    · rw [hmark, hsigner, decide_eq_true rfl]
      decide

/-- Dated ten minutes before a rotation, signed with the key after it. -/
theorem near_ahead {now : DateTime} (hnow : atMinute 90 (by decide) ≤ now) :
    NearRotation .plain (rotated secondStart_lt) (keyA baseDate) (keyB secondStart)
      (markedEnvelope 90 67 (by decide)).owid (90 : Nat) 100 (fun _ => now) (keyA baseDate)
      (keyB secondStart) := by
  have hdate : baseDate ≤ atMinute 90 (by decide) ∧ atMinute 90 (by decide) < secondStart := by
    decide
  exact ⟨Or.inl rfl,
    inForceAt_of_moment rfl (rotated_keyInForce_first secondStart_lt hdate.1 hdate.2), by decide,
    Or.inr rfl, markedEnvelope_signed secondStart_lt _ (Or.inr ⟨rfl, rfl⟩), fun _ => hnow⟩

theorem signatureStatus_rotation_ahead :
    (signatureStatus laterStdlib .plain
      (fun _ => servedTurn laterStdlib .plain (rotated secondStart_lt) (atMinute 120 (by decide)))
      Cache.empty (markedEnvelope 90 67 (by decide)).owid "https").result =
      .ok .signatureValid := by
  have hminute : (90 : Nat) ≤ maximumMinutes := by decide
  have hnow : atMinute 90 (by decide) ≤ atMinute 120 (by decide) := by decide
  have hlate : 100 * microsPerMinute ≤ (atMinute 120 (by decide)).micros := by decide
  exact signatureStatus_rotation later_published (rotated_distinct _) (rotated_adjacent _) rfl
    (fun _ => servedTurn_reply laterStdlib .plain (rotated secondStart_lt) _)
    (markedEnvelope_domain hminute) https_accepted (markedEnvelope_count hminute) (near_ahead hnow)
    (fun _ _ => ⟨Int.le_refl _, fun _ => hlate⟩) (fun _ _ => by decide)

/-! ## Where a genuine identifier does not verify -/

/-- Identifiers near a rotation verify wherever the condition holds of the first key, the
minute of the rotation and the creator's nows. -/
def VerifiesWhere (condition : DatedPublicKey → Int → (Nat → DateTime) → Prop) : Prop :=
  ∀ (L : Stdlib) (P : Provider Bytes Bytes) (schedule : PublicKeySchedule),
    Published L P schedule → Distinct schedule → ∀ before after, Adjacent schedule before after →
    ∀ rotation, after.startsAt.micros = rotation * microsPerMinute →
    ∀ (turns : Nat → Turn) (now : Nat → DateTime),
      (∀ n url, (turns n).reply url = serve L P schedule (now n) url) →
      condition before rotation now →
    ∀ owid, checkDomain owid.domain = .ok () → ∀ minute : Nat, minutesSinceBase owid.date = minute →
    ∀ selected signer,
      NearRotation P schedule before after owid minute rotation now selected signer →
      (signatureStatus L P turns Cache.empty owid "https").result = .ok .signatureValid

section Fails

variable {L : Stdlib} {P : Provider σ κ}

/-- A check whose selected key does not match, and no neighbour of whose does. -/
theorem signatureStatusAtUrl_unverified {turns : Nat → Turn} {cache : Cache} {owid : Owid}
    {url : String} {answer : KeyAnswer}
    (hok : (keyAtUrl L P (turns 0) cache url owid.domain).result = .ok answer)
    (hinvalid : owid.signatureStatus P answer.pem = .signatureInvalid)
    (hcount : 0 ≤ minutesSinceBase owid.date)
    (hnone : (neighbourVerifies L P (fun n => turns (n + 1))
      (keyAtUrl L P (turns 0) cache url owid.domain).cache owid (minutesSinceBase owid.date) url
      answer).result = .ok false) :
    (signatureStatusAtUrl L P turns cache owid url).result ≠ .ok .signatureValid := by
  simp only [signatureStatusAtUrl, hok, hinvalid, ne_eq, not_true_eq_false, if_false,
    if_neg (Int.not_lt.mpr hcount), hnone]
  intro h
  have hstatus := Except.ok.inj h
  simp only [if_neg Bool.false_ne_true] at hstatus
  split at hstatus
  · cases hstatus
  · cases hstatus

/-- After one key was obtained from an empty cache, the cache knows that key alone. -/
theorem keyAtUrl_empty_known {turn : Turn} {url domain : String} {answer : KeyAnswer}
    (hok : (keyAtUrl L P turn Cache.empty url domain).result = .ok answer) :
    Sound (fun _ _ pem => pem = answer.pem) (keyAtUrl L P turn Cache.empty url domain).cache := by
  have hobtained := keyAtUrl_obtained L P turn Cache.empty url domain
  generalize keyAtUrl L P turn Cache.empty url domain = out at hobtained hok ⊢
  cases hobtained with
  | served => exact Sound.empty
  | failed => exact Sound.empty
  | fetched =>
    cases hok
    rw [stated_pem]
    rw [hold_eq]
    simp only
    split
    next => exact Sound.empty
    next new hnew =>
      refine Sound.record ?_ Sound.empty ?_
      · intro e p
        exact ⟨fun a ha b hb m hm => ha⟩
      · intro m hfirst hlast
        exact confirmed_pem hnew

/-- A neighbour asked for while the selected key is still in force is that key. -/
theorem tryNeighbours_early {schedule : PublicKeySchedule} (h : Published L P schedule)
    {owid : Owid} {base : String} {minute : Nat} (hbase : Clean base)
    (hasks : ∀ m, asks (dateUrl base m) = true) {tried : KeyAnswer} {m : Nat}
    (hfield : m ≤ 0xFFFFFFFF) {turns : Nat → Turn} {now : DateTime}
    (hserved : ∀ n url, (turns n).reply url = serve L P schedule now url)
    (hlate : now.micros < (m : Int) * microsPerMinute) {key : DatedPublicKey}
    (hkey : schedule.keyInForce now = some key) (hpem : key.publicKeyPem = tried.pem)
    {cache : Cache} (hcache : Sound (fun _ _ pem => pem = tried.pem) cache) :
    (tryNeighbours L P owid (dateUrl base minute) tried turns cache [(m : Int)]).result =
      .ok false := by
  generalize hasked : keyAtUrl L P (turns 0) cache
    (dateUrl (endPointOf (dateUrl base minute)) (m : Int).toNat) owid.domain = asked
  have hstep := tryNeighbours_cons tried [] hasked
  generalize tryNeighbours L P owid (dateUrl base minute) tried turns cache [(m : Int)] = out
    at hstep ⊢
  rw [endPointOf_dateUrl hbase, Int.toNat_natCast] at hasked
  -- held or fetched, the key obtained is the one already tried
  have hsame : ∃ answer, asked.result = .ok answer ∧ answer.pem = tried.pem := by
    have hreply := hserved 0 (dateUrl base m)
    rw [h.serve_dateUrl now hbase hfield, momentRead_future hlate, hkey] at hreply
    have hobtained := keyAtUrl_obtained L P (turns 0) cache (dateUrl base m) owid.domain
    rw [hasked] at hobtained
    cases hobtained with
    | served hheld =>
      exact ⟨_, rfl, hcache.heldFor (namedMinute_dateUrl hbase hfield) hheld⟩
    | failed hfailed =>
      rw [h.fetch (hasks m) hkey hreply] at hfailed
      cases hfailed
    | fetched hok =>
      cases (h.fetch (hasks m) hkey hreply).symm.trans hok
      exact ⟨_, rfl, (stated_pem _ _ _).trans hpem⟩
  obtain ⟨answer, hanswer, hpem'⟩ := hsame
  cases hstep with
  | raised herror =>
    rw [hanswer] at herror
    cases herror
  | verified hok hne =>
    cases hanswer.symm.trans hok
    exact absurd hpem' hne
  | goOn => rfl

/-- A check whose selected key did not make the signature, and whose neighbours do not
verify it either. -/
theorem Published.unverified {schedule : PublicKeySchedule} (h : Published L P schedule)
    (hdistinct : Distinct schedule) {turns : Nat → Turn} {now : Nat → DateTime}
    (hserved : ∀ n url, (turns n).reply url = serve L P schedule (now n) url) {owid : Owid}
    (hdomain : checkDomain owid.domain = .ok ()) {scheme : String}
    (hscheme : lower scheme ∈ acceptedSchemes) {minute : Nat}
    (hcount : minutesSinceBase owid.date = minute)
    (hreached : (minute : Int) * microsPerMinute ≤ (now 0).micros)
    {selected signer : DatedPublicKey}
    (hmem : selected ∈ schedule.keys) (hforce : InForceAt schedule minute selected.publicKeyPem)
    (hsigned : SignedBy P schedule owid signer) (hne : selected ≠ signer)
    (hnone : ∀ base cache, Clean base → (∀ m, asks (dateUrl base m) = true) →
      Sound (fun _ _ pem => pem = selected.publicKeyPem) cache →
      (Fetch.neighbourVerifies L P (fun n => turns (n + 1)) cache owid minute (dateUrl base minute)
        (Fetch.stated selected.publicKeyPem (minutesOrNone (some selected.startsAt))
          (minutesOrNone (schedule.nextStartAfter selected)))).result = .ok false) :
    (signatureStatus L P turns Cache.empty owid scheme).result ≠ .ok .signatureValid := by
  have hfield : minute ≤ 0xFFFFFFFF := by
    have hlt := lt_lastMinute hreached
    simp only [lastMinute] at hlt
    omega
  have hbase : Clean (endPoint scheme owid.domain owid.version) :=
    endPoint_clean (isAlpha_of_accepted hscheme) hdomain
  have hasks : ∀ m, asks (dateUrl (endPoint scheme owid.domain owid.version) m) = true :=
    fun m => asks_dateUrl hscheme hdomain m
  -- the key selected is the one in force, and it did not make the signature
  have hkey := hdistinct.keyInForce hmem (momentRead_micros hreached) hforce
  have hok := (h.keyAtUrl_hold hbase hfield (hasks minute) (hserved 0 _) hkey
    (heldFor_empty _ _ _) owid.domain).1
  have hinvalid : owid.signatureStatus P selected.publicKeyPem = .signatureInvalid := by
    rw [hsigned.status h.toServable hmem, if_neg hne]
  have hdate : 0 ≤ minutesSinceBase owid.date := by
    rw [hcount]
    exact Int.natCast_nonneg minute
  have hknown := keyAtUrl_empty_known hok
  rw [stated_pem] at hknown
  simp only [signatureStatus, publicKeyUrl_accepted hscheme hdomain hcount]
  refine signatureStatusAtUrl_unverified hok (by rw [stated_pem]; exact hinvalid) hdate ?_
  rw [hcount]
  exact hnone _ _ hbase hasks hknown

end Fails

/-- One failing check refutes every claim whose condition it meets. -/
theorem not_verifiesWhere {condition : DatedPublicKey → Int → (Nat → DateTime) → Prop}
    {first second : DateTime} (h : first < second) {firstText secondText : String}
    (htexts : TextsFit firstText secondText) (hfirst : first.micros % microsPerMinute = 0)
    {rotation : Int} (hsecond : second.micros = rotation * microsPerMinute) {now : DateTime}
    (hcondition : condition (keyA first) rotation fun _ => now) {count mark : Nat}
    (hcount : count ≤ maximumMinutes) {selected signer : DatedPublicKey}
    (hnear : NearRotation .plain (rotated h) (keyA first) (keyB second)
      (markedEnvelope count mark hcount).owid count rotation (fun _ => now) selected signer)
    (hne : selected ≠ signer)
    (hnone : ∀ turns : Nat → Turn,
      (∀ n url, (turns n).reply url =
        serve (rotatedStdlib first second firstText secondText) .plain (rotated h) now url) →
      ∀ base cache, Clean base → (∀ m, asks (dateUrl base m) = true) →
      Sound (fun _ _ pem => pem = selected.publicKeyPem) cache →
      (neighbourVerifies (rotatedStdlib first second firstText secondText) .plain turns cache
        (markedEnvelope count mark hcount).owid count (dateUrl base count)
        (stated selected.publicKeyPem (minutesOrNone (some selected.startsAt))
          (minutesOrNone ((rotated h).nextStartAfter selected)))).result = .ok false) :
    ¬ VerifiesWhere condition := by
  have hwhole : second.micros % microsPerMinute = 0 := by
    rw [hsecond]
    exact Int.mul_emod_left ..
  have hpublished := rotated_published h htexts hfirst hwhole
  have hmem : selected ∈ (rotated h).keys := (mem_rotated h).mpr hnear.ofSelected
  generalize rotatedStdlib first second firstText secondText = L at hpublished hnone
  have hserved : ∀ (n : Nat) (url : String), (servedTurn L .plain (rotated h) now).reply url =
      serve L .plain (rotated h) now url :=
    fun _ => servedTurn_reply L .plain (rotated h) now
  -- the claim makes the check valid, and the check is not
  intro hall
  have hvalid := hall L .plain (rotated h) hpublished (rotated_distinct h) _ _ (rotated_adjacent h)
    rotation hsecond _ _ hserved hcondition _ (markedEnvelope_domain hcount) count
    (markedEnvelope_count hcount) selected signer hnear
  exact hpublished.unverified (rotated_distinct h) hserved (markedEnvelope_domain hcount)
    https_accepted (markedEnvelope_count hcount) (hnear.reached 0) hmem hnear.inForce hnear.signed
    hne (hnone _ hserved) hvalid

/-- A hundred minutes before the base date. -/
def earlyStart : DateTime := ⟨-100 * microsPerMinute, by decide⟩

/-- Ten minutes before a rotation, signed with the key after it, and checked five minutes
later. -/
theorem not_verifiesWhere_early :
    ¬ VerifiesWhere fun before rotation _ => baseDate ≤ before.startsAt ∧ 0 < rotation := by
  let now : DateTime := atMinute 95 (by decide)
  have hnow : atMinute 90 (by decide) ≤ now := by decide
  have hbefore : baseDate ≤ now ∧ now < secondStart := by decide
  have hlate : now.micros < ((100 : Nat) : Int) * microsPerMinute := by decide
  have hfield : (100 : Nat) ≤ 0xFFFFFFFF := by decide
  refine not_verifiesWhere secondStart_lt later_texts rfl rfl ⟨Int.le_refl _, by decide⟩ _
    (near_ahead hnow) (rotated_adjacent secondStart_lt).ne ?_
  intro turns hserved base cache hbase hasks hcache
  -- the creator is asked for minute 100, and answers with the key of its now
  have hspan : stated (keyA baseDate).publicKeyPem
      (minutesOrNone (some (keyA baseDate).startsAt)) (minutesOrNone (some secondStart)) =
      ⟨"A", 0, 99, true⟩ := by decide
  have hbeyond : beyond (90 : Nat) ⟨"A", 0, 99, true⟩ = [((100 : Nat) : Int)] := by decide
  rw [rotated_next, hspan, neighbourVerifies, if_neg Bool.noConfusion, hbeyond]
  exact tryNeighbours_early later_published hbase hasks hfield hserved hlate
    (rotated_keyInForce_first secondStart_lt hbefore.1 hbefore.2) rfl hcache

/-- Ten minutes before a rotation, signed with the key after it, where the key before it
started in 2019. -/
theorem not_verifiesWhere_uncounted :
    ¬ VerifiesWhere fun _ rotation now =>
      0 < rotation ∧ ∀ n, rotation * microsPerMinute ≤ (now n).micros := by
  have hlt : earlyStart < secondStart := by decide
  have htexts : TextsFit "2019-12-31T22:20:00Z" "2020-01-01T01:40:00Z" :=
    ⟨by decide, by decide, by decide⟩
  have hminute : (90 : Nat) ≤ maximumMinutes := by decide
  let now : DateTime := atMinute 120 (by decide)
  have hlate : 100 * microsPerMinute ≤ now.micros := by decide
  have hnear : NearRotation .plain (rotated hlt) (keyA earlyStart) (keyB secondStart)
      (markedEnvelope 90 67 hminute).owid (90 : Nat) 100 (fun _ => now) (keyA earlyStart)
      (keyB secondStart) := by
    refine ⟨Or.inl rfl, ?_, by decide, Or.inr rfl,
      markedEnvelope_signed hlt hminute (Or.inr ⟨rfl, rfl⟩), fun _ => by decide⟩
    have hdate : earlyStart ≤ atMinute 90 (by decide) ∧ atMinute 90 (by decide) < secondStart := by
      decide
    exact inForceAt_of_moment rfl (rotated_keyInForce_first hlt hdate.1 hdate.2)
  refine not_verifiesWhere hlt htexts rfl rfl ⟨by decide, fun _ => hlate⟩ hminute hnear
    (rotated_adjacent hlt).ne ?_
  -- the first key has no counted span, and no neighbour is asked for
  intro turns hserved base cache hbase hasks hcache
  rfl

/-- Five minutes after a rotation at the base date, signed with the key before it. -/
theorem not_verifiesWhere_atBase :
    ¬ VerifiesWhere fun _ rotation now => ∀ n, rotation * microsPerMinute ≤ (now n).micros := by
  have hlt : earlyStart < baseDate := by decide
  have htexts : TextsFit "2019-12-31T22:20:00Z" "2020-01-01T00:00:00Z" :=
    ⟨by decide, by decide, by decide⟩
  have hminute : (5 : Nat) ≤ maximumMinutes := by decide
  let now : DateTime := atMinute 10 (by decide)
  have hlate : 0 * microsPerMinute ≤ now.micros := by decide
  have hnear : NearRotation .plain (rotated hlt) (keyA earlyStart) (keyB baseDate)
      (markedEnvelope 5 66 hminute).owid (5 : Nat) 0 (fun _ => now) (keyB baseDate)
      (keyA earlyStart) := by
    refine ⟨Or.inr rfl, ?_, by decide, Or.inl rfl,
      markedEnvelope_signed hlt hminute (Or.inl ⟨rfl, rfl⟩), fun _ => by decide⟩
    have hdate : baseDate ≤ atMinute 5 (by decide) := by decide
    exact inForceAt_of_moment rfl (rotated_keyInForce_second hlt hdate)
  refine not_verifiesWhere hlt htexts rfl rfl (fun _ => hlate) hminute hnear
    (rotated_adjacent hlt).ne.symm ?_
  -- the span starts at minute 0, and there is no minute before it
  intro turns hserved base cache hbase hasks hcache
  rw [rotated_last]
  rfl

/-- A genuine identifier near a rotation need not verify: not where the rotation has not
come, not where the first key's start is not counted, and not where there is no minute
before the rotation. -/
theorem signatureStatus_rotation_fails :
    ¬ VerifiesWhere (fun _ _ _ => True) ∧
      ¬ VerifiesWhere (fun before rotation _ => baseDate ≤ before.startsAt ∧ 0 < rotation) ∧
      ¬ VerifiesWhere (fun _ rotation now =>
        0 < rotation ∧ ∀ n, rotation * microsPerMinute ≤ (now n).micros) ∧
      ¬ VerifiesWhere (fun _ rotation now => ∀ n, rotation * microsPerMinute ≤ (now n).micros) := by
  refine ⟨?_, not_verifiesWhere_early, not_verifiesWhere_uncounted, not_verifiesWhere_atBase⟩
  intro hall
  refine not_verifiesWhere_early ?_
  intro L P schedule hpublished hdistinct before after hadjacent rotation hrotation turns now
    hserved _
  exact hall L P schedule hpublished hdistinct before after hadjacent rotation hrotation turns now
    hserved trivial

end Fetch

end OpenWebId
