import OpenWebId.Plain

/-!
# Checking against the end point agrees with checking against the schedule

A creator has its schedule at hand, and everyone else asks the end point. The verdicts
agree: whatever was checked before, the status of an OWID that was read is the status
its creator's schedule gives, or the signature is valid under the key in force just
beyond an edge of the selected key's period.

The argument has three layers. Every check keeps the cache true (`signatureStatus_keeps`
says a check does to the cache only what obtaining one key does). The loop over the
neighbours finds only keys in force just beyond an edge (`tryNeighbours_found`). The
check itself then follows the source case by case (`signatureStatusAtUrl_agrees`).
-/

namespace OpenWebId

open Lib (Reaches)

variable {σ κ : Type}

namespace Fetch

section Agreement

variable {L : Stdlib} {P : Provider σ κ} {schedule : PublicKeySchedule}

/-- A key obtained from the creator, whatever was asked, keeps the cache true. -/
theorem Published.keyAtUrl_trueTo (h : Published L P schedule) (hreturn : NoReturn schedule)
    (hstarts : ∀ key ∈ schedule.keys, baseDate ≤ key.startsAt) {cache : Cache}
    (hcache : TrueTo schedule cache) {turn : Turn} {now : DateTime} {url domain : String}
    (hreply : turn.reply url = serve L P schedule now url) :
    TrueTo schedule (Fetch.keyAtUrl L P turn cache url domain).cache := by
  have hobtained := keyAtUrl_obtained L P turn cache url domain
  generalize Fetch.keyAtUrl L P turn cache url domain = out at hobtained ⊢
  cases hobtained with
  | served => exact hcache
  | failed => exact hcache
  | fetched hfetch =>
    obtain ⟨hasks, body, -, -, -, hbody, -⟩ := fetch_ok hfetch
    obtain ⟨asked, key, hkey, htext⟩ := h.serve_ok (hreply.symm.trans hbody)
    rw [htext] at hbody
    cases (h.fetch hasks hkey hbody).symm.trans hfetch
    have hmem := (PublicKeySchedule.keyInForce_eq_some.mp hkey).mem
    exact h.hold hreturn hcache hkey (Or.inl (hstarts key hmem))

/-- The creator answers every request of the check, at a now of its own for each. -/
def ServedBy (L : Stdlib) (P : Provider σ κ) (schedule : PublicKeySchedule) (_ : Session) :
    SessionEvent → Prop
  | .check turns _ _ => ∀ n, ∃ now, ∀ url, (turns n).reply url = serve L P schedule now url
  | .clearCache => True

/-- One event of a process that only this creator answers keeps the cache true. -/
theorem Published.sessionStep (h : Published L P schedule) (hreturn : NoReturn schedule)
    (hstarts : ∀ key ∈ schedule.keys, baseDate ≤ key.startsAt) {s s' : Session}
    {event : SessionEvent} (hcache : TrueTo schedule s.cache) (hok : ServedBy L P schedule s event)
    (hstep : Fetch.sessionStep L P s event = some s') : TrueTo schedule s'.cache := by
  cases event with
  | clearCache =>
    cases hstep
    exact Sound.empty
  | check turns owid scheme =>
    cases hstep
    refine signatureStatus_keeps (I := fun _ => TrueTo schedule)
      (A := fun turn => ∃ now, ∀ url, turn.reply url = serve L P schedule now url) ?_ hok s.log
      hcache
    intro turn log cache url domain hturn hcache
    obtain ⟨now, hreply⟩ := hturn
    exact h.keyAtUrl_trueTo hreturn hstarts hcache (hreply url)

/-! ## The neighbours -/

/-- The signature verifies under the PEM in force just beyond an edge of the run of
minutes that this PEM is in force at, an edge that the minute is near. -/
def VerifiesBeyond (P : Provider σ κ) (schedule : PublicKeySchedule) (owid : Owid) (minute : Int)
    (pem : String) : Prop :=
  ∃ edge past other,
    ((IsLeast {m | InForceAt schedule m pem} edge ∧ past = edge - 1) ∨
      (IsGreatest {m | InForceAt schedule m pem} edge ∧ past = edge + 1)) ∧
    (minute - edge).natAbs ≤ clockDriftAllowanceMinutes ∧ InForceAt schedule past other ∧
    owid.signatureStatus P other = .signatureValid

/-- A minute before which another PEM is in force is the first of its run. -/
theorem isLeast_of_before (hreturn : NoReturn schedule) {edge : Int} {pem other : String}
    (hedge : InForceAt schedule edge pem) (hbefore : InForceAt schedule (edge - 1) other)
    (hne : other ≠ pem) : IsLeast {m | InForceAt schedule m pem} edge := by
  refine ⟨hedge, fun m hm => Int.not_lt.mp fun hlt => ?_⟩
  have hmid : edge - 1 ∈ Set.Icc m edge :=
    ⟨Int.le_sub_one_of_lt hlt, Int.sub_le_self _ (by decide)⟩
  exact hne (hbefore.unique ((inForceAt_run hreturn pem).out hm hedge hmid))

theorem isGreatest_of_after (hreturn : NoReturn schedule) {edge : Int} {pem other : String}
    (hedge : InForceAt schedule edge pem) (hafter : InForceAt schedule (edge + 1) other)
    (hne : other ≠ pem) : IsGreatest {m | InForceAt schedule m pem} edge := by
  refine ⟨hedge, fun m hm => Int.not_lt.mp fun hlt => ?_⟩
  have hmid : edge + 1 ∈ Set.Icc edge m := ⟨Int.le_add_of_nonneg_right (by decide), hlt⟩
  exact hne (hafter.unique ((inForceAt_run hreturn pem).out hedge hm hmid))

/-- The key in force at a moment is the key of the moment's minute. -/
theorem Servable.inForceAt_minute (h : Servable L P schedule) {now : DateTime}
    {key : DatedPublicKey} (hkey : schedule.keyInForce now = some key) :
    InForceAt schedule (now.micros / microsPerMinute) key.publicKeyPem := by
  obtain ⟨hstarted, hbefore⟩ := PublicKeySchedule.keyInForce_bounds hkey
  refine h.counts hkey (Int.ediv_le_ediv microsPerMinute_pos hstarted) (fun next hnext => ?_)
    (minute_le_maxMoment now (Int.le_refl _))
  have hlt : now.micros < next.micros := hbefore next hnext
  rw [← micros_eq_of_whole (h.nextWhole hnext)] at hlt
  exact Int.ediv_lt_of_lt_mul microsPerMinute_pos hlt

/-- What is learned of a minute the loop over the neighbours asks about. -/
theorem Published.neighbour (h : Published L P schedule) (hreturn : NoReturn schedule)
    {cache : Cache} (hcache : TrueTo schedule cache) {turn : Turn} {now : DateTime} {base : String}
    (hbase : Clean base) (hasks : ∀ m, asks (dateUrl base m) = true)
    (hreply : ∀ url, turn.reply url = serve L P schedule now url) {m : Int}
    (hfield : m ≤ lastMinute)
    (hcounted : (∀ key ∈ schedule.keys, baseDate ≤ key.startsAt) ∨
      ((m.toNat : Nat) : Int) * microsPerMinute ≤ now.micros) {minute : Nat} {domain : String}
    {out : Outcome KeyAnswer}
    (hout : Fetch.keyAtUrl L P turn cache (dateUrl (endPointOf (dateUrl base minute)) m.toNat)
      domain = out) :
    TrueTo schedule out.cache ∧ Learned schedule now m.toNat out.result := by
  have hnat : m.toNat ≤ 0xFFFFFFFF := by
    simp only [lastMinute] at hfield
    omega
  rw [endPointOf_dateUrl hbase] at hout
  exact h.keyAtUrl hreturn hcache hbase hnat (hasks _) (hreply _) hcounted hout

/-- The minutes a loop over the neighbours asks about are in the field's range, and one
that is still in the creator's future is past minutes of the key tried that are not. -/
structure Askable (schedule : PublicKeySchedule) (pem : String) (now : Nat → DateTime)
    (minute : Int) : Prop where
  nonneg : 0 ≤ minute
  inField : minute ≤ lastMinute
  future : ∀ n, (now n).micros < minute * microsPerMinute → ∀ key,
    schedule.keyInForce (now n) = some key → key.publicKeyPem = pem

theorem Askable.shift {pem : String} {now : Nat → DateTime} {minute : Int}
    (h : Askable schedule pem now minute) : Askable schedule pem (fun n => now (n + 1)) minute :=
  ⟨h.nonneg, h.inField, fun n => h.future (n + 1)⟩

/-- **What the loop over the neighbours finds.** It never raises, and a key it finds is in
force at a minute asked about, is another key, and verifies. -/
theorem tryNeighbours_found (h : Published L P schedule) (hreturn : NoReturn schedule)
    (hstarts : ∀ key ∈ schedule.keys, baseDate ≤ key.startsAt) {owid : Owid} {base : String}
    {minute : Nat} (hbase : Clean base) (hasks : ∀ m, asks (dateUrl base m) = true)
    {tried : KeyAnswer} {minutes : List Int} {turns : Nat → Turn} {now : Nat → DateTime}
    (hserved : ∀ n url, (turns n).reply url = serve L P schedule (now n) url)
    (hminutes : ∀ m ∈ minutes, Askable schedule tried.pem now m) {cache : Cache}
    (hcache : TrueTo schedule cache) {result : Except PyExc Bool}
    (hresult : (tryNeighbours L P owid (dateUrl base minute) tried turns cache minutes).result =
      result) :
    result = .ok false ∨
      (result = .ok true ∧ ∃ m ∈ minutes, ∃ other, InForceAt schedule m other ∧
        other ≠ tried.pem ∧ owid.signatureStatus P other = .signatureValid) := by
  induction minutes generalizing turns now cache with
  | nil => exact Or.inl hresult.symm
  | cons m minutes ih =>
    have hm := hminutes m (List.mem_cons_self ..)
    have hcount := Int.toNat_of_nonneg hm.nonneg
    generalize hasked : Fetch.keyAtUrl L P (turns 0) cache
      (dateUrl (endPointOf (dateUrl base minute)) m.toNat) owid.domain = asked
    have hstep := tryNeighbours_cons tried minutes hasked
    obtain ⟨htrue, hlearned⟩ := h.neighbour hreturn hcache hbase hasks (hserved 0) hm.inField
      (Or.inl hstarts) hasked
    generalize tryNeighbours L P owid (dateUrl base minute) tried turns cache (m :: minutes) = out
      at hstep hresult
    cases hstep with
    | raised herror hnot =>
      rw [herror] at hlearned
      cases hlearned with
      | none _ howid =>
        rw [howid] at hnot
        cases hnot
    | @verified neighbour hok hpem hvalid =>
      rw [hok] at hlearned
      cases hlearned with
      | key _ hpast hfuture =>
        rw [hcount] at hpast hfuture
        refine Or.inr ⟨hresult.symm, m, List.mem_cons_self .., neighbour.pem, ?_, hpem, hvalid⟩
        rcases Int.lt_or_le (now 0).micros (m * microsPerMinute) with hlt | hle
        · rcases hfuture hlt with hforce | hnow
          · exact hforce
          · -- the creator answered for its now, and that is the key already tried
            obtain ⟨key, hkey, hsame⟩ := hnow
            exact absurd (hsame.symm.trans (hm.future 0 hlt key hkey)) hpem
        · exact (hpast hle).1
    | goOn =>
      rcases ih (fun n => hserved (n + 1))
        (fun m' hm' => (hminutes m' (List.mem_cons_of_mem _ hm')).shift) htrue hresult
        with hnone | ⟨htrue', m', hm', hfound⟩
      · exact Or.inl hnone
      · exact Or.inr ⟨htrue', m', List.mem_cons_of_mem _ hm', hfound⟩

/-! ## The check -/

theorem mem_beyond {minute m : Int} {tried : KeyAnswer} :
    m ∈ beyond minute tried ↔
      (m = tried.first - 1 ∧ 0 < tried.first ∧
        (minute - tried.first).natAbs ≤ clockDriftAllowanceMinutes) ∨
      (m = tried.last + 1 ∧ tried.last < lastMinute ∧
        (minute - tried.last).natAbs ≤ clockDriftAllowanceMinutes) := by
  unfold beyond nearEdge
  rw [List.mem_append]
  refine or_congr ?_ ?_
  · split
    next h =>
      rw [List.mem_singleton]
      exact (and_iff_left ⟨h.1, of_decide_eq_true h.2⟩).symm
    next h =>
      refine ⟨fun hm => (List.not_mem_nil hm).elim, fun hm => ?_⟩
      exact absurd ⟨hm.2.1, decide_eq_true hm.2.2⟩ h
  · split
    next h =>
      rw [List.mem_singleton]
      exact (and_iff_left ⟨h.1, of_decide_eq_true h.2⟩).symm
    next h =>
      refine ⟨fun hm => (List.not_mem_nil hm).elim, fun hm => ?_⟩
      exact absurd ⟨hm.2.1, decide_eq_true hm.2.2⟩ h

theorem length_beyond (minute : Int) (tried : KeyAnswer) : (beyond minute tried).length ≤ 2 := by
  unfold beyond
  rw [List.length_append]
  have hfirst : (if tried.first > 0 ∧ nearEdge minute tried.first then [tried.first - 1]
      else []).length ≤ 1 := by split <;> simp
  have hlast : (if tried.last < lastMinute ∧ nearEdge minute tried.last then [tried.last + 1]
      else []).length ≤ 1 := by split <;> simp
  exact Nat.add_le_add hfirst hlast

/-- A minute that some clock has reached is in the field's range. -/
theorem lt_lastMinute {minute : Int} {now : DateTime}
    (h : minute * microsPerMinute ≤ now.micros) : minute < lastMinute := by
  have hmax := now.inRange.2
  simp only [maxMoment, microsPerMinute, microsPerDay, microsPerHour, microsPerSecond,
    lastMinute] at h hmax ⊢
  omega

/-- The minutes just beyond the edges of an honest span that covers a minute up to the
creator's now can be asked about. -/
theorem Servable.beyond_askable (h : Servable L P schedule) (hreturn : NoReturn schedule)
    {tried : KeyAnswer} (honest : Honest schedule tried) (hknown : tried.known = true)
    {minute : Int} (hminute : 0 ≤ minute) (hcovers : tried.covers minute = true)
    (hforce : InForceAt schedule minute tried.pem) {now : Nat → DateTime}
    (hnow : ∀ n, minute * microsPerMinute ≤ (now n).micros) {m : Int}
    (hm : m ∈ beyond minute tried) : Askable schedule tried.pem now m := by
  rw [KeyAnswer.covers, hknown, Bool.true_and] at hcovers
  obtain ⟨hfirst, hlast⟩ := of_decide_eq_true hcovers
  have hfield := lt_lastMinute (hnow 0)
  rcases mem_beyond.mp hm with ⟨hbefore, hpos, -⟩ | ⟨hafter, hend, -⟩
  · refine ⟨by omega, by omega, fun n hlate => ?_⟩
    -- the minute before the span is behind the OWID's, and so is not in the future
    have hle := hnow n
    simp only [microsPerMinute, microsPerSecond] at hle hlate
    omega
  · refine ⟨by omega, by omega, fun n hlate key hkey => ?_⟩
    -- now is between the OWID's minute and the last of the span
    have hle := hnow n
    have hmid : (now n).micros / microsPerMinute ∈ Set.Icc minute tried.last := by
      simp only [microsPerMinute, microsPerSecond] at hle hlate
      constructor
      · show minute ≤ (now n).micros / microsPerMinute
        simp only [microsPerMinute, microsPerSecond]
        omega
      · show (now n).micros / microsPerMinute ≤ tried.last
        simp only [microsPerMinute, microsPerSecond]
        omega
    have hthen := (inForceAt_run hreturn tried.pem).out hforce (honest.last hknown hend) hmid
    exact (h.inForceAt_minute hkey).unique hthen

/-- A key found just beyond an edge is one the verdict may rest on. -/
theorem verifiesBeyond_of_mem (hreturn : NoReturn schedule) {owid : Owid} {tried : KeyAnswer}
    (honest : Honest schedule tried) (hknown : tried.known = true) {minute m : Int}
    (hm : m ∈ beyond minute tried) {other : String} (hother : InForceAt schedule m other)
    (hne : other ≠ tried.pem) (hvalid : owid.signatureStatus P other = .signatureValid) :
    VerifiesBeyond P schedule owid minute tried.pem := by
  rcases mem_beyond.mp hm with ⟨hbefore, hpos, hnear⟩ | ⟨hafter, hend, hnear⟩
  · subst hbefore
    have hleast := isLeast_of_before hreturn (honest.first hknown) hother hne
    exact ⟨tried.first, _, other, Or.inl ⟨hleast, rfl⟩, hnear, hother, hvalid⟩
  · subst hafter
    have hgreatest := isGreatest_of_after hreturn (honest.last hknown hend) hother hne
    exact ⟨tried.last, _, other, Or.inr ⟨hgreatest, rfl⟩, hnear, hother, hvalid⟩

/-- **Whether a neighbouring key verifies**, for an answer that was learned. -/
theorem Published.neighbourVerifies (h : Published L P schedule) (hreturn : NoReturn schedule)
    (hstarts : ∀ key ∈ schedule.keys, baseDate ≤ key.startsAt) {turns : Nat → Turn}
    {now : Nat → DateTime}
    (hserved : ∀ n url, (turns n).reply url = serve L P schedule (now n) url) {cache : Cache}
    (hcache : TrueTo schedule cache) {base : String} (hbase : Clean base)
    (hasks : ∀ m, asks (dateUrl base m) = true) {tried : KeyAnswer}
    (honest : Honest schedule tried) {minute : Nat}
    (hcovers : tried.known = true → tried.covers minute = true)
    (hforce : InForceAt schedule minute tried.pem)
    (hnow : ∀ n, (minute : Int) * microsPerMinute ≤ (now n).micros) {owid : Owid}
    {result : Except PyExc Bool}
    (hresult : (Fetch.neighbourVerifies L P turns cache owid minute (dateUrl base minute)
      tried).result = result) :
    result = .ok false ∨
      (result = .ok true ∧ VerifiesBeyond P schedule owid minute tried.pem) := by
  unfold Fetch.neighbourVerifies at hresult
  split at hresult
  next => exact Or.inl hresult.symm
  next hknown =>
    rw [Bool.not_eq_false] at hknown
    have hfound := tryNeighbours_found h hreturn hstarts hbase hasks hserved
      (fun m hm => h.beyond_askable hreturn honest hknown (Int.natCast_nonneg minute)
        (hcovers hknown) hforce hnow hm) hcache hresult
    rcases hfound with hnone | ⟨hsome, m, hm, other, hother, hne, hvalid⟩
    · exact Or.inl hnone
    · exact Or.inr ⟨hsome, verifiesBeyond_of_mem hreturn honest hknown hm hother hne hvalid⟩

/-- The schedule's verdict under the key in force at the OWID's minute. -/
theorem signatureStatus_of_inForceAt {owid : Owid} {minute : Int} {pem : String}
    (hdate : owid.date.micros = minute * microsPerMinute) (h : InForceAt schedule minute pem) :
    schedule.signatureStatus P owid = owid.signatureStatus P pem := by
  obtain ⟨moment, key, hmicros, hkey, hpem⟩ := h
  have hsame : moment = owid.date := DateTime.ext (hmicros.trans hdate.symm)
  rw [PublicKeySchedule.signatureStatus, ← hsame, hkey, ← hpem]

theorem signatureStatus_of_none {owid : Owid} {minute : Int}
    (hdate : owid.date.micros = minute * microsPerMinute)
    (h : ∀ pem, ¬ InForceAt schedule minute pem) :
    schedule.signatureStatus P owid = .keyUnavailable := by
  rw [PublicKeySchedule.signatureStatus]
  split
  next => rfl
  next key hkey => exact absurd (inForceAt_of_moment hdate hkey) (h _)

/-- **The check at a URL that names the OWID's own minute.** -/
theorem Published.signatureStatusAtUrl (h : Published L P schedule) (hreturn : NoReturn schedule)
    (hstarts : ∀ key ∈ schedule.keys, baseDate ≤ key.startsAt) {cache : Cache}
    (hcache : TrueTo schedule cache) {turns : Nat → Turn} {now : Nat → DateTime}
    (hserved : ∀ n url, (turns n).reply url = serve L P schedule (now n) url) {base : String}
    (hbase : Clean base) (hasks : ∀ m, asks (dateUrl base m) = true) {owid : Owid} {minute : Nat}
    (hminute : minute ≤ 0xFFFFFFFF) (hdate : owid.date.micros = minute * microsPerMinute)
    (hnow : ∀ n, owid.date ≤ now n) {result : Except PyExc SignatureStatus}
    (hresult : (Fetch.signatureStatusAtUrl L P turns cache owid (dateUrl base minute)).result =
      result) :
    result = .ok (schedule.signatureStatus P owid) ∨
      (result = .ok .signatureValid ∧ schedule.signatureStatus P owid = .signatureInvalid ∧
        ∃ pem, InForceAt schedule minute pem ∧
          VerifiesBeyond P schedule owid minute pem) := by
  have hpastNow : ∀ n, (minute : Int) * microsPerMinute ≤ (now n).micros := by
    intro n
    rw [← hdate]
    exact hnow n
  have hcount := minutesSinceBase_of_whole hdate
  generalize hasked : Fetch.keyAtUrl L P (turns 0) cache (dateUrl base minute) owid.domain = asked
  obtain ⟨htrue, hlearned⟩ := h.keyAtUrl hreturn hcache hbase hminute (hasks _) (hserved 0 _)
    (Or.inl hstarts) hasked
  simp only [Fetch.signatureStatusAtUrl, hasked, hcount] at hresult
  split at hresult
  -- no key: neither the client nor the schedule has one for the minute
  next e herror =>
    rw [herror] at hlearned
    cases hlearned with
    | none hstatus _ hpast =>
      rw [hstatus] at hresult
      rw [signatureStatus_of_none hdate (hpast (hpastNow 0))]
      exact Or.inl hresult.symm
  next answer hok =>
    rw [hok] at hlearned
    cases hlearned with
    | key honest hpast _ =>
      obtain ⟨hforce, hcovers⟩ := hpast (hpastNow 0)
      rw [signatureStatus_of_inForceAt hdate hforce]
      split at hresult
      next => exact Or.inl hresult.symm
      next hinvalid =>
        rw [Decidable.not_not] at hinvalid
        rw [if_neg (Int.not_lt.mpr (Int.natCast_nonneg minute))] at hresult
        -- the minute asked about is in the span, so the failure is not called unavailable
        have hnot : ¬ (answer.known = true ∧ answer.covers minute = false) := by
          intro hboth
          rw [hcovers hboth.1] at hboth
          exact Bool.noConfusion hboth.2
        rw [if_neg hnot] at hresult
        generalize htried : Fetch.neighbourVerifies L P (fun n => turns (n + 1)) asked.cache owid
          minute (dateUrl base minute) answer = tried at hresult
        rcases h.neighbourVerifies hreturn hstarts (fun n => hserved (n + 1)) htrue hbase hasks
          honest hcovers hforce (fun n => hpastNow (n + 1)) (congrArg Outcome.result htried)
          with hnone | ⟨hsome, hbeyond⟩
        · rw [hnone] at hresult
          exact Or.inl hresult.symm
        · rw [hsome] at hresult
          exact Or.inr ⟨hresult.symm, hinvalid, answer.pem, hforce, hbeyond⟩

/-- A key that is held is not asked for. -/
theorem keyAtUrl_held {turn : Turn} {cache : Cache} {base : String}
    {minute : Nat} {answer : KeyAnswer} (hbase : Clean base)
    (hheld : heldFor cache turn.heldNow base (dateUrl base minute) = some answer)
    (domain : String) :
    (keyAtUrl L P turn cache (dateUrl base minute) domain).result = .ok answer := by
  simp only [keyAtUrl, endPointOf_dateUrl hbase, hheld]

/-- A check that has its verdict from the selected key. -/
theorem signatureStatusAtUrl_selected {turns : Nat → Turn} {cache : Cache} {owid : Owid}
    {url : String} {answer : KeyAnswer}
    (hok : (keyAtUrl L P (turns 0) cache url owid.domain).result = .ok answer)
    (hvalid : owid.signatureStatus P answer.pem = .signatureValid) :
    (signatureStatusAtUrl L P turns cache owid url).cache =
      (keyAtUrl L P (turns 0) cache url owid.domain).cache := by
  simp only [signatureStatusAtUrl, hok, hvalid, ne_eq, reduceCtorEq, not_false_eq_true, if_true]

/-- A check whose OWID is signed with the selected key leaves that key held. -/
theorem Published.signatureStatus_selected (h : Published L P schedule) {turns : Nat → Turn}
    {now : DateTime} (hserved : ∀ url, (turns 0).reply url = serve L P schedule now url)
    {owid : Owid} (hdomain : checkDomain owid.domain = .ok ()) {scheme : String}
    (hscheme : lower scheme ∈ acceptedSchemes) {minute : Nat} (hminute : minute ≤ 0xFFFFFFFF)
    (hcount : minutesSinceBase owid.date = minute) {key : DatedPublicKey}
    (hkey : schedule.keyInForce (momentRead now minute) = some key)
    (hvalid : owid.signatureStatus P key.publicKeyPem = .signatureValid) {base : String}
    (hbase : endPoint scheme owid.domain owid.version = base) {cache : Cache}
    (hheld : heldFor cache (turns 0).heldNow base (dateUrl base minute) = none) :
    (Fetch.signatureStatus L P turns cache owid scheme).cache =
      (Fetch.hold cache (turns 0).holdNow (turns 0).holdLater base (dateUrl base minute)
        key.publicKeyPem (minutesOrNone (some key.startsAt))
        (minutesOrNone (schedule.nextStartAfter key))).2 := by
  subst hbase
  have hclean : Clean (endPoint scheme owid.domain owid.version) :=
    endPoint_clean (isAlpha_of_accepted hscheme) hdomain
  obtain ⟨hok, hcache⟩ := h.keyAtUrl_hold hclean hminute (asks_dateUrl hscheme hdomain minute)
    (hserved _) hkey hheld owid.domain
  rw [← stated_pem key.publicKeyPem (minutesOrNone (some key.startsAt))
    (minutesOrNone (schedule.nextStartAfter key))] at hvalid
  simp only [Fetch.signatureStatus, publicKeyUrl_accepted hscheme hdomain hcount]
  rw [signatureStatusAtUrl_selected hok hvalid, hcache]

/-- A check whose selected key does not match, and a neighbour of whose does. -/
theorem signatureStatusAtUrl_verified {turns : Nat → Turn} {cache : Cache} {owid : Owid}
    {url : String} {answer : KeyAnswer}
    (hok : (keyAtUrl L P (turns 0) cache url owid.domain).result = .ok answer)
    (hinvalid : owid.signatureStatus P answer.pem = .signatureInvalid)
    (hcount : 0 ≤ minutesSinceBase owid.date)
    (hverified : (neighbourVerifies L P (fun n => turns (n + 1))
      (keyAtUrl L P (turns 0) cache url owid.domain).cache owid (minutesSinceBase owid.date) url
      answer).result = .ok true) :
    (signatureStatusAtUrl L P turns cache owid url).result = .ok .signatureValid := by
  simp only [signatureStatusAtUrl, hok, hinvalid, ne_eq, not_true_eq_false, if_false,
    if_neg (Int.not_lt.mpr hcount), hverified]
  rfl

/-- A check for which one neighbour is asked, and its key verifies. -/
theorem signatureStatusAtUrl_neighbour {turns : Nat → Turn} {cache : Cache} {owid : Owid}
    {url : String} {answer neighbour : KeyAnswer} {minute : Int}
    (hok : (keyAtUrl L P (turns 0) cache url owid.domain).result = .ok answer)
    (hinvalid : owid.signatureStatus P answer.pem = .signatureInvalid)
    (hcount : 0 ≤ minutesSinceBase owid.date) (hknown : answer.known = true)
    (hbeyond : beyond (minutesSinceBase owid.date) answer = [minute])
    (hasked : (keyAtUrl L P (turns 1) (keyAtUrl L P (turns 0) cache url owid.domain).cache
      (dateUrl (endPointOf url) minute.toNat) owid.domain).result = .ok neighbour)
    (hpem : neighbour.pem ≠ answer.pem)
    (hvalid : owid.signatureStatus P neighbour.pem = .signatureValid) :
    (signatureStatusAtUrl L P turns cache owid url).result = .ok .signatureValid := by
  refine signatureStatusAtUrl_verified hok hinvalid hcount ?_
  have hstated : ¬ answer.known = false := by
    rw [hknown]
    exact Bool.noConfusion
  rw [Fetch.neighbourVerifies, if_neg hstated, hbeyond]
  simp only [tryNeighbours, Nat.zero_add, hasked, if_neg hpem, if_pos hvalid]

end Agreement

/-- The OWID is one that a read handed back, of a whole buffer or from the front of one. -/
def Parsed (owid : Owid) : Prop :=
  ∃ data exact length,
    Parse.parse (.bytes data) exact = .ok ⟨true, some owid, .parsed, length⟩

/-- The date of an OWID that was read is a whole minute, within the range of the four
byte field. -/
theorem Parsed.date {owid : Owid} (h : Parsed owid) :
    ∃ minute : Nat, minute ≤ 0xFFFFFFFF ∧ owid.date.micros = minute * microsPerMinute := by
  obtain ⟨data, exact, length, hread⟩ := h
  obtain ⟨r, hwalked, hwalk⟩ := parseData_walk data exact
  cases hwalked.symm.trans hread
  cases hwalk with
  | parsed e rest =>
    have hfits := e.countFits
    show ∃ minute : Nat, _ ∧ (e.count * dateUnit e.version : Int) = minute * microsPerMinute
    -- the field counts hours or minutes, in as many bytes as its version has
    cases hversion : e.version with
    | empty => exact absurd hversion e.versionKnown
    | version1 =>
      rw [hversion] at hfits
      simp only [maximumCount] at hfits
      refine ⟨e.count * 60, by omega, ?_⟩
      simp only [dateUnit, microsPerHour]
      push_cast
      rw [Int.mul_assoc]
    | version2 =>
      rw [hversion] at hfits
      simp only [maximumCount, maximumMinutes_eq] at hfits
      exact ⟨e.count, by omega, rfl⟩
    | version3 =>
      rw [hversion] at hfits
      simp only [maximumCount, maximumMinutes_eq] at hfits
      exact ⟨e.count, by omega, rfl⟩

theorem parsed_envelope (e : Envelope) : Parsed e.owid := ⟨_, _, _, parseBytes_envelope e⟩

/-! ## One check after another -/

/-- A check from a session leads to one with the cache that it leaves. -/
theorem reaches_check {L : Stdlib} {P : Provider σ κ} {ok : Session → SessionEvent → Prop}
    {s : Session} (h : Reaches (sessionStep L P) ok Session.start s) {turns : Nat → Turn}
    {owid : Owid} {scheme : String} (hok : ok s (.check turns owid scheme)) {cache : Cache}
    (hcache : (signatureStatus L P turns s.cache owid scheme).cache = cache) :
    ∃ s', Reaches (sessionStep L P) ok Session.start s' ∧ s'.cache = cache :=
  ⟨_, .next _ h hok rfl, hcache⟩

theorem minute90_le : 90 ≤ maximumMinutes := by decide
theorem minute100_le : 100 ≤ maximumMinutes := by decide
theorem minute150_le : 150 ≤ maximumMinutes := by decide
theorem minute190_le : 190 ≤ maximumMinutes := by decide
theorem minute197_le : 197 ≤ maximumMinutes := by decide

theorem minute300_le : 300 ≤ maximumMinutes := by decide

/-- The end point of the domain that the OWIDs name. -/
def endPointAB : String := endPoint "https" "a.b" .version3

theorem endPointAB_clean : Clean endPointAB :=
  endPoint_clean (isAlpha_of_accepted https_accepted) rfl

theorem asks_endPointAB (minute : Nat) : asks (dateUrl endPointAB minute) = true :=
  asks_dateUrl https_accepted rfl minute

theorem endPointAB_eq {count mark : Nat} (h : count ≤ maximumMinutes) :
    endPoint "https" (markedEnvelope count mark h).owid.domain
      (markedEnvelope count mark h).owid.version = endPointAB := rfl

theorem publicKeyUrl_marked {count mark : Nat} (h : count ≤ maximumMinutes) :
    publicKeyUrl (markedEnvelope count mark h).owid "https" = .ok (dateUrl endPointAB count) :=
  publicKeyUrl_accepted https_accepted (markedEnvelope_domain h) (markedEnvelope_count h)

/-- What a creator of the two keys answers at minute 300. -/
def rotatedTurns (_ : Nat) : Turn :=
  servedTurn laterStdlib .plain (rotated secondStart_lt) (atMinute 300 minute300_le)

/-- What is held after minute 150 was asked for, and after minute 90 was as well. -/
def rotatedCache : Cache :=
  (hold .empty (atMinute 300 minute300_le) (atMinute 300 minute300_le) endPointAB
    (dateUrl endPointAB 150) "B" (some 100) none).2

def rotatedCache' : Cache :=
  (hold rotatedCache (atMinute 300 minute300_le) (atMinute 300 minute300_le) endPointAB
    (dateUrl endPointAB 90) "A" (some 0) (some 100)).2

theorem rotatedCache_heldFor :
    heldFor rotatedCache (atMinute 300 minute300_le) endPointAB (dateUrl endPointAB 90) = none ∧
      heldFor rotatedCache' (atMinute 300 minute300_le) endPointAB (dateUrl endPointAB 100) =
        some ⟨"B", 100, lastMinute, true⟩ := by
  decide +kernel

theorem marked_rotated :
    (markedEnvelope 150 67 minute150_le).owid.signatureStatus .plain "B" = .signatureValid ∧
      (markedEnvelope 90 67 minute90_le).owid.signatureStatus .plain "A" = .signatureInvalid ∧
      (markedEnvelope 90 67 minute90_le).owid.signatureStatus .plain "B" = .signatureValid := by
  decide +kernel

theorem rotatedTurns_reply (n : Nat) (url : String) :
    (rotatedTurns n).reply url =
      serve laterStdlib .plain (rotated secondStart_lt) (atMinute 300 minute300_le) url :=
  servedTurn_reply _ _ _ _ _

/-- A check of an OWID of minute 150 that is signed with the second key leaves that key held. -/
theorem rotated_checked :
    (signatureStatus laterStdlib .plain rotatedTurns Cache.empty
      (markedEnvelope 150 67 minute150_le).owid "https").cache = rotatedCache := by
  have hkey : (rotated secondStart_lt).keyInForce (momentRead (atMinute 300 minute300_le) 150) =
      some (keyB secondStart) := rotated_keyInForce_second secondStart_lt (by decide)
  have hcache := later_published.signatureStatus_selected (rotatedTurns_reply 0)
    (markedEnvelope_domain minute150_le) https_accepted (by decide)
    (markedEnvelope_count minute150_le) hkey marked_rotated.1 (endPointAB_eq minute150_le)
    (heldFor_empty _ _ _)
  rw [keyB_startsAt, rotated_last] at hcache
  exact hcache

/-- One of minute 90 that is signed with the second key is then found valid: the first key does
not verify it, and the second, which is held, is the neighbour. -/
theorem rotated_verified :
    (signatureStatus laterStdlib .plain rotatedTurns rotatedCache
      (markedEnvelope 90 67 minute90_le).owid "https").result = .ok .signatureValid := by
  obtain ⟨hnotHeld, hheld⟩ := rotatedCache_heldFor
  obtain ⟨-, hinvalid, hvalid⟩ := marked_rotated
  have hkey : (rotated secondStart_lt).keyInForce (momentRead (atMinute 300 minute300_le) 90) =
      some (keyA baseDate) := rotated_keyInForce_first secondStart_lt (by decide) (by decide)
  obtain ⟨hok, hcache⟩ := later_published.keyAtUrl_hold endPointAB_clean (by decide)
    (asks_endPointAB 90) (rotatedTurns_reply 0 _) hkey hnotHeld
    (markedEnvelope 90 67 minute90_le).owid.domain
  rw [keyA_startsAt, rotated_next] at hok hcache
  have hheld' : (keyAtUrl laterStdlib .plain (rotatedTurns 0) rotatedCache
      (dateUrl endPointAB 90) (markedEnvelope 90 67 minute90_le).owid.domain).cache =
      rotatedCache' := hcache
  have hclock : (rotatedTurns 1).heldNow = atMinute 300 minute300_le := rfl
  rw [← hclock] at hheld
  have hasked : (keyAtUrl laterStdlib .plain (rotatedTurns 1) rotatedCache'
      (dateUrl endPointAB 100) (markedEnvelope 90 67 minute90_le).owid.domain).result =
      .ok ⟨"B", 100, lastMinute, true⟩ := keyAtUrl_held endPointAB_clean hheld _
  have hspan : stated (keyA baseDate).publicKeyPem (minutesOrNone (some baseDate))
      (minutesOrNone (some secondStart)) = ⟨"A", 0, 99, true⟩ := by decide
  rw [hspan] at hok
  have hbeyond : beyond (minutesSinceBase (markedEnvelope 90 67 minute90_le).owid.date)
      ⟨"A", 0, 99, true⟩ = [100] := by decide
  have hpem : (⟨"B", 100, lastMinute, true⟩ : KeyAnswer).pem ≠ "A" := by decide
  have hnat : (100 : Int).toNat = 100 := rfl
  have hcount : 0 ≤ minutesSinceBase (markedEnvelope 90 67 minute90_le).owid.date := by
    rw [markedEnvelope_count]
    exact Int.natCast_nonneg 90
  rw [signatureStatus, publicKeyUrl_marked]
  refine signatureStatusAtUrl_neighbour hok hinvalid hcount rfl hbeyond ?_ hpem hvalid
  rw [hheld', endPointOf_dateUrl endPointAB_clean, hnat]
  exact hasked

/-- The schedule alone says of it that its signature does not match. -/
theorem rotated_offline :
    (rotated secondStart_lt).signatureStatus .plain (markedEnvelope 90 67 minute90_le).owid =
      .signatureInvalid := by
  have hkey : (rotated secondStart_lt).keyInForce (markedEnvelope 90 67 minute90_le).owid.date =
      some (keyA baseDate) := rotated_keyInForce_first secondStart_lt (by decide) (by decide)
  rw [PublicKeySchedule.signatureStatus, hkey]
  exact marked_rotated.2.1

section Main

variable {L : Stdlib} {P : Provider σ κ} {schedule : PublicKeySchedule}

/-- **Online and offline verification agree.** After any run of checks and clears that this
creator answered, a check of an OWID that was read, dated no later than the creator's now
for each request, comes to the status the creator's own schedule gives. The exception is
a signature that does not match under the schedule's key and is valid under the key in
force just beyond an edge of that key's period, an edge near the OWID's date. -/
theorem signatureStatus_agrees (h : Published L P schedule) (hreturn : NoReturn schedule)
    (hstarts : ∀ key ∈ schedule.keys, baseDate ≤ key.startsAt) {s : Session}
    (hreach : Reaches (sessionStep L P) (ServedBy L P schedule) Session.start s)
    {turns : Nat → Turn} {now : Nat → DateTime}
    (hserved : ∀ n url, (turns n).reply url = serve L P schedule (now n) url) {owid : Owid}
    (hparsed : Parsed owid) (hdomain : checkDomain owid.domain = .ok ()) {scheme : String}
    (hscheme : lower scheme ∈ acceptedSchemes) (hnow : ∀ n, owid.date ≤ now n) :
    (signatureStatus L P turns s.cache owid scheme).result =
        .ok (schedule.signatureStatus P owid) ∨
      ((signatureStatus L P turns s.cache owid scheme).result = .ok .signatureValid ∧
        schedule.signatureStatus P owid = .signatureInvalid ∧
        ∃ minute pem, owid.date.micros = minute * microsPerMinute ∧
          InForceAt schedule minute pem ∧ VerifiesBeyond P schedule owid minute pem) := by
  have hcache : TrueTo schedule s.cache :=
    hreach.invariant Sound.empty fun _ _ _ hcache hok hstep =>
      h.sessionStep hreturn hstarts hcache hok hstep
  obtain ⟨minute, hminute, hdate⟩ := hparsed.date
  have hcount := minutesSinceBase_of_whole hdate
  have hasks : ∀ m, asks (dateUrl (endPoint scheme owid.domain owid.version) m) = true :=
    fun m => asks_dateUrl hscheme hdomain m
  have hclean : Clean (endPoint scheme owid.domain owid.version) :=
    endPoint_clean (isAlpha_of_accepted hscheme) hdomain
  simp only [signatureStatus, publicKeyUrl_accepted hscheme hdomain hcount]
  rcases h.signatureStatusAtUrl hreturn hstarts hcache hserved hclean hasks hminute hdate hnow rfl
    with hsame | ⟨hvalid, hinvalid, pem, hforce, hbeyond⟩
  · exact Or.inl hsame
  · exact Or.inr ⟨hvalid, hinvalid, minute, pem, hdate, hforce, hbeyond⟩

/-- After an OWID of minute 150 was checked, one of minute 90 that is signed with the key after the
rotation is valid under it, the neighbour of the key selected. -/
theorem signatureStatus_agrees_rotated :
    ∃ s, Reaches (sessionStep laterStdlib .plain)
        (ServedBy laterStdlib .plain (rotated secondStart_lt)) Session.start s ∧
      s.cache = rotatedCache ∧
      (rotated secondStart_lt).signatureStatus .plain (markedEnvelope 90 67 minute90_le).owid =
        .signatureInvalid ∧
      (signatureStatus laterStdlib .plain rotatedTurns s.cache
        (markedEnvelope 90 67 minute90_le).owid "https").result = .ok .signatureValid ∧
      ∃ minute pem,
        (markedEnvelope 90 67 minute90_le).owid.date.micros = minute * microsPerMinute ∧
        InForceAt (rotated secondStart_lt) minute pem ∧
        VerifiesBeyond .plain (rotated secondStart_lt) (markedEnvelope 90 67 minute90_le).owid
          minute pem := by
  have hstarts : ∀ key ∈ (rotated secondStart_lt).keys, baseDate ≤ key.startsAt := by decide
  have hnow : (markedEnvelope 90 67 minute90_le).owid.date ≤ atMinute 300 minute300_le := by decide
  have hstart : Reaches (sessionStep laterStdlib .plain)
      (ServedBy laterStdlib .plain (rotated secondStart_lt)) Session.start Session.start := .start
  obtain ⟨s, hreach, hcache⟩ :=
    reaches_check hstart (fun n => ⟨_, rotatedTurns_reply n⟩) rotated_checked
  have hagrees := signatureStatus_agrees later_published (rotated_distinct _).noReturn hstarts
    hreach rotatedTurns_reply (parsed_envelope _) (markedEnvelope_domain minute90_le)
    https_accepted fun _ => hnow
  rw [hcache, rotated_verified, rotated_offline] at hagrees
  rcases hagrees with hsame | ⟨-, -, hbeyond⟩
  · cases hsame
  · exact ⟨s, hreach, hcache, rotated_offline, hcache ▸ rotated_verified, hbeyond⟩

end Main

/-! ## Where they do not agree -/

/-- The creator answers every request of a check at this now, and the client's clock is past it
by no more than the drift allowance when it holds the answer. -/
def AnsweredAt (L : Stdlib) (P : Provider σ κ) (schedule : PublicKeySchedule) (now : DateTime)
    (turns : Nat → Turn) : Prop :=
  ∀ n, (∀ url, (turns n).reply url = serve L P schedule now url) ∧
    minutesSinceBase (turns n).holdLater ≤ minutesSinceBase now + clockDriftAllowanceMinutes

/-- Checks, and no clearing of the cache, that the creator answers at this now. -/
def ChecksAt (L : Stdlib) (P : Provider σ κ) (schedule : PublicKeySchedule) (now : DateTime)
    (_ : Session) : SessionEvent → Prop
  | .check turns _ _ => AnsweredAt L P schedule now turns
  | .clearCache => False

/-- Over the schedules that meet the condition, checks agree with them but where it is excepted
that they find a signature valid that does not match. -/
def AgreesBut (condition : Stdlib → Provider Bytes Bytes → PublicKeySchedule → Prop)
    (excepted : Provider Bytes Bytes → PublicKeySchedule → Owid → Prop) : Prop :=
  ∀ L P schedule, condition L P schedule → NoReturn schedule →
    (∀ key ∈ schedule.keys, baseDate ≤ key.startsAt) →
    ∀ now s, Reaches (sessionStep L P) (ChecksAt L P schedule now) Session.start s →
    ∀ turns, AnsweredAt L P schedule now turns → ∀ owid, Parsed owid →
    checkDomain owid.domain = .ok () → owid.date ≤ now →
    (signatureStatus L P turns s.cache owid "https").result =
        .ok (schedule.signatureStatus P owid) ∨
      ((signatureStatus L P turns s.cache owid "https").result = .ok .signatureValid ∧
        schedule.signatureStatus P owid = .signatureInvalid ∧ excepted P schedule owid)

/-- The signature verifies under the key just beyond an edge of the selected key's own period, an
edge that the date is near. -/
def VerifiesBesidePeriod (P : Provider Bytes Bytes) (schedule : PublicKeySchedule) (owid : Owid) :
    Prop :=
  ∃ key edge past other, schedule.keyInForce owid.date = some key ∧
    ((edge = key.startsAt.micros / microsPerMinute ∧ past = edge - 1) ∨
      (∃ next, schedule.nextStartAfter key = some next ∧
        edge = next.micros / microsPerMinute - 1 ∧ past = edge + 1)) ∧
    (minutesSinceBase owid.date - edge).natAbs ≤ clockDriftAllowanceMinutes ∧
    InForceAt schedule past other ∧ owid.signatureStatus P other = .signatureValid

theorem servedTurn_answeredAt (L : Stdlib) (P : Provider σ κ) (schedule : PublicKeySchedule)
    (now : DateTime) : AnsweredAt L P schedule now fun _ => servedTurn L P schedule now :=
  fun _ => ⟨servedTurn_reply L P schedule now, Int.le_add_of_nonneg_right (by decide)⟩

/-- An answer that is too large is a key that is not there. -/
theorem fetch_tooLarge (L : Stdlib) (P : Provider σ κ) {turn : Turn} {url : String}
    (domain : String) {body : Bytes} (hasks : asks url = true)
    (hreply : turn.reply url = .ok (200, body))
    (hlong : maximumResponseBytes < body.length) :
    ∃ e, fetch L P turn url domain = .error e ∧ failedStatus e = .ok .keyUnavailable := by
  have hnot : ¬ asks url = false := by
    rw [hasks]
    exact Bool.noConfusion
  have hread : ∃ e, read turn url domain = .error e ∧ failedStatus e = .ok .keyUnavailable := by
    rw [read, if_neg hnot, hreply]
    simp only [readReply, if_pos hlong]
    exact ⟨_, rfl, rfl⟩
  obtain ⟨e, hread, hstatus⟩ := hread
  exact ⟨e, by rw [fetch, hread, error_bind], hstatus⟩

/-- A client refuses the answer for a key in more text than it accepts, whatever the key. -/
theorem signatureStatus_tooLarge {pem : String} (h : Lib.strip pem ≠ "") (hascii : Lib.IsAscii pem)
    (hlong : maximumResponseBytes < pem.toList.length) :
    (signatureStatus (oneKeyStdlib pem) .plain
        (fun _ => servedTurn (oneKeyStdlib pem) .plain (oneKey pem h) zeroEnvelope.date)
        Session.start.cache zeroEnvelope.owid "https").result = .ok .keyUnavailable := by
  have hservable := oneKey_servable h hascii
  have hscheme : lower "https" ∈ acceptedSchemes := by decide
  have hdomain : checkDomain zeroEnvelope.owid.domain = .ok () := rfl
  have hcount : minutesSinceBase zeroEnvelope.owid.date = (10 : Nat) :=
    minutesSinceBase_of_whole rfl
  have hclean : Clean (endPoint "https" zeroEnvelope.owid.domain zeroEnvelope.owid.version) :=
    endPoint_clean (isAlpha_of_accepted hscheme) hdomain
  have hreply := hservable.serve_dateUrl zeroEnvelope.date hclean (by decide : 10 ≤ 0xFFFFFFFF)
  have hmoment : baseDate ≤ momentRead zeroEnvelope.date 10 := by decide
  rw [oneKey_keyInForce_of_le hmoment] at hreply
  simp only [oneKey_answerOf] at hreply
  -- the key alone is longer than the client accepts
  have hlarge : maximumResponseBytes <
      (Lib.encodeUtf8 (plainText (oneKeyAnswer pem))).length := by
    refine Nat.lt_of_lt_of_le ?_ (Lib.length_le_encodeUtf8 _)
    rw [toList_oneKey, List.length_append, List.length_append]
    omega
  have hturn : (servedTurn (oneKeyStdlib pem) .plain (oneKey pem h) zeroEnvelope.date).reply
      (dateUrl (endPoint "https" zeroEnvelope.owid.domain zeroEnvelope.owid.version) 10) =
      .ok (200, Lib.encodeUtf8 (plainText (oneKeyAnswer pem))) := hreply
  obtain ⟨e, hfetch, hstatus⟩ := fetch_tooLarge (oneKeyStdlib pem) .plain
    zeroEnvelope.owid.domain (asks_dateUrl hscheme hdomain 10) hturn hlarge
  simp only [signatureStatus, publicKeyUrl_accepted hscheme hdomain hcount, signatureStatusAtUrl,
    keyAtUrl, Session.start, heldFor_empty, hfetch, hstatus]

theorem oneKey_offline {pem : String} (h : Lib.strip pem ≠ "") :
    (oneKey pem h).signatureStatus .plain zeroEnvelope.owid = .signatureInvalid := by
  have hdate : baseDate ≤ zeroEnvelope.owid.date := by decide
  rw [PublicKeySchedule.signatureStatus, oneKey_keyInForce_of_le hdate]
  exact zeroEnvelope_invalid h

/-- A PEM with more text before the key than a client accepts. -/
def longPem : String := String.ofList (List.replicate (maximumResponseBytes + 1) 'k')

theorem mem_longPem {c : Char} (h : c ∈ longPem.toList) : c = 'k' := by
  rw [longPem, String.toList_ofList] at h
  exact List.eq_of_mem_replicate h

theorem length_longPem : longPem.toList.length = maximumResponseBytes + 1 := by
  rw [longPem, String.toList_ofList, List.length_replicate]

theorem longPem_notBlank : Lib.strip longPem ≠ "" := by
  have hsame : Lib.strip longPem = longPem := by
    refine Lib.strip_eq_self fun c hc => ?_
    rw [mem_longPem hc]
    rfl
  intro he
  have hlength := length_longPem
  rw [← hsame, he] at hlength
  cases hlength

/-- The creator serves a schedule of one readable key in 65,537 characters, the client
refuses the answer for its size, and its verdict is not the schedule's. -/
theorem not_agreesBut_longPem : ¬ AgreesBut Servable fun _ _ _ => True := by
  intro hall
  have hascii : Lib.IsAscii longPem := by
    intro c hc
    rw [mem_longPem hc]
    decide
  have hlong : maximumResponseBytes < longPem.toList.length := by
    rw [length_longPem]
    exact Nat.lt_succ_self _
  have hservable := oneKey_servable longPem_notBlank hascii
  have hstarts : ∀ key ∈ (oneKey longPem longPem_notBlank).keys, baseDate ≤ key.startsAt := by
    intro key hkey
    rw [List.mem_singleton.mp hkey]
    exact Int.le_refl _
  -- asked for by an OWID whose signature does not match, from an empty cache
  have hverdict := hall _ _ _ hservable oneKey_noReturn hstarts zeroEnvelope.date Session.start
    .start _ (servedTurn_answeredAt _ _ _ _) zeroEnvelope.owid (parsed_envelope _) rfl
    (Int.le_refl _)
  rw [signatureStatus_tooLarge longPem_notBlank hascii hlong, oneKey_offline] at hverdict
  rcases hverdict with hsame | ⟨hvalid, -⟩
  · cases hsame
  · cases hvalid

/-- The starts 195 and 200 minutes after the base date. -/
def renewedAt : DateTime := atMinute 195 (by decide)

def renewedEnd : DateTime := atMinute 200 (by decide)

/-- The key `A` twice, and the key `B`. -/
def renewed : PublicKeySchedule :=
  ⟨[keyA baseDate, keyA renewedAt, keyB renewedEnd], by decide⟩

def renewedAnswer (pem start : String) (stop : Json) : Json :=
  .obj [("format", .str spkiFormat), ("publicKey", .str pem), ("validFrom", .str start),
    ("validTo", stop)]

def renewedStdlib : Stdlib :=
  plainStdlib [(baseDate, "2020-01-01T00:00:00Z"), (renewedAt, "2020-01-01T03:15:00Z"),
      (renewedEnd, "2020-01-01T03:20:00Z")]
    [renewedAnswer "A" "2020-01-01T00:00:00Z" (.str "2020-01-01T03:15:00Z"),
      renewedAnswer "A" "2020-01-01T03:15:00Z" (.str "2020-01-01T03:20:00Z"),
      renewedAnswer "B" "2020-01-01T03:20:00Z" .null]

theorem renewed_published : Published renewedStdlib .plain renewed := by
  have hanswers : ∀ key ∈ renewed.keys,
      Lib.IsAscii (renewedStdlib.dumps (answerOf renewedStdlib renewed key)) ∧
        (renewedStdlib.dumps (answerOf renewedStdlib renewed key)).toList.length ≤
          maximumResponseBytes := by decide +kernel
  refine ⟨⟨?_, by decide, ?_, ?_, fun key hkey => (hanswers key hkey).1⟩, ?_⟩
  · exact fun key _ => ⟨_, Provider.plain_newVerifyOnly key.notBlank⟩
  · intro key hkey
    fin_cases hkey <;> rfl
  · intro key hkey
    fin_cases hkey <;> rfl
  · intro key hkey
    rw [Lib.encodeUtf8_ascii (hanswers key hkey).1, List.length_map]
    exact (hanswers key hkey).2

/-- The key `B` is the one from its start on. -/
theorem renewed_pem {moment : DateTime} {key : DatedPublicKey}
    (hkey : renewed.keyInForce moment = some key) :
    key.publicKeyPem = if renewedEnd ≤ moment then "B" else "A" := by
  have hforce := PublicKeySchedule.keyInForce_eq_some.mp hkey
  have hmem : key ∈ [keyA baseDate, keyA renewedAt, keyB renewedEnd] := hforce.mem
  split
  next hlate =>
    have hlatest := hforce.latest (keyB renewedEnd) (by simp [renewed]) hlate
    fin_cases hmem
    · exact absurd hlatest (by decide)
    · exact absurd hlatest (by decide)
    · rfl
  next hearly =>
    fin_cases hmem
    · rfl
    · rfl
    · exact absurd hforce.started hearly

theorem renewed_noReturn : NoReturn renewed := by
  intro d₁ d₂ d₃ k₁ k₂ k₃ h₁₂ h₂₃ hk₁ hk₂ hk₃ hpem
  rw [renewed_pem hk₁, renewed_pem hk₃] at hpem
  rw [renewed_pem hk₁, renewed_pem hk₂]
  by_cases h₁ : renewedEnd ≤ d₁
  · have h₂ : renewedEnd ≤ d₂ := Int.le_trans h₁ h₁₂
    rw [if_pos h₁, if_pos h₂]
  · rw [if_neg h₁] at hpem ⊢
    have h₃ : ¬ renewedEnd ≤ d₃ := by
      intro h₃
      rw [if_pos h₃] at hpem
      exact absurd hpem (by decide)
    have h₂ : ¬ renewedEnd ≤ d₂ := fun h₂ => h₃ (Int.le_trans h₂ h₂₃)
    rw [if_neg h₂]

def renewedTurns (_ : Nat) : Turn :=
  servedTurn renewedStdlib .plain renewed (atMinute 300 minute300_le)

/-- What is held after minute 100 was asked for, and after minute 197 was as well. -/
def renewedCache : Cache :=
  (hold .empty (atMinute 300 minute300_le) (atMinute 300 minute300_le) endPointAB
    (dateUrl endPointAB 100) "A" (some 0) (some 195)).2

def renewedCache' : Cache :=
  (hold renewedCache (atMinute 300 minute300_le) (atMinute 300 minute300_le) endPointAB
    (dateUrl endPointAB 197) "A" (some 195) (some 200)).2

theorem renewedCache_heldFor :
    heldFor renewedCache (atMinute 300 minute300_le) endPointAB (dateUrl endPointAB 197) = none ∧
      heldFor renewedCache' (atMinute 300 minute300_le) endPointAB (dateUrl endPointAB 190) =
        some ⟨"A", 0, 199, true⟩ ∧
      heldFor renewedCache' (atMinute 300 minute300_le) endPointAB (dateUrl endPointAB 200) =
        none := by
  decide +kernel

theorem marked_renewed :
    (markedEnvelope 100 66 minute100_le).owid.signatureStatus .plain "A" = .signatureValid ∧
      (markedEnvelope 197 66 minute197_le).owid.signatureStatus .plain "A" = .signatureValid ∧
      (markedEnvelope 190 67 minute190_le).owid.signatureStatus .plain "A" = .signatureInvalid ∧
      (markedEnvelope 190 67 minute190_le).owid.signatureStatus .plain "B" = .signatureValid := by
  decide +kernel

theorem renewed_keys :
  renewed.keyInForce (momentRead (atMinute 300 minute300_le) 100) = some (keyA baseDate) ∧
  renewed.keyInForce (momentRead (atMinute 300 minute300_le) 197) = some (keyA renewedAt) ∧
  renewed.keyInForce (momentRead (atMinute 300 minute300_le) 190) = some (keyA baseDate) ∧
  renewed.keyInForce (momentRead (atMinute 300 minute300_le) 200) = some (keyB renewedEnd) ∧
  renewed.nextStartAfter (keyA baseDate) = some renewedAt ∧
  renewed.nextStartAfter (keyA renewedAt) = some renewedEnd ∧
  renewed.nextStartAfter (keyB renewedEnd) = none := by decide

theorem renewedTurns_reply (n : Nat) (url : String) :
    (renewedTurns n).reply url =
      serve renewedStdlib .plain renewed (atMinute 300 minute300_le) url :=
  servedTurn_reply _ _ _ _ _

/-- A check of an OWID that the key `A` signed in its first period leaves it held for that, and one
of an OWID of its second period then leaves it held for both. -/
theorem renewed_checked :
    (signatureStatus renewedStdlib .plain renewedTurns Cache.empty
        (markedEnvelope 100 66 minute100_le).owid "https").cache = renewedCache ∧
      (signatureStatus renewedStdlib .plain renewedTurns renewedCache
        (markedEnvelope 197 66 minute197_le).owid "https").cache = renewedCache' := by
  obtain ⟨hfirst, hagain, -, -, hnext, hnextAgain, -⟩ := renewed_keys
  have hcache := renewed_published.signatureStatus_selected (renewedTurns_reply 0)
    (markedEnvelope_domain minute100_le) https_accepted (by decide)
    (markedEnvelope_count minute100_le) hfirst marked_renewed.1 (endPointAB_eq minute100_le)
    (heldFor_empty _ _ _)
  rw [keyA_startsAt, hnext] at hcache
  have hcache' := renewed_published.signatureStatus_selected (renewedTurns_reply 0)
    (markedEnvelope_domain minute197_le) https_accepted (by decide)
    (markedEnvelope_count minute197_le) hagain marked_renewed.2.1 (endPointAB_eq minute197_le)
    renewedCache_heldFor.1
  rw [keyA_startsAt, hnextAgain] at hcache'
  exact ⟨hcache, hcache'⟩

/-- An OWID of minute 190 that is signed with the key `B` is then found valid. -/
theorem renewed_verified :
    (signatureStatus renewedStdlib .plain renewedTurns renewedCache'
      (markedEnvelope 190 67 minute190_le).owid "https").result = .ok .signatureValid := by
  obtain ⟨-, hheld, hnotHeld⟩ := renewedCache_heldFor
  obtain ⟨-, -, hinvalid, hvalid⟩ := marked_renewed
  obtain ⟨-, -, -, hkey, -, -, hnext⟩ := renewed_keys
  have hclock : (renewedTurns 0).heldNow = atMinute 300 minute300_le := rfl
  rw [← hclock] at hheld hnotHeld
  have hok : (keyAtUrl renewedStdlib .plain (renewedTurns 0) renewedCache'
      (dateUrl endPointAB 190) (markedEnvelope 190 67 minute190_le).owid.domain).result =
      .ok ⟨"A", 0, 199, true⟩ := keyAtUrl_held endPointAB_clean hheld _
  have hkept : (keyAtUrl renewedStdlib .plain (renewedTurns 0) renewedCache'
      (dateUrl endPointAB 190) (markedEnvelope 190 67 minute190_le).owid.domain).cache =
      renewedCache' := by
    simp only [keyAtUrl, endPointOf_dateUrl endPointAB_clean, hheld]
  have hasked := (renewed_published.keyAtUrl_hold endPointAB_clean (by decide)
    (asks_endPointAB 200) (renewedTurns_reply 1 _) hkey hnotHeld
    (markedEnvelope 190 67 minute190_le).owid.domain).1
  have hbeyond : beyond (minutesSinceBase (markedEnvelope 190 67 minute190_le).owid.date)
      ⟨"A", 0, 199, true⟩ = [200] := by decide
  have hcount : 0 ≤ minutesSinceBase (markedEnvelope 190 67 minute190_le).owid.date := by
    rw [markedEnvelope_count]
    exact Int.natCast_nonneg 190
  have hnat : (200 : Int).toNat = 200 := rfl
  have hspan : stated (keyB renewedEnd).publicKeyPem (minutesOrNone (some renewedEnd))
      (minutesOrNone none) = ⟨"B", 200, lastMinute, true⟩ := by decide
  have hpem : (⟨"B", 200, lastMinute, true⟩ : KeyAnswer).pem ≠ "A" := by decide
  rw [keyB_startsAt, hnext, hspan] at hasked
  rw [signatureStatus, publicKeyUrl_marked]
  refine signatureStatusAtUrl_neighbour hok hinvalid hcount rfl hbeyond ?_ hpem hvalid
  rw [hkept, endPointOf_dateUrl endPointAB_clean, hnat]
  exact hasked

/-- The period of the key in force at minute 190 has that key on both sides. -/
theorem renewed_not_beside :
    ¬ VerifiesBesidePeriod .plain renewed (markedEnvelope 190 67 minute190_le).owid := by
  rintro ⟨key, edge, past, other, hkey, hedge, hnear, hforce, hvalid⟩
  obtain ⟨-, -, hselected, -, hnext, -⟩ := renewed_keys
  have hdate : renewed.keyInForce (markedEnvelope 190 67 minute190_le).owid.date =
      some (keyA baseDate) := hselected
  cases hdate.symm.trans hkey
  rw [markedEnvelope_count] at hnear
  simp only [clockDriftAllowanceMinutes] at hnear
  have hzero : (keyA baseDate).startsAt.micros / microsPerMinute = 0 := by decide
  rcases hedge with ⟨rfl, -⟩ | ⟨next, hsome, rfl, rfl⟩
  · omega
  · cases hnext.symm.trans hsome
    have hkey : renewed.keyInForce renewedAt = some (keyA renewedAt) := by decide
    have hrenewed : InForceAt renewed (renewedAt.micros / microsPerMinute - 1 + 1) "A" :=
      inForceAt_of_moment (by decide) hkey
    rw [← hrenewed.unique hforce, marked_renewed.2.2.1] at hvalid
    cases hvalid

theorem renewed_answeredAt :
    AnsweredAt renewedStdlib .plain renewed (atMinute 300 minute300_le) renewedTurns :=
  servedTurn_answeredAt _ _ _ _

theorem renewed_reached :
    ∃ s, Reaches (sessionStep renewedStdlib .plain)
      (ChecksAt renewedStdlib .plain renewed (atMinute 300 minute300_le)) Session.start s ∧
      s.cache = renewedCache' := by
  have hstart : Reaches (sessionStep renewedStdlib .plain)
      (ChecksAt renewedStdlib .plain renewed (atMinute 300 minute300_le)) Session.start
      Session.start := .start
  obtain ⟨s₁, hreach, hcache⟩ := reaches_check hstart renewed_answeredAt renewed_checked.1
  exact reaches_check hreach renewed_answeredAt (hcache ▸ renewed_checked.2)

/-- Over a key that was renewed, a check that finds the key held for both of its periods goes on
to the key after the second, though the period that the OWID is in ends before the first. -/
theorem not_agreesBut_renewed : ¬ AgreesBut Published VerifiesBesidePeriod := by
  intro hall
  have hstarts : ∀ key ∈ renewed.keys, baseDate ≤ key.startsAt := by decide
  have hnow : (markedEnvelope 190 67 minute190_le).owid.date ≤ atMinute 300 minute300_le := by
    decide
  obtain ⟨s, hreach, hcache⟩ := renewed_reached
  rcases hall _ _ _ renewed_published renewed_noReturn hstarts _ s hreach _ renewed_answeredAt _
    (parsed_envelope _) (markedEnvelope_domain minute190_le) hnow with hsame | ⟨-, -, hbeside⟩
  · have hoffline : renewed.signatureStatus .plain (markedEnvelope 190 67 minute190_le).owid =
        .signatureInvalid := by
      have hkey : renewed.keyInForce (markedEnvelope 190 67 minute190_le).owid.date =
          some (keyA baseDate) := renewed_keys.2.2.1
      rw [PublicKeySchedule.signatureStatus, hkey]
      exact marked_renewed.2.2.1
    rw [hcache, renewed_verified, hoffline] at hsame
    cases hsame
  · exact renewed_not_beside hbeside

/-- Checks do not agree with every schedule that can be served, as answers may be too long for a
client, and not with every one that is published, as a key may be renewed. -/
theorem signatureStatus_disagrees :
    (¬ AgreesBut Servable fun _ _ _ => True) ∧ ¬ AgreesBut Published VerifiesBesidePeriod :=
  ⟨not_agreesBut_longPem, not_agreesBut_renewed⟩

end Fetch

end OpenWebId
