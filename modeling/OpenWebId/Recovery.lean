import OpenWebId.Verdicts

/-!
# What clearing the cache recovers

A process that has learned keys it should not trust calls `clear_cache`. Whatever happened
before, whoever answered and however, the checks that begin afterwards agree with the schedules
of the creators that answer honestly from then on (`recovered_of_reaches`).

The checks that began before are another matter, as they may have been told of anything. They
are left out (`Process.since`): a run of the process is a run of its later checks, in which
what the earlier ones call for is called for by nobody in particular (`reaches_since`).
-/

namespace OpenWebId

namespace Fetch

open Lib (Reaches)

variable {σ κ : Type} {L : Stdlib} {P : Provider σ κ}

/-- The process without its first checks. -/
def Process.since (n : Nat) (p : Process) : Process := ⟨p.world, p.checks.drop n⟩

/-- The condition on a run carries over to one of the later checks, and asks nothing of a step
that ends no request. -/
structure Forgets (n : Nat) (ok : Process → ProcessEvent → Prop) : Prop where
  world : ∀ p event, ok p (.world event) → ok (p.since n) (.world event)
  call : ∀ p loop url domain now, ok p (.world (.call loop url domain now))
  check : ∀ p loop owid url now, ok p (.check loop owid url now)
  resume : ∀ p c now, ok p (.resume c now)

/-- A step of the process is a step of its later checks, or a call, or nothing. -/
theorem Turned.since {ok : Process → ProcessEvent → Prop} {n : Nat} (hok : Forgets n ok)
    {p p' : Process} {event : ProcessEvent} (hn : n ≤ p.checks.length) (hstep : ok p event)
    (h : Turned L P p event p') :
    n ≤ p'.checks.length ∧ Reaches (processStep L P) ok (p.since n) (p'.since n) := by
  have hdrop : ∀ {c : Nat} {x y : Check}, p.checks[c]? = some x →
      (n ≤ c ∧ (p.since n).checks[c - n]? = some x ∧
        (p.checks.set c y).drop n = (p.since n).checks.set (c - n) y) ∨
      (p.checks.set c y).drop n = p.checks.drop n := by
    intro c x y hx
    rcases Nat.lt_or_ge c n with hlt | hge
    · exact Or.inr (List.drop_set_of_lt hlt)
    · refine Or.inl ⟨hge, ?_, ?_⟩
      · rw [Process.since, List.getElem?_drop, Nat.add_sub_cancel' hge, hx]
      · rw [Process.since, List.drop_set, if_neg (Nat.not_lt.mpr hge)]
  cases h with
  | @world event w hworld =>
    exact ⟨hn, .next (.world event) .start (hok.world p event hstep)
      (Turned.world (p := p.since n) hworld).step⟩
  | @begun loop owid url now w hworld =>
    refine ⟨Nat.le_trans hn (by simp), ?_⟩
    have hturned := Turned.begun (p := p.since n) hworld
    rw [Process.since, ← List.drop_append_of_le_length hn] at hturned
    exact .next (.check loop owid url now) .start (hok.check ..) hturned.step
  | @ended c now x result outcome hx hidle hresult hafter =>
    refine ⟨by rwa [List.length_set], ?_⟩
    rcases hdrop (y := { x with stage := .done outcome }) hx with ⟨-, hx', hset⟩ | hset
    · have hturned : Turned L P (p.since n) (.resume (c - n) now) _ :=
        .ended hx' hidle hresult hafter
      rw [← hset] at hturned
      exact .next (.resume (c - n) now) .start (hok.resume ..) hturned.step
    · -- the end of an earlier check is nothing
      rw [Process.since, Process.since, hset]
      exact .start
  | @asked c now x result tried minute rest w hx hidle hresult hafter hworld =>
    refine ⟨by rwa [List.length_set], ?_⟩
    rcases hdrop (y := { x with
      caller := p.world.callers.length
      stage := .neighbour tried minute rest }) hx with ⟨-, hx', hset⟩ | hset
    · have hturned : Turned L P (p.since n) (.resume (c - n) now)
          ⟨w, (p.since n).checks.set (c - n) { x with
            caller := p.world.callers.length
            stage := .neighbour tried minute rest }⟩ := .asked hx' hidle hresult hafter hworld
      rw [← hset] at hturned
      exact .next (.resume (c - n) now) .start (hok.resume ..) hturned.step
    · -- an earlier check goes on to its next key, which is a call for it
      rw [Process.since, Process.since, hset]
      exact .next (.world (.call x.loop (x.urlAt minute) x.owid.domain now)) .start
        (hok.call ..) (Turned.world (p := p.since n) hworld).step

/-- **A run of the process is a run of its later checks.** -/
theorem reaches_since {ok : Process → ProcessEvent → Prop} {n : Nat} (hok : Forgets n ok)
    {p₀ p : Process} (hn : n ≤ p₀.checks.length) (h : Reaches (processStep L P) ok p₀ p) :
    n ≤ p.checks.length ∧ Reaches (processStep L P) ok (p₀.since n) (p.since n) := by
  refine h.invariant (I := fun p => n ≤ p.checks.length ∧
    Reaches (processStep L P) ok (p₀.since n) (p.since n)) ⟨hn, .start⟩ ?_
  intro q event q' hq hstep hturned
  obtain ⟨hle, hreach⟩ := (processStep_turned hturned).since hok hq.1 hstep
  exact ⟨hle, hq.2.trans hreach⟩

section Honest

variable {pub : String → Option PublicKeySchedule} {outage : Prop}

/-- What is asked of the end points is asked for fewer checks. -/
theorem forgets_answering (n : Nat) : Forgets n (Answering L P pub outage) where
  world p event h := by
    cases event with
    | complete f turn =>
      intro x hx schedule hschedule
      refine (h x hx schedule hschedule).imp_left ?_
      rintro ⟨earlier, now, hserved, hdates⟩
      exact ⟨earlier, now, hserved, fun c hc => hdates c (List.mem_of_mem_drop hc)⟩
    | _ => trivial
  call _ _ _ _ _ := trivial
  check _ _ _ _ _ := trivial
  resume _ _ _ := trivial

/-- **Clearing the cache recovers.** After any run at all, in which any end point may have
answered anything, let the cache be empty, as `clear_cache` leaves it. Where from then on the
honest end points answer from their schedules or are out, also to the requests that were under
way, every check that begins then and ends comes to the verdict its creator's schedule
gives. -/
theorem recovered_of_reaches (hpub : ∀ e s, pub e = some s → Steady L P s) {p₀ p : Process}
    (hbefore : Reaches (processStep L P) (fun _ _ => True) .start p₀)
    (hcleared : p₀.world.cache = .empty)
    (hreach : Reaches (processStep L P) (Answering L P pub outage) p₀ p) {c : Check}
    (hc : c ∈ p.checks.drop p₀.checks.length) {result : Except PyExc SignatureStatus}
    (hdone : c.stage = .done result) (hparsed : Parsed c.owid) {scheme : String}
    (hscheme : lower scheme ∈ acceptedSchemes) (hurl : publicKeyUrl c.owid scheme = .ok c.url)
    {schedule : PublicKeySchedule} (hschedule : pub (endPointOf c.url) = some schedule) :
    Verdict P schedule outage c.owid result := by
  have hlater := (reaches_since (forgets_answering _) (Nat.le_refl _) hreach).2
  have hstart : Heeds (TrueToAll pub) (TellsOf pub outage) (StandsAt P pub outage)
      (p₀.since p₀.checks.length) := by
    rw [Process.since, List.drop_length]
    refine .of_cache ?_
    rw [hcleared]
    exact Sound.empty
  have hworld := world_of_reaches hbefore
  have hreached : Reaches (step L P) (fun _ _ => True) .start
      (p₀.since p₀.checks.length).world := hworld
  have hheeds := heeds_of_answering hpub hreached hstart hlater
  exact hheeds.verdict hc hdone hparsed hscheme hurl hschedule

end Honest

/-- An end point that gives the second key for whatever minute it is asked about. -/
def wrongTurn : Turn :=
  ⟨atMinute 300 minute300_le,
    fun _ => .ok (200, Lib.encodeUtf8 (plainText (rotatedSecond "2020-01-01T01:40:00Z"))),
    atMinute 300 minute300_le, atMinute 300 minute300_le⟩

/-- Signed with the first key while it is in force. -/
def timelyEnvelope : Envelope := markedEnvelope 90 66 minute90_le

theorem timelyEnvelope_url :
    publicKeyUrl timelyEnvelope.owid "https" = .ok (dateUrl endPointAB 90) :=
  publicKeyUrl_marked minute90_le

/-- Its check at the one end point, and at an honest one. -/
def wrongOutcome : Outcome SignatureStatus :=
  signatureStatusAtUrl laterStdlib .plain (fun _ => wrongTurn) Cache.empty timelyEnvelope.owid
    (dateUrl endPointAB 90)

def timelyOutcome : Outcome SignatureStatus :=
  checkLatest Cache.empty timelyEnvelope.owid (dateUrl endPointAB 90)

theorem wrongOutcome_result : wrongOutcome.result = .ok .keyUnavailable := by decide +kernel

theorem timelyOutcome_result : timelyOutcome.result = .ok .signatureValid := by decide +kernel

/-- A check that is answered with the wrong key, the cache cleared, and a check of the same OWID
once the creator answers. -/
theorem recovered_of_reaches_rotated :
    ∃ (p₀ p : Process) (c₀ c : Check),
      Reaches (processStep laterStdlib Provider.plain) (fun _ _ => True) .start p₀ ∧
      p₀.checks = [c₀] ∧ c₀.owid = timelyEnvelope.owid ∧ c₀.stage = .done (.ok .keyUnavailable) ∧
      Reaches (processStep laterStdlib .plain) (Answering laterStdlib .plain everywhere False)
        p₀ p ∧
      p.checks.drop 1 = [c] ∧ c.owid = timelyEnvelope.owid ∧
      c.stage = .done (.ok .signatureValid) ∧
      Verdict .plain (rotated secondStart_lt) False timelyEnvelope.owid (.ok .signatureValid) := by
  obtain ⟨w₁, k₁, hfirst, hquiet, -⟩ := Quiet.start.check (p := .start) laterStdlib .plain
    0 timelyEnvelope.owid (dateUrl endPointAB 90) (fun _ => wrongTurn)
  let c₀ : Check := ⟨timelyEnvelope.owid, dateUrl endPointAB 90, 0, k₁, .done (.ok .keyUnavailable)⟩
  have hwrong : Reaches (processStep laterStdlib .plain) (TakesTurns fun _ => wrongTurn) .start
      ⟨w₁, [c₀]⟩ := by
    have hempty : Process.start.world.cache = Cache.empty := rfl
    have hresult := wrongOutcome_result
    rw [wrongOutcome, ← hempty] at hresult
    rw [hresult] at hfirst
    exact hfirst
  let p₀ : Process := ⟨w₁.clearCache.tick, [c₀]⟩
  have hcleared : step laterStdlib .plain w₁ .clearCache = some w₁.clearCache.tick :=
    Stepped.cleared.step
  have hbefore : Reaches (processStep laterStdlib .plain) (fun _ _ => True) .start p₀ :=
    .next (.world .clearCache) (hwrong.mono fun _ _ _ => trivial) trivial
      (Turned.world (p := ⟨w₁, [c₀]⟩) hcleared).step
  have hquiet₀ : Quiet w₁.clearCache.tick := ⟨hquiet.idle, fun _ => rfl⟩
  obtain ⟨w, k, hreach, -⟩ := hquiet₀.checked rfl timelyOutcome_result [c₀]
  let c : Check := ⟨timelyEnvelope.owid, dateUrl endPointAB 90, 0, k, .done (.ok .signatureValid)⟩
  exact ⟨p₀, _, c₀, c, hbefore, rfl, rfl, rfl, hreach, rfl, rfl, rfl, recovered_of_reaches
    everywhere_steady hbefore rfl hreach (List.mem_singleton_self c) rfl (parsed_envelope _)
    https_accepted timelyEnvelope_url rfl⟩

end Fetch

end OpenWebId
