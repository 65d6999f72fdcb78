import OpenWebId.Verdicts

/-!
# What `public_key_pem` gives its callers

`AllTold` follows the keys the checks of a process are told. Here the same is done for every
caller of `_key_at_url`, which is what `public_key_pem` makes of its caller: `AllAnswered` is the
rule for what the callers of a run come to.

Where the end point is honest a caller comes to what is `Given` by its creator's schedule: the
key in force at the OWID's date, or the one in force at the creator's now where that is before
the date (`given_of_reaches`). So a key that is handed out checks the OWID as the schedule
itself does. What fails leaves the key unavailable.
-/

namespace OpenWebId

namespace Fetch

open Lib (Reaches run)

variable {σ κ : Type}

/-! ## What the callers come to -/

/-- What every caller comes to is something `T` allows of its URL. -/
def AllAnswered (T : String → Except PyExc KeyAnswer → Prop) (w : World) : Prop :=
  ∀ (k : Nat) caller, w.callers[k]? = some caller → ∀ result, w.comesTo k = some result →
    T caller.url result

/-- `T` allows what a step can answer a caller with: a key held, the end of a fetch, and a
cancellation. -/
structure Gives (L : Stdlib) (P : Provider σ κ) (T : String → Except PyExc KeyAnswer → Prop)
    (w : World) (event : Event) : Prop where
  held : ∀ now url answer, heldFor w.cache now (endPointOf url) url = some answer →
    T url (.ok answer)
  completed : ∀ (f : Nat) turn, event = .complete f turn → ∀ x, w.fetches[f]? = some x →
    T x.url (x.completion L P (.complete f turn))
  cancelled : ∀ url, T url (.error .cancelledError)

section Callers

variable {L : Stdlib} {P : Provider σ κ}

/-- A caller that is new has just called. -/
theorem Stepped.new_caller {w w' : World} {event : Event} (h : Stepped L P w event w') {k : Nat}
    {caller : Caller} (hk : w'.callers[k]? = some caller) (hnew : w.callers.length ≤ k) :
    k = w.callers.length ∧ ∃ loop url domain now, event = .call loop url domain now := by
  obtain ⟨hlt, -⟩ := List.getElem?_eq_some_iff.mp hk
  have hlength : w'.callers.length = w.callers.length → False := by
    intro hsame
    omega
  cases h with
  | answered | joined | led =>
    refine ⟨?_, _, _, _, _, rfl⟩
    have hone : k < w.callers.length + 1 := by
      have hlast := hlt
      simp only [World.addCaller, List.length_append, List.length_singleton] at hlast
      exact hlast
    omega
  | received | abandoned => exact (hlength List.length_set).elim
  | shutdown => exact (hlength (List.length_map _)).elim
  | created | entered | skipped | held | failed | thrown | resolved | cleared =>
    exact (hlength rfl).elim

variable {T : String → Except PyExc KeyAnswer → Prop}

/-- **The rule for what the callers come to.** -/
theorem AllAnswered.step {w w' : World} {event : Event} (h : AllAnswered T w) (hw : Coherent w)
    (hsep : Separate w) (hT : Gives L P T w event) (hstepped : Stepped L P w event w') :
    AllAnswered T w' := by
  intro k caller hk result hresult
  by_cases hnew : w.callers.length ≤ k
  · obtain ⟨rfl, loop, url, domain, now, rfl⟩ := hstepped.new_caller hk hnew
    obtain ⟨caller', hk', rfl, hcame⟩ := hstepped.came_new hw hsep
    cases hk.symm.trans hk'
    obtain ⟨answer, hheld, rfl⟩ := hcame result hresult
    exact hT.held now caller.url answer hheld
  · rw [Nat.not_le] at hnew
    obtain ⟨caller', hk', hurl, hcame⟩ := hstepped.came hw hsep (List.getElem?_eq_getElem hnew)
    cases hk.symm.trans hk'
    have hbefore := h k w.callers[k] (List.getElem?_eq_getElem hnew)
    rw [hurl]
    cases hcame with
    | kept hsame => exact hbefore result (hsame.symm.trans hresult)
    | cancelled hafter =>
      cases hafter.symm.trans hresult
      exact hT.cancelled _
    | @completed f y hwaiting hy hevent hafter =>
      cases hafter.symm.trans hresult
      -- the fetch is for the URL the caller called for
      obtain ⟨y', hy', hyurl, -⟩ := hw.waiting w.callers[k] (List.getElem_mem hnew) f hwaiting
      cases hy.symm.trans hy'
      rw [← hyurl]
      rcases hevent with ⟨turn, rfl⟩ | rfl
      · exact hT.completed f turn rfl y hy
      · exact hT.cancelled y.url

end Callers

/-! ## The callers of honest end points -/

/-- What a caller is given for an OWID of the date, where no creator's now is before the moment
`since`. -/
inductive Given (schedule : PublicKeySchedule) (outage : Prop) (since date : DateTime) :
    Except PyExc KeyAnswer → Prop
  /-- The key in force at the date. -/
  | inForce {key : DatedPublicKey} {answer : KeyAnswer} (hkey : schedule.keyInForce date = some key)
      (hpem : answer.pem = key.publicKeyPem) : Given schedule outage since date (.ok answer)
  /-- The date is after the creator's now, and the key is the one in force then. -/
  | ahead {now : DateTime} {key : DatedPublicKey} {answer : KeyAnswer} (hsince : since ≤ now)
      (hnow : now < date) (hkey : schedule.keyInForce now = some key)
      (hpem : answer.pem = key.publicKeyPem) : Given schedule outage since date (.ok answer)
  /-- The creator has no key for the date, or the date is after its now. -/
  | none {now : DateTime} {e : PyExc} (hsince : since ≤ now)
      (hstatus : failedStatus e = .ok .keyUnavailable)
      (hkey : date ≤ now → schedule.keyInForce date = none) :
      Given schedule outage since date (.error e)
  | lost {e : PyExc} (houtage : outage) (hstatus : failedStatus e = .ok .keyUnavailable) :
      Given schedule outage since date (.error e)
  | cancelled : Given schedule outage since date (.error .cancelledError)

/-- The honest end points answer from their schedules as far as they were published, at a now
that is not before the moment `since`, or are out. -/
def AnsweringCalls (L : Stdlib) (P : Provider σ κ) (pub : String → Option PublicKeySchedule)
    (outage : Prop) (since : DateTime) : World → Event → Prop :=
  Responds pub (fun _ turn x schedule =>
    ∃ earlier now, AnsweredFrom L P schedule earlier now turn x.url ∧ since ≤ now) outage

section Honest

variable {L : Stdlib} {P : Provider σ κ} {pub : String → Option PublicKeySchedule}
  {outage : Prop} {since : DateTime}

/-- What is told of a minute is given of a date at that minute. -/
theorem Told.given {schedule : PublicKeySchedule} {minute : Nat} {result : Except PyExc KeyAnswer}
    (h : Told schedule outage since minute result) {date : DateTime}
    (hdate : date.micros = minute * microsPerMinute) : Given schedule outage since date result := by
  have hforce : ∀ {pem : String}, InForceAt schedule minute pem →
      ∃ key, schedule.keyInForce date = some key ∧ pem = key.publicKeyPem := by
    rintro pem ⟨moment, key, hmicros, hkey, hpem⟩
    have hat : moment = date := DateTime.ext (hmicros.trans hdate.symm)
    exact ⟨key, hat ▸ hkey, hpem.symm⟩
  cases h with
  | lost houtage hstatus => exact .lost houtage hstatus
  | cancelled => exact .cancelled
  | @learned now _ hnow hlearned =>
    cases hlearned with
    | @none e hstatus _ hpast =>
      refine .none hnow hstatus fun hle => ?_
      cases hkey : schedule.keyInForce date with
      | none => rfl
      | some key =>
        have hat : InForceAt schedule minute key.publicKeyPem := ⟨date, key, hdate, hkey, rfl⟩
        exact absurd hat (hpast (hdate ▸ hle) _)
    | @key answer _ hpast hfuture =>
      rcases Int.lt_or_le now.micros (minute * microsPerMinute) with hlt | hle
      · rcases hfuture hlt with hat | ⟨key, hkey, hpem⟩
        · obtain ⟨key, hkey, hpem⟩ := hforce hat
          exact .inForce hkey hpem
        · have hahead : now < date := by
            show now.micros < date.micros
            rw [hdate]
            exact hlt
          exact .ahead hnow hahead hkey hpem.symm
      · obtain ⟨key, hkey, hpem⟩ := hforce (hpast hle).1
        exact .inForce hkey hpem

/-- Every step answers the callers with what the schedules say. -/
theorem AnsweringCalls.gives (hpub : ∀ e s, pub e = some s → Steady L P s) {w : World}
    {event : Event} (hcache : TrueToAll pub w.cache)
    (hok : AnsweringCalls L P pub outage since w event) :
    Gives L P (TellsAt pub outage since) w event where
  held now url answer hheld := hcache.told since hheld
  completed f turn hevent x hx := by
    subst hevent
    refine tellsAt_completion hpub fun schedule hschedule => ?_
    refine (hok x hx schedule hschedule).imp_left fun hserved => ?_
    exact hserved
  cancelled url base schedule minute _ _ _ _ _ := .cancelled

/-- In every run the callers are answered with what the schedules say. -/
theorem answered_of_reaches (hpub : ∀ e s, pub e = some s → Steady L P s) {w : World}
    (h : Reaches (step L P) (AnsweringCalls L P pub outage since) .start w) :
    TrueToAll pub w.cache ∧ AllAnswered (TellsAt pub outage since) w := by
  have hknown : ∀ w, Reaches (step L P) (AnsweringCalls L P pub outage since) .start w →
      Coherent w ∧ Separate w := by
    intro w hw
    have hany : Reaches (step L P) (fun _ _ => True) .start w := hw.mono fun _ _ _ => trivial
    exact ⟨coherent_of_reaches hany, separate_of_reaches hany⟩
  have hstart : TrueToAll pub World.start.cache ∧
      AllAnswered (TellsAt pub outage since) .start :=
    ⟨Sound.empty, fun k caller hk => by cases hk⟩
  refine h.invariant_of (I := fun w => TrueToAll pub w.cache ∧
    AllAnswered (TellsAt pub outage since) w) _ hknown hstart ?_
  intro w event w' hw hw' hok hstep
  obtain ⟨hcache, hanswered⟩ := hw'
  obtain ⟨w₁, hstepped, rfl⟩ := step_stepped hstep
  have hnext : AllAnswered (TellsAt pub outage since) w₁ :=
    hanswered.step hw.1 hw.2 (hok.gives hpub hcache) hstepped
  refine ⟨?_, hnext⟩
  show TrueToAll pub w₁.cache
  rcases hstepped.cache_after with hsame | ⟨-, hcleared⟩ | ⟨f, turn, x, pem, start, stop, rfl, hx,
    hfetch, hheld⟩
  · rwa [hsame]
  · rw [hcleared]
    exact Sound.empty
  · rw [hheld]
    exact hcache.hold hpub (fun s hs => (hok x hx s hs).imp
      (fun ⟨earlier, now, hserved, _⟩ => ⟨earlier, now, hserved⟩) And.right) hfetch

/-- **What `public_key_pem` gives its callers.** In any interleaving of callers on any number
of loops, requests, cancellations, shutdowns and clearings, in which the honest end points
answer from their schedules, at a now no earlier than `since`, or are out: a caller that asks for
the key of an OWID that was read, at an honest end point, gets the key in force at the OWID's
date, or is told that there is none, or that the end point is out or it was cancelled. Only an
OWID dated after `since` may get the key in force at an earlier creator's now instead. -/
theorem given_of_reaches (hpub : ∀ e s, pub e = some s → Steady L P s) {w : World}
    (hreach : Reaches (step L P) (AnsweringCalls L P pub outage since) .start w) {k : Nat}
    {caller : Caller} (hk : w.callers[k]? = some caller) {result : Except PyExc KeyAnswer}
    (hresult : w.returned k = some result) {owid : Owid} (hparsed : Parsed owid) {scheme : String}
    (hscheme : lower scheme ∈ acceptedSchemes)
    (hurl : publicKeyUrl owid scheme = .ok caller.url) {schedule : PublicKeySchedule}
    (hschedule : pub (endPointOf caller.url) = some schedule) :
    Given schedule outage since owid.date result := by
  obtain ⟨minute, hminute, hdate⟩ := hparsed.date
  have hcount := minutesSinceBase_of_whole hdate
  obtain ⟨hc_url, hdomain, -⟩ := publicKeyUrl_ok hurl (by rw [hcount]; exact Int.natCast_nonneg _)
  rw [hcount, Int.toNat_natCast] at hc_url
  have hclean : Clean (endPoint scheme owid.domain owid.version) :=
    endPoint_clean (isAlpha_of_accepted hscheme) hdomain
  have hasks : asks caller.url = true := hc_url ▸ asks_dateUrl hscheme hdomain minute
  rw [hc_url, endPointOf_dateUrl hclean] at hschedule
  have htold := (answered_of_reaches hpub hreach).2 k caller hk result
    (World.comesTo_of_returned hresult)
  exact (htold _ schedule minute hschedule hclean hminute hasks hc_url).given hdate

end Honest

/-! ## Three callers -/

/-- Two loops call for minute 90 and share the request, and the second calls for minute 150. -/
def sharedCalls : List Event :=
  let now := atMinute 300 minute300_le
  [.call 0 (dateUrl endPointAB 90) "a.b" now, .createTask 0,
    .call 1 (dateUrl endPointAB 90) "a.b" now, .start 0, .complete 0 latestTurn, .resolve 0,
    .receive 0, .receive 1, .call 1 (dateUrl endPointAB 150) "a.b" now, .createTask 1, .start 1,
    .complete 1 latestTurn, .resolve 1, .receive 2]

theorem sharedCalls_answering (w : World) (event : Event) (h : event ∈ sharedCalls) :
    AnsweringCalls laterStdlib .plain everywhere False lastDate w event := by
  cases event with
  | complete f turn =>
    have hturn : turn = latestTurn := by
      simp only [sharedCalls, List.mem_cons, Event.complete.injEq, reduceCtorEq, false_or, or_false,
        List.not_mem_nil] at h
      rcases h with ⟨-, hturn⟩ | ⟨-, hturn⟩ <;> exact hturn
    intro x hx schedule hschedule
    cases hschedule
    rw [hturn]
    exact Or.inl ⟨_, _, latestTurn_answered x.url, Int.le_refl _⟩
  | _ => trivial

/-- The PEM that a caller was given. -/
def World.pemGiven (w : World) (k : Nat) : Option String :=
  (w.returned k).bind fun result => result.toOption.map KeyAnswer.pem

theorem World.pemGiven_some {w : World} {k : Nat} {pem : String} (h : w.pemGiven k = some pem) :
    ∃ answer, w.returned k = some (.ok answer) ∧ answer.pem = pem := by
  obtain ⟨result, hresult, hpem⟩ := Option.bind_eq_some_iff.mp h
  cases result with
  | error e => cases hpem
  | ok answer => exact ⟨answer, hresult, Option.some.inj hpem⟩

theorem sharedCalls_run :
    (run (step laterStdlib .plain) .start sharedCalls).map (fun w =>
        (w.callers.map Caller.url, w.fetches.length, w.pemGiven 1, w.pemGiven 2)) =
      some ([dateUrl endPointAB 90, dateUrl endPointAB 90, dateUrl endPointAB 150], 2,
        some "A", some "B") := by
  decide +kernel

/-- The caller that joined the first request is given the first key, and the one that asked for
the later minute the second. -/
theorem given_of_reaches_rotated :
    ∃ (w : World) (first second : KeyAnswer),
      Reaches (step laterStdlib .plain)
        (AnsweringCalls laterStdlib .plain everywhere False lastDate) .start w ∧
      w.fetches.length = 2 ∧
      w.returned 1 = some (.ok first) ∧ first.pem = "A" ∧
      w.returned 2 = some (.ok second) ∧ second.pem = "B" ∧
      Given (rotated secondStart_lt) False lastDate earlyEnvelope.owid.date (.ok first) ∧
      Given (rotated secondStart_lt) False lastDate staleEnvelope.owid.date (.ok second) := by
  obtain ⟨w, hrun, hfacts⟩ := Option.map_eq_some_iff.mp sharedCalls_run
  have hreach : Reaches (step laterStdlib .plain)
      (AnsweringCalls laterStdlib .plain everywhere False lastDate) .start w :=
    .of_run sharedCalls (.of_events (fun event hevent w => sharedCalls_answering w event hevent) _)
      hrun
  simp only [Prod.mk.injEq] at hfacts
  obtain ⟨hurls, hfetches, hfirst, hsecond⟩ := hfacts
  obtain ⟨first, hreturned₁, hpem₁⟩ := World.pemGiven_some hfirst
  obtain ⟨second, hreturned₂, hpem₂⟩ := World.pemGiven_some hsecond
  have hcaller : ∀ (k : Nat) url, (w.callers.map Caller.url)[k]? = some url →
      ∃ caller : Caller, w.callers[k]? = some caller ∧ caller.url = url := by
    intro k url hurl
    rw [List.getElem?_map] at hurl
    exact Option.map_eq_some_iff.mp hurl
  obtain ⟨caller₁, hk₁, hurl₁⟩ := hcaller 1 (dateUrl endPointAB 90) (by rw [hurls]; rfl)
  obtain ⟨caller₂, hk₂, hurl₂⟩ := hcaller 2 (dateUrl endPointAB 150) (by rw [hurls]; rfl)
  refine ⟨w, first, second, hreach, hfetches, hreturned₁, hpem₁, hreturned₂, hpem₂, ?_, ?_⟩
  · exact given_of_reaches everywhere_steady hreach hk₁ hreturned₁ (parsed_envelope _)
      https_accepted (hurl₁ ▸ earlyEnvelope_url) rfl
  · exact given_of_reaches everywhere_steady hreach hk₂ hreturned₂ (parsed_envelope _)
      https_accepted (hurl₂ ▸ staleEnvelope_url) rfl

end Fetch

end OpenWebId
