import OpenWebId.Ahead
import OpenWebId.Alone

/-!
# The verdicts of concurrent checks agree with the schedules

`signatureStatus_agrees` is about one check after another. Here the checks of a process
run among each other on any number of loops, join each other's requests, are cancelled,
lose their loops and see the cache cleared, and some of the end points asked are not
honest. Each check of an OWID whose own end point is honest comes to the verdict its
creator's schedule gives, or is told that it was cancelled.

`pub` names the honest end points and the schedules they have published in the end; they may
have answered from less of them (`AnsweredFrom`). The cache is true to all
of them (`TrueToAll`), so what a check is told of a minute, from the cache or through a
request it shares, is `Told`. `Judged` follows a check through its stages: a key it goes on
to a neighbour of is one it tried (`Tried`), and what it ends with is a `Verdict`. An end
point that may be out for a time (`outage`) leaves keys unavailable and nothing else wrong.
-/

namespace OpenWebId

namespace Fetch

open Lib (Reaches)

variable {σ κ : Type}

/-- What a check of an OWID of this date is told of a minute: what its creator says at a
now that is not before the date, that the end point is out, or that it is cancelled. -/
inductive Told (schedule : PublicKeySchedule) (outage : Prop) (date : DateTime) (minute : Nat) :
    Except PyExc KeyAnswer → Prop
  | learned {now : DateTime} {result : Except PyExc KeyAnswer} (hnow : date ≤ now)
      (h : Learned schedule now minute result) : Told schedule outage date minute result
  | lost {e : PyExc} (houtage : outage) (hstatus : failedStatus e = .ok .keyUnavailable)
      (howid : e.isOwidError = true) : Told schedule outage date minute (.error e)
  | cancelled : Told schedule outage date minute (.error .cancelledError)

/-- What a check comes to, against its creator's schedule. -/
inductive Verdict (P : Provider σ κ) (schedule : PublicKeySchedule) (outage : Prop)
    (owid : Owid) : Except PyExc SignatureStatus → Prop
  | schedule : Verdict P schedule outage owid (.ok (schedule.signatureStatus P owid))
  /-- The signature does not match under the schedule's key, and is valid under the key just
  beyond an edge of its period. -/
  | beyond {minute : Int} {pem : String} (hdate : owid.date.micros = minute * microsPerMinute)
      (hforce : InForceAt schedule minute pem)
      (hinvalid : schedule.signatureStatus P owid = .signatureInvalid)
      (hbeyond : VerifiesBeyond P schedule owid minute pem) :
      Verdict P schedule outage owid (.ok .signatureValid)
  | lost (houtage : outage) : Verdict P schedule outage owid (.ok .keyUnavailable)
  | cancelled : Verdict P schedule outage owid (.error .cancelledError)

/-- The key is the one the OWID's minute selects, its stated span is honest and covers the
minute, and the signature does not match under it. -/
structure Tried (P : Provider σ κ) (schedule : PublicKeySchedule) (owid : Owid) (minute : Nat)
    (tried : KeyAnswer) : Prop where
  known : tried.known = true
  honest : Honest schedule tried
  covers : tried.covers minute = true
  inForce : InForceAt schedule minute tried.pem
  invalid : owid.signatureStatus P tried.pem = .signatureInvalid

/-- Where a check of an OWID dated at the minute can stand. -/
inductive Judged (P : Provider σ κ) (schedule : PublicKeySchedule) (outage : Prop) (owid : Owid)
    (minute : Nat) : Stage → Prop
  | own : Judged P schedule outage owid minute .own
  | neighbour {tried : KeyAnswer} {m : Int} {rest : List Int}
      (htried : Tried P schedule owid minute tried) (hm : m ∈ beyond minute tried)
      (hrest : ∀ n ∈ rest, n ∈ beyond minute tried) :
      Judged P schedule outage owid minute (.neighbour tried m rest)
  | done {result : Except PyExc SignatureStatus} (h : Verdict P schedule outage owid result) :
      Judged P schedule outage owid minute (.done result)

/-! ## One check -/

section One

variable {L : Stdlib} {P : Provider σ κ} {schedule : PublicKeySchedule} {outage : Prop}
  {owid : Owid} {minute : Nat}

/-- A check told no more than the schedule says of it ends with the schedule's verdict. -/
theorem Tried.verdict {tried : KeyAnswer} (h : Tried P schedule owid minute tried)
    (hdate : owid.date.micros = minute * microsPerMinute) :
    Verdict P schedule outage owid (.ok (unverified owid tried)) := by
  have hnot : ¬ (tried.known = true ∧ tried.covers (minutesSinceBase owid.date) = false) := by
    rw [minutesSinceBase_of_whole hdate, h.covers]
    exact fun hboth => Bool.noConfusion hboth.2
  have hschedule : schedule.signatureStatus P owid = .signatureInvalid :=
    (signatureStatus_of_inForceAt hdate h.inForce).trans h.invalid
  rw [unverified, if_neg hnot, ← hschedule]
  exact .schedule

/-- From the head of the loop over the neighbours a check stands where it can. -/
theorem Tried.askNext {tried : KeyAnswer} (h : Tried P schedule owid minute tried)
    (hdate : owid.date.micros = minute * microsPerMinute) {minutes : List Int}
    (hminutes : ∀ n ∈ minutes, n ∈ beyond minute tried) :
    Judged P schedule outage owid minute (askNext owid tried minutes).stage := by
  cases minutes with
  | nil => exact .done (h.verdict hdate)
  | cons m rest =>
    exact .neighbour h (hminutes m (List.mem_cons_self ..))
      fun n hn => hminutes n (List.mem_cons_of_mem _ hn)

/-- What a check does with what it is told of its own minute. -/
theorem Told.afterOwn (hdate : owid.date.micros = minute * microsPerMinute)
    {result : Except PyExc KeyAnswer} (h : Told schedule outage owid.date minute result) :
    Judged P schedule outage owid minute (afterOwn P owid result).stage := by
  cases h with
  | lost houtage hstatus =>
    refine .done ?_
    rw [hstatus]
    exact .lost houtage
  | cancelled => exact .done .cancelled
  | @learned now _ hnow hlearned =>
    have hpastNow : (minute : Int) * microsPerMinute ≤ now.micros := by
      rw [← hdate]
      exact hnow
    cases hlearned with
    | @none e hstatus _ hpast =>
      refine .done ?_
      rw [hstatus, ← signatureStatus_of_none (P := P) hdate (hpast hpastNow)]
      exact .schedule
    | @key answer honest hpast =>
      obtain ⟨hforce, hcovers⟩ := hpast hpastNow
      have hschedule := signatureStatus_of_inForceAt (P := P) hdate hforce
      unfold Fetch.afterOwn
      simp only
      split
      next =>
        rw [← hschedule]
        exact .done .schedule
      next hinvalid =>
        rw [Decidable.not_not] at hinvalid
        rw [minutesSinceBase_of_whole hdate, if_neg (Int.not_lt.mpr (Int.natCast_nonneg minute))]
        split
        next =>
          rw [← hschedule]
          exact .done .schedule
        next hknown =>
          rw [Bool.not_eq_false] at hknown
          have htried : Tried P schedule owid minute answer :=
            ⟨hknown, honest, hcovers hknown, hforce, hinvalid⟩
          exact htried.askNext hdate fun n hn => hn

/-- What a check does with what it is told of a minute just beyond an edge. -/
theorem Told.afterNeighbour (hsteady : Steady L P schedule) {tried : KeyAnswer}
    (htried : Tried P schedule owid minute tried)
    (hdate : owid.date.micros = minute * microsPerMinute) {m : Int} {rest : List Int}
    (hm : m ∈ beyond minute tried) (hrest : ∀ n ∈ rest, n ∈ beyond minute tried)
    {result : Except PyExc KeyAnswer} (h : Told schedule outage owid.date m.toNat result) :
    Judged P schedule outage owid minute (afterNeighbour P owid tried rest result).stage := by
  have hnext : Judged P schedule outage owid minute (Fetch.askNext owid tried rest).stage :=
    htried.askNext hdate hrest
  cases h with
  | lost _ _ howid =>
    simp only [Fetch.afterNeighbour, if_pos howid]
    exact hnext
  | cancelled => exact .done .cancelled
  | @learned now _ hnow hlearned =>
    cases hlearned with
    | none _ howid =>
      simp only [Fetch.afterNeighbour, if_pos howid]
      exact hnext
    | @key neighbour _ hpast hfuture =>
      unfold Fetch.afterNeighbour
      simp only
      split
      next => exact hnext
      next hpem =>
        split
        next hvalid =>
          have hpastNow : (minute : Int) * microsPerMinute ≤ now.micros := by
            rw [← hdate]
            exact hnow
          have hask := hsteady.beyond_askable hsteady.noReturn htried.honest htried.known
            (Int.natCast_nonneg minute) htried.covers htried.inForce (fun _ => hpastNow) hm
          rw [Int.toNat_of_nonneg hask.nonneg] at hpast hfuture
          have hother : InForceAt schedule m neighbour.pem := by
            rcases Int.lt_or_le now.micros (m * microsPerMinute) with hlt | hle
            · rcases hfuture hlt with hforce | ⟨key, hkey, hsame⟩
              · exact hforce
              · -- the creator answered for its now, and that is the key already tried
                exact absurd (hsame.symm.trans (hask.future 0 hlt key hkey)) hpem
            · exact (hpast hle).1
          have hinvalid : schedule.signatureStatus P owid = .signatureInvalid :=
            (signatureStatus_of_inForceAt hdate htried.inForce).trans htried.invalid
          exact .done (.beyond hdate htried.inForce hinvalid
            (verifiesBeyond_of_mem hsteady.noReturn htried.honest htried.known hm hother hpem
              hvalid))
        next => exact hnext

end One

/-! ## What the checks are told -/

section Run

variable {L : Stdlib} {P : Provider σ κ} {pub : String → Option PublicKeySchedule}
  {outage : Prop}

/-- What the cache knows of the honest end points is true of their schedules. -/
def TrueToAll (pub : String → Option PublicKeySchedule) (cache : Cache) : Prop :=
  Sound (fun endPoint minute pem =>
    ∀ schedule, pub endPoint = some schedule → InForceAt schedule minute pem) cache

/-- The end of a request to an end point that `of` knows is answered as `answered` says, or the
end point is out and sends no key. -/
def Responds {α : Type} (of : String → Option α) (answered : Nat → Turn → Fetching → α → Prop)
    (outage : Prop) (w : World) : Event → Prop
  | .complete f turn => ∀ x, w.fetches[f]? = some x → ∀ a, of (endPointOf x.url) = some a →
      answered f turn x a ∨ (outage ∧ ∀ body, turn.reply x.url ≠ .ok (200, body))
  | _ => True

/-- The same of a process. -/
def ProcessResponds {α : Type} (of : String → Option α)
    (answered : Process → Nat → Turn → Fetching → α → Prop) (outage : Prop) (p : Process) :
    ProcessEvent → Prop
  | .world event => Responds of (answered p) outage p.world event
  | _ => True

/-- An answer of an honest end point comes from its schedule as far as it was published, at a
now that is not before the date of an OWID whose check awaits it. An end point that is out
sends no key. -/
def Answering (L : Stdlib) (P : Provider σ κ) (pub : String → Option PublicKeySchedule) :
    (outage : Prop) → Process → ProcessEvent → Prop :=
  ProcessResponds pub fun p f turn x schedule =>
    ∃ earlier now, AnsweredFrom L P schedule earlier now turn x.url ∧
      ∀ c ∈ p.checks, c.Awaits p.world f → c.owid.date ≤ now

/-- An answer of an honest end point comes from its schedule as far as it was published, at
any now at all, or it sends no key. -/
def AnsweringAnyDate (L : Stdlib) (P : Provider σ κ) (pub : String → Option PublicKeySchedule) :
    Process → ProcessEvent → Prop :=
  ProcessResponds pub (fun _ _ turn x schedule =>
    ∃ earlier now, AnsweredFrom L P schedule earlier now turn x.url) True

/-- What is told of a URL at a now that is not before the date, where an honest end point is
asked about a minute. -/
def TellsAt (pub : String → Option PublicKeySchedule) (outage : Prop) (date : DateTime)
    (url : String) (result : Except PyExc KeyAnswer) : Prop :=
  ∀ base schedule (minute : Nat), pub base = some schedule → Clean base →
    minute ≤ 0xFFFFFFFF → asks url = true → url = dateUrl base minute →
    Told schedule outage date minute result

/-- What a check of this OWID is told of a URL. -/
def TellsOf (pub : String → Option PublicKeySchedule) (outage : Prop) (owid : Owid) (url : String)
    (result : Except PyExc KeyAnswer) : Prop :=
  TellsAt pub outage owid.date url result

/-- Where a check of this OWID can stand at this URL, where it names an honest end point and
the OWID's own minute. -/
def StandsAt (P : Provider σ κ) (pub : String → Option PublicKeySchedule) (outage : Prop)
    (owid : Owid) (url : String) (stage : Stage) : Prop :=
  ∀ base schedule (minute : Nat), pub base = some schedule → Clean base →
    minute ≤ 0xFFFFFFFF → (∀ m, asks (dateUrl base m) = true) →
    owid.date.micros = minute * microsPerMinute → url = dateUrl base minute →
    Judged P schedule outage owid minute stage

theorem inForceAt_runs (hpub : ∀ e s, pub e = some s → Steady L P s) (endPoint pem : String) :
    {minute | ∀ s, pub endPoint = some s → InForceAt s minute pem}.OrdConnected := by
  refine ⟨fun a ha b hb m hm s hs => ?_⟩
  exact (inForceAt_run (hpub endPoint s hs).noReturn pem).out (ha s hs) (hb s hs) hm

/-- An answer that is held keeps the cache true. -/
theorem TrueToAll.hold (hpub : ∀ e s, pub e = some s → Steady L P s) {cache : Cache}
    (hcache : TrueToAll pub cache) {turn : Turn} {url domain : String}
    (hanswer : ∀ schedule, pub (endPointOf url) = some schedule →
      (∃ earlier now, AnsweredFrom L P schedule earlier now turn url) ∨
        ∀ body, turn.reply url ≠ .ok (200, body)) {pem : String} {start stop : Option Int}
    (hfetch : fetch L P turn url domain = .ok (pem, start, stop)) :
    TrueToAll pub (hold cache turn.holdNow turn.holdLater (endPointOf url) url pem start
      stop).2 := by
  rw [hold_eq]
  simp only
  split
  next => exact hcache
  next new hnew =>
    refine Sound.record (inForceAt_runs hpub) hcache ?_
    intro minute hfirst hlast s hs
    rcases hanswer s hs with ⟨earlier, now, hserved⟩ | hout
    · obtain ⟨asked, key, hasked, hkey, rfl, rfl, rfl⟩ := hserved.fetched hfetch
      exact hserved.confirmed (hpub _ s hs) hasked hkey hnew hfirst hlast
    · obtain ⟨-, body, -, -, -, hbody, -⟩ := fetch_ok hfetch
      exact absurd hbody (hout body)

/-- The end of a fetch tells what its end point says. -/
theorem tellsAt_completion (hpub : ∀ e s, pub e = some s → Steady L P s) {f : Nat} {turn : Turn}
    {y : Fetching} {date : DateTime}
    (hanswer : ∀ schedule, pub (endPointOf y.url) = some schedule →
      (∃ earlier now, AnsweredFrom L P schedule earlier now turn y.url ∧ date ≤ now) ∨
        (outage ∧ ∀ body, turn.reply y.url ≠ .ok (200, body))) :
    TellsAt pub outage date y.url (y.completion L P (.complete f turn)) := by
  intro base schedule minute hbase hclean hminute hasks hurl
  have hend : endPointOf y.url = base := by rw [hurl, endPointOf_dateUrl hclean]
  rcases hanswer schedule (hend ▸ hbase) with ⟨earlier, now, hserved, hnow⟩ | ⟨houtage, hout⟩
  · rw [hurl] at hasks hserved
    rcases hserved.learned (hpub base schedule hbase) hclean hminute hasks y.domain with
      ⟨e, hfetch, hlearned⟩ | ⟨key, -, hfetch, hlearned⟩
    · simp only [Fetching.completion, hurl, hfetch]
      exact .learned hnow hlearned
    · simp only [Fetching.completion, hurl, hfetch]
      exact .learned hnow hlearned
  · obtain ⟨e, hfetch, hstatus, howid⟩ := fetch_unanswered L P y.domain hasks hout
    simp only [Fetching.completion, hfetch]
    exact .lost houtage hstatus howid

/-- A key served from a true cache tells what the schedule says. -/
theorem TrueToAll.told {cache : Cache} (hcache : TrueToAll pub cache) (date : DateTime)
    {now : DateTime} {url : String} {answer : KeyAnswer}
    (hheld : heldFor cache now (endPointOf url) url = some answer) :
    TellsAt pub outage date url (.ok answer) := by
  intro base schedule minute hbase hclean hminute hasks hurl
  obtain ⟨minute', key, hminute', hkey, hfirst, hlast, rfl, -⟩ := heldFor_known hheld
  rw [hurl, endPointOf_dateUrl hclean] at hkey
  rw [hurl] at hminute'
  cases (namedMinute_dateUrl hclean hminute).symm.trans hminute'
  refine .learned (Int.le_refl _) (.of_held ?_ hminute hfirst hlast date)
  intro m hmfirst hmlast
  exact hcache base key.pem m ⟨key, hkey, rfl, hmfirst, hmlast⟩ schedule hbase

/-- Every step tells the checks what the schedules say. -/
theorem Answering.tells (hpub : ∀ e s, pub e = some s → Steady L P s) {p : Process}
    {event : ProcessEvent} (hcache : TrueToAll pub p.world.cache)
    (hok : Answering L P pub outage p event) : Tells L P (TellsOf pub outage) p event where
  held owid now url answer hheld := hcache.told owid.date hheld
  completed f turn hevent y hy x hx hawaits := by
    subst hevent
    refine tellsAt_completion hpub fun schedule hschedule => ?_
    refine (hok y hy schedule hschedule).imp_left fun hserved => ?_
    obtain ⟨earlier, now, hanswered, hnow⟩ := hserved
    exact ⟨earlier, now, hanswered, hnow x hx hawaits⟩
  cancelled owid url base schedule minute _ _ _ _ _ := .cancelled

/-- A check stays where it can stand. -/
theorem follows_standsAt (hpub : ∀ e s, pub e = some s → Steady L P s) :
    Follows P (TellsOf pub outage) (StandsAt P pub outage) where
  own owid url base schedule minute _ _ _ _ _ _ := .own
  after x url result goes hok hawaited htold hafter := by
    intro base schedule minute hbase hclean hminute hasks hdate hurl
    have hjudged := hok base schedule minute hbase hclean hminute hasks hdate hurl
    unfold Check.after at hafter
    unfold Check.awaited at hawaited
    cases hstage : x.stage with
    | done outcome =>
      rw [hstage] at hafter
      cases hafter
    | own =>
      rw [hstage] at hafter hawaited
      cases hafter
      cases hawaited
      exact (htold base schedule minute hbase hclean hminute (hurl ▸ hasks minute) hurl).afterOwn
        hdate
    | neighbour tried m rest =>
      rw [hstage] at hafter hawaited hjudged
      cases hafter
      cases hawaited
      cases hjudged with
      | neighbour htried hm hrest =>
        have hsteady := hpub base schedule hbase
        -- the minute is in the range of the field, as some now has passed the OWID's
        have hask := hsteady.beyond_askable hsteady.noReturn htried.honest htried.known
          (Int.natCast_nonneg minute) htried.covers htried.inForce
          (fun _ => Int.le_of_eq hdate.symm) hm
        have hfield := hask.inField
        have hnat : m.toNat ≤ 0xFFFFFFFF := by
          simp only [lastMinute] at hfield
          omega
        have hat : x.urlAt m = dateUrl base m.toNat := by
          rw [Check.urlAt, hurl, endPointOf_dateUrl hclean]
        have htold' := htold base schedule m.toNat hbase hclean hnat (hat ▸ hasks m.toNat) hat
        exact htold'.afterNeighbour hsteady htried hdate hm hrest

/-- A process that has checked nothing heeds any schedules. -/
theorem heeds_start :
    Heeds (TrueToAll pub) (TellsOf pub outage) (StandsAt P pub outage) .start := by
  have hempty : TrueToAll pub Cache.empty := Sound.empty
  exact Heeds.of_cache (w := .start) hempty

/-- In every run from a process that heeds the schedules, the cache is true, and the checks are
told what the schedules say and stand where they can. -/
theorem heeds_of_answering (hpub : ∀ e s, pub e = some s → Steady L P s) {p₀ p : Process}
    (hreached : Reaches (step L P) (fun _ _ => True) .start p₀.world)
    (hstart : Heeds (TrueToAll pub) (TellsOf pub outage) (StandsAt P pub outage) p₀)
    (hreach : Reaches (processStep L P) (Answering L P pub outage) p₀ p) :
    Heeds (TrueToAll pub) (TellsOf pub outage) (StandsAt P pub outage) p :=
  heeds_of_run (follows_standsAt hpub) Sound.empty
    (fun _ _ _ x _ _ _ hcache hok hx hfetch =>
      TrueToAll.hold hpub hcache (fun s hs => (hok x hx s hs).imp
        (fun ⟨earlier, now, hserved, _⟩ => ⟨earlier, now, hserved⟩) And.right) hfetch)
    (fun _ _ hcache hok => hok.tells hpub hcache) hreached hstart hreach

/-- Where a check stands that heeds the schedules: one of an OWID that was read, at an honest
end point, is at a stage it can be at for the OWID's own minute. -/
theorem Heeds.judged {p : Process}
    (h : Heeds (TrueToAll pub) (TellsOf pub outage) (StandsAt P pub outage) p) {c : Check}
    (hc : c ∈ p.checks) (hparsed : Parsed c.owid) {scheme : String}
    (hscheme : lower scheme ∈ acceptedSchemes) (hurl : publicKeyUrl c.owid scheme = .ok c.url)
    {schedule : PublicKeySchedule} (hschedule : pub (endPointOf c.url) = some schedule) :
    ∃ minute : Nat, Judged P schedule outage c.owid minute c.stage := by
  obtain ⟨minute, hminute, hdate⟩ := hparsed.date
  have hcount := minutesSinceBase_of_whole hdate
  obtain ⟨hc_url, hdomain, -⟩ := publicKeyUrl_ok hurl (by rw [hcount]; exact Int.natCast_nonneg _)
  rw [hcount, Int.toNat_natCast] at hc_url
  have hclean : Clean (endPoint scheme c.owid.domain c.owid.version) :=
    endPoint_clean (isAlpha_of_accepted hscheme) hdomain
  rw [hc_url, endPointOf_dateUrl hclean] at hschedule
  exact ⟨minute, h.follow c hc _ schedule minute hschedule hclean hminute
    (fun m => asks_dateUrl hscheme hdomain m) hdate hc_url⟩

/-- What a check that heeds the schedules comes to. -/
theorem Heeds.verdict {p : Process}
    (h : Heeds (TrueToAll pub) (TellsOf pub outage) (StandsAt P pub outage) p) {c : Check}
    (hc : c ∈ p.checks) {result : Except PyExc SignatureStatus} (hdone : c.stage = .done result)
    (hparsed : Parsed c.owid) {scheme : String} (hscheme : lower scheme ∈ acceptedSchemes)
    (hurl : publicKeyUrl c.owid scheme = .ok c.url) {schedule : PublicKeySchedule}
    (hschedule : pub (endPointOf c.url) = some schedule) :
    Verdict P schedule outage c.owid result := by
  obtain ⟨minute, hjudged⟩ := h.judged hc hparsed hscheme hurl hschedule
  rw [hdone] at hjudged
  cases hjudged with
  | done h => exact h

/-- **Concurrent checks agree with the schedules.** In any interleaving of callers, checks,
requests, cancellations, shutdowns and clearings, in which the honest end points answer
from their schedules or are out, a check that has ended of an OWID that was read, at an
honest end point, comes to the status its creator's schedule gives or is cancelled. The
exceptions are a signature that does not match under the schedule's key and is valid under
the key just beyond an edge of its period, and a key that an outage kept away. -/
theorem verdict_of_reaches (hpub : ∀ e s, pub e = some s → Steady L P s) {p : Process}
    (hreach : Reaches (processStep L P) (Answering L P pub outage) .start p) {c : Check}
    (hc : c ∈ p.checks) {result : Except PyExc SignatureStatus} (hdone : c.stage = .done result)
    (hparsed : Parsed c.owid) {scheme : String} (hscheme : lower scheme ∈ acceptedSchemes)
    (hurl : publicKeyUrl c.owid scheme = .ok c.url) {schedule : PublicKeySchedule}
    (hschedule : pub (endPointOf c.url) = some schedule) :
    Verdict P schedule outage c.owid result := by
  have hheeds := heeds_of_answering hpub .start heeds_start hreach
  exact hheeds.verdict hc hdone hparsed hscheme hurl hschedule

end Run

/-! ## Two checks of one process -/

/-- The two keys, published on every end point. -/
def everywhere (_ : String) : Option PublicKeySchedule := some (rotated secondStart_lt)

theorem everywhere_steady :
    ∀ e s, everywhere e = some s → Steady laterStdlib .plain s := by
  intro e s hs
  cases hs
  have hstarts : ∀ key ∈ (rotated secondStart_lt).keys, baseDate ≤ key.startsAt := by decide
  exact ⟨later_published, (rotated_distinct _).noReturn, hstarts⟩

theorem maxMoment_inRange : minMoment ≤ maxMoment ∧ maxMoment ≤ maxMoment :=
  ⟨by decide, Int.le_refl _⟩

/-- The latest moment there is. -/
def lastDate : DateTime := ⟨maxMoment, maxMoment_inRange⟩

/-- What a creator of the two keys answers a client at minute 300, when its own clock shows the
latest moment there is. -/
def latestTurn : Turn :=
  ⟨atMinute 300 minute300_le, serve laterStdlib .plain (rotated secondStart_lt) lastDate,
    atMinute 300 minute300_le, atMinute 300 minute300_le⟩

theorem latestTurn_answered (url : String) :
    AnsweredFrom laterStdlib .plain (rotated secondStart_lt) (rotated secondStart_lt) lastDate
      latestTurn url :=
  .refl (everywhere_steady "" _ rfl) rfl

theorem Undisturbed.answering {p : Process} {event : ProcessEvent}
    (h : Undisturbed (fun turn => turn = latestTurn) p event) :
    Answering laterStdlib .plain everywhere False p event := by
  cases event with
  | check | resume => trivial
  | world event =>
    cases event with
    | complete f turn =>
      intro x hx schedule hschedule
      cases hschedule
      rcases h with hclear | ⟨turn', rfl, hserves⟩
      · cases hclear
      · have hturn : turn = latestTurn := hserves
        rw [hturn]
        exact Or.inl ⟨_, _, latestTurn_answered x.url, fun c _ _ => c.owid.date.inRange.2⟩
    | _ => trivial

/-- The check that `latestTurn` answers. -/
def checkLatest (cache : Cache) (owid : Owid) (url : String) : Outcome SignatureStatus :=
  signatureStatusAtUrl laterStdlib .plain (fun _ => latestTurn) cache owid url

/-- With nothing under way a process makes that check, and its end points answer. -/
theorem Quiet.checked {w : World} (h : Quiet w) {cache : Cache} (hcache : w.cache = cache)
    {owid : Owid} {url : String} {result : Except PyExc SignatureStatus}
    (hresult : (checkLatest cache owid url).result = result) (checks : List Check) :
    ∃ w' k, Reaches (processStep laterStdlib .plain) (Answering laterStdlib .plain everywhere False)
        ⟨w, checks⟩ ⟨w', checks ++ [⟨owid, url, 0, k, .done result⟩]⟩ ∧
      Quiet w' ∧ w'.cache = (checkLatest cache owid url).cache := by
  obtain ⟨w', k, hreach, hquiet, hleft⟩ :=
    Quiet.check (p := ⟨w, checks⟩) h laterStdlib .plain 0 owid url (fun _ => latestTurn)
  subst hcache hresult
  refine ⟨w', k, hreach.mono fun _ _ hok => ?_, hquiet, hleft⟩
  exact (hok.undisturbed (A := fun turn => turn = latestTurn) fun _ => rfl).answering

/-- Signed with the second key ten minutes before it is in force. -/
def earlyEnvelope : Envelope := markedEnvelope 90 67 minute90_le

/-- Signed with the first key fifty minutes after the second is in force. -/
def staleEnvelope : Envelope := markedEnvelope 150 66 minute150_le

theorem earlyEnvelope_url : publicKeyUrl earlyEnvelope.owid "https" = .ok (dateUrl endPointAB 90) :=
  publicKeyUrl_marked minute90_le

theorem staleEnvelope_url :
    publicKeyUrl staleEnvelope.owid "https" = .ok (dateUrl endPointAB 150) :=
  publicKeyUrl_marked minute150_le

/-- The check of the first, and that of the second with what the first left. -/
def earlyOutcome : Outcome SignatureStatus :=
  checkLatest Cache.empty earlyEnvelope.owid (dateUrl endPointAB 90)

def staleOutcome : Outcome SignatureStatus :=
  checkLatest earlyOutcome.cache staleEnvelope.owid (dateUrl endPointAB 150)

theorem earlyOutcome_result : earlyOutcome.result = .ok .signatureValid := by decide +kernel

theorem staleOutcome_result : staleOutcome.result = .ok .signatureInvalid := by decide +kernel

/-- Where the two checks stand that call as these callers. -/
def earlyCheck (caller : Nat) : Check :=
  ⟨earlyEnvelope.owid, dateUrl endPointAB 90, 0, caller, .done (.ok .signatureValid)⟩

def staleCheck (caller : Nat) : Check :=
  ⟨staleEnvelope.owid, dateUrl endPointAB 150, 0, caller, .done (.ok .signatureInvalid)⟩

/-- The two are checked one after the other: the neighbour verifies the one, and no key that may
the other. -/
theorem twoChecked :
    ∃ w k₁ k₂, Reaches (processStep laterStdlib .plain)
        (Answering laterStdlib .plain everywhere False) .start ⟨w, [earlyCheck k₁, staleCheck k₂]⟩ ∧
      Quiet w ∧ w.cache = staleOutcome.cache := by
  have hempty : World.start.cache = Cache.empty := rfl
  obtain ⟨w₁, k₁, hfirst, hquiet, hcache⟩ := Quiet.start.checked hempty earlyOutcome_result []
  have hearly : w₁.cache = earlyOutcome.cache := hcache
  obtain ⟨w₂, k₂, hsecond, hquiet', hcache'⟩ :=
    hquiet.checked hearly staleOutcome_result [earlyCheck k₁]
  exact ⟨w₂, k₁, k₂, hfirst.trans hsecond, hquiet', hcache'⟩

theorem verdict_of_reaches_rotated :
    ∃ (p : Process) (c₁ c₂ : Check),
      Reaches (processStep laterStdlib .plain) (Answering laterStdlib .plain everywhere False)
        .start p ∧
      p.checks = [c₁, c₂] ∧ c₁.owid = earlyEnvelope.owid ∧ c₂.owid = staleEnvelope.owid ∧
      c₁.stage = .done (.ok .signatureValid) ∧ c₂.stage = .done (.ok .signatureInvalid) ∧
      (rotated secondStart_lt).signatureStatus .plain c₁.owid = .signatureInvalid ∧
      Verdict .plain (rotated secondStart_lt) False c₁.owid (.ok .signatureValid) ∧
      Verdict .plain (rotated secondStart_lt) False c₂.owid (.ok .signatureInvalid) := by
  obtain ⟨w, k₁, k₂, hreach, -⟩ := twoChecked
  have hmem₁ : earlyCheck k₁ ∈ [earlyCheck k₁, staleCheck k₂] := List.mem_cons_self ..
  have hmem₂ : staleCheck k₂ ∈ [earlyCheck k₁, staleCheck k₂] :=
    List.mem_cons_of_mem _ (List.mem_singleton_self _)
  exact ⟨_, _, _, hreach, rfl, rfl, rfl, rfl, rfl, rotated_offline,
    verdict_of_reaches everywhere_steady hreach hmem₁ rfl (parsed_envelope _) https_accepted
      earlyEnvelope_url rfl,
    verdict_of_reaches everywhere_steady hreach hmem₂ rfl (parsed_envelope _) https_accepted
      staleEnvelope_url rfl⟩

end Fetch

end OpenWebId
