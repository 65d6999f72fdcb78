import OpenWebId.Agreement
import OpenWebId.Publishing

/-!
# A creator that publishes its keys as it goes

A creator generates its keys in batches and adds them to its schedule ahead of the weeks they
cover (`PublicKeySchedule.Extends`). What it answered before it added them stays true of the
schedule it has afterwards: a key whose next start it stated keeps its period, and one whose
next start it did not know of is in force up to the moment it answered at, which is as far as
a client holds it.

That last step is where the clocks come in. A client holds such a key up to the drift
allowance behind its own clock, so its clock may be ahead of the creator's by the allowance and
no more. `AnsweredFrom` is an answer under these conditions, `AnsweredFrom.confirmed` that what a
client holds of it is true of the schedule there is in the end, and `AnsweredFrom.learned` that
what it is told is.
-/

namespace OpenWebId

variable {σ κ : Type}

namespace PublicKeySchedule

/-- The schedule has the keys of an earlier one, and behind them keys that start after that
moment. -/
def Extends (earlier : PublicKeySchedule) (now : DateTime) (schedule : PublicKeySchedule) : Prop :=
  ∃ added, schedule.keys = earlier.keys ++ added ∧
    ∀ key ∈ added, now < key.startsAt ∧ ∀ k ∈ earlier.keys, k.startsAt < key.startsAt

theorem Extends.refl (schedule : PublicKeySchedule) (now : DateTime) :
    schedule.Extends now schedule :=
  ⟨[], (List.append_nil _).symm, fun _ hkey => absurd hkey List.not_mem_nil⟩

/-- Keys that start after a moment do not change which key is in force at it. -/
theorem keyInForce_append {earlier schedule : PublicKeySchedule} {added : List DatedPublicKey}
    (hkeys : schedule.keys = earlier.keys ++ added) {moment : DateTime}
    (hlate : ∀ key ∈ added, moment < key.startsAt) :
    schedule.keyInForce moment = earlier.keyInForce moment := by
  cases hkey : earlier.keyInForce moment with
  | none =>
    refine keyInForce_eq_none.mpr fun k hk => ?_
    rw [hkeys] at hk
    rcases List.mem_append.mp hk with hk | hk
    · exact keyInForce_eq_none.mp hkey k hk
    · exact hlate k hk
  | some key =>
    have hforce := (keyInForce_eq_some.mp hkey).append_left fun k hk hstarted =>
      absurd (hlate k hk) (Int.not_lt.mpr hstarted)
    rw [← hkeys] at hforce
    exact keyInForce_eq_some.mpr hforce

section Extends

variable {earlier schedule : PublicKeySchedule} {now : DateTime}

/-- Which key was in force up to the moment stays as it was. -/
theorem Extends.keyInForce (h : earlier.Extends now schedule) {moment : DateTime}
    (hle : moment ≤ now) : schedule.keyInForce moment = earlier.keyInForce moment := by
  obtain ⟨added, hkeys, hadded⟩ := h
  exact keyInForce_append hkeys fun key hkey => Int.lt_of_le_of_lt hle (hadded key hkey).1

/-- A next start that was known stays the next start. -/
theorem Extends.nextStartAfter (h : earlier.Extends now schedule) {key : DatedPublicKey}
    {next : DateTime} (hnext : earlier.nextStartAfter key = some next) :
    schedule.nextStartAfter key = some next := by
  obtain ⟨added, hkeys, hadded⟩ := h
  obtain ⟨hafter, ⟨k, hk, hstart⟩, hmin⟩ := nextStartAfter_eq_some hnext
  have hkept : k ∈ schedule.keys := by
    rw [hkeys]
    exact List.mem_append_left _ hk
  cases hnext' : schedule.nextStartAfter key with
  | none =>
    have hle := nextStartAfter_eq_none hnext' k hkept
    rw [hstart] at hle
    exact absurd hafter (Int.not_lt.mpr hle)
  | some next' =>
    obtain ⟨hafter', ⟨k', hk', hstart'⟩, hmin'⟩ := nextStartAfter_eq_some hnext'
    have hle : next'.micros ≤ next.micros := by
      have hk_min := hmin' k hkept (by rwa [hstart])
      rwa [hstart] at hk_min
    have hge : next.micros ≤ next'.micros := by
      rw [hkeys] at hk'
      rcases List.mem_append.mp hk' with hold | hnew
      · have hk_min := hmin k' hold (by rwa [hstart'])
        rwa [hstart'] at hk_min
      · -- a key that was added starts after the one whose start was known
        have hlt := (hadded k' hnew).2 k hk
        rw [hstart, hstart'] at hlt
        exact Int.le_of_lt hlt
    rw [DateTime.ext (Int.le_antisymm hle hge)]

end Extends

end PublicKeySchedule

namespace Fetch

/-- A schedule a creator can keep publishing: no PEM comes back, and every start is
counted. -/
structure Steady (L : Stdlib) (P : Provider σ κ) (schedule : PublicKeySchedule) : Prop
    extends Published L P schedule where
  noReturn : NoReturn schedule
  starts : ∀ key ∈ schedule.keys, baseDate ≤ key.startsAt

/-- The creator answers, at its now, from what its schedule was then. Where that is not all of
its schedule, the minute that the client's clock shows when it holds the answer is past the
creator's now by no more than the drift allowance. -/
structure AnsweredFrom (L : Stdlib) (P : Provider σ κ) (schedule earlier : PublicKeySchedule)
    (now : DateTime) (turn : Turn) (url : String) : Prop where
  steady : Steady L P earlier
  extend : earlier.Extends now schedule
  reply : turn.reply url = serve L P earlier now url
  drift : earlier = schedule ∨
    (minutesSinceBase turn.holdLater - clockDriftAllowanceMinutes) * microsPerMinute ≤ now.micros

section AnsweredFrom

variable {L : Stdlib} {P : Provider σ κ} {schedule earlier : PublicKeySchedule} {now : DateTime}
  {turn : Turn} {url : String}

/-- A creator that has published all of its schedule. -/
theorem AnsweredFrom.refl (h : Steady L P schedule)
    (hreply : turn.reply url = serve L P schedule now url) :
    AnsweredFrom L P schedule schedule now turn url :=
  ⟨h, .refl schedule now, hreply, Or.inl rfl⟩

/-- What a client reads of a 200: a key in force at a moment up to the creator's now, with the
minutes of the period it had then. -/
theorem AnsweredFrom.fetched (h : AnsweredFrom L P schedule earlier now turn url)
    {domain pem : String} {start stop : Option Int}
    (hfetch : fetch L P turn url domain = .ok (pem, start, stop)) :
    ∃ asked key, asked ≤ now ∧ earlier.keyInForce asked = some key ∧ pem = key.publicKeyPem ∧
      start = minutesOrNone (some key.startsAt) ∧
      stop = minutesOrNone (earlier.nextStartAfter key) := by
  obtain ⟨hasks, body, -, -, -, hbody, -⟩ := fetch_ok hfetch
  obtain ⟨asked, key, hasked, hkey, htext⟩ := h.steady.serve_answers (h.reply.symm.trans hbody)
  rw [htext] at hbody
  cases (h.steady.fetch hasks hkey hbody).symm.trans hfetch
  exact ⟨asked, key, hasked, hkey, rfl, rfl, rfl⟩

/-- **What is held of an answer is true of the schedule there is in the end.** -/
theorem AnsweredFrom.confirmed (h : AnsweredFrom L P schedule earlier now turn url)
    (hsteady : Steady L P schedule) {asked : DateTime} {key : DatedPublicKey} (hasked : asked ≤ now)
    (hkey : earlier.keyInForce asked = some key) {from' : DateTime} {new : HeldKey}
    (hnew : confirmed from' turn.holdLater url key.publicKeyPem (minutesOrNone (some key.startsAt))
      (minutesOrNone (earlier.nextStartAfter key)) = some new) {minute : Int}
    (hfirst : new.first ≤ minute) (hlast : minute ≤ new.last) :
    InForceAt schedule minute new.pem := by
  have hmem := (PublicKeySchedule.keyInForce_eq_some.mp hkey).mem
  have hbase := h.steady.starts key hmem
  have hkey' : schedule.keyInForce asked = some key := (h.extend.keyInForce hasked).trans hkey
  cases hnext : earlier.nextStartAfter key with
  | some next =>
    rw [hnext, ← h.extend.nextStartAfter hnext] at hnew
    exact hsteady.confirmed hkey' (Or.inl hbase) hnew hfirst hlast
  | none =>
    have hearlier := h.steady.confirmed hkey (Or.inl hbase) hnew hfirst hlast
    rcases h.drift with rfl | hdrift
    · exact hearlier
    · -- the span ends no later than the creator's now, up to which nothing has changed
      obtain ⟨moment, key', hmicros, hforce, hpem⟩ := hearlier
      refine ⟨moment, key', hmicros, ?_, hpem⟩
      refine (h.extend.keyInForce ?_).trans hforce
      rw [hnext, minutesOrNone_whole hbase (h.steady.wholeMinutes key hmem)] at hnew
      simp only [minutesOrNone, Fetch.confirmed] at hnew
      cases hnew
      simp only at hlast
      have hstarted : key.startsAt.micros ≤ now.micros :=
        Int.le_trans (PublicKeySchedule.keyInForce_bounds hkey).1 hasked
      show moment.micros ≤ now.micros
      rw [hmicros]
      simp only [clockDriftAllowanceMinutes, microsPerMinute, microsPerSecond] at *
      omega

/-- The span stated of a key is a stretch of minutes at both of whose ends the key is in force
in the schedule there is in the end. -/
theorem AnsweredFrom.stated (h : AnsweredFrom L P schedule earlier now turn url)
    (hsteady : Steady L P schedule) {asked : DateTime} {key : DatedPublicKey} (hasked : asked ≤ now)
    (hkey : earlier.keyInForce asked = some key) :
    Honest schedule (stated key.publicKeyPem (minutesOrNone (some key.startsAt))
      (minutesOrNone (earlier.nextStartAfter key))) := by
  have hmem := (PublicKeySchedule.keyInForce_eq_some.mp hkey).mem
  have hbase := h.steady.starts key hmem
  have hkey' : schedule.keyInForce asked = some key := (h.extend.keyInForce hasked).trans hkey
  cases hnext : earlier.nextStartAfter key with
  | some next =>
    rw [← h.extend.nextStartAfter hnext]
    exact hsteady.stated hkey'
  | none =>
    have hmem' := (PublicKeySchedule.keyInForce_eq_some.mp hkey').mem
    rw [minutesOrNone_whole hbase (h.steady.wholeMinutes key hmem)]
    refine ⟨fun _ => ?_, fun _ hlast => absurd hlast (Int.lt_irrefl _)⟩
    exact hsteady.counts hkey' (Int.le_refl _)
      (fun next hsome => hsteady.start_lt_next hmem' hsome)
      (minute_le_maxMoment key.startsAt (Int.le_refl _))

/-- The moment a creator reads is not later than its now. -/
theorem momentRead_le (now : DateTime) (minute : Nat) : momentRead now minute ≤ now :=
  Endpoints.askedMoment_le (askedMoment_eq now minute)

/-- A client that asks about a minute reads the key the creator has for it. -/
theorem AnsweredFrom.fetch_dateUrl {base : String} {minute : Nat}
    (h : AnsweredFrom L P schedule earlier now turn (dateUrl base minute)) (hbase : Clean base)
    (hminute : minute ≤ 0xFFFFFFFF) (hasks : asks (dateUrl base minute) = true)
    {key : DatedPublicKey} (hkey : earlier.keyInForce (momentRead now minute) = some key)
    (domain : String) :
    fetch L P turn (dateUrl base minute) domain = .ok (key.publicKeyPem,
      minutesOrNone (some key.startsAt), minutesOrNone (earlier.nextStartAfter key)) := by
  have hreply := h.reply
  rw [h.steady.serve_dateUrl now hbase hminute, hkey] at hreply
  exact h.steady.fetch hasks hkey hreply

/-- **What a client is told is what the schedule there is in the end says.** -/
theorem AnsweredFrom.learned {base : String} {minute : Nat}
    (h : AnsweredFrom L P schedule earlier now turn (dateUrl base minute))
    (hsteady : Steady L P schedule) (hbase : Clean base) (hminute : minute ≤ 0xFFFFFFFF)
    (hasks : asks (dateUrl base minute) = true) (domain : String) :
    (∃ e, fetch L P turn (dateUrl base minute) domain = .error e ∧
      Learned schedule now minute (.error e)) ∨
    ∃ key, earlier.keyInForce (momentRead now minute) = some key ∧
      fetch L P turn (dateUrl base minute) domain = .ok (key.publicKeyPem,
        minutesOrNone (some key.startsAt), minutesOrNone (earlier.nextStartAfter key)) ∧
      Learned schedule now minute (.ok (Fetch.stated key.publicKeyPem
        (minutesOrNone (some key.startsAt)) (minutesOrNone (earlier.nextStartAfter key)))) := by
  have hread := momentRead_le now minute
  have hsame := h.extend.keyInForce hread
  cases hkey : earlier.keyInForce (momentRead now minute) with
  | none =>
    have hreply := h.reply
    rw [h.steady.serve_dateUrl now hbase hminute, hkey] at hreply
    rw [hkey] at hsame
    obtain ⟨e, hfetch, hstatus, howid⟩ := fetch_notFound L P domain hasks hreply
    refine Or.inl ⟨e, hfetch, .none hstatus howid ?_⟩
    intro hpast pem hforce
    obtain ⟨moment, key, hmicros, hsome, -⟩ := hforce
    have hat : moment = momentRead now minute :=
      DateTime.ext (hmicros.trans (momentRead_micros hpast).symm)
    rw [hat, hsame] at hsome
    cases hsome
  | some key =>
    rw [hkey] at hsame
    refine Or.inr ⟨key, rfl, h.fetch_dateUrl hbase hminute hasks hkey domain, ?_⟩
    refine .key (h.stated hsteady hread hkey) (fun hle => ?_) (fun hlt => ?_)
    · rw [stated_pem]
      exact ⟨inForceAt_of_moment (momentRead_micros hle) hsame,
        h.steady.stated_covers hkey hminute (momentRead_micros hle)⟩
    · rw [stated_pem]
      rw [momentRead_future hlt] at hsame
      exact Or.inr ⟨key, hsame, rfl⟩

end AnsweredFrom

end Fetch

end OpenWebId
