import OpenWebId.CacheGrowth

/-!
# Whether a span that is served was stated

`_held_for` answers with a span where the held key is explicit or open ended, which is to
say where some answer for the key stated one. The span held is not always one that was
stated: a key has one interval of minutes and its flags speak of the whole of it, so an
answer that widens a stated span by a minute on its own, or joins two spans across minutes
in between, has the creator state minutes it never did. `Backed` is what must be so of an
answer for that not to happen, and `provenance_step_iff` that nothing less will do.

`History` keeps beside the cache the answers that were held, and `Provenance` says that
they account for every minute of every key that claims a span.
-/

namespace OpenWebId

open Lib (Reaches)

namespace Fetch

/-- An answer that was held: the key, and what the creator stated of its span. -/
structure Held where
  endPoint : String
  pem : String
  start : Option Int
  stop : Option Int

/-- The answer stated a span with the minute in it: a start and a later end, or a start
and no end. -/
def Held.States (held : Held) (minute : Int) : Prop :=
  match held.start, held.stop with
  | some start, some stop => start ≤ minute ∧ minute < stop
  | some start, none => start ≤ minute
  | none, _ => False

/-- Some answer for the key stated a span with the minute in it. -/
def Stated (answers : List Held) (endPoint pem : String) (minute : Int) : Prop :=
  ∃ held ∈ answers, held.endPoint = endPoint ∧ held.pem = pem ∧ held.States minute

/-- The cache, and the answers that were held since the process began. -/
structure History where
  cache : Cache
  answers : List Held

def historyStep (w : History) : CacheEvent → Option History
  | .hold now later endPoint url pem start stop =>
    some ⟨(hold w.cache now later endPoint url pem start stop).2,
      ⟨endPoint, pem, start, stop⟩ :: w.answers⟩
  | .clearCache => some ⟨.empty, w.answers⟩

/-- Every minute of a key that claims a span was stated. -/
def Provenance (w : History) : Prop :=
  ∀ endPoint, ∀ key ∈ w.cache.keysOf endPoint, key.claims = true →
    ∀ minute ∈ key.span, Stated w.answers endPoint key.pem minute

/-- What must be so of an answer that confirms `new`, for the key under its PEM to claim no
minute that no answer stated. The answers count the one being held. -/
structure Backed (answers : List Held) (cache : Cache) (endPoint : String)
    (start stop : Option Int) (new : HeldKey) : Prop where
  /-- An end that is not after the start is dropped, and the minutes the key is then held
  for were stated by others. -/
  ends : ∀ s e, start = some s → stop = some e → e ≤ s →
    ∀ minute ∈ new.span, Stated answers endPoint new.pem minute
  /-- A key that claims a span takes in a minute on its own only where it was stated. -/
  single : ∀ key, cache.heldUnder endPoint new.pem = some key → key.claims = true →
    new.claims = false → ∀ minute ∈ new.span, Stated answers endPoint new.pem minute
  /-- A key that claimed none comes to claim one only where its minutes were stated. -/
  unclaimed : ∀ key, cache.heldUnder endPoint new.pem = some key → key.claims = false →
    new.claims = true → ∀ minute ∈ key.span, Stated answers endPoint new.pem minute
  /-- The minutes between the two spans were stated. -/
  gap : ∀ key, cache.heldUnder endPoint new.pem = some key → (key.claims || new.claims) = true →
    ∀ minute, minute ∈ Set.Ioo new.last key.first ∨ minute ∈ Set.Ioo key.last new.first →
      Stated answers endPoint new.pem minute

/-- The answer is backed, where it is recorded at all. -/
def StepBacked (w : History) : CacheEvent → Prop
  | .hold now later endPoint url pem start stop =>
    ∀ new, confirmed now later url pem start stop = some new → w.cache.Free endPoint new →
      Backed (⟨endPoint, pem, start, stop⟩ :: w.answers) w.cache endPoint start stop new
  | .clearCache => True

/-! ## One answer -/

theorem Stated.cons {answers : List Held} {endPoint pem : String} {minute : Int} (held : Held)
    (h : Stated answers endPoint pem minute) : Stated (held :: answers) endPoint pem minute := by
  obtain ⟨other, hother, hstates⟩ := h
  exact ⟨other, List.mem_cons_of_mem _ hother, hstates⟩

/-- An answer that confirms a claimed span states its minutes, unless it dropped its end. -/
theorem states_of_confirmed {now later : DateTime} {url pem : String} (endPoint : String)
    {start stop : Option Int} {new : HeldKey}
    (hnew : confirmed now later url pem start stop = some new) (hclaims : new.claims = true) :
    (∃ s e, start = some s ∧ stop = some e ∧ e ≤ s) ∨
      ∀ minute ∈ new.span, (Held.mk endPoint pem start stop).States minute := by
  unfold confirmed at hnew
  split at hnew
  next s e =>
    split at hnew
    next hlater =>
      cases hnew
      refine Or.inr fun minute hminute => ?_
      exact ⟨hminute.1, Int.lt_of_le_sub_one hminute.2⟩
    next hearly => exact Or.inl ⟨s, e, rfl, rfl, Int.not_lt.mp hearly⟩
  next s =>
    cases hnew
    exact Or.inr fun minute hminute => hminute.1
  next =>
    split at hnew
    next =>
      cases hnew
      cases hclaims
    next => cases hnew

/-- An answer with a start claims what it confirms. -/
theorem claims_of_start {now later : DateTime} {url pem : String} {start : Int}
    {stop : Option Int} {new : HeldKey}
    (hnew : confirmed now later url pem (some start) stop = some new) : new.claims = true := by
  unfold confirmed at hnew
  cases stop with
  | none =>
    cases hnew
    rfl
  | some stop =>
    simp only at hnew
    split at hnew
    · cases hnew
      rfl
    · cases hnew
      rfl

section Step

variable {answers : List Held} {cache : Cache} {endPoint : String} {start stop : Option Int}
  {new : HeldKey}

/-- What a backed answer claims for itself was stated. -/
theorem Backed.own {now later : DateTime} {url pem : String}
    (h : Backed (⟨endPoint, pem, start, stop⟩ :: answers) cache endPoint start stop new)
    (hnew : confirmed now later url pem start stop = some new) (hclaims : new.claims = true) :
    ∀ minute ∈ new.span,
      Stated (⟨endPoint, pem, start, stop⟩ :: answers) endPoint new.pem minute := by
  intro minute hminute
  rcases states_of_confirmed endPoint hnew hclaims with ⟨s, e, hs, he, hle⟩ | hstates
  · exact h.ends s e hs he hle minute hminute
  · exact ⟨_, List.mem_cons_self .., rfl, (confirmed_pem hnew).symm, hstates minute hminute⟩

/-- What the key under the PEM of a backed answer claims once it was widened was stated. -/
theorem Backed.widened {now later : DateTime} {url pem : String}
    (h : Backed (⟨endPoint, pem, start, stop⟩ :: answers) cache endPoint start stop new)
    (hnew : confirmed now later url pem start stop = some new) {key : HeldKey}
    (hunder : cache.heldUnder endPoint new.pem = some key)
    (hold : key.claims = true → ∀ minute ∈ key.span,
      Stated (⟨endPoint, pem, start, stop⟩ :: answers) endPoint new.pem minute)
    (hclaims : (key.claims || new.claims) = true) {minute : Int}
    (hfirst : min new.first key.first ≤ minute) (hlast : minute ≤ max new.last key.last) :
    Stated (⟨endPoint, pem, start, stop⟩ :: answers) endPoint new.pem minute := by
  rcases Lib.mem_Icc_join (Set.mem_Icc.mpr ⟨hfirst, hlast⟩) with hmine | hkey | hgap | hgap
  · cases hown : new.claims with
    | true => exact h.own hnew hown minute hmine
    | false =>
      rw [hown, Bool.or_false] at hclaims
      exact h.single key hunder hclaims hown minute hmine
  · cases hown : key.claims with
    | true => exact hold hown minute hkey
    | false =>
      rw [hown, Bool.false_or] at hclaims
      exact h.unclaimed key hunder hown hclaims minute hkey
  · exact h.gap key hunder hclaims minute (Or.inl hgap)
  · exact h.gap key hunder hclaims minute (Or.inr hgap)

/-- An answer is backed where the span it would leave was stated, if it is claimed. -/
theorem Backed.of_joined {now later : DateTime} {url pem : String}
    (hnew : confirmed now later url pem start stop = some new)
    (hstated : ((cache.heldUnder endPoint new.pem).any HeldKey.claims || new.claims) = true →
      ∀ minute, (cache.joined endPoint new).1 ≤ minute → minute ≤ (cache.joined endPoint new).2 →
        Stated answers endPoint new.pem minute) :
    Backed answers cache endPoint start stop new := by
  obtain ⟨hmine, hmine'⟩ := le_joined cache endPoint new
  constructor
  · rintro s e rfl - - minute hminute
    refine hstated ?_ minute (Int.le_trans hmine hminute.1) (Int.le_trans hminute.2 hmine')
    rw [claims_of_start hnew, Bool.or_true]
  · intro key hunder hclaims _ minute hminute
    refine hstated ?_ minute (Int.le_trans hmine hminute.1) (Int.le_trans hminute.2 hmine')
    rw [hunder, Option.any_some, hclaims, Bool.true_or]
  · intro key hunder _ hclaims minute hminute
    rw [joined_of_heldUnder hunder, hclaims, Bool.or_true] at hstated
    exact hstated rfl minute (Int.le_trans (Int.min_le_right ..) hminute.1)
      (Int.le_trans hminute.2 (Int.le_max_right ..))
  · intro key hunder hany minute hminute
    rw [joined_of_heldUnder hunder, hunder, Option.any_some] at hstated
    have hordered := key.ordered
    have hordered' := new.ordered
    -- a minute between the two spans is between the outer ends of both
    have hbetween : min new.first key.first ≤ minute ∧ minute ≤ max new.last key.last := by
      rcases hminute with ⟨hlow, hhigh⟩ | ⟨hlow, hhigh⟩
      · omega
      · omega
    exact hstated hany minute hbetween.1 hbetween.2

end Step

section Run

variable {w w' : History}

theorem historyStep_cache {event : CacheEvent} (hstep : historyStep w event = some w') :
    cacheStepWithin maximumCachedKeys w.cache event = some w'.cache := by
  cases event with
  | hold now later endPoint url pem start stop =>
    cases hstep
    rfl
  | clearCache =>
    cases hstep
    rfl

/-- A key that is recorded and backed leaves no minute claimed that was not stated. -/
theorem Provenance.recorded
    (hwell : WellFormed maximumCachedKeys w.cache) (h : Provenance w) {now later : DateTime}
    {endPoint url pem : String} {start stop : Option Int} {new : HeldKey}
    (hnew : confirmed now later url pem start stop = some new)
    (hbacked : w.cache.Free endPoint new →
      Backed (⟨endPoint, pem, start, stop⟩ :: w.answers) w.cache endPoint start stop new) :
    Provenance ⟨record w.cache endPoint new, ⟨endPoint, pem, start, stop⟩ :: w.answers⟩ := by
  have hkept : Provenance ⟨w.cache, ⟨endPoint, pem, start, stop⟩ :: w.answers⟩ :=
    fun other key hkey hclaims minute hminute => (h other key hkey hclaims minute hminute).cons _
  by_cases hfree : w.cache.Free endPoint new
  · have hback := hbacked hfree
    intro other key hkey hclaims minute hminute
    rcases mem_keysOf_recorded (record_recorded w.cache endPoint new) hkey with
      hold | ⟨rfl, rfl | ⟨old, hold, hpem, others, wider, hwiden, rfl⟩⟩
    · exact hkept other key hold hclaims minute hminute
    · exact hback.own hnew hclaims minute hminute
    · -- the widened key claims what it or the answer claimed
      have hunder := hwell.heldUnder_of_mem hold
      rw [hpem] at hunder
      obtain ⟨hwpem, hwfirst, hwlast, -⟩ := widen_some hwiden
      rw [HeldKey.restate_claims, widen_claims hwiden] at hclaims
      rw [HeldKey.restate_span, HeldKey.span, hwfirst, hwlast] at hminute
      rw [HeldKey.restate_pem, hwpem, hpem]
      refine hback.widened hnew hunder ?_ hclaims hminute.1 hminute.2
      intro hold' n hn
      rw [← hpem]
      exact hkept other old hold hold' n hn
  · have hsame : record w.cache endPoint new = w.cache := hwell.recordWithin_of_not_free hfree
    rw [hsame]
    exact hkept

/-- One event whose answer is backed keeps the provenance. -/
theorem Provenance.step (hwell : WellFormed maximumCachedKeys w.cache) (h : Provenance w)
    {event : CacheEvent} (hbacked : StepBacked w event) (hstep : historyStep w event = some w') :
    Provenance w' := by
  cases event with
  | clearCache =>
    cases hstep
    intro endPoint key hkey
    rw [Cache.keysOf_empty] at hkey
    cases hkey
  | hold now later endPoint url pem start stop =>
    cases hstep
    rw [hold_eq]
    simp only
    split
    next =>
      intro other key hkey hclaims minute hminute
      exact (h other key hkey hclaims minute hminute).cons _
    next new hnew => exact h.recorded hwell hnew (hbacked new hnew)

/-- **Nothing less keeps it.** An answer after which every minute claimed was stated is
backed. -/
theorem StepBacked.of_provenance (hwell : WellFormed maximumCachedKeys w.cache)
    {event : CacheEvent} (hstep : historyStep w event = some w') (h' : Provenance w') :
    StepBacked w event := by
  cases event with
  | clearCache => exact trivial
  | hold now later endPoint url pem start stop =>
    cases hstep
    intro new hnew hfree
    obtain ⟨key', hkey', hpem', hspan, hclaims⟩ := hwell.recordWithin_of_free hfree
    have hcache : (hold w.cache now later endPoint url pem start stop).2 =
        record w.cache endPoint new := by
      rw [hold_eq]
      simp only [hnew]
    refine .of_joined hnew ?_
    intro hany minute hfirst hlast
    -- the key that has the whole span afterwards is one the history speaks of
    rw [← hspan] at hfirst hlast
    rw [← hpem']
    refine h' endPoint key' ?_ (hclaims.trans hany) minute ⟨hfirst, hlast⟩
    show key' ∈ Cache.keysOf (hold w.cache now later endPoint url pem start stop).2 endPoint
    rw [hcache]
    exact hkey'

/-- An event keeps the provenance exactly where its answer is backed. -/
theorem provenance_step_iff (hwell : WellFormed maximumCachedKeys w.cache) (h : Provenance w)
    {event : CacheEvent} (hstep : historyStep w event = some w') :
    Provenance w' ↔ StepBacked w event :=
  ⟨fun h' => .of_provenance hwell hstep h', fun hbacked => h.step hwell hbacked hstep⟩

/-- What is served as stated was stated. -/
theorem Provenance.heldFor (h : Provenance w) {now : DateTime} {endPoint url : String}
    {minute : Int} {answer : KeyAnswer} (hminute : namedMinute url = some minute)
    (hheld : heldFor w.cache now endPoint url = some answer) (hknown : answer.known = true) :
    Stated w.answers endPoint answer.pem minute := by
  obtain ⟨minute', key, hminute', hkey, hfirst, hlast, hanswer, -⟩ := heldFor_known hheld
  cases hminute.symm.trans hminute'
  subst hanswer
  have hclaims : key.claims = true := by
    unfold statedFor at hknown
    split at hknown
    next hexplicit => rw [HeldKey.claims, hexplicit, Bool.true_or]
    next =>
      split at hknown
      next hopen => rw [HeldKey.claims, hopen, Bool.or_true]
      next => cases hknown
  rw [statedFor_pem]
  exact h endPoint key hkey hclaims minute ⟨hfirst, hlast⟩

/-! ## Every run -/

/-- What is known of the state after any run of backed answers. -/
theorem provenance_of_reaches
    (hreach : Reaches historyStep StepBacked ⟨Cache.empty, []⟩ w) :
    WellFormed maximumCachedKeys w.cache ∧ Provenance w := by
  have hstart : Provenance ⟨Cache.empty, []⟩ := by
    intro endPoint key hkey
    rw [Cache.keysOf_empty] at hkey
    cases hkey
  refine hreach.invariant (I := fun w => WellFormed maximumCachedKeys w.cache ∧ Provenance w)
    ⟨.empty _, hstart⟩ ?_
  intro w event w' hinv hok hstep
  exact ⟨hinv.1.step (by decide) (historyStep_cache hstep), hinv.2.step hinv.1 hok hstep⟩

/-- **A span that is served was stated.** In every run of answers held and caches cleared
in which every answer that is recorded is backed, where the cache answers for a minute with
a span known to the creator, some answer for that key at that end point stated a span with
the minute in it. -/
theorem stated_of_reaches (hreach : Reaches historyStep StepBacked ⟨Cache.empty, []⟩ w)
    {now : DateTime} {endPoint url : String} {minute : Int} {answer : KeyAnswer}
    (hminute : namedMinute url = some minute)
    (hheld : heldFor w.cache now endPoint url = some answer) (hknown : answer.known = true) :
    ∃ held ∈ w.answers, held.endPoint = endPoint ∧ held.pem = answer.pem ∧
      held.States minute :=
  (provenance_of_reaches hreach).2.heldFor hminute hheld hknown

end Run

/-! ## A span widened by a minute on its own -/

/-- The history in which the key `A` was stated from minute 10 up to minute 19. -/
def statedOnce : History :=
  ⟨⟨AList.insert "e" [⟨"A", 10, 19, true, false, by decide⟩] ∅, 1⟩, [⟨"e", "A", some 10, some 20⟩]⟩

theorem reaches_statedOnce : Reaches historyStep StepBacked ⟨Cache.empty, []⟩ statedOnce := by
  refine .next (.hold baseDate baseDate "e" "" "A" (some 10) (some 20)) .start ?_ rfl
  intro new hnew _
  have hconfirmed : confirmed baseDate baseDate "" "A" (some 10) (some 20) =
      some ⟨"A", 10, 19, true, false, by decide⟩ := rfl
  cases hconfirmed.symm.trans hnew
  refine ⟨?_, nofun, nofun, nofun⟩
  rintro s e ⟨⟩ ⟨⟩ hle
  omega

/-- The history after an answer that stated the minutes that follow. -/
def statedTwice : History :=
  ⟨⟨AList.insert "e" [⟨"A", 10, 29, true, false, by decide⟩] ∅, 1⟩,
    ⟨"e", "A", some 20, some 30⟩ :: statedOnce.answers⟩

theorem reaches_statedTwice : Reaches historyStep StepBacked ⟨Cache.empty, []⟩ statedTwice := by
  refine .next (.hold baseDate baseDate "e" "" "A" (some 20) (some 30)) reaches_statedOnce ?_ ?_
  · intro new hnew _
    have hconfirmed : confirmed baseDate baseDate "" "A" (some 20) (some 30) =
        some ⟨"A", 20, 29, true, false, by decide⟩ := rfl
    cases hconfirmed.symm.trans hnew
    have hunder : statedOnce.cache.heldUnder "e" "A" =
        some ⟨"A", 10, 19, true, false, by decide⟩ := rfl
    refine ⟨?_, ?_, ?_, ?_⟩
    · rintro s e ⟨⟩ ⟨⟩ hle
      omega
    · intro key hkey _ hclaims
      cases hclaims
    · intro key hkey hclaims
      cases hunder.symm.trans hkey
      cases hclaims
    · intro key hkey _ minute hminute
      cases hunder.symm.trans hkey
      rcases hminute with ⟨hlow, hhigh⟩ | ⟨hlow, hhigh⟩
      · simp only at hlow hhigh
        omega
      · simp only at hlow hhigh
        omega
  · rfl

theorem stated_of_reaches_twice :
    ∃ held ∈ statedTwice.answers, held.endPoint = "e" ∧ held.pem = "A" ∧ held.States 25 := by
  have hnamed : namedMinute (dateUrl "e" 25) = some 25 :=
    namedMinute_dateUrl (by decide) (by decide)
  have hheld : heldFor statedTwice.cache baseDate "e" (dateUrl "e" 25) =
      some ⟨"A", 10, 29, true⟩ := by
    simp only [heldFor, minuteAndRecency_some hnamed]
    rfl
  exact stated_of_reaches reaches_statedTwice hnamed hheld rfl

/-- The history in which the key was confirmed for minute 50 instead. -/
def stretched : History :=
  ⟨⟨AList.insert "e" [⟨"A", 10, 50, true, false, by decide⟩] ∅, 1⟩,
    ⟨"e", "A", none, none⟩ :: statedOnce.answers⟩

/-- A key stated up to minute 19 and confirmed for minute 50 is served for minute 30 as
stated, and no answer stated that minute. -/
theorem not_stated_stretched :
    ∃ w, Reaches historyStep (fun _ _ => True) ⟨Cache.empty, []⟩ w ∧
      namedMinute (dateUrl "e" 30) = some 30 ∧
      heldFor w.cache baseDate "e" (dateUrl "e" 30) = some ⟨"A", 10, 50, true⟩ ∧
      ¬ ∃ held ∈ w.answers, held.endPoint = "e" ∧ held.pem = "A" ∧ held.States 30 := by
  let now := atMinute 200 (by decide)
  have hnamed : namedMinute (dateUrl "e" 30) = some 30 :=
    namedMinute_dateUrl (by decide) (by decide)
  have hlate : namedMinute (dateUrl "e" 50) = some 50 :=
    namedMinute_dateUrl (by decide) (by decide)
  have hrecent : minuteAndRecency (dateUrl "e" 50) now = (some 50, false) := by
    rw [minuteAndRecency_some hlate, minutesSinceBase_atMinute]
    rfl
  have hhold : (hold statedOnce.cache now now "e" (dateUrl "e" 50) "A" none none).2 =
      stretched.cache := by
    simp only [hold_eq, confirmed, hrecent]
    rfl
  have hreach : Reaches historyStep (fun _ _ => True) ⟨Cache.empty, []⟩ stretched :=
    .next (.hold now now "e" (dateUrl "e" 50) "A" none none)
      (reaches_statedOnce.mono fun _ _ _ => trivial) trivial
      (by rw [historyStep, hhold]; rfl)
  refine ⟨stretched, hreach, hnamed, ?_, ?_⟩
  · simp only [heldFor, minuteAndRecency_some hnamed]
    rfl
  · rintro ⟨held, hmem, -, -, hstates⟩
    rcases List.mem_cons.mp hmem with rfl | hmem
    · exact hstates
    · rw [List.mem_singleton.mp hmem] at hstates
      simp only [Held.States] at hstates
      omega

end Fetch

end OpenWebId
