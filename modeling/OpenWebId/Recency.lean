import OpenWebId.CacheGrowth
import OpenWebId.ClearCache

/-!
# When a recent minute is learned after all

A creator that states no span may have read a recent minute as its present, so nothing is
to be learned of such a minute. Whether it is recent is asked when the answer is held, not
when it was asked for, and a request can be outstanding while the minute passes out of the
allowance: `keysOf_complete_iff` is that this is the one way, and that what is held then
changes unless the minute was covered already or could not be recorded.

The cache of the concurrent model takes the steps of a cache of its own
(`cache_reaches`), so what holds of every cache reached holds of every `World`'s.
-/

namespace OpenWebId

open Lib (Reaches)

variable {σ κ : Type}

namespace Fetch

/-! ## The cache of the concurrent model -/

/-- A step of the model leaves its cache or takes a step of a cache on its own. -/
theorem Stepped.cache {L : Stdlib} {P : Provider σ κ} {w w' : World} {event : Event}
    (h : Stepped L P w event w') :
    w'.cache = w.cache ∨
      ∃ e, cacheStepWithin maximumCachedKeys w.cache e = some w'.cache := by
  cases h with
  | @held f turn x pem start stop =>
    exact Or.inr ⟨.hold turn.holdNow turn.holdLater (endPointOf x.url) x.url pem start stop, rfl⟩
  | cleared => exact Or.inr ⟨.clearCache, rfl⟩
  | _ => exact Or.inl rfl

theorem cache_reaches {L : Stdlib} {P : Provider σ κ} {ok : World → Event → Prop} {w : World}
    (h : Reaches (step L P) ok World.start w) :
    Reaches (cacheStepWithin maximumCachedKeys) (fun _ _ => True) Cache.empty w.cache := by
  refine h.simulates World.cache ?_
  intro w event w' _ hstep
  obtain ⟨w₁, hstepped, rfl⟩ := step_stepped hstep
  rcases hstepped.cache with hsame | ⟨e, he⟩
  · show Reaches _ _ w.cache w₁.cache
    rw [hsame]
    exact .start
  · exact .next e .start trivial he

/-- The cache keeps its shape in every state of the model. -/
theorem wellFormed_cache {L : Stdlib} {P : Provider σ κ} {ok : World → Event → Prop} {w : World}
    (h : Reaches (step L P) ok World.start w) : WellFormed maximumCachedKeys w.cache :=
  (cache_reaches h).invariant (.empty _) fun _ _ _ hwell _ hstep => hwell.step (by decide) hstep

/-! ## Recording one minute -/

section Single

variable {maximum : Nat} {cache : Cache} {endPoint pem : String} {minute : Int}

/-- A key confirmed for one minute. -/
def HeldKey.single (pem : String) (minute : Int) : HeldKey :=
  ⟨pem, minute, minute, false, false, Int.le_refl _⟩

/-- Taking in a minute it covers changes nothing about a key. -/
theorem HeldKey.restate_single {key wider : HeldKey} {others : List HeldKey}
    (hexclusive : ¬ (key.explicit = true ∧ key.openEnded = true)) (hminute : minute ∈ key.span)
    (hwiden : widen others key minute minute = some wider) :
    wider.restate (.single pem minute) = key := by
  obtain ⟨hpem, hfirst, hlast, hexplicit, hopen, -⟩ := widen_some hwiden
  rw [Int.min_eq_right hminute.1] at hfirst
  rw [Int.max_eq_right hminute.2] at hlast
  obtain ⟨wpem, wfirst, wlast, wexplicit, wopen, wordered⟩ := wider
  simp only at hpem hfirst hlast hexplicit hopen
  subst hpem hfirst hlast hexplicit hopen
  obtain ⟨kpem, kfirst, klast, kexplicit, kopen, kordered⟩ := key
  cases kexplicit with
  | false =>
    simp [HeldKey.restate, HeldKey.single]
  | true =>
    cases kopen with
    | false => rfl
    | true => exact absurd ⟨rfl, rfl⟩ hexclusive

/-- Recording a minute changes nothing where another key is in the way, or where the key
under the PEM has the minute, and otherwise something. -/
theorem WellFormed.keysOf_single_iff (h : WellFormed maximum cache) :
    (recordWithin maximum cache endPoint (.single pem minute)).keysOf endPoint =
        cache.keysOf endPoint ↔
      ¬ cache.Free endPoint (.single pem minute) ∨
        ∃ key, cache.heldUnder endPoint pem = some key ∧ minute ∈ key.span := by
  constructor
  · intro hsame
    by_cases hfree : cache.Free endPoint (.single pem minute)
    · -- the key that has the whole span afterwards was there before
      obtain ⟨key, hkey, hpem, hspan, -⟩ := h.recordWithin_of_free hfree
      rw [hsame] at hkey
      have hunder := h.heldUnder_of_mem hkey
      rw [hpem] at hunder
      rw [joined_of_heldUnder hunder] at hspan
      have hfirst : key.first = min minute key.first := congrArg Prod.fst hspan
      have hlast : key.last = max minute key.last := congrArg Prod.snd hspan
      exact Or.inr ⟨key, hunder, by omega, by omega⟩
    · exact Or.inl hfree
  · rintro (hfree | ⟨key, hunder, hminute⟩)
    · rw [h.recordWithin_of_not_free hfree]
    · obtain ⟨hkey, hpem⟩ := heldUnder_mem hunder
      rcases recordWithin_eq maximum cache endPoint (.single pem minute) with
        ⟨hpems, -⟩ | ⟨before, key', after, hkeys, hpem', hrecord⟩
      · exact absurd hpem (hpems key hkey)
      · have hkeysOf := Cache.keysOf_of_lookup hkeys
        cases hunder.symm.trans (h.heldUnder_split hkeysOf hpem')
        rw [hrecord]
        split
        next wider hwiden =>
          rw [Cache.keysOf_insert, HeldKey.restate_single (h.exclusive endPoint key hkey) hminute
            hwiden, hkeysOf]
        next => rfl

/-- A key in the way of a minute has the minute, or lies between it and the key under the
PEM. -/
theorem WellFormed.not_free_single_iff (h : WellFormed maximum cache) :
    ¬ cache.Free endPoint (.single pem minute) ∨
        (∃ key, cache.heldUnder endPoint pem = some key ∧ minute ∈ key.span) ↔
      (∃ key ∈ cache.keysOf endPoint, minute ∈ key.span) ∨
        ∃ key ∈ cache.keysOf endPoint, key.pem = pem ∧
          ∃ other ∈ cache.keysOf endPoint, other.pem ≠ pem ∧
            overlaps other (min minute key.first) (max minute key.last) = true := by
  rw [not_free_iff]
  constructor
  · rintro (⟨other, hother, hne, hmeets⟩ | ⟨key, hunder, hminute⟩)
    · cases hunder : cache.heldUnder endPoint pem with
      | none =>
        rw [Cache.joined, show (HeldKey.single pem minute).pem = pem from rfl, hunder] at hmeets
        obtain ⟨hlast, hfirst⟩ := of_decide_eq_true hmeets
        exact Or.inl ⟨other, hother, hfirst, hlast⟩
      | some key =>
        rw [joined_of_heldUnder hunder] at hmeets
        obtain ⟨hkey, hpem⟩ := heldUnder_mem hunder
        exact Or.inr ⟨key, hkey, hpem, other, hother, hne, hmeets⟩
    · exact Or.inl ⟨key, (heldUnder_mem hunder).1, hminute⟩
  · rintro (⟨key, hkey, hminute⟩ | ⟨key, hkey, hpem, other, hother, hne, hmeets⟩)
    -- a key that has the minute is the one under the PEM, or is in the way
    · by_cases hpem : key.pem = pem
      · subst hpem
        exact Or.inr ⟨key, h.heldUnder_of_mem hkey, hminute⟩
      · obtain ⟨hfirst, hlast⟩ := le_joined cache endPoint (.single pem minute)
        refine Or.inl ⟨key, hkey, hpem, decide_eq_true ⟨?_, ?_⟩⟩
        · exact Int.le_trans hfirst hminute.2
        · exact Int.le_trans hminute.1 hlast
    · subst hpem
      have hunder : cache.heldUnder endPoint (HeldKey.single key.pem minute).pem = some key :=
        h.heldUnder_of_mem hkey
      refine Or.inl ⟨other, hother, hne, ?_⟩
      rw [joined_of_heldUnder hunder]
      exact hmeets

end Single

/-! ## An answer without a span -/

/-- A recency is of the minute the URL names. -/
theorem namedMinute_of_recency {url : String} {now : DateTime} {minute : Int} {recent : Bool}
    (h : minuteAndRecency url now = (some minute, recent)) : namedMinute url = some minute := by
  unfold minuteAndRecency at h
  split at h
  next => cases h
  next named hnamed => rw [hnamed, (Prod.mk.inj h).1]

/-- What an answer that states no start confirms: the minute asked about, where it is not
recent when the answer is held. -/
theorem confirmed_none {url pem : String} {minute : Int} (hminute : namedMinute url = some minute)
    (now later : DateTime) (stop : Option Int) :
    confirmed now later url pem none stop =
      if minute > minutesSinceBase now - clockDriftAllowanceMinutes then none
      else some (.single pem minute) := by
  simp only [confirmed, minuteAndRecency_some hminute]
  by_cases hrecent : minute > minutesSinceBase now - clockDriftAllowanceMinutes
  · rw [if_pos hrecent, decide_eq_true hrecent]
  · rw [if_neg hrecent, decide_eq_false hrecent]
    rfl

/-- What an answer leaves in the cache. -/
theorem cache_complete {L : Stdlib} {P : Provider σ κ} {w w' : World} {f : Nat} {x : Fetching}
    (hx : w.fetches[f]? = some x) {turn : Turn} (hstep : step L P w (.complete f turn) = some w')
    {pem : String} {start stop : Option Int}
    (hfetch : fetch L P turn x.url x.domain = .ok (pem, start, stop)) :
    w'.cache =
      (hold w.cache turn.holdNow turn.holdLater (endPointOf x.url) x.url pem start stop).2 := by
  obtain ⟨w₁, hstepped, rfl⟩ := step_stepped hstep
  cases hstepped with
  | held hx' hidle hphase hfetch' =>
    cases hx.symm.trans hx'
    cases hfetch.symm.trans hfetch'
    rfl
  | failed hx' hidle hphase hfetch' =>
    cases hx.symm.trans hx'
    cases hfetch.symm.trans hfetch'

/-- **When nothing is learned of a recent minute.** A request for a minute that was recent
when it was sent is answered, however much later, without a start. The keys held for the
end point stay as they are exactly where the minute is still recent when the answer is
held, or is covered by a held key already, or lies on the far side of another key from the
one held under the PEM of the answer. -/
theorem keysOf_complete_iff {L : Stdlib} {P : Provider σ κ} {w w' : World}
    (hreach : Reaches (step L P) (fun _ _ => True) World.start w) {f : Nat} {x : Fetching}
    (hx : w.fetches[f]? = some x) {turn : Turn} (hstep : step L P w (.complete f turn) = some w')
    {pem : String} {stop : Option Int}
    (hfetch : fetch L P turn x.url x.domain = .ok (pem, none, stop)) {sent : DateTime}
    {minute : Int} (hsent : minuteAndRecency x.url sent = (some minute, true)) :
    w'.cache.keysOf (endPointOf x.url) = w.cache.keysOf (endPointOf x.url) ↔
      minuteAndRecency x.url turn.holdNow = (some minute, true) ∨
      (∃ key ∈ w.cache.keysOf (endPointOf x.url), minute ∈ key.span) ∨
      ∃ key ∈ w.cache.keysOf (endPointOf x.url), key.pem = pem ∧
        ∃ other ∈ w.cache.keysOf (endPointOf x.url), other.pem ≠ pem ∧
          overlaps other (min minute key.first) (max minute key.last) = true := by
  have hwell := wellFormed_cache hreach
  have hminute := namedMinute_of_recency hsent
  rw [← hwell.not_free_single_iff, ← hwell.keysOf_single_iff, cache_complete hx hstep hfetch,
    hold_eq, confirmed_none hminute, minuteAndRecency_some hminute]
  by_cases hrecent : minute > minutesSinceBase turn.holdNow - clockDriftAllowanceMinutes
  · rw [if_pos hrecent, decide_eq_true hrecent]
    exact iff_of_true rfl (Or.inl rfl)
  · have hnot : ¬ (some minute, false) = (some minute, true) := fun he =>
      Bool.false_ne_true (congrArg Prod.snd he)
    rw [if_neg hrecent, decide_eq_false hrecent, or_iff_right hnot]
    rfl

/-! ## A minute that passes while the request is outstanding -/

/-- A standard library that reads every answer as the key `k` with no span. -/
def spanlessStdlib : Stdlib := tableStdlib (.obj [("publicKey", .str "k")]) []

/-- A request sent at minute 24, ten minutes short of the allowance, whose answer is held at
the moment given. -/
def slowTurn (held : DateTime) : Turn :=
  ⟨atMinute 24 (by decide), fun _ => .ok (200, []), held, held⟩

theorem fetch_slowTurn (held : DateTime) :
    fetch spanlessStdlib .plain (slowTurn held) oneKeyUrl "a.b" = .ok ("k", none, none) := by
  have hasks : asks oneKeyUrl = true := asks_dateUrl https_accepted rfl 10
  have hnot : ¬ asks oneKeyUrl = false := by
    rw [hasks]
    exact Bool.noConfusion
  rw [fetch, read, if_neg hnot]
  rfl

/-- The request on its way, and the process it is the one request of. -/
def outstandingFetch : Fetching := ⟨oneKeyUrl, "a.b", 0, .requesting, none, 0, some 2⟩

def outstanding : World := asking oneKeyUrl "a.b" .requesting (some 2) [] 0 3

theorem outstanding_reaches :
    Reaches (step spanlessStdlib .plain) (fun _ _ => True) World.start outstanding :=
  .of_run _ (.of_forall (fun _ _ => trivial) _ _)
    (run_askSteps _ _ oneKeyUrl "a.b" (slowTurn baseDate).heldNow [] 0)

/-- Minute 10 is within the allowance of minute 24. -/
theorem recent_when_sent :
    minuteAndRecency oneKeyUrl (atMinute 24 (by decide)) = (some 10, true) := by
  rw [minuteAndRecency_some namedMinute_oneKeyUrl, minutesSinceBase_atMinute]
  rfl

theorem outstanding_complete (held : DateTime) :
    ∃ w, step spanlessStdlib .plain outstanding (.complete 0 (slowTurn held)) = some w := by
  have hx : outstanding.fetches[0]? = some outstandingFetch := rfl
  have hidle : outstanding.busy outstandingFetch.loop = false := rfl
  exact ⟨_, (stepped_complete hx hidle (Or.inl rfl)).step⟩

/-- Minute 10 is recent when it is asked for at minute 24, and is held when the answer
comes a minute later. -/
theorem learned_after_minute :
    ¬ ∀ (L : Stdlib) (P : Provider Bytes Bytes) (w w' : World) (f : Nat) (x : Fetching)
        (turn : Turn) (pem : String) (stop : Option Int) (minute : Int),
      Reaches (step L P) (fun _ _ => True) World.start w → w.fetches[f]? = some x →
      step L P w (.complete f turn) = some w' →
      fetch L P turn x.url x.domain = .ok (pem, none, stop) → turn.heldNow ≤ turn.holdNow →
      minuteAndRecency x.url turn.heldNow = (some minute, true) →
      w'.cache.keysOf (endPointOf x.url) = w.cache.keysOf (endPointOf x.url) := by
  intro h
  let turn := slowTurn (atMinute 25 (by decide))
  have hx : outstanding.fetches[0]? = some outstandingFetch := rfl
  have hfetch : fetch spanlessStdlib .plain turn outstandingFetch.url outstandingFetch.domain =
      .ok ("k", none, none) := fetch_slowTurn _
  obtain ⟨w', hstep⟩ := outstanding_complete (atMinute 25 (by decide))
  have hsame := h _ _ _ w' 0 outstandingFetch turn "k" none 10 outstanding_reaches hx hstep hfetch
    (by decide) recent_when_sent
  -- the minute has left the allowance when the answer is held
  have hlate : ¬ (10 : Int) > minutesSinceBase turn.holdNow - clockDriftAllowanceMinutes := by
    rw [show turn.holdNow = atMinute 25 (by decide) from rfl, minutesSinceBase_atMinute]
    decide
  have hminute : namedMinute outstandingFetch.url = some 10 := namedMinute_oneKeyUrl
  rw [cache_complete hx hstep hfetch, hold_eq, confirmed_none hminute, if_neg hlate] at hsame
  have hempty := WellFormed.empty maximumCachedKeys
  have hheld := hempty.not_free_single_iff.mp (hempty.keysOf_single_iff.mp hsame)
  simp only [outstandingFetch, Cache.keysOf_empty] at hheld
  rcases hheld with ⟨key, hkey, -⟩ | ⟨key, hkey, -⟩
  · exact List.not_mem_nil hkey
  · exact List.not_mem_nil hkey

theorem keysOf_complete_meanwhile :
    ∃ w, step spanlessStdlib .plain outstanding
        (.complete 0 (slowTurn (atMinute 24 (by decide)))) = some w ∧
      w.cache.keysOf (endPointOf oneKeyUrl) = outstanding.cache.keysOf (endPointOf oneKeyUrl) := by
  obtain ⟨w', hstep⟩ := outstanding_complete (atMinute 24 (by decide))
  exact ⟨w', hstep, (keysOf_complete_iff outstanding_reaches (x := outstandingFetch) rfl hstep
    (fetch_slowTurn _) recent_when_sent).mpr (.inl recent_when_sent)⟩

end Fetch

end OpenWebId
