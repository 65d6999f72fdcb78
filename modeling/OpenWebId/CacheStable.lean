import OpenWebId.CacheGrowth

/-!
# What the cache answers it goes on answering

Later answers add keys and widen spans. They never take a minute from a key that has it,
nor what lets it be served: a span stated whole stays so, and a minute that is no longer
recent is not recent later. `Keeps` says it of two caches, and `Keeps.step` that every
event keeps what is held unless it clears the cache, or empties it for being full.

`Serves` is what lets `_held_for` answer for a minute with a key. Spans share no minute, so
the key that covers a minute is also the one that is found (`Serves.heldFor`).
-/

namespace OpenWebId

open Lib (Reaches)

namespace Fetch

/-- Every key held in the first cache is held in the second, over no fewer minutes, and is
stated whole there where it was. -/
def Keeps (cache cache' : Cache) : Prop :=
  ∀ endPoint, ∀ key ∈ cache.keysOf endPoint, ∃ key' ∈ cache'.keysOf endPoint,
    key'.pem = key.pem ∧ key.span ⊆ key'.span ∧ (key.explicit = true → key'.explicit = true)

theorem Keeps.refl (cache : Cache) : Keeps cache cache := by
  intro endPoint key hkey
  exact ⟨key, hkey, rfl, subset_rfl, id⟩

theorem Keeps.trans {cache cache' cache'' : Cache} (h : Keeps cache cache')
    (h' : Keeps cache' cache'') : Keeps cache cache'' := by
  intro endPoint key hkey
  obtain ⟨key', hkey', hpem, hspan, hexplicit⟩ := h endPoint key hkey
  obtain ⟨key'', hkey'', hpem', hspan', hexplicit'⟩ := h' endPoint key' hkey'
  exact ⟨key'', hkey'', hpem'.trans hpem, hspan.trans hspan', hexplicit' ∘ hexplicit⟩

/-- The answer is for a PEM not held and its span meets no other, so that it is added. -/
def Adds (cache : Cache) (endPoint : String) (new : HeldKey) : Prop :=
  ∀ key ∈ cache.keysOf endPoint, key.pem ≠ new.pem ∧ overlaps key new.first new.last = false

/-- The event neither clears the cache nor empties it for being full. -/
def Spares (maximum : Nat) (cache : Cache) : CacheEvent → Prop
  | .hold now later endPoint url pem start stop =>
    ∀ new, confirmed now later url pem start stop = some new → Adds cache endPoint new →
      cache.heldKeys < maximum
  | .clearCache => False

/-! ## One event -/

section Step

variable {maximum : Nat} {cache : Cache}

/-- Setting the keys of an end point keeps what is held where each of its keys is kept. -/
theorem Keeps.insert {endPoint : String} {keys : List HeldKey} {n : Nat}
    (hkeys : ∀ key ∈ cache.keysOf endPoint, ∃ key' ∈ keys,
      key'.pem = key.pem ∧ key.span ⊆ key'.span ∧ (key.explicit = true → key'.explicit = true)) :
    Keeps cache ⟨cache.keys.insert endPoint keys, n⟩ := by
  intro other key hkey
  by_cases hother : other = endPoint
  · subst hother
    rw [Cache.keysOf_insert]
    exact hkeys key hkey
  · rw [Cache.keysOf_insert_ne cache.keys hother keys n cache.heldKeys]
    exact ⟨key, hkey, rfl, subset_rfl, id⟩

/-- The key that was widened covers what it did, and the others are left. -/
theorem Keeps.widened {endPoint : String} {before after : List HeldKey} {key wider new : HeldKey}
    (hkeys : cache.keysOf endPoint = before ++ key :: after)
    (hwiden : widen (before ++ after) key new.first new.last = some wider) :
    Keeps cache ⟨cache.keys.insert endPoint (before ++ wider.restate new :: after),
      cache.heldKeys⟩ := by
  obtain ⟨hpem, hfirst, hlast, hexplicit, -⟩ := widen_some hwiden
  refine .insert ?_
  intro other hother
  rw [hkeys] at hother
  rcases mem_middle_iff.mp hother with rfl | hothers
  · refine ⟨wider.restate new, mem_middle_iff.mpr (Or.inl rfl), hpem, ?_, ?_⟩
    · rw [HeldKey.restate_span, HeldKey.span, HeldKey.span, hfirst, hlast]
      exact Set.Icc_subset_Icc (min_le_right ..) (le_max_right ..)
    · intro hwhole
      show (wider.explicit || new.explicit) = true
      rw [hexplicit, hwhole, Bool.true_or]
  · exact ⟨other, mem_middle_iff.mpr (Or.inr hothers), rfl, subset_rfl, id⟩

/-- Recording keeps what is held, unless the cache is full and the key is to be added. -/
theorem Keeps.record {endPoint : String} {new : HeldKey}
    (hroom : Adds cache endPoint new → cache.heldKeys < maximum) :
    Keeps cache (recordWithin maximum cache endPoint new) := by
  rcases recordWithin_eq maximum cache endPoint new with
    ⟨hpems, hrecord⟩ | ⟨before, key, after, hkeys, hpem, hrecord⟩
  · rw [hrecord]
    split
    next => exact .refl cache
    next hfree =>
      rw [Bool.not_eq_true, List.any_eq_false] at hfree
      have hadds : Adds cache endPoint new := fun key hkey =>
        ⟨hpems key hkey, Bool.eq_false_iff.mpr (hfree key hkey)⟩
      unfold addKeyWithin
      rw [if_neg (Nat.not_le.mpr (hroom hadds))]
      refine .insert ?_
      intro key hkey
      exact ⟨key, List.mem_append_left _ hkey, rfl, subset_rfl, id⟩
  · rw [hrecord]
    split
    next wider hwiden => exact .widened (Cache.keysOf_of_lookup hkeys) hwiden
    next => exact .refl cache

/-- One event that spares the cache keeps what it holds. -/
theorem Keeps.step {cache' : Cache} {event : CacheEvent} (hspares : Spares maximum cache event)
    (hstep : cacheStepWithin maximum cache event = some cache') : Keeps cache cache' := by
  cases event with
  | clearCache => exact hspares.elim
  | hold now later endPoint url pem start stop =>
    cases hstep
    unfold holdWithin
    simp only
    split
    next => exact .refl cache
    next new hnew => exact .record (hspares new hnew)

end Step

/-! ## What is served -/

/-- A key is held under the PEM that covers the minute and may be served for it. -/
def Serves (cache : Cache) (now : DateTime) (endPoint pem : String) (minute : Int) : Prop :=
  ∃ key ∈ cache.keysOf endPoint, key.pem = pem ∧ minute ∈ key.span ∧
    (key.explicit = true ∨ minute ≤ minutesSinceBase now - clockDriftAllowanceMinutes)

theorem covers_iff {key : HeldKey} {minute : Int} :
    key.covers minute = true ↔ minute ∈ key.span := decide_eq_true_iff

section Serves

variable {maximum : Nat} {cache : Cache} {now : DateTime} {endPoint pem : String} {minute : Int}

/-- A cache that keeps what is held serves the minute at any later moment. -/
theorem Serves.keeps (h : Serves cache now endPoint pem minute) {cache' : Cache}
    (hkeeps : Keeps cache cache') {now' : DateTime} (hclock : now ≤ now') :
    Serves cache' now' endPoint pem minute := by
  obtain ⟨key, hkey, hpem, hspan, hmay⟩ := h
  obtain ⟨key', hkey', hpem', hspan', hexplicit⟩ := hkeeps endPoint key hkey
  have hnows := minutesSinceBase_mono hclock
  refine ⟨key', hkey', hpem'.trans hpem, hspan' hspan, ?_⟩
  rcases hmay with hwhole | hold
  · exact Or.inl (hexplicit hwhole)
  · exact Or.inr (by omega)

/-- What was answered is served. -/
theorem serves_of_heldFor {url : String} {answer : KeyAnswer}
    (hminute : namedMinute url = some minute)
    (hheld : heldFor cache now endPoint url = some answer) :
    Serves cache now endPoint answer.pem minute := by
  obtain ⟨minute', key, hminute', hkey, hfirst, hlast, hanswer, hmay⟩ := heldFor_known hheld
  cases hminute.symm.trans hminute'
  subst hanswer
  exact ⟨key, hkey, (statedFor_pem key).symm, ⟨hfirst, hlast⟩, hmay⟩

/-- A key that is served is the one that is found. -/
theorem Serves.heldFor (h : Serves cache now endPoint pem minute)
    (hwell : WellFormed maximum cache) {url : String} (hminute : namedMinute url = some minute) :
    ∃ answer, heldFor cache now endPoint url = some answer ∧ answer.pem = pem := by
  obtain ⟨key, hkey, hpem, hspan, hmay⟩ := h
  have hcovers : key.covers minute = true := covers_iff.mpr hspan
  have hmatch : (key.covers minute && (key.explicit ||
      !decide (minute > minutesSinceBase now - clockDriftAllowanceMinutes))) = true := by
    rw [hcovers, Bool.true_and, Bool.or_eq_true, Bool.not_eq_true', decide_eq_false_iff_not]
    exact hmay.imp_right Int.not_lt.mpr
  have hfound : ((cache.keysOf endPoint).find? fun key => key.covers minute && (key.explicit ||
      !decide (minute > minutesSinceBase now - clockDriftAllowanceMinutes))) = some key := by
    refine (hwell.apart endPoint).find?_eq hkey hspan hmatch ?_
    intro other hother
    exact covers_iff.mp (Bool.and_eq_true_iff.mp hother).1
  refine ⟨statedFor key, ?_, (statedFor_pem key).trans hpem⟩
  simp only [Fetch.heldFor, minuteAndRecency_some hminute, hfound, Option.map_some]

end Serves

/-! ## Every run -/

/-- **What the cache answers it goes on answering.** From any state that a cache of at most
so many keys can reach, an answer for a minute with a key outlasts every later sequence of
answers, for whatever end points and however they contradict what is held, that does not
clear the cache or empty it for being full: at any later reading of the clock the cache
answers for the minute with the same key. -/
theorem heldFor_stable {maximum : Nat} (hmaximum : 1 ≤ maximum) {cache cache' : Cache}
    (hreach : Reaches (cacheStepWithin maximum) (fun _ _ => True) Cache.empty cache)
    (hlater : Reaches (cacheStepWithin maximum) (Spares maximum) cache cache')
    {now now' : DateTime} (hclock : now ≤ now') {endPoint url url' : String} {minute : Int}
    (hminute : namedMinute url = some minute) (hminute' : namedMinute url' = some minute)
    {answer : KeyAnswer} (hheld : heldFor cache now endPoint url = some answer) :
    ∃ answer', heldFor cache' now' endPoint url' = some answer' ∧ answer'.pem = answer.pem := by
  have hkeeps : Keeps cache cache' :=
    hlater.invariant (.refl cache) fun _ _ _ h hspares hstep => h.trans (.step hspares hstep)
  have hafter := hreach.trans (hlater.mono fun _ _ _ => trivial)
  have hwell : WellFormed maximum cache' :=
    hafter.invariant (.empty maximum) fun _ _ _ h _ hstep => h.step hmaximum hstep
  exact ((serves_of_heldFor hminute hheld).keeps hkeeps hclock).heldFor hwell hminute'

/-- A full cache that holds `A` for minute 12 answers for it with `A` after an answer that
gives some of its minutes to `B`. -/
theorem heldFor_stable_contradicted :
    ∃ cache answer, Reaches (cacheStepWithin 1) (Spares 1) cache cache ∧
      heldFor cache (atMinute 99 (by decide)) "e" (dateUrl "e" 12) = some answer ∧
      answer.pem = "A" := by
  let key : HeldKey := ⟨"A", 10, 19, true, false, by decide⟩
  let cache : Cache := ⟨AList.insert "e" [key] ∅, 1⟩
  have hreach : Reaches (cacheStepWithin 1) (fun _ _ => True) Cache.empty cache :=
    .next (.hold baseDate baseDate "e" "" "A" (some 10) (some 20)) .start trivial rfl
  have hspares : Spares 1 cache (.hold baseDate baseDate "e" "" "B" (some 15) (some 30)) := by
    intro new hnew hadds
    have hconfirmed : confirmed baseDate baseDate "" "B" (some 15) (some 30) =
        some ⟨"B", 15, 29, true, false, by decide⟩ := rfl
    cases hconfirmed.symm.trans hnew
    have hmeets := (hadds key (List.mem_singleton_self _)).2
    cases hmeets
  have hlater : Reaches (cacheStepWithin 1) (Spares 1) cache cache := .next _ .start hspares rfl
  have hnamed : namedMinute (dateUrl "e" 12) = some 12 :=
    namedMinute_dateUrl (by decide) (by decide)
  have hheld : heldFor cache baseDate "e" (dateUrl "e" 12) = some ⟨"A", 10, 19, true⟩ := by
    simp only [heldFor, minuteAndRecency_some hnamed]
    rfl
  have hclock : baseDate ≤ atMinute 99 (by decide) := by decide
  obtain ⟨answer, hanswer, hpem⟩ := heldFor_stable (by decide) hreach hlater hclock hnamed hnamed
    hheld
  exact ⟨cache, answer, hlater, hanswer, hpem⟩

end Fetch

end OpenWebId
