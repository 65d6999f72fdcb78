import OpenWebId.CacheSound
import OpenWebId.Lib.Spans

/-!
# The shape of the cache

A creator is free to contradict itself, and still the keys held for an end point have
different PEMs and spans without a common minute, each is stated whole by its creator or
open ended or neither, and the count kept beside the cache is the number of keys in it
and stays within its bound. `WellFormed` is that, for any bound, and `Recorded` gives
the four cases of it: the keys stay apart because a span that meets another key's is
neither widened nor added.
-/

namespace OpenWebId

namespace Fetch

open Lib (Reaches Apart tally)

/-- The minutes a held key covers. -/
def HeldKey.span (key : HeldKey) : Set Int := Set.Icc key.first key.last

/-- The number of keys held over all end points. -/
def Cache.total (cache : Cache) : Nat := tally cache.keys.entries

/-- No key is both stated whole by its creator and open ended. -/
def Exclusive (keys : List HeldKey) : Prop :=
  ∀ key ∈ keys, ¬ (key.explicit = true ∧ key.openEnded = true)

/-- What holds of a cache of at most so many keys. -/
structure WellFormed (maximum : Nat) (cache : Cache) : Prop where
  pems : ∀ endPoint, (cache.keysOf endPoint).Pairwise fun a b => a.pem ≠ b.pem
  ordered : ∀ endPoint, ∀ key ∈ cache.keysOf endPoint, key.first ≤ key.last
  apart : ∀ endPoint, Apart HeldKey.span (cache.keysOf endPoint)
  exclusive : ∀ endPoint, Exclusive (cache.keysOf endPoint)
  counted : cache.heldKeys = cache.total
  bounded : cache.heldKeys ≤ maximum

/-- A span that is found free of another key's has no minute in common with it. -/
theorem overlaps_false_iff {other key : HeldKey} :
    overlaps other key.first key.last = false ↔ Disjoint other.span key.span := by
  rw [HeldKey.span, HeldKey.span, Lib.disjoint_Icc_iff other.ordered key.ordered, overlaps,
    decide_eq_false_iff_not]
  omega

/-- The key an answer confirms is not both stated whole and open ended. -/
theorem confirmed_exclusive {now later : DateTime} {url pem : String} {start stop : Option Int}
    {new : HeldKey} (h : confirmed now later url pem start stop = some new) :
    ¬ (new.explicit = true ∧ new.openEnded = true) := by
  unfold confirmed at h
  split at h
  next =>
    split at h
    next =>
      cases h
      exact fun hboth => Bool.false_ne_true hboth.2
    next =>
      cases h
      exact fun hboth => Bool.false_ne_true hboth.1
  next =>
    cases h
    exact fun hboth => Bool.false_ne_true hboth.1
  next =>
    split at h
    next =>
      cases h
      exact fun hboth => Bool.false_ne_true hboth.1
    next => cases h

/-- Nor is a key that took in what another answer stated. -/
theorem HeldKey.restate_exclusive (key new : HeldKey) :
    ¬ ((key.restate new).explicit = true ∧ (key.restate new).openEnded = true) := by
  intro hboth
  obtain ⟨hexplicit, hopen⟩ := hboth
  change (key.explicit || new.explicit) = true at hexplicit
  change (!(key.explicit || new.explicit) && (key.openEnded || new.openEnded)) = true at hopen
  rw [hexplicit] at hopen
  cases hopen

@[simp] theorem HeldKey.restate_span (key new : HeldKey) : (key.restate new).span = key.span := rfl

@[simp] theorem HeldKey.restate_pem (key new : HeldKey) : (key.restate new).pem = key.pem := rfl

theorem Cache.total_insert (cache : Cache) (endPoint : String) (keys : List HeldKey) (n : Nat) :
    (Cache.mk (cache.keys.insert endPoint keys) n).total + (cache.keysOf endPoint).length =
      cache.total + keys.length :=
  Lib.tally_insert cache.keys endPoint keys

/-- What holds of the keys of each end point, for one end point whose keys are set and the
others left. -/
theorem forall_keysOf_insert {I : List HeldKey → Prop} {cache : Cache} {endPoint : String}
    {keys : List HeldKey} {n : Nat} (h : ∀ other, I (cache.keysOf other)) (hkeys : I keys)
    (other : String) : I (Cache.keysOf ⟨cache.keys.insert endPoint keys, n⟩ other) := by
  by_cases hother : other = endPoint
  · subst hother
    rwa [Cache.keysOf_insert]
  · rw [Cache.keysOf_insert_ne cache.keys hother keys n cache.heldKeys]
    exact h other

section WellFormed

variable {maximum : Nat} {cache : Cache} {endPoint : String} {new : HeldKey}

theorem WellFormed.empty (maximum : Nat) : WellFormed maximum Cache.empty where
  pems e := by
    rw [Cache.keysOf_empty]
    exact .nil
  ordered e key hkey := key.ordered
  apart e := by
    rw [Cache.keysOf_empty]
    exact .nil
  exclusive e key hkey := by
    rw [Cache.keysOf_empty] at hkey
    cases hkey
  counted := rfl
  bounded := Nat.zero_le _

/-- A cache that holds one key alone. -/
theorem WellFormed.single (hmaximum : 1 ≤ maximum)
    (hnew : ¬ (new.explicit = true ∧ new.openEnded = true)) :
    WellFormed maximum ⟨AList.insert endPoint [new] ∅, 1⟩ := by
  have hall : ∀ {I : List HeldKey → Prop}, I [] → I [new] → ∀ other,
      I (Cache.keysOf ⟨AList.insert endPoint [new] ∅, 1⟩ other) := by
    intro I hnil hone other
    have hempty : ∀ other, I (Cache.empty.keysOf other) := fun other => by
      rwa [Cache.keysOf_empty]
    exact forall_keysOf_insert hempty hone other
  have hexclusive : Exclusive [new] := by
    intro key hkey
    rw [List.mem_singleton.mp hkey]
    exact hnew
  have hnone : Exclusive [] := fun key hkey => absurd hkey List.not_mem_nil
  exact ⟨hall .nil (List.pairwise_singleton ..), fun _ key _ => key.ordered,
    hall .nil (List.pairwise_singleton ..), hall hnone hexclusive, rfl, hmaximum⟩

/-- The key held under the PEM covers a wider span that meets no other key's. -/
theorem WellFormed.widened (h : WellFormed maximum cache) {before after : List HeldKey}
    {key wider : HeldKey} (hkeys : cache.keys.lookup endPoint = some (before ++ key :: after))
    (hwiden : widen (before ++ after) key new.first new.last = some wider) :
    WellFormed maximum
      ⟨cache.keys.insert endPoint (before ++ wider.restate new :: after), cache.heldKeys⟩ := by
  have hkeysOf := Cache.keysOf_of_lookup hkeys
  obtain ⟨hpem, -, -, -, -, hfree⟩ := widen_some hwiden
  have hpems := h.pems endPoint
  have hapart := h.apart endPoint
  have hexclusive := h.exclusive endPoint
  rw [hkeysOf] at hpems hapart hexclusive
  refine ⟨forall_keysOf_insert h.pems ?_, fun _ key _ => key.ordered,
    forall_keysOf_insert h.apart ?_, forall_keysOf_insert h.exclusive ?_, ?_, h.bounded⟩
  · rw [List.pairwise_middle Ne.symm, List.pairwise_cons] at hpems ⊢
    rw [HeldKey.restate_pem, hpem]
    exact hpems
  · refine hapart.replace ?_
    intro other hother
    exact (overlaps_false_iff.mp (hfree other hother)).symm
  · intro k hk
    rcases mem_middle_iff.mp hk with rfl | hothers
    · exact wider.restate_exclusive new
    · exact hexclusive k (mem_middle_iff.mpr (Or.inr hothers))
  -- one key took the place of another, so the count is right as it was
  · have htotal := cache.total_insert endPoint (before ++ wider.restate new :: after)
      cache.heldKeys
    rw [hkeysOf] at htotal
    simp only [List.length_append, List.length_cons] at htotal
    have hcounted := h.counted
    show cache.heldKeys = Cache.total _
    omega

/-- A key of another PEM is added where its span meets no other key's. -/
theorem WellFormed.added (h : WellFormed maximum cache)
    (hnew : ¬ (new.explicit = true ∧ new.openEnded = true)) (hroom : cache.heldKeys < maximum)
    (hpem : ∀ key ∈ cache.keysOf endPoint, key.pem ≠ new.pem)
    (hfree : ∀ key ∈ cache.keysOf endPoint, overlaps key new.first new.last = false) :
    WellFormed maximum
      ⟨cache.keys.insert endPoint (cache.keysOf endPoint ++ [new]), cache.heldKeys + 1⟩ := by
  refine ⟨forall_keysOf_insert h.pems ?_, fun _ key _ => key.ordered,
    forall_keysOf_insert h.apart ?_, forall_keysOf_insert h.exclusive ?_, ?_, hroom⟩
  · refine List.pairwise_append.mpr ⟨h.pems endPoint, List.pairwise_singleton .., ?_⟩
    intro key hkey other hother
    rw [List.mem_singleton.mp hother]
    exact hpem key hkey
  · refine (h.apart endPoint).concat ?_
    intro key hkey
    exact overlaps_false_iff.mp (hfree key hkey)
  · intro key hkey
    rcases List.mem_append.mp hkey with hold | hadded
    · exact h.exclusive endPoint key hold
    · rw [List.mem_singleton.mp hadded]
      exact hnew
  -- one key more, and the count is one more
  · have htotal := cache.total_insert endPoint (cache.keysOf endPoint ++ [new])
      (cache.heldKeys + 1)
    simp only [List.length_append, List.length_singleton] at htotal
    have hcounted := h.counted
    show cache.heldKeys + 1 = Cache.total _
    omega

/-- Recording a key keeps the shape. -/
theorem WellFormed.recorded (h : WellFormed maximum cache) (hmaximum : 1 ≤ maximum)
    (hnew : ¬ (new.explicit = true ∧ new.openEnded = true)) {cache' : Cache}
    (hrec : Recorded maximum cache endPoint new cache') : WellFormed maximum cache' := by
  cases hrec with
  | kept => exact h
  | widened hkeys _ hwiden => exact h.widened hkeys hwiden
  | added hroom hpem hfree => exact h.added hnew hroom hpem hfree
  | evicted => exact .single hmaximum hnew

end WellFormed

/-! ## Every run -/

/-- What happens to a cache that holds at most so many keys. -/
def cacheStepWithin (maximum : Nat) (cache : Cache) : CacheEvent → Option Cache
  | .hold now later endPoint url pem start stop =>
    some (holdWithin maximum cache now later endPoint url pem start stop).2
  | .clearCache => some .empty

/-- One event keeps the shape. -/
theorem WellFormed.step {maximum : Nat} (hmaximum : 1 ≤ maximum) {cache cache' : Cache}
    {event : CacheEvent} (h : WellFormed maximum cache)
    (hstep : cacheStepWithin maximum cache event = some cache') : WellFormed maximum cache' := by
  cases event with
  | clearCache =>
    cases hstep
    exact .empty maximum
  | hold now later endPoint url pem start stop =>
    cases hstep
    unfold holdWithin
    simp only
    split
    next => exact h
    next new hnew =>
      exact h.recorded hmaximum (confirmed_exclusive hnew)
        (recordWithin_recorded maximum cache endPoint new)

/-- **The representation invariant of the cache.** Whatever answers were held, in
whatever order, however they contradict each other and whatever the clock read, and
whenever the cache was cleared, the keys of an end point have different PEMs and spans
that are not empty and share no minute, none is both explicit and open ended, and the
count of keys is right and within the bound, for every bound from 1 on. -/
theorem wellFormed_of_reaches {maximum : Nat} (hmaximum : 1 ≤ maximum) {cache : Cache}
    (hreach : Reaches (cacheStepWithin maximum) (fun _ _ => True) Cache.empty cache) :
    (∀ endPoint, (cache.keysOf endPoint).Pairwise (fun a b => a.pem ≠ b.pem) ∧
      (∀ key ∈ cache.keysOf endPoint, key.first ≤ key.last) ∧
      (cache.keysOf endPoint).Pairwise (fun a b =>
        Disjoint (Set.Icc a.first a.last) (Set.Icc b.first b.last)) ∧
      ∀ key ∈ cache.keysOf endPoint, ¬ (key.explicit = true ∧ key.openEnded = true)) ∧
    cache.heldKeys = (cache.keys.entries.map fun held => held.2.length).sum ∧
    cache.heldKeys ≤ maximum := by
  have h : WellFormed maximum cache :=
    hreach.invariant (.empty maximum) fun _ _ _ h _ hstep => h.step hmaximum hstep
  exact ⟨fun endPoint => ⟨h.pems endPoint, h.ordered endPoint, h.apart endPoint,
    h.exclusive endPoint⟩, h.counted, h.bounded⟩

/-- Two keys of one end point, one from minute 10 on where the other ends, in a cache that
is then full. -/
theorem wellFormed_of_reaches_two :
    ∃ (cache : Cache) (a b : HeldKey), cache.keysOf "e" = [a, b] ∧ a.pem = "A" ∧ b.pem = "B" ∧
      Disjoint (Set.Icc a.first a.last) (Set.Icc b.first b.last) ∧
      cache.heldKeys = (cache.keys.entries.map fun held => held.2.length).sum ∧
      cache.heldKeys ≤ 2 := by
  have hfirst : Reaches (cacheStepWithin 2) (fun _ _ => True) Cache.empty
      ⟨AList.insert "e" [⟨"A", 5, 9, true, false, by omega⟩] ∅, 1⟩ :=
    .next (.hold baseDate baseDate "e" "" "A" (some 5) (some 10)) .start trivial rfl
  have hsecond := Reaches.next (.hold baseDate baseDate "e" "" "B" (some 10) (some 20)) hfirst
    trivial rfl
  obtain ⟨hkeys, hcounted, hbounded⟩ := wellFormed_of_reaches (by decide) hsecond
  obtain ⟨-, -, hapart, -⟩ := hkeys "e"
  exact ⟨_, _, _, rfl, rfl, rfl, List.rel_of_pairwise_cons hapart (List.mem_singleton_self _),
    hcounted, hbounded⟩

end Fetch

end OpenWebId
