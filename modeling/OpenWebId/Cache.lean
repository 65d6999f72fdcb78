import OpenWebId.Url

/-!
# The cache of keys: `_hold`, `_widen` and `_held_for`

The cache holds, for each end point, the keys its creator has answered with and the
span of minutes each is known to cover. `HeldKey` carries that its span is not empty.
`hold` decides what an answer says about minutes (`confirmed`) and records it
(`record`), each under the bound of the package on the keys held (`holdWithin` and
`recordWithin` take any bound); `Recorded` is the inversion of recording, the four
things it can do to a cache, and every result about the cache is a case analysis on it.
-/

namespace OpenWebId

namespace Fetch

/-- `_HeldKey`. -/
structure HeldKey where
  pem : String
  first : Int
  last : Int
  explicit : Bool
  openEnded : Bool
  ordered : first ≤ last
  deriving DecidableEq

/-- `_HeldKey.covers`. -/
def HeldKey.covers (key : HeldKey) (minute : Int) : Bool :=
  decide (key.first ≤ minute ∧ minute ≤ key.last)

/-- `_KeyAnswer`. -/
structure KeyAnswer where
  pem : String
  first : Int
  last : Int
  known : Bool
  deriving DecidableEq

/-- `_KeyAnswer.covers`. -/
def KeyAnswer.covers (answer : KeyAnswer) (minute : Int) : Bool :=
  answer.known && decide (answer.first ≤ minute ∧ minute ≤ answer.last)

/-- `_cache` and `_held_keys`. -/
structure Cache where
  keys : AList fun _ : String => List HeldKey
  heldKeys : Nat

/-- The cache of a process that has fetched nothing, and of one that called
`clear_cache`. -/
def Cache.empty : Cache := ⟨∅, 0⟩

/-- `MAXIMUM_CACHED_KEYS`. -/
def maximumCachedKeys : Nat := 1024

/-- The keys held for an end point. -/
def Cache.keysOf (cache : Cache) (endPoint : String) : List HeldKey :=
  (cache.keys.lookup endPoint).getD []

/-- `_stated_for`. -/
def statedFor (key : HeldKey) : KeyAnswer :=
  if key.explicit then ⟨key.pem, key.first, key.last, true⟩
  else if key.openEnded then ⟨key.pem, key.first, lastMinute, true⟩
  else ⟨key.pem, 0, 0, false⟩

/-- `_stated`. -/
def stated (pem : String) (start stop : Option Int) : KeyAnswer :=
  match start with
  | none => ⟨pem, 0, 0, false⟩
  | some start =>
    match stop with
    | some stop =>
      if stop > start then ⟨pem, start, stop - 1, true⟩ else ⟨pem, start, lastMinute, true⟩
    | none => ⟨pem, start, lastMinute, true⟩

/-- `_held_for`, at the moment `now`. -/
def heldFor (cache : Cache) (now : DateTime) (endPoint url : String) : Option KeyAnswer :=
  match minuteAndRecency url now with
  | (none, _) => none
  | (some minute, recent) =>
    ((cache.keysOf endPoint).find? fun key =>
      key.covers minute && (key.explicit || !recent)).map statedFor

/-- Whether another key's span meets the minutes from `first` to `last`. -/
def overlaps (other : HeldKey) (first last : Int) : Bool :=
  decide (other.last ≥ first ∧ other.first ≤ last)

/-- `_widen`: the key over the wider span, or `none` where one of the others is in
the way. -/
def widen (others : List HeldKey) (key : HeldKey) (first last : Int) : Option HeldKey :=
  let first := min first key.first
  let last' := max last key.last
  if others.any fun other => overlaps other first last' then none
  else some { key with
    first := first
    last := last'
    ordered := Int.le_trans (Int.min_le_right ..) (Int.le_trans key.ordered (Int.le_max_right ..)) }

/-- The span an answer confirms its key for, as the key to hold, or `none` where it
says nothing certain about any minute. `now` is the clock as `_minute_and_recency`
reads it and `later` as `_hold` reads it again. -/
def confirmed (now later : DateTime) (url pem : String) (start stop : Option Int) :
    Option HeldKey :=
  match start, stop with
  | some start, some stop =>
    if h : stop > start then
      some ⟨pem, start, stop - 1, true, false, by omega⟩
    else
      some ⟨pem, start, max start (minutesSinceBase later - clockDriftAllowanceMinutes), false,
        true, Int.le_max_left ..⟩
  | some start, none =>
    some ⟨pem, start, max start (minutesSinceBase later - clockDriftAllowanceMinutes), false,
      true, Int.le_max_left ..⟩
  | none, _ =>
    match minuteAndRecency url now with
    | (some minute, false) => some ⟨pem, minute, minute, false, false, Int.le_refl _⟩
    | _ => none

/-- A confirmed key is the key of the answer. -/
theorem confirmed_pem {now later : DateTime} {url pem : String} {start stop : Option Int}
    {new : HeldKey} (h : confirmed now later url pem start stop = some new) : new.pem = pem := by
  unfold confirmed at h
  split at h
  · split at h <;> (cases h; rfl)
  · cases h
    rfl
  · split at h
    · cases h
      rfl
    · cases h

/-- A held key whose span was widened takes in what the new answer stated. -/
def HeldKey.restate (key new : HeldKey) : HeldKey :=
  let explicit := key.explicit || new.explicit
  { key with explicit := explicit, openEnded := !explicit && (key.openEnded || new.openEnded) }

/-- The end of `_hold`: adds a key not held before, emptying the cache first when it
holds as many as it may. -/
def addKeyWithin (maximum : Nat) (cache : Cache) (endPoint : String) (new : HeldKey) : Cache :=
  if cache.heldKeys ≥ maximum then ⟨AList.insert endPoint [new] ∅, 1⟩
  else ⟨cache.keys.insert endPoint (cache.keysOf endPoint ++ [new]), cache.heldKeys + 1⟩

/-- What `_hold` does with a span: widens the key held under the same PEM, or adds the
key where no other key's span meets its own. -/
def recordWithin (maximum : Nat) (cache : Cache) (endPoint : String) (new : HeldKey) : Cache :=
  match cache.keys.lookup endPoint with
  | none => addKeyWithin maximum cache endPoint new
  | some keys =>
    match keys.span fun key => key.pem ≠ new.pem with
    | (before, key :: after) =>
      match widen (before ++ after) key new.first new.last with
      | some wider =>
        ⟨cache.keys.insert endPoint (before ++ wider.restate new :: after), cache.heldKeys⟩
      | none => cache
    | (_, []) =>
      if keys.any fun other => overlaps other new.first new.last then cache
      else addKeyWithin maximum cache endPoint new

/-- `_hold`, where the cache holds at most `maximum` keys. -/
def holdWithin (maximum : Nat) (cache : Cache) (now later : DateTime) (endPoint url pem : String)
    (start stop : Option Int) : KeyAnswer × Cache :=
  (stated pem start stop,
    match confirmed now later url pem start stop with
    | none => cache
    | some new => recordWithin maximum cache endPoint new)

/-- What `_hold` does with a span, under the bound of the package. -/
def record : Cache → String → HeldKey → Cache := recordWithin maximumCachedKeys

/-- `_hold`. -/
def hold : (cache : Cache) → (now later : DateTime) → (endPoint url pem : String) →
    (start stop : Option Int) → KeyAnswer × Cache := holdWithin maximumCachedKeys

/-- What `_hold` answers and leaves. -/
theorem hold_eq (cache : Cache) (now later : DateTime) (endPoint url pem : String)
    (start stop : Option Int) :
    hold cache now later endPoint url pem start stop =
      (stated pem start stop,
        match confirmed now later url pem start stop with
        | none => cache
        | some new => record cache endPoint new) := rfl

/-! ## What recording does to a cache -/

theorem Cache.keysOf_insert (held : AList fun _ : String => List HeldKey) (endPoint : String)
    (keys : List HeldKey) (n : Nat) :
    Cache.keysOf ⟨held.insert endPoint keys, n⟩ endPoint = keys := by
  rw [Cache.keysOf, AList.lookup_insert, Option.getD_some]

theorem Cache.keysOf_insert_ne (held : AList fun _ : String => List HeldKey)
    {endPoint other : String} (h : other ≠ endPoint) (keys : List HeldKey) (n m : Nat) :
    Cache.keysOf ⟨held.insert endPoint keys, n⟩ other = Cache.keysOf ⟨held, m⟩ other := by
  rw [Cache.keysOf, AList.lookup_insert_ne h, Cache.keysOf]

theorem Cache.keysOf_of_lookup {cache : Cache} {endPoint : String} {keys : List HeldKey}
    (h : cache.keys.lookup endPoint = some keys) : cache.keysOf endPoint = keys := by
  rw [Cache.keysOf, h, Option.getD_some]

theorem Cache.keysOf_empty (endPoint : String) : Cache.empty.keysOf endPoint = [] := by
  rw [Cache.keysOf, Cache.empty, AList.lookup_empty, Option.getD_none]

/-- A key held after the keys of one end point were set is one of them, or was held for
another end point before. -/
theorem mem_keysOf_insert {held : AList fun _ : String => List HeldKey} {endPoint other : String}
    {keys : List HeldKey} {n m : Nat} {key : HeldKey}
    (h : key ∈ Cache.keysOf ⟨held.insert endPoint keys, n⟩ other) :
    (other = endPoint ∧ key ∈ keys) ∨ key ∈ Cache.keysOf ⟨held, m⟩ other := by
  by_cases hother : other = endPoint
  · subst hother
    rw [Cache.keysOf_insert] at h
    exact Or.inl ⟨rfl, h⟩
  · rw [Cache.keysOf_insert_ne held hother keys n m] at h
    exact Or.inr h

/-- An empty cache serves nothing. -/
theorem heldFor_empty (now : DateTime) (endPoint url : String) :
    heldFor Cache.empty now endPoint url = none := by
  unfold heldFor
  rw [Cache.keysOf_empty]
  split <;> rfl

/-- The span of a widened key runs from the earlier of the two starts to the later of
the two ends, and none of the others meets it. -/
theorem widen_some {others : List HeldKey} {key wider : HeldKey} {first last : Int}
    (h : widen others key first last = some wider) :
    wider.pem = key.pem ∧ wider.first = min first key.first ∧ wider.last = max last key.last ∧
      wider.explicit = key.explicit ∧ wider.openEnded = key.openEnded ∧
      ∀ other ∈ others, overlaps other wider.first wider.last = false := by
  unfold widen at h
  simp only at h
  split at h
  next => cases h
  next hfree =>
    cases h
    refine ⟨rfl, rfl, rfl, rfl, rfl, ?_⟩
    intro other hother
    rw [Bool.not_eq_true, List.any_eq_false] at hfree
    exact Bool.eq_false_iff.mpr (hfree other hother)

/-- The members of a list with one of them in the middle. -/
theorem mem_middle_iff {key middle : HeldKey} {before after : List HeldKey} :
    key ∈ before ++ middle :: after ↔ key = middle ∨ key ∈ before ++ after :=
  List.perm_middle.mem_iff.trans List.mem_cons

/-- Everything recording a key can do to a cache. -/
inductive Recorded (maximum : Nat) (cache : Cache) (endPoint : String) (new : HeldKey) :
    Cache → Prop
  /-- Another key's span is in the way, and the cache stays as it is. -/
  | kept : Recorded maximum cache endPoint new cache
  /-- The key held under the same PEM covers a wider span. -/
  | widened {before after : List HeldKey} {key wider : HeldKey}
      (hkeys : cache.keys.lookup endPoint = some (before ++ key :: after))
      (hpem : key.pem = new.pem)
      (hwiden : widen (before ++ after) key new.first new.last = some wider) :
      Recorded maximum cache endPoint new
        ⟨cache.keys.insert endPoint (before ++ wider.restate new :: after), cache.heldKeys⟩
  /-- The key is added to those of its end point. -/
  | added (hroom : cache.heldKeys < maximum)
      (hpem : ∀ key ∈ cache.keysOf endPoint, key.pem ≠ new.pem)
      (hfree : ∀ key ∈ cache.keysOf endPoint, overlaps key new.first new.last = false) :
      Recorded maximum cache endPoint new
        ⟨cache.keys.insert endPoint (cache.keysOf endPoint ++ [new]), cache.heldKeys + 1⟩
  /-- The cache was full: it is emptied and holds the key alone. -/
  | evicted (hfull : maximum ≤ cache.heldKeys) :
      Recorded maximum cache endPoint new ⟨AList.insert endPoint [new] ∅, 1⟩

theorem addKeyWithin_recorded {maximum : Nat} {cache : Cache} {endPoint : String} {new : HeldKey}
    (hpem : ∀ key ∈ cache.keysOf endPoint, key.pem ≠ new.pem)
    (hfree : ∀ key ∈ cache.keysOf endPoint, overlaps key new.first new.last = false) :
    Recorded maximum cache endPoint new (addKeyWithin maximum cache endPoint new) := by
  unfold addKeyWithin
  split
  next hfull => exact .evicted hfull
  next hroom => exact .added (Nat.lt_of_not_le hroom) hpem hfree

/-- The two ways recording goes: no key is held under the PEM, or the first that is gets
the wider span. -/
theorem recordWithin_eq (maximum : Nat) (cache : Cache) (endPoint : String) (new : HeldKey) :
    ((∀ key ∈ cache.keysOf endPoint, key.pem ≠ new.pem) ∧
      recordWithin maximum cache endPoint new =
        if (cache.keysOf endPoint).any fun other => overlaps other new.first new.last then cache
        else addKeyWithin maximum cache endPoint new) ∨
    ∃ before key after, cache.keys.lookup endPoint = some (before ++ key :: after) ∧
      key.pem = new.pem ∧
      recordWithin maximum cache endPoint new =
        match widen (before ++ after) key new.first new.last with
        | some wider =>
          ⟨cache.keys.insert endPoint (before ++ wider.restate new :: after), cache.heldKeys⟩
        | none => cache := by
  unfold recordWithin
  split
  next hnone =>
    have hnil : cache.keysOf endPoint = [] := by
      rw [Cache.keysOf, hnone, Option.getD_none]
    rw [hnil]
    exact Or.inl ⟨fun key hkey => absurd hkey List.not_mem_nil, rfl⟩
  next keys hsome =>
    have hkeysOf := Cache.keysOf_of_lookup hsome
    rw [List.span_eq_takeWhile_dropWhile]
    split
    next before key after hspan =>
      obtain ⟨hbefore, hafter⟩ := Prod.mk.inj hspan
      have hsplit : keys = before ++ key :: after := by
        rw [← hbefore, ← hafter, List.takeWhile_append_dropWhile]
      have hpem : key.pem = new.pem := by
        -- the key at which the search stopped is the first that has the PEM
        have hhead :=
          List.head?_dropWhile_not (fun key : HeldKey => decide (key.pem ≠ new.pem)) keys
        rw [hafter] at hhead
        simpa using hhead
      rw [hsplit] at hsome
      exact Or.inr ⟨before, key, after, hsome, hpem, rfl⟩
    next before hspan =>
      obtain ⟨-, hafter⟩ := Prod.mk.inj hspan
      rw [hkeysOf]
      refine Or.inl ⟨?_, rfl⟩
      intro key hkey
      exact of_decide_eq_true (List.dropWhile_eq_nil_iff.mp hafter key hkey)

/-- **The inversion of recording.** -/
theorem recordWithin_recorded (maximum : Nat) (cache : Cache) (endPoint : String)
    (new : HeldKey) :
    Recorded maximum cache endPoint new (recordWithin maximum cache endPoint new) := by
  rcases recordWithin_eq maximum cache endPoint new with
    ⟨hpems, hrecord⟩ | ⟨before, key, after, hkeys, hpem, hrecord⟩
  · rw [hrecord]
    split
    next => exact .kept
    next hfree =>
      refine addKeyWithin_recorded hpems ?_
      intro key hkey
      rw [Bool.not_eq_true, List.any_eq_false] at hfree
      exact Bool.eq_false_iff.mpr (hfree key hkey)
  · rw [hrecord]
    split
    next wider hwiden => exact .widened hkeys hpem hwiden
    next => exact .kept

/-- A key held after recording was held before, or is the key recorded, or is one that was
held under its PEM and has been widened. -/
theorem mem_keysOf_recorded {maximum : Nat} {cache cache' : Cache} {endPoint other : String}
    {new key : HeldKey} (hrec : Recorded maximum cache endPoint new cache')
    (hkey : key ∈ cache'.keysOf other) :
    key ∈ cache.keysOf other ∨ other = endPoint ∧ (key = new ∨
      ∃ old ∈ cache.keysOf other, old.pem = new.pem ∧
        ∃ others wider, widen others old new.first new.last = some wider ∧
          key = wider.restate new) := by
  cases hrec with
  | kept => exact Or.inl hkey
  | @widened before after old wider hkeys hpem hwiden =>
    rcases mem_keysOf_insert (m := cache.heldKeys) hkey with ⟨rfl, hmem⟩ | hmem
    · rw [Cache.keysOf_of_lookup hkeys]
      rcases mem_middle_iff.mp hmem with rfl | hothers
      · have hold : old ∈ before ++ old :: after := mem_middle_iff.mpr (Or.inl rfl)
        exact Or.inr ⟨rfl, Or.inr ⟨old, hold, hpem, _, wider, hwiden, rfl⟩⟩
      · exact Or.inl (mem_middle_iff.mpr (Or.inr hothers))
    · exact Or.inl hmem
  | added hroom hpems hfree =>
    rcases mem_keysOf_insert (m := cache.heldKeys) hkey with ⟨rfl, hmem⟩ | hmem
    · rcases List.mem_append.mp hmem with hold | hadded
      · exact Or.inl hold
      · exact Or.inr ⟨rfl, Or.inl (List.mem_singleton.mp hadded)⟩
    · exact Or.inl hmem
  | evicted hfull =>
    rcases mem_keysOf_insert (m := 0) hkey with ⟨rfl, hmem⟩ | hmem
    · exact Or.inr ⟨rfl, Or.inl (List.mem_singleton.mp hmem)⟩
    · -- nothing is held for the other end points any more
      have hnone : key ∈ Cache.empty.keysOf other := hmem
      rw [Cache.keysOf_empty] at hnone
      exact absurd hnone List.not_mem_nil

theorem record_recorded (cache : Cache) (endPoint : String) (new : HeldKey) :
    Recorded maximumCachedKeys cache endPoint new (record cache endPoint new) :=
  recordWithin_recorded maximumCachedKeys cache endPoint new

end Fetch

end OpenWebId
