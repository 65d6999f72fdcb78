import OpenWebId.CacheShape

/-!
# What one answer does to the keys held

`Cache.joined` is the span an answer would leave under its PEM, and `Cache.Free` that no key
of another PEM has a minute of it. The two decide what recording does to a cache that has
its shape: nothing where a key is in the way (`WellFormed.recordWithin_of_not_free`), and
otherwise one key has the whole of that span (`WellFormed.recordWithin_of_free`).
-/

namespace OpenWebId

open Lib (Reaches)

namespace Fetch

/-! ## The span an answer would leave -/

/-- The key held under a PEM. -/
def Cache.heldUnder (cache : Cache) (endPoint pem : String) : Option HeldKey :=
  (cache.keysOf endPoint).find? fun key => decide (key.pem = pem)

/-- The span that taking in a key would leave under its PEM. -/
def Cache.joined (cache : Cache) (endPoint : String) (new : HeldKey) : Int × Int :=
  match cache.heldUnder endPoint new.pem with
  | none => (new.first, new.last)
  | some key => (min new.first key.first, max new.last key.last)

/-- No key of another PEM has a minute of that span. -/
def Cache.Free (cache : Cache) (endPoint : String) (new : HeldKey) : Prop :=
  ∀ other ∈ cache.keysOf endPoint, other.pem ≠ new.pem →
    overlaps other (cache.joined endPoint new).1 (cache.joined endPoint new).2 = false

/-- Whether the creator is taken to have stated the span of a held key. -/
def HeldKey.claims (key : HeldKey) : Bool := key.explicit || key.openEnded

theorem HeldKey.restate_claims (key new : HeldKey) :
    (key.restate new).claims = (key.claims || new.claims) := by
  unfold HeldKey.claims HeldKey.restate
  cases key.explicit <;> cases key.openEnded <;> cases new.explicit <;> cases new.openEnded <;> rfl

theorem widen_claims {others : List HeldKey} {key wider : HeldKey} {first last : Int}
    (h : widen others key first last = some wider) : wider.claims = key.claims := by
  obtain ⟨-, -, -, hexplicit, hopen, -⟩ := widen_some h
  rw [HeldKey.claims, HeldKey.claims, hexplicit, hopen]

section Growth

variable {maximum : Nat} {cache : Cache} {endPoint : String} {new : HeldKey}

theorem heldUnder_eq_none {pem : String} :
    cache.heldUnder endPoint pem = none ↔ ∀ key ∈ cache.keysOf endPoint, key.pem ≠ pem := by
  unfold Cache.heldUnder
  rw [List.find?_eq_none]
  exact forall₂_congr fun key _ => decide_eq_true_iff.not

/-- Some key of another PEM is in the way. -/
theorem not_free_iff : ¬ cache.Free endPoint new ↔
    ∃ other ∈ cache.keysOf endPoint, other.pem ≠ new.pem ∧
      overlaps other (cache.joined endPoint new).1 (cache.joined endPoint new).2 = true := by
  unfold Cache.Free
  push Not
  simp only [Bool.not_eq_false]

theorem heldUnder_mem {pem : String} {key : HeldKey}
    (h : cache.heldUnder endPoint pem = some key) :
    key ∈ cache.keysOf endPoint ∧ key.pem = pem := by
  have hpem := List.find?_some h
  exact ⟨List.mem_of_find?_eq_some h, of_decide_eq_true hpem⟩

theorem joined_of_heldUnder {key : HeldKey} (h : cache.heldUnder endPoint new.pem = some key) :
    cache.joined endPoint new = (min new.first key.first, max new.last key.last) := by
  rw [Cache.joined, h]

/-- The span that would be left takes in the one confirmed. -/
theorem le_joined (cache : Cache) (endPoint : String) (new : HeldKey) :
    (cache.joined endPoint new).1 ≤ new.first ∧ new.last ≤ (cache.joined endPoint new).2 := by
  unfold Cache.joined
  split
  · exact ⟨Int.le_refl _, Int.le_refl _⟩
  · exact ⟨Int.min_le_left .., Int.le_max_left ..⟩

/-- The keys of the end point other than the one under the PEM have other PEMs. -/
theorem WellFormed.pem_ne (h : WellFormed maximum cache) {before after : List HeldKey}
    {key : HeldKey} (hkeys : cache.keysOf endPoint = before ++ key :: after) :
    ∀ other ∈ before ++ after, other.pem ≠ key.pem := by
  have hpems := h.pems endPoint
  rw [hkeys, List.pairwise_middle Ne.symm, List.pairwise_cons] at hpems
  intro other hother
  exact (hpems.1 other hother).symm

/-- The first key under a PEM is the only one. -/
theorem WellFormed.heldUnder_split (h : WellFormed maximum cache) {before after : List HeldKey}
    {key : HeldKey} {pem : String} (hkeys : cache.keysOf endPoint = before ++ key :: after)
    (hpem : key.pem = pem) : cache.heldUnder endPoint pem = some key := by
  subst hpem
  have hothers := h.pem_ne hkeys
  have hnone : before.find? (fun other => decide (other.pem = key.pem)) = none := by
    rw [List.find?_eq_none]
    intro other hother
    exact decide_eq_true_iff.not.mpr (hothers other (List.mem_append_left _ hother))
  unfold Cache.heldUnder
  rw [hkeys, List.find?_append, hnone, Option.none_or, List.find?_cons, decide_eq_true rfl]

theorem WellFormed.heldUnder_of_mem (h : WellFormed maximum cache) {key : HeldKey}
    (hkey : key ∈ cache.keysOf endPoint) : cache.heldUnder endPoint key.pem = some key := by
  obtain ⟨before, after, hkeys⟩ := List.append_of_mem hkey
  exact h.heldUnder_split hkeys rfl

theorem widen_isSome_iff {others : List HeldKey} {key : HeldKey} {first last : Int} :
    (widen others key first last).isSome = true ↔
      ∀ other ∈ others, overlaps other (min first key.first) (max last key.last) = false := by
  unfold widen
  simp only
  split
  next hany =>
    obtain ⟨other, hother, hmeets⟩ := List.any_eq_true.mp hany
    refine iff_of_false Bool.false_ne_true fun hfree => ?_
    rw [hfree other hother] at hmeets
    cases hmeets
  next hnone =>
    rw [Bool.not_eq_true, List.any_eq_false] at hnone
    exact iff_of_true rfl fun other hother => Bool.eq_false_iff.mpr (hnone other hother)

/-- The key under the PEM can be widened where no key is in the way. -/
theorem WellFormed.widen_isSome_iff (h : WellFormed maximum cache) {before after : List HeldKey}
    {key : HeldKey} (hkeys : cache.keysOf endPoint = before ++ key :: after)
    (hpem : key.pem = new.pem) :
    (widen (before ++ after) key new.first new.last).isSome = true ↔ cache.Free endPoint new := by
  have hothers := h.pem_ne hkeys
  unfold Cache.Free Cache.joined
  rw [Fetch.widen_isSome_iff, h.heldUnder_split hkeys hpem, hkeys]
  constructor
  · intro hfree other hother hne
    rcases mem_middle_iff.mp hother with rfl | hmem
    · exact absurd hpem hne
    · exact hfree other hmem
  · intro hfree other hother
    have hne : other.pem ≠ new.pem := hpem ▸ hothers other hother
    exact hfree other (mem_middle_iff.mpr (Or.inr hother)) hne

/-- Where another key is in the way, nothing is recorded. -/
theorem WellFormed.recordWithin_of_not_free (h : WellFormed maximum cache)
    (hfree : ¬ cache.Free endPoint new) : recordWithin maximum cache endPoint new = cache := by
  rcases recordWithin_eq maximum cache endPoint new with
    ⟨hpems, hrecord⟩ | ⟨before, key, after, hkeys, hpem, hrecord⟩
  · rw [hrecord]
    refine if_pos ?_
    by_contra hnone
    rw [Bool.not_eq_true, List.any_eq_false] at hnone
    refine hfree fun other hother _ => ?_
    rw [Cache.joined, heldUnder_eq_none.mpr hpems]
    exact Bool.eq_false_iff.mpr (hnone other hother)
  · have hkeysOf := Cache.keysOf_of_lookup hkeys
    rw [hrecord]
    split
    next wider hwiden =>
      have hsome := (h.widen_isSome_iff hkeysOf hpem).mp (by rw [hwiden]; rfl)
      exact absurd hsome hfree
    next => rfl

/-- Where none is, the key recorded is added, or the key under its PEM is widened to take it
in. -/
theorem WellFormed.recorded_of_free (h : WellFormed maximum cache)
    (hfree : cache.Free endPoint new) :
    ∃ key ∈ (recordWithin maximum cache endPoint new).keysOf endPoint,
      (cache.heldUnder endPoint new.pem = none ∧ key = new) ∨
      ∃ old others wider, cache.heldUnder endPoint new.pem = some old ∧
        widen others old new.first new.last = some wider ∧ key = wider.restate new := by
  rcases recordWithin_eq maximum cache endPoint new with
    ⟨hpems, hrecord⟩ | ⟨before, key, after, hkeys, hpem, hrecord⟩
  -- no key under the PEM: the span to record is the whole of it, and is added
  · have hunder := heldUnder_eq_none.mpr hpems
    have hnone : ¬ ((cache.keysOf endPoint).any fun other =>
        overlaps other new.first new.last) = true := by
      rw [Bool.not_eq_true, List.any_eq_false]
      intro other hother
      have hmeets := hfree other hother (hpems other hother)
      rw [Cache.joined, hunder] at hmeets
      exact Bool.eq_false_iff.mp hmeets
    refine ⟨new, ?_, Or.inl ⟨hunder, rfl⟩⟩
    rw [hrecord, if_neg hnone]
    unfold addKeyWithin
    split
    · rw [Cache.keysOf_insert]
      exact List.mem_singleton_self new
    · rw [Cache.keysOf_insert]
      exact List.mem_append_right _ (List.mem_singleton_self new)
  -- a key under the PEM: it is widened, since nothing is in the way
  · have hkeysOf := Cache.keysOf_of_lookup hkeys
    obtain ⟨wider, hwiden⟩ :=
      Option.isSome_iff_exists.mp ((h.widen_isSome_iff hkeysOf hpem).mpr hfree)
    refine ⟨wider.restate new, ?_,
      Or.inr ⟨key, _, wider, h.heldUnder_split hkeysOf hpem, hwiden, rfl⟩⟩
    rw [hrecord, hwiden]
    rw [Cache.keysOf_insert]
    exact List.mem_append_right _ (List.mem_cons_self ..)

/-- The key then has the whole span, and claims it where it did or the answer does. -/
theorem WellFormed.recordWithin_of_free (h : WellFormed maximum cache)
    (hfree : cache.Free endPoint new) :
    ∃ key ∈ (recordWithin maximum cache endPoint new).keysOf endPoint,
      key.pem = new.pem ∧ (key.first, key.last) = cache.joined endPoint new ∧
      key.claims = ((cache.heldUnder endPoint new.pem).any HeldKey.claims || new.claims) := by
  obtain ⟨key, hkey, hadded | ⟨old, others, wider, hunder, hwiden, rfl⟩⟩ :=
    h.recorded_of_free hfree
  · obtain ⟨hunder, rfl⟩ := hadded
    refine ⟨key, hkey, rfl, ?_, ?_⟩
    · rw [Cache.joined, hunder]
    · rw [hunder]
      rfl
  · obtain ⟨hwpem, hwfirst, hwlast, -⟩ := widen_some hwiden
    refine ⟨wider.restate new, hkey, hwpem.trans (heldUnder_mem hunder).2, ?_, ?_⟩
    · rw [Cache.joined, hunder]
      exact Prod.ext hwfirst hwlast
    · rw [HeldKey.restate_claims, hunder]
      show (wider.claims || new.claims) = (old.claims || new.claims)
      rw [widen_claims hwiden]

end Growth

end Fetch

end OpenWebId
