import OpenWebId.Schedule
import OpenWebId.Lib.Sorting

/-!
# The order the keys of a schedule were supplied in

`PublicKeySchedule.new` sorts the keys it is given and `key_in_force` walks back over the sorted
keys and over those that share a start. What the two come to is said here of the list that was
supplied: the key in force is the one supplied first among those with the latest start that has
come (`keyInForce_new`).

The sort is stable, so of the keys that share a start it leaves the first supplied first
(`find?_new`). The choice therefore depends on the list only through its keys and the
order of those that share a start (`inForce_congr`).
-/

namespace OpenWebId

namespace PublicKeySchedule

/-- The test for a start. -/
def startsAtIs (start : DateTime) (key : DatedPublicKey) : Bool := decide (key.startsAt = start)

/-- The key is the one supplied first of those with its start. -/
def SuppliedFirst (keys : List DatedPublicKey) (key : DatedPublicKey) : Prop :=
  keys.find? (startsAtIs key.startsAt) = some key

/-! ## The sort -/

@[simp] theorem mem_new {keys : List DatedPublicKey} {key : DatedPublicKey} :
    key ∈ (new keys).keys ↔ key ∈ keys :=
  List.mem_mergeSort

/-- The first key with a start is the first that was supplied with it. -/
theorem find?_new (keys : List DatedPublicKey) (start : DateTime) :
    (new keys).keys.find? (startsAtIs start) = keys.find? (startsAtIs start) := by
  show (keys.mergeSort _).find? _ = _
  apply Lib.find?_mergeSort
  · intro a b c hab hbc
    exact decide_eq_true (Int.le_trans (of_decide_eq_true hab) (of_decide_eq_true hbc))
  · intro a b
    rw [Bool.or_eq_true]
    exact (Int.le_total a.startsAt.micros b.startsAt.micros).imp decide_eq_true decide_eq_true
  · intro a b ha hb
    have hsame : a.startsAt = b.startsAt :=
      (of_decide_eq_true ha).trans (of_decide_eq_true hb).symm
    rw [hsame]
    exact decide_eq_true (Int.le_refl _)

theorem inForce_iff {keys : List DatedPublicKey} {moment : DateTime} {key : DatedPublicKey} :
    InForce keys moment key ↔
      key.startsAt ≤ moment ∧ (∀ k ∈ keys, k.startsAt ≤ moment → k.startsAt ≤ key.startsAt) ∧
        SuppliedFirst keys key := by
  constructor
  · intro h
    exact ⟨h.started, h.latest, h.first⟩
  · intro h
    obtain ⟨hstarted, hlatest, hfirst⟩ := h
    exact ⟨hstarted, hlatest, hfirst⟩

/-- The key in force depends on the keys and, of those that share a start, on the first. -/
theorem inForce_congr {keys keys' : List DatedPublicKey}
    (hmem : ∀ key, key ∈ keys ↔ key ∈ keys')
    (hfirst : ∀ start, keys.find? (startsAtIs start) = keys'.find? (startsAtIs start))
    {moment : DateTime} {key : DatedPublicKey} :
    InForce keys moment key ↔ InForce keys' moment key := by
  rw [inForce_iff, inForce_iff, SuppliedFirst, SuppliedFirst, hfirst]
  simp only [hmem]

/-- The walk over the sorted keys finds the key in force among the keys as supplied. -/
theorem keyInForce_new {keys : List DatedPublicKey} {moment : DateTime} {key : DatedPublicKey} :
    (new keys).keyInForce moment = some key ↔ InForce keys moment key := by
  rw [keyInForce_eq_some]
  exact inForce_congr (fun _ => mem_new) (find?_new keys)

theorem keyInForce_new_none {keys : List DatedPublicKey} {moment : DateTime} :
    (new keys).keyInForce moment = none ↔ ∀ key ∈ keys, moment < key.startsAt := by
  rw [keyInForce_eq_none]
  simp only [mem_new]

end PublicKeySchedule

end OpenWebId
