import Mathlib

/-!
# Lists of spans that are kept apart

A store that keeps, in a list, records each of which covers a span of some order, and
never two that cover one point. `Apart` is that, for any reading of a record as the set
it covers. It survives the two things such a store does, adding a record (`Apart.concat`)
and putting another in the place of one (`Apart.replace`), where the new span meets none
of the others; and where it holds the record that covers a point is the only one, which
is what makes the first that a search finds the answer (`Apart.find?_eq`).

The second part counts the records of a store with a list for each name: what putting a
list under a name adds to the number over all names.
-/

namespace OpenWebId.Lib

universe u v w

variable {α : Type u} {ι : Type v}

/-- Two closed spans that are not empty have no point in common exactly when one ends
before the other begins. -/
theorem disjoint_Icc_iff [LinearOrder ι] {a b c d : ι} (hab : a ≤ b) (hcd : c ≤ d) :
    Disjoint (Set.Icc a b) (Set.Icc c d) ↔ b < c ∨ d < a := by
  rw [Set.disjoint_left]
  constructor
  · intro h
    by_contra hmeet
    rw [not_or, not_lt, not_lt] at hmeet
    -- the later of the two starts lies in both
    have hfirst : max a c ∈ Set.Icc a b := ⟨le_max_left .., max_le hab hmeet.1⟩
    have hsecond : max a c ∈ Set.Icc c d := ⟨le_max_right .., max_le hmeet.2 hcd⟩
    exact h hfirst hsecond
  · intro h m hm hm'
    rcases h with h | h
    · exact absurd (hm'.1.trans hm.2) (not_le.mpr h)
    · exact absurd (hm.1.trans hm'.2) (not_le.mpr h)

/-- A point from the earlier of two starts to the later of two ends lies in one of the two
spans or strictly between them. -/
theorem mem_Icc_join [LinearOrder ι] {a b c d m : ι} (hm : m ∈ Set.Icc (min a c) (max b d)) :
    m ∈ Set.Icc a b ∨ m ∈ Set.Icc c d ∨ m ∈ Set.Ioo b c ∨ m ∈ Set.Ioo d a := by
  obtain ⟨hlow, hhigh⟩ := hm
  rw [min_le_iff] at hlow
  rw [le_max_iff] at hhigh
  by_cases ha : a ≤ m
  · by_cases hb : m ≤ b
    · exact Or.inl ⟨ha, hb⟩
    · have hd : m ≤ d := hhigh.resolve_left hb
      by_cases hc : c ≤ m
      · exact Or.inr (Or.inl ⟨hc, hd⟩)
      · exact Or.inr (Or.inr (Or.inl ⟨not_le.mp hb, not_le.mp hc⟩))
  · have hc : c ≤ m := hlow.resolve_left ha
    by_cases hd : m ≤ d
    · exact Or.inr (Or.inl ⟨hc, hd⟩)
    · exact Or.inr (Or.inr (Or.inr ⟨not_le.mp hd, not_le.mp ha⟩))

variable {span : α → Set ι}

/-- No two of the records cover one point. -/
def Apart (span : α → Set ι) (l : List α) : Prop :=
  l.Pairwise fun a b => Disjoint (span a) (span b)

theorem Apart.replace {before after : List α} {a b : α} (h : Apart span (before ++ a :: after))
    (hfree : ∀ c ∈ before ++ after, Disjoint (span b) (span c)) :
    Apart span (before ++ b :: after) := by
  have hsymm : ∀ {x y : α}, Disjoint (span x) (span y) → Disjoint (span y) (span x) :=
    fun h => h.symm
  rw [Apart, List.pairwise_middle hsymm, List.pairwise_cons] at h ⊢
  exact ⟨hfree, h.2⟩

theorem Apart.concat {l : List α} {b : α} (h : Apart span l)
    (hfree : ∀ c ∈ l, Disjoint (span c) (span b)) : Apart span (l ++ [b]) := by
  refine List.pairwise_append.mpr ⟨h, List.pairwise_singleton .., ?_⟩
  intro c hc d hd
  rw [List.mem_singleton.mp hd]
  exact hfree c hc

/-- The record that covers a point is the only one. -/
theorem Apart.unique {l : List α} {a b : α} {m : ι} (h : Apart span l) (ha : a ∈ l) (hb : b ∈ l)
    (hma : m ∈ span a) (hmb : m ∈ span b) : a = b := by
  by_contra hne
  have hsymm : Std.Symm fun x y : α => Disjoint (span x) (span y) := ⟨fun _ _ h => h.symm⟩
  exact Set.disjoint_left.mp (List.Pairwise.forall h ha hb hne) hma hmb

/-- A search that asks for the point, and perhaps for more, finds the record that covers
the point where that record passes. -/
theorem Apart.find?_eq {l : List α} {a : α} {m : ι} {p : α → Bool} (h : Apart span l)
    (ha : a ∈ l) (hm : m ∈ span a) (hp : p a = true) (hspan : ∀ b, p b = true → m ∈ span b) :
    l.find? p = some a := by
  cases hfound : l.find? p with
  | none => exact absurd hp (List.find?_eq_none.mp hfound a ha)
  | some b =>
    have hb := List.mem_of_find?_eq_some hfound
    rw [h.unique ha hb hm (hspan b (List.find?_some hfound))]

/-! ## Counting the records of every name -/

/-- The number of records over all names. -/
def tally {κ : Type w} (entries : List (Sigma fun _ : κ => List α)) : Nat :=
  (entries.map fun held => held.2.length).sum

/-- What a name holds and what is held without it make up the number. -/
theorem tally_kerase {κ : Type w} [DecidableEq κ] (name : κ)
    (entries : List (Sigma fun _ : κ => List α)) :
    tally entries =
      ((entries.dlookup name).getD []).length + tally (entries.kerase name) := by
  induction entries with
  | nil => rfl
  | cons held entries ih =>
    obtain ⟨other, records⟩ := held
    by_cases hname : name = other
    · subst hname
      have herase : List.kerase name (⟨name, records⟩ :: entries) = entries :=
        List.kerase_cons_eq rfl
      rw [List.dlookup_cons_eq, herase]
      rfl
    · have hlookup : List.dlookup name (⟨other, records⟩ :: entries) = entries.dlookup name :=
        List.dlookup_cons_ne _ _ hname
      have herase : List.kerase name (⟨other, records⟩ :: entries) =
          ⟨other, records⟩ :: entries.kerase name := List.kerase_cons_ne hname
      rw [hlookup, herase]
      show records.length + tally entries = _ + (records.length + tally (entries.kerase name))
      rw [ih]
      omega

/-- A list put under a name counts in the place of what was there. -/
theorem tally_insert {κ : Type w} [DecidableEq κ] (held : AList fun _ : κ => List α) (name : κ)
    (records : List α) :
    tally (held.insert name records).entries + ((held.lookup name).getD []).length =
      tally held.entries + records.length := by
  rw [AList.entries_insert, tally_kerase name held.entries]
  show records.length + tally (held.entries.kerase name) + _ = _
  have hlookup : held.lookup name = held.entries.dlookup name := rfl
  rw [hlookup]
  omega

end OpenWebId.Lib
