import Mathlib

/-!
# What a stable sort keeps

A stable sort moves elements past each other only where the order asks for it, so the
elements of a class whose members all rank alike come out in the order they went in.
`filter_mergeSort` says it of a whole class and `find?_mergeSort` of the first of one.

A sort that is given a "less than" it has no reason to trust is a `StableSort`: where the
elements of the list are ordered by it (`Orders`) there is one stable result, and where they
are not, all that is known is that the elements are still the same.
-/

namespace OpenWebId.Lib

section Stable

variable {α : Type} {le : α → α → Bool}

/-- The members of a class that ranks alike keep their order. -/
theorem filter_mergeSort (htrans : ∀ a b c, le a b → le b c → le a c)
    (htotal : ∀ a b, le a b || le b a) {p : α → Bool}
    (halike : ∀ a b, p a → p b → le a b) (l : List α) :
    (l.mergeSort le).filter p = l.filter p := by
  have hranked : (l.filter p).Pairwise fun a b => le a b = true := by
    rw [List.pairwise_filter]
    exact List.pairwise_of_forall fun {a b} ha hb => halike a b ha hb
  have hsub : (l.filter p).Sublist (l.mergeSort le) :=
    List.sublist_mergeSort htrans htotal hranked List.filter_sublist
  have hkept : ((l.filter p).filter p).Sublist ((l.mergeSort le).filter p) := hsub.filter p
  simp only [List.filter_filter, Bool.and_self] at hkept
  have hlength : (l.filter p).length = ((l.mergeSort le).filter p).length :=
    ((List.mergeSort_perm l le).filter p).length_eq.symm
  exact (hkept.eq_of_length hlength).symm

/-- The first of a class that ranks alike is the first that was supplied. -/
theorem find?_mergeSort (htrans : ∀ a b c, le a b → le b c → le a c)
    (htotal : ∀ a b, le a b || le b a) {p : α → Bool}
    (halike : ∀ a b, p a → p b → le a b) (l : List α) :
    (l.mergeSort le).find? p = l.find? p := by
  rw [← List.head?_filter, ← List.head?_filter, filter_mergeSort htrans htotal halike]

end Stable

section Untrusted

variable {α : Type}

/-- `lt` orders the elements of the list: it is a strict weak order on them. -/
structure Orders (lt : α → α → Bool) (l : List α) : Prop where
  asymm : ∀ a ∈ l, ∀ b ∈ l, lt a b = true → lt b a = false
  negTrans : ∀ a ∈ l, ∀ b ∈ l, ∀ c ∈ l, lt a b = false → lt b c = false → lt a c = false

/-- A stable sort by a "less than" and nothing else. -/
structure StableSort (α : Type) where
  sort : (α → α → Bool) → List α → List α
  perm : ∀ lt l, (sort lt l).Perm l
  /-- A list that is ordered has one stable ascending permutation. -/
  stable : ∀ lt l, Orders lt l → sort lt l = l.mergeSort fun a b => !lt b a

/-- The sort that does not look whether the list is ordered. -/
def StableSort.merge (α : Type) : StableSort α where
  sort lt l := l.mergeSort fun a b => !lt b a
  perm _ l := List.mergeSort_perm l _
  stable _ _ _ := rfl

open Classical in
/-- A sort that makes another list of one that is not ordered. -/
noncomputable def StableSort.placing {lt : α → α → Bool} {l placed : List α}
    (hperm : placed.Perm l) (hnot : ¬ Orders lt l) : StableSort α where
  sort lt' l' := if lt' = lt ∧ l' = l then placed else l'.mergeSort fun a b => !lt' b a
  perm lt' l' := by
    split
    next h => exact h.2 ▸ hperm
    next => exact List.mergeSort_perm l' _
  stable lt' l' horders := by
    refine if_neg ?_
    rintro ⟨rfl, rfl⟩
    exact hnot horders

@[simp] theorem StableSort.placing_sort {lt : α → α → Bool} {l placed : List α}
    (hperm : placed.Perm l) (hnot : ¬ Orders lt l) : (placing hperm hnot).sort lt l = placed :=
  if_pos ⟨rfl, rfl⟩

theorem StableSort.mem (S : StableSort α) {lt : α → α → Bool} {l : List α} {a : α} :
    a ∈ S.sort lt l ↔ a ∈ l :=
  (S.perm lt l).mem_iff

/-- An ordered list is sorted: nothing comes after what it is less than. -/
theorem StableSort.pairwise (S : StableSort α) {lt : α → α → Bool} {l : List α}
    (h : Orders lt l) : (S.sort lt l).Pairwise fun a b => lt b a = false := by
  rw [S.stable lt l h]
  -- `lt` is an order on the elements of the list alone, so they are sorted as such
  have hmap : (l.attach.mergeSort fun a b => !lt b.1 a.1).map Subtype.val =
      l.mergeSort fun a b => !lt b a := by
    rw [List.map_mergeSort (s := fun a b => !lt b a) (fun _ _ _ _ => rfl),
      List.attach_map_subtype_val]
  have hsorted : (l.attach.mergeSort fun a b => !lt b.1 a.1).Pairwise
      fun a b => (!lt b.1 a.1) = true := List.pairwise_mergeSort
    (fun a b c hab hbc => by
      rw [Bool.not_eq_true'] at hab hbc ⊢
      exact h.negTrans _ c.2 _ b.2 _ a.2 hbc hab)
    (fun a b => by
      cases hlt : lt b.1 a.1 with
      | false => rfl
      | true => rw [h.asymm _ b.2 _ a.2 hlt]; rfl) l.attach
  rw [← hmap, List.pairwise_map]
  exact hsorted.imp fun hab => by simpa using hab

end Untrusted

end OpenWebId.Lib
