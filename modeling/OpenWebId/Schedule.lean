import OpenWebId.Owid

/-!
# The published keys, in UTC: `public_key_schedule.py`

The schedule of keys whose starts are in UTC. The source keeps the zone a start was given in,
which `Zoned.PublicKeySchedule` has; where the starts compare as the moments they name the two
have the same key in force (`Zoned.PublicKeySchedule.StartsAgree.keyInForce_utc`).

`DatedPublicKey` and `PublicKeySchedule` carry what their constructors establish: a PEM
that is not blank, and keys with the oldest start first. `keyInForce` is the source's
walk back over the keys; `InForce` says what it looks for, the latest start at or
before the moment and, of the keys sharing that start, the one supplied first.

`keyInForce_eq_some` connects the two. From it come the facts the end point rests on:
a key in force at a moment is in force at every moment from its start to the next
start of the schedule (`keyInForce_period`), and at no other (`keyInForce_bounds`).
-/

namespace OpenWebId

/-- One public key and the moment it came into force. -/
structure DatedPublicKey where
  startsAt : DateTime
  publicKeyPem : String
  notBlank : Lib.strip publicKeyPem ≠ ""
  deriving DecidableEq

/-- The keys of a creator, oldest start first. -/
structure PublicKeySchedule where
  keys : List DatedPublicKey
  sorted : keys.Pairwise fun a b => a.startsAt ≤ b.startsAt

/-- `DatedPublicKey.__init__`. -/
def DatedPublicKey.new (startsAt : DateTime) (publicKeyPem : String) :
    Except PyExc DatedPublicKey :=
  if h : Lib.strip publicKeyPem = "" then .error (.owidError "public key PEM is empty")
  else .ok ⟨startsAt, publicKeyPem, h⟩

variable {σ κ : Type}

namespace PublicKeySchedule

/-- `PublicKeySchedule.__init__`: a stable sort by start. -/
def new (keys : List DatedPublicKey) : PublicKeySchedule where
  keys := keys.mergeSort fun a b => decide (a.startsAt ≤ b.startsAt)
  sorted := by
    refine (List.pairwise_mergeSort ?_ ?_ keys).imp fun h => of_decide_eq_true h
    · intro a b c hab hbc
      exact decide_eq_true (Int.le_trans (of_decide_eq_true hab) (of_decide_eq_true hbc))
    · intro a b
      rw [Bool.or_eq_true]
      exact (Int.le_total a.startsAt.micros b.startsAt.micros).imp decide_eq_true decide_eq_true

/-- The inner loop of `key_in_force`: back over the keys that share a start, to the
first supplied. -/
def firstSupplied (keys : List DatedPublicKey) : Nat → DatedPublicKey → DatedPublicKey
  | 0, key => key
  | index + 1, key =>
    match keys[index]? with
    | none => key
    | some earlier =>
      if earlier.startsAt = key.startsAt then firstSupplied keys index earlier else key

/-- The outer loop of `key_in_force`, over the first `n` keys from the last of them. -/
def scanBack (keys : List DatedPublicKey) (moment : DateTime) : Nat → Option DatedPublicKey
  | 0 => none
  | index + 1 =>
    match keys[index]? with
    | none => none
    | some key =>
      if key.startsAt ≤ moment then some (firstSupplied keys index key)
      else scanBack keys moment index

/-- `key_in_force`. -/
def keyInForce (s : PublicKeySchedule) (moment : DateTime) : Option DatedPublicKey :=
  scanBack s.keys moment s.keys.length

/-- `min` of the moments, where there is one. -/
def earliest : List DateTime → Option DateTime
  | [] => none
  | d :: ds =>
    match earliest ds with
    | none => some d
    | some e => if d ≤ e then some d else some e

/-- `next_start_after`. -/
def nextStartAfter (s : PublicKeySchedule) (key : DatedPublicKey) : Option DateTime :=
  earliest ((s.keys.filter fun other => decide (key.startsAt < other.startsAt)).map (·.startsAt))

/-- `signature_status`, under the key in force when the OWID was signed. -/
def signatureStatus (P : Provider σ κ) (s : PublicKeySchedule) (owid : Owid) :
    SignatureStatus :=
  match s.keyInForce owid.date with
  | none => .keyUnavailable
  | some key => owid.signatureStatus P key.publicKeyPem

/-! ## What the walk finds -/

/-- The key is the one in force at the moment: it has started, no later one has, and
it is the first supplied of those with its start. -/
structure InForce (keys : List DatedPublicKey) (moment : DateTime) (key : DatedPublicKey) :
    Prop where
  started : key.startsAt ≤ moment
  latest : ∀ k ∈ keys, k.startsAt ≤ moment → k.startsAt ≤ key.startsAt
  first : keys.find? (fun k => decide (k.startsAt = key.startsAt)) = some key

theorem InForce.mem {keys : List DatedPublicKey} {moment : DateTime} {key : DatedPublicKey}
    (h : InForce keys moment key) : key ∈ keys :=
  List.mem_of_find?_eq_some h.first

theorem InForce.unique {keys : List DatedPublicKey} {moment : DateTime} {k k' : DatedPublicKey}
    (h : InForce keys moment k) (h' : InForce keys moment k') : k = k' := by
  have hle : k.startsAt ≤ k'.startsAt := h'.latest k h.mem h.started
  have hge : k'.startsAt ≤ k.startsAt := h.latest k' h'.mem h'.started
  have hstart : k.startsAt = k'.startsAt := DateTime.ext (Int.le_antisymm hle hge)
  have hfirst := h.first
  rw [hstart, h'.first] at hfirst
  exact (Option.some.inj hfirst).symm

/-- The inner loop stops at the first key with the start it began from. -/
theorem firstSupplied_spec {keys : List DatedPublicKey}
    (hsorted : keys.Pairwise fun a b => a.startsAt ≤ b.startsAt) :
    ∀ (index : Nat) (key : DatedPublicKey), keys[index]? = some key →
      (firstSupplied keys index key).startsAt = key.startsAt ∧
      keys.find? (fun k => decide (k.startsAt = key.startsAt)) =
        some (firstSupplied keys index key)
  | 0, key, hkey => by
    cases keys with
    | nil => cases hkey
    | cons k keys =>
      cases hkey
      exact ⟨rfl, List.find?_cons_of_pos (decide_eq_true rfl)⟩
  | index + 1, key, hkey => by
    obtain ⟨hlt, hget⟩ := List.getElem?_eq_some_iff.mp hkey
    have hearlier : keys[index]? = some keys[index] :=
      List.getElem?_eq_getElem (Nat.lt_of_succ_lt hlt)
    simp only [firstSupplied, hearlier]
    by_cases hsame : keys[index].startsAt = key.startsAt
    · rw [if_pos hsame]
      have ih := firstSupplied_spec hsorted index keys[index] hearlier
      rw [hsame] at ih
      exact ih
    · -- every key before this one starts strictly earlier
      rw [if_neg hsame]
      refine ⟨rfl, ?_⟩
      rw [List.find?_eq_some_iff_getElem]
      refine ⟨decide_eq_true rfl, index + 1, hlt, hget, ?_⟩
      intro j hj
      have hstep : keys[index].startsAt ≤ key.startsAt := by
        rw [← hget]
        exact List.pairwise_iff_getElem.mp hsorted index (index + 1) _ _ (Nat.lt_succ_self _)
      have hbefore : keys[j].startsAt ≤ keys[index].startsAt := by
        rcases Nat.lt_or_eq_of_le (Nat.le_of_lt_succ hj) with hji | hji
        · exact List.pairwise_iff_getElem.mp hsorted j index _ _ hji
        · subst hji
          exact Int.le_refl _
      rw [Bool.not_eq_true', decide_eq_false_iff_not]
      intro heq
      rw [heq] at hbefore
      exact hsame (DateTime.ext (Int.le_antisymm hstep hbefore))

/-- The outer loop, where none of the keys past the first `n` has started. -/
theorem scanBack_spec {keys : List DatedPublicKey} {moment : DateTime}
    (hsorted : keys.Pairwise fun a b => a.startsAt ≤ b.startsAt) :
    ∀ n, n ≤ keys.length → (∀ k ∈ keys.drop n, moment < k.startsAt) →
      (∀ key, scanBack keys moment n = some key → InForce keys moment key) ∧
      (scanBack keys moment n = none → ∀ k ∈ keys, moment < k.startsAt)
  | 0, _, hpast => by
    refine ⟨?_, ?_⟩
    · intro key h
      cases h
    · intro _ k hk
      exact hpast k hk
  | index + 1, hle, hpast => by
    have hkey : keys[index]? = some keys[index] := List.getElem?_eq_getElem hle
    simp only [scanBack, hkey]
    by_cases hstarted : keys[index].startsAt ≤ moment
    · rw [if_pos hstarted]
      refine ⟨?_, ?_⟩
      · intro key h
        obtain ⟨hstart, hfirst⟩ := firstSupplied_spec hsorted index keys[index] hkey
        rw [Option.some.inj h] at hstart hfirst
        refine ⟨?_, ?_, ?_⟩
        · rw [hstart]
          exact hstarted
        · -- a key that has started is among the first `index + 1`, so it is not later
          intro k hk hkstarted
          rw [hstart]
          obtain ⟨j, hj, rfl⟩ := List.getElem_of_mem hk
          rcases Nat.lt_or_ge index j with hij | hij
          · have hdrop : keys[j] ∈ keys.drop (index + 1) := by
              rw [List.mem_drop_iff_getElem]
              exact ⟨j - (index + 1), by omega, by congr 1; omega⟩
            have := hpast _ hdrop
            exact absurd hkstarted (Int.not_le.mpr this)
          · rcases Nat.lt_or_eq_of_le hij with hji | hji
            · exact List.pairwise_iff_getElem.mp hsorted j index _ _ hji
            · subst hji
              exact Int.le_refl _
        · rw [hstart]
          exact hfirst
      · intro h
        cases h
    · rw [if_neg hstarted]
      refine scanBack_spec hsorted index (Nat.le_of_lt hle) ?_
      intro k hk
      rw [List.drop_eq_getElem_cons hle] at hk
      rcases List.mem_cons.mp hk with hhead | htail
      · subst hhead
        exact Int.not_le.mp hstarted
      · exact hpast k htail

/-- What the walk finds, over the whole schedule. -/
theorem keyInForce_spec (s : PublicKeySchedule) (moment : DateTime) :
    (∀ key, s.keyInForce moment = some key → InForce s.keys moment key) ∧
      (s.keyInForce moment = none → ∀ k ∈ s.keys, moment < k.startsAt) :=
  scanBack_spec s.sorted s.keys.length (Nat.le_refl _) (by simp)

/-- **The walk finds the key in force.** -/
theorem keyInForce_eq_some {s : PublicKeySchedule} {moment : DateTime} {key : DatedPublicKey} :
    s.keyInForce moment = some key ↔ InForce s.keys moment key := by
  have hspec := keyInForce_spec s moment
  refine ⟨hspec.1 key, ?_⟩
  intro h
  cases hscan : s.keyInForce moment with
  | some k => rw [(hspec.1 k hscan).unique h]
  | none => exact absurd h.started (Int.not_le.mpr (hspec.2 hscan key h.mem))

theorem keyInForce_eq_none {s : PublicKeySchedule} {moment : DateTime} :
    s.keyInForce moment = none ↔ ∀ k ∈ s.keys, moment < k.startsAt := by
  have hspec := keyInForce_spec s moment
  refine ⟨hspec.2, ?_⟩
  intro h
  cases hscan : s.keyInForce moment with
  | none => rfl
  | some k =>
    have hforce := hspec.1 k hscan
    exact absurd hforce.started (Int.not_le.mpr (h k hforce.mem))

theorem earliest_eq_none {ds : List DateTime} (h : earliest ds = none) : ds = [] := by
  cases ds with
  | nil => rfl
  | cons d ds =>
    simp only [earliest] at h
    split at h
    · cases h
    · split at h <;> cases h

theorem earliest_eq_some {ds : List DateTime} {d : DateTime} (h : earliest ds = some d) :
    d ∈ ds ∧ ∀ e ∈ ds, d ≤ e := by
  induction ds generalizing d with
  | nil => cases h
  | cons c ds ih =>
    simp only [earliest] at h
    split at h
    next hnone =>
      cases h
      rw [earliest_eq_none hnone]
      refine ⟨List.mem_singleton_self _, ?_⟩
      intro e he
      rw [List.mem_singleton.mp he]
      exact Int.le_refl _
    next e hsome =>
      obtain ⟨hmem, hmin⟩ := ih hsome
      split at h
      -- the head is no later than the earliest of the rest, or it is later
      next hle =>
        cases h
        refine ⟨List.mem_cons_self .., ?_⟩
        intro b hb
        rcases List.mem_cons.mp hb with hhead | htail
        · subst hhead
          exact Int.le_refl _
        · exact Int.le_trans hle (hmin b htail)
      next hgt =>
        cases h
        refine ⟨List.mem_cons_of_mem _ hmem, ?_⟩
        intro b hb
        rcases List.mem_cons.mp hb with hhead | htail
        · subst hhead
          exact Int.le_of_lt (Int.not_le.mp hgt)
        · exact hmin b htail

/-- The next start is a start of the schedule, after the key's and before any other
that is. -/
theorem nextStartAfter_eq_some {s : PublicKeySchedule} {key : DatedPublicKey} {next : DateTime}
    (h : s.nextStartAfter key = some next) :
    key.startsAt < next ∧ (∃ k ∈ s.keys, k.startsAt = next) ∧
      ∀ k ∈ s.keys, key.startsAt < k.startsAt → next ≤ k.startsAt := by
  obtain ⟨hmem, hmin⟩ := earliest_eq_some h
  obtain ⟨k, hk, hstart⟩ := List.mem_map.mp hmem
  obtain ⟨hkey, hafter⟩ := List.mem_filter.mp hk
  refine ⟨hstart ▸ of_decide_eq_true hafter, ⟨k, hkey, hstart⟩, ?_⟩
  intro k' hk' hafter'
  exact hmin _ (List.mem_map.mpr ⟨k', List.mem_filter.mpr ⟨hk', decide_eq_true hafter'⟩, rfl⟩)

theorem nextStartAfter_eq_none {s : PublicKeySchedule} {key : DatedPublicKey}
    (h : s.nextStartAfter key = none) : ∀ k ∈ s.keys, k.startsAt ≤ key.startsAt := by
  intro k hk
  refine Int.not_lt.mp fun hafter => ?_
  have hnil := List.map_eq_nil_iff.mp (earliest_eq_none h)
  have hmem : k ∈ s.keys.filter fun other => decide (key.startsAt < other.startsAt) :=
    List.mem_filter.mpr ⟨hk, decide_eq_true hafter⟩
  rw [hnil] at hmem
  cases hmem

/-- A key in force at a moment has started and the next key has not. -/
theorem keyInForce_bounds {s : PublicKeySchedule} {moment : DateTime} {key : DatedPublicKey}
    (h : s.keyInForce moment = some key) :
    key.startsAt ≤ moment ∧ ∀ next, s.nextStartAfter key = some next → moment < next := by
  have hforce := keyInForce_eq_some.mp h
  refine ⟨hforce.started, ?_⟩
  intro next hnext
  obtain ⟨hafter, ⟨k, hk, hstart⟩, -⟩ := nextStartAfter_eq_some hnext
  refine Int.not_le.mp fun hle => ?_
  have hlate := hforce.latest k hk (hstart ▸ hle)
  rw [hstart] at hlate
  exact absurd hafter (Int.not_lt.mpr hlate)

/-- **A key in force at one moment is in force for its whole period.** -/
theorem keyInForce_period {s : PublicKeySchedule} {moment moment' : DateTime}
    {key : DatedPublicKey} (h : s.keyInForce moment = some key) (hstart : key.startsAt ≤ moment')
    (hnext : ∀ next, s.nextStartAfter key = some next → moment' < next) :
    s.keyInForce moment' = some key := by
  have hforce := keyInForce_eq_some.mp h
  refine keyInForce_eq_some.mpr ⟨hstart, ?_, hforce.first⟩
  intro k hk hle
  refine Int.not_lt.mp fun hafter => ?_
  cases hn : s.nextStartAfter key with
  | none => exact absurd hafter (Int.not_lt.mpr (nextStartAfter_eq_none hn k hk))
  | some next =>
    have hmin := (nextStartAfter_eq_some hn).2.2 k hk hafter
    exact absurd (hnext next hn) (Int.not_lt.mpr (Int.le_trans hmin hle))

end PublicKeySchedule

end OpenWebId
