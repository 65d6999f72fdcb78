import OpenWebId.Tiling

/-!
# Publishing further keys

A creator publishes its keys in batches, each ahead of the weeks it covers, and builds its
schedule from all of them. What it finds there is found batch by batch: the key in force in a
schedule of two lists is the one that starts later of the two in force in each, the first
where they start together (`keyInForce_new_append`), so publishing changes the key of no
identifier unless a further key had started by its date and later than every key it could
have been signed with (`publishing_spec`).

`last` takes the last key of the sorted list, which is the last supplied of the latest start
where `key_in_force` takes the first, and it takes it whether or not that start has come.
-/

namespace OpenWebId

variable {σ κ : Type}

namespace PublicKeySchedule

/-- `PublicKeySchedule.last`. -/
def last (s : PublicKeySchedule) : Option DatedPublicKey := s.keys.getLast?

/-- `PublicKeySchedule.current`, at a reading of the clock. -/
def current (s : PublicKeySchedule) (now : DateTime) : Option DatedPublicKey := s.keyInForce now

/-- `PublicKeySchedule.key_for`. -/
def keyFor (s : PublicKeySchedule) (owid : Owid) : Option DatedPublicKey := s.keyInForce owid.date

/-- `PublicKeySchedule.verify`. -/
def verify (P : Provider σ κ) (s : PublicKeySchedule) (owid : Owid) : Bool :=
  decide (s.signatureStatus P owid = .signatureValid)

theorem signatureStatus_eq (P : Provider σ κ) (s : PublicKeySchedule) (owid : Owid) :
    s.signatureStatus P owid =
      match s.keyFor owid with
      | none => .keyUnavailable
      | some key => owid.signatureStatus P key.publicKeyPem := rfl

/-- Of two keys the one that starts later, and the first where they start together. -/
def laterStart : Option DatedPublicKey → Option DatedPublicKey → Option DatedPublicKey
  | none, other => other
  | some key, none => some key
  | some key, some other => if key.startsAt < other.startsAt then some other else some key

/-! ## Keys in two lists -/

theorem InForce.append_left {keys more : List DatedPublicKey} {moment : DateTime}
    {key : DatedPublicKey} (h : InForce keys moment key)
    (hmore : ∀ k ∈ more, k.startsAt ≤ moment → k.startsAt ≤ key.startsAt) :
    InForce (keys ++ more) moment key where
  started := h.started
  latest k hk hstarted := by
    rcases List.mem_append.mp hk with hk | hk
    · exact h.latest k hk hstarted
    · exact hmore k hk hstarted
  first := by rw [List.find?_append, h.first, Option.some_or]

theorem InForce.append_right {keys more : List DatedPublicKey} {moment : DateTime}
    {key : DatedPublicKey} (h : InForce more moment key)
    (hkeys : ∀ k ∈ keys, k.startsAt ≤ moment → k.startsAt < key.startsAt) :
    InForce (keys ++ more) moment key where
  started := h.started
  latest k hk hstarted := by
    rcases List.mem_append.mp hk with hk | hk
    · exact Int.le_of_lt (hkeys k hk hstarted)
    · exact h.latest k hk hstarted
  first := by
    -- no key of the first list has this start, since it would have to be earlier
    have hnone : keys.find? (fun k => decide (k.startsAt = key.startsAt)) = none := by
      rw [List.find?_eq_none]
      intro k hk hsame
      have hstart : k.startsAt = key.startsAt := of_decide_eq_true hsame
      have hlt := hkeys k hk (hstart ▸ h.started)
      rw [hstart] at hlt
      exact absurd hlt (Int.lt_irrefl _)
    rw [List.find?_append, hnone, h.first, Option.none_or]

/-- **The key in force in two lists** is the later of the two in force in each. -/
theorem keyInForce_new_append (keys more : List DatedPublicKey) (moment : DateTime) :
    (new (keys ++ more)).keyInForce moment =
      laterStart ((new keys).keyInForce moment) ((new more).keyInForce moment) := by
  cases hkeys : (new keys).keyInForce moment with
  | none =>
    have hpast := keyInForce_new_none.mp hkeys
    cases hmore : (new more).keyInForce moment with
    | none =>
      refine keyInForce_new_none.mpr fun k hk => ?_
      rcases List.mem_append.mp hk with hk | hk
      · exact hpast k hk
      · exact keyInForce_new_none.mp hmore k hk
    | some other =>
      refine keyInForce_new.mpr ((keyInForce_new.mp hmore).append_right ?_)
      intro k hk hstarted
      exact absurd (hpast k hk) (Int.not_lt.mpr hstarted)
  | some key =>
    have hforce := keyInForce_new.mp hkeys
    cases hmore : (new more).keyInForce moment with
    | none =>
      refine keyInForce_new.mpr (hforce.append_left ?_)
      intro k hk hstarted
      exact absurd (keyInForce_new_none.mp hmore k hk) (Int.not_lt.mpr hstarted)
    | some other =>
      have hother := keyInForce_new.mp hmore
      by_cases hlt : key.startsAt < other.startsAt
      · simp only [laterStart, if_pos hlt]
        refine keyInForce_new.mpr (hother.append_right ?_)
        intro k hk hstarted
        exact Int.lt_of_le_of_lt (hforce.latest k hk hstarted) hlt
      · simp only [laterStart, if_neg hlt]
        refine keyInForce_new.mpr (hforce.append_left ?_)
        intro k hk hstarted
        exact Int.le_trans (hother.latest k hk hstarted) (Int.not_lt.mp hlt)

/-- Over any number of batches, the key in force is found a batch at a time. -/
theorem keyInForce_flatten (batches : List (List DatedPublicKey)) (moment : DateTime) :
    (new batches.flatten).keyInForce moment =
      (batches.map fun batch => (new batch).keyInForce moment).foldl laterStart none := by
  induction batches using List.reverseRecOn with
  | nil => exact keyInForce_new_none.mpr fun key hkey => absurd hkey List.not_mem_nil
  | append_singleton batches batch ih =>
    rw [List.flatten_append, List.flatten_singleton, keyInForce_new_append, ih, List.map_append,
      List.foldl_append]
    rfl

/-- By the moment a further key has started, later than every key that had. -/
def Overtaken (keys more : List DatedPublicKey) (moment : DateTime) : Prop :=
  ∃ k ∈ more, k.startsAt ≤ moment ∧ ∀ key ∈ keys, key.startsAt ≤ moment → key.startsAt < k.startsAt

/-- Keys that are overtaken leave the choice to those that overtook them. -/
theorem keyInForce_overtaken {keys more : List DatedPublicKey} {moment : DateTime}
    (h : Overtaken keys more moment) :
    ∃ key, (new more).keyInForce moment = some key ∧
      (new (keys ++ more)).keyInForce moment = some key ∧
      (new keys).keyInForce moment ≠ some key := by
  obtain ⟨k, hk, hstarted, hlater⟩ := h
  cases hmore : (new more).keyInForce moment with
  | none => exact absurd hstarted (Int.not_le.mpr (keyInForce_new_none.mp hmore k hk))
  | some key =>
    have hforce := keyInForce_new.mp hmore
    have hafter : ∀ other ∈ keys, other.startsAt ≤ moment → other.startsAt < key.startsAt :=
      fun other hother hle =>
        Int.lt_of_lt_of_le (hlater other hother hle) (hforce.latest k hk hstarted)
    refine ⟨key, rfl, keyInForce_new.mpr (hforce.append_right hafter), fun hkeys => ?_⟩
    have hearlier := keyInForce_new.mp hkeys
    exact absurd (hafter key hearlier.mem hearlier.started) (Int.lt_irrefl _)

/-- Keys that are not overtaken decide as before. -/
theorem keyInForce_not_overtaken {keys more : List DatedPublicKey} {moment : DateTime}
    (h : ¬ Overtaken keys more moment) :
    (new (keys ++ more)).keyInForce moment = (new keys).keyInForce moment := by
  cases hkeys : (new keys).keyInForce moment with
  | none =>
    have hpast := keyInForce_new_none.mp hkeys
    refine keyInForce_new_none.mpr fun k hk => ?_
    rcases List.mem_append.mp hk with hk | hk
    · exact hpast k hk
    · refine Int.not_le.mp fun hstarted => h ⟨k, hk, hstarted, fun key hkey hle => ?_⟩
      exact absurd (hpast key hkey) (Int.not_lt.mpr hle)
  | some key =>
    have hforce := keyInForce_new.mp hkeys
    refine keyInForce_new.mpr (hforce.append_left fun k hk hstarted => ?_)
    refine Int.not_lt.mp fun hlt => h ⟨k, hk, hstarted, fun other hother hle => ?_⟩
    exact Int.lt_of_le_of_lt (hforce.latest other hother hle) hlt

/-! ## The last key -/

/-- The key is the one supplied last of those with its start. -/
def SuppliedLast (keys : List DatedPublicKey) (key : DatedPublicKey) : Prop :=
  (keys.filter (startsAtIs key.startsAt)).getLast? = some key

/-- The keys with a start are sorted in the order they were supplied in. -/
theorem filter_new (keys : List DatedPublicKey) (start : DateTime) :
    (new keys).keys.filter (startsAtIs start) = keys.filter (startsAtIs start) := by
  show (keys.mergeSort _).filter _ = _
  apply Lib.filter_mergeSort
  · intro a b c hab hbc
    exact decide_eq_true (Int.le_trans (of_decide_eq_true hab) (of_decide_eq_true hbc))
  · intro a b
    rw [Bool.or_eq_true]
    exact (Int.le_total a.startsAt.micros b.startsAt.micros).imp decide_eq_true decide_eq_true
  · intro a b ha hb
    have hsame : a.startsAt = b.startsAt :=
      (of_decide_eq_true ha).trans (of_decide_eq_true hb).symm
    rw [hsame]
    exact decide_eq_true (Int.le_refl _)

/-- The last of the sorted keys has the latest start, and was the last supplied with it. -/
theorem last_spec {keys : List DatedPublicKey} {key : DatedPublicKey}
    (h : (new keys).last = some key) :
    (∀ k ∈ keys, k.startsAt ≤ key.startsAt) ∧ SuppliedLast keys key := by
  obtain ⟨init, hkeys⟩ := List.getLast?_eq_some_iff.mp h
  have hsorted := (new keys).sorted
  rw [hkeys, List.pairwise_append] at hsorted
  constructor
  · intro k hk
    rw [← mem_new, hkeys, List.mem_append] at hk
    rcases hk with hinit | hlast
    · exact hsorted.2.2 k hinit key (List.mem_singleton_self key)
    · rw [List.mem_singleton.mp hlast]
      exact Int.le_refl _
  · have hself : startsAtIs key.startsAt key = true := decide_eq_true rfl
    rw [SuppliedLast, ← filter_new, hkeys, List.filter_append, List.filter_cons_of_pos hself,
      List.filter_nil, List.getLast?_concat]

/-- **The last key** is the last supplied of those with the latest start. -/
theorem last_new {keys : List DatedPublicKey} {key : DatedPublicKey} :
    (new keys).last = some key ↔
      (∀ k ∈ keys, k.startsAt ≤ key.startsAt) ∧ SuppliedLast keys key := by
  refine ⟨last_spec, ?_⟩
  rintro ⟨hlatest, hsupplied⟩
  have hmem : key ∈ keys := (List.mem_filter.mp (List.mem_of_getLast? hsupplied)).1
  cases hlast : (new keys).last with
  | none =>
    have hnil := List.getLast?_eq_none_iff.mp hlast
    rw [← mem_new, hnil] at hmem
    exact absurd hmem List.not_mem_nil
  | some other =>
    -- both have the latest start, of which there is one last key
    obtain ⟨hlatest', hsupplied'⟩ := last_spec hlast
    have hother : other ∈ keys := (List.mem_filter.mp (List.mem_of_getLast? hsupplied')).1
    have hstart : other.startsAt = key.startsAt :=
      DateTime.ext (Int.le_antisymm (hlatest other hother) (hlatest' key hmem))
    rw [SuppliedLast, hstart] at hsupplied'
    exact hsupplied'.symm.trans hsupplied

/-- The last key is the one in force where it has started and was also the first supplied. -/
theorem keyInForce_last {keys : List DatedPublicKey} {key : DatedPublicKey}
    (h : (new keys).last = some key) (moment : DateTime) :
    (new keys).keyInForce moment = some key ↔
      key.startsAt ≤ moment ∧ SuppliedFirst keys key := by
  rw [keyInForce_new, inForce_iff]
  have hlatest : ∀ k ∈ keys, k.startsAt ≤ moment → k.startsAt ≤ key.startsAt :=
    fun k hk _ => (last_spec h).1 k hk
  rw [and_iff_right hlatest]

/-- **Publishing further keys.** Whatever keys were published and whatever is published after
them: where a further key has started by a moment, later than every key before it that had, the
key in force then is one of the further keys and was not before; everywhere else it is the key it
was, and an identifier dated then keeps its verdict. Over any number of batches the key in force
is the latest of those in force in each, the earlier batch winning where two start together. The
last key of all is the last supplied of those with the latest start, and is the current one
exactly where it has started and was the first supplied. -/
theorem publishing_spec (P : Provider σ κ) (keys more : List DatedPublicKey) :
    (∀ moment, Overtaken keys more moment →
      ∃ key ∈ more, (new (keys ++ more)).keyInForce moment = some key ∧
        (new more).keyInForce moment = some key ∧ (new keys).keyInForce moment ≠ some key) ∧
    (∀ owid : Owid, ¬ Overtaken keys more owid.date →
      (new (keys ++ more)).keyFor owid = (new keys).keyFor owid ∧
        (new (keys ++ more)).signatureStatus P owid = (new keys).signatureStatus P owid ∧
        (new (keys ++ more)).verify P owid = (new keys).verify P owid) ∧
    (∀ (batches : List (List DatedPublicKey)) (moment : DateTime),
      (new batches.flatten).keyInForce moment =
        (batches.map fun batch => (new batch).keyInForce moment).foldl laterStart none) ∧
    ∀ key, ((new keys).last = some key ↔
        (∀ k ∈ keys, k.startsAt ≤ key.startsAt) ∧ SuppliedLast keys key) ∧
      ((new keys).last = some key → ∀ now, ((new keys).current now = some key ↔
        key.startsAt ≤ now ∧ SuppliedFirst keys key)) := by
  refine ⟨?_, ?_, keyInForce_flatten, fun key => ⟨last_new, fun h now => keyInForce_last h now⟩⟩
  · intro moment h
    obtain ⟨key, hmore, hall, hkeys⟩ := keyInForce_overtaken h
    exact ⟨key, (keyInForce_new.mp hmore).mem, hall, hmore, hkeys⟩
  · intro owid h
    have hkey : (new (keys ++ more)).keyFor owid = (new keys).keyFor owid :=
      keyInForce_not_overtaken h
    have hstatus : (new (keys ++ more)).signatureStatus P owid =
        (new keys).signatureStatus P owid := by
      rw [signatureStatus_eq, signatureStatus_eq, hkey]
    refine ⟨hkey, hstatus, ?_⟩
    rw [verify, verify, hstatus]

end PublicKeySchedule

end OpenWebId
