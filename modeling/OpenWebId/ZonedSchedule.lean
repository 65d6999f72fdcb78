import OpenWebId.Aware
import OpenWebId.Tiling

/-!
# The published keys, in their zones

The schedule as the source has it, whose starts keep the zone they were given in. The sort, the
walk back over the keys and the walk over the starts all compare `datetime`s as Python does,
and the sort is any that is stable where the comparisons order the keys.

`keyInForce_found` is what the walk finds whatever the comparisons say. Where those of the starts
say what their moments do (`StartsAgree`), and the date is one that is read as its moment
(`DateAgrees`), it is the key in force by the moments (`StartsAgree.keyInForce`).
-/

namespace OpenWebId

namespace Zoned

variable {ζ : Type}

/-- `DatedPublicKey`: one public key and the moment it came into force. -/
@[ext]
structure DatedPublicKey (ζ : Type) where
  startsAt : Aware ζ
  publicKeyPem : String
  notBlank : Lib.strip publicKeyPem ≠ ""

instance [DecidableEq ζ] : DecidableEq (DatedPublicKey ζ) :=
  fun _ _ => decidable_of_iff _ DatedPublicKey.ext_iff.symm

/-- `DatedPublicKey.__init__`. -/
def DatedPublicKey.new (startsAt : PyDateTime ζ) (publicKeyPem : String) :
    Except PyExc (DatedPublicKey ζ) :=
  if h : Lib.strip publicKeyPem = "" then .error (.owidError "public key PEM is empty")
  else .ok ⟨startsAt.aware, publicKeyPem, h⟩

/-- `PublicKeySchedule`: the keys of a creator, as the sort left them. -/
structure PublicKeySchedule (ζ : Type) where
  keys : List (DatedPublicKey ζ)

section Code

variable [DecidableEq ζ] (T : Tzdata ζ)

/-- The comparison the sort makes of two keys. -/
def before (a b : DatedPublicKey ζ) : Bool := T.lt a.startsAt b.startsAt

namespace PublicKeySchedule

/-- `PublicKeySchedule.__init__`: `ordered.sort(key=lambda key: key.starts_at)`. -/
def new (S : Lib.StableSort (DatedPublicKey ζ)) (keys : List (DatedPublicKey ζ)) :
    PublicKeySchedule ζ :=
  ⟨S.sort (before T) keys⟩

/-- The inner loop of `key_in_force`: back over the keys whose starts are equal. -/
def firstSupplied (keys : List (DatedPublicKey ζ)) : Nat → DatedPublicKey ζ → DatedPublicKey ζ
  | 0, key => key
  | index + 1, key =>
    match keys[index]? with
    | none => key
    | some earlier =>
      if T.eq earlier.startsAt key.startsAt then firstSupplied keys index earlier else key

/-- The outer loop of `key_in_force`, over the first `n` keys from the last of them. -/
def scanBack (keys : List (DatedPublicKey ζ)) (moment : Aware ζ) :
    Nat → Option (DatedPublicKey ζ)
  | 0 => none
  | index + 1 =>
    match keys[index]? with
    | none => none
    | some key =>
      if T.le key.startsAt moment then some (firstSupplied T keys index key)
      else scanBack keys moment index

/-- `key_in_force`. -/
def keyInForce (s : PublicKeySchedule ζ) (date : Option (PyDateTime ζ)) :
    Option (DatedPublicKey ζ) :=
  match date with
  | none => none
  | some date => scanBack T s.keys date.aware s.keys.length

/-- `min` of the moments, where there is one. -/
def earliest : List (Aware ζ) → Option (Aware ζ)
  | [] => none
  | d :: ds => some (ds.foldl (fun least e => if T.lt e least then e else least) d)

/-- `next_start_after`. -/
def nextStartAfter (s : PublicKeySchedule ζ) (key : DatedPublicKey ζ) : Option (Aware ζ) :=
  earliest T ((s.keys.filter fun other => T.lt key.startsAt other.startsAt).map (·.startsAt))

/-- `signature_status`, under the key in force when the OWID was signed. -/
def signatureStatus {σ κ : Type} (P : Provider σ κ) (s : PublicKeySchedule ζ) (owid : Owid) :
    SignatureStatus :=
  match s.keyInForce T (some ⟨owid.date, some .utc, false⟩) with
  | none => .keyUnavailable
  | some key => owid.signatureStatus P key.publicKeyPem

end PublicKeySchedule

end Code

/-! ## By the moments -/

section Moments

variable (T : Tzdata ζ)

/-- The moment a key starts at. -/
def startOf (key : DatedPublicKey ζ) : Int := T.moment key.startsAt

/-- The key is the one supplied first of those that start at its moment. -/
def SuppliedFirst [DecidableEq ζ] (keys : List (DatedPublicKey ζ)) (key : DatedPublicKey ζ) :
    Prop :=
  keys.find? (fun k => decide (startOf T k = startOf T key)) = some key

/-- The key is the one supplied first among those with the latest start that is not after the
moment. -/
structure InForce [DecidableEq ζ] (keys : List (DatedPublicKey ζ)) (moment : Int)
    (key : DatedPublicKey ζ) : Prop where
  started : startOf T key ≤ moment
  latest : ∀ k ∈ keys, startOf T k ≤ moment → startOf T k ≤ startOf T key
  first : SuppliedFirst T keys key

end Moments

variable [DecidableEq ζ] {T : Tzdata ζ}

theorem InForce.mem {keys : List (DatedPublicKey ζ)} {moment : Int} {key : DatedPublicKey ζ}
    (h : InForce T keys moment key) : key ∈ keys :=
  List.mem_of_find?_eq_some h.first

theorem InForce.unique {keys : List (DatedPublicKey ζ)} {moment : Int} {k k' : DatedPublicKey ζ}
    (h : InForce T keys moment k) (h' : InForce T keys moment k') : k = k' := by
  have hstart : startOf T k = startOf T k' :=
    Int.le_antisymm (h'.latest k h.mem h.started) (h.latest k' h'.mem h'.started)
  have hfirst : SuppliedFirst T keys k := h.first
  rw [SuppliedFirst, hstart, h'.first] at hfirst
  exact (Option.some.inj hfirst).symm

namespace PublicKeySchedule

/-! ## What the walk finds -/

/-- The inner loop goes back over keys whose starts are equal one to the next, as far as they
are. -/
theorem firstSupplied_found {keys : List (DatedPublicKey ζ)} :
    ∀ (index : Nat) (key : DatedPublicKey ζ), keys[index]? = some key →
      ∃ i, i ≤ index ∧ keys[i]? = some (firstSupplied T keys index key) ∧
        (∀ m a b, i ≤ m → m < index → keys[m]? = some a → keys[m + 1]? = some b →
          T.eq a.startsAt b.startsAt = true) ∧
        ∀ a, i ≠ 0 → keys[i - 1]? = some a →
          T.eq a.startsAt (firstSupplied T keys index key).startsAt = false
  | 0, key, hkey => by
    refine ⟨0, Nat.le_refl _, hkey, ?_, ?_⟩
    · intro m _ _ _ hlt
      exact absurd hlt (Nat.not_lt_zero m)
    · intro _ hne
      exact absurd rfl hne
  | index + 1, key, hkey => by
    obtain ⟨hlt, -⟩ := List.getElem?_eq_some_iff.mp hkey
    have hearlier : keys[index]? = some keys[index] :=
      List.getElem?_eq_getElem (Nat.lt_of_succ_lt hlt)
    simp only [firstSupplied, hearlier]
    by_cases hsame : T.eq keys[index].startsAt key.startsAt = true
    · rw [if_pos hsame]
      obtain ⟨i, hi, hfound, hequal, hstop⟩ := firstSupplied_found index keys[index] hearlier
      refine ⟨i, Nat.le_succ_of_le hi, hfound, ?_, hstop⟩
      intro m a b him hm ha hb
      rcases Nat.lt_or_eq_of_le (Nat.le_of_lt_succ hm) with hlt' | rfl
      · exact hequal m a b him hlt' ha hb
      · rw [hearlier] at ha
        rw [hkey] at hb
        cases ha
        cases hb
        exact hsame
    · rw [if_neg hsame]
      refine ⟨index + 1, Nat.le_refl _, hkey, ?_, ?_⟩
      · intro m _ _ him hm
        exact absurd him (Nat.not_le.mpr hm)
      · intro a _ ha
        rw [Nat.add_sub_cancel, hearlier] at ha
        cases ha
        simpa using hsame

/-- The outer loop stops at the last key that has started, as the comparisons say it. -/
theorem scanBack_found {keys : List (DatedPublicKey ζ)} {moment : Aware ζ} :
    ∀ n, n ≤ keys.length → (∀ k ∈ keys.drop n, T.le k.startsAt moment = false) →
      (scanBack T keys moment n = none → ∀ k ∈ keys, T.le k.startsAt moment = false) ∧
      ∀ found, scanBack T keys moment n = some found →
        ∃ index key, keys[index]? = some key ∧ T.le key.startsAt moment = true ∧
          (∀ k ∈ keys.drop (index + 1), T.le k.startsAt moment = false) ∧
          found = firstSupplied T keys index key
  | 0, _, hpast => by
    refine ⟨fun _ k hk => hpast k hk, ?_⟩
    intro found h
    cases h
  | index + 1, hle, hpast => by
    have hkey : keys[index]? = some keys[index] := List.getElem?_eq_getElem hle
    simp only [scanBack, hkey]
    by_cases hstarted : T.le keys[index].startsAt moment = true
    · rw [if_pos hstarted]
      refine ⟨?_, ?_⟩
      · intro h
        cases h
      intro found h
      exact ⟨index, keys[index], hkey, hstarted, hpast, (Option.some.inj h).symm⟩
    · rw [if_neg hstarted]
      refine scanBack_found index (Nat.le_of_lt hle) ?_
      intro k hk
      rw [List.drop_eq_getElem_cons hle] at hk
      rcases List.mem_cons.mp hk with rfl | htail
      · exact Bool.not_eq_true _ ▸ hstarted
      · exact hpast k htail

/-- Whatever the comparisons say, the key found is one of those supplied. -/
theorem keyInForce_mem {S : Lib.StableSort (DatedPublicKey ζ)} {keys : List (DatedPublicKey ζ)}
    {date : PyDateTime ζ} {found : DatedPublicKey ζ}
    (h : (new T S keys).keyInForce T (some date) = some found) : found ∈ keys := by
  obtain ⟨index, key, hkey, -, -, rfl⟩ :=
    (scanBack_found (T := T) (new T S keys).keys.length (Nat.le_refl _) (by simp)).2 found h
  obtain ⟨i, -, hfound, -⟩ := firstSupplied_found (T := T) index key hkey
  exact S.mem.mp (List.mem_of_getElem? hfound)

/-- The least of some moments is one of them. -/
theorem foldl_mem (T : Tzdata ζ) (ds : List (Aware ζ)) (d : Aware ζ) :
    ds.foldl (fun least e => if T.lt e least then e else least) d ∈ d :: ds := by
  induction ds generalizing d with
  | nil => exact List.mem_singleton_self d
  | cons c ds ih =>
    rw [List.foldl_cons]
    split
    · exact List.mem_cons_of_mem _ (ih c)
    · rcases List.mem_cons.mp (ih d) with hd | hds
      · rw [hd]
        exact List.mem_cons_self ..
      · exact List.mem_cons_of_mem _ (List.mem_cons_of_mem _ hds)

/-- And so is the next start one of those supplied. -/
theorem nextStartAfter_mem {S : Lib.StableSort (DatedPublicKey ζ)} {keys : List (DatedPublicKey ζ)}
    {key : DatedPublicKey ζ} {next : Aware ζ}
    (h : (new T S keys).nextStartAfter T key = some next) : ∃ k ∈ keys, k.startsAt = next := by
  rw [nextStartAfter] at h
  cases hds : ((new T S keys).keys.filter fun other =>
      T.lt key.startsAt other.startsAt).map (·.startsAt) with
  | nil =>
    rw [hds] at h
    cases h
  | cons d ds =>
    rw [hds] at h
    cases h
    have hmem := foldl_mem T ds d
    rw [← hds] at hmem
    obtain ⟨k, hk, hstart⟩ := List.mem_map.mp hmem
    exact ⟨k, S.mem.mp (List.mem_filter.mp hk).1, hstart⟩

/-! ## Keys that the comparisons order -/

section Ordered

variable {keys : List (DatedPublicKey ζ)}

/-- Neither key is before the other. -/
def alike (T : Tzdata ζ) (a b : DatedPublicKey ζ) : Bool := !before T a b && !before T b a

theorem alike_iff {a b : DatedPublicKey ζ} :
    alike T a b = true ↔ before T a b = false ∧ before T b a = false := by
  simp [alike]

theorem alike_of_eq {a b : DatedPublicKey ζ} (h : T.eq a.startsAt b.startsAt = true) :
    alike T a b = true :=
  alike_iff.mpr ⟨T.lt_of_eq h, T.lt_of_eq (T.eq_symm a.startsAt b.startsAt ▸ h)⟩

theorem alike_symm {a b : DatedPublicKey ζ} (h : alike T a b = true) : alike T b a = true :=
  alike_iff.mpr (alike_iff.mp h).symm

theorem alike_trans (h : Lib.Orders (before T) keys) {a b c : DatedPublicKey ζ} (ha : a ∈ keys)
    (hb : b ∈ keys) (hc : c ∈ keys) (hab : alike T a b = true) (hbc : alike T b c = true) :
    alike T a c = true := by
  obtain ⟨hab, hba⟩ := alike_iff.mp hab
  obtain ⟨hbc, hcb⟩ := alike_iff.mp hbc
  exact alike_iff.mpr ⟨h.negTrans a ha b hb c hc hab hbc, h.negTrans c hc b hb a ha hcb hba⟩

/-- The inner loop comes to a key like the one it began from. -/
theorem firstSupplied_alike (h : Lib.Orders (before T) keys) :
    ∀ (index : Nat) (key : DatedPublicKey ζ), keys[index]? = some key →
      firstSupplied T keys index key ∈ keys ∧ alike T (firstSupplied T keys index key) key = true
  | 0, key, hkey => by
    refine ⟨List.mem_of_getElem? hkey, alike_iff.mpr ?_⟩
    exact ⟨T.lt_irrefl key.startsAt, T.lt_irrefl key.startsAt⟩
  | index + 1, key, hkey => by
    have hmem := List.mem_of_getElem? hkey
    obtain ⟨hlt, -⟩ := List.getElem?_eq_some_iff.mp hkey
    have hearlier : keys[index]? = some keys[index] :=
      List.getElem?_eq_getElem (Nat.lt_of_succ_lt hlt)
    simp only [firstSupplied, hearlier]
    by_cases hsame : T.eq keys[index].startsAt key.startsAt = true
    · rw [if_pos hsame]
      obtain ⟨hfound, hlike⟩ := firstSupplied_alike h index keys[index] hearlier
      exact ⟨hfound, alike_trans h hfound (List.mem_of_getElem? hearlier) hmem hlike
        (alike_of_eq hsame)⟩
    · rw [if_neg hsame]
      refine ⟨hmem, alike_iff.mpr ?_⟩
      exact ⟨T.lt_irrefl key.startsAt, T.lt_irrefl key.startsAt⟩

/-- Where the keys like this one have equal starts, the inner loop comes to the first of
them. -/
theorem firstSupplied_find (h : Lib.Orders (before T) keys)
    (hsorted : keys.Pairwise fun a b => before T b a = false) {index : Nat}
    {key : DatedPublicKey ζ} (hkey : keys[index]? = some key)
    (hequal : ∀ a ∈ keys, ∀ b ∈ keys, alike T a key = true → alike T b key = true →
      T.eq a.startsAt b.startsAt = true) :
    keys.find? (fun k => alike T k key) = some (firstSupplied T keys index key) := by
  obtain ⟨hmem, hlike⟩ := firstSupplied_alike h index key hkey
  obtain ⟨i, hi, hfound, -, hstop⟩ := firstSupplied_found (T := T) index key hkey
  obtain ⟨hlt, hget⟩ := List.getElem?_eq_some_iff.mp hfound
  rw [List.find?_eq_some_iff_getElem]
  refine ⟨hlike, i, hlt, hget, ?_⟩
  intro j hj
  -- the key the loop stopped at is before it, and so is every one in front of that
  have hprev : keys[i - 1]? = some keys[i - 1] := List.getElem?_eq_getElem (by omega)
  have hne := hstop keys[i - 1] (by omega) hprev
  have hprevMem := List.mem_of_getElem? hprev
  have hkeyMem := List.mem_of_getElem? hkey
  obtain ⟨hindex, hkeyGet⟩ := List.getElem?_eq_some_iff.mp hkey
  have hnotAfter : before T key keys[i - 1] = false := by
    rw [← hkeyGet]
    exact List.pairwise_iff_getElem.mp hsorted (i - 1) index _ _ (by omega)
  have hbefore : before T keys[i - 1] key = true := by
    by_cases hnot : before T keys[i - 1] key = true
    · exact hnot
    · have hprevLike := alike_iff.mpr ⟨Bool.not_eq_true _ ▸ hnot, hnotAfter⟩
      rw [hequal _ hprevMem _ hmem hprevLike hlike] at hne
      cases hne
  have hj' : before T keys[j] key = true := by
    by_cases hnot : before T keys[j] key = true
    · exact hnot
    · have hle : before T keys[i - 1] keys[j] = false := by
        rcases Nat.lt_or_eq_of_le (Nat.le_sub_one_of_lt hj) with hji | rfl
        · exact List.pairwise_iff_getElem.mp hsorted j (i - 1) _ _ hji
        · exact T.lt_irrefl _
      have hchain := h.negTrans _ hprevMem _ (List.getElem_mem _) _ hkeyMem hle
        (Bool.not_eq_true _ ▸ hnot)
      rw [hbefore] at hchain
      cases hchain
  simp [alike, hj']

/-- What the walk over a sorted schedule finds: of the keys that have started, as the comparisons
say it, none is after the one the outer loop stops at, and the key found is like that one. -/
theorem keyInForce_found {S : Lib.StableSort (DatedPublicKey ζ)}
    (h : Lib.Orders (before T) keys) {date : PyDateTime ζ} {found : DatedPublicKey ζ}
    (hfound : (new T S keys).keyInForce T (some date) = some found) :
    ∃ index key, (new T S keys).keys[index]? = some key ∧
      found = firstSupplied T (new T S keys).keys index key ∧
      T.le key.startsAt date.aware = true ∧
      (∀ k ∈ (new T S keys).keys.drop (index + 1), T.le k.startsAt date.aware = false) ∧
      (∀ k ∈ keys, T.le k.startsAt date.aware = true → before T key k = false) ∧
      key ∈ keys ∧ found ∈ keys ∧ alike T found key = true := by
  have hsorted := S.pairwise h
  have hsame : ∀ {k}, k ∈ (new T S keys).keys ↔ k ∈ keys := S.mem
  have hsub : Lib.Orders (before T) (new T S keys).keys :=
    ⟨fun a ha b hb => h.asymm a (hsame.mp ha) b (hsame.mp hb),
      fun a ha b hb c hc => h.negTrans a (hsame.mp ha) b (hsame.mp hb) c (hsame.mp hc)⟩
  obtain ⟨index, key, hkey, hstarted, hpast, hrun⟩ :=
    (scanBack_found (T := T) (new T S keys).keys.length (Nat.le_refl _) (by simp)).2 found hfound
  obtain ⟨hmem, hlike⟩ := firstSupplied_alike hsub index key hkey
  refine ⟨index, key, hkey, hrun, hstarted, hpast, ?_, hsame.mp (List.mem_of_getElem? hkey),
    hsame.mp (hrun ▸ hmem), hrun ▸ hlike⟩
  intro k hk hle
  obtain ⟨j, hj, rfl⟩ := List.getElem_of_mem (hsame.mpr hk)
  obtain ⟨hindex, hget⟩ := List.getElem?_eq_some_iff.mp hkey
  rcases Nat.lt_trichotomy j index with hji | rfl | hij
  · rw [← hget]
    exact List.pairwise_iff_getElem.mp hsorted j index _ _ hji
  · rw [hget]
    exact T.lt_irrefl _
  · have hdrop : (new T S keys).keys[j] ∈ (new T S keys).keys.drop (index + 1) := by
      rw [List.mem_drop_iff_getElem]
      exact ⟨j - (index + 1), by omega, by congr 1; omega⟩
    rw [hpast _ hdrop] at hle
    cases hle

theorem keyInForce_none {S : Lib.StableSort (DatedPublicKey ζ)} {date : PyDateTime ζ}
    (h : (new T S keys).keyInForce T (some date) = none) :
    ∀ k ∈ keys, T.le k.startsAt date.aware = false := by
  intro k hk
  exact (scanBack_found (T := T) (new T S keys).keys.length (Nat.le_refl _) (by simp)).1 h k
    (S.mem.mpr hk)

end Ordered

/-! ## Starts that compare as their moments -/

/-- The comparisons of the starts with each other say of them what those of their moments
do. -/
def StartsAgree (T : Tzdata ζ) (keys : List (DatedPublicKey ζ)) : Prop :=
  ∀ a ∈ keys, ∀ b ∈ keys, T.Agree a.startsAt b.startsAt

/-- The date is read as its moment, as far as it decides the key: no start after it counts as
started, and for every start that is not after it one that is as late does. -/
structure DateAgrees (T : Tzdata ζ) (keys : List (DatedPublicKey ζ)) (date : Aware ζ) : Prop where
  notEarly : ∀ k ∈ keys, T.le k.startsAt date = true → startOf T k ≤ T.moment date
  reached : ∀ k ∈ keys, startOf T k ≤ T.moment date →
    ∃ k' ∈ keys, startOf T k ≤ startOf T k' ∧ T.le k'.startsAt date = true

/-- Starts in zones that never change their offset are compared as their moments are. -/
theorem StartsAgree.of_fixed {keys : List (DatedPublicKey ζ)}
    (h : ∀ key ∈ keys, ∃ offset, key.startsAt.zone = .fixed offset) : StartsAgree T keys := by
  intro a ha b hb
  obtain ⟨offset, hzone⟩ := h a ha
  obtain ⟨offset', hzone'⟩ := h b hb
  exact T.agree_fixed hzone hzone'

/-- A date whose zone never changes its offset is read as its moment. -/
theorem DateAgrees.of_fixed {keys : List (DatedPublicKey ζ)} {date : Aware ζ} {offset : Int}
    (h : date.zone = .fixed offset) : DateAgrees T keys date where
  notEarly _ _ hle := (T.le_fixed h).mp hle
  reached k hk hle := ⟨k, hk, Int.le_refl _, (T.le_fixed h).mpr hle⟩

section Agree

variable {keys : List (DatedPublicKey ζ)}

/-- Keys that the comparisons put in the order of their moments are ordered. -/
theorem orders_of_before_iff
    (h : ∀ a ∈ keys, ∀ b ∈ keys, (before T a b = true ↔ startOf T a < startOf T b)) :
    Lib.Orders (before T) keys where
  asymm a ha b hb hab := by
    rw [h a ha b hb] at hab
    rw [← Bool.not_eq_true, h b hb a ha]
    omega
  negTrans a ha b hb c hc hab hbc := by
    rw [← Bool.not_eq_true, h a ha b hb] at hab
    rw [← Bool.not_eq_true, h b hb c hc] at hbc
    rw [← Bool.not_eq_true, h a ha c hc]
    omega

/-- Of the keys that start at one moment the sort leaves the first supplied first. -/
theorem find?_new
    (h : ∀ a ∈ keys, ∀ b ∈ keys, (before T a b = true ↔ startOf T a < startOf T b))
    (S : Lib.StableSort (DatedPublicKey ζ)) (start : Int) :
    (new T S keys).keys.find? (fun k => decide (startOf T k = start)) =
      keys.find? fun k => decide (startOf T k = start) := by
  have hsort : (new T S keys).keys =
      keys.mergeSort fun a b => decide (startOf T a ≤ startOf T b) := by
    rw [new, S.stable _ _ (orders_of_before_iff h)]
    have hmap := List.map_mergeSort (r := fun a b => !before T b a)
      (s := fun a b => decide (startOf T a ≤ startOf T b)) (f := id) (l := keys)
      (fun a ha b hb => by
        rw [Bool.eq_iff_iff, Bool.not_eq_true', ← Bool.not_eq_true, h b hb a ha,
          decide_eq_true_eq]
        exact Int.not_lt)
    rwa [List.map_id, List.map_id] at hmap
  rw [hsort]
  apply Lib.find?_mergeSort
  · intro a b c hab hbc
    exact decide_eq_true (Int.le_trans (of_decide_eq_true hab) (of_decide_eq_true hbc))
  · intro a b
    rw [Bool.or_eq_true]
    exact (Int.le_total (startOf T a) (startOf T b)).imp decide_eq_true decide_eq_true
  · intro a b ha hb
    have hsame := (of_decide_eq_true ha).trans (of_decide_eq_true hb).symm
    exact decide_eq_true (Int.le_of_eq hsame)

theorem StartsAgree.before_iff (h : StartsAgree T keys) :
    ∀ a ∈ keys, ∀ b ∈ keys, (before T a b = true ↔ startOf T a < startOf T b) :=
  fun a ha b hb => (h a ha b hb).lt

theorem StartsAgree.orders (h : StartsAgree T keys) : Lib.Orders (before T) keys :=
  orders_of_before_iff h.before_iff

theorem StartsAgree.alike_iff (h : StartsAgree T keys) {a b : DatedPublicKey ζ} (ha : a ∈ keys)
    (hb : b ∈ keys) : alike T a b = true ↔ startOf T a = startOf T b := by
  rw [PublicKeySchedule.alike_iff, ← Bool.not_eq_true, ← Bool.not_eq_true,
    h.before_iff a ha b hb, h.before_iff b hb a ha]
  omega

/-- **The walk finds the key in force**, where the starts compare as their moments and the date
is read as its own. -/
theorem StartsAgree.keyInForce (h : StartsAgree T keys) (S : Lib.StableSort (DatedPublicKey ζ))
    {date : PyDateTime ζ} (hreads : DateAgrees T keys date.aware) :
    ((new T S keys).keyInForce T (some date) = none ↔
        ∀ k ∈ keys, T.moment date.aware < startOf T k) ∧
      ∀ key, (new T S keys).keyInForce T (some date) = some key ↔
        InForce T keys (T.moment date.aware) key := by
  cases hfound : (new T S keys).keyInForce T (some date) with
  | none =>
    have hpast : ∀ k ∈ keys, T.moment date.aware < startOf T k := by
      intro k hk
      refine Int.not_le.mp fun hle => ?_
      obtain ⟨k', hk', -, hstarted⟩ := hreads.reached k hk hle
      rw [keyInForce_none hfound k' hk'] at hstarted
      cases hstarted
    refine ⟨iff_of_true rfl hpast, fun key => iff_of_false (by simp) fun hkey => ?_⟩
    exact absurd hkey.started (Int.not_le.mpr (hpast key hkey.mem))
  | some found =>
    obtain ⟨index, key, hkey, hrun, hstarted, -, hlatest, hmem, hfoundMem, hlike⟩ :=
      keyInForce_found h.orders hfound
    have hstart := (h.alike_iff hfoundMem hmem).mp hlike
    have hforce : InForce T keys (T.moment date.aware) found := by
      refine ⟨?_, ?_, ?_⟩
      · rw [hstart]
        exact hreads.notEarly key hmem hstarted
      · -- for a start that has come, one as late counts as started, and none of those is later
        intro k hk hle
        obtain ⟨k', hk', hlate, hcounts⟩ := hreads.reached k hk hle
        have hnot := hlatest k' hk' hcounts
        rw [← Bool.not_eq_true, h.before_iff key hmem k' hk'] at hnot
        omega
      · have hsame : ∀ {k}, k ∈ (new T S keys).keys ↔ k ∈ keys := S.mem
        have hsub : StartsAgree T (new T S keys).keys := fun a ha b hb =>
          h a (hsame.mp ha) b (hsame.mp hb)
        have hfind := firstSupplied_find hsub.orders (S.pairwise h.orders) hkey
          (fun a ha b hb halike hblike => by
            refine (hsub a ha b hb).eq.mpr ?_
            exact ((hsub.alike_iff ha (hsame.mpr hmem)).mp halike).trans
              ((hsub.alike_iff hb (hsame.mpr hmem)).mp hblike).symm)
        rw [SuppliedFirst, ← find?_new h.before_iff S, hrun, ← hfind]
        apply List.find?_congr
        intro k hk
        rw [← hrun, hstart, Bool.eq_iff_iff, decide_eq_true_eq]
        exact (hsub.alike_iff hk (hsame.mpr hmem)).symm
    refine ⟨iff_of_false (by simp) fun hpast => ?_, fun key => ?_⟩
    · exact absurd hforce.started (Int.not_le.mpr (hpast found hfoundMem))
    · rw [Option.some.injEq]
      constructor
      · rintro rfl
        exact hforce
      · exact hforce.unique

/-- Of moments that compare as such none is before the least. -/
theorem foldl_least {ds : List (Aware ζ)} {d : Aware ζ}
    (h : ∀ a ∈ d :: ds, ∀ b ∈ d :: ds, T.Agree a b) :
    ∀ e ∈ d :: ds,
      T.moment (ds.foldl (fun least e => if T.lt e least then e else least) d) ≤ T.moment e := by
  induction ds generalizing d with
  | nil =>
    intro e he
    rw [List.mem_singleton.mp he]
    exact Int.le_refl _
  | cons c ds ih =>
    have hlt := (h c (by simp) d (by simp)).lt
    intro e he
    rw [List.foldl_cons]
    by_cases hless : T.lt c d = true
    · rw [if_pos hless]
      have hmin := ih fun a ha b hb => h a (List.mem_cons_of_mem _ ha) b (List.mem_cons_of_mem _ hb)
      rcases List.mem_cons.mp he with rfl | he
      · exact Int.le_trans (hmin c (List.mem_cons_self ..)) (Int.le_of_lt (hlt.mp hless))
      · exact hmin e he
    · rw [if_neg hless]
      have hsub : ∀ {e}, e ∈ d :: ds → e ∈ d :: c :: ds := by
        intro e he
        rcases List.mem_cons.mp he with rfl | he
        · exact List.mem_cons_self ..
        · exact List.mem_cons_of_mem _ (List.mem_cons_of_mem _ he)
      have hmin := ih fun a ha b hb => h a (hsub ha) b (hsub hb)
      rcases List.mem_cons.mp he with rfl | he
      · exact hmin e (List.mem_cons_self ..)
      rcases List.mem_cons.mp he with rfl | he
      · exact Int.le_trans (hmin d (List.mem_cons_self ..))
          (Int.not_lt.mp fun hgt => hless (hlt.mpr hgt))
      · exact hmin e (List.mem_cons_of_mem _ he)

/-- The next start is the least that is later, by the moments. -/
theorem StartsAgree.nextStartAfter (h : StartsAgree T keys) (S : Lib.StableSort (DatedPublicKey ζ))
    {key : DatedPublicKey ζ} (hkey : key ∈ keys) :
    match (new T S keys).nextStartAfter T key with
    | none => ∀ k ∈ keys, startOf T k ≤ startOf T key
    | some next => startOf T key < T.moment next ∧ (∃ k ∈ keys, k.startsAt = next) ∧
        ∀ k ∈ keys, startOf T key < startOf T k → T.moment next ≤ startOf T k := by
  have hlater : ∀ {d}, d ∈ ((new T S keys).keys.filter fun other =>
      T.lt key.startsAt other.startsAt).map (·.startsAt) ↔
        ∃ k ∈ keys, startOf T key < startOf T k ∧ k.startsAt = d := by
    intro d
    rw [List.mem_map]
    constructor
    · rintro ⟨k, hk, hstart⟩
      obtain ⟨hmem, hlt⟩ := List.mem_filter.mp hk
      have hmem := S.mem.mp hmem
      exact ⟨k, hmem, (h key hkey k hmem).lt.mp hlt, hstart⟩
    · rintro ⟨k, hk, hlt, hstart⟩
      exact ⟨k, List.mem_filter.mpr ⟨S.mem.mpr hk, (h key hkey k hk).lt.mpr hlt⟩, hstart⟩
  rw [PublicKeySchedule.nextStartAfter]
  cases hds : ((new T S keys).keys.filter fun other =>
      T.lt key.startsAt other.startsAt).map (·.startsAt) with
  | nil =>
    intro k hk
    refine Int.not_lt.mp fun hlt => ?_
    have hmem := hlater.mpr ⟨k, hk, hlt, rfl⟩
    rw [hds] at hmem
    cases hmem
  | cons d ds =>
    rw [hds] at hlater
    have hagree : ∀ a ∈ d :: ds, ∀ b ∈ d :: ds, T.Agree a b := by
      intro a ha b hb
      obtain ⟨k, hk, -, rfl⟩ := hlater.mp ha
      obtain ⟨k', hk', -, rfl⟩ := hlater.mp hb
      exact h k hk k' hk'
    have hmin := foldl_least hagree
    obtain ⟨k, hk, hlt, hstart⟩ := hlater.mp (foldl_mem T ds d)
    refine ⟨?_, ⟨k, hk, hstart⟩, fun k' hk' hlt' => hmin _ (hlater.mpr ⟨k', hk', hlt', rfl⟩)⟩
    rw [← hstart]
    exact hlt

end Agree

end PublicKeySchedule

end Zoned

end OpenWebId
