import OpenWebId.ZonedSchedule

/-!
# When the periods of a schedule tile time

`Tiles` is what the choice of a key is meant to be, for the keys as they were supplied and a
date: the key supplied first among those with the latest start that is not after the date,
which is to say in its period, whatever order the keys were supplied in. All of it is said by
the moments that the starts and the date name.

The code compares `datetime`s instead, and a start keeps the zone it was given in, so it can
take a later start for an earlier one where a clock is put back. `keyInForce_tiles_iff` is
exactly when it does not. That the condition is enough is `StartsAgree.keyInForce`; that it is
needed is read off the dates at the starts themselves: off the dates at their moments in zones
that do not change (`Tzdata.pinned`), and off the starts as dates in their own.
-/

namespace OpenWebId

namespace Zoned

namespace PublicKeySchedule

variable {ζ : Type} [DecidableEq ζ]

/-- The moment is in the period of the key: from its start on, and before its next start. -/
def InPeriod (T : Tzdata ζ) (s : PublicKeySchedule ζ) (key : DatedPublicKey ζ) (moment : Int) :
    Prop :=
  startOf T key ≤ moment ∧
    (s.nextStartAfter T key = none ∨
      ∃ next, s.nextStartAfter T key = some next ∧ moment < T.moment next)

/-- The key found for the date is the one in force at its moment, and the periods of the keys
supplied first with their starts hold the moment once. -/
structure Tiles (T : Tzdata ζ) (S : Lib.StableSort (DatedPublicKey ζ))
    (keys : List (DatedPublicKey ζ)) (date : PyDateTime ζ) : Prop where
  none_iff : (new T S keys).keyInForce T (some date) = none ↔
    ∀ key ∈ keys, T.moment date.aware < startOf T key
  some_iff : ∀ key, (new T S keys).keyInForce T (some date) = some key ↔
    InForce T keys (T.moment date.aware) key
  period_iff : ∀ key, (new T S keys).keyInForce T (some date) = some key ↔
    SuppliedFirst T keys key ∧ InPeriod T (new T S keys) key (T.moment date.aware)
  once : (∃ key ∈ keys, startOf T key ≤ T.moment date.aware) →
    ∃! key, SuppliedFirst T keys key ∧ InPeriod T (new T S keys) key (T.moment date.aware)
  permuted : ∀ keys' : List (DatedPublicKey ζ), keys'.Perm keys →
    (∀ start, keys'.filter (fun k => decide (startOf T k = start)) =
      keys.filter fun k => decide (startOf T k = start)) →
    (new T S keys').keyInForce T (some date) = (new T S keys).keyInForce T (some date)

variable {T : Tzdata ζ} {keys : List (DatedPublicKey ζ)}

/-! ## The comparisons of the moments are enough -/

/-- A key is in force in its period, if it was supplied first, and nowhere else. -/
theorem StartsAgree.inForce_iff (h : StartsAgree T keys) (S : Lib.StableSort (DatedPublicKey ζ))
    {moment : Int} {key : DatedPublicKey ζ} :
    InForce T keys moment key ↔
      SuppliedFirst T keys key ∧ InPeriod T (new T S keys) key moment := by
  constructor
  · intro hforce
    refine ⟨hforce.first, hforce.started, ?_⟩
    have hnext := h.nextStartAfter S hforce.mem
    cases hsome : (new T S keys).nextStartAfter T key with
    | none => exact Or.inl rfl
    | some next =>
      rw [hsome] at hnext
      obtain ⟨hafter, ⟨k, hk, rfl⟩, -⟩ := hnext
      refine Or.inr ⟨_, rfl, Int.not_le.mp fun hle => ?_⟩
      exact absurd (hforce.latest k hk hle) (Int.not_le.mpr hafter)
  · rintro ⟨hfirst, hstarted, hperiod⟩
    have hmem : key ∈ keys := List.mem_of_find?_eq_some hfirst
    refine ⟨hstarted, ?_, hfirst⟩
    intro k hk hle
    have hnext := h.nextStartAfter S hmem
    rcases hperiod with hnone | ⟨next, hsome, hlt⟩
    · rw [hnone] at hnext
      exact hnext k hk
    · rw [hsome] at hnext
      refine Int.not_lt.mp fun hafter => ?_
      exact absurd (Int.le_trans (hnext.2.2 k hk hafter) hle) (Int.not_le.mpr hlt)

/-- What is said of the members of a list alone holds of it in any order. -/
theorem StartsAgree.perm {keys' : List (DatedPublicKey ζ)} (h : StartsAgree T keys)
    (hperm : keys'.Perm keys) : StartsAgree T keys' :=
  fun a ha b hb => h a (hperm.mem_iff.mp ha) b (hperm.mem_iff.mp hb)

theorem DateAgrees.perm {keys' : List (DatedPublicKey ζ)} {date : Aware ζ}
    (h : DateAgrees T keys date) (hperm : keys'.Perm keys) : DateAgrees T keys' date where
  notEarly k hk := h.notEarly k (hperm.mem_iff.mp hk)
  reached k hk hle := by
    obtain ⟨k', hk', hlate⟩ := h.reached k (hperm.mem_iff.mp hk) hle
    exact ⟨k', hperm.mem_iff.mpr hk', hlate⟩

/-- **Starts that compare as their moments tile time** at every date that is read as its
moment. -/
theorem StartsAgree.tiles (h : StartsAgree T keys) (S : Lib.StableSort (DatedPublicKey ζ))
    {date : PyDateTime ζ} (hreads : DateAgrees T keys date.aware) : Tiles T S keys date := by
  obtain ⟨hnone, hsome⟩ := h.keyInForce S hreads
  refine ⟨hnone, hsome, fun key => (hsome key).trans (h.inForce_iff S), ?_, ?_⟩
  · rintro ⟨earlier, hearlier, hstarted⟩
    cases hfound : (new T S keys).keyInForce T (some date) with
    | none => exact absurd hstarted (Int.not_le.mpr (hnone.mp hfound earlier hearlier))
    | some key =>
      have hforce := (hsome key).mp hfound
      refine ⟨key, (h.inForce_iff S).mp hforce, ?_⟩
      intro other hother
      exact ((h.inForce_iff S).mpr hother).unique hforce
  · intro keys' hperm hclasses
    obtain ⟨-, hsome'⟩ := (h.perm hperm).keyInForce S (hreads.perm hperm)
    apply Option.ext
    intro key
    rw [hsome, hsome']
    -- the first supplied of a start is the first of its class
    have hfirst : SuppliedFirst T keys' key ↔ SuppliedFirst T keys key := by
      rw [SuppliedFirst, SuppliedFirst, ← List.head?_filter, ← List.head?_filter, hclasses]
    constructor
    · intro hforce
      exact ⟨hforce.started, fun k hk => hforce.latest k (hperm.mem_iff.mpr hk),
        hfirst.mp hforce.first⟩
    · intro hforce
      exact ⟨hforce.started, fun k hk => hforce.latest k (hperm.mem_iff.mp hk),
        hfirst.mpr hforce.first⟩

/-! ## And they are needed -/

/-- A start, as a date. -/
def ownDate (key : DatedPublicKey ζ) : PyDateTime ζ := key.startsAt.datetime

/-- The moment of a start, as a date in a zone that does not change. -/
def pinnedDate (T : Tzdata ζ) (key : DatedPublicKey ζ) : PyDateTime ζ :=
  (T.pinned key.startsAt).datetime

theorem le_pinnedDate {k key : DatedPublicKey ζ} :
    T.le k.startsAt (pinnedDate T key).aware = true ↔ startOf T k ≤ startOf T key :=
  T.le_pinned

/-- At the moment of a start the key found starts then. -/
theorem Tiles.found {S : Lib.StableSort (DatedPublicKey ζ)} {date : PyDateTime ζ}
    (h : Tiles T S keys date) {a : DatedPublicKey ζ} (ha : a ∈ keys)
    (hdate : T.moment date.aware = startOf T a) :
    ∃ f, (new T S keys).keyInForce T (some date) = some f ∧ InForce T keys (startOf T a) f ∧
      startOf T f = startOf T a := by
  cases hfound : (new T S keys).keyInForce T (some date) with
  | none =>
    have hpast := h.none_iff.mp hfound a ha
    rw [hdate] at hpast
    exact absurd hpast (Int.lt_irrefl _)
  | some f =>
    have hforce := (h.some_iff f).mp hfound
    rw [hdate] at hforce
    exact ⟨f, rfl, hforce, Int.le_antisymm hforce.started (hforce.latest a ha (Int.le_refl _))⟩

/-- The walk over a list that ends in two different starts finds the last. -/
theorem scanBack_last (others : List (DatedPublicKey ζ)) {x y : DatedPublicKey ζ}
    {date : Aware ζ} (hle : T.le y.startsAt date = true)
    (hne : T.eq x.startsAt y.startsAt = false) :
    scanBack T (others ++ [x, y]) date (others ++ [x, y]).length = some y := by
  have hlen : (others ++ [x, y]).length = others.length + 1 + 1 := by simp
  have hy : (others ++ [x, y])[others.length + 1]? = some y := by simp
  have hx : (others ++ [x, y])[others.length]? = some x := by simp
  rw [hlen]
  simp only [scanBack, hy, hle, if_true, firstSupplied, hx, hne]
  rfl

theorem exists_latest {a : DatedPublicKey ζ} (ha : a ∈ keys) :
    ∃ m ∈ keys, ∀ k ∈ keys, startOf T k ≤ startOf T m := by
  obtain ⟨m, hm, hmax⟩ := keys.toFinset.exists_max_image (startOf T)
    ⟨a, List.mem_toFinset.mpr ha⟩
  exact ⟨m, List.mem_toFinset.mp hm, fun k hk => hmax k (List.mem_toFinset.mpr hk)⟩

/-- Where the comparisons do not order the starts, a sort may put either of two last. -/
theorem orders_of_tiles (hall : ∀ S date, Tiles T S keys date) :
    Lib.Orders (before T) keys := by
  by_contra hnot
  obtain ⟨a, ha, b, hb, hab⟩ : ∃ a ∈ keys, ∃ b ∈ keys, before T a b = true := by
    by_contra hnone
    push Not at hnone
    have hfalse : ∀ a ∈ keys, ∀ b ∈ keys, before T a b = false := fun a ha b hb =>
      Bool.not_eq_true _ ▸ hnone a ha b hb
    refine hnot ⟨fun a _ b hb h => ?_, fun a ha _ _ c hc _ _ => hfalse a ha c hc⟩
    exact hfalse b hb a ‹_›
  have hne : T.eq a.startsAt b.startsAt = false := by
    cases heq : T.eq a.startsAt b.startsAt with
    | false => rfl
    | true => exact absurd (T.lt_of_eq heq) (by rw [show T.lt _ _ = true from hab]; simp)
  have hdiffer : a ≠ b := by
    rintro rfl
    rw [before, T.lt_irrefl] at hab
    cases hab
  have hperm : ((keys.erase a).erase b ++ [b, a]).Perm keys := by
    have hmem : b ∈ keys.erase a := (List.mem_erase_of_ne (Ne.symm hdiffer)).mpr hb
    refine List.perm_append_comm.trans ?_
    exact ((List.Perm.swap a b _).trans ((List.perm_cons_erase hmem).symm.cons a)).trans
      (List.perm_cons_erase ha).symm
  have hperm' : ((keys.erase a).erase b ++ [a, b]).Perm keys :=
    ((List.Perm.swap b a []).append_left _).trans hperm
  obtain ⟨m, hm, hlatest⟩ := exists_latest (T := T) ha
  -- at the latest start of all, the key found is whichever was put last
  have hlast : ∀ x y : DatedPublicKey ζ, y ∈ keys → T.eq x.startsAt y.startsAt = false →
      ((keys.erase a).erase b ++ [x, y]).Perm keys → InForce T keys (startOf T m) y := by
    intro x y hy hxy hxyPerm
    refine ((hall (.placing hxyPerm hnot) (pinnedDate T m)).some_iff y).mp ?_
    rw [PublicKeySchedule.keyInForce, new, Lib.StableSort.placing_sort]
    exact scanBack_last _ (le_pinnedDate.mpr (hlatest y hy)) hxy
  exact hdiffer ((hlast b a ha (T.eq_symm a.startsAt b.startsAt ▸ hne) hperm).unique
    (hlast a b hb hne hperm'))

section Ordered

variable {S : Lib.StableSort (DatedPublicKey ζ)}

/-- What is before by the comparisons is before by the moments. -/
theorem start_lt_of_before (hall : ∀ date, Tiles T S keys date)
    (horders : Lib.Orders (before T) keys) {a b : DatedPublicKey ζ} (ha : a ∈ keys)
    (hb : b ∈ keys) (hab : before T a b = true) : startOf T a < startOf T b := by
  refine Int.not_le.mp fun hge => ?_
  obtain ⟨f, hf, hforce, -⟩ := (hall (pinnedDate T a)).found ha rfl
  obtain ⟨f', hf', hforce', -⟩ := (hall (ownDate a)).found ha rfl
  cases hforce'.unique hforce
  -- at its moment the walk stops no earlier than at the later key, at the start itself before it
  obtain ⟨-, k, -, -, -, -, hlatest, hk, hfMem, hlike⟩ := keyInForce_found horders hf
  obtain ⟨-, k', -, -, hstarted', -, -, hk', -, hlike'⟩ := keyInForce_found horders hf'
  have hkb := hlatest b hb (le_pinnedDate.mpr hge)
  have hak' : before T a k' = false := by
    have hle : T.le k'.startsAt a.startsAt = true := hstarted'
    rw [T.le_eq_not_lt, Bool.not_eq_true'] at hle
    exact hle
  have haf := horders.negTrans a ha k' hk' f hfMem hak' (alike_iff.mp hlike').2
  have hak := horders.negTrans a ha f hfMem k hk haf (alike_iff.mp hlike).1
  have hnot := horders.negTrans a ha k hk b hb hak hkb
  rw [hab] at hnot
  cases hnot

/-- The key found at the moment of a start is the first of the keys like it, where those have
equal starts. -/
theorem find_alike (hall : ∀ date, Tiles T S keys date) (horders : Lib.Orders (before T) keys)
    {a : DatedPublicKey ζ} (ha : a ∈ keys)
    (hequal : ∀ x ∈ keys, ∀ y ∈ keys, alike T x a = true → alike T y a = true →
      T.eq x.startsAt y.startsAt = true) :
    ∃ f, (new T S keys).keys.find? (fun k => alike T k a) = some f ∧
      startOf T f = startOf T a := by
  obtain ⟨f, hf, -, hstart⟩ := (hall (pinnedDate T a)).found ha rfl
  obtain ⟨index, k, hkey, hrun, hstarted, -, hlatest, hk, -, -⟩ := keyInForce_found horders hf
  have hka := hlatest a ha (le_pinnedDate.mpr (Int.le_refl _))
  have hak : before T a k = false := by
    cases hlt : before T a k with
    | false => rfl
    | true =>
      have := start_lt_of_before hall horders ha hk hlt
      exact absurd (le_pinnedDate.mp hstarted) (Int.not_le.mpr this)
  have halike : alike T k a = true := alike_iff.mpr ⟨hka, hak⟩
  have hsame : ∀ {k}, k ∈ (new T S keys).keys ↔ k ∈ keys := S.mem
  have hsub : Lib.Orders (before T) (new T S keys).keys :=
    ⟨fun a ha b hb => horders.asymm a (hsame.mp ha) b (hsame.mp hb), fun a ha b hb c hc =>
      horders.negTrans a (hsame.mp ha) b (hsame.mp hb) c (hsame.mp hc)⟩
  have hclass : ∀ x ∈ keys, alike T x k = alike T x a := by
    intro x hx
    rw [Bool.eq_iff_iff]
    exact ⟨fun h => alike_trans horders hx hk ha h halike,
      fun h => alike_trans horders hx ha hk h (alike_symm halike)⟩
  refine ⟨f, ?_, hstart⟩
  have hfind := firstSupplied_find hsub (S.pairwise horders) hkey fun x hx y hy hxk hyk =>
    hequal x (hsame.mp hx) y (hsame.mp hy) (hclass x (hsame.mp hx) ▸ hxk)
      (hclass y (hsame.mp hy) ▸ hyk)
  rw [hrun, ← hfind]
  exact List.find?_congr fun x hx => (hclass x (hsame.mp hx)).symm

/-- What is before by the moments is before by the comparisons. -/
theorem before_of_start_lt (hall : ∀ date, Tiles T S keys date)
    (horders : Lib.Orders (before T) keys) {a b : DatedPublicKey ζ} (ha : a ∈ keys)
    (hb : b ∈ keys) (hlt : startOf T a < startOf T b) : before T a b = true := by
  by_contra hnot
  have hab : before T a b = false := Bool.not_eq_true _ ▸ hnot
  have hba : before T b a = false := by
    cases hba : before T b a with
    | false => rfl
    | true => exact absurd (start_lt_of_before hall horders hb ha hba) (Int.not_lt.mpr (by omega))
  have hzone : a.startsAt.zone = b.startsAt.zone := by
    by_contra hne
    exact hnot ((T.lt_of_zone_ne hne).mpr hlt)
  -- the keys like them share their zone and their clock, and so come to one first key
  have hclock : ∀ x ∈ keys, alike T x a = true →
      x.startsAt.zone = a.startsAt.zone ∧ x.startsAt.clock.micros = a.startsAt.clock.micros := by
    intro x hx hxa
    obtain ⟨hxa₁, hxa₂⟩ := alike_iff.mp hxa
    obtain ⟨hxb₁, hxb₂⟩ :=
      alike_iff.mp (alike_trans horders hx ha hb hxa (alike_iff.mpr ⟨hab, hba⟩))
    by_cases hxzone : x.startsAt.zone = a.startsAt.zone
    · refine ⟨hxzone, ?_⟩
      simp only [before, Tzdata.lt, if_pos hxzone, if_pos hxzone.symm,
        decide_eq_false_iff_not] at hxa₁ hxa₂
      omega
    · have hxzone' : x.startsAt.zone ≠ b.startsAt.zone := fun h => hxzone (h.trans hzone.symm)
      simp only [before, Tzdata.lt, if_neg hxzone, if_neg (Ne.symm hxzone), if_neg hxzone',
        if_neg (Ne.symm hxzone'), decide_eq_false_iff_not] at hxa₁ hxa₂ hxb₁ hxb₂
      simp only [startOf] at hlt
      omega
  have hequal : ∀ x ∈ keys, ∀ y ∈ keys, alike T x a = true → alike T y a = true →
      T.eq x.startsAt y.startsAt = true := by
    intro x hx y hy hxa hya
    obtain ⟨hxz, hxc⟩ := hclock x hx hxa
    obtain ⟨hyz, hyc⟩ := hclock y hy hya
    rw [Tzdata.eq, if_pos (hxz.trans hyz.symm)]
    exact decide_eq_true (hxc.trans hyc.symm)
  have hlike : alike T b a = true := alike_iff.mpr ⟨hba, hab⟩
  have hclass : ∀ x ∈ keys, alike T x b = alike T x a := by
    intro x hx
    rw [Bool.eq_iff_iff]
    exact ⟨fun h => alike_trans horders hx hb ha h hlike,
      fun h => alike_trans horders hx ha hb h (alike_symm hlike)⟩
  obtain ⟨f, hf, hfa⟩ := find_alike hall horders ha hequal
  obtain ⟨f', hf', hfb⟩ := find_alike hall horders hb fun x hx y hy hxb hyb =>
    hequal x hx y hy (hclass x hx ▸ hxb) (hclass y hy ▸ hyb)
  have hsame : (new T S keys).keys.find? (fun k => alike T k b) =
      (new T S keys).keys.find? fun k => alike T k a :=
    List.find?_congr fun x hx => hclass x (S.mem.mp hx)
  rw [hsame, hf] at hf'
  cases hf'
  omega

/-- Of one zone and one moment, starts show one clock. -/
theorem clock_eq_of_start_eq (hall : ∀ date, Tiles T S keys date)
    (horders : Lib.Orders (before T) keys) {a b : DatedPublicKey ζ} (ha : a ∈ keys)
    (hb : b ∈ keys) (hzone : a.startsAt.zone = b.startsAt.zone)
    (hsame : startOf T a = startOf T b) :
    a.startsAt.clock.micros = b.startsAt.clock.micros := by
  have hab : before T a b ≠ true := fun h =>
    absurd (start_lt_of_before hall horders ha hb h) (by omega)
  have hba : before T b a ≠ true := fun h =>
    absurd (start_lt_of_before hall horders hb ha h) (by omega)
  simp only [before, Tzdata.lt, if_pos hzone, if_pos hzone.symm, ne_eq,
    decide_eq_true_eq] at hab hba
  omega

/-- Keys of one moment have equal starts: the walk back from the last of them comes to the
first. -/
theorem eq_of_start_eq (hall : ∀ date, Tiles T S keys date)
    (horders : Lib.Orders (before T) keys) (hnodup : keys.Nodup) {a b : DatedPublicKey ζ}
    (ha : a ∈ keys) (hb : b ∈ keys) (hsame : startOf T a = startOf T b) :
    T.eq a.startsAt b.startsAt = true := by
  have hbefore : ∀ a ∈ keys, ∀ b ∈ keys, (before T a b = true ↔ startOf T a < startOf T b) :=
    fun a ha b hb => ⟨start_lt_of_before hall horders ha hb,
      before_of_start_lt hall horders ha hb⟩
  obtain ⟨f, hf, hforce, hstart⟩ := (hall (pinnedDate T a)).found ha rfl
  obtain ⟨index, key, hkey, hrun, -, hpast, -, -, hfMem, -⟩ := keyInForce_found horders hf
  obtain ⟨i, -, hi, hequal, -⟩ := firstSupplied_found (T := T) index key hkey
  rw [← hrun] at hi
  have hmem : ∀ {k}, k ∈ (new T S keys).keys ↔ k ∈ keys := S.mem
  have hdistinct : (new T S keys).keys.Nodup := (S.perm _ _).nodup_iff.mpr hnodup
  -- no key of the moment is in front of the first
  have hfront : ∀ p, ∀ hp : p < (new T S keys).keys.length,
      startOf T (new T S keys).keys[p] = startOf T a → i ≤ p := by
    intro p hp hmoment
    have hfind := find?_new hbefore S (startOf T f)
    rw [hforce.first] at hfind
    obtain ⟨-, i', hi', hget, hnone⟩ := List.find?_eq_some_iff_getElem.mp hfind
    obtain ⟨hlt, hget'⟩ := List.getElem?_eq_some_iff.mp hi
    cases (List.Nodup.getElem_inj_iff hdistinct).mp (hget.trans hget'.symm)
    refine Nat.not_lt.mp fun hpi => ?_
    have hno := hnone p hpi
    rw [hmoment, hstart] at hno
    simp at hno
  -- and each of them is equal to it
  have hrunEq : ∀ p, i ≤ p → p ≤ index → ∀ x, (new T S keys).keys[p]? = some x →
      T.eq f.startsAt x.startsAt = true := by
    intro p hip
    induction p, hip using Nat.le_induction with
    | base =>
      intro _ x hx
      rw [hi] at hx
      cases hx
      simp [Tzdata.eq]
    | succ p hip ih =>
      intro hle x hx
      obtain ⟨hlt, -⟩ := List.getElem?_eq_some_iff.mp hx
      have hprev : (new T S keys).keys[p]? = some (new T S keys).keys[p] :=
        List.getElem?_eq_getElem (Nat.lt_of_succ_lt hlt)
      exact T.eq_trans (ih (Nat.le_of_succ_le hle) _ hprev)
        (hequal p _ x hip hle hprev hx)
        (clock_eq_of_start_eq hall horders hfMem (hmem.mp (List.mem_of_getElem? hx)))
  have hfirst : ∀ x ∈ keys, startOf T x = startOf T a → T.eq f.startsAt x.startsAt = true := by
    intro x hx hmoment
    obtain ⟨p, hp, rfl⟩ := List.getElem_of_mem (hmem.mpr hx)
    refine hrunEq p (hfront p hp hmoment) (Nat.not_lt.mp fun hlate => ?_) _
      (List.getElem?_eq_getElem hp)
    have hdrop : (new T S keys).keys[p] ∈ (new T S keys).keys.drop (index + 1) := by
      rw [List.mem_drop_iff_getElem]
      exact ⟨p - (index + 1), by omega, by congr 1; omega⟩
    have hle := le_pinnedDate.mpr (Int.le_of_eq hmoment)
    rw [hpast _ hdrop] at hle
    cases hle
  have hfa := hfirst a ha rfl
  rw [T.eq_symm] at hfa
  exact T.eq_trans hfa (hfirst b hb hsame.symm) fun hzone _ =>
    clock_eq_of_start_eq hall horders ha hb hzone hsame

end Ordered

/-- What the walk finds says how the date was read. -/
theorem Tiles.dateAgrees {S : Lib.StableSort (DatedPublicKey ζ)} {date : PyDateTime ζ}
    (h : Tiles T S keys date) (hagree : StartsAgree T keys) : DateAgrees T keys date.aware := by
  cases hfound : (new T S keys).keyInForce T (some date) with
  | none =>
    refine ⟨fun k hk hle => ?_, fun k hk hle => ?_⟩
    · rw [keyInForce_none hfound k hk] at hle
      cases hle
    · exact absurd hle (Int.not_le.mpr (h.none_iff.mp hfound k hk))
  | some f =>
    have hforce := (h.some_iff f).mp hfound
    obtain ⟨-, key, -, -, hstarted, -, hlatest, hkey, hfMem, hlike⟩ :=
      keyInForce_found hagree.orders hfound
    have hstart := (hagree.alike_iff hfMem hkey).mp hlike
    constructor
    · intro k hk hle
      have hnot := hlatest k hk hle
      rw [← Bool.not_eq_true, hagree.before_iff key hkey k hk] at hnot
      have hf := hforce.started
      omega
    · intro k hk hle
      refine ⟨key, hkey, ?_, hstarted⟩
      rw [← hstart]
      exact hforce.latest k hk hle

/-! ## A clock that is put back -/

/-- Keys that start in one zone are ordered by their clocks. -/
theorem orders_of_zone (zone : Zone ζ) (h : ∀ key ∈ keys, key.startsAt.zone = zone) :
    Lib.Orders (before T) keys where
  asymm a _ b _ := T.lt_asymm
  negTrans a ha b hb c hc hab hbc := by
    simp only [before, Tzdata.lt, h a ha, h b hb, h c hc, if_true, decide_eq_false_iff_not]
      at hab hbc ⊢
    omega

/-- Keys in one zone, as far from UTC, agree. -/
theorem startsAgree_of_offset (zone : Zone ζ) (offset : Int)
    (h : ∀ key ∈ keys, key.startsAt.zone = zone ∧ T.offset key.startsAt = offset) :
    StartsAgree T keys := fun a ha b hb =>
  T.agree_offset ((h a ha).1.trans (h b hb).1.symm) ((h a ha).2.trans (h b hb).2.symm)

/-- Keys that are supplied in order stay in it. -/
theorem new_of_sorted {S : Lib.StableSort (DatedPublicKey ζ)} (h : Lib.Orders (before T) keys)
    (hsorted : keys.Pairwise fun a b => before T b a = false) : (new T S keys).keys = keys := by
  rw [new, S.stable _ _ h]
  apply List.mergeSort_of_pairwise
  refine hsorted.imp fun hab => ?_
  rw [hab]
  rfl

/-- Europe/London about 2025-10-26, whose midnight begins minute 3060000: summer time until the
clock shows 02:00, which is then put back to 01:00. -/
def london : Tzdata Unit where
  utcoffset _ clock fold :=
    if clock.micros < 3060060 * microsPerMinute ∨
        (clock.micros < 3060120 * microsPerMinute ∧ fold = false) then microsPerHour
    else 0

theorem minute3060070_le : 3060070 ≤ maximumMinutes := by decide

theorem minute3060080_le : 3060080 ≤ maximumMinutes := by decide

theorem minute3060090_le : 3060090 ≤ maximumMinutes := by decide

theorem minute3060045_le : 3060045 ≤ maximumMinutes := by decide

theorem strip_A : Lib.strip "A" ≠ "" := by decide

theorem strip_B : Lib.strip "B" ≠ "" := by decide

theorem strip_C : Lib.strip "C" ≠ "" := by decide

/-- The key `A` from the first 01:10 in London, 00:10 in UTC. -/
def londonA : DatedPublicKey Unit :=
  ⟨⟨atMinute 3060070 minute3060070_le, .region (), false⟩, "A", strip_A⟩

/-- The key `C` from the second 01:20 in London, 01:20 in UTC. -/
def londonC : DatedPublicKey Unit :=
  ⟨⟨atMinute 3060080 minute3060080_le, .region (), true⟩, "C", strip_C⟩

/-- The key `B` from the first 01:30 in London, 00:30 in UTC. -/
def londonB : DatedPublicKey Unit :=
  ⟨⟨atMinute 3060090 minute3060090_le, .region (), false⟩, "B", strip_B⟩

/-- 00:45 in UTC. -/
def quarterToOne : PyDateTime Unit := ⟨atMinute 3060045 minute3060045_le, some .utc, false⟩

theorem london_sorted (S : Lib.StableSort (DatedPublicKey Unit)) :
    (new london S [londonA, londonC, londonB]).keys = [londonA, londonC, londonB] := by
  refine new_of_sorted (orders_of_zone (.region ()) ?_) ?_
  · simp [londonA, londonB, londonC]
  · simp [before, Tzdata.lt, londonA, londonB, londonC, atMinute, microsPerMinute,
      microsPerSecond]

/-- The keys `B`, `A` and `C` in UTC, the last two from one start. -/
def utcB : DatedPublicKey Unit := ⟨.ofUtc (atMinute 3060090 minute3060090_le), "B", strip_B⟩

def utcA : DatedPublicKey Unit := ⟨.ofUtc (atMinute 3060070 minute3060070_le), "A", strip_A⟩

def utcC : DatedPublicKey Unit := ⟨.ofUtc (atMinute 3060070 minute3060070_le), "C", strip_C⟩

/-- Starts in UTC are compared by their moments, with each other and with any date. -/
theorem dateAgrees_of_utc (h : ∀ key ∈ keys, key.startsAt.zone = .utc) (date : Aware ζ) :
    DateAgrees T keys date where
  notEarly k hk hle := by
    rw [T.le_eq_not_lt, Bool.not_eq_true', ← Bool.not_eq_true, (T.lt_fixed (h k hk)).1] at hle
    exact Int.not_lt.mp hle
  reached k hk hle := by
    refine ⟨k, hk, Int.le_refl _, ?_⟩
    rw [T.le_eq_not_lt, Bool.not_eq_true', ← Bool.not_eq_true, (T.lt_fixed (h k hk)).1]
    exact Int.not_lt.mpr hle

/-- **When the periods tile time.** At every date that is read as its moment they do, whatever
the sort, where the comparisons of the starts say what those of their moments do. And keys of
which none is supplied twice are only sure to at every date, whatever a stable sort may make of
keys that the comparisons do not order, where the comparisons of the starts do say that and
every date is read as its moment. -/
theorem keyInForce_tiles_iff (T : Tzdata ζ) (keys : List (DatedPublicKey ζ)) :
    (StartsAgree T keys → ∀ S date, DateAgrees T keys date.aware → Tiles T S keys date) ∧
      (keys.Nodup → ((∀ S date, Tiles T S keys date) ↔
        StartsAgree T keys ∧ ∀ date : PyDateTime ζ, DateAgrees T keys date.aware)) := by
  refine ⟨fun hagree S date hreads => hagree.tiles S hreads, fun hnodup => ⟨fun hall => ?_, ?_⟩⟩
  · have horders := orders_of_tiles hall
    have hmerge := hall (.merge _)
    have hagree : StartsAgree T keys := fun a ha b hb => ⟨
      ⟨start_lt_of_before hmerge horders ha hb, before_of_start_lt hmerge horders ha hb⟩,
      ⟨start_lt_of_before hmerge horders hb ha, before_of_start_lt hmerge horders hb ha⟩,
      ⟨fun heq => ?_, eq_of_start_eq hmerge horders hnodup ha hb⟩⟩
    · exact ⟨hagree, fun date => (hmerge date).dateAgrees hagree⟩
    · -- equal starts are not before each other, so neither are their moments
      have hab := T.lt_of_eq heq
      have hba := T.lt_of_eq (T.eq_symm a.startsAt b.startsAt ▸ heq)
      refine Int.le_antisymm (Int.not_lt.mp fun hlt => ?_) (Int.not_lt.mp fun hlt => ?_)
      · exact absurd (before_of_start_lt hmerge horders hb ha hlt) (by simp [before, hba])
      · exact absurd (before_of_start_lt hmerge horders ha hb hlt) (by simp [before, hab])
  · rintro ⟨hagree, hreads⟩ S date
    exact hagree.tiles S (hreads date)

/-- **At 00:45 in UTC on the day the clock is put back** the key found is the one from 00:30. It
is the key in force, but the key from 00:10 was supplied first with its start, has started, and
its next start is taken to be 01:20, which is still to come: two periods hold the moment. -/
theorem keyInForce_tiles_london :
    SuppliedFirst london [londonA, londonC, londonB] londonA ∧
      london.le londonA.startsAt quarterToOne.aware = true ∧
      london.lt quarterToOne.aware londonC.startsAt = true ∧ ∀ S,
      (new london S [londonA, londonC, londonB]).keyInForce london (some quarterToOne) =
          some londonB ∧
        (new london S [londonA, londonC, londonB]).nextStartAfter london londonA =
          some londonC.startsAt ∧
        ¬ Tiles london S [londonA, londonC, londonB] quarterToOne := by
  have hfirst : SuppliedFirst london [londonA, londonC, londonB] londonA := by
    rw [SuppliedFirst]
    decide
  refine ⟨hfirst, by decide, by decide, fun S => ?_⟩
  have hforce : (new london S [londonA, londonC, londonB]).keyInForce london
      (some quarterToOne) = some londonB := by
    rw [PublicKeySchedule.keyInForce, london_sorted]
    decide
  have hnext : (new london S [londonA, londonC, londonB]).nextStartAfter london londonA =
      some londonC.startsAt := by
    rw [PublicKeySchedule.nextStartAfter, london_sorted]
    decide
  refine ⟨hforce, hnext, fun htiles => ?_⟩
  have hperiod : InPeriod london (new london S [londonA, londonC, londonB]) londonA
      (london.moment quarterToOne.aware) := ⟨by decide, Or.inr ⟨_, hnext, by decide⟩⟩
  have hother := (htiles.period_iff londonA).mpr ⟨hfirst, hperiod⟩
  rw [hforce] at hother
  exact absurd hother (by decide)

/-- The two keys of the summer hour tile time, in whichever order they are supplied, and so do
keys in UTC of which two share a start, at every date. -/
theorem keyInForce_tiles_apart :
    (∀ S, Tiles london S [londonB, londonA] quarterToOne) ∧
      ∀ S date, Tiles london S [utcB, utcA, utcC] date := by
  constructor
  · intro S
    refine (keyInForce_tiles_iff london [londonB, londonA]).1 ?_ S quarterToOne
      (.of_fixed rfl)
    exact startsAgree_of_offset (.region ()) microsPerHour (by decide)
  · refine ((keyInForce_tiles_iff london [utcB, utcA, utcC]).2 (by decide)).mpr ⟨?_, fun date => ?_⟩
    · have hutc : ∀ key ∈ [utcB, utcA, utcC], key.startsAt.zone = .utc := by decide
      exact .of_fixed fun key hkey => ⟨0, hutc key hkey⟩
    · exact dateAgrees_of_utc (by decide) date.aware

end PublicKeySchedule

end Zoned

end OpenWebId
