import OpenWebId.DateTime

/-!
# Datetimes in a zone

A `datetime` with a `tzinfo` is what the clock shows in its zone. The moment it names is that
clock less the zone's offset from UTC, and a zone that puts its clock back shows some hours
twice: the `fold` says which of the two is meant.

Python compares two datetimes of different zones by their moments, but two that share a
`tzinfo` by their clocks alone, whatever their folds. And it never says that two datetimes of
different zones are equal where the offset of one depends on its fold. Within UTC, or any zone
whose offset never changes, both come to the moments (`Tzdata.le_fixed`); where they do not is
what `Agree` leaves out.
-/

namespace OpenWebId

/-- A `tzinfo`: an offset from UTC that never changes, in microseconds, or a region. -/
inductive Zone (ζ : Type)
  | fixed (offset : Int)
  | region (name : ζ)
  deriving DecidableEq

/-- `timezone.utc`. -/
def Zone.utc {ζ : Type} : Zone ζ := .fixed 0

/-- A `datetime` as a caller hands it over: the clock as if it were in UTC. -/
structure PyDateTime (ζ : Type) where
  clock : DateTime
  tzinfo : Option (Zone ζ)
  fold : Bool
  deriving DecidableEq

/-- A `datetime` with a zone. -/
structure Aware (ζ : Type) where
  clock : DateTime
  zone : Zone ζ
  fold : Bool
  deriving DecidableEq

/-- `_aware`: a naive `datetime` is read as UTC. -/
def PyDateTime.aware {ζ : Type} (d : PyDateTime ζ) : Aware ζ :=
  ⟨d.clock, d.tzinfo.getD .utc, d.fold⟩

/-- A `datetime` with a zone, as a caller hands it over. -/
def Aware.datetime {ζ : Type} (a : Aware ζ) : PyDateTime ζ := ⟨a.clock, some a.zone, a.fold⟩

/-- A moment in UTC. -/
def Aware.ofUtc {ζ : Type} (d : DateTime) : Aware ζ := ⟨d, .utc, false⟩

/-- `utcoffset` of the regions, in microseconds, at a clock and a fold. -/
structure Tzdata (ζ : Type) where
  utcoffset : ζ → DateTime → Bool → Int

namespace Tzdata

variable {ζ : Type} (T : Tzdata ζ)

/-- `datetime.utcoffset`. -/
def offset (a : Aware ζ) : Int :=
  match a.zone with
  | .fixed offset => offset
  | .region name => T.utcoffset name a.clock a.fold

/-- The moment a `datetime` names, in microseconds after `BASE_DATE`. -/
def moment (a : Aware ζ) : Int := a.clock.micros - T.offset a

/-- The offset depends on the fold: the clock shows a repeated or a skipped hour. -/
def folded (a : Aware ζ) : Bool := decide (T.offset { a with fold := !a.fold } ≠ T.offset a)

/-- `moment.astimezone(timezone.utc)`. -/
def astimezone (a : Aware ζ) : Except PyExc DateTime := DateTime.ofMicros (T.moment a)

/-- The moment in UTC, at the nearest that a `datetime` can hold. -/
def utc (a : Aware ζ) : DateTime where
  micros := max minMoment (min (T.moment a) maxMoment)
  inRange := ⟨le_max_left _ _, max_le (by decide) (min_le_right _ _)⟩

theorem utc_micros {a : Aware ζ} (h : minMoment ≤ T.moment a ∧ T.moment a ≤ maxMoment) :
    (T.utc a).micros = T.moment a := by
  simp only [utc, min_eq_left h.2, max_eq_right h.1]

theorem astimezone_eq {a : Aware ζ} (h : minMoment ≤ T.moment a ∧ T.moment a ≤ maxMoment) :
    T.astimezone a = .ok (T.utc a) := by
  have hmicros := T.utc_micros h
  rw [astimezone, DateTime.ofMicros, dif_pos h]
  exact congrArg Except.ok (DateTime.ext hmicros.symm)

/-- The same moment on the same clock, in a zone whose offset never changes. -/
def pinned (a : Aware ζ) : Aware ζ := ⟨a.clock, .fixed (T.offset a), false⟩

@[simp] theorem moment_ofUtc (d : DateTime) : T.moment (.ofUtc d) = d.micros := by
  simp [moment, offset, Aware.ofUtc, Zone.utc]

/-- Two of one zone whose offset never changes differ as their clocks do. -/
theorem moment_fixed {a b : Aware ζ} {offset : Int} (hb : b.zone = .fixed offset)
    (hzone : a.zone = b.zone) : T.moment a - T.moment b = a.clock.micros - b.clock.micros := by
  simp only [moment, Tzdata.offset, hzone, hb]
  omega

/-- Of two that share a zone and a clock the offset is one where it does not depend on the
fold. -/
theorem moment_of_not_folded {a b : Aware ζ} (hzone : a.zone = b.zone)
    (hclock : a.clock.micros = b.clock.micros) (h : T.folded b = false) :
    T.moment a = T.moment b ∧ T.folded a = false := by
  obtain ⟨clock, zone, fold⟩ := a
  obtain ⟨clock', zone', fold'⟩ := b
  cases DateTime.ext hclock
  cases hzone
  simp only [folded, decide_not, Bool.not_eq_eq_eq_not, Bool.not_false, decide_eq_true_eq,
    moment] at h ⊢
  cases fold <;> cases fold' <;> simp_all [offset]

/-! ## The comparisons -/

variable [DecidableEq ζ]

/-- `a < b`. -/
def lt (a b : Aware ζ) : Bool :=
  if a.zone = b.zone then decide (a.clock.micros < b.clock.micros)
  else decide (T.moment a < T.moment b)

/-- `a <= b`. -/
def le (a b : Aware ζ) : Bool :=
  if a.zone = b.zone then decide (a.clock.micros ≤ b.clock.micros)
  else decide (T.moment a ≤ T.moment b)

/-- `a == b`. -/
def eq (a b : Aware ζ) : Bool :=
  if a.zone = b.zone then decide (a.clock.micros = b.clock.micros)
  else decide (T.moment a = T.moment b) && !T.folded a && !T.folded b

theorem le_eq_not_lt (a b : Aware ζ) : T.le a b = !T.lt b a := by
  by_cases hzone : a.zone = b.zone
  · simp only [le, lt, if_pos hzone, if_pos hzone.symm, ← decide_not, Int.not_lt]
  · simp only [le, lt, if_neg hzone, if_neg (Ne.symm hzone), ← decide_not, Int.not_lt]

theorem lt_asymm {a b : Aware ζ} (h : T.lt a b = true) : T.lt b a = false := by
  by_cases hzone : a.zone = b.zone
  · simp only [lt, if_pos hzone, if_pos hzone.symm, decide_eq_true_eq, decide_eq_false_iff_not]
      at h ⊢
    omega
  · simp only [lt, if_neg hzone, if_neg (Ne.symm hzone), decide_eq_true_eq,
      decide_eq_false_iff_not] at h ⊢
    omega

theorem lt_irrefl (a : Aware ζ) : T.lt a a = false := by
  simp [lt]

theorem eq_symm (a b : Aware ζ) : T.eq a b = T.eq b a := by
  by_cases hzone : a.zone = b.zone
  · simp only [eq, if_pos hzone, if_pos hzone.symm]
    exact decide_eq_decide.mpr Eq.comm
  · simp only [eq, if_neg hzone, if_neg (Ne.symm hzone), Bool.and_assoc,
      Bool.and_comm (!T.folded a)]
    congr 1
    exact decide_eq_decide.mpr Eq.comm

/-- What is equal is not less. -/
theorem lt_of_eq {a b : Aware ζ} (h : T.eq a b = true) : T.lt a b = false := by
  by_cases hzone : a.zone = b.zone
  · simp only [eq, lt, if_pos hzone, decide_eq_true_eq, decide_eq_false_iff_not] at h ⊢
    omega
  · simp only [eq, lt, if_neg hzone, Bool.and_eq_true, decide_eq_true_eq,
      decide_eq_false_iff_not] at h ⊢
    omega

/-- Equality carries over, where two of one zone and one moment show one clock. -/
theorem eq_trans {a b c : Aware ζ} (hab : T.eq a b = true) (hbc : T.eq b c = true)
    (hclock : a.zone = c.zone → T.moment a = T.moment c → a.clock.micros = c.clock.micros) :
    T.eq a c = true := by
  by_cases hzone : a.zone = b.zone
  · by_cases hzone' : b.zone = c.zone
    · simp only [eq, if_pos hzone, if_pos hzone', if_pos (hzone.trans hzone'),
        decide_eq_true_eq] at hab hbc ⊢
      exact hab.trans hbc
    · have hne : a.zone ≠ c.zone := fun h => hzone' (hzone.symm.trans h)
      simp only [eq, if_pos hzone, if_neg hzone', if_neg hne, Bool.and_eq_true,
        decide_eq_true_eq, Bool.not_eq_true'] at hab hbc ⊢
      obtain ⟨hmoment, hfolded⟩ := T.moment_of_not_folded hzone hab hbc.1.2
      exact ⟨⟨hmoment.trans hbc.1.1, hfolded⟩, hbc.2⟩
  · by_cases hzone' : b.zone = c.zone
    · have hne : a.zone ≠ c.zone := fun h => hzone (h.trans hzone'.symm)
      simp only [eq, if_neg hzone, if_pos hzone', if_neg hne, Bool.and_eq_true,
        decide_eq_true_eq, Bool.not_eq_true'] at hab hbc ⊢
      obtain ⟨hmoment, hfolded⟩ := T.moment_of_not_folded hzone'.symm hbc.symm hab.2
      exact ⟨⟨hab.1.1.trans hmoment.symm, hab.1.2⟩, hfolded⟩
    · simp only [eq, if_neg hzone, if_neg hzone', Bool.and_eq_true, decide_eq_true_eq,
        Bool.not_eq_true'] at hab hbc ⊢
      have hmoment := hab.1.1.trans hbc.1.1
      by_cases hzone'' : a.zone = c.zone
      · rw [if_pos hzone'', decide_eq_true_eq]
        exact hclock hzone'' hmoment
      · rw [if_neg hzone'']
        simp only [Bool.and_eq_true, decide_eq_true_eq, Bool.not_eq_true']
        exact ⟨⟨hmoment, hab.1.2⟩, hbc.2⟩

/-! ## The comparisons and the moments -/

variable {T} in
theorem lt_of_zone_ne {a b : Aware ζ} (h : a.zone ≠ b.zone) :
    T.lt a b = true ↔ T.moment a < T.moment b := by
  simp only [lt, if_neg h, decide_eq_true_eq]

/-- What is compared with a fixed zone is compared by its moment. -/
theorem lt_fixed {a b : Aware ζ} {offset : Int} (hb : b.zone = .fixed offset) :
    (T.lt a b = true ↔ T.moment a < T.moment b) ∧
      (T.lt b a = true ↔ T.moment b < T.moment a) := by
  by_cases hzone : a.zone = b.zone
  · have hdiff := T.moment_fixed hb hzone
    simp only [lt, if_pos hzone, if_pos hzone.symm, decide_eq_true_eq]
    omega
  · exact ⟨lt_of_zone_ne hzone, lt_of_zone_ne (Ne.symm hzone)⟩

theorem le_fixed {a b : Aware ζ} {offset : Int} (hb : b.zone = .fixed offset) :
    T.le a b = true ↔ T.moment a ≤ T.moment b := by
  rw [le_eq_not_lt, Bool.not_eq_true', ← Bool.not_eq_true, (T.lt_fixed hb).2, Int.not_lt]

theorem le_pinned {a b : Aware ζ} : T.le a (T.pinned b) = true ↔ T.moment a ≤ T.moment b :=
  T.le_fixed rfl

/-- The comparisons of the two say of them what those of their moments do. -/
structure Agree (a b : Aware ζ) : Prop where
  lt : T.lt a b = true ↔ T.moment a < T.moment b
  gt : T.lt b a = true ↔ T.moment b < T.moment a
  eq : T.eq a b = true ↔ T.moment a = T.moment b

/-- In zones whose offset never changes they do. -/
theorem agree_fixed {a b : Aware ζ} {offset offset' : Int} (ha : a.zone = .fixed offset)
    (hb : b.zone = .fixed offset') : T.Agree a b where
  lt := (T.lt_fixed hb).1
  gt := (T.lt_fixed hb).2
  eq := by
    by_cases hzone : a.zone = b.zone
    · have hdiff := T.moment_fixed hb hzone
      simp only [Tzdata.eq, if_pos hzone, decide_eq_true_eq]
      omega
    · have hfolded : ∀ {c : Aware ζ} {offset : Int}, c.zone = .fixed offset →
          T.folded c = false := by
        intro c offset hc
        simp [folded, Tzdata.offset, hc]
      simp [Tzdata.eq, hzone, hfolded ha, hfolded hb]

/-- And of two in one zone that are as far from UTC. -/
theorem agree_offset {a b : Aware ζ} (hzone : a.zone = b.zone) (hoffset : T.offset a = T.offset b) :
    T.Agree a b where
  lt := by
    simp only [Tzdata.lt, if_pos hzone, decide_eq_true_eq, moment, hoffset]
    omega
  gt := by
    simp only [Tzdata.lt, if_pos hzone.symm, decide_eq_true_eq, moment, hoffset]
    omega
  eq := by
    simp only [Tzdata.eq, if_pos hzone, decide_eq_true_eq, moment, hoffset]
    omega

end Tzdata

end OpenWebId
