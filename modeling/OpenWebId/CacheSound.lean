import OpenWebId.Cache
import OpenWebId.Lib.Transition

/-!
# What the cache serves is what the creator had in force

`Known` is what a cache says, with nothing of how it is stored: the minutes each PEM is
known to be in force at, for each end point. `known_record` is what recording can add
to it: a minute that becomes known lies between two minutes that were known already or
that the answer confirms. Whatever is true of keys in force on unbroken runs of minutes
therefore stays true of a cache that learns true things (`Sound.record`).

A creator's schedule is a function from minutes to PEMs, and `Answered` says what the
client may assume of an answer: which minute the creator read, what it stated of the
span, and how far the two clocks are apart. `confirmed_inForce` is the arithmetic of it:
every minute an answer confirms, in any of its three forms, is a minute of the run.
`heldFor_inForce` puts them together over every run.
-/

namespace OpenWebId

/-! ## Minutes between minutes -/

namespace Lib

/-- The elements between two elements of the set. -/
def between {α : Type} [Preorder α] (s : Set α) : Set α :=
  {m | ∃ a ∈ s, ∃ b ∈ s, a ≤ m ∧ m ≤ b}

theorem between_subset {α : Type} [Preorder α] {s t : Set α} (hs : s ⊆ t)
    (ht : t.OrdConnected) : between s ⊆ t := by
  intro m hm
  obtain ⟨a, ha, b, hb, ham, hmb⟩ := hm
  exact ht.out (hs ha) (hs hb) ⟨ham, hmb⟩

end Lib

namespace Fetch

open Lib (Reaches between)

/-- The minutes a cache knows a PEM to be in force at, for an end point. -/
def Known (cache : Cache) (endPoint pem : String) : Set Int :=
  {m | ∃ key ∈ cache.keysOf endPoint, key.pem = pem ∧ key.first ≤ m ∧ m ≤ key.last}

theorem known_empty (endPoint pem : String) : Known Cache.empty endPoint pem = ∅ := by
  ext m
  refine ⟨?_, False.elim⟩
  intro hm
  obtain ⟨key, hkey, -⟩ := hm
  rw [Cache.keysOf_empty] at hkey
  cases hkey

/-- **What recording adds.** A minute that is known after a key was recorded was known
before, or lies between minutes that were known and minutes of the key's span. -/
theorem known_record (cache : Cache) (endPoint : String) (new : HeldKey) {other pem : String}
    {m : Int} (h : m ∈ Known (record cache endPoint new) other pem) :
    m ∈ Known cache other pem ∨
      (other = endPoint ∧ pem = new.pem ∧
        m ∈ between (Known cache other pem ∪ Set.Icc new.first new.last)) := by
  obtain ⟨key, hkey, hpem, hfirst, hlast⟩ := h
  have hnew : ∀ n, new.first ≤ n → n ≤ new.last →
      n ∈ Known cache other pem ∪ Set.Icc new.first new.last :=
    fun n hn hn' => Or.inr ⟨hn, hn'⟩
  rcases mem_keysOf_recorded (record_recorded cache endPoint new) hkey with
    hold | ⟨rfl, rfl | ⟨old, hold, hopem, others, wider, hwiden, rfl⟩⟩
  · exact Or.inl ⟨key, hold, hpem, hfirst, hlast⟩
  · have hm := hnew m hfirst hlast
    exact Or.inr ⟨rfl, hpem.symm, m, hm, m, hm, Int.le_refl _, Int.le_refl _⟩
  · -- the widened key: its ends are ends of the old span or of the new one
    obtain ⟨hwpem, hwfirst, hwlast, -⟩ := widen_some hwiden
    have hpem' : pem = new.pem := hpem.symm.trans (hwpem.trans hopem)
    have hold' : ∀ n, old.first ≤ n → n ≤ old.last →
        n ∈ Known cache other pem ∪ Set.Icc new.first new.last :=
      fun n hn hn' => Or.inl ⟨old, hold, hopem.trans hpem'.symm, hn, hn'⟩
    refine Or.inr ⟨rfl, hpem', wider.first, ?_, wider.last, ?_, hfirst, hlast⟩
    · rw [hwfirst]
      rcases Int.le_total new.first old.first with hle | hle
      · rw [Int.min_eq_left hle]
        exact hnew _ (Int.le_refl _) new.ordered
      · rw [Int.min_eq_right hle]
        exact hold' _ (Int.le_refl _) old.ordered
    · rw [hwlast]
      rcases Int.le_total new.last old.last with hle | hle
      · rw [Int.max_eq_right hle]
        exact hold' _ old.ordered (Int.le_refl _)
      · rw [Int.max_eq_left hle]
        exact hnew _ new.ordered (Int.le_refl _)

/-! ## Soundness -/

/-- Everything the cache knows is true: each minute known for a PEM is one at which the
PEM is in force. -/
def Sound (InForce : String → Int → String → Prop) (cache : Cache) : Prop :=
  ∀ endPoint pem m, m ∈ Known cache endPoint pem → InForce endPoint m pem

section Sound

variable {InForce : String → Int → String → Prop}

theorem Sound.empty : Sound InForce Cache.empty := by
  intro endPoint pem m hm
  rw [known_empty] at hm
  exact hm.elim

/-- Recording a true span keeps the cache true, where each PEM is in force on one
unbroken run of minutes. -/
theorem Sound.record {cache : Cache} {endPoint : String} {new : HeldKey}
    (hrun : ∀ e p, {m | InForce e m p}.OrdConnected) (h : Sound InForce cache)
    (hnew : ∀ m, new.first ≤ m → m ≤ new.last → InForce endPoint m new.pem) :
    Sound InForce (record cache endPoint new) := by
  intro other pem m hm
  rcases known_record cache endPoint new hm with hold | ⟨hother, hpem, hbetween⟩
  · exact h other pem m hold
  · subst hother hpem
    refine Lib.between_subset ?_ (hrun other new.pem) hbetween
    intro n hn
    rcases hn with hold | hspan
    · exact h other new.pem n hold
    · exact hnew n hspan.1 hspan.2

/-- What is served was known for the minute asked about. -/
theorem heldFor_known {cache : Cache} {now : DateTime} {endPoint url : String}
    {answer : KeyAnswer} (h : heldFor cache now endPoint url = some answer) :
    ∃ minute key, namedMinute url = some minute ∧ key ∈ cache.keysOf endPoint ∧
      key.first ≤ minute ∧ minute ≤ key.last ∧ answer = statedFor key ∧
      (key.explicit = true ∨
        minute ≤ minutesSinceBase now - clockDriftAllowanceMinutes) := by
  unfold heldFor at h
  cases hminute : namedMinute url with
  | none =>
    rw [minuteAndRecency, hminute] at h
    cases h
  | some minute =>
    rw [minuteAndRecency_some hminute] at h
    obtain ⟨key, hkey, hanswer⟩ := Option.map_eq_some_iff.mp h
    have hcovers := List.find?_some hkey
    rw [Bool.and_eq_true, Bool.or_eq_true] at hcovers
    obtain ⟨hfirst, hlast⟩ := of_decide_eq_true hcovers.1
    refine ⟨minute, key, rfl, List.mem_of_find?_eq_some hkey, hfirst, hlast, hanswer.symm, ?_⟩
    refine hcovers.2.imp id ?_
    intro hrecent
    rw [Bool.not_eq_true', decide_eq_false_iff_not] at hrecent
    exact Int.not_lt.mp hrecent

@[simp] theorem statedFor_pem (key : HeldKey) : (statedFor key).pem = key.pem := by
  unfold statedFor
  split
  · rfl
  · split <;> rfl

/-- A sound cache serves a key that is in force at the minute asked about. -/
theorem Sound.heldFor {cache : Cache} (h : Sound InForce cache) {now : DateTime}
    {endPoint url : String} {minute : Int} {answer : KeyAnswer}
    (hminute : namedMinute url = some minute)
    (hheld : heldFor cache now endPoint url = some answer) :
    InForce endPoint minute answer.pem := by
  obtain ⟨minute', key, hminute', hkey, hfirst, hlast, hanswer, -⟩ := heldFor_known hheld
  rw [hminute] at hminute'
  rw [Option.some.inj hminute', hanswer, statedFor_pem]
  exact h endPoint key.pem minute' ⟨key, hkey, rfl, hfirst, hlast⟩

end Sound

/-! ## What a creator answers -/

/-- The minute a creator reads: the one asked about, unless that is later than its own
now or there is none. -/
def minuteRead (url : String) (creatorNow : Int) : Int :=
  match namedMinute url with
  | some minute => min minute creatorNow
  | none => creatorNow

/-- What a creator with the schedule `F` states of the span of the key at a minute: the
first minute of its run and of the next one, the first minute alone where the key is
still in force at its own now, or nothing. -/
inductive States (F : Int → String) (creatorNow minute : Int) : Option Int → Option Int → Prop
  | span {start stop : Int} (hstart : IsLeast {n | F n = F minute} start)
      (hstop : IsLeast {n | minute < n ∧ F n ≠ F minute} stop) :
      States F creatorNow minute (some start) (some stop)
  | start {start : Int} (hstart : IsLeast {n | F n = F minute} start)
      (hnow : F creatorNow = F minute) : States F creatorNow minute (some start) none
  | nothing : States F creatorNow minute none none

/-- The answer to a URL that is held: the creator's, at a now that the client's is at
most the drift allowance past. -/
structure Answered (F : Int → String) (now later : DateTime) (url pem : String)
    (start stop : Option Int) (creatorNow : Int) : Prop where
  clock : now ≤ later
  drift : minutesSinceBase later ≤ creatorNow + clockDriftAllowanceMinutes
  served : pem = F (minuteRead url creatorNow)
  states : States F creatorNow (minuteRead url creatorNow) start stop

/-- **Every minute an answer confirms is a minute of its key's run.** -/
theorem confirmed_inForce {F : Int → String} (hrun : ∀ p, {m | F m = p}.OrdConnected)
    {now later : DateTime} {url pem : String} {start stop : Option Int} {creatorNow : Int}
    (h : Answered F now later url pem start stop creatorNow) {new : HeldKey}
    (hnew : confirmed now later url pem start stop = some new) :
    new.pem = pem ∧ ∀ m, new.first ≤ m → m ≤ new.last → F m = pem := by
  obtain ⟨hclock, hdrift, hserved, hstates⟩ := h
  generalize hread : minuteRead url creatorNow = minute at hserved hstates
  have hminute : F minute = pem := hserved.symm
  cases hstates with
  | @span start stop hstart hstop =>
    have hle : start ≤ minute := hstart.2 rfl
    have hlt : minute < stop := hstop.1.1
    have hne : stop > start := Int.lt_of_le_of_lt hle hlt
    simp only [confirmed, dif_pos hne] at hnew
    cases hnew
    refine ⟨rfl, ?_⟩
    intro m hfirst hlast
    by_cases hm : m ≤ minute
    · exact ((hrun (F minute)).out hstart.1 rfl ⟨hfirst, hm⟩).trans hminute
    · -- past the minute read, a minute of another key would be the next run's
      by_cases hsame : F m = F minute
      · exact hsame.trans hminute
      · have hnext : stop ≤ m := hstop.2 ⟨Int.not_le.mp hm, hsame⟩
        simp only at hlast
        omega
  | @start start hstart hnow =>
    simp only [confirmed] at hnew
    cases hnew
    refine ⟨rfl, ?_⟩
    intro m hfirst hlast
    have hend : F (max start creatorNow) = F minute := by
      rcases Int.le_total start creatorNow with hle | hle
      · rw [Int.max_eq_right hle]
        exact hnow
      · rw [Int.max_eq_left hle]
        exact hstart.1
    have hbound : m ≤ max start creatorNow := by
      simp only [clockDriftAllowanceMinutes] at hdrift hlast
      omega
    exact ((hrun (F minute)).out hstart.1 hend ⟨hfirst, hbound⟩).trans hminute
  | nothing =>
    simp only [confirmed] at hnew
    cases hnamed : namedMinute url with
    | none =>
      rw [minuteAndRecency, hnamed] at hnew
      cases hnew
    | some asked =>
      rw [minuteAndRecency_some hnamed] at hnew
      by_cases hrecent : asked > minutesSinceBase now - clockDriftAllowanceMinutes
      · rw [decide_eq_true hrecent] at hnew
        cases hnew
      · rw [decide_eq_false hrecent] at hnew
        cases hnew
        refine ⟨rfl, ?_⟩
        intro m hfirst hlast
        -- the minute is far enough behind that the creator read it as it was asked
        have hnows := minutesSinceBase_mono hclock
        have hasked : minuteRead url creatorNow = asked := by
          rw [minuteRead, hnamed]
          refine Int.min_eq_left ?_
          omega
        have hm : m = asked := Int.le_antisymm hlast hfirst
        rw [hm, ← hasked, hread]
        exact hminute

/-! ## Every run -/

/-- What happens to the cache: an answer is held, or the cache is cleared. A request
reads the cache and leaves it as it is. -/
inductive CacheEvent
  | hold (now later : DateTime) (endPoint url pem : String) (start stop : Option Int)
  | clearCache

def cacheStep (cache : Cache) : CacheEvent → Option Cache
  | .hold now later endPoint url pem start stop =>
    some (hold cache now later endPoint url pem start stop).2
  | .clearCache => some .empty

/-- The answers that are held are the answers of the end points' creators. -/
def Truthful (F : String → Int → String) (_ : Cache) : CacheEvent → Prop
  | .hold now later endPoint url pem start stop =>
    ∃ creatorNow, Answered (F endPoint) now later url pem start stop creatorNow
  | .clearCache => True

/-- One event keeps the cache sound. -/
theorem cacheStep_sound {F : String → Int → String}
    (hrun : ∀ e p, {m | F e m = p}.OrdConnected) {cache cache' : Cache} {event : CacheEvent}
    (h : Sound (fun e m p => F e m = p) cache) (hok : Truthful F cache event)
    (hstep : cacheStep cache event = some cache') : Sound (fun e m p => F e m = p) cache' := by
  cases event with
  | clearCache =>
    cases hstep
    exact Sound.empty
  | hold now later endPoint url pem start stop =>
    cases hstep
    obtain ⟨creatorNow, hanswer⟩ := hok
    rw [hold_eq]
    simp only
    split
    next => exact h
    next new hnew =>
      obtain ⟨hpem, hspan⟩ := confirmed_inForce (hrun endPoint) hanswer hnew
      refine Sound.record hrun h ?_
      intro m hfirst hlast
      rw [hpem]
      exact hspan m hfirst hlast

/-- **Cache soundness.** Whatever answers of its creators a cache held, in whatever
order and however often it was emptied, the key it serves for an end point and a minute
is the key in force there at that minute. -/
theorem heldFor_inForce (F : String → Int → String)
    (hrun : ∀ e p, {m | F e m = p}.OrdConnected) {cache : Cache}
    (hreach : Reaches cacheStep (Truthful F) Cache.empty cache) {now : DateTime}
    {endPoint url : String} {minute : Int} {answer : KeyAnswer}
    (hminute : namedMinute url = some minute)
    (hheld : heldFor cache now endPoint url = some answer) : answer.pem = F endPoint minute := by
  have hsound : Sound (fun e m p => F e m = p) cache :=
    hreach.invariant Sound.empty fun _ _ _ h hok hstep => cacheStep_sound hrun h hok hstep
  exact (hsound.heldFor hminute hheld).symm

/-- A schedule of two keys, the second in force from minute 100 on. -/
def twoKeys (_ : String) (minute : Int) : String := if minute < 100 then "A" else "B"

theorem twoKeys_run (endPoint pem : String) : {m | twoKeys endPoint m = pem}.OrdConnected := by
  refine ⟨fun a ha b hb m hm => ?_⟩
  obtain ⟨ham, hmb⟩ := hm
  change twoKeys endPoint a = pem at ha
  change twoKeys endPoint b = pem at hb
  show twoKeys endPoint m = pem
  unfold twoKeys at ha hb ⊢
  by_cases hb' : b < 100
  · rw [if_pos hb'] at hb
    rw [if_pos (by omega)]
    exact hb
  · rw [if_neg hb'] at hb
    by_cases hm' : m < 100
    · rw [if_pos (by omega)] at ha
      rw [if_pos hm']
      exact ha
    · rw [if_neg hm']
      exact hb

theorem heldFor_inForce_twoKeys :
    ∃ cache answer, heldFor cache (atMinute 200 (by decide)) "e" (dateUrl "e" 10) = some answer ∧
      answer.pem = twoKeys "e" 10 := by
  have hnamed : namedMinute (dateUrl "e" 10) = some 10 :=
    namedMinute_dateUrl (by decide) (by decide)
  let now := atMinute 200 (by decide)
  let new : HeldKey := ⟨"A", 10, 10, false, false, Int.le_refl _⟩
  have hrecent : minuteAndRecency (dateUrl "e" 10) now = (some 10, false) := by
    rw [minuteAndRecency_some hnamed, minutesSinceBase_atMinute]
    rfl
  have hhold : (hold Cache.empty now now "e" (dateUrl "e" 10) "A" none none).2 =
      ⟨AList.insert "e" [new] ∅, 1⟩ := by
    simp only [hold_eq, confirmed, hrecent]
    rfl
  have hanswered : Answered (twoKeys "e") now now (dateUrl "e" 10) "A" none none 190 := by
    have hread : minuteRead (dateUrl "e" 10) 190 = 10 := by
      rw [minuteRead, hnamed]
      rfl
    refine ⟨Int.le_refl _, ?_, ?_, .nothing⟩
    · rw [minutesSinceBase_atMinute]
      decide
    · rw [hread]
      rfl
  have hreach : Reaches cacheStep (Truthful twoKeys) Cache.empty ⟨AList.insert "e" [new] ∅, 1⟩ :=
    .next (.hold now now "e" (dateUrl "e" 10) "A" none none) .start ⟨190, hanswered⟩
      (congrArg some hhold)
  have hheld : heldFor ⟨AList.insert "e" [new] ∅, 1⟩ now "e" (dateUrl "e" 10) =
      some ⟨"A", 0, 0, false⟩ := by
    simp only [heldFor, hrecent]
    rfl
  exact ⟨_, _, hheld, heldFor_inForce twoKeys twoKeys_run hreach hnamed hheld⟩

end Fetch

end OpenWebId
