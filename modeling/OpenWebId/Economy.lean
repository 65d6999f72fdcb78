import OpenWebId.CacheStable
import OpenWebId.Verdicts

/-!
# One request for a key

A creator that states its spans is asked once for each of its keys. Its answers agree with each
other, so no key held is in the way of one it answers with (`TrueToAll.free`) and the span it
states is held from the first answer on (`TrueToAll.holds`). From then on every call for one of
its minutes is answered from the cache, and no request is led for it (`oneRequest_of_reaches`),
until the cache is cleared or emptied for being full.

`Holds` is what an answer leaves, `Sparing` the steps that leave it alone, and `Leads` the
inversion of a request being led.
-/

namespace OpenWebId

namespace Fetch

open Lib (Reaches run)

variable {σ κ : Type}

/-! ## What an answer leaves -/

/-- A key is held under the PEM that has the span confirmed, stated whole where that is. -/
def Holds (cache : Cache) (endPoint : String) (new : HeldKey) : Prop :=
  ∃ key ∈ cache.keysOf endPoint, key.pem = new.pem ∧ new.span ⊆ key.span ∧
    (new.explicit = true → key.explicit = true)

/-- Recording a key with nothing in its way leaves it held. -/
theorem WellFormed.holds {maximum : Nat} {cache : Cache} (h : WellFormed maximum cache)
    {endPoint : String} {new : HeldKey} (hfree : cache.Free endPoint new) :
    Holds (recordWithin maximum cache endPoint new) endPoint new := by
  obtain ⟨key, hkey, ⟨-, rfl⟩ | ⟨old, others, wider, hunder, hwiden, rfl⟩⟩ :=
    h.recorded_of_free hfree
  · exact ⟨key, hkey, rfl, subset_rfl, id⟩
  · obtain ⟨hpem, hfirst, hlast, -⟩ := widen_some hwiden
    refine ⟨wider.restate new, hkey, hpem.trans (heldUnder_mem hunder).2, ?_, ?_⟩
    · rw [HeldKey.restate_span, HeldKey.span, HeldKey.span, hfirst, hlast]
      exact Set.Icc_subset_Icc (min_le_left ..) (le_max_left ..)
    · intro hwhole
      show (wider.explicit || new.explicit) = true
      rw [hwhole, Bool.or_true]

/-- A cache that keeps what is held goes on holding it. -/
theorem Holds.keeps {cache cache' : Cache} {endPoint : String} {new : HeldKey}
    (h : Holds cache endPoint new) (hkeeps : Keeps cache cache') : Holds cache' endPoint new := by
  obtain ⟨key, hkey, hpem, hspan, hexplicit⟩ := h
  obtain ⟨key', hkey', hpem', hspan', hexplicit'⟩ := hkeeps endPoint key hkey
  exact ⟨key', hkey', hpem'.trans hpem, hspan.trans hspan', hexplicit' ∘ hexplicit⟩

/-- A minute of a span that is held is served with its key, at a moment of the clock at which
it may be. -/
theorem Holds.heldFor {maximum : Nat} {cache : Cache} (hwell : WellFormed maximum cache)
    {endPoint : String} {new : HeldKey} (h : Holds cache endPoint new) {minute : Int}
    (hminute : minute ∈ new.span) {now : DateTime}
    (hmay : new.explicit = true ∨ minute ≤ minutesSinceBase now - clockDriftAllowanceMinutes)
    {url : String} (hnamed : namedMinute url = some minute) :
    ∃ answer, heldFor cache now endPoint url = some answer ∧ answer.pem = new.pem := by
  obtain ⟨key, hkey, hpem, hspan, hexplicit⟩ := h
  have hserves : Serves cache now endPoint new.pem minute :=
    ⟨key, hkey, hpem, hspan hminute, hmay.imp_left hexplicit⟩
  exact hserves.heldFor hwell hnamed

/-- No key held is in the way of one that is in force for the whole of its span. -/
theorem TrueToAll.free {pub : String → Option PublicKeySchedule} {cache : Cache}
    (h : TrueToAll pub cache) {endPoint : String} {schedule : PublicKeySchedule}
    (hschedule : pub endPoint = some schedule) (hreturn : NoReturn schedule) {new : HeldKey}
    (hnew : ∀ m ∈ new.span, InForceAt schedule m new.pem) : cache.Free endPoint new := by
  have hknown : ∀ key ∈ cache.keysOf endPoint, ∀ m ∈ key.span,
      InForceAt schedule m key.pem :=
    fun key hkey m hm => h endPoint key.pem m ⟨key, hkey, rfl, hm.1, hm.2⟩ schedule hschedule
  -- the key is in force at both ends of the span it would have, and so at all of it
  have hends : InForceAt schedule (cache.joined endPoint new).1 new.pem ∧
      InForceAt schedule (cache.joined endPoint new).2 new.pem := by
    have hfirst := hnew new.first ⟨Int.le_refl _, new.ordered⟩
    have hlast := hnew new.last ⟨new.ordered, Int.le_refl _⟩
    cases hunder : cache.heldUnder endPoint new.pem with
    | none =>
      rw [Cache.joined, hunder]
      exact ⟨hfirst, hlast⟩
    | some key =>
      obtain ⟨hkey, hpem⟩ := heldUnder_mem hunder
      have hfirst' := hknown key hkey key.first ⟨Int.le_refl _, key.ordered⟩
      have hlast' := hknown key hkey key.last ⟨key.ordered, Int.le_refl _⟩
      rw [hpem] at hfirst' hlast'
      rw [joined_of_heldUnder hunder]
      constructor
      · rcases min_choice new.first key.first with hmin | hmin
        · rwa [hmin]
        · rwa [hmin]
      · rcases max_choice new.last key.last with hmax | hmax
        · rwa [hmax]
        · rwa [hmax]
  have hjoined := le_joined cache endPoint new
  intro other hother hne
  rw [overlaps, decide_eq_false_iff_not]
  intro hmeet
  obtain ⟨hafter, hbefore⟩ := hmeet
  have hordered := new.ordered
  have hother' := other.ordered
  have hshared : max other.first (cache.joined endPoint new).1 ∈ other.span :=
    ⟨le_max_left .., max_le hother' hafter⟩
  have hin := (inForceAt_run hreturn new.pem).out hends.1 hends.2
    (⟨le_max_right .., max_le hbefore (by omega)⟩ :
      max other.first (cache.joined endPoint new).1 ∈
        Set.Icc (cache.joined endPoint new).1 (cache.joined endPoint new).2)
  exact hne ((hknown other hother _ hshared).unique hin)

/-! ## Steps that leave it alone -/

/-- The moment of the clock a call reads. -/
def ProcessEvent.calledAt : ProcessEvent → Option DateTime
  | .world (.call _ _ _ now) | .check _ _ _ now | .resume _ now => some now
  | .world _ => none

/-- The cache is not cleared, and not emptied for being full, and calls read moments of the
clock that are allowed. -/
def Sparing (L : Stdlib) (P : Provider σ κ) (clock : DateTime → Prop) (p : Process)
    (event : ProcessEvent) : Prop :=
  (∀ now, event.calledAt = some now → clock now) ∧
  match event with
  | .world .clearCache => False
  | .world (.complete f turn) => ∀ x pem start stop, p.world.fetches[f]? = some x →
    fetch L P turn x.url x.domain = .ok (pem, start, stop) →
    Spares maximumCachedKeys p.world.cache
      (.hold turn.holdNow turn.holdLater (endPointOf x.url) x.url pem start stop)
  | _ => True

section Process

variable {L : Stdlib} {P : Provider σ κ}

/-- A step that spares the cache keeps what is held. -/
theorem Turned.keeps {clock : DateTime → Prop} {p p' : Process} {event : ProcessEvent}
    (hsparing : Sparing L P clock p event) (h : Turned L P p event p') :
    Keeps p.world.cache p'.world.cache := by
  rcases h.cache with hsame | ⟨rfl, -⟩ | ⟨f, turn, x, pem, start, stop, rfl, hx, hfetch, hheld⟩
  · rw [hsame]
    exact .refl _
  · exact hsparing.2.elim
  · rw [hheld]
    have hspares : Spares maximumCachedKeys p.world.cache
        (.hold turn.holdNow turn.holdLater (endPointOf x.url) x.url pem start stop) :=
      hsparing.2 x pem start stop hx hfetch
    exact .step hspares rfl

/-- The end of a request that was answered holds the answer. -/
theorem held_of_complete {p p' : Process} {f : Nat} {turn : Turn} {x : Fetching} {pem : String}
    {start stop : Option Int} (hx : p.world.fetches[f]? = some x)
    (hfetch : fetch L P turn x.url x.domain = .ok (pem, start, stop))
    (hstep : processStep L P p (.world (.complete f turn)) = some p') :
    p'.world.cache = (hold p.world.cache turn.holdNow turn.holdLater (endPointOf x.url) x.url pem
      start stop).2 := by
  cases processStep_turned hstep with
  | world hworld =>
    obtain ⟨w₁, hstepped, rfl⟩ := step_stepped hworld
    cases hstepped with
    | held hx' _ _ hfetch' =>
      cases hx.symm.trans hx'
      cases hfetch.symm.trans hfetch'
      rfl
    | failed hx' _ _ hfetch' =>
      cases hx.symm.trans hx'
      cases hfetch.symm.trans hfetch'

/-- The cache of a process has its shape. -/
theorem Turned.wellFormed {p p' : Process} {event : ProcessEvent}
    (hwell : WellFormed maximumCachedKeys p.world.cache) (h : Turned L P p event p') :
    WellFormed maximumCachedKeys p'.world.cache := by
  rcases h.cache with hsame | ⟨-, hcleared⟩ | ⟨f, turn, x, pem, start, stop, rfl, hx, hfetch, hheld⟩
  · rwa [hsame]
  · rw [hcleared]
    exact .empty _
  · rw [hheld]
    have hstep : cacheStepWithin maximumCachedKeys p.world.cache
        (.hold turn.holdNow turn.holdLater (endPointOf x.url) x.url pem start stop) =
        some (hold p.world.cache turn.holdNow turn.holdLater (endPointOf x.url) x.url pem start
          stop).2 := rfl
    exact hwell.step (by decide) hstep

theorem shaped_of_reaches {ok : Process → ProcessEvent → Prop} {p : Process}
    (h : Reaches (processStep L P) ok .start p) : WellFormed maximumCachedKeys p.world.cache :=
  h.invariant (I := fun p => WellFormed maximumCachedKeys p.world.cache) (.empty _)
    fun _ _ _ hwell _ hstep => (processStep_turned hstep).wellFormed hwell

/-! ## The requests that are led -/

/-- What a step does to a request keeps its URL, its domain and the time it was led at. -/
theorem Moved.kept {clock : Nat} {event : Event} {f : Nat} {x y : Fetching}
    (h : Moved clock event f x y) : y.url = x.url ∧ y.domain = x.domain ∧ y.ledAt = x.ledAt := by
  cases h <;> exact ⟨rfl, rfl, rfl⟩

/-- The event is a call for the URL and the domain, and finds nothing held for the URL. -/
def Leads (w : World) (url domain : String) (event : Event) : Prop :=
  ∃ loop now, event = .call loop url domain now ∧ heldFor w.cache now (endPointOf url) url = none

/-- A request that is there after a step was there before, or its call found nothing held. -/
theorem Stepped.leads {w w' : World} {event : Event} (h : Stepped L P w event w') {y : Fetching}
    (hy : y ∈ w'.fetches) :
    (∃ x ∈ w.fetches, y.url = x.url ∧ y.domain = x.domain ∧ y.ledAt = x.ledAt) ∨
      Leads w y.url y.domain event := by
  have hset : ∀ {f : Nat} {x z : Fetching}, w.fetches[f]? = some x → y ∈ w.fetches.set f z →
      z.url = x.url → z.domain = x.domain → z.ledAt = x.ledAt →
      ∃ x ∈ w.fetches, y.url = x.url ∧ y.domain = x.domain ∧ y.ledAt = x.ledAt := by
    intro f x z hx hmem hurl hdomain hled
    rcases List.mem_or_eq_of_mem_set hmem with hmem | rfl
    · exact ⟨y, hmem, rfl, rfl, rfl⟩
    · exact ⟨x, List.mem_of_getElem? hx, hurl, hdomain, hled⟩
  cases h with
  | led hidle hheld hentry =>
    rcases List.mem_append.mp hy with hmem | hnew
    · exact Or.inl ⟨y, hmem, rfl, rfl, rfl⟩
    · cases List.mem_singleton.mp hnew
      exact Or.inr ⟨_, _, rfl, hheld⟩
  | answered | joined | received | abandoned | cleared => exact Or.inl ⟨y, hy, rfl, rfl, rfl⟩
  | created hx | entered hx | skipped hx | held hx | failed hx | thrown hx | resolved hx =>
    exact Or.inl (hset hx hy rfl rfl rfl)
  | @shutdown loop hidle =>
    obtain ⟨x, hx, rfl⟩ := List.mem_map.mp hy
    exact Or.inl ⟨x, hx, (x.cancel_moved loop 0 0).kept⟩

/-- The same of a step of a process. -/
theorem Turned.leads {p p' : Process} {event : ProcessEvent} (h : Turned L P p event p')
    {y : Fetching} (hy : y ∈ p'.world.fetches) :
    (∃ x ∈ p.world.fetches, y.url = x.url ∧ y.ledAt = x.ledAt) ∨
      ∃ now, event.calledAt = some now ∧
        heldFor p.world.cache now (endPointOf y.url) y.url = none := by
  have hled : ∀ {e : Event} {w : World}, Fetch.step L P p.world e = some w → y ∈ w.fetches →
      (∃ x ∈ p.world.fetches, y.url = x.url ∧ y.ledAt = x.ledAt) ∨
        Leads p.world y.url y.domain e := by
    intro e w hstep hmem
    obtain ⟨w₁, hstepped, rfl⟩ := step_stepped hstep
    refine (hstepped.leads hmem).imp_left fun hbefore => ?_
    obtain ⟨x, hx, hurl, -, hled⟩ := hbefore
    exact ⟨x, hx, hurl, hled⟩
  cases h with
  | ended => exact Or.inl ⟨y, hy, rfl, rfl⟩
  | world hstep =>
    refine (hled hstep hy).imp_right fun hleads => ?_
    obtain ⟨loop, now, rfl, hheld⟩ := hleads
    exact ⟨now, rfl, hheld⟩
  | begun hstep | asked _ _ _ _ hstep =>
    refine (hled hstep hy).imp_right fun hleads => ?_
    obtain ⟨loop, now, hcall, hheld⟩ := hleads
    exact ⟨now, congrArg some (Event.call.inj hcall).2.2.2, hheld⟩

/-- From a time on: the span is held, and nothing has been asked for the URL. -/
structure Economical (endPoint : String) (new : HeldKey) (url : String) (since : Nat)
    (p : Process) : Prop where
  shaped : WellFormed maximumCachedKeys p.world.cache
  holds : Holds p.world.cache endPoint new
  unasked : ∀ y ∈ p.world.fetches, since ≤ y.ledAt → y.url ≠ url

/-- A step that spares the cache leads no request for a minute of the span. -/
theorem Economical.step {new : HeldKey} {url : String} {since : Nat} {p p' : Process}
    (h : Economical (endPointOf url) new url since p) {minute : Int}
    (hnamed : namedMinute url = some minute) (hminute : minute ∈ new.span)
    {clock : DateTime → Prop} (hclock : ∀ now, clock now → new.explicit = true ∨
      minute ≤ minutesSinceBase now - clockDriftAllowanceMinutes)
    {event : ProcessEvent} (hsparing : Sparing L P clock p event)
    (hturned : Turned L P p event p') : Economical (endPointOf url) new url since p' := by
  refine ⟨hturned.wellFormed h.shaped, h.holds.keeps (hturned.keeps hsparing), ?_⟩
  intro y hy hsince hurl
  rcases hturned.leads hy with ⟨x, hx, hsame, hled⟩ | ⟨now, hnow, hnone⟩
  · exact h.unasked x hx (hled ▸ hsince) (hsame ▸ hurl)
  · -- the call would have been answered from the cache
    obtain ⟨answer, hheld, -⟩ :=
      h.holds.heldFor h.shaped hminute (hclock now (hsparing.1 now hnow)) hnamed
    rw [hurl, hheld] at hnone
    cases hnone

end Process

/-! ## What a creator that states its spans is asked -/

/-- The minutes that an answer with a key settles: those of its period where the next start is
stated, and otherwise those from its start to the drift allowance behind the moment it is
held. -/
def Settled (schedule : PublicKeySchedule) (key : DatedPublicKey) (later : DateTime)
    (minute : Int) : Prop :=
  key.startsAt.micros / microsPerMinute ≤ minute ∧
    match schedule.nextStartAfter key with
    | some next => minute < next.micros / microsPerMinute
    | none => minute ≤ minutesSinceBase later - clockDriftAllowanceMinutes

section Creator

variable {L : Stdlib} {P : Provider σ κ} {pub : String → Option PublicKeySchedule}
  {schedule : PublicKeySchedule}

/-- The answer with a key confirms every minute it settles. -/
theorem Steady.confirms (h : Steady L P schedule) {asked : DateTime} {key : DatedPublicKey}
    (hkey : schedule.keyInForce asked = some key) (now later : DateTime) (url : String) :
    ∃ new, confirmed now later url key.publicKeyPem (minutesOrNone (some key.startsAt))
        (minutesOrNone (schedule.nextStartAfter key)) = some new ∧
      (∀ minute, Settled schedule key later minute → minute ∈ new.span) ∧
      (new.explicit = true ∨ schedule.nextStartAfter key = none) := by
  have hmem := (PublicKeySchedule.keyInForce_eq_some.mp hkey).mem
  have hbase := h.starts key hmem
  rw [minutesOrNone_whole hbase (h.wholeMinutes key hmem)]
  cases hnext : schedule.nextStartAfter key with
  | none =>
    refine ⟨_, rfl, ?_, Or.inr rfl⟩
    intro minute hsettled
    rw [Settled, hnext] at hsettled
    exact ⟨hsettled.1, le_max_of_le_right hsettled.2⟩
  | some next =>
    have hlt := h.start_lt_next hmem hnext
    have hafter : baseDate ≤ next :=
      Int.le_trans hbase (Int.le_of_lt (DateTime.lt_of_minute_lt hlt))
    rw [minutesOrNone_whole hafter (h.nextWhole hnext)]
    simp only [confirmed, dif_pos hlt]
    refine ⟨_, rfl, ?_, Or.inl rfl⟩
    intro minute hsettled
    rw [Settled, hnext] at hsettled
    exact ⟨hsettled.1, Int.le_sub_one_of_lt hsettled.2⟩

/-- **Holding an answer with a key settles its minutes.** -/
theorem AnsweredFrom.holds {earlier : PublicKeySchedule} {now : DateTime} {turn : Turn}
    {url : String} (h : AnsweredFrom L P schedule earlier now turn url)
    (hsteady : Steady L P schedule) {cache : Cache} (hcache : TrueToAll pub cache)
    (hwell : WellFormed maximumCachedKeys cache) {endPoint : String}
    (hschedule : pub endPoint = some schedule) {asked : DateTime} {key : DatedPublicKey}
    (hasked : asked ≤ now) (hkey : earlier.keyInForce asked = some key) :
    ∃ new, Holds (hold cache turn.holdNow turn.holdLater endPoint url key.publicKeyPem
          (minutesOrNone (some key.startsAt)) (minutesOrNone (earlier.nextStartAfter key))).2
        endPoint new ∧
      new.pem = key.publicKeyPem ∧
      (∀ minute, Settled earlier key turn.holdLater minute → minute ∈ new.span) ∧
      (new.explicit = true ∨ earlier.nextStartAfter key = none) := by
  obtain ⟨new, hnew, hsettled, hexplicit⟩ :=
    h.steady.confirms hkey turn.holdNow turn.holdLater url
  refine ⟨new, ?_, confirmed_pem hnew, hsettled, hexplicit⟩
  rw [hold_eq, hnew]
  refine hwell.holds (hcache.free hschedule hsteady.noReturn fun m hm => ?_)
  exact h.confirmed hsteady hasked hkey hnew hm.1 hm.2

/-- In every run the cache stays true to the honest end points, at whatever now they answer. -/
theorem trueToAll_of_reaches (hpub : ∀ e s, pub e = some s → Steady L P s) {p : Process}
    (h : Reaches (processStep L P) (AnsweringAnyDate L P pub) .start p) :
    TrueToAll pub p.world.cache := by
  have hempty : TrueToAll pub Cache.empty := Sound.empty
  refine h.invariant (I := fun p => TrueToAll pub p.world.cache) hempty ?_
  intro q event q' hcache hok hstep
  rcases (processStep_turned hstep).cache with hsame | ⟨-, hcleared⟩ |
    ⟨f, turn, x, pem, start, stop, rfl, hx, hfetch, hheld⟩
  · rwa [hsame]
  · rw [hcleared]
    exact Sound.empty
  · rw [hheld]
    exact hcache.hold hpub (fun s hs => (hok x hx s hs).imp_right And.right) hfetch

/-- **One request for a key.** Among any other callers, checks and end points, once an honest
creator's answer with a key is held, no request is led for any minute it settles, and
every call for one is answered from the cache with the key, for as long as the cache is neither
cleared nor emptied for being full. The clock may read anything where the next start was
stated, and must not have gone back where it was not. -/
theorem oneRequest_of_reaches (hpub : ∀ e s, pub e = some s → Steady L P s) {p₀ p₁ p : Process}
    (hbefore : Reaches (processStep L P) (AnsweringAnyDate L P pub) .start p₀)
    {f : Nat} {turn : Turn} {x : Fetching} (hx : p₀.world.fetches[f]? = some x)
    (hstep : processStep L P p₀ (.world (.complete f turn)) = some p₁) {base : String}
    (hbase : Clean base) (hschedule : pub base = some schedule) {minute : Nat}
    (hminute : minute ≤ 0xFFFFFFFF) (hurl : x.url = dateUrl base minute) (hasks : asks x.url = true)
    {earlier : PublicKeySchedule} {now : DateTime}
    (hserved : AnsweredFrom L P schedule earlier now turn x.url) {key : DatedPublicKey}
    (hkey : earlier.keyInForce (momentRead now minute) = some key)
    (hafter : Reaches (processStep L P) (Sparing L P fun now' =>
      earlier.nextStartAfter key = none → turn.holdLater ≤ now') p₁ p)
    {settled : Nat} (hfield : settled ≤ 0xFFFFFFFF)
    (hsettled : Settled earlier key turn.holdLater settled) :
    (∀ y ∈ p.world.fetches, p₁.world.clock ≤ y.ledAt → y.url ≠ dateUrl base settled) ∧
      ∀ now', (earlier.nextStartAfter key = none → turn.holdLater ≤ now') →
        ∃ answer, heldFor p.world.cache now' base (dateUrl base settled) = some answer ∧
          answer.pem = key.publicKeyPem := by
  have hsteady := hpub base schedule hschedule
  have hcache := trueToAll_of_reaches hpub hbefore
  have hnamed := namedMinute_dateUrl hbase hfield
  have hend := endPointOf_dateUrl hbase settled
  -- the answer that is held
  have hfetch : fetch L P turn x.url x.domain = .ok (key.publicKeyPem,
      minutesOrNone (some key.startsAt), minutesOrNone (earlier.nextStartAfter key)) := by
    rw [hurl] at hserved hasks ⊢
    exact hserved.fetch_dateUrl hbase hminute hasks hkey x.domain
  obtain ⟨new, hholds, hpem, hspan, hexplicit⟩ := hserved.holds hsteady hcache
    (shaped_of_reaches hbefore) hschedule (momentRead_le now minute) hkey
  have hin : (settled : Int) ∈ new.span := hspan settled hsettled
  have hmay : ∀ now', (earlier.nextStartAfter key = none → turn.holdLater ≤ now') →
      new.explicit = true ∨
        (settled : Int) ≤ minutesSinceBase now' - clockDriftAllowanceMinutes := by
    intro now' hclock
    rcases hexplicit with hwhole | hopen
    · exact Or.inl hwhole
    · have hlate := minutesSinceBase_mono (hclock hopen)
      rw [Settled, hopen] at hsettled
      exact Or.inr (by omega)
  have hstart : Economical (endPointOf (dateUrl base settled)) new (dateUrl base settled)
      p₁.world.clock p₁ := by
    have hreach : Reaches (processStep L P) (fun _ _ => True) .start p₁ :=
      .next _ (hbefore.mono fun _ _ _ => trivial) trivial hstep
    refine ⟨shaped_of_reaches hreach, ?_, ?_⟩
    · rw [held_of_complete hx hfetch hstep, hend, hurl, endPointOf_dateUrl hbase, ← hurl]
      exact hholds
    · intro y hy hsince
      obtain ⟨g, hg⟩ := List.mem_iff_getElem?.mp hy
      have hled := ((coherent_of_reaches (world_of_reaches hreach)).timed g y hg).led
      exact absurd hled (Nat.not_lt.mpr hsince)
  have hspared : Economical (endPointOf (dateUrl base settled)) new (dateUrl base settled)
      p₁.world.clock p :=
    hafter.invariant hstart fun _ _ _ h hsparing hs =>
      h.step hnamed hin hmay hsparing (processStep_turned hs)
  refine ⟨hspared.unasked, fun now' hclock => ?_⟩
  have hserved := hspared.holds.heldFor hspared.shaped hin (hmay now' hclock) hnamed
  rwa [hend, hpem] at hserved

end Creator

/-! ## A key that is asked for once -/

/-- A check leads the request for minute 90. -/
def askedEvents : List ProcessEvent :=
  [.check 0 earlyEnvelope.owid (dateUrl endPointAB 90) (atMinute 300 minute300_le),
    .world (.createTask 0), .world (.start 0)]

/-- With its answer held the check goes on to lead one for the neighbour, and a caller of
another loop asks for minute 40. -/
def sparedEvents : List ProcessEvent :=
  let now := atMinute 300 minute300_le
  [.world (.resolve 0), .world (.receive 0), .resume 0 now, .world (.createTask 1),
    .world (.start 1), .world (.call 1 (dateUrl endPointAB 40) "a.b" now)]

theorem askedEvents_run :
    (run (processStep laterStdlib .plain) .start askedEvents).map (fun p =>
        p.world.fetches.map Fetching.url) = some [dateUrl endPointAB 90] := by
  decide +kernel

theorem sparedEvents_run :
    (run (processStep laterStdlib .plain) .start
        (askedEvents ++ .world (.complete 0 latestTurn) :: sparedEvents)).map (fun p =>
        p.world.fetches.map Fetching.url) =
      some [dateUrl endPointAB 90, dateUrl endPointAB 100] := by
  decide +kernel

theorem askedEvents_answering {L : Stdlib} {P : Provider σ κ}
    {pub : String → Option PublicKeySchedule} :
    ∀ event ∈ askedEvents, ∀ p, AnsweringAnyDate L P pub p event := by
  intro event hevent p
  simp only [askedEvents, List.mem_cons, List.not_mem_nil, or_false] at hevent
  rcases hevent with rfl | rfl | rfl <;> trivial

theorem sparedEvents_sparing {L : Stdlib} {P : Provider σ κ} {clock : DateTime → Prop}
    (hclock : ∀ now, clock now) : ∀ event ∈ sparedEvents, ∀ p, Sparing L P clock p event := by
  intro event hevent p
  refine ⟨fun now _ => hclock now, ?_⟩
  simp only [sparedEvents, List.mem_cons, List.not_mem_nil, or_false] at hevent
  rcases hevent with rfl | rfl | rfl | rfl | rfl | rfl <;> trivial

/-- The answer for minute 90 states the hundred minutes of the first key, and nothing more is
asked for minute 40. -/
theorem oneRequest_of_reaches_rotated :
    ∃ p₀ p₁ p : Process,
      Reaches (processStep laterStdlib .plain) (AnsweringAnyDate laterStdlib .plain everywhere)
        .start p₀ ∧
      processStep laterStdlib Provider.plain p₀ (.world (.complete 0 latestTurn)) = some p₁ ∧
      run (processStep laterStdlib .plain) p₁ sparedEvents = some p ∧
      p.world.fetches.map Fetching.url = [dateUrl endPointAB 90, dateUrl endPointAB 100] ∧
      (∀ y ∈ p.world.fetches, p₁.world.clock ≤ y.ledAt → y.url ≠ dateUrl endPointAB 40) ∧
      ∃ answer, heldFor p.world.cache (atMinute 300 minute300_le) endPointAB
          (dateUrl endPointAB 40) = some answer ∧ answer.pem = "A" := by
  obtain ⟨p, hrun, hurls⟩ := Option.map_eq_some_iff.mp sparedEvents_run
  rw [Lib.run_append] at hrun
  obtain ⟨p₀, hasked, hrest⟩ := Option.bind_eq_some_iff.mp hrun
  obtain ⟨p₁, hstep, hspared⟩ := Option.bind_eq_some_iff.mp hrest
  have hbefore : Reaches (processStep laterStdlib .plain)
      (AnsweringAnyDate laterStdlib .plain everywhere) .start p₀ :=
    .of_run askedEvents (.of_events askedEvents_answering _) hasked
  -- the request that is answered is the one for minute 90
  obtain ⟨q, hq, hasking⟩ := Option.map_eq_some_iff.mp askedEvents_run
  obtain rfl : p₀ = q := Option.some.inj (hasked.symm.trans hq)
  have hx : ∃ x : Fetching, p₀.world.fetches[0]? = some x ∧ x.url = dateUrl endPointAB 90 := by
    have hfirst : (p₀.world.fetches.map Fetching.url)[0]? = some (dateUrl endPointAB 90) := by
      rw [hasking]
      rfl
    rw [List.getElem?_map] at hfirst
    exact Option.map_eq_some_iff.mp hfirst
  obtain ⟨x, hx, hurl⟩ := hx
  have hkey : (rotated secondStart_lt).keyInForce (momentRead lastDate 90) = some (keyA baseDate) :=
    rotated_keyInForce_first secondStart_lt (by decide) (by decide)
  have hclock : ∀ now', (rotated secondStart_lt).nextStartAfter (keyA baseDate) = none →
      latestTurn.holdLater ≤ now' := by
    intro now' hnone
    rw [rotated_next] at hnone
    cases hnone
  have hsettled : Settled (rotated secondStart_lt) (keyA baseDate) latestTurn.holdLater
      (40 : Nat) := by
    rw [Settled, rotated_next]
    decide
  obtain ⟨hunasked, hserved⟩ := oneRequest_of_reaches everywhere_steady hbefore hx hstep
    endPointAB_clean rfl (by decide) hurl (hurl ▸ asks_endPointAB 90)
    (latestTurn_answered x.url) hkey
    (.of_run sparedEvents (.of_events (sparedEvents_sparing hclock) _) hspared) (by decide) hsettled
  exact ⟨p₀, p₁, p, hbefore, hstep, hspared, hurls, hunasked, hserved _ (hclock _)⟩

end Fetch

end OpenWebId
