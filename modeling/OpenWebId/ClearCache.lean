import OpenWebId.Agreement
import OpenWebId.Flight

/-!
# What `clear_cache` drops

A process clears its cache to drop a key it should no longer trust, so a caller that
calls after that should be answered by a request started after it (`Fresh`). A caller
that leads a fetch or joins one always is: the table is emptied with the cache, and an
entry in it is of a fetch led since. An answer from the cache is another matter, because
a completion removes its entry only while that is still its own, but holds its answer
whether it is or not. `HeldSince` is the condition under which every caller is answered
afresh, and `fresh_of_reaches` says that it is enough, over every run.
-/

namespace OpenWebId

namespace Fetch

open Lib (Reaches run Allowed)

variable {σ κ : Type}

/-- The request of the fetch was started after the time given. -/
def World.StartedAfter (w : World) (f c : Nat) : Prop :=
  ∃ x s, w.fetches[f]? = some x ∧ x.startedAt = some s ∧ c < s

/-- Every answer a caller received comes from requests that were started after each
clearing of the cache there was before the call. -/
def Fresh (w : World) : Prop :=
  ∀ k ∈ w.callers, ∀ result sources, k.state = .answered result sources →
    sources ≠ [] ∧ ∀ c ∈ w.clears, c < k.calledAt → ∀ f ∈ sources, w.StartedAfter f c

/-- An answer that says what minutes its key is for comes from a request started since
the cache was last cleared. -/
def HeldSince (L : Stdlib) (P : Provider σ κ) (w : World) : Event → Prop
  | .complete f turn => ∀ x pem start stop, w.fetches[f]? = some x →
    fetch L P turn x.url x.domain = .ok (pem, start, stop) →
      confirmed turn.holdNow turn.holdLater x.url pem start stop ≠ none →
        ∀ c ∈ w.clears, w.StartedAfter f c
  | _ => True

/-- Everything recorded comes from a request started since the cache was last cleared. -/
def RecordedSince (w : World) : Prop :=
  ∀ r ∈ w.records, ∀ c ∈ w.clears, w.StartedAfter r.fetch c

/-- A request that was started keeps its time. -/
theorem World.StartedAfter.step {L : Stdlib} {P : Provider σ κ} {w w' : World} {event : Event}
    {f c : Nat} (hf : w.StartedAfter f c) (h : Stepped L P w event w') (hw : Coherent w) :
    w'.StartedAfter f c := by
  obtain ⟨x, s, hx, hs, hlt⟩ := hf
  obtain ⟨y, hy, hmoved⟩ := h.fetches.forward hx
  exact ⟨y, s, hy, (hmoved.later (hw.timed f x hx)).startedAt s hs, hlt⟩

/-- What a step adds to the records. -/
theorem Stepped.records {L : Stdlib} {P : Provider σ κ} {w w' : World} {event : Event}
    (h : Stepped L P w event w') (hok : HeldSince L P w event) {r : Record}
    (hr : r ∈ w'.records) :
    w'.clears = w.clears ∧ (r ∈ w.records ∨ ∀ c ∈ w.clears, w.StartedAfter r.fetch c) := by
  cases h with
  | @held f turn x pem start stop hx hidle hphase hfetch =>
    refine ⟨rfl, ?_⟩
    have hsince := hok x pem start stop hx hfetch
    change r ∈ (w.hold f turn x.url pem start stop).records at hr
    unfold World.hold at hr
    cases hconfirmed : confirmed turn.holdNow turn.holdLater x.url pem start stop with
    | none =>
      simp only [hconfirmed] at hr
      exact Or.inl hr
    | some new =>
      simp only [hconfirmed] at hr
      rcases List.mem_append.mp hr with hold | hnew
      · exact Or.inl hold
      · rw [List.mem_singleton.mp hnew]
        exact Or.inr (hsince (by rw [hconfirmed]; nofun))
  | cleared => cases hr
  | _ => exact ⟨rfl, Or.inl hr⟩

/-- One step under the condition keeps the records fresh. -/
theorem RecordedSince.step {L : Stdlib} {P : Provider σ κ} {w w' : World} {event : Event}
    (hrec : RecordedSince w) (h : Stepped L P w event w') (hw : Coherent w)
    (hok : HeldSince L P w event) : RecordedSince w' := by
  intro r hr c hc
  obtain ⟨hclears, hold | hnew⟩ := h.records hok hr
  · exact (hrec r hold c (hclears ▸ hc)).step h hw
  · exact (hnew c (hclears ▸ hc)).step h hw

/-- A resolved fetch had its request started after whatever it was led after. -/
theorem Coherent.startedAfter {w : World} (hw : Coherent w) {f : Nat} {x : Fetching}
    (hx : w.fetches[f]? = some x) (hfuture : x.future.isSome = true) {c : Nat}
    (hled : c < x.ledAt) : w.StartedAfter f c := by
  have htimed := hw.timed f x hx
  obtain ⟨s, hs⟩ := Option.isSome_iff_exists.mp (htimed.resolved hfuture)
  exact ⟨x, s, hx, hs, Nat.lt_trans hled (htimed.started s hs).1⟩

/-- A caller served from the cache has a request to thank for it. -/
theorem Coherent.sources {w : World} (hw : Coherent w) {now : DateTime} {endPoint url : String}
    {held : KeyAnswer} (hheld : heldFor w.cache now endPoint url = some held) :
    w.sourcesOf endPoint held.pem ≠ [] := by
  rw [hw.cache] at hheld
  obtain ⟨r, hr, hsame⟩ := heldFor_recalls hheld
  have hmem : r.fetch ∈ w.sourcesOf endPoint held.pem :=
    List.mem_map_of_mem (List.mem_filter.mpr ⟨hr, decide_eq_true hsame⟩)
  exact List.ne_nil_of_mem hmem

theorem mem_sourcesOf {w : World} {endPoint pem : String} {f : Nat}
    (h : f ∈ w.sourcesOf endPoint pem) : ∃ r ∈ w.records, r.fetch = f := by
  obtain ⟨r, hr, hf⟩ := List.mem_map.mp h
  exact ⟨r, (List.mem_filter.mp hr).1, hf⟩

/-- One step keeps the answers fresh where the records are. -/
theorem Fresh.step {L : Stdlib} {P : Provider σ κ} {w w' : World} {event : Event}
    (hfresh : Fresh w) (h : Stepped L P w event w') (hw : Coherent w) (hrec : RecordedSince w) :
    Fresh w' := by
  intro k hk result sources hanswered
  -- no caller called before a clearing that is only now
  have hbefore : ∀ c ∈ w'.clears, ∀ t, t ≤ w.clock → c < t → c ∈ w.clears := by
    intro c hc t ht hlt
    rcases h.clears with hsame | hnow
    · exact hsame ▸ hc
    · rcases List.mem_cons.mp (hnow ▸ hc) with hnow | hold
      · omega
      · exact hold
  cases h.callers hk with
  | kept hold =>
    obtain ⟨hne, hafter⟩ := hfresh k hold result sources hanswered
    refine ⟨hne, ?_⟩
    intro c hc hlt f hf
    have hc' := hbefore c hc k.calledAt (Nat.le_of_lt (hw.called k hold)) hlt
    exact (hafter c hc' hlt f hf).step h hw
  | answered hheld =>
    cases hanswered
    refine ⟨hw.sources hheld, ?_⟩
    intro c hc hlt f hf
    obtain ⟨r, hr, hrf⟩ := mem_sourcesOf hf
    rw [← hrf]
    exact (hrec r hr c (hbefore c hc _ (Nat.le_refl _) hlt)).step h hw
  | waits hentry => cases hanswered
  | @received k₀ f x outcome hold hwaiting hx hfuture =>
    cases hanswered
    refine ⟨nofun, ?_⟩
    intro c hc hlt g hg
    rw [List.mem_singleton.mp hg]
    have hc' := hbefore c hc k₀.calledAt (Nat.le_of_lt (hw.called k₀ hold)) hlt
    -- the fetch a caller waits on was led since any clearing before the call
    obtain ⟨x', hx', -, hsince⟩ := hw.waiting k₀ hold f hwaiting
    rw [hx] at hx'
    cases hx'
    have hstarted := hw.startedAfter hx (by rw [hfuture]; rfl) (hsince c hc' hlt)
    exact hstarted.step h hw
  | cancelled hold => cases hanswered

/-- **An answer after `clear_cache` comes from a request started after it**, in every
state of every run in which no request from before a clearing has its answer held after
it. -/
theorem fresh_of_reaches (L : Stdlib) (P : Provider σ κ) {w : World}
    (h : Reaches (step L P) (HeldSince L P) World.start w) : Fresh w := by
  have hall : RecordedSince w ∧ Fresh w := by
    refine h.invariant_of (I := fun w => RecordedSince w ∧ Fresh w) Coherent
      (fun _ hreach => coherent_of_reaches hreach) ⟨nofun, nofun⟩ ?_
    intro w event w' hw hkept hok hstep
    obtain ⟨hrec, hfresh⟩ := hkept
    obtain ⟨w₁, hstepped, rfl⟩ := step_stepped hstep
    have hrec' : RecordedSince w₁ := hrec.step hstepped hw hok
    have hfresh' : Fresh w₁ := hfresh.step hstepped hw hrec
    exact ⟨hrec', hfresh'⟩
  exact hall.2

/-! ## Runs of two callers -/

/-- The key held for an answer that states the base date as its start and no end. -/
def firstKey (pem : String) (later : DateTime) : HeldKey :=
  ⟨pem, 0, max 0 (minutesSinceBase later - clockDriftAllowanceMinutes), false, true,
    Int.le_max_left ..⟩

theorem hold_firstKey (now later : DateTime) (endPoint url pem : String) :
    (hold .empty now later endPoint url pem (some 0) none).2 =
      ⟨AList.insert endPoint [firstKey pem later] ∅, 1⟩ := rfl

/-- It is served for a minute that was long past when it was held. -/
theorem heldFor_firstKey {endPoint url pem : String} {later : DateTime} {minute : Int}
    (hnamed : namedMinute url = some minute) (hfirst : 0 ≤ minute)
    (hlast : minute ≤ minutesSinceBase later - clockDriftAllowanceMinutes) (n : Nat) :
    heldFor ⟨AList.insert endPoint [firstKey pem later] ∅, n⟩ later endPoint url =
      some ⟨pem, 0, lastMinute, true⟩ := by
  have hcovers : (firstKey pem later).covers minute = true :=
    decide_eq_true ⟨hfirst, Int.le_trans hlast (Int.le_max_right ..)⟩
  have hold : minuteAndRecency url later = (some minute, false) := by
    rw [minuteAndRecency_some hnamed, decide_eq_false (Int.not_lt.mpr hlast)]
  simp only [heldFor, hold, Cache.keysOf_insert, List.find?_cons, hcovers, Bool.not_false,
    Bool.or_true, Bool.and_true, Option.map_some]
  rfl

/-- The answer to the request arrives, and another caller is answered with it. -/
theorem run_answered {L : Stdlib} {P : Provider σ κ} {turn : Turn} {url domain pem : String}
    {minute : Int} (hfetch : fetch L P turn url domain = .ok (pem, some 0, none))
    (hnamed : namedMinute url = some minute) (hfirst : 0 ≤ minute)
    (hlast : minute ≤ minutesSinceBase turn.holdLater - clockDriftAllowanceMinutes) {w : World}
    {x : Fetching} (hcache : w.cache = .empty) (hfetches : w.fetches = [x]) (hurl : x.url = url)
    (hdomain : x.domain = domain) (hloop : x.loop = 0) (hphase : x.phase = .requesting)
    (hrecords : w.records = []) :
    ∃ w', run (step L P) w [.complete 0 turn, .call 1 url domain turn.holdLater] = some w' ∧
      w'.callers = w.callers ++
        [⟨1, url, w.clock + 1, .answered (.ok ⟨pem, 0, lastMinute, true⟩) [0]⟩] ∧
      w'.clears = w.clears ∧ w'.fetches.map Fetching.startedAt = [x.startedAt] := by
  subst hurl hdomain
  have hx : w.fetches[0]? = some x := by rw [hfetches]; rfl
  have hidle : w.busy x.loop = false := by
    rw [World.busy, hfetches, List.any_cons, List.any_nil, hphase]
    simp [Phase.midStep]
  -- the answer is held, in a cache that held nothing
  obtain ⟨w₁, hstep₁, hcache₁, hfetches₁, hcallers₁, hrest₁, hrecords₁⟩ : ∃ w₁,
      step L P w (.complete 0 turn) = some w₁ ∧
        w₁.cache = ⟨AList.insert (endPointOf x.url) [firstKey pem turn.holdLater] ∅, 1⟩ ∧
        w₁.fetches = [{ x with phase := .settled (.ok ⟨pem, 0, lastMinute, true⟩) }] ∧
        w₁.callers = w.callers ∧ (w₁.clock = w.clock + 1 ∧ w₁.clears = w.clears) ∧
        w₁.records = [⟨0, endPointOf x.url, firstKey pem turn.holdLater⟩] := by
    refine ⟨_, (Stepped.held hx hidle (Or.inl hphase) hfetch).step, ?_, ?_, rfl, ⟨rfl, rfl⟩, ?_⟩
    · show (hold w.cache turn.holdNow turn.holdLater (endPointOf x.url) x.url pem (some 0)
        none).2 = _
      rw [hcache, hold_firstKey]
    · show w.fetches.set 0 _ = _
      rw [hfetches]
      rfl
    · show w.records ++ [_] = _
      rw [hrecords]
      rfl
  have hidle₁ : w₁.busy 1 = false := by
    rw [World.busy, hfetches₁, List.any_cons, List.any_nil, hloop]
    rfl
  -- the next caller finds it held, and it came from the one fetch
  have hheld : heldFor w₁.cache turn.holdLater (endPointOf x.url) x.url =
      some ⟨pem, 0, lastMinute, true⟩ := by
    rw [hcache₁, heldFor_firstKey hnamed hfirst hlast]
  have hsources : w₁.sourcesOf (endPointOf x.url) pem = [0] := by
    rw [World.sourcesOf, hrecords₁]
    simp [firstKey]
  obtain ⟨w₂, hstep₂, hcallers₂, hclears₂, hfetches₂⟩ : ∃ w₂,
      step L P w₁ (.call 1 x.url x.domain turn.holdLater) = some w₂ ∧
        w₂.callers = w₁.callers ++ [⟨1, x.url, w₁.clock,
          .answered (.ok ⟨pem, 0, lastMinute, true⟩) (w₁.sourcesOf (endPointOf x.url) pem)⟩] ∧
        w₂.clears = w₁.clears ∧ w₂.fetches = w₁.fetches :=
    ⟨_, (Stepped.answered hidle₁ hheld).step, rfl, rfl, rfl⟩
  refine ⟨w₂, ?_, ?_, hclears₂.trans hrest₁.2, ?_⟩
  · simp only [run, hstep₁, hstep₂, Option.bind_some]
  · rw [hcallers₂, hcallers₁, hrest₁.1, hsources]
  · rw [hfetches₂, hfetches₁]
    rfl

/-- The URL the callers ask for, and the turn in which the creator of one key answers. -/
def oneKeyUrl : String := dateUrl (endPoint "https" "a.b" .version3) 10

def oneKeyTurn : Turn :=
  servedTurn (oneKeyStdlib "k") .plain (oneKey "k" (by decide)) (atMinute 150 (by decide))

theorem oneKeyUrl_clean : Clean (endPoint "https" "a.b" .version3) :=
  endPoint_clean (isAlpha_of_accepted https_accepted) rfl

theorem namedMinute_oneKeyUrl : namedMinute oneKeyUrl = some 10 :=
  namedMinute_dateUrl oneKeyUrl_clean (by decide)

theorem fetch_oneKey :
    fetch (oneKeyStdlib "k") .plain oneKeyTurn oneKeyUrl "a.b" = .ok ("k", some 0, none) := by
  have hblank : Lib.strip "k" ≠ "" := by decide
  have hmoment : baseDate ≤ momentRead (atMinute 150 (by decide)) 10 := by decide
  have hkey := oneKey_keyInForce_of_le hmoment (h := hblank)
  have hreply := (oneKey_published (h := hblank)).serve_dateUrl (atMinute 150 (by decide))
    oneKeyUrl_clean (by decide : 10 ≤ 0xFFFFFFFF)
  rw [hkey] at hreply
  have hasks : asks oneKeyUrl = true :=
    asks_dateUrl https_accepted rfl 10
  have hfetch : fetch (oneKeyStdlib "k") .plain oneKeyTurn oneKeyUrl "a.b" =
      .ok ("k", minutesOrNone (some baseDate), minutesOrNone none) :=
    oneKey_published.fetch hasks hkey hreply
  rw [hfetch, minutesOrNone_baseDate]
  rfl

theorem late_oneKeyTurn :
    (10 : Int) ≤ minutesSinceBase oneKeyTurn.holdLater - clockDriftAllowanceMinutes := by
  have hlater : oneKeyTurn.holdLater = atMinute 150 (by decide) := rfl
  rw [hlater, minutesSinceBase_atMinute]
  decide

/-- A request started before `clear_cache` is answered after it, and the next caller is
answered with the key. -/
theorem not_fresh_after_clear :
    ¬ ∀ (L : Stdlib) (P : Provider Bytes Bytes) (w : World),
      Reaches (step L P) (fun _ _ => True) World.start w → Fresh w := by
  intro h
  have hasking : Reaches (step (oneKeyStdlib "k") .plain) (fun _ _ => True) World.start
      (asking oneKeyUrl "a.b" .requesting (some 2) [] 0 3) :=
    .of_run _ (.of_forall (fun _ _ => trivial) _ _)
      (run_askSteps _ _ oneKeyUrl "a.b" oneKeyTurn.heldNow [] 0)
  have hcleared := Reaches.next .clearCache hasking trivial (Stepped.step .cleared)
  obtain ⟨w, hrun, hcallers, hclears, hfetches⟩ := run_answered fetch_oneKey namedMinute_oneKeyUrl
    (by decide) late_oneKeyTurn
    (w := (asking oneKeyUrl "a.b" .requesting (some 2) [] 0 3).clearCache.tick)
    rfl rfl rfl rfl rfl rfl rfl
  have hreach := hcleared.trans (.of_run _ (.of_forall (fun _ _ => trivial) _ _) hrun)
  have hmem : ⟨1, oneKeyUrl, 5, .answered (.ok ⟨"k", 0, lastMinute, true⟩) [0]⟩ ∈ w.callers := by
    rw [hcallers]
    exact List.mem_append_right _ (List.mem_singleton_self _)
  have hthree : 3 ∈ w.clears := by
    rw [hclears]
    exact List.mem_cons_self ..
  obtain ⟨-, hafter⟩ := h _ _ w hreach _ hmem _ _ rfl
  -- the request was started at 2, the cache cleared at 3, and the call came at 5
  obtain ⟨x, s, hx, hs, hlt⟩ := hafter 3 hthree (by decide) 0 (List.mem_singleton_self _)
  have hstarted : (w.fetches.map Fetching.startedAt)[0]? = some (some s) := by
    rw [List.getElem?_map, hx, Option.map_some, hs]
  rw [hfetches] at hstarted
  cases hstarted
  exact absurd hlt (by decide)

theorem fresh_of_reaches_oneKey :
    ∃ w, Fresh w ∧ ∃ k ∈ w.callers, ∃ c ∈ w.clears, c < k.calledAt ∧
      k.state = .answered (.ok ⟨"k", 0, lastMinute, true⟩) [0] := by
  have hcleared : Reaches (step (oneKeyStdlib "k") .plain) (HeldSince (oneKeyStdlib "k") .plain)
      World.start (cleared [0] 1) := .next .clearCache .start trivial (Stepped.step .cleared)
  have hask : Allowed (step (oneKeyStdlib "k") .plain) (HeldSince (oneKeyStdlib "k") .plain)
      (cleared [0] 1) (askSteps oneKeyUrl "a.b" oneKeyTurn.heldNow) :=
    .cons trivial fun _ _ => .cons trivial fun _ _ => .cons trivial fun _ _ => .nil
  have hasking := hcleared.trans (.of_run _ hask (run_askSteps ..))
  obtain ⟨w, hrun, hcallers, hclears, -⟩ := run_answered fetch_oneKey namedMinute_oneKeyUrl
    (by decide) late_oneKeyTurn (w := asking oneKeyUrl "a.b" .requesting (some 3) [0] 1 4)
    rfl rfl rfl rfl rfl rfl rfl
  -- the request was started at 3, and the cache cleared at 0
  have hsince : HeldSince (oneKeyStdlib "k") .plain
      (asking oneKeyUrl "a.b" .requesting (some 3) [0] 1 4) (.complete 0 oneKeyTurn) := by
    intro x pem start stop _ _ _ c hc
    rw [List.mem_singleton.mp hc]
    exact ⟨_, 3, rfl, rfl, by decide⟩
  have hanswer : Allowed (step (oneKeyStdlib "k") .plain) (HeldSince (oneKeyStdlib "k") .plain)
      (asking oneKeyUrl "a.b" .requesting (some 3) [0] 1 4)
      [.complete 0 oneKeyTurn, .call 1 oneKeyUrl "a.b" oneKeyTurn.holdLater] :=
    .cons hsince fun _ _ => .cons trivial fun _ _ => .nil
  have hreach := hasking.trans (.of_run _ hanswer hrun)
  have hmem : ⟨1, oneKeyUrl, 5, .answered (.ok ⟨"k", 0, lastMinute, true⟩) [0]⟩ ∈ w.callers := by
    rw [hcallers]
    exact List.mem_append_right _ (List.mem_singleton_self _)
  have hzero : 0 ∈ w.clears := by
    rw [hclears]
    exact List.mem_cons_self ..
  exact ⟨w, fresh_of_reaches _ _ hreach, _, hmem, 0, hzero, by decide, rfl⟩

end Fetch

end OpenWebId
