import OpenWebId.ClearCache
import OpenWebId.Shutdown

/-!
# Single flight

At most one request for a URL is on its way unless the cache was cleared, every caller
that joins it gets its outcome, and a request that fails leaves nothing behind. What
relates the table to the requests is `Separate`: a fetch whose body has not ended is the
one registered for its URL or was led before some clearing, fetches are led one after the
other, and two fetches of one URL with the earlier still under way have a clearing between
them. A fetch is led only where its URL has no entry, so the step that leads one finds
every other fetch of the URL under way to be one that was cleared.

A completion takes its own entry and no other (`Stepped.inFlight_completes`), so a fetch
that was cleared leaves the entry of its successor. A caller that comes next then joins
that successor, as `joins_after_failure` shows, where otherwise it leads a request.
-/

namespace OpenWebId

namespace Fetch

open Lib (Reaches)

variable {σ κ : Type}

/-- The event ends the body of the fetch. -/
def Event.Completes (event : Event) (f : Nat) : Prop :=
  (∃ turn, event = .complete f turn) ∨ event = .throw f

/-- How the body of a fetch ends on an event that completes it: with what it makes of the
transport's answer, or with the `CancelledError` thrown at its await. -/
def Fetching.completion (L : Stdlib) (P : Provider σ κ) (x : Fetching) :
    Event → Except PyExc KeyAnswer
  | .complete _ turn =>
    match fetch L P turn x.url x.domain with
    | .error failed => .error failed
    | .ok (pem, start, stop) => .ok (stated pem start stop)
  | _ => .error .cancelledError

/-- The outcome a fetch has ended with, in its body or in its future. -/
def Fetching.outcome (x : Fetching) : Option (Except PyExc KeyAnswer) :=
  match x.phase with
  | .settled outcome => some outcome
  | _ => x.future

/-! ## What a step does to an outcome -/

/-- The future of a fetch is resolved by the step its task ends with. -/
def Fetching.Sealed (x : Fetching) : Prop := x.future.isSome = true → x.phase = .finished

theorem Moved.sealed {clock : Nat} {event : Event} {f : Nat} {x y : Fetching}
    (h : Moved clock event f x y) (hx : x.Sealed) : y.Sealed := by
  -- a task that still has a step to take has not resolved its future
  have hopen : ∀ {phase : Phase}, x.phase = phase → phase ≠ .finished →
      ¬ x.future.isSome = true := by
    intro phase hphase hne hsome
    rw [hx hsome] at hphase
    exact hne hphase.symm
  cases h with
  | same => exact hx
  | created hevent hphase => exact fun hsome => absurd hsome (hopen hphase nofun)
  | entered hevent hphase => exact fun hsome => absurd hsome (hopen hphase nofun)
  | skipped => exact fun _ => rfl
  | settled hevent hphase outcome =>
    intro hsome
    rcases hphase with hphase | hphase
    · exact absurd hsome (hopen hphase nofun)
    · exact absurd hsome (hopen hphase nofun)
  | resolved => exact fun _ => rfl
  | doomed hevent hphase => exact fun hsome => absurd hsome (hopen hphase nofun)
  | cancelling hevent hphase => exact fun hsome => absurd hsome (hopen hphase nofun)

/-- A fetch that has ended keeps its outcome. -/
theorem Moved.outcome_kept {clock : Nat} {event : Event} {f : Nat} {x y : Fetching}
    {outcome : Except PyExc KeyAnswer} (h : Moved clock event f x y) (hx : x.Sealed)
    (houtcome : x.outcome = some outcome) : y.outcome = some outcome := by
  unfold Fetching.outcome at houtcome
  -- short of its last two phases a task has ended with nothing
  have hfinished : ∀ {phase : Phase}, x.phase = phase → x.future = some outcome →
      phase = .finished := by
    intro phase hphase hfuture
    rw [← hphase]
    exact hx (by rw [hfuture]; rfl)
  cases h with
  | same => exact houtcome
  | created hevent hphase =>
    rw [hphase] at houtcome
    exact nomatch hfinished hphase houtcome
  | entered hevent hphase =>
    rw [hphase] at houtcome
    exact nomatch hfinished hphase houtcome
  | skipped hevent hphase =>
    rw [hphase] at houtcome
    exact nomatch hfinished hphase houtcome
  | settled hevent hphase =>
    rcases hphase with hphase | hphase
    · rw [hphase] at houtcome
      exact nomatch hfinished hphase houtcome
    · rw [hphase] at houtcome
      exact nomatch hfinished hphase houtcome
  | resolved hevent hphase =>
    rw [hphase] at houtcome
    exact houtcome
  | doomed hevent hphase =>
    rw [hphase] at houtcome
    exact nomatch hfinished hphase houtcome
  | cancelling hevent hphase =>
    rw [hphase] at houtcome
    exact nomatch hfinished hphase houtcome

/-- A fetch that has not ended ends only with its completion. -/
theorem Moved.outcome_none {clock : Nat} {event : Event} {f : Nat} {x y : Fetching}
    (h : Moved clock event f x y) (houtcome : x.outcome = none) :
    y.outcome = none ∨ event.Completes f := by
  unfold Fetching.outcome at houtcome
  cases h with
  | same => exact .inl houtcome
  | settled hevent => exact .inr hevent
  | created hevent hphase | entered hevent hphase | skipped hevent hphase
  | resolved hevent hphase | doomed hevent hphase | cancelling hevent hphase =>
    rw [hphase] at houtcome
    exact .inl houtcome

theorem Moved.completes_of {clock : Nat} {event : Event} {f : Nat} {x y : Fetching}
    (h : Moved clock event f x y) (hy : y.phase.completes = true) : x.phase.completes = true := by
  cases h with
  | same => exact hy
  | created hevent hphase | entered hevent hphase | cancelling hevent hphase =>
    rw [hphase]
    rfl
  | skipped | settled | resolved | doomed => cases hy

/-! ## What a step does to the table -/

/-- A fetch there is after a step and was not there before it is led by that step: its URL
had no entry, and has its own now. -/
theorem Stepped.led_fresh {L : Stdlib} {P : Provider σ κ} {w w' : World} {event : Event}
    (h : Stepped L P w event w') {g : Nat} {y : Fetching} (hy : w'.fetches[g]? = some y)
    (hg : w.fetches.length ≤ g) :
    w.inFlight.lookup y.url = none ∧ w'.inFlight.lookup y.url = some g ∧ y.ledAt = w.clock ∧
      w'.clears = w.clears ∧ y.future = none := by
  have hlt := (List.getElem?_eq_some_iff.mp hy).1
  cases h with
  | led hidle hheld hentry =>
    have hlast : g = w.fetches.length := by
      rw [List.length_append, List.length_singleton] at hlt
      omega
    rw [List.getElem?_append_right hg] at hy
    obtain rfl := List.mem_singleton.mp (List.mem_of_getElem? hy)
    rw [hlast]
    exact ⟨hentry, AList.lookup_insert _, rfl, rfl, rfl⟩
  | shutdown =>
    rw [List.length_map] at hlt
    omega
  | created | entered | skipped | held | failed | thrown | resolved =>
    simp only [World.fail, World.setFetch, World.forget, World.hold, List.length_set] at hlt
    exact absurd hg (Nat.not_le_of_lt hlt)
  | answered | joined | received | abandoned | cleared =>
    exact absurd hg (Nat.not_le_of_lt hlt)

/-- An entry stays unless the cache is cleared or the body of its fetch ends. -/
theorem Stepped.inFlight_kept {L : Stdlib} {P : Provider σ κ} {w w' : World} {event : Event}
    (h : Stepped L P w event w') {url : String} {f : Nat}
    (hf : w.inFlight.lookup url = some f) :
    w'.inFlight.lookup url = some f ∨ w'.clears = w.clock :: w.clears ∨
      ∀ y, w'.fetches[f]? = some y → y.phase.completes = false := by
  have hforget : ∀ (v : World) (other : String) (g : Nat) (y : Fetching) (o),
      v.inFlight.lookup url = some f → v.fetches[g]? = some y →
      (v.forget other g).inFlight.lookup url = some f ∨
        ∀ z, (v.fetches.set g { y with phase := .settled o })[f]? = some z →
          z.phase.completes = false := by
    intro v other g y o hv hy
    -- the fetch that ended is this one, or its entry is another
    by_cases hfg : g = f
    · subst hfg
      refine .inr fun z hz => ?_
      rw [List.getElem?_set_self (List.getElem?_eq_some_iff.mp hy).1] at hz
      cases hz
      rfl
    · exact .inl (World.lookup_forget_of_ne hv (Ne.symm hfg))
  cases h with
  | @led _ url' _ _ hidle hheld hentry =>
    refine .inl ?_
    -- a fetch is only led where its URL has no entry
    by_cases hurl : url = url'
    · rw [hurl, hentry] at hf
      cases hf
    · rwa [AList.lookup_insert_ne hurl]
  | @held g turn x pem start stop hx =>
    have hkept := hforget (w.hold g turn x.url pem start stop) x.url g x
      (.ok (stated pem start stop)) hf hx
    exact hkept.imp id .inr
  | @failed g turn x e hx => exact (hforget w x.url g x (.error e) hf hx).imp id .inr
  | @thrown g x hx => exact (hforget w x.url g x (.error .cancelledError) hf hx).imp id .inr
  | cleared => exact .inr (.inl rfl)
  | answered | joined | created | entered | skipped | resolved | received | abandoned
  | shutdown => exact .inl hf

/-- The entry of the fetch a completion ends goes, and every other entry stays. -/
theorem Stepped.inFlight_completes {L : Stdlib} {P : Provider σ κ} {w w' : World} {event : Event}
    (h : Stepped L P w event w') (hw : Coherent w) {f : Nat} (hevent : event.Completes f)
    {url : String} {g : Nat} :
    w'.inFlight.lookup url = some g ↔ w.inFlight.lookup url = some g ∧ g ≠ f := by
  have hforget : ∀ (v : World) (x : Fetching), v.inFlight = w.inFlight →
      w.fetches[f]? = some x →
      ((v.forget x.url f).inFlight.lookup url = some g ↔
        w.inFlight.lookup url = some g ∧ g ≠ f) := by
    intro v x hv hx
    constructor
    · intro hg
      have hold := World.lookup_of_forget hg
      rw [hv] at hold
      refine ⟨hold, fun hgf => ?_⟩
      subst hgf
      -- the entry of the fetch is under its own URL, which is the one forgotten
      obtain ⟨y, hy, hurl, -⟩ := hw.entry url g hold
      rw [hx] at hy
      cases hy
      rw [← hurl] at hg
      exact v.lookup_forget x.url g hg
    · intro hg
      obtain ⟨hold, hne⟩ := hg
      rw [← hv] at hold
      exact World.lookup_forget_of_ne hold hne
  rcases hevent with ⟨turn, rfl⟩ | rfl
  · cases h with
    | held hx => exact hforget _ _ rfl hx
    | failed hx => exact hforget _ _ rfl hx
  · cases h with
    | thrown hx => exact hforget _ _ rfl hx

/-- The fetch a completion ends, before it and after it. -/
theorem Stepped.completed {L : Stdlib} {P : Provider σ κ} {w w' : World} {event : Event}
    (h : Stepped L P w event w') {f : Nat} (hevent : event.Completes f) :
    ∃ x, w.fetches[f]? = some x ∧ (x.phase = .requesting ∨ x.phase = .cancelling) ∧
      w'.fetches[f]? = some { x with phase := .settled (x.completion L P event) } := by
  have hset : ∀ {fs : List Fetching} {x y : Fetching}, fs[f]? = some x →
      (fs.set f y)[f]? = some y := fun hx =>
    List.getElem?_set_self (List.getElem?_eq_some_iff.mp hx).1
  rcases hevent with ⟨turn, rfl⟩ | rfl
  · cases h with
    | held hx hidle hphase hfetch =>
      refine ⟨_, hx, hphase, (hset hx).trans ?_⟩
      simp only [Fetching.completion, hfetch]
    | failed hx hidle hphase hfetch =>
      refine ⟨_, hx, hphase, (hset hx).trans ?_⟩
      simp only [Fetching.completion, hfetch]
  · cases h with
    | thrown hx hidle hphase => exact ⟨_, hx, .inr hphase, hset hx⟩

/-- A completion with an error holds nothing. -/
theorem Stepped.cache_failed {L : Stdlib} {P : Provider σ κ} {w w' : World} {event : Event}
    (h : Stepped L P w event w') {f : Nat} (hevent : event.Completes f) {x : Fetching}
    (hx : w.fetches[f]? = some x) {e : PyExc} (hfailed : x.completion L P event = .error e) :
    w'.cache = w.cache := by
  rcases hevent with ⟨turn, rfl⟩ | rfl
  · cases h with
    | held hx' hidle hphase hfetch =>
      rw [hx] at hx'
      cases hx'
      simp only [Fetching.completion, hfetch] at hfailed
      cases hfailed
    | failed => rfl
  · cases h with
    | thrown => rfl

/-! ## What a step does to a caller -/

/-- What a step can do to a caller that was there before it. -/
inductive Carried (w : World) (caller : Caller) : Caller → Prop
  | kept : Carried w caller caller
  | received {f : Nat} {x : Fetching} {outcome : Except PyExc KeyAnswer}
      (hwaiting : caller.state = .waiting f) (hx : w.fetches[f]? = some x)
      (hfuture : x.future = some outcome) :
      Carried w caller { caller with state := .answered outcome [f] }
  | cancelled {f : Nat} (hwaiting : caller.state = .waiting f) :
      Carried w caller { caller with state := .cancelled }

theorem Caller.cancel_carried (w : World) (caller : Caller) (loop : Nat) :
    Carried w caller (caller.cancel loop) := by
  unfold Caller.cancel
  split
  next =>
    split
    next f hwaiting => exact .cancelled hwaiting
    next => exact .kept
  next => exact .kept

/-- A caller that was there is there after the step, carried on. -/
theorem Stepped.carried {L : Stdlib} {P : Provider σ κ} {w w' : World} {event : Event}
    (h : Stepped L P w event w') {k : Nat} {caller : Caller}
    (hk : w.callers[k]? = some caller) :
    ∃ caller', w'.callers[k]? = some caller' ∧ Carried w caller caller' := by
  have happend : ∀ new : List Caller, (w.callers ++ new)[k]? = some caller := fun new => by
    rw [List.getElem?_append_left (List.getElem?_eq_some_iff.mp hk).1, hk]
  have hset : ∀ {j : Nat} {old new : Caller}, w.callers[j]? = some old → Carried w old new →
      ∃ caller', (w.callers.set j new)[k]? = some caller' ∧ Carried w caller caller' := by
    intro j old new hj hnew
    by_cases hjk : j = k
    · subst hjk
      rw [hk] at hj
      cases hj
      exact ⟨new, List.getElem?_set_self (List.getElem?_eq_some_iff.mp hk).1, hnew⟩
    · refine ⟨caller, ?_, .kept⟩
      rw [List.getElem?_set_ne hjk, hk]
  cases h with
  | answered | joined | led => exact ⟨caller, happend _, .kept⟩
  | received hj hidle hwaiting hx hfuture => exact hset hj (.received hwaiting hx hfuture)
  | abandoned hj hidle hwaiting => exact hset hj (.cancelled hwaiting)
  | @shutdown loop hidle =>
    refine ⟨caller.cancel loop, ?_, caller.cancel_carried w loop⟩
    rw [List.getElem?_map, hk, Option.map_some]
  | created | entered | skipped | held | failed | thrown | resolved | cleared =>
    exact ⟨caller, hk, .kept⟩

/-! ## The fetches of one URL are kept apart -/

theorem FetchesMoved.length {clock : Nat} {event : Event} {fs gs : List Fetching}
    (h : FetchesMoved clock event fs gs) : gs.length ≤ fs.length + 1 := by
  cases h with
  | kept => exact Nat.le_succ _
  | set => exact (List.length_set ..).trans_le (Nat.le_succ _)
  | led => exact Nat.le_of_eq List.length_append
  | shutdown => exact (List.length_map ..).trans_le (Nat.le_succ _)

/-- What relates the table to the fetches. -/
structure Separate (w : World) : Prop where
  ordered : ∀ (f g : Nat) x y, f < g → w.fetches[f]? = some x → w.fetches[g]? = some y →
    x.ledAt < y.ledAt
  /-- A fetch under way is the one registered, or the cache was cleared since it was led. -/
  registered : ∀ (f : Nat) x, w.fetches[f]? = some x → x.phase.completes = true →
    w.inFlight.lookup x.url = some f ∨ ∃ c ∈ w.clears, x.ledAt < c
  /-- The cache was cleared between a fetch under way and any later one of its URL. -/
  separated : ∀ (f g : Nat) x y, f < g → w.fetches[f]? = some x → w.fetches[g]? = some y →
    x.url = y.url → x.phase.completes = true → ∃ c ∈ w.clears, x.ledAt < c ∧ c < y.ledAt
  isSealed : ∀ (f : Nat) x, w.fetches[f]? = some x → x.Sealed
  /-- A fetch that can be joined has not ended. -/
  joinable : ∀ url f, w.inFlight.lookup url = some f →
    ∀ x, w.fetches[f]? = some x → x.outcome = none

theorem Separate.start : Separate World.start where
  ordered f g x y _ hx := by cases hx
  registered f x hx := by cases hx
  separated f g x y _ hx := by cases hx
  isSealed f x hx := by cases hx
  joinable url f hf := by cases hf

/-- One step keeps the fetches apart. -/
theorem Separate.step {L : Stdlib} {P : Provider σ κ} {w w' : World} {event : Event}
    (h : Separate w) (hw : Coherent w) (hstep : Stepped L P w event w') : Separate w' := by
  have hold : ∀ c ∈ w.clears, c ∈ w'.clears := by
    intro c hc
    rcases hstep.clears with hsame | hnow
    · rwa [hsame]
    · rw [hnow]
      exact List.mem_cons_of_mem _ hc
  -- a fetch of the new state was there, with its stamps, or is led by this step
  have hback : ∀ (f : Nat) y, w'.fetches[f]? = some y → f < w.fetches.length →
      ∃ x, w.fetches[f]? = some x ∧ x.Later y ∧
        Moved w.clock event f x y := by
    intro f y hy hlt
    have hx := List.getElem?_eq_getElem hlt
    obtain ⟨y', hy', hmoved⟩ := hstep.fetches.forward hx
    rw [hy] at hy'
    cases hy'
    exact ⟨_, hx, hmoved.later (hw.timed f _ hx), hmoved⟩
  have hbefore : ∀ {f g : Nat} {y}, f < g → w'.fetches[g]? = some y → f < w.fetches.length := by
    intro f g y hfg hy
    have hlt := (List.getElem?_eq_some_iff.mp hy).1
    have hlen := hstep.fetches.length
    omega
  refine ⟨?_, ?_, ?_, ?_, ?_⟩
  · intro f g x y hfg hx hy
    obtain ⟨x₀, hx₀, hlater, -⟩ := hback f x hx (hbefore hfg hy)
    rw [hlater.ledAt]
    by_cases hg : g < w.fetches.length
    · obtain ⟨y₀, hy₀, hlater', -⟩ := hback g y hy hg
      rw [hlater'.ledAt]
      exact h.ordered f g x₀ y₀ hfg hx₀ hy₀
    · obtain ⟨-, -, hled, -⟩ := hstep.led_fresh hy (Nat.le_of_not_lt hg)
      rw [hled]
      exact (hw.timed f x₀ hx₀).led
  · intro f y hy hcompletes
    by_cases hf : f < w.fetches.length
    · obtain ⟨x, hx, hlater, hmoved⟩ := hback f y hy hf
      rw [hlater.url, hlater.ledAt]
      rcases h.registered f x hx (hmoved.completes_of hcompletes) with hentry | ⟨c, hc, hled⟩
      · rcases hstep.inFlight_kept hentry with hkept | hcleared | hended
        · exact .inl hkept
        · exact .inr ⟨w.clock, by rw [hcleared]; exact List.mem_cons_self .., (hw.timed f x hx).led⟩
        · rw [hended y hy] at hcompletes
          cases hcompletes
      · exact .inr ⟨c, hold c hc, hled⟩
    · exact .inl (hstep.led_fresh hy (Nat.le_of_not_lt hf)).2.1
  · intro f g x y hfg hx hy hurl hcompletes
    obtain ⟨x₀, hx₀, hlater, hmoved⟩ := hback f x hx (hbefore hfg hy)
    have hcompletes₀ := hmoved.completes_of hcompletes
    rw [hlater.url] at hurl
    rw [hlater.ledAt]
    by_cases hg : g < w.fetches.length
    · obtain ⟨y₀, hy₀, hlater', -⟩ := hback g y hy hg
      rw [hlater'.url] at hurl
      rw [hlater'.ledAt]
      obtain ⟨c, hc, hbetween⟩ := h.separated f g x₀ y₀ hfg hx₀ hy₀ hurl hcompletes₀
      exact ⟨c, hold c hc, hbetween⟩
    · -- the later one is led now, so the earlier one is not registered
      obtain ⟨hnone, -, hled, -⟩ := hstep.led_fresh hy (Nat.le_of_not_lt hg)
      rw [hled]
      rcases h.registered f x₀ hx₀ hcompletes₀ with hentry | ⟨c, hc, hsince⟩
      · rw [hurl, hnone] at hentry
        cases hentry
      · exact ⟨c, hold c hc, hsince, hw.clears c hc⟩
  · intro f y hy
    by_cases hf : f < w.fetches.length
    · obtain ⟨x, hx, -, hmoved⟩ := hback f y hy hf
      exact hmoved.sealed (h.isSealed f x hx)
    · obtain ⟨-, -, -, -, hfuture⟩ := hstep.led_fresh hy (Nat.le_of_not_lt hf)
      intro hsome
      rw [hfuture] at hsome
      cases hsome
  · intro url f hf y hy
    obtain ⟨-, hentry | ⟨x, hx, -, hnow, hled⟩⟩ := hstep.inFlight hf
    · obtain ⟨x, hx, -⟩ := hw.entry url f hentry
      obtain ⟨y', hy', hmoved⟩ := hstep.fetches.forward hx
      rw [hy] at hy'
      cases hy'
      rcases hmoved.outcome_none (h.joinable url f hentry x hx) with hnone | hevent
      · exact hnone
      · exact absurd rfl ((hstep.inFlight_completes hw hevent).mp hf).2
    · rw [hy] at hx
      cases hx
      -- a fetch stamped with the time of this step is led by it
      have hfresh : w.fetches.length ≤ f := by
        by_contra hlt
        obtain ⟨x, hx, hlater, -⟩ := hback f y hy (Nat.lt_of_not_le hlt)
        have hearlier := (hw.timed f x hx).led
        rw [← hlater.ledAt, hnow] at hearlier
        exact Nat.lt_irrefl _ hearlier
      obtain ⟨-, -, -, -, hfuture⟩ := hstep.led_fresh hy hfresh
      unfold Fetching.outcome
      rw [hled]
      exact hfuture

/-- **The fetches of one URL are kept apart** in every state of every run. -/
theorem separate_of_reaches {L : Stdlib} {P : Provider σ κ} {ok : World → Event → Prop} {w : World}
    (h : Reaches (step L P) ok World.start w) : Separate w := by
  refine h.invariant_of Coherent (fun _ hreach => coherent_of_reaches hreach) .start ?_
  intro w event w' hw hsep _ hstep
  obtain ⟨w₁, hstepped, rfl⟩ := step_stepped hstep
  have hsep' := hsep.step hw hstepped
  exact ⟨hsep'.ordered, hsep'.registered, hsep'.separated, hsep'.isSealed, hsep'.joinable⟩

/-! ## Over the rest of a run -/

/-- No caller calls for the URL. -/
def Uncalled (url : String) (_ : World) : Event → Prop
  | .call _ url' _ _ => url' ≠ url
  | _ => True

/-- Between two calls for a URL, an entry of it is one that was there. -/
theorem Stepped.inFlight_uncalled {L : Stdlib} {P : Provider σ κ} {w w' : World} {event : Event}
    (h : Stepped L P w event w') {url : String} (hcalls : Uncalled url w event) {g : Nat}
    (hg : w'.inFlight.lookup url = some g) : w.inFlight.lookup url = some g := by
  cases h with
  | led => rwa [AList.lookup_insert_ne (Ne.symm hcalls)] at hg
  | held | failed | thrown => exact World.lookup_of_forget hg
  | cleared => cases hg
  | answered | joined | created | entered | skipped | resolved | received | abandoned
  | shutdown => exact hg

theorem inFlight_uncalled {L : Stdlib} {P : Provider σ κ} {w w' : World} {url : String}
    (h : Reaches (step L P) (Uncalled url) w w') {g : Nat}
    (hg : w'.inFlight.lookup url = some g) : w.inFlight.lookup url = some g := by
  induction h with
  | start => exact hg
  | next event _ hcalls hstep ih =>
    obtain ⟨w₁, hstepped, rfl⟩ := step_stepped hstep
    exact ih (hstepped.inFlight_uncalled hcalls hg)

section Runs

variable {L : Stdlib} {P : Provider σ κ} {w w' : World}

/-- Every state a run goes on to is one where the fetches are apart. -/
theorem separate_onward (h : Reaches (step L P) (fun _ _ => True) World.start w)
    (h' : Reaches (step L P) (fun _ _ => True) w w') : Separate w' :=
  separate_of_reaches (h.trans h')

/-- A fetch that has ended keeps its outcome to the end of the run. -/
theorem outcome_onward (h : Reaches (step L P) (fun _ _ => True) World.start w)
    (h' : Reaches (step L P) (fun _ _ => True) w w') {f : Nat} {x : Fetching}
    {outcome : Except PyExc KeyAnswer} (hx : w.fetches[f]? = some x)
    (houtcome : x.outcome = some outcome) :
    ∃ y, w'.fetches[f]? = some y ∧ y.outcome = some outcome := by
  refine h'.invariant_of Separate (fun _ hreach => separate_onward h hreach)
    (I := fun w => ∃ y, w.fetches[f]? = some y ∧ y.outcome = some outcome) ⟨x, hx, houtcome⟩ ?_
  intro v event v' hsep hv _ hstep
  obtain ⟨y, hy, hkept⟩ := hv
  obtain ⟨v₁, hstepped, rfl⟩ := step_stepped hstep
  obtain ⟨z, hz, hmoved⟩ := hstepped.fetches.forward hy
  exact ⟨z, hz, hmoved.outcome_kept (hsep.isSealed f y hy) hkept⟩

/-- How a caller that waited for a fetch stands later on. -/
def WaitedFor (w : World) (f : Nat) (caller : Caller) : Prop :=
  caller.state = .waiting f ∨ caller.state = .cancelled ∨
    ∃ y outcome, w.fetches[f]? = some y ∧ y.outcome = some outcome ∧
      caller.state = .answered outcome [f]

/-- One step on, a caller that waited for a fetch waits, is cancelled or has its
outcome. -/
theorem Stepped.waitedFor {event : Event} (h : Stepped L P w event w') (hsep : Separate w)
    {f : Nat} {caller caller' : Caller} (hwaited : WaitedFor w f caller)
    (hcarried : Carried w caller caller') : WaitedFor w' f caller' := by
  cases hcarried with
  | kept =>
    rcases hwaited with hwaiting | hcancelled | ⟨y, outcome, hy, houtcome, hanswered⟩
    · exact .inl hwaiting
    · exact .inr (.inl hcancelled)
    · obtain ⟨z, hz, hmoved⟩ := h.fetches.forward hy
      exact .inr (.inr ⟨z, outcome, hz,
        hmoved.outcome_kept (hsep.isSealed f y hy) houtcome, hanswered⟩)
  | cancelled => exact .inr (.inl rfl)
  | @received g x outcome hwaiting hx hfuture =>
    -- only a caller that still waits receives anything
    have hfg : g = f := by
      rcases hwaited with hother | hother | ⟨_, _, _, _, hother⟩
      · rw [hwaiting] at hother
        cases hother
        rfl
      · rw [hwaiting] at hother
        cases hother
      · rw [hwaiting] at hother
        cases hother
    subst hfg
    have hfinished := hsep.isSealed g x hx (by rw [hfuture]; rfl)
    have houtcome : x.outcome = some outcome := by
      unfold Fetching.outcome
      rw [hfinished]
      exact hfuture
    obtain ⟨z, hz, hmoved⟩ := h.fetches.forward hx
    exact .inr (.inr ⟨z, outcome, hz, hmoved.outcome_kept (hsep.isSealed g x hx) houtcome, rfl⟩)

theorem waitedFor_onward (h : Reaches (step L P) (fun _ _ => True) World.start w)
    (h' : Reaches (step L P) (fun _ _ => True) w w') {k f : Nat} {caller : Caller}
    (hk : w.callers[k]? = some caller) (hwaiting : caller.state = .waiting f) :
    ∃ caller', w'.callers[k]? = some caller' ∧ WaitedFor w' f caller' := by
  refine h'.invariant_of Separate (fun _ hreach => separate_onward h hreach)
    (I := fun w => ∃ caller', w.callers[k]? = some caller' ∧ WaitedFor w f caller')
    ⟨caller, hk, .inl hwaiting⟩ ?_
  intro v event v' hsep hv _ hstep
  obtain ⟨old, hold, hwaited⟩ := hv
  obtain ⟨v₁, hstepped, rfl⟩ := step_stepped hstep
  obtain ⟨new, hnew, hcarried⟩ := hstepped.carried hold
  exact ⟨new, hnew, hstepped.waitedFor hsep hwaited hcarried⟩

end Runs

/-! ## Single flight -/

/-- What single flight is, in a state of a run. -/
structure SingleFlight (L : Stdlib) (P : Provider σ κ) (w : World) : Prop where
  /-- Between the starts of two requests for one URL that both await an answer the cache
  was cleared. -/
  requests : ∀ (f g : Nat) (x y : Fetching), f < g → w.fetches[f]? = some x →
    w.fetches[g]? = some y → x.url = y.url → x.phase.completes = true →
    y.phase.completes = true → ∃ c ∈ w.clears, x.ledAt < c ∧ c < y.ledAt
  /-- A completion removes the entry of its own fetch and no other. -/
  removes : ∀ (event : Event) (f : Nat) (w' : World), event.Completes f →
    step L P w event = some w' → ∀ (url : String) (g : Nat),
      w'.inFlight.lookup url = some g ↔ w.inFlight.lookup url = some g ∧ g ≠ f
  /-- The outcome of a fetch is the one it was completed with, to the end of the run. -/
  outcome : ∀ (event : Event) (f : Nat) (x : Fetching) (w' : World), event.Completes f →
    w.fetches[f]? = some x → step L P w event = some w' →
    ∀ v, Reaches (step L P) (fun _ _ => True) w' v →
      ∃ y : Fetching, v.fetches[f]? = some y ∧ y.outcome = some (x.completion L P event)
  /-- A caller that waits for a fetch, whether it led it or joined it, goes on waiting, is
  cancelled or is answered with the outcome of that fetch. -/
  joined : ∀ (k f : Nat) (caller : Caller), w.callers[k]? = some caller →
    caller.state = .waiting f → ∀ v, Reaches (step L P) (fun _ _ => True) w v →
      ∃ caller' : Caller, v.callers[k]? = some caller' ∧
        (caller'.state = .waiting f ∨ caller'.state = .cancelled ∨
          ∃ (y : Fetching) (outcome : _), v.fetches[f]? = some y ∧ y.outcome = some outcome ∧
            caller'.state = .answered outcome [f])
  /-- A caller whose fetch has its future resolved can receive it when its loop is free. -/
  receives : ∀ (k f : Nat) (caller : Caller) (x : Fetching) (outcome : _),
    w.callers[k]? = some caller → caller.state = .waiting f → w.fetches[f]? = some x →
    x.future = some outcome → w.busy caller.loop = false →
      ∃ w' : World, step L P w (.receive k) = some w' ∧
        w'.callers[k]? = some { caller with state := .answered outcome [f] }
  /-- A completion with an error leaves the cache and its count as they were, and the next
  caller for the URL with nothing held leads a request, unless a later fetch of the URL,
  led after the cache was cleared, is in flight: it joins that one. -/
  failure : ∀ (event : Event) (f : Nat) (x : Fetching) (e : PyExc) (w' : World),
    event.Completes f → w.fetches[f]? = some x → x.completion L P event = .error e →
    step L P w event = some w' →
      w'.cache = w.cache ∧
      ∀ v, Reaches (step L P) (Uncalled x.url) w' v → ∀ loop domain now,
        v.busy loop = false → heldFor v.cache now (endPointOf x.url) x.url = none →
        ∃ v' : World, step L P v (.call loop x.url domain now) = some v' ∧
          ((v'.fetches = v.fetches ++ [⟨x.url, domain, loop, .led, none, v.clock, none⟩] ∧
              v'.callers = v.callers ++ [⟨loop, x.url, v.clock, .waiting v.fetches.length⟩]) ∨
            ∃ (g : Nat) (y : Fetching), w.inFlight.lookup x.url = some g ∧
              w.fetches[g]? = some y ∧ (∃ c ∈ w.clears, x.ledAt < c ∧ c < y.ledAt) ∧
              v'.fetches = v.fetches ∧
              v'.callers = v.callers ++ [⟨loop, x.url, v.clock, .waiting g⟩])

/-- **Single flight**, in every state of every run: whatever callers on whatever loops do,
however their requests end, and whenever the cache is cleared or a loop shuts down. -/
theorem singleFlight_of_reaches (L : Stdlib) (P : Provider σ κ) {w : World}
    (h : Reaches (step L P) (fun _ _ => True) World.start w) : SingleFlight L P w := by
  have hw := coherent_of_reaches h
  have hsep := separate_of_reaches h
  refine ⟨?_, ?_, ?_, ?_, ?_, ?_⟩
  · intro f g x y hfg hx hy hurl hcompletes _
    exact hsep.separated f g x y hfg hx hy hurl hcompletes
  · intro event f w' hevent hstep url g
    obtain ⟨w₁, hstepped, rfl⟩ := step_stepped hstep
    exact hstepped.inFlight_completes hw hevent
  · intro event f x w' hevent hx hstep v hv
    obtain ⟨w₁, hstepped, rfl⟩ := step_stepped hstep
    obtain ⟨x', hx', -, hsettled⟩ := hstepped.completed hevent
    rw [hx] at hx'
    cases hx'
    exact outcome_onward (h.trans (.next event .start trivial hstep)) hv hsettled rfl
  · intro k f caller hk hwaiting v hv
    exact waitedFor_onward h hv hk hwaiting
  · intro k f caller x outcome hk hwaiting hx hfuture hidle
    refine ⟨_, (Stepped.received hk hidle hwaiting hx hfuture).step, ?_⟩
    exact List.getElem?_set_self (List.getElem?_eq_some_iff.mp hk).1
  · intro event f x e w' hevent hx hfailed hstep
    obtain ⟨w₁, hstepped, rfl⟩ := step_stepped hstep
    refine ⟨hstepped.cache_failed hevent hx hfailed, ?_⟩
    intro v hv loop domain now hidle hheld
    cases hentry : v.inFlight.lookup x.url with
    | none => exact ⟨_, (Stepped.led hidle hheld hentry).step, .inl ⟨rfl, rfl⟩⟩
    | some g =>
      -- what the caller joins was registered when the fetch failed, and is another fetch
      refine ⟨_, (Stepped.joined hidle hheld hentry).step, .inr ?_⟩
      obtain ⟨hold, hne⟩ :=
        (hstepped.inFlight_completes hw hevent).mp (inFlight_uncalled hv hentry)
      obtain ⟨x', hx', hphase, -⟩ := hstepped.completed hevent
      rw [hx] at hx'
      cases hx'
      have hcompletes : x.phase.completes = true := by
        rcases hphase with hphase | hphase
        · rw [hphase]
          rfl
        · rw [hphase]
          rfl
      obtain ⟨y, hy, -, hsince⟩ := hw.entry x.url g hold
      refine ⟨g, y, hold, hy, ?_, rfl, rfl⟩
      rcases hsep.registered f x hx hcompletes with hregistered | ⟨c, hc, hled⟩
      · rw [hold] at hregistered
        exact absurd (Option.some.inj hregistered) hne
      · exact ⟨c, hc, hled, hsince c hc⟩

/-! ## A fetch that was cleared, and its successor -/

/-- A transport that obtains no response. -/
def refusedTurn : Turn := ⟨baseDate, fun _ => .error .osError, baseDate, baseDate⟩

theorem fetch_refused (L : Stdlib) (P : Provider σ κ) (url domain : String) :
    ∃ e, fetch L P refusedTurn url domain = .error e := by
  unfold fetch read
  by_cases hasks : asks url = false
  · rw [if_pos hasks]
    exact ⟨_, rfl⟩
  · rw [if_neg hasks]
    exact ⟨_, rfl⟩

/-- A request that was on its way when the cache was cleared. -/
def clearedFetch : Fetching := ⟨oneKeyUrl, "a.b", 0, .requesting, none, 0, some 2⟩

/-- Two requests for one URL, the cache cleared in between: the first on its way, the
second led by a caller on another loop. -/
def succeeded : World :=
  { (asking oneKeyUrl "a.b" .requesting (some 2) [3] 0 5) with
    inFlight := AList.insert oneKeyUrl 1 ∅
    fetches := [clearedFetch, ⟨oneKeyUrl, "a.b", 1, .led, none, 4, none⟩]
    callers := [⟨0, oneKeyUrl, 0, .waiting 0⟩, ⟨1, oneKeyUrl, 4, .waiting 1⟩] }

theorem reaches_succeeded (L : Stdlib) (P : Provider σ κ) :
    Reaches (step L P) (fun _ _ => True) World.start succeeded := by
  have hasking : Reaches (step L P) (fun _ _ => True) World.start
      (asking oneKeyUrl "a.b" .requesting (some 2) [] 0 3) :=
    .of_run _ (.of_forall (fun _ _ => trivial) _ _)
      (run_askSteps _ _ oneKeyUrl "a.b" baseDate [] 0)
  have hcleared := Reaches.next .clearCache hasking trivial (Stepped.step .cleared)
  exact .next (.call 1 oneKeyUrl "a.b" baseDate) hcleared trivial
    (Stepped.step (.led rfl (heldFor_empty ..) rfl))

/-- Single flight where two requests are on their way: the cache was cleared between their
starts, and the caller of the first has its outcome or none. -/
theorem singleFlight_of_reaches_succeeded :
    (∃ c ∈ succeeded.clears, 0 < c ∧ c < 4) ∧
      SingleFlight (plainStdlib [] []) .plain succeeded :=
  have hflight := singleFlight_of_reaches _ _ (reaches_succeeded (plainStdlib [] []) .plain)
  ⟨hflight.requests 0 1 _ _ (by decide) rfl rfl rfl rfl rfl, hflight⟩

/-- The first of two requests fails, and the caller that comes next, with nothing held,
starts no request of its own: it joins the second. -/
theorem joins_after_failure :
    ∃ w w', Reaches (step (plainStdlib [] []) .plain) (fun _ _ => True) World.start succeeded ∧
      (∃ x e, succeeded.fetches[0]? = some x ∧ x.url = oneKeyUrl ∧
        x.completion (plainStdlib [] []) .plain (.complete 0 refusedTurn) = .error e) ∧
      step (plainStdlib [] []) .plain succeeded (.complete 0 refusedTurn) = some w ∧
      heldFor w.cache baseDate (endPointOf oneKeyUrl) oneKeyUrl = none ∧
      step (plainStdlib [] []) .plain w (.call 2 oneKeyUrl "a.b" baseDate) = some w' ∧
      w'.fetches.length = w.fetches.length ∧
      w'.callers.getLast? = some ⟨2, oneKeyUrl, 6, .waiting 1⟩ := by
  obtain ⟨e, hfetch⟩ := fetch_refused (plainStdlib [] []) .plain oneKeyUrl "a.b"
  have hdone : Stepped (plainStdlib [] []) .plain succeeded (.complete 0 refusedTurn)
      (succeeded.fail 0 clearedFetch e) :=
    .failed rfl rfl (.inl rfl) hfetch
  have hnone : heldFor (succeeded.fail 0 clearedFetch e).tick.cache baseDate
      (endPointOf oneKeyUrl) oneKeyUrl = none := heldFor_empty ..
  -- the entry is the second fetch's, which the first leaves
  have hreach := reaches_succeeded (plainStdlib [] []) .plain
  have hentry := (hdone.inFlight_completes (coherent_of_reaches hreach) (.inl ⟨_, rfl⟩)).mpr
    ⟨AList.lookup_insert _, by decide⟩
  refine ⟨_, _, hreach, ⟨_, e, rfl, rfl, ?_⟩, hdone.step, hnone,
    Stepped.step (.joined rfl hnone hentry), rfl, rfl⟩
  simp only [Fetching.completion, clearedFetch, hfetch]

end Fetch

end OpenWebId
