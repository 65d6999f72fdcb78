import OpenWebId.Checks
import OpenWebId.Lib.Ranking

/-!
# Every check comes to an end

Nothing in the code waits in a circle: a caller waits for a fetch, a fetch for its
transport and a check for its caller. `Process.rank` is what is still ahead of all of them.
A step that calls for nothing new does not raise it, and every step of a fetch, a caller or
a check lowers it (`Turned.rank`), shutdowns and clearings in between or not. So the work
there is comes to an end within that many steps (`settles_of_reaches`).

What it comes to is rest only where every fetch ends with its future resolved, which is the
condition of `NoOrphan`: no loop is shut down while a task created on it has yet to take
its first step. Under it a state in which nothing can go on is one where every caller has
been answered or cancelled and every check has ended (`atRest_of_resting`). The environment
is relied on for this alone: a transport that was asked answers in the end.
-/

namespace OpenWebId

namespace Fetch

open Lib (Reaches run Allowed)

variable {σ κ : Type}

/-- The steps still ahead of the task of a fetch. -/
def Phase.rank : Phase → Nat
  | .led => 5
  | .created => 4
  | .requesting => 3
  | .cancelling => 2
  | .settled _ => 1
  | .doomed => 1
  | .finished => 0

def CallerState.rank : CallerState → Nat
  | .waiting _ => 1
  | _ => 0

/-- The steps still ahead of a check: one for what it has called for, and for each further
call one and the six of a caller that leads a fetch. -/
def Stage.rank : Stage → Nat
  | .own => 15
  | .neighbour _ _ rest => 1 + 7 * rest.length
  | .done _ => 0

def World.rank (w : World) : Nat :=
  (w.fetches.map fun x => x.phase.rank).sum + (w.callers.map fun k => k.state.rank).sum

def Process.rank (p : Process) : Nat := p.world.rank + (p.checks.map fun x => x.stage.rank).sum

/-- The steps of a fetch and of a caller that has called. -/
def Event.advances : Event → Bool
  | .call .. => false
  | .shutdown _ => false
  | .clearCache => false
  | _ => true

/-- The steps of a fetch, a caller that has called and a check that has begun. -/
def ProcessEvent.advances : ProcessEvent → Bool
  | .world event => event.advances
  | .check .. => false
  | .resume .. => true

/-- The steps that call for something new. -/
def ProcessEvent.isNew : ProcessEvent → Bool
  | .world (.call ..) => true
  | .check .. => true
  | _ => false

theorem ProcessEvent.not_isNew {event : ProcessEvent} (h : event.advances = true) :
    event.isNew = false := by
  cases event with
  | world event =>
    cases event with
    | call => cases h
    | _ => rfl
  | check => cases h
  | resume => rfl

/-! ## What a step does to the rank -/

/-- A task that moves on takes the world nearer to its end. -/
theorem rank_setFetch {w : World} {f : Nat} {x y : Fetching} (hx : w.fetches[f]? = some x)
    (hlt : y.phase.rank < x.phase.rank) : (w.setFetch f y).rank + 1 ≤ w.rank := by
  have hset := Lib.sum_map_set (fun x : Fetching => x.phase.rank) hx y
  simp only [World.rank, World.setFetch]
  omega

theorem rank_setCaller {w : World} {k : Nat} {x y : Caller} (hk : w.callers[k]? = some x)
    (hlt : y.state.rank < x.state.rank) : (w.setCaller k y).rank + 1 ≤ w.rank := by
  have hset := Lib.sum_map_set (fun x : Caller => x.state.rank) hk y
  simp only [World.rank, World.setCaller]
  omega

theorem Fetching.cancel_rank (x : Fetching) (loop : Nat) :
    (x.cancel loop).phase.rank ≤ x.phase.rank := by
  unfold Fetching.cancel
  split
  next =>
    split
    next hphase => simp [hphase, Phase.rank]
    next hphase => simp [hphase, Phase.rank]
    next => exact Nat.le_refl _
  next => exact Nat.le_refl _

theorem Caller.cancel_rank (k : Caller) (loop : Nat) :
    (k.cancel loop).state.rank ≤ k.state.rank := by
  unfold Caller.cancel
  split
  next =>
    split
    next => exact Nat.zero_le _
    next => exact Nat.le_refl _
  next => exact Nat.le_refl _

/-- A shutdown puts no task or caller further from its end. -/
theorem rank_shutdown (w : World) (loop : Nat) :
    World.rank { w with
      fetches := w.fetches.map fun x => x.cancel loop
      callers := w.callers.map fun k => k.cancel loop } ≤ w.rank := by
  have hfetches := List.sum_le_sum (l := w.fetches) fun x _ => x.cancel_rank loop
  have hcallers := List.sum_le_sum (l := w.callers) fun k _ => k.cancel_rank loop
  simp only [World.rank, List.map_map, Function.comp_def]
  omega

/-- A step of the world that is no call lowers the rank or leaves it. -/
theorem Stepped.rank {L : Stdlib} {P : Provider σ κ} {w w' : World} {event : Event}
    (h : Stepped L P w event w')
    (hcall : ∀ loop url domain now, event ≠ .call loop url domain now) :
    w'.rank + (if event.advances then 1 else 0) ≤ w.rank := by
  cases h with
  | answered | joined | led => exact absurd rfl (hcall _ _ _ _)
  | created hx hphase | entered hx _ hphase | skipped hx _ hphase | resolved hx hphase =>
    exact rank_setFetch hx (by simp [hphase, Phase.rank])
  | @held f turn x pem start stop hx _ hphase =>
    refine rank_setFetch (w := (w.hold f turn x.url pem start stop).forget x.url f) hx ?_
    rcases hphase with hphase | hphase <;> simp [hphase, Phase.rank]
  | @failed f turn x failed hx _ hphase =>
    refine rank_setFetch (w := w.forget x.url f) hx ?_
    rcases hphase with hphase | hphase <;> simp [hphase, Phase.rank]
  | @thrown f x hx _ hphase =>
    exact rank_setFetch (w := w.forget x.url f) hx (by simp [hphase, Phase.rank])
  | received hk _ hwaiting | abandoned hk _ hwaiting =>
    exact rank_setCaller hk (by simp [hwaiting, CallerState.rank])
  | shutdown => exact rank_shutdown w _
  | cleared => exact Nat.le_refl _

/-- A call raises it by a caller that waits and a fetch that is led, at most. -/
theorem Stepped.rank_call {L : Stdlib} {P : Provider σ κ} {w w' : World} {loop : Nat}
    {url domain : String} {now : DateTime} (h : Stepped L P w (.call loop url domain now) w') :
    w'.rank ≤ w.rank + 6 := by
  cases h with
  | answered | joined | led =>
    simp only [World.rank, World.addCaller, List.map_append, List.sum_append, List.map_cons,
      List.map_nil, List.sum_cons, List.sum_nil, CallerState.rank, Phase.rank]
    omega

/-- What is ahead of a check that goes on, with the call it makes. -/
def Goes.rank : Goes → Nat
  | .ends _ => 0
  | .asks _ _ rest => 7 + 7 * rest.length

theorem askNext_rank (owid : Owid) (tried : KeyAnswer) (minutes : List Int) :
    (askNext owid tried minutes).rank ≤ 7 * minutes.length := by
  cases minutes with
  | nil => exact Nat.le_refl _
  | cons minute rest =>
    rw [List.length_cons]
    simp only [askNext, Goes.rank]
    omega

/-- A check asks about at most two more minutes. -/
theorem afterOwn_rank (P : Provider σ κ) (owid : Owid) (result : Except PyExc KeyAnswer) :
    (afterOwn P owid result).rank ≤ 14 := by
  cases result with
  | error e => exact Nat.zero_le _
  | ok answer =>
    simp only [afterOwn]
    split
    next => exact Nat.zero_le _
    next =>
      split
      next => exact Nat.zero_le _
      next =>
        split
        next => exact Nat.zero_le _
        next =>
          have hnext := askNext_rank owid answer (beyond (minutesSinceBase owid.date) answer)
          have hlength := length_beyond (minutesSinceBase owid.date) answer
          omega

theorem afterNeighbour_rank (P : Provider σ κ) (owid : Owid) (tried : KeyAnswer) (rest : List Int)
    (result : Except PyExc KeyAnswer) :
    (afterNeighbour P owid tried rest result).rank ≤ 7 * rest.length := by
  have hnext := askNext_rank owid tried rest
  cases result with
  | error e =>
    simp only [afterNeighbour]
    split
    next => exact hnext
    next => exact Nat.zero_le _
  | ok neighbour =>
    simp only [afterNeighbour]
    split
    next => exact hnext
    next =>
      split
      next => exact Nat.zero_le _
      next => exact hnext

/-- A check that goes on is nearer its end by more than the call it makes. -/
theorem Check.after_rank {P : Provider σ κ} {x : Check} {result : Except PyExc KeyAnswer}
    {goes : Goes} (h : x.after P result = some goes) : goes.rank < x.stage.rank := by
  unfold Check.after at h
  cases hstage : x.stage with
  | done outcome =>
    rw [hstage] at h
    cases h
  | own =>
    rw [hstage] at h
    cases h
    exact Nat.lt_succ_of_le (afterOwn_rank P x.owid result)
  | neighbour tried minute rest =>
    rw [hstage] at h
    cases h
    have hrank := afterNeighbour_rank P x.owid tried rest result
    simp only [Stage.rank]
    omega

/-- **A step that calls for nothing new does not raise the rank, and one that advances
lowers it.** -/
theorem Turned.rank {L : Stdlib} {P : Provider σ κ} {p p' : Process} {event : ProcessEvent}
    (h : Turned L P p event p') (hnew : event.isNew = false) :
    p'.rank + (if event.advances then 1 else 0) ≤ p.rank := by
  cases h with
  | @world event w hstep =>
    obtain ⟨w₁, hstepped, rfl⟩ := step_stepped hstep
    have hrank := hstepped.rank fun loop url domain now he => by
      rw [he] at hnew
      cases hnew
    show w₁.rank + (p.checks.map fun x => x.stage.rank).sum + (if event.advances then 1 else 0) ≤
      p.world.rank + (p.checks.map fun x => x.stage.rank).sum
    omega
  | begun => cases hnew
  | @ended c now x result outcome hx _ _ hafter =>
    have hrank : 0 < x.stage.rank := Check.after_rank hafter
    have hset : ((p.checks.set c { x with stage := .done outcome }).map fun x =>
        x.stage.rank).sum + x.stage.rank = (p.checks.map fun x => x.stage.rank).sum + 0 :=
      Lib.sum_map_set (fun x : Check => x.stage.rank) hx _
    show p.world.rank + ((p.checks.set c { x with stage := .done outcome }).map fun x =>
      x.stage.rank).sum + 1 ≤ p.world.rank + (p.checks.map fun x => x.stage.rank).sum
    omega
  | @asked c now x result tried minute rest w hx _ _ hafter hstep =>
    obtain ⟨w₁, hstepped, rfl⟩ := step_stepped hstep
    have hcall : w₁.rank ≤ p.world.rank + 6 := hstepped.rank_call
    have hrank : 7 + 7 * rest.length < x.stage.rank := Check.after_rank hafter
    let y : Check :=
      { x with caller := p.world.callers.length, stage := .neighbour tried minute rest }
    have hset : ((p.checks.set c y).map fun x => x.stage.rank).sum + x.stage.rank =
        (p.checks.map fun x => x.stage.rank).sum + (1 + 7 * rest.length) :=
      Lib.sum_map_set (fun x : Check => x.stage.rank) hx y
    show w₁.rank + ((p.checks.set c y).map fun x => x.stage.rank).sum + 1 ≤
      p.world.rank + (p.checks.map fun x => x.stage.rank).sum
    omega

/-! ## Where nothing can go on -/

/-- No loop is shut down while a task created on it has yet to take its first step. -/
def SteppedFirstThroughout (p : Process) : ProcessEvent → Prop
  | .world event => SteppedFirst p.world event
  | _ => True

/-- No step that advances can be taken. -/
def Resting (L : Stdlib) (P : Provider σ κ) (p : Process) : Prop :=
  ∀ event, event.advances = true → processStep L P p event = none

/-- Everything that was called for has ended: the fetches with their futures resolved, the
callers with an answer or a cancellation, and the checks with a status or an exception. -/
structure AtRest (p : Process) : Prop where
  fetches : ∀ (f : Nat) x, p.world.fetches[f]? = some x →
    x.phase = .finished ∧ x.future.isSome = true
  landed : ∀ url, p.world.inFlight.lookup url = none
  callers : ∀ k ∈ p.world.callers, ∀ f, k.state ≠ .waiting f
  checks : ∀ x ∈ p.checks, ∃ result, x.stage = .done result

section Rest

variable {L : Stdlib} {P : Provider σ κ} {p : Process}

theorem attended_of_reaches {w : World} (h : Reaches (step L P) SteppedFirst World.start w) :
    Attended w := by
  refine h.invariant_of Coherent (fun _ hreach => coherent_of_reaches hreach) .start ?_
  intro w event w' hw hatt hok hstep
  obtain ⟨w₁, hstepped, rfl⟩ := step_stepped hstep
  have hatt' : Attended w₁ := hatt.step hstepped hw hok
  exact ⟨hatt'.undoomed, hatt'.finished, hatt'.registered⟩

theorem attended_of_process (h : Reaches (processStep L P) SteppedFirstThroughout .start p) :
    Attended p.world :=
  attended_of_reaches (world_reaches_of (fun _ _ _ _ _ => trivial) (fun _ _ hok => hok) h)

/-- A check that has not ended awaits a caller of the URL it asked about. -/
theorem called_of_reaches {ok : Process → ProcessEvent → Prop}
    (h : Reaches (processStep L P) ok .start p) {x : Check} (hx : x ∈ p.checks) {url : String}
    (hurl : x.awaited = some url) :
    ∃ caller, p.world.callers[x.caller]? = some caller ∧ caller.url = url := by
  have hheeds : Heeds (fun _ => True) (fun _ _ _ => True) (fun _ _ _ => True) p :=
    heeds_of_reaches (P := P) ⟨fun _ _ => trivial, fun _ _ _ _ _ _ _ _ => trivial⟩ trivial
      (fun _ _ _ _ _ _ _ _ _ _ _ => trivial)
      (fun _ _ _ _ => ⟨fun _ _ _ _ _ => trivial, fun _ _ _ _ _ _ _ _ => trivial,
        fun _ _ => trivial⟩) h
  obtain ⟨caller, hk, hcalled, -⟩ := hheeds.told x hx url hurl
  exact ⟨caller, hk, hcalled⟩

theorem Resting.blocked (h : Resting L P p) {event : Event} (hadvances : event.advances = true)
    {w : World} (hstepped : Stepped L P p.world event w) : False := by
  have hstep := (Turned.world hstepped.step).step
  rw [h (.world event) hadvances] at hstep
  cases hstep

/-- No loop is in the middle of a step, since such a step can be taken. -/
theorem Resting.idle (h : Resting L P p) (loop : Nat) : p.world.busy loop = false := by
  rw [World.busy, List.any_eq_false]
  intro x hx hmid
  rw [Bool.and_eq_true] at hmid
  obtain ⟨f, hx⟩ := List.mem_iff_getElem?.mp hx
  cases hphase : x.phase with
  | led => exact h.blocked rfl (.created hx hphase)
  | settled outcome => exact h.blocked rfl (.resolved hx hphase)
  | created | requesting | doomed | cancelling | finished =>
    rw [hphase] at hmid
    cases hmid.2

/-- **Where nothing can go on everything has ended**, if no fetch was left unattended. -/
theorem atRest_of_resting (hreach : Reaches (processStep L P) SteppedFirstThroughout .start p)
    (h : Resting L P p) : AtRest p := by
  have hw : Coherent p.world := coherent_of_reaches (world_of_reaches hreach)
  have hatt := attended_of_process hreach
  have hfinished : ∀ (f : Nat) x, p.world.fetches[f]? = some x → x.phase = .finished := by
    intro f x hx
    have hidle := h.idle x.loop
    cases hphase : x.phase with
    | finished => rfl
    | led => exact (h.blocked rfl (.created hx hphase)).elim
    | created => exact (h.blocked rfl (.entered hx hidle hphase)).elim
    | requesting =>
      -- a transport that was asked answers in the end
      have hanswer : Stepped L P p.world (.complete f refusedTurn) _ :=
        stepped_complete hx hidle (Or.inl hphase)
      exact (h.blocked rfl hanswer).elim
    | cancelling => exact (h.blocked rfl (.thrown hx hidle hphase)).elim
    | settled outcome => exact (h.blocked rfl (.resolved hx hphase)).elim
    | doomed => exact absurd hphase (hatt.undoomed f x hx)
  have hcallers : ∀ k ∈ p.world.callers, ∀ f, k.state ≠ .waiting f := by
    intro k hk f hwaiting
    obtain ⟨x, hx, -⟩ := hw.waiting k hk f hwaiting
    obtain ⟨outcome, hfuture⟩ := Option.isSome_iff_exists.mp
      (hatt.finished f x hx (hfinished f x hx))
    obtain ⟨i, hi⟩ := List.mem_iff_getElem?.mp hk
    exact h.blocked rfl (.received hi (h.idle k.loop) hwaiting hx hfuture)
  refine ⟨fun f x hx => ⟨hfinished f x hx, hatt.finished f x hx (hfinished f x hx)⟩, ?_, hcallers,
    ?_⟩
  · intro url
    cases hentry : p.world.inFlight.lookup url with
    | none => rfl
    | some f =>
      obtain ⟨x, hx, -⟩ := hw.entry url f hentry
      have hcompletes := hatt.registered url f hentry x hx
      rw [hfinished f x hx] at hcompletes
      cases hcompletes
  · intro x hx
    obtain ⟨c, hc⟩ := List.mem_iff_getElem?.mp hx
    -- its call has come to something, so it could go on
    have hgoes : ∀ url, x.awaited = some url →
        ∃ result, p.world.returned x.caller = some result := by
      intro url hurl
      obtain ⟨caller, hk, -⟩ := called_of_reaches hreach hx hurl
      rw [World.returned, hk, Option.bind_some]
      cases hstate : caller.state with
      | answered result sources => exact ⟨result, rfl⟩
      | cancelled => exact ⟨_, rfl⟩
      | waiting f => exact absurd hstate (hcallers caller (List.mem_of_getElem? hk) f)
    have hblocked : ∀ result goes, p.world.returned x.caller = some result →
        x.after P result = some goes → False := by
      intro result goes hresult hafter
      have hidle := h.idle x.loop
      have hnone := h (.resume c baseDate) rfl
      cases goes with
      | ends outcome =>
        rw [(Turned.ended hc hidle hresult hafter).step] at hnone
        cases hnone
      | asks tried minute rest =>
        have hcall : Stepped L P p.world (.call x.loop (x.urlAt minute) x.owid.domain baseDate) _ :=
          stepped_call hidle
        rw [(Turned.asked hc hidle hresult hafter hcall.step).step] at hnone
        cases hnone
    cases hstage : x.stage with
    | done result => exact ⟨result, rfl⟩
    | own =>
      obtain ⟨result, hresult⟩ := hgoes x.url (by rw [Check.awaited, hstage])
      exact (hblocked result _ hresult (by rw [Check.after, hstage])).elim
    | neighbour tried minute rest =>
      obtain ⟨result, hresult⟩ := hgoes (x.urlAt minute) (by rw [Check.awaited, hstage])
      exact (hblocked result _ hresult (by rw [Check.after, hstage])).elim

/-- **What has been called for comes to an end.** In any state of any run in which no loop
is shut down while a task created on it has yet to take its first step: however the run
goes on without new calls and checks, with clearings and such shutdowns in it, it has at
most `rank` steps of fetches, callers and checks left, and where none can be taken every
fetch, caller and check has ended. There is such an end to every run. -/
theorem settles_of_reaches
    (hreach : Reaches (processStep L P) SteppedFirstThroughout .start p) :
    (∀ events p', (∀ e ∈ events, e.isNew = false) →
      Allowed (processStep L P) SteppedFirstThroughout p events →
      run (processStep L P) p events = some p' →
      p'.rank + events.countP ProcessEvent.advances ≤ p.rank ∧ (Resting L P p' → AtRest p')) ∧
    ∃ p', Reaches (processStep L P) (fun _ e => e.advances = true) p p' ∧ AtRest p' := by
  refine ⟨?_, ?_⟩
  · intro events p' hnew hallowed hrun
    have hstep : ∀ (q : Process) (e : ProcessEvent) (q' : Process), e.isNew = false →
        processStep L P q e = some q' → q'.rank + (if e.advances then 1 else 0) ≤ q.rank :=
      fun _ _ _ hok hstep => (processStep_turned hstep).rank hok
    have hold : Allowed (processStep L P) (fun _ e => e.isNew = false) p events :=
      .of_events (fun e he _ => hnew e he) p
    exact ⟨Lib.run_falls hstep hold hrun,
      atRest_of_resting (hreach.trans (.of_run events hallowed hrun))⟩
  · have hfalls : ∀ q e q', ProcessEvent.advances e = true → processStep L P q e = some q' →
        q'.rank < q.rank := by
      intro q e q' hadvances hstep
      have hrank := (processStep_turned hstep).rank (ProcessEvent.not_isNew hadvances)
      rw [if_pos hadvances] at hrank
      exact hrank
    obtain ⟨p', hreach', hresting⟩ := Lib.exists_resting hfalls p
    refine ⟨p', hreach', atRest_of_resting (hreach.trans (hreach'.mono ?_)) hresting⟩
    intro q e hadvances
    cases e with
    | world event =>
      cases event with
      | shutdown loop => cases hadvances
      | _ => trivial
    | check | resume => trivial

end Rest

/-- A process whose one check has led a fetch. -/
def ledCheck : Process :=
  ⟨asking "u" zeroEnvelope.owid.domain .led none [] 0 1, [⟨zeroEnvelope.owid, "u", 0, 0, .own⟩]⟩

/-- Its check has 21 steps ahead of it at most. -/
theorem settles_of_reaches_ledCheck :
    ledCheck.rank = 21 ∧
      (∀ events p', (∀ e ∈ events, e.isNew = false) →
        Allowed (processStep (plainStdlib [] []) .plain) SteppedFirstThroughout ledCheck events →
        run (processStep (plainStdlib [] []) .plain) ledCheck events = some p' →
        p'.rank + events.countP ProcessEvent.advances ≤ ledCheck.rank ∧
          (Resting (plainStdlib [] []) .plain p' → AtRest p')) ∧
      ∃ p', Reaches (processStep (plainStdlib [] []) .plain) (fun _ e => e.advances = true)
        ledCheck p' ∧ AtRest p' := by
  have hled : step (plainStdlib [] []) .plain Process.start.world
      (.call 0 "u" zeroEnvelope.owid.domain baseDate) =
      some (asking "u" zeroEnvelope.owid.domain .led none [] 0 1) := step_led _ _ _ _ _ [] 0
  have hreach : Reaches (processStep (plainStdlib [] []) .plain) SteppedFirstThroughout .start
      ledCheck :=
    .next (.check 0 zeroEnvelope.owid "u" baseDate) .start trivial (Turned.begun hled).step
  exact ⟨rfl, settles_of_reaches hreach⟩

end Fetch

end OpenWebId
