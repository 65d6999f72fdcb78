import OpenWebId.SingleFlight

/-!
# Whose cancellation a caller sees

A caller shields the fetch it waits for, so a caller that is cancelled leaves the fetch
running for the others. The task of the fetch belongs to the loop of whichever caller led
it, and a shutdown of that loop cancels it: `CancelledError` is thrown at its await, kept
as its outcome like any failure, and handed to every caller that waits for it, on loops
that go on running too (`thrown_reaches`). `Spared` says that this does not happen to the
callers of one loop, and `spared_of_reaches` that nothing else brings a caller a
cancellation that is not its own.
-/

namespace OpenWebId

namespace Fetch

open Lib (Reaches run Allowed)

variable {σ κ : Type}

/-- No answer of a transport makes the body end with `CancelledError`. -/
theorem fetch_not_cancelled (L : Stdlib) (P : Provider σ κ) (turn : Turn) (url domain : String) :
    fetch L P turn url domain ≠ .error .cancelledError := by
  intro h
  rcases fetch_error h with hstatus | hstatus | hdeep | hover
  · cases hstatus
  · cases hstatus
  · cases hdeep
  · cases hover

/-- A fetch whose transport answers does not end with `CancelledError`. -/
theorem Fetching.completion_not_cancelled (L : Stdlib) (P : Provider σ κ) (x : Fetching) (f : Nat)
    (turn : Turn) : x.completion L P (.complete f turn) ≠ .error .cancelledError := by
  intro h
  unfold Fetching.completion at h
  simp only at h
  split at h
  next failed hfetch =>
    cases h
    exact fetch_not_cancelled L P turn x.url x.domain hfetch
  next => cases h

/-! ## Callers that are spared -/

/-- `CancelledError` is not thrown at the await of a fetch while a caller on the loop waits
for it. -/
def Spared (loop : Nat) (w : World) : Event → Prop
  | .throw f => ∀ k ∈ w.callers, k.loop = loop → k.state ≠ .waiting f
  | _ => True

/-- No caller on the loop has received `CancelledError`, or waits for a fetch that ended
with it. -/
structure Unreached (loop : Nat) (w : World) : Prop where
  answered : ∀ k ∈ w.callers, k.loop = loop →
    ∀ sources, k.state ≠ .answered (.error .cancelledError) sources
  waiting : ∀ k ∈ w.callers, k.loop = loop → ∀ f, k.state = .waiting f →
    ∀ x, w.fetches[f]? = some x → x.outcome ≠ some (.error .cancelledError)

/-- A fetch that a caller on the loop waits for does not come to end with
`CancelledError`. -/
theorem Stepped.spared {L : Stdlib} {P : Provider σ κ} {w w' : World} {event : Event}
    (h : Stepped L P w event w') (hsep : Separate w) {loop f : Nat} {k : Caller}
    (hok : Spared loop w event) (hk : k ∈ w.callers) (hloop : k.loop = loop)
    (hwaiting : k.state = .waiting f) {x y : Fetching} (hx : w.fetches[f]? = some x)
    (hy : w'.fetches[f]? = some y) (hspared : x.outcome ≠ some (.error .cancelledError)) :
    y.outcome ≠ some (.error .cancelledError) := by
  obtain ⟨y', hy', hmoved⟩ := h.fetches.forward hx
  rw [hy] at hy'
  cases hy'
  cases houtcome : x.outcome with
  -- it had ended already, and keeps its outcome
  | some outcome =>
    rw [hmoved.outcome_kept (hsep.isSealed f x hx) houtcome, ← houtcome]
    exact hspared
  | none =>
    -- it ends now, with its answer, since nothing is thrown while a caller waits
    rcases hmoved.outcome_none houtcome with hnone | hevent
    · rw [hnone]
      nofun
    · obtain ⟨x', hx', -, hended⟩ := h.completed hevent
      rw [hx] at hx'
      cases hx'
      rw [hy] at hended
      cases hended
      rcases hevent with ⟨turn, rfl⟩ | rfl
      · exact fun hcancelled =>
          x.completion_not_cancelled L P f turn (Option.some.inj hcancelled)
      · exact absurd hwaiting (hok k hk hloop)

theorem Unreached.start (loop : Nat) : Unreached loop World.start where
  answered k hk := by cases hk
  waiting k hk := by cases hk

/-- One step that spares the callers of the loop leaves them unreached. -/
theorem Unreached.step {L : Stdlib} {P : Provider σ κ} {w w' : World} {event : Event} {loop : Nat}
    (h : Unreached loop w) (hw : Coherent w) (hsep : Separate w) (hstep : Stepped L P w event w')
    (hok : Spared loop w event) : Unreached loop w' := by
  refine ⟨?_, ?_⟩
  · intro k hk hloop sources
    cases hstep.callers hk with
    | kept hold => exact h.answered k hold hloop sources
    | answered => nofun
    | waits => nofun
    | cancelled => nofun
    | @received k₀ f x outcome hold hwaiting hx hfuture =>
      intro hanswered
      cases hanswered
      -- the outcome in the future is the one the fetch ended with
      have hfinished := hsep.isSealed f x hx (by rw [hfuture]; rfl)
      refine h.waiting k₀ hold hloop f hwaiting x hx ?_
      unfold Fetching.outcome
      rw [hfinished]
      exact hfuture
  · intro k hk hloop f hf y hy
    cases hstep.callers hk with
    | answered => cases hf
    | cancelled => cases hf
    | received => cases hf
    | waits hentry =>
      cases hf
      rw [(hsep.step hw hstep).joinable _ _ hentry y hy]
      nofun
    | kept hold =>
      obtain ⟨x, hx, -⟩ := hw.waiting k hold f hf
      exact hstep.spared hsep hok hold hloop hf hx hy (h.waiting k hold hloop f hf x hx)

/-- **A cancellation reaches no other caller**, in any state of any run in which
`CancelledError` is never thrown at the await of a fetch that a caller on the loop waits
for: a caller there that is not cancelled itself, with its loop running, does not end
with `CancelledError`. -/
theorem spared_of_reaches (L : Stdlib) (P : Provider σ κ) (loop : Nat) {w : World}
    (h : Reaches (step L P) (Spared loop) World.start w) :
    ∀ k ∈ w.callers, k.loop = loop →
      ∀ sources, k.state ≠ .answered (.error .cancelledError) sources := by
  have hunreached : Unreached loop w := by
    refine h.invariant_of (fun w => Coherent w ∧ Separate w)
      (fun _ hreach => ⟨coherent_of_reaches hreach, separate_of_reaches hreach⟩)
      (.start loop) ?_
    intro w event w' hw hunreached hok hstep
    obtain ⟨w₁, hstepped, rfl⟩ := step_stepped hstep
    have hnext := hunreached.step hw.1 hw.2 hstepped hok
    exact ⟨hnext.answered, hnext.waiting⟩
  exact hunreached.answered

/-! ## Callers that are not -/

/-- A loop that is free stays so while a fetch moves to a phase between two steps. -/
theorem busy_setFetch {w : World} {loop f : Nat} {y : Fetching} (h : w.busy loop = false)
    (hy : y.phase.midStep = false) : (w.setFetch f y).busy loop = false := by
  have hold : (w.fetches.any fun x => decide (x.loop = loop) && x.phase.midStep) = false := h
  rw [List.any_eq_false] at hold
  show ((w.fetches.set f y).any fun x => decide (x.loop = loop) && x.phase.midStep) = false
  rw [List.any_eq_false]
  intro x hx
  rcases List.mem_or_eq_of_mem_set hx with hmem | hsame
  · exact hold x hmem
  · rw [hsame, hy, Bool.and_false]
    exact Bool.false_ne_true

/-- **A cancelled fetch takes the callers on other loops with it.** Where a shutdown has
cancelled the task of a fetch and a caller whose loop is free waits for it, three steps
end that caller's call with `CancelledError`. -/
theorem thrown_reaches (L : Stdlib) (P : Provider σ κ) {w : World} {f k : Nat} {x : Fetching}
    {caller : Caller} (hx : w.fetches[f]? = some x) (hidle : w.busy x.loop = false)
    (hphase : x.phase = .cancelling) (hk : w.callers[k]? = some caller)
    (hwaiting : caller.state = .waiting f) (hfree : w.busy caller.loop = false) :
    ∃ w', run (step L P) w [.throw f, .resolve f, .receive k] = some w' ∧
      w'.callers[k]? = some { caller with state := .answered (.error .cancelledError) [f] } := by
  have hlt := (List.getElem?_eq_some_iff.mp hx).1
  let ended : Fetching := { x with phase := .settled (.error .cancelledError) }
  let resolved : Fetching :=
    { x with phase := .finished, future := some (.error .cancelledError) }
  -- the body ends with `CancelledError`, which is put in the shared future
  obtain ⟨w₁, hstep₁, hfetches₁, hcallers₁⟩ : ∃ w₁, step L P w (.throw f) = some w₁ ∧
      w₁.fetches = w.fetches.set f ended ∧ w₁.callers = w.callers :=
    ⟨_, (Stepped.thrown hx hidle hphase).step, rfl, rfl⟩
  have hx₁ : w₁.fetches[f]? = some ended := by
    rw [hfetches₁]
    exact List.getElem?_set_self hlt
  obtain ⟨w₂, hstep₂, hfetches₂, hcallers₂⟩ : ∃ w₂, step L P w₁ (.resolve f) = some w₂ ∧
      w₂.fetches = w.fetches.set f resolved ∧ w₂.callers = w.callers := by
    refine ⟨_, (Stepped.resolved hx₁ rfl).step, ?_, hcallers₁⟩
    show w₁.fetches.set f resolved = w.fetches.set f resolved
    rw [hfetches₁, List.set_set]
  have hx₂ : w₂.fetches[f]? = some resolved := by
    rw [hfetches₂]
    exact List.getElem?_set_self hlt
  -- from where the caller on its own loop receives it
  have hk₂ : w₂.callers[k]? = some caller := by rw [hcallers₂, hk]
  have hfree₂ : w₂.busy caller.loop = false := by
    have hset : (w.setFetch f resolved).busy caller.loop = false := busy_setFetch hfree rfl
    rw [World.busy, hfetches₂]
    exact hset
  obtain ⟨w₃, hstep₃, hcallers₃⟩ : ∃ w₃, step L P w₂ (.receive k) = some w₃ ∧
      w₃.callers = w₂.callers.set k
        { caller with state := .answered (.error .cancelledError) [f] } :=
    ⟨_, (Stepped.received hk₂ hfree₂ hwaiting hx₂ rfl).step, rfl⟩
  refine ⟨w₃, ?_, ?_⟩
  · simp only [run, hstep₁, hstep₂, hstep₃, Option.bind_some]
  · rw [hcallers₃]
    exact List.getElem?_set_self (List.getElem?_eq_some_iff.mp hk₂).1

/-! ## Two loops -/

/-- The loop of a fetch on its way has shut down, and nobody else has called. -/
def stopped : World :=
  { (asking oneKeyUrl "a.b" .cancelling (some 2) [] 0 4) with
    callers := [⟨0, oneKeyUrl, 0, .cancelled⟩] }

theorem reaches_stopped (L : Stdlib) (P : Provider σ κ) :
    Reaches (step L P) (Spared 1) World.start stopped := by
  have hask : Allowed (step L P) (Spared 1) (cleared [] 0) (askSteps oneKeyUrl "a.b" baseDate) :=
    .cons trivial fun _ _ => .cons trivial fun _ _ => .cons trivial fun _ _ => .nil
  have hasking : Reaches (step L P) (Spared 1) World.start
      (asking oneKeyUrl "a.b" .requesting (some 2) [] 0 3) := .of_run _ hask (run_askSteps ..)
  exact .next (.shutdown 0) hasking (trivial : Spared 1 _ (.shutdown 0))
    (Stepped.step (.shutdown rfl))

/-- The leader's loop shuts down and `CancelledError` is thrown before anyone else has
joined: the caller that comes next, on another loop, leads a request of its own. -/
theorem spared_of_reaches_thrown :
    ∃ w : World, (∀ k ∈ w.callers, k.loop = 1 →
        ∀ sources, k.state ≠ .answered (.error .cancelledError) sources) ∧
      w.fetches.map Fetching.phase = [.settled (.error .cancelledError), .led] ∧
      w.callers = [⟨0, oneKeyUrl, 0, .cancelled⟩, ⟨1, oneKeyUrl, 5, .waiting 1⟩] := by
  have hspared : Spared 1 stopped (.throw 0) := by
    intro k hk hloop
    rw [List.mem_singleton.mp hk] at hloop
    cases hloop
  have hthrown := Reaches.next (.throw 0) (reaches_stopped (plainStdlib [] []) .plain) hspared
    (Stepped.step (.thrown rfl rfl rfl))
  have hforgotten : (stopped.forget oneKeyUrl 0).inFlight.lookup oneKeyUrl = none := by
    have hentry : stopped.inFlight.lookup oneKeyUrl = some 0 := AList.lookup_insert _
    unfold World.forget
    simp only [if_pos hentry]
    exact AList.lookup_erase ..
  have hcall : ∀ w, Spared 1 w (.call 1 oneKeyUrl "a.b" baseDate) := fun _ => trivial
  have hled := Reaches.next _ hthrown (hcall _)
    (Stepped.step (.led rfl (heldFor_empty ..) hforgotten))
  exact ⟨_, spared_of_reaches _ _ 1 hled, rfl, rfl⟩

/-- The loop goes on running, and nobody cancels a caller. -/
def Untouched (loop : Nat) (_ : World) (event : Event) : Prop :=
  event ≠ .shutdown loop ∧ ∀ k, event ≠ .cancelCaller k

/-- A caller has joined a fetch led on another loop, which has shut down since. -/
def stopping : World :=
  { (asking oneKeyUrl "a.b" .cancelling (some 2) [] 0 5) with
    callers := [⟨0, oneKeyUrl, 0, .cancelled⟩, ⟨1, oneKeyUrl, 3, .waiting 0⟩] }

theorem reaches_stopping (L : Stdlib) (P : Provider σ κ) :
    Reaches (step L P) (Untouched 1) World.start stopping := by
  have hasking : Reaches (step L P) (Untouched 1) World.start
      (asking oneKeyUrl "a.b" .requesting (some 2) [] 0 3) := by
    refine .of_run _ (.of_events ?_ _) (run_askSteps _ _ oneKeyUrl "a.b" baseDate [] 0)
    simp [askSteps, Untouched]
  have hcall : Untouched 1 (asking oneKeyUrl "a.b" .requesting (some 2) [] 0 3)
      (.call 1 oneKeyUrl "a.b" baseDate) := by simp [Untouched]
  have hjoined := Reaches.next (.call 1 oneKeyUrl "a.b" baseDate) hasking hcall
    (Stepped.step (.joined rfl (heldFor_empty ..) (AList.lookup_insert _)))
  -- the loop that shuts down is the other one
  refine .next (.shutdown 0) hjoined ?_ (Stepped.step (.shutdown rfl))
  simp [Untouched]

/-- A caller on one loop leads a fetch and a caller on another joins it. The first loop
shuts down, the second does not and nobody cancels its caller, and its call ends with
`CancelledError`. -/
theorem cancelled_by_other_loop :
    ∃ w, Reaches (step (plainStdlib [] []) .plain) (Untouched 1) World.start w ∧
      ∃ k ∈ w.callers, k.loop = 1 ∧ k.state = .answered (.error .cancelledError) [0] := by
  obtain ⟨w, hrun, hcaller⟩ := thrown_reaches (plainStdlib [] []) .plain
    (rfl : stopping.fetches[0]? = some ⟨oneKeyUrl, "a.b", 0, .cancelling, none, 0, some 2⟩)
    rfl rfl (rfl : stopping.callers[1]? = some ⟨1, oneKeyUrl, 3, .waiting 0⟩) rfl rfl
  have hthrown : Reaches (step (plainStdlib [] []) .plain) (Untouched 1) stopping w := by
    refine .of_run _ (.of_events ?_ _) hrun
    simp [Untouched]
  exact ⟨w, (reaches_stopping _ _).trans hthrown, _, List.mem_of_getElem? hcaller, rfl, rfl⟩

end Fetch

end OpenWebId
