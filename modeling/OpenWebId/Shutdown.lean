import OpenWebId.Agreement
import OpenWebId.Flight

/-!
# What a loop that shuts down leaves behind

An entry of `_in_flight` is removed, and its future resolved, by the body of the task
that runs its fetch. The entry is added before that task is created and the body entered
later still, so a loop that shuts down in between cancels a task that will never get to
its clean-up (`Phase.doomed`): the entry stays, its future is never resolved, and every
later caller for the URL waits for ever. `NoOrphan` is what the table should look like in
every state, `SteppedFirst` the condition on shutdowns under which it does, and
`noOrphan_of_reaches` says so of every run.
-/

namespace OpenWebId

namespace Fetch

open Lib (Reaches run Allowed)

variable {σ κ : Type}

/-- The body of the task still has its clean-up ahead, or the task is still to be
created. -/
def Phase.completes : Phase → Bool
  | .led => true
  | .created => true
  | .requesting => true
  | .cancelling => true
  | _ => false

/-- Every entry belongs to a fetch whose task has not finished. -/
def EntriesRun (w : World) : Prop :=
  ∀ url f, w.inFlight.lookup url = some f →
    ∃ x, w.fetches[f]? = some x ∧ x.url = url ∧ x.phase ≠ .finished

/-- Every fetch whose task has finished has its future resolved. -/
def FinishedResolved (w : World) : Prop :=
  ∀ (f : Nat) x, w.fetches[f]? = some x → x.phase = .finished → x.future.isSome = true

/-- No request is orphaned: the two, and every entry a later caller can join belongs to a
fetch whose body will resolve its future. -/
structure NoOrphan (w : World) : Prop where
  entries : EntriesRun w
  finished : FinishedResolved w
  joinable : ∀ url f, w.inFlight.lookup url = some f →
    ∃ x, w.fetches[f]? = some x ∧ x.url = url ∧ x.phase.completes = true

/-- A loop is not shut down while a task created on it has yet to take its first step. -/
def SteppedFirst (w : World) : Event → Prop
  | .shutdown loop => ∀ (f : Nat) x, w.fetches[f]? = some x → x.loop = loop → x.phase ≠ .created
  | _ => True

/-- What the condition keeps: no task is cancelled before its first step, a task finishes
with its future resolved, and a registered fetch has its clean-up ahead. -/
structure Attended (w : World) : Prop where
  undoomed : ∀ (f : Nat) x, w.fetches[f]? = some x → x.phase ≠ .doomed
  finished : FinishedResolved w
  registered : ∀ url f, w.inFlight.lookup url = some f →
    ∀ x, w.fetches[f]? = some x → x.phase.completes = true

theorem Attended.start : Attended World.start where
  undoomed f x hx := by cases hx
  finished f x hx := by cases hx
  registered url f hf := by cases hf

theorem Moved.undoomed {w : World} {event : Event} (hok : SteppedFirst w event) {clock f : Nat}
    {x y : Fetching} (hx : w.fetches[f]? = some x) (h : Moved clock event f x y)
    (hphase : x.phase ≠ .doomed) : y.phase ≠ .doomed := by
  cases h with
  | same => exact hphase
  | created => nofun
  | entered => nofun
  | skipped => nofun
  | settled => nofun
  | resolved => nofun
  | doomed hevent hcreated =>
    subst hevent
    exact absurd hcreated (hok f x hx rfl)
  | cancelling => nofun

theorem Moved.finished {event : Event} {clock f : Nat} {x y : Fetching}
    (h : Moved clock event f x y) (hdoomed : x.phase ≠ .doomed)
    (hx : x.phase = .finished → x.future.isSome = true) (hy : y.phase = .finished) :
    y.future.isSome = true := by
  cases h with
  | same => exact hx hy
  | created => cases hy
  | entered => cases hy
  | skipped hevent hphase => exact absurd hphase hdoomed
  | settled => cases hy
  | resolved => rfl
  | doomed => cases hy
  | cancelling => cases hy

/-- A body that ends takes its entry with it. -/
theorem Stepped.unregisters {L : Stdlib} {P : Provider σ κ} {w w' : World} {event : Event}
    (h : Stepped L P w event w') {f : Nat} {x : Fetching} (hx : w.fetches[f]? = some x)
    (hevent : (∃ turn, event = .complete f turn) ∨ event = .throw f) :
    w'.inFlight.lookup x.url ≠ some f := by
  rcases hevent with ⟨turn, hevent⟩ | hevent
  · subst hevent
    cases h with
    | @held _ _ x' pem start stop hx' =>
      rw [hx] at hx'
      cases hx'
      exact (w.hold f turn x.url pem start stop).lookup_forget x.url f
    | failed hx' =>
      rw [hx] at hx'
      cases hx'
      exact w.lookup_forget x.url f
  · subst hevent
    cases h with
    | thrown hx' =>
      rw [hx] at hx'
      cases hx'
      exact w.lookup_forget x.url f

/-- One step under the condition leaves no fetch unattended. -/
theorem Attended.step {L : Stdlib} {P : Provider σ κ} {w w' : World} {event : Event}
    (hatt : Attended w) (h : Stepped L P w event w') (hw : Coherent w)
    (hok : SteppedFirst w event) : Attended w' := by
  refine ⟨?_, ?_, ?_⟩
  · intro f y hy
    rcases h.fetches.backward hy with ⟨x, hx, hmoved⟩ | ⟨url, domain, loop, hnew⟩
    · exact hmoved.undoomed hok hx (hatt.undoomed f x hx)
    · rw [hnew]
      nofun
  · intro f y hy hfinished
    rcases h.fetches.backward hy with ⟨x, hx, hmoved⟩ | ⟨url, domain, loop, hnew⟩
    · exact hmoved.finished (hatt.undoomed f x hx) (hatt.finished f x hx) hfinished
    · rw [hnew] at hfinished
      cases hfinished
  · intro url f hf y hy
    obtain ⟨-, hold | ⟨x, hx, -, -, hled⟩⟩ := h.inFlight hf
    · -- the entry was there, and its fetch had its clean-up ahead
      obtain ⟨x, hx, hurl, -⟩ := hw.entry url f hold
      have hcompletes := hatt.registered url f hold x hx
      obtain ⟨y', hy', hmoved⟩ := h.fetches.forward hx
      rw [hy] at hy'
      cases hy'
      cases hmoved with
      | same => exact hcompletes
      | created => rfl
      | entered => rfl
      | skipped hevent hphase => exact absurd hphase (hatt.undoomed f x hx)
      | settled hevent hphase outcome =>
        subst hurl
        exact absurd hf (h.unregisters hx hevent)
      | resolved hevent hphase =>
        rw [hphase] at hcompletes
        cases hcompletes
      | doomed hevent hphase =>
        subst hevent
        exact absurd hphase (hok f x hx rfl)
      | cancelling => rfl
    · rw [hx] at hy
      cases hy
      rw [hled]
      rfl

/-- In a coherent state where every fetch is attended no request is orphaned. -/
theorem Attended.noOrphan {w : World} (hatt : Attended w) (hw : Coherent w) : NoOrphan w := by
  have hjoinable : ∀ url f, w.inFlight.lookup url = some f →
      ∃ x, w.fetches[f]? = some x ∧ x.url = url ∧ x.phase.completes = true := by
    intro url f hf
    obtain ⟨x, hx, hurl, -⟩ := hw.entry url f hf
    exact ⟨x, hx, hurl, hatt.registered url f hf x hx⟩
  refine ⟨?_, hatt.finished, hjoinable⟩
  intro url f hf
  obtain ⟨x, hx, hurl, hcompletes⟩ := hjoinable url f hf
  refine ⟨x, hx, hurl, ?_⟩
  intro hfinished
  rw [hfinished] at hcompletes
  cases hcompletes

/-- **No request is orphaned**, in any state of any run in which no loop is shut down
while a task created on it has yet to take its first step. -/
theorem noOrphan_of_reaches (L : Stdlib) (P : Provider σ κ) {w : World}
    (h : Reaches (step L P) SteppedFirst World.start w) : NoOrphan w := by
  have hatt : Attended w := by
    refine h.invariant_of Coherent (fun _ hreach => coherent_of_reaches hreach) .start ?_
    intro w event w' hw hatt hok hstep
    obtain ⟨w₁, hstepped, rfl⟩ := step_stepped hstep
    have hatt' : Attended w₁ := hatt.step hstepped hw hok
    exact ⟨hatt'.undoomed, hatt'.finished, hatt'.registered⟩
  exact hatt.noOrphan (coherent_of_reaches h)

/-- A loop shut down while the request of a task on it is on its way orphans nothing. -/
theorem noOrphan_of_reaches_cancelling :
    ∃ w, NoOrphan w ∧ w.inFlight.lookup "u" = some 0 ∧
      w.fetches.map Fetching.phase = [.cancelling] := by
  have hask : Allowed (step (plainStdlib [] []) .plain) SteppedFirst (cleared [] 0)
      (askSteps "u" "d" baseDate) :=
    .cons trivial fun _ _ => .cons trivial fun _ _ => .cons trivial fun _ _ => .nil
  have hasking : Reaches (step (plainStdlib [] []) .plain) SteppedFirst World.start
      (asking "u" "d" .requesting (some 2) [] 0 3) := .of_run _ hask (run_askSteps ..)
  have hstepped : SteppedFirst (asking "u" "d" .requesting (some 2) [] 0 3) (.shutdown 0) := by
    intro f x hx _
    have hmem := List.mem_singleton.mp (List.mem_of_getElem? hx)
    rw [hmem]
    nofun
  have hreach := Reaches.next (.shutdown 0) hasking hstepped (Stepped.step (.shutdown rfl))
  exact ⟨_, noOrphan_of_reaches _ _ hreach, rfl, rfl⟩

/-- What a task that finished without resolving its future leaves is never put right. -/
theorem orphan_stays {L : Stdlib} {P : Provider σ κ} {ok : World → Event → Prop} {w w' : World}
    (h : Reaches (step L P) ok w w') {f : Nat} {x : Fetching} (hx : w.fetches[f]? = some x)
    (hphase : x.phase = .finished) : w'.fetches[f]? = some x := by
  refine h.invariant (I := fun w => w.fetches[f]? = some x) hx ?_
  intro w event w' hx _ hstep
  obtain ⟨w₁, hstepped, rfl⟩ := step_stepped hstep
  obtain ⟨y, hy, hmoved⟩ := hstepped.fetches.forward hx
  -- nothing moves a task that has finished
  cases hmoved with
  | same => exact hy
  | created _ hother => rw [hphase] at hother; cases hother
  | entered _ hother => rw [hphase] at hother; cases hother
  | skipped _ hother => rw [hphase] at hother; cases hother
  | settled _ hother =>
    rw [hphase] at hother
    rcases hother with hother | hother
    · cases hother
    · cases hother
  | resolved _ hother => rw [hphase] at hother; cases hother
  | doomed _ hother => rw [hphase] at hother; cases hother
  | cancelling _ hother => rw [hphase] at hother; cases hother

/-- A loop is shut down with a task created on it that has not taken its first step. The
task ends, its entry stays with its future unresolved, and a caller on another loop joins
it. -/
theorem orphan_after_shutdown :
    ∃ w, Reaches (step (plainStdlib [] []) .plain) (fun _ _ => True) World.start w ∧
      ¬ EntriesRun w ∧ ¬ FinishedResolved w ∧
        ∃ k ∈ w.callers, k.loop = 1 ∧ k.state = .waiting 0 := by
  have hled : Reaches (step (plainStdlib [] []) .plain) (fun _ _ => True) World.start
      (asking "u" "d" .led none [] 0 1) :=
    .next (.call 0 "u" "d" baseDate) .start trivial (step_led _ _ _ _ _ [] 0)
  have hcreated := Reaches.next (.createTask 0) hled trivial (step_created ..)
  have hdoomed := Reaches.next (.shutdown 0) hcreated trivial (Stepped.step (.shutdown rfl))
  have hfinished := Reaches.next (.start 0) hdoomed trivial (Stepped.step (.skipped rfl rfl rfl))
  have hjoined := Reaches.next (.call 1 "u" "d" baseDate) hfinished trivial
    (Stepped.step (.joined rfl (heldFor_empty ..) rfl))
  refine ⟨_, hjoined, ?_, ?_, ?_⟩
  · intro hentries
    obtain ⟨x, hx, -, hphase⟩ := hentries "u" 0 rfl
    cases hx
    exact hphase rfl
  · intro hresolved
    have hsome := hresolved 0 _ rfl rfl
    cases hsome
  · exact ⟨_, List.mem_append_right _ (List.mem_singleton_self _), rfl, rfl⟩

end Fetch

end OpenWebId
