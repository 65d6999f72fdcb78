import Mathlib

/-!
# Runs of a labelled transition system, and what holds along them

A system is an executable step `σ → ε → Option σ`: the state, the event, and the
next state, or `none` where the event cannot happen there. `Reaches` is the set of
states some run arrives in, where every event of the run meets a side condition
`ok` in the state it is taken in; a side condition of `True` is every run at all.

`Reaches.invariant` is the one induction every safety result over runs goes
through: what holds at the start and survives each allowed step holds in every
state reached. `Reaches.simulates` carries the runs of one system over to another.
`run` executes a list of events, and `Reaches.of_run` turns an executed run into a
reached state, which is how a concrete run is exhibited.
-/

namespace OpenWebId.Lib

universe u v w x

variable {σ : Type u} {ε : Type v}

/-- Some run of `step` from `s₀`, each of whose events meets `ok` in the state it
is taken in, ends in the state given. -/
inductive Reaches (step : σ → ε → Option σ) (ok : σ → ε → Prop) (s₀ : σ) : σ → Prop
  | start : Reaches step ok s₀ s₀
  | next {s s' : σ} (e : ε) :
      Reaches step ok s₀ s → ok s e → step s e = some s' → Reaches step ok s₀ s'

/-- **The invariant rule.** What holds at the start and survives every allowed step
holds in every state reached. -/
theorem Reaches.invariant {step : σ → ε → Option σ} {ok : σ → ε → Prop} {s₀ s : σ}
    {I : σ → Prop} (h : Reaches step ok s₀ s) (h₀ : I s₀)
    (hstep : ∀ s e s', I s → ok s e → step s e = some s' → I s') : I s := by
  induction h with
  | start => exact h₀
  | next e _ hok hs ih => exact hstep _ e _ ih hok hs

/-- The invariant rule over what is known of every state reached. -/
theorem Reaches.invariant_of {step : σ → ε → Option σ} {ok : σ → ε → Prop} {s₀ s : σ}
    {I : σ → Prop} (h : Reaches step ok s₀ s) (J : σ → Prop)
    (hJ : ∀ s, Reaches step ok s₀ s → J s) (h₀ : I s₀)
    (hstep : ∀ s e s', J s → I s → ok s e → step s e = some s' → I s') : I s := by
  induction h with
  | start => exact h₀
  | next e hreach hok hs ih => exact hstep _ e _ (hJ _ hreach) ih hok hs

/-- A run under a condition is a run under any weaker one. -/
theorem Reaches.mono {step : σ → ε → Option σ} {ok ok' : σ → ε → Prop} {s₀ s : σ}
    (hmono : ∀ s e, ok s e → ok' s e) (h : Reaches step ok s₀ s) :
    Reaches step ok' s₀ s := by
  induction h with
  | start => exact .start
  | next e _ hok hs ih => exact .next e ih (hmono _ e hok) hs

/-- Runs compose. -/
theorem Reaches.trans {step : σ → ε → Option σ} {ok : σ → ε → Prop} {s₀ s₁ s₂ : σ}
    (h₁ : Reaches step ok s₀ s₁) (h₂ : Reaches step ok s₁ s₂) :
    Reaches step ok s₀ s₂ := by
  induction h₂ with
  | start => exact h₁
  | next e _ hok hs ih => exact .next e ih hok hs

/-- **The simulation rule.** Where every allowed step of one system is matched, through a
reading of its states, by some run of another, what it reaches is read as reached there. -/
theorem Reaches.simulates {τ : Type w} {ζ : Type x} {step : σ → ε → Option σ} {ok : σ → ε → Prop}
    {step' : τ → ζ → Option τ} {ok' : τ → ζ → Prop} (read : σ → τ) {s₀ s : σ}
    (h : Reaches step ok s₀ s)
    (hstep : ∀ s e s', ok s e → step s e = some s' → Reaches step' ok' (read s) (read s')) :
    Reaches step' ok' (read s₀) (read s) := by
  induction h with
  | start => exact .start
  | next e _ hok hs ih => exact ih.trans (hstep _ e _ hok hs)

/-- Executes the events in order, stopping at the first that cannot happen. -/
def run (step : σ → ε → Option σ) : σ → List ε → Option σ
  | s, [] => some s
  | s, e :: es => (step s e).bind fun s' => run step s' es

/-- Every event of the list meets `ok` in the state the run takes it in. -/
def Allowed (step : σ → ε → Option σ) (ok : σ → ε → Prop) : σ → List ε → Prop
  | _, [] => True
  | s, e :: es => ok s e ∧ ∀ s', step s e = some s' → Allowed step ok s' es

theorem Allowed.nil {step : σ → ε → Option σ} {ok : σ → ε → Prop} {s : σ} :
    Allowed step ok s [] := trivial

theorem Allowed.cons {step : σ → ε → Option σ} {ok : σ → ε → Prop} {s : σ} {e : ε} {es : List ε}
    (h : ok s e) (hrest : ∀ s', step s e = some s' → Allowed step ok s' es) :
    Allowed step ok s (e :: es) := ⟨h, hrest⟩

/-- Events that each meet a condition in every state are allowed under it. -/
theorem Allowed.of_events {step : σ → ε → Option σ} {ok : σ → ε → Prop} {es : List ε}
    (h : ∀ e ∈ es, ∀ s, ok s e) (s : σ) : Allowed step ok s es := by
  induction es generalizing s with
  | nil => exact .nil
  | cons e es ih =>
    exact .cons (h e (List.mem_cons_self ..) s) fun s' _ =>
      ih (fun e' he => h e' (List.mem_cons_of_mem _ he)) s'

/-- Any list of events is allowed under a condition that always holds. -/
theorem Allowed.of_forall {step : σ → ε → Option σ} {ok : σ → ε → Prop} (h : ∀ s e, ok s e)
    (s : σ) (es : List ε) : Allowed step ok s es := .of_events (fun e _ s => h s e) s

/-- An executed run whose events are all allowed reaches the state it ends in. -/
theorem Reaches.of_run {step : σ → ε → Option σ} {ok : σ → ε → Prop} {s : σ} :
    ∀ (es : List ε) {s₀ : σ}, Allowed step ok s₀ es → run step s₀ es = some s →
      Reaches step ok s₀ s
  | [], s₀, _, h => by
    have hs : s₀ = s := Option.some.inj h
    exact hs ▸ .start
  | e :: es, s₀, hok, h => by
    obtain ⟨s₁, hs₁, hrest⟩ := Option.bind_eq_some_iff.mp h
    have hfirst : Reaches step ok s₀ s₁ := .next e .start hok.1 hs₁
    exact hfirst.trans (Reaches.of_run es (hok.2 s₁ hs₁) hrest)

theorem run_append {step : σ → ε → Option σ} (es es' : List ε) (s : σ) :
    run step s (es ++ es') = (run step s es).bind fun s' => run step s' es' := by
  induction es generalizing s with
  | nil => rfl
  | cons e es ih =>
    rw [List.cons_append, run, run, Option.bind_assoc]
    exact congrArg _ (funext ih)

/-- Two systems that agree on every event of a run where it is taken have the same run. -/
theorem run_congr {step step' : σ → ε → Option σ} {ok : σ → ε → Prop}
    (h : ∀ s e, ok s e → step s e = step' s e) {es : List ε} {s : σ}
    (hok : Allowed step ok s es) : run step s es = run step' s es := by
  induction es generalizing s with
  | nil => rfl
  | cons e es ih =>
    rw [run, run, ← h s e hok.1]
    cases hs : step s e with
    | none => rfl
    | some s' => exact ih (hok.2 s' hs)

/-- **The rule for executed runs**: what holds of no events and the start, and survives each
step with its event added, holds of the events of a run and the state it ends in. -/
theorem run_invariant {step : σ → ε → Option σ} {s₀ : σ} {I : List ε → σ → Prop} (h₀ : I [] s₀)
    (hstep : ∀ es s e s', Reaches step (fun _ _ => True) s₀ s → I es s → step s e = some s' →
      I (es ++ [e]) s') {es : List ε} {s : σ} (h : run step s₀ es = some s) : I es s := by
  induction es using List.reverseRecOn generalizing s with
  | nil => exact Option.some.inj h ▸ h₀
  | append_singleton es e ih =>
    rw [run_append] at h
    obtain ⟨s₁, hs₁, hlast⟩ := Option.bind_eq_some_iff.mp h
    obtain ⟨s', hs', hrest⟩ := Option.bind_eq_some_iff.mp hlast
    have hreach : Reaches step (fun _ _ => True) s₀ s₁ :=
      .of_run es (.of_forall (fun _ _ => trivial) s₀ es) hs₁
    exact Option.some.inj hrest ▸ hstep es s₁ e s' hreach (ih hs₁) hs'

end OpenWebId.Lib
