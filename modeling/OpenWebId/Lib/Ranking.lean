import OpenWebId.Lib.Transition

/-!
# Runs whose steps lower a rank

A rank is a number that no allowed step raises and the steps that count lower. A run then
holds no more counting steps than the rank it starts with (`run_falls`), and counting steps
taken one after another, however they are chosen, come to a state where none is left
(`exists_resting`). `sum_map_set` is what a rank that is summed over a list changes by when
one element of the list does.
-/

namespace OpenWebId.Lib

universe u v

variable {σ : Type u} {ε : Type v}

/-- **Counting steps are bounded by the rank.** -/
theorem run_falls {step : σ → ε → Option σ} {ok : σ → ε → Prop} {rank : σ → Nat}
    {counts : ε → Bool}
    (hstep : ∀ s e s', ok s e → step s e = some s' →
      rank s' + (if counts e then 1 else 0) ≤ rank s) :
    ∀ {events : List ε} {s s' : σ}, Allowed step ok s events → run step s events = some s' →
      rank s' + events.countP counts ≤ rank s
  | [], s, s', _, hrun => by
    have hs : s = s' := Option.some.inj hrun
    exact hs ▸ Nat.le_refl _
  | e :: events, s, s', hok, hrun => by
    obtain ⟨s₁, hs₁, hrest⟩ := Option.bind_eq_some_iff.mp hrun
    have hfirst := hstep s e s₁ hok.1 hs₁
    have hlater := run_falls hstep (hok.2 s₁ hs₁) hrest
    rw [List.countP_cons]
    omega

/-- **Steps that lower a rank come to an end**, whichever is taken when. -/
theorem exists_resting {step : σ → ε → Option σ} {ok : ε → Prop} {rank : σ → Nat}
    (hstep : ∀ s e s', ok e → step s e = some s' → rank s' < rank s) (s : σ) :
    ∃ s', Reaches step (fun _ => ok) s s' ∧ ∀ e, ok e → step s' e = none := by
  induction hrank : rank s using Nat.strongRecOn generalizing s with
  | ind n ih =>
    by_cases hmore : ∃ e s₁, ok e ∧ step s e = some s₁
    · obtain ⟨e, s₁, hok, hs₁⟩ := hmore
      obtain ⟨s', hreach, hrest⟩ := ih (rank s₁) (hrank ▸ hstep s e s₁ hok hs₁) s₁ rfl
      have hfirst : Reaches step (fun _ => ok) s s₁ := .next e .start hok hs₁
      exact ⟨s', hfirst.trans hreach, hrest⟩
    · refine ⟨s, .start, fun e hok => ?_⟩
      cases hs : step s e with
      | none => rfl
      | some s₁ => exact absurd ⟨e, s₁, hok, hs⟩ hmore

theorem sum_map_set {α : Type u} (f : α → Nat) {l : List α} {i : Nat} {x : α} (h : l[i]? = some x)
    (y : α) : ((l.set i y).map f).sum + f x = (l.map f).sum + f y := by
  induction l generalizing i with
  | nil => cases h
  | cons a l ih =>
    cases i with
    | zero =>
      cases h
      rw [List.set_cons_zero, List.map_cons, List.sum_cons, List.map_cons, List.sum_cons]
      omega
    | succ i =>
      have htail := ih (i := i) h
      rw [List.set_cons_succ, List.map_cons, List.sum_cons, List.map_cons, List.sum_cons]
      omega

/-- A sum of one amount for each element that counts. -/
theorem sum_map_ite {α : Type u} (counts : α → Bool) (n : Nat) (l : List α) :
    (l.map fun x => if counts x then n else 0).sum = n * l.countP counts := by
  induction l with
  | nil => rfl
  | cons x l ih =>
    rw [List.map_cons, List.sum_cons, List.countP_cons, ih, Nat.mul_add, Nat.add_comm, mul_ite,
      mul_one, mul_zero]

end OpenWebId.Lib
