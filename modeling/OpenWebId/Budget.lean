import OpenWebId.Economy
import OpenWebId.Progress

/-!
# What a check costs

Beside the key for its OWID's own minute a check asks for the one just beyond an edge of the
span stated for it, and this "costs at most two more requests, and only for a signature that
has already failed". In any run at all, with any number of checks on any number of loops
among other callers, no more requests are led than one for each check and each other caller,
and two for each check whose signature failed under a key its own URL was answered with
(`requests_of_run`). Every request names the check, or the caller, it is led for.

`FailedUnder` is a signature that has failed and `spent` the further requests a check can
have led by the stage it is in, which is what the induction counts.
-/

namespace OpenWebId

namespace Fetch

open Lib (Reaches run)

variable {σ κ : Type}

/-- A caller of the URL was answered with the key, the creator stated a span for it, and the
signature does not match under it. -/
structure FailedUnder (P : Provider σ κ) (w : World) (owid : Owid) (url : String)
    (tried : KeyAnswer) : Prop where
  answered : ∃ k ∈ w.callers, k.url = url ∧ ∃ sources, k.state = .answered (.ok tried) sources
  known : tried.known = true
  invalid : owid.signatureStatus P tried.pem = .signatureInvalid

/-- Whether the caller was answered with a key the signature has failed under. -/
def Caller.failed (P : Provider σ κ) (owid : Owid) (k : Caller) : Bool :=
  match k.state with
  | .answered (.ok tried) _ =>
    tried.known && decide (owid.signatureStatus P tried.pem = .signatureInvalid)
  | _ => false

/-- Whether the signature has failed under a key that the check's own URL was answered with. -/
def Check.failed (P : Provider σ κ) (w : World) (x : Check) : Bool :=
  w.callers.any fun k => decide (k.url = x.url) && k.failed P x.owid

/-- A check asks for the URL: it is the check's own, or the one of a minute just beyond an edge
of the span of a key that its signature has failed under. -/
def AskedBy (P : Provider σ κ) (w : World) (owid : Owid) (own url : String) : Prop :=
  url = own ∨ ∃ tried minute, FailedUnder P w owid own tried ∧
    minute ∈ beyond (minutesSinceBase owid.date) tried ∧
    url = dateUrl (endPointOf own) minute.toNat

/-- The further requests a check can have led. -/
def spent (P : Provider σ κ) (w : World) (x : Check) : Nat :=
  match x.stage with
  | .own => 0
  | .neighbour _ _ rest => 2 - rest.length
  | .done _ => if x.failed P w then 2 else 0

theorem spent_own {P : Provider σ κ} {w : World} {x : Check} (h : x.stage = .own) :
    spent P w x = 0 := by
  rw [spent, h]

theorem spent_neighbour {P : Provider σ κ} {w : World} {x : Check} {tried : KeyAnswer}
    {minute : Int} {rest : List Int} (h : x.stage = .neighbour tried minute rest) :
    spent P w x = 2 - rest.length := by
  rw [spent, h]

theorem spent_done {P : Provider σ κ} {w : World} {x : Check}
    {outcome : Except PyExc SignatureStatus} (h : x.stage = .done outcome) :
    spent P w x = if x.failed P w then 2 else 0 := by
  rw [spent, h]

/-- The event is a call of a caller that is no check. -/
def ProcessEvent.isCall : ProcessEvent → Bool
  | .world (.call ..) => true
  | _ => false

section Check

variable {P : Provider σ κ}

theorem FailedUnder.failed {w : World} {x : Check} {tried : KeyAnswer}
    (h : FailedUnder P w x.owid x.url tried) : x.failed P w = true := by
  obtain ⟨⟨k, hk, hurl, sources, hstate⟩, hknown, hinvalid⟩ := h
  rw [Check.failed, List.any_eq_true]
  refine ⟨k, hk, ?_⟩
  rw [Caller.failed, hstate]
  simp only [hurl, hknown, hinvalid, decide_true, Bool.and_self]

/-- No caller that was answered is forgotten. -/
def Remembers (w w' : World) : Prop :=
  ∀ k ∈ w.callers, ∀ result sources, k.state = .answered result sources → k ∈ w'.callers

theorem FailedUnder.later {w w' : World} {owid : Owid} {url : String} {tried : KeyAnswer}
    (h : FailedUnder P w owid url tried) (hw : Remembers w w') :
    FailedUnder P w' owid url tried := by
  obtain ⟨k, hk, hurl, sources, hstate⟩ := h.answered
  exact ⟨⟨k, hw k hk _ _ hstate, hurl, sources, hstate⟩, h.known, h.invalid⟩

theorem Check.failed_later {w w' : World} {x : Check} (h : x.failed P w = true)
    (hw : Remembers w w') : x.failed P w' = true := by
  rw [Check.failed, List.any_eq_true] at h ⊢
  obtain ⟨k, hk, hfailed⟩ := h
  refine ⟨k, ?_, hfailed⟩
  rw [Bool.and_eq_true, Caller.failed] at hfailed
  split at hfailed
  next tried sources hstate => exact hw k hk _ _ hstate
  next => cases hfailed.2

theorem AskedBy.later {w w' : World} {owid : Owid} {own url : String}
    (h : AskedBy P w owid own url) (hw : Remembers w w') : AskedBy P w' owid own url := by
  refine h.imp_right fun hbeyond => ?_
  obtain ⟨tried, minute, hfailed, hrest⟩ := hbeyond
  exact ⟨tried, minute, hfailed.later hw, hrest⟩

theorem spent_later {w w' : World} (x : Check) (hw : Remembers w w') :
    spent P w x ≤ spent P w' x := by
  unfold spent
  split
  next => exact Nat.le_refl _
  next => exact Nat.le_refl _
  next =>
    by_cases hfailed : x.failed P w = true
    · rw [if_pos hfailed, if_pos (Check.failed_later hfailed hw)]
    · rw [if_neg hfailed]
      exact Nat.zero_le _

theorem askNext_asks {owid : Owid} {tried tried' : KeyAnswer} {minutes rest : List Int}
    {minute : Int} (h : askNext owid tried minutes = .asks tried' minute rest) :
    tried' = tried ∧ minutes = minute :: rest := by
  cases minutes with
  | nil => cases h
  | cons first minutes =>
    cases h
    exact ⟨rfl, rfl⟩

/-- A check asks about another minute where its signature failed under the key it has tried,
and the minutes are those beyond the span stated for it. -/
theorem afterOwn_asks {owid : Owid} {result : Except PyExc KeyAnswer} {tried : KeyAnswer}
    {minute : Int} {rest : List Int} (h : afterOwn P owid result = .asks tried minute rest) :
    result = .ok tried ∧ tried.known = true ∧
      owid.signatureStatus P tried.pem = .signatureInvalid ∧
      beyond (minutesSinceBase owid.date) tried = minute :: rest := by
  cases result with
  | error e => cases h
  | ok answer =>
    simp only [afterOwn] at h
    split at h
    next => cases h
    next hinvalid =>
      split at h
      next => cases h
      next =>
        split at h
        next => cases h
        next hknown =>
          obtain ⟨rfl, hbeyond⟩ := askNext_asks h
          exact ⟨rfl, eq_true_of_ne_false hknown, not_not.mp hinvalid, hbeyond⟩

/-- A check that goes on to the next neighbour has one fewer to go. -/
theorem afterNeighbour_asks {owid : Owid} {tried tried' : KeyAnswer} {rest rest' : List Int}
    {minute : Int} {result : Except PyExc KeyAnswer}
    (h : afterNeighbour P owid tried rest result = .asks tried' minute rest') :
    tried' = tried ∧ rest = minute :: rest' := by
  cases result with
  | error e =>
    simp only [afterNeighbour] at h
    split at h
    next => exact askNext_asks h
    next => cases h
  | ok neighbour =>
    simp only [afterNeighbour] at h
    split at h
    next => exact askNext_asks h
    next =>
      split at h
      next => cases h
      next => exact askNext_asks h

end Check

section Process

variable {L : Stdlib} {P : Provider σ κ}

theorem Stepped.remembers {w w' : World} {event : Event} (h : Stepped L P w event w') :
    Remembers w w' := by
  intro k hk result sources hstate
  obtain ⟨i, hi⟩ := List.mem_iff_getElem?.mp hk
  obtain ⟨k', hk', hcarried⟩ := h.carried hi
  cases hcarried with
  | kept => exact List.mem_of_getElem? hk'
  | received hwaiting | cancelled hwaiting => cases hstate.symm.trans hwaiting

/-- Only a call leads a request, and it leads one at most. -/
theorem Stepped.length_fetches {w w' : World} {event : Event} (h : Stepped L P w event w') :
    w'.fetches.length ≤ w.fetches.length + 1 ∧
      ((∀ loop url domain now, event ≠ .call loop url domain now) →
        w'.fetches.length = w.fetches.length) := by
  have hsame : w'.fetches.length = w.fetches.length →
      w'.fetches.length ≤ w.fetches.length + 1 ∧
        ((∀ loop url domain now, event ≠ .call loop url domain now) →
          w'.fetches.length = w.fetches.length) :=
    fun hlength => ⟨by omega, fun _ => hlength⟩
  cases h with
  | led =>
    refine ⟨?_, fun hcall => absurd rfl (hcall _ _ _ _)⟩
    rw [List.length_append, List.length_singleton]
  | answered | joined | received | abandoned | cleared => exact hsame rfl
  | created | entered | skipped | held | failed | thrown | resolved => exact hsame List.length_set
  | shutdown => exact hsame (List.length_map _)

/-- What the induction carries: how many requests there are, which minutes the checks are
yet to ask about, and what each request was led for. -/
structure Budgeted (P : Provider σ κ) (events : List ProcessEvent) (p : Process) : Prop where
  within : p.world.fetches.length ≤ p.checks.length +
    (p.checks.map (spent P p.world)).sum + events.countP ProcessEvent.isCall
  neighbours : ∀ x ∈ p.checks, ∀ tried minute rest, x.stage = .neighbour tried minute rest →
    FailedUnder P p.world x.owid x.url tried ∧ rest.length < 2 ∧
      ∀ m ∈ rest, m ∈ beyond (minutesSinceBase x.owid.date) tried
  asked : ∀ y ∈ p.world.fetches,
    (∃ loop now, .world (.call loop y.url y.domain now) ∈ events) ∨
      ∃ x ∈ p.checks, y.domain = x.owid.domain ∧ AskedBy P p.world x.owid x.url y.url

/-- A step of the world that is no call leaves the budget. -/
theorem Budgeted.world {events : List ProcessEvent} {p : Process} (h : Budgeted P events p)
    {event : Event} {w : World} (hstepped : Stepped L P p.world event w) :
    Budgeted P (events ++ [.world event]) ⟨w.tick, p.checks⟩ := by
  have hremembers : Remembers p.world w.tick := hstepped.remembers
  have hspent : (p.checks.map (spent P p.world)).sum ≤ (p.checks.map (spent P w.tick)).sum :=
    List.sum_le_sum fun x _ => spent_later x hremembers
  have hlength := hstepped.length_fetches
  refine ⟨?_, ?_, ?_⟩
  · have hwithin := h.within
    rw [List.countP_append, List.countP_singleton]
    show w.fetches.length ≤ p.checks.length + (p.checks.map (spent P w.tick)).sum +
      (events.countP ProcessEvent.isCall + _)
    by_cases hcall : ∀ loop url domain now, event ≠ .call loop url domain now
    · have hsame := hlength.2 hcall
      omega
    · push Not at hcall
      obtain ⟨loop, url, domain, now, rfl⟩ := hcall
      have hone : (if ProcessEvent.isCall (.world (.call loop url domain now)) then 1 else 0) = 1 :=
        rfl
      omega
  · intro x hx tried minute rest hstage
    obtain ⟨hfailed, hrest⟩ := h.neighbours x hx tried minute rest hstage
    exact ⟨hfailed.later hremembers, hrest⟩
  · intro y hy
    rcases hstepped.leads hy with ⟨y₀, hy₀, hurl, hdomain, -⟩ | ⟨loop, now, rfl, -⟩
    · rw [hurl, hdomain]
      refine (h.asked y₀ hy₀).imp ?_ ?_
      · rintro ⟨loop, now, hmem⟩
        exact ⟨loop, now, List.mem_append_left _ hmem⟩
      · rintro ⟨x, hx, hsame, hasked⟩
        exact ⟨x, hx, hsame, hasked.later hremembers⟩
    · exact Or.inl ⟨loop, now, List.mem_append_right _ (List.mem_singleton_self _)⟩

/-- What a call that a check makes leads is led for the check. -/
theorem Budgeted.called {events : List ProcessEvent} {p : Process} (h : Budgeted P events p)
    {owid : Owid} {own : String} {loop : Nat} {url : String} {now : DateTime} {w : World}
    (hstepped : Stepped L P p.world (.call loop url owid.domain now) w)
    (hasked : AskedBy P p.world owid own url) {y : Fetching} (hy : y ∈ w.fetches) :
    (∃ loop now, .world (.call loop y.url y.domain now) ∈ events) ∨
      (∃ x ∈ p.checks, y.domain = x.owid.domain ∧ AskedBy P w.tick x.owid x.url y.url) ∨
      y.domain = owid.domain ∧ AskedBy P w.tick owid own y.url := by
  have hremembers : Remembers p.world w.tick := hstepped.remembers
  rcases hstepped.leads hy with ⟨y₀, hy₀, hurl, hdomain, -⟩ | ⟨loop', now', hevent, -⟩
  · rw [hurl, hdomain]
    refine (h.asked y₀ hy₀).imp_right fun hbefore => Or.inl ?_
    obtain ⟨x, hx, hsame, hasked'⟩ := hbefore
    exact ⟨x, hx, hsame, hasked'.later hremembers⟩
  · obtain ⟨-, hurl, hdomain, -⟩ := Event.call.inj hevent
    rw [← hurl, ← hdomain]
    exact Or.inr (Or.inr ⟨rfl, hasked.later hremembers⟩)

/-- A check that begins is one more that may ask for its own key. -/
theorem Budgeted.begun {events : List ProcessEvent} {p : Process} (h : Budgeted P events p)
    {loop : Nat} {owid : Owid} {url : String} {now : DateTime} {w : World}
    (hstepped : Stepped L P p.world (.call loop url owid.domain now) w) :
    Budgeted P (events ++ [.check loop owid url now])
      ⟨w.tick, p.checks ++ [⟨owid, url, loop, p.world.callers.length, .own⟩]⟩ := by
  have hremembers : Remembers p.world w.tick := hstepped.remembers
  have hspent : (p.checks.map (spent P p.world)).sum ≤ (p.checks.map (spent P w.tick)).sum :=
    List.sum_le_sum fun x _ => spent_later x hremembers
  refine ⟨?_, ?_, ?_⟩
  · have hwithin := h.within
    have hlength := hstepped.length_fetches.1
    rw [List.countP_append, List.countP_singleton, List.map_append, List.sum_append,
      List.length_append, List.length_singleton]
    show w.fetches.length ≤ p.checks.length + 1 + ((p.checks.map (spent P w.tick)).sum + _) +
      (events.countP ProcessEvent.isCall + 0)
    omega
  · intro x hx tried minute rest hstage
    rcases List.mem_append.mp hx with hx | hx
    · obtain ⟨hfailed, hrest⟩ := h.neighbours x hx tried minute rest hstage
      exact ⟨hfailed.later hremembers, hrest⟩
    · cases List.mem_singleton.mp hx
      cases hstage
  · intro y hy
    rcases h.called hstepped (Or.inl rfl) hy with ⟨loop, now, hmem⟩ | ⟨x, hx, hasked⟩ | hasked
    · exact Or.inl ⟨loop, now, List.mem_append_left _ hmem⟩
    · exact Or.inr ⟨x, List.mem_append_left _ hx, hasked⟩
    · exact Or.inr ⟨_, List.mem_append_right _ (List.mem_singleton_self _), hasked⟩

/-- A check that goes on may lead what it has then spent. -/
theorem Budgeted.resumed {events : List ProcessEvent} {p : Process} (h : Budgeted P events p)
    {c : Nat} {x y : Check} (hx : p.checks[c]? = some x) (howid : y.owid = x.owid)
    (hurl : y.url = x.url) {w : World} (hremembers : Remembers p.world w)
    (hspent : w.fetches.length + spent P w x ≤ p.world.fetches.length + spent P w y)
    (hneighbours : ∀ tried minute rest, y.stage = .neighbour tried minute rest →
      FailedUnder P w y.owid y.url tried ∧ rest.length < 2 ∧
        ∀ m ∈ rest, m ∈ beyond (minutesSinceBase y.owid.date) tried)
    (hasked : ∀ z ∈ w.fetches, (∃ loop now, .world (.call loop z.url z.domain now) ∈ events) ∨
      (∃ x ∈ p.checks, z.domain = x.owid.domain ∧ AskedBy P w x.owid x.url z.url) ∨
      z.domain = x.owid.domain ∧ AskedBy P w x.owid x.url z.url) (now : DateTime) :
    Budgeted P (events ++ [.resume c now]) ⟨w, p.checks.set c y⟩ := by
  have hlater : (p.checks.map (spent P p.world)).sum ≤ (p.checks.map (spent P w)).sum :=
    List.sum_le_sum fun x _ => spent_later x hremembers
  refine ⟨?_, ?_, ?_⟩
  · have hwithin := h.within
    have hset := Lib.sum_map_set (spent P w) hx y
    rw [List.countP_append, List.countP_singleton]
    show w.fetches.length ≤ (p.checks.set c y).length + ((p.checks.set c y).map (spent P w)).sum +
      (events.countP ProcessEvent.isCall + 0)
    rw [List.length_set]
    omega
  · intro z hz tried minute rest hstage
    rcases List.mem_or_eq_of_mem_set hz with hz | rfl
    · obtain ⟨hfailed, hrest⟩ := h.neighbours z hz tried minute rest hstage
      exact ⟨hfailed.later hremembers, hrest⟩
    · exact hneighbours tried minute rest hstage
  · have hy : y ∈ p.checks.set c y := List.mem_set (List.getElem?_eq_some_iff.mp hx).1 y
    have hyasked : ∀ {z : Fetching}, z.domain = x.owid.domain →
        AskedBy P w x.owid x.url z.url → ∃ x ∈ p.checks.set c y, z.domain = x.owid.domain ∧
          AskedBy P w x.owid x.url z.url := by
      intro z hdomain hask
      refine ⟨y, hy, ?_⟩
      rw [howid, hurl]
      exact ⟨hdomain, hask⟩
    intro z hz
    rcases hasked z hz with ⟨loop, now, hmem⟩ | ⟨x', hx', hdomain, hask⟩ | ⟨hdomain, hask⟩
    · exact Or.inl ⟨loop, now, List.mem_append_left _ hmem⟩
    · obtain ⟨i, hi⟩ := List.mem_iff_getElem?.mp hx'
      by_cases hci : c = i
      · -- the check that goes on
        subst hci
        cases hx.symm.trans hi
        exact Or.inr (hyasked hdomain hask)
      · have hkept : (p.checks.set c y)[i]? = some x' := by rw [List.getElem?_set_ne hci, hi]
        exact Or.inr ⟨x', List.mem_of_getElem? hkept, hdomain, hask⟩
    · exact Or.inr (hyasked hdomain hask)

/-- What a check has tried when it asks about another minute. -/
theorem Budgeted.tried {events : List ProcessEvent} {p : Process} (h : Budgeted P events p)
    (hreach : Reaches (processStep L P) (fun _ _ => True) .start p) {c : Nat} {x : Check}
    (hx : p.checks[c]? = some x) {result : Except PyExc KeyAnswer}
    (hresult : p.world.returned x.caller = some result) {tried : KeyAnswer} {minute : Int}
    {rest : List Int} (hafter : x.after P result = some (.asks tried minute rest)) :
    FailedUnder P p.world x.owid x.url tried ∧
      (∀ m ∈ minute :: rest, m ∈ beyond (minutesSinceBase x.owid.date) tried) ∧
      spent P p.world x + rest.length + 1 ≤ 2 := by
  have hmem := List.mem_of_getElem? hx
  unfold Check.after at hafter
  cases hstage : x.stage with
  | done outcome =>
    rw [hstage] at hafter
    cases hafter
  | own =>
    rw [hstage] at hafter
    obtain ⟨rfl, hknown, hinvalid, hbeyond⟩ := afterOwn_asks (Option.some.inj hafter)
    have hawaited : x.awaited = some x.url := by rw [Check.awaited, hstage]
    obtain ⟨caller, hk, hurl⟩ := called_of_reaches hreach hmem hawaited
    have hanswered : ∃ sources, caller.state = .answered (.ok tried) sources := by
      rw [World.returned, hk, Option.bind_some] at hresult
      cases hstate : caller.state with
      | answered result sources =>
        rw [hstate] at hresult
        cases hresult
        exact ⟨sources, rfl⟩
      | cancelled | waiting =>
        rw [hstate] at hresult
        cases hresult
    refine ⟨⟨⟨caller, List.mem_of_getElem? hk, hurl, hanswered⟩, hknown, hinvalid⟩,
      fun m hm => hbeyond ▸ hm, ?_⟩
    have hlength := length_beyond (minutesSinceBase x.owid.date) tried
    rw [hbeyond, List.length_cons] at hlength
    rw [spent_own hstage]
    omega
  | neighbour tried₀ minute₀ rest₀ =>
    rw [hstage] at hafter
    obtain ⟨rfl, rfl⟩ := afterNeighbour_asks (Option.some.inj hafter)
    obtain ⟨hfailed, hshort, hbeyond⟩ := h.neighbours x hmem tried minute₀ (minute :: rest) hstage
    rw [List.length_cons] at hshort
    refine ⟨hfailed, hbeyond, ?_⟩
    rw [spent_neighbour hstage, List.length_cons]
    omega

/-- A check has spent more than its own request only where its signature has failed. -/
theorem Budgeted.spent_le {events : List ProcessEvent} {p : Process} (h : Budgeted P events p)
    {x : Check} (hx : x ∈ p.checks) :
    spent P p.world x ≤ if x.failed P p.world then 2 else 0 := by
  cases hstage : x.stage with
  | own =>
    rw [spent_own hstage]
    exact Nat.zero_le _
  | neighbour tried minute rest =>
    have hfailed := (h.neighbours x hx tried minute rest hstage).1.failed
    rw [spent_neighbour hstage, if_pos hfailed]
    exact Nat.sub_le 2 _
  | done outcome => rw [spent_done hstage]

/-- **Every step keeps to the budget.** -/
theorem Budgeted.step {events : List ProcessEvent} {p p' : Process} {event : ProcessEvent}
    (h : Budgeted P events p) (hreach : Reaches (processStep L P) (fun _ _ => True) .start p)
    (hturned : Turned L P p event p') : Budgeted P (events ++ [event]) p' := by
  cases hturned with
  | world hstep =>
    obtain ⟨w, hstepped, rfl⟩ := step_stepped hstep
    exact h.world hstepped
  | begun hstep =>
    obtain ⟨w, hstepped, rfl⟩ := step_stepped hstep
    exact h.begun hstepped
  | @ended c now x result outcome hx hidle hresult hafter =>
    have hspent := h.spent_le (List.mem_of_getElem? hx)
    refine h.resumed (y := { x with stage := .done outcome }) hx rfl rfl
      (fun k hk _ _ _ => hk) (Nat.add_le_add_left hspent _) ?_ ?_ now
    · intro tried minute rest hstage
      cases hstage
    · intro z hz
      exact (h.asked z hz).imp_right Or.inl
  | @asked c now x result tried minute rest w hx hidle hresult hafter hstep =>
    obtain ⟨w, hstepped, rfl⟩ := step_stepped hstep
    have hremembers : Remembers p.world w.tick := hstepped.remembers
    obtain ⟨hfailed, hbeyond, hspent⟩ := h.tried hreach hx hresult hafter
    have hspent' : spent P w.tick x = spent P p.world x := by
      unfold Check.after at hafter
      cases hstage : x.stage with
      | own => rw [spent_own hstage, spent_own hstage]
      | neighbour => rw [spent_neighbour hstage, spent_neighbour hstage]
      | done =>
        rw [hstage] at hafter
        cases hafter
    let y : Check :=
      { x with caller := p.world.callers.length, stage := .neighbour tried minute rest }
    have hy : spent P w.tick y = 2 - rest.length := spent_neighbour rfl
    refine h.resumed (y := y) hx rfl rfl hremembers ?_ ?_ ?_ now
    · have hlength : w.tick.fetches.length ≤ p.world.fetches.length + 1 :=
        hstepped.length_fetches.1
      rw [hspent', hy]
      omega
    · intro tried' minute' rest' hstage
      cases hstage
      exact ⟨hfailed.later hremembers, by omega,
        fun m hm => hbeyond m (List.mem_cons_of_mem _ hm)⟩
    · intro z hz
      refine h.called hstepped (Or.inr ?_) hz
      exact ⟨tried, minute, hfailed, hbeyond minute (List.mem_cons_self ..), rfl⟩

/-- **What the checks of a run cost.** In any run, with any number of checks among other
callers, on any number of loops: there is at most one request for each check and for each
call that is no check's, and two more for each check whose signature failed under a key that
its own URL was answered with. Each request was led for a call that is no check's, or for a
check's own key, or for that of a minute just beyond the span of such a key. -/
theorem requests_of_run {events : List ProcessEvent} {p : Process}
    (h : run (processStep L P) .start events = some p) :
    p.world.fetches.length ≤ p.checks.length + 2 * p.checks.countP (Check.failed P p.world) +
      events.countP ProcessEvent.isCall ∧
    ∀ y ∈ p.world.fetches, (∃ loop now, .world (.call loop y.url y.domain now) ∈ events) ∨
      ∃ x ∈ p.checks, y.domain = x.owid.domain ∧ AskedBy P p.world x.owid x.url y.url := by
  have hstart : Budgeted P [] .start :=
    ⟨Nat.le_refl _, fun _ hx => absurd hx List.not_mem_nil, fun _ hy => absurd hy List.not_mem_nil⟩
  have hbudget : Budgeted P events p :=
    Lib.run_invariant (I := Budgeted P) hstart
      (fun _ _ _ _ hreach hbudget hstep => hbudget.step hreach (processStep_turned hstep)) h
  have hspent : (p.checks.map (spent P p.world)).sum ≤
      (p.checks.map fun x => if x.failed P p.world then 2 else 0).sum :=
    List.sum_le_sum fun _ hx => hbudget.spent_le hx
  rw [Lib.sum_map_ite] at hspent
  have hwithin := hbudget.within
  exact ⟨by omega, hbudget.asked⟩

end Process

/-- A check whose signature fails under its own key and is verified by the neighbour, one that is
answered from the cache and fails, and a call to another end point. -/
def costedEvents : List ProcessEvent :=
  let now := atMinute 300 minute300_le
  [.check 0 earlyEnvelope.owid (dateUrl endPointAB 90) now, .world (.createTask 0),
    .world (.start 0), .world (.complete 0 latestTurn), .world (.resolve 0), .world (.receive 0),
    .resume 0 now, .world (.createTask 1), .world (.start 1), .world (.complete 1 latestTurn),
    .world (.resolve 1), .world (.receive 1), .resume 0 now,
    .check 1 staleEnvelope.owid (dateUrl endPointAB 150) now, .resume 1 now,
    .world (.call 0 (dateUrl (endPoint "https" "c.d" .version3) 30) "c.d" now)]

theorem costedEvents_run :
    (run (processStep laterStdlib .plain) .start costedEvents).map (fun p =>
        (p.world.fetches.length, p.checks.length,
          p.checks.countP (Check.failed Provider.plain p.world))) = some (3, 2, 2) := by
  decide +kernel

theorem requests_of_run_rotated :
    ∃ p, run (processStep laterStdlib Provider.plain) .start costedEvents = some p ∧
      p.world.fetches.length = 3 ∧ p.checks.length = 2 ∧
      p.checks.countP (Check.failed Provider.plain p.world) = 2 ∧
      costedEvents.countP ProcessEvent.isCall = 1 ∧
      p.world.fetches.length ≤ p.checks.length +
        2 * p.checks.countP (Check.failed Provider.plain p.world) +
        costedEvents.countP ProcessEvent.isCall ∧
      ∀ y ∈ p.world.fetches, (∃ loop now, .world (.call loop y.url y.domain now) ∈ costedEvents) ∨
        ∃ x ∈ p.checks, y.domain = x.owid.domain ∧
          AskedBy Provider.plain p.world x.owid x.url y.url := by
  obtain ⟨p, hrun, hfacts⟩ := Option.map_eq_some_iff.mp costedEvents_run
  simp only [Prod.mk.injEq] at hfacts
  obtain ⟨hfetches, hchecks, hfailed⟩ := hfacts
  exact ⟨p, hrun, hfetches, hchecks, hfailed, rfl, requests_of_run hrun⟩

end Fetch

end OpenWebId
