import OpenWebId.SingleFlight

/-!
# Signature checks in flight: `_signature_status_at_url` among other callers

`signatureStatusAtUrl` is one check with nobody else about. Here any number of checks run
in one process, on any number of event loops, among the callers, fetches, cancellations,
shutdowns and clearings of `World`. A check gives way only while it awaits a key, so its
stages are the calls of `_key_at_url` it makes: for the OWID's own minute, and for each
minute just beyond an edge of the span of the key it has tried. `afterOwn` and
`afterNeighbour` are what it does with a key that arrives, up to its next call or its end.

A check whose key is already held goes on in the same step of its loop. Here another step
may come in between, so there are more runs than the code has, and what holds of all of
them holds of those.

`Turned` is the inversion of a step. `AllTold` is the rule for what the checks are told:
where the cache, a completed request and a cancellation tell them only what `T` allows,
every key that arrives at a check is one that `T` allows.
-/

namespace OpenWebId

namespace Fetch

open Lib (Reaches run)

variable {σ κ : Type}

/-- Where a call of `_signature_status_at_url` stands. -/
inductive Stage
  /-- It awaits the key for the OWID's own minute. -/
  | own
  /-- It has tried this key, and awaits the one for a minute just beyond an edge of its
  span. These minutes are still to be asked about. -/
  | neighbour (tried : KeyAnswer) (minute : Int) (rest : List Int)
  | done (result : Except PyExc SignatureStatus)

/-- A call of `_signature_status_at_url`, with the caller of `_key_at_url` it is or was
last. -/
structure Check where
  owid : Owid
  url : String
  loop : Nat
  caller : Nat
  stage : Stage

/-- The process with the checks there have been. -/
structure Process where
  world : World
  checks : List Check

/-- A process that has checked nothing. -/
def Process.start : Process := ⟨.start, []⟩

/-- What a check comes to: its end, or a call for another minute. -/
inductive Goes
  | ends (result : Except PyExc SignatureStatus)
  | asks (tried : KeyAnswer) (minute : Int) (rest : List Int)

/-- The status of a signature that does not match under the key tried, where no
neighbouring key verified. -/
def unverified (owid : Owid) (tried : KeyAnswer) : SignatureStatus :=
  if tried.known = true ∧ tried.covers (minutesSinceBase owid.date) = false then .keyUnavailable
  else .signatureInvalid

/-- `_neighbour_verifies` from the head of its loop. -/
def askNext (owid : Owid) (tried : KeyAnswer) : List Int → Goes
  | [] => .ends (.ok (unverified owid tried))
  | minute :: rest => .asks tried minute rest

/-- `_signature_status_at_url` from its first key on. -/
def afterOwn (P : Provider σ κ) (owid : Owid) : Except PyExc KeyAnswer → Goes
  | .error e => .ends (failedStatus e)
  | .ok answer =>
    let status := owid.signatureStatus P answer.pem
    if status ≠ .signatureInvalid then .ends (.ok status)
    else
      let minute := minutesSinceBase owid.date
      if minute < 0 then .ends (.ok status)
      else if answer.known = false then .ends (.ok status)
      else askNext owid answer (beyond minute answer)

/-- `_neighbour_verifies` from the key for a minute it asked about on. -/
def afterNeighbour (P : Provider σ κ) (owid : Owid) (tried : KeyAnswer) (rest : List Int) :
    Except PyExc KeyAnswer → Goes
  | .error e => if e.isOwidError then askNext owid tried rest else .ends (.error e)
  | .ok neighbour =>
    if neighbour.pem = tried.pem then askNext owid tried rest
    else if owid.signatureStatus P neighbour.pem = .signatureValid then .ends (.ok .signatureValid)
    else askNext owid tried rest

/-- What a check does with what its call came to. -/
def Check.after (P : Provider σ κ) (x : Check) (result : Except PyExc KeyAnswer) : Option Goes :=
  match x.stage with
  | .own => some (afterOwn P x.owid result)
  | .neighbour tried _ rest => some (afterNeighbour P x.owid tried rest result)
  | .done _ => none

/-- The URL of the end point for another minute. -/
def Check.urlAt (x : Check) (minute : Int) : String :=
  dateUrl (endPointOf x.url) minute.toNat

/-- The URL whose key a check awaits. -/
def Check.awaited (x : Check) : Option String :=
  match x.stage with
  | .own => some x.url
  | .neighbour _ minute _ => some (x.urlAt minute)
  | .done _ => none

/-- What a caller of `_key_at_url` has come to. -/
def World.returned (w : World) (k : Nat) : Option (Except PyExc KeyAnswer) :=
  (w.callers[k]?).bind fun caller =>
    match caller.state with
    | .answered result _ => some result
    | .cancelled => some (.error .cancelledError)
    | .waiting _ => none

/-- The atomic steps of a process. -/
inductive ProcessEvent
  /-- A step that is no check's. -/
  | world (event : Event)
  /-- A check is called for, and runs to the end of the lock-held section of its first
  `_key_at_url`. -/
  | check (loop : Nat) (owid : Owid) (url : String) (now : DateTime)
  /-- The call a check awaits has come to something, and it goes on to its next or ends. -/
  | resume (c : Nat) (now : DateTime)

/-- One step of a process. -/
def processStep (L : Stdlib) (P : Provider σ κ) (p : Process) : ProcessEvent → Option Process
  | .world event => (step L P p.world event).map fun w => { p with world := w }
  | .check loop owid url now =>
    (step L P p.world (.call loop url owid.domain now)).map fun w =>
      ⟨w, p.checks ++ [⟨owid, url, loop, p.world.callers.length, .own⟩]⟩
  | .resume c now =>
    (p.checks[c]?).bind fun x =>
      if p.world.busy x.loop then none
      else
        (p.world.returned x.caller).bind fun result =>
          match x.after P result with
          | none => none
          | some (.ends outcome) =>
            some { p with checks := p.checks.set c { x with stage := .done outcome } }
          | some (.asks tried minute rest) =>
            (step L P p.world (.call x.loop (x.urlAt minute) x.owid.domain now)).map fun w =>
              ⟨w, p.checks.set c
                { x with caller := p.world.callers.length, stage := .neighbour tried minute rest }⟩

/-! ## The inversion of a step -/

/-- Everything a step of a process can do. -/
inductive Turned (L : Stdlib) (P : Provider σ κ) (p : Process) : ProcessEvent → Process → Prop
  | world {event : Event} {w : World} (hstep : step L P p.world event = some w) :
      Turned L P p (.world event) ⟨w, p.checks⟩
  | begun {loop : Nat} {owid : Owid} {url : String} {now : DateTime} {w : World}
      (hstep : step L P p.world (.call loop url owid.domain now) = some w) :
      Turned L P p (.check loop owid url now)
        ⟨w, p.checks ++ [⟨owid, url, loop, p.world.callers.length, .own⟩]⟩
  | ended {c : Nat} {now : DateTime} {x : Check} {result : Except PyExc KeyAnswer}
      {outcome : Except PyExc SignatureStatus} (hx : p.checks[c]? = some x)
      (hidle : p.world.busy x.loop = false) (hresult : p.world.returned x.caller = some result)
      (hafter : x.after P result = some (.ends outcome)) :
      Turned L P p (.resume c now)
        ⟨p.world, p.checks.set c { x with stage := .done outcome }⟩
  | asked {c : Nat} {now : DateTime} {x : Check} {result : Except PyExc KeyAnswer}
      {tried : KeyAnswer} {minute : Int} {rest : List Int} {w : World}
      (hx : p.checks[c]? = some x) (hidle : p.world.busy x.loop = false)
      (hresult : p.world.returned x.caller = some result)
      (hafter : x.after P result = some (.asks tried minute rest))
      (hstep : step L P p.world (.call x.loop (x.urlAt minute) x.owid.domain now) = some w) :
      Turned L P p (.resume c now)
        ⟨w, p.checks.set c
          { x with caller := p.world.callers.length, stage := .neighbour tried minute rest }⟩

/-- **The inversion of a step.** -/
theorem processStep_turned {L : Stdlib} {P : Provider σ κ} {p p' : Process} {event : ProcessEvent}
    (h : processStep L P p event = some p') : Turned L P p event p' := by
  cases event with
  | world event =>
    obtain ⟨w, hstep, rfl⟩ := Option.map_eq_some_iff.mp h
    exact .world hstep
  | check loop owid url now =>
    obtain ⟨w, hstep, rfl⟩ := Option.map_eq_some_iff.mp h
    exact .begun hstep
  | resume c now =>
    obtain ⟨x, hx, h⟩ := Option.bind_eq_some_iff.mp h
    split at h
    next => cases h
    next hidle =>
      rw [Bool.not_eq_true] at hidle
      obtain ⟨result, hresult, h⟩ := Option.bind_eq_some_iff.mp h
      split at h
      next => cases h
      next outcome hafter =>
        cases h
        exact .ended hx hidle hresult hafter
      next tried minute rest hafter =>
        obtain ⟨w, hstep, rfl⟩ := Option.map_eq_some_iff.mp h
        exact .asked hx hidle hresult hafter hstep

/-- Each of these things is what the step does. -/
theorem Turned.step {L : Stdlib} {P : Provider σ κ} {p p' : Process} {event : ProcessEvent}
    (h : Turned L P p event p') : processStep L P p event = some p' := by
  cases h with
  | world hstep => simp only [processStep, hstep, Option.map_some]
  | begun hstep => simp only [processStep, hstep, Option.map_some]
  | ended hx hidle hresult hafter =>
    simp only [processStep, hx, hidle, hresult, hafter, Option.bind_some]
    rfl
  | asked hx hidle hresult hafter hstep =>
    simp only [processStep, hx, hidle, hresult, hafter, hstep, Option.bind_some, Option.map_some]
    rfl

/-- What a step of a process does to the world is a step of the world, or nothing. -/
theorem Turned.world_reaches {L : Stdlib} {P : Provider σ κ} {ok : World → Event → Prop}
    (hcall : ∀ w loop url domain now, ok w (.call loop url domain now)) {p p' : Process}
    {event : ProcessEvent} (h : Turned L P p event p')
    (hok : ∀ e, event = .world e → ok p.world e) :
    Reaches (Fetch.step L P) ok p.world p'.world := by
  cases h with
  | world hstep => exact .next _ .start (hok _ rfl) hstep
  | begun hstep => exact .next _ .start (hcall ..) hstep
  | ended => exact .start
  | asked _ _ _ _ hstep => exact .next _ .start (hcall ..) hstep

/-- The world of a process is one that its callers and fetches reach by themselves, under a
condition that calls meet and the process keeps to. -/
theorem world_reaches_of {L : Stdlib} {P : Provider σ κ} {ok : World → Event → Prop}
    {okP : Process → ProcessEvent → Prop}
    (hcall : ∀ w loop url domain now, ok w (.call loop url domain now))
    (hok : ∀ p e, okP p (.world e) → ok p.world e) {p p' : Process}
    (h : Reaches (processStep L P) okP p p') : Reaches (step L P) ok p.world p'.world := by
  refine h.simulates Process.world ?_
  intro p event p' hokP hstep
  refine (processStep_turned hstep).world_reaches hcall ?_
  intro e he
  exact hok p e (he ▸ hokP)

theorem world_of_reaches {L : Stdlib} {P : Provider σ κ} {ok : Process → ProcessEvent → Prop}
    {p : Process} (h : Reaches (processStep L P) ok .start p) :
    Reaches (step L P) (fun _ _ => True) .start p.world :=
  world_reaches_of (fun _ _ _ _ _ => trivial) (fun _ _ _ => trivial) h

/-! ## What a call comes to -/

/-- What a caller of `_key_at_url` has come to or, where its fetch has ended, will. -/
def World.comesTo (w : World) (k : Nat) : Option (Except PyExc KeyAnswer) :=
  (w.callers[k]?).bind fun caller =>
    match caller.state with
    | .answered result _ => some result
    | .cancelled => some (.error .cancelledError)
    | .waiting f => (w.fetches[f]?).bind Fetching.outcome

theorem World.comesTo_of_returned {w : World} {k : Nat} {result : Except PyExc KeyAnswer}
    (h : w.returned k = some result) : w.comesTo k = some result := by
  obtain ⟨caller, hk, h⟩ := Option.bind_eq_some_iff.mp h
  rw [World.comesTo, hk, Option.bind_some]
  cases hstate : caller.state with
  | answered result' sources =>
    rw [hstate] at h
    exact h
  | cancelled =>
    rw [hstate] at h
    exact h
  | waiting f =>
    rw [hstate] at h
    cases h

theorem World.comesTo_waiting {w : World} {k f : Nat} {caller : Caller} {x : Fetching}
    (hk : w.callers[k]? = some caller) (hwaiting : caller.state = .waiting f)
    (hx : w.fetches[f]? = some x) : w.comesTo k = x.outcome := by
  rw [World.comesTo, hk, Option.bind_some, hwaiting]
  simp only
  rw [hx, Option.bind_some]

/-- What a step makes of what a caller comes to: nothing, the end of the fetch it waits on,
or its cancellation. -/
inductive Came (L : Stdlib) (P : Provider σ κ) (w : World) (event : Event) (caller : Caller)
    (before after : Option (Except PyExc KeyAnswer)) : Prop
  | kept (hsame : after = before)
  | completed {f : Nat} {x : Fetching} (hwaiting : caller.state = .waiting f)
      (hx : w.fetches[f]? = some x) (hevent : event.Completes f)
      (hafter : after = some (x.completion L P event))
  | cancelled (hafter : after = some (.error .cancelledError))

/-- **What a step makes of what a caller comes to.** -/
theorem Stepped.came {L : Stdlib} {P : Provider σ κ} {w w' : World} {event : Event}
    (h : Stepped L P w event w') (hw : Coherent w) (hsep : Separate w) {k : Nat} {caller : Caller}
    (hk : w.callers[k]? = some caller) :
    ∃ caller', w'.callers[k]? = some caller' ∧ caller'.url = caller.url ∧
      Came L P w event caller (w.comesTo k) (w'.comesTo k) := by
  obtain ⟨caller', hk', hcarried⟩ := h.carried hk
  cases hcarried with
  | cancelled hwaiting =>
    refine ⟨_, hk', rfl, .cancelled ?_⟩
    rw [World.comesTo, hk', Option.bind_some]
  | @received f x outcome hwaiting hx hfuture =>
    -- the outcome of the fetch was the future's already
    refine ⟨_, hk', rfl, .kept ?_⟩
    have hfinished : x.phase = .finished := hsep.isSealed f x hx (by rw [hfuture]; rfl)
    rw [World.comesTo_waiting hk hwaiting hx, Fetching.outcome, hfinished, hfuture,
      World.comesTo, hk', Option.bind_some]
  | kept =>
    refine ⟨caller, hk', rfl, ?_⟩
    cases hstate : caller.state with
    | answered result sources =>
      refine .kept ?_
      rw [World.comesTo, World.comesTo, hk, hk', Option.bind_some, Option.bind_some, hstate]
    | cancelled =>
      refine .kept ?_
      rw [World.comesTo, World.comesTo, hk, hk', Option.bind_some, Option.bind_some, hstate]
    | waiting f =>
      obtain ⟨x, hx, -⟩ := hw.waiting caller (List.mem_of_getElem? hk) f hstate
      obtain ⟨y, hy, hmoved⟩ := h.fetches.forward hx
      rw [World.comesTo_waiting hk hstate hx, World.comesTo_waiting hk' hstate hy]
      cases houtcome : x.outcome with
      | some outcome => exact .kept (hmoved.outcome_kept (hsep.isSealed f x hx) houtcome)
      | none =>
        rcases hmoved.outcome_none houtcome with hnone | hevent
        · exact .kept hnone
        · refine .completed hstate hx hevent ?_
          obtain ⟨x', hx', -, hy'⟩ := h.completed hevent
          cases hx.symm.trans hx'
          cases hy.symm.trans hy'
          rfl

theorem World.addCaller_last (w : World) (loop : Nat) (url : String) (state : CallerState) :
    (w.addCaller loop url state).callers[w.callers.length]? = some ⟨loop, url, w.clock, state⟩ :=
  List.getElem?_concat_length

/-- What a caller that has just called comes to: the key held for its URL, or nothing
yet. -/
theorem Stepped.came_new {L : Stdlib} {P : Provider σ κ} {w w' : World} {loop : Nat}
    {url domain : String} {now : DateTime} (h : Stepped L P w (.call loop url domain now) w')
    (hw : Coherent w) (hsep : Separate w) :
    ∃ caller, w'.callers[w.callers.length]? = some caller ∧ caller.url = url ∧
      ∀ result, w'.comesTo w.callers.length = some result →
        ∃ held, heldFor w.cache now (endPointOf url) url = some held ∧ result = .ok held := by
  cases h with
  | @answered _ _ _ _ held hidle hheld =>
    have hk := w.addCaller_last loop url
      (.answered (.ok held) (w.sourcesOf (endPointOf url) held.pem))
    refine ⟨_, hk, rfl, ?_⟩
    intro result hresult
    rw [World.comesTo, hk, Option.bind_some] at hresult
    exact ⟨held, hheld, (Option.some.inj hresult).symm⟩
  | @joined _ _ _ _ f hidle hheld hentry =>
    -- a fetch that can be joined has not ended
    have hk := w.addCaller_last loop url (.waiting f)
    refine ⟨_, hk, rfl, ?_⟩
    intro result hresult
    obtain ⟨x, hx, -⟩ := hw.entry url f hentry
    rw [World.comesTo_waiting hk rfl hx, hsep.joinable url f hentry x hx] at hresult
    cases hresult
  | led hidle hheld hentry =>
    refine ⟨_, w.addCaller_last loop url (.waiting w.fetches.length), rfl, ?_⟩
    intro result hresult
    -- the future is new
    have hnone := (World.comesTo_waiting (by exact w.addCaller_last loop url _) (by rfl)
      (by exact List.getElem?_concat_length)).symm.trans hresult
    cases hnone

/-! ## What the checks are told -/

/-- The check awaits the outcome of the fetch. -/
def Check.Awaits (w : World) (x : Check) (f : Nat) : Prop :=
  ∃ caller, w.callers[x.caller]? = some caller ∧ caller.state = .waiting f

/-- What the call of every check comes to is something `T` allows of the check's OWID and
the URL it awaits the key of. -/
def AllTold (T : Owid → String → Except PyExc KeyAnswer → Prop) (p : Process) : Prop :=
  ∀ x ∈ p.checks, ∀ url, x.awaited = some url →
    ∃ caller, p.world.callers[x.caller]? = some caller ∧ caller.url = url ∧
      ∀ result, p.world.comesTo x.caller = some result → T x.owid url result

/-- `T` allows what a step can tell a check: a key held, the end of a fetch awaited, and a
cancellation. -/
structure Tells (L : Stdlib) (P : Provider σ κ) (T : Owid → String → Except PyExc KeyAnswer → Prop)
    (p : Process) (event : ProcessEvent) : Prop where
  held : ∀ owid now url answer, heldFor p.world.cache now (endPointOf url) url = some answer →
    T owid url (.ok answer)
  completed : ∀ (f : Nat) turn, event = .world (.complete f turn) → ∀ y,
    p.world.fetches[f]? = some y → ∀ x ∈ p.checks, x.Awaits p.world f →
      T x.owid y.url (y.completion L P (.complete f turn))
  cancelled : ∀ owid url, T owid url (.error .cancelledError)

section Told

variable {L : Stdlib} {P : Provider σ κ} {T : Owid → String → Except PyExc KeyAnswer → Prop}
  {p : Process}

/-- What a step of the world leaves the checks told. -/
theorem AllTold.world (h : AllTold T p) (hw : Coherent p.world) (hsep : Separate p.world)
    {e : ProcessEvent} (hT : Tells L P T p e) {event : Event}
    (hcomplete : ∀ (f : Nat) turn, event = .complete f turn → e = .world event) {w : World}
    (hstep : step L P p.world event = some w) : AllTold T ⟨w, p.checks⟩ := by
  obtain ⟨w₁, hstepped, rfl⟩ := step_stepped hstep
  intro x hx url hurl
  obtain ⟨caller, hk, rfl, htold⟩ := h x hx url hurl
  obtain ⟨caller', hk', hurl', hcame⟩ := hstepped.came hw hsep hk
  refine ⟨caller', hk', hurl', ?_⟩
  intro result hresult
  cases hcame with
  | kept hsame => exact htold result (hsame.symm.trans hresult)
  | cancelled hafter =>
    cases hafter.symm.trans hresult
    exact hT.cancelled x.owid caller.url
  | @completed f y hwaiting hy hevent hafter =>
    cases hafter.symm.trans hresult
    -- the fetch is for the URL the check called for
    obtain ⟨y', hy', hyurl, -⟩ := hw.waiting caller (List.mem_of_getElem? hk) f hwaiting
    cases hy.symm.trans hy'
    rw [← hyurl]
    rcases hevent with ⟨turn, rfl⟩ | rfl
    · exact hT.completed f turn (hcomplete f turn rfl) y hy x hx ⟨caller, hk, hwaiting⟩
    · exact hT.cancelled x.owid y.url

/-- What a call leaves its caller told. -/
theorem Tells.called {event : ProcessEvent} (hT : Tells L P T p event) (hw : Coherent p.world)
    (hsep : Separate p.world) {loop : Nat} {url domain : String} {now : DateTime} {w : World}
    (hstep : step L P p.world (.call loop url domain now) = some w) (owid : Owid) :
    ∃ caller, w.callers[p.world.callers.length]? = some caller ∧ caller.url = url ∧
      ∀ result, w.comesTo p.world.callers.length = some result → T owid url result := by
  obtain ⟨w₁, hstepped, rfl⟩ := step_stepped hstep
  obtain ⟨caller, hk, hurl, hcame⟩ := hstepped.came_new hw hsep
  refine ⟨caller, hk, hurl, ?_⟩
  intro result hresult
  obtain ⟨held, hheld, rfl⟩ := hcame result hresult
  exact hT.held owid now url held hheld

/-- **The rule for what the checks are told.** -/
theorem AllTold.step (h : AllTold T p) (hw : Coherent p.world) (hsep : Separate p.world)
    {p' : Process} {event : ProcessEvent} (hT : Tells L P T p event)
    (hturned : Turned L P p event p') : AllTold T p' := by
  cases hturned with
  | world hstep => exact h.world hw hsep hT (fun f turn _ => rfl) hstep
  | begun hstep =>
    have hold := h.world hw hsep hT (fun f turn hevent => by cases hevent) hstep
    intro x hx url hurl
    rcases List.mem_append.mp hx with hx | hx
    · exact hold x hx url hurl
    · cases List.mem_singleton.mp hx
      cases hurl
      exact hT.called hw hsep hstep _
  | ended hx =>
    intro y hy url hurl
    rcases List.mem_or_eq_of_mem_set hy with hy | hy
    · exact h y hy url hurl
    · -- a check that has ended awaits nothing
      subst hy
      cases hurl
  | asked hx _ _ _ hstep =>
    have hold := h.world hw hsep hT (fun f turn hevent => by cases hevent) hstep
    intro y hy url hurl
    rcases List.mem_or_eq_of_mem_set hy with hy | hy
    · exact hold y hy url hurl
    · subst hy
      cases hurl
      exact hT.called hw hsep hstep _

/-- What a check goes on with is something it was told. -/
theorem AllTold.returned (h : AllTold T p) {c : Nat} {x : Check}
    (hx : p.checks[c]? = some x) {result : Except PyExc KeyAnswer}
    (hresult : p.world.returned x.caller = some result) {url : String}
    (hurl : x.awaited = some url) : T x.owid url result := by
  obtain ⟨caller, -, -, htold⟩ := h x (List.mem_of_getElem? hx) url hurl
  exact htold result (World.comesTo_of_returned hresult)

end Told

/-! ## What the checks come to -/

/-- The stage a check is in then. -/
def Goes.stage : Goes → Stage
  | .ends result => .done result
  | .asks tried minute rest => .neighbour tried minute rest

/-- `Ok` holds of a check that begins, and stays with what it does with what `T` allows it
to be told. -/
structure Follows (P : Provider σ κ) (T : Owid → String → Except PyExc KeyAnswer → Prop)
    (Ok : Owid → String → Stage → Prop) : Prop where
  own : ∀ owid url, Ok owid url .own
  after : ∀ (x : Check) url result goes, Ok x.owid x.url x.stage → x.awaited = some url →
    T x.owid url result → x.after P result = some goes → Ok x.owid x.url goes.stage

/-- A check that goes on awaits a key. -/
theorem Check.awaited_of_after {P : Provider σ κ} {x : Check} {result : Except PyExc KeyAnswer}
    {goes : Goes} (h : x.after P result = some goes) : ∃ url, x.awaited = some url := by
  unfold Check.after at h
  unfold Check.awaited
  cases hstage : x.stage with
  | own => exact ⟨_, rfl⟩
  | neighbour tried minute rest => exact ⟨_, rfl⟩
  | done outcome =>
    rw [hstage] at h
    cases h

/-- Every check is where `Ok` has it. -/
def AllFollow (Ok : Owid → String → Stage → Prop) (p : Process) : Prop :=
  ∀ x ∈ p.checks, Ok x.owid x.url x.stage

/-- **The rule for what the checks come to.** -/
theorem AllFollow.step {L : Stdlib} {P : Provider σ κ}
    {T : Owid → String → Except PyExc KeyAnswer → Prop} {Ok : Owid → String → Stage → Prop}
    (hfollows : Follows P T Ok) {p p' : Process} {event : ProcessEvent} (h : AllFollow Ok p)
    (htold : AllTold T p) (hturned : Turned L P p event p') : AllFollow Ok p' := by
  cases hturned with
  | world => exact h
  | begun =>
    intro x hx
    rcases List.mem_append.mp hx with hx | hx
    · exact h x hx
    · cases List.mem_singleton.mp hx
      exact hfollows.own _ _
  | @ended c now x result outcome hx _ hresult hafter =>
    obtain ⟨url, hurl⟩ := Check.awaited_of_after hafter
    intro y hy
    rcases List.mem_or_eq_of_mem_set hy with hy | hy
    · exact h y hy
    · subst hy
      exact hfollows.after x url _ _ (h _ (List.mem_of_getElem? hx)) hurl
        (htold.returned hx hresult hurl) hafter
  | @asked c now x result tried minute rest w hx _ hresult hafter =>
    obtain ⟨url, hurl⟩ := Check.awaited_of_after hafter
    intro y hy
    rcases List.mem_or_eq_of_mem_set hy with hy | hy
    · exact h y hy
    · subst hy
      exact hfollows.after x url _ _ (h _ (List.mem_of_getElem? hx)) hurl
        (htold.returned hx hresult hurl) hafter

/-- What a step leaves in the cache: what was there, nothing, or that with an answer held. -/
theorem Stepped.cache_after {L : Stdlib} {P : Provider σ κ} {w w' : World} {event : Event}
    (h : Stepped L P w event w') :
    w'.cache = w.cache ∨ (event = .clearCache ∧ w'.cache = .empty) ∨
      ∃ (f : Nat) (turn : Turn) (x : Fetching) (pem : String) (start stop : Option Int),
        event = .complete f turn ∧ w.fetches[f]? = some x ∧
        fetch L P turn x.url x.domain = .ok (pem, start, stop) ∧
        w'.cache = (hold w.cache turn.holdNow turn.holdLater (endPointOf x.url) x.url pem start
          stop).2 := by
  cases h with
  | @held f turn x pem start stop hx _ _ hfetch =>
    exact Or.inr (Or.inr ⟨f, turn, x, pem, start, stop, rfl, hx, hfetch, rfl⟩)
  | cleared => exact Or.inr (Or.inl ⟨rfl, rfl⟩)
  | _ => exact Or.inl rfl

/-- The same of a step of a process. -/
theorem Turned.cache {L : Stdlib} {P : Provider σ κ} {p p' : Process} {event : ProcessEvent}
    (h : Turned L P p event p') :
    p'.world.cache = p.world.cache ∨
      (event = .world .clearCache ∧ p'.world.cache = .empty) ∨
      ∃ (f : Nat) (turn : Turn) (x : Fetching) (pem : String) (start stop : Option Int),
        event = .world (.complete f turn) ∧ p.world.fetches[f]? = some x ∧
        fetch L P turn x.url x.domain = .ok (pem, start, stop) ∧
        p'.world.cache = (hold p.world.cache turn.holdNow turn.holdLater (endPointOf x.url) x.url
          pem start stop).2 := by
  have hcall : ∀ {loop : Nat} {url domain : String} {now : DateTime} {w : World},
      Fetch.step L P p.world (.call loop url domain now) = some w →
      w.cache = p.world.cache := by
    intro loop url domain now w hstep
    obtain ⟨w₁, hstepped, rfl⟩ := step_stepped hstep
    cases hstepped <;> rfl
  cases h with
  | world hstep =>
    obtain ⟨w₁, hstepped, rfl⟩ := step_stepped hstep
    rcases hstepped.cache_after with hsame | ⟨rfl, hcleared⟩ |
      ⟨f, turn, x, pem, start, stop, rfl, hheld⟩
    · exact Or.inl hsame
    · exact Or.inr (Or.inl ⟨rfl, hcleared⟩)
    · exact Or.inr (Or.inr ⟨f, turn, x, pem, start, stop, rfl, hheld⟩)
  | begun hstep => exact Or.inl (hcall hstep)
  | ended => exact Or.inl rfl
  | asked _ _ _ _ hstep => exact Or.inl (hcall hstep)

/-- What holds of a process whose cache has the property: its checks are told what `T`
allows, and are where `Ok` has them. -/
structure Heeds (I : Cache → Prop) (T : Owid → String → Except PyExc KeyAnswer → Prop)
    (Ok : Owid → String → Stage → Prop) (p : Process) : Prop where
  cache : I p.world.cache
  told : AllTold T p
  follow : AllFollow Ok p

/-- **What the checks of a run come to.** Where holding an answer keeps a property of the
cache under which a step tells the checks only what `T` allows, every check is where `Ok`
has it, if every check was to begin with. -/
theorem heeds_of_run {L : Stdlib} {P : Provider σ κ}
    {ok : Process → ProcessEvent → Prop} {I : Cache → Prop}
    {T : Owid → String → Except PyExc KeyAnswer → Prop} {Ok : Owid → String → Stage → Prop}
    (hfollows : Follows P T Ok) (hempty : I .empty)
    (hhold : ∀ (p : Process) (f : Nat) turn x pem start stop, I p.world.cache →
      ok p (.world (.complete f turn)) → p.world.fetches[f]? = some x →
      fetch L P turn x.url x.domain = .ok (pem, start, stop) →
      I (hold p.world.cache turn.holdNow turn.holdLater (endPointOf x.url) x.url pem start stop).2)
    (htells : ∀ p event, I p.world.cache → ok p event → Tells L P T p event) {p₀ p : Process}
    (hreached : Reaches (step L P) (fun _ _ => True) .start p₀.world) (hstart : Heeds I T Ok p₀)
    (h : Reaches (processStep L P) ok p₀ p) : Heeds I T Ok p := by
  refine h.invariant_of (fun p => Coherent p.world ∧ Separate p.world) ?_ hstart ?_
  · intro q hq
    have hworld : Reaches (step L P) (fun _ _ => True) .start q.world :=
      hreached.trans (world_reaches_of (fun _ _ _ _ _ => trivial) (fun _ _ _ => trivial) hq)
    exact ⟨coherent_of_reaches hworld, separate_of_reaches hworld⟩
  · intro q event q' hq hheeds hok hstep
    have hturned := processStep_turned hstep
    refine ⟨?_, hheeds.told.step hq.1 hq.2 (htells q event hheeds.cache hok) hturned,
      hheeds.follow.step hfollows hheeds.told hturned⟩
    rcases hturned.cache with hsame | ⟨-, hcleared⟩ | ⟨f, turn, x, pem, start, stop, rfl, hx,
      hfetch, hheld⟩
    · rw [hsame]
      exact hheeds.cache
    · rw [hcleared]
      exact hempty
    · have hnext := hhold q f turn x pem start stop hheeds.cache hok hx hfetch
      rw [← hheld] at hnext
      exact hnext

/-- Where there are no checks, they heed whatever the cache has. -/
theorem Heeds.of_cache {I : Cache → Prop} {T : Owid → String → Except PyExc KeyAnswer → Prop}
    {Ok : Owid → String → Stage → Prop} {w : World} (h : I w.cache) : Heeds I T Ok ⟨w, []⟩ :=
  ⟨h, fun _ hx => absurd hx List.not_mem_nil, fun _ hx => absurd hx List.not_mem_nil⟩

/-- The same of a process that had checked nothing. -/
theorem heeds_of_reaches {L : Stdlib} {P : Provider σ κ}
    {ok : Process → ProcessEvent → Prop} {I : Cache → Prop}
    {T : Owid → String → Except PyExc KeyAnswer → Prop} {Ok : Owid → String → Stage → Prop}
    (hfollows : Follows P T Ok) (hempty : I .empty)
    (hhold : ∀ (p : Process) (f : Nat) turn x pem start stop, I p.world.cache →
      ok p (.world (.complete f turn)) → p.world.fetches[f]? = some x →
      fetch L P turn x.url x.domain = .ok (pem, start, stop) →
      I (hold p.world.cache turn.holdNow turn.holdLater (endPointOf x.url) x.url pem start stop).2)
    (htells : ∀ p event, I p.world.cache → ok p event → Tells L P T p event) {p : Process}
    (h : Reaches (processStep L P) ok .start p) : Heeds I T Ok p :=
  heeds_of_run hfollows hempty hhold htells .start (.of_cache hempty) h

end Fetch

end OpenWebId
