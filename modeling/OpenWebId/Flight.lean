import OpenWebId.Fetch

/-!
# Requests in flight: callers, fetch tasks, event loops and `clear_cache`

`keyAtUrl` is the path of one caller with nobody else about. Here any number of callers
on any number of event loops share the cache and the table `_in_flight`, and what they
do is a step relation over the lock-held sections: a caller's (`World.call`), a fetch's
(`World.complete`, `World.throw`) and that of `clear_cache`. Between two of them the
steps of the tasks are visible too: the task of a fetch is created by the caller that
added its entry, takes its first step later, and resolves its future after it has left
the lock.

An event loop runs one coroutine at a time and a coroutine gives way only at an await,
so a loop in the middle of a step (`World.busy`) takes no other. Another thread may run
at any point, and `clear_cache` with it. A loop that shuts down cancels the tasks that
are still pending on it: a task cancelled before its first step ends there with its body
never entered, and one cancelled later has `CancelledError` thrown at its await. A
caller that cleans up may still call while its loop shuts down, so `shutdown` does not
bar the loop from later calls.

The clock counts steps. It stamps when a fetch was led and its request started, when a
caller called and when the cache was cleared, and `records` keeps what `_hold` recorded
since then and for which fetch. Nothing the code does reads any of these: they are there
for the statements. `Stepped` is the inversion of a step, and `replay` says that the
cache is what the records make of an empty one.
-/

namespace OpenWebId

namespace Fetch

open Lib (Reaches run)

/-- Where the task of a fetch stands. -/
inductive Phase
  /-- The entry is added, and the caller that added it is about to create the task. -/
  | led
  /-- The task is created and has not taken its first step. -/
  | created
  /-- The body awaits the transport. -/
  | requesting
  /-- Cancelled before its first step. -/
  | doomed
  /-- Cancelled at its await. -/
  | cancelling
  /-- The body has left its last lock-held section with this outcome. -/
  | settled (outcome : Except PyExc KeyAnswer)
  /-- The task is done. -/
  | finished

/-- A call of `_fetch_and_hold`, with the task that runs it and its `shared` future. -/
structure Fetching where
  url : String
  domain : String
  loop : Nat
  phase : Phase
  future : Option (Except PyExc KeyAnswer)
  ledAt : Nat
  startedAt : Option Nat

/-- Where a caller of `_key_at_url` stands. An answer is kept with the fetches it comes
from. -/
inductive CallerState
  | waiting (fetch : Nat)
  | answered (result : Except PyExc KeyAnswer) (sources : List Nat)
  | cancelled

/-- A caller of `_key_at_url`, from its lock-held section on. -/
structure Caller where
  loop : Nat
  url : String
  calledAt : Nat
  state : CallerState

/-- A key `_hold` recorded, and the fetch whose answer it is. -/
structure Record where
  fetch : Nat
  endPoint : String
  key : HeldKey

/-- `_cache`, `_held_keys` and `_in_flight`, the fetches and the callers there have been,
and what the statements speak about: the clock, the times the cache was cleared at and
what was recorded since the last of them. -/
structure World where
  cache : Cache
  inFlight : AList fun _ : String => Nat
  fetches : List Fetching
  callers : List Caller
  clock : Nat
  clears : List Nat
  records : List Record

/-- A process that has called nothing. -/
def World.start : World := ⟨.empty, ∅, [], [], 0, [], []⟩

/-- The atomic steps. -/
inductive Event
  /-- A caller on the loop runs `_key_at_url` to the end of its lock-held section. -/
  | call (loop : Nat) (url domain : String) (now : DateTime)
  /-- The caller that added the entry of the fetch creates its task. -/
  | createTask (f : Nat)
  /-- The task takes its first step. -/
  | start (f : Nat)
  /-- The transport answers, and the body runs to the end of its lock-held section. -/
  | complete (f : Nat) (turn : Turn)
  /-- `CancelledError` is thrown at the task's await, with the same end. -/
  | throw (f : Nat)
  /-- The body resolves the future and ends. -/
  | resolve (f : Nat)
  /-- A waiting caller receives the outcome of its fetch. -/
  | receive (k : Nat)
  /-- A waiting caller is cancelled. -/
  | cancelCaller (k : Nat)
  /-- The loop cancels every task still pending on it. -/
  | shutdown (loop : Nat)
  | clearCache

/-- Whether a task is between two steps its loop takes without giving way. -/
def Phase.midStep : Phase → Bool
  | .led => true
  | .settled _ => true
  | _ => false

/-- Whether the loop is in the middle of a step. -/
def World.busy (w : World) (loop : Nat) : Bool :=
  w.fetches.any fun x => decide (x.loop = loop) && x.phase.midStep

/-- The fetches whose answers were recorded for the end point under the PEM. -/
def World.sourcesOf (w : World) (endPoint pem : String) : List Nat :=
  (w.records.filter fun r => decide (r.endPoint = endPoint ∧ r.key.pem = pem)).map Record.fetch

def World.addCaller (w : World) (loop : Nat) (url : String) (state : CallerState) : World :=
  { w with callers := w.callers ++ [⟨loop, url, w.clock, state⟩] }

def World.setFetch (w : World) (f : Nat) (x : Fetching) : World :=
  { w with fetches := w.fetches.set f x }

def World.setCaller (w : World) (k : Nat) (x : Caller) : World :=
  { w with callers := w.callers.set k x }

/-- `if _in_flight.get(url) is shared: del _in_flight[url]`. -/
def World.forget (w : World) (url : String) (f : Nat) : World :=
  { w with
    inFlight := if w.inFlight.lookup url = some f then w.inFlight.erase url else w.inFlight }

/-- The lock-held section of `_key_at_url`. -/
def World.call (w : World) (loop : Nat) (url domain : String) (now : DateTime) : World :=
  let endPoint := endPointOf url
  match heldFor w.cache now endPoint url with
  | some held => w.addCaller loop url (.answered (.ok held) (w.sourcesOf endPoint held.pem))
  | none =>
    match w.inFlight.lookup url with
    | some f => w.addCaller loop url (.waiting f)
    | none =>
      let f := w.fetches.length
      { w.addCaller loop url (.waiting f) with
        inFlight := w.inFlight.insert url f
        fetches := w.fetches ++ [⟨url, domain, loop, .led, none, w.clock, none⟩] }

/-- What `_hold` does with an answer of the fetch. -/
def World.hold (w : World) (f : Nat) (turn : Turn) (url pem : String) (start stop : Option Int) :
    World :=
  let endPoint := endPointOf url
  { w with
    cache := (Fetch.hold w.cache turn.holdNow turn.holdLater endPoint url pem start stop).2
    records :=
      match confirmed turn.holdNow turn.holdLater url pem start stop with
      | none => w.records
      | some new => w.records ++ [⟨f, endPoint, new⟩] }

/-- The lock-held section `_fetch_and_hold` ends in when it raises. -/
def World.fail (w : World) (f : Nat) (x : Fetching) (failed : PyExc) : World :=
  (w.forget x.url f).setFetch f { x with phase := .settled (.error failed) }

/-- `_fetch_and_hold` from the transport's answer to the end of its lock-held section. -/
def World.complete (L : Stdlib) {σ κ : Type} (P : Provider σ κ) (w : World) (f : Nat)
    (x : Fetching) (turn : Turn) : World :=
  match fetch L P turn x.url x.domain with
  | .error failed => w.fail f x failed
  | .ok (pem, start, stop) =>
    ((w.hold f turn x.url pem start stop).forget x.url f).setFetch f
      { x with phase := .settled (.ok (stated pem start stop)) }

/-- What a shutdown of its loop does to the task of a fetch. -/
def Fetching.cancel (x : Fetching) (loop : Nat) : Fetching :=
  if x.loop = loop then
    match x.phase with
    | .created => { x with phase := .doomed }
    | .requesting => { x with phase := .cancelling }
    | _ => x
  else x

/-- What a shutdown of its loop does to a caller. -/
def Caller.cancel (k : Caller) (loop : Nat) : Caller :=
  if k.loop = loop then
    match k.state with
    | .waiting _ => { k with state := .cancelled }
    | _ => k
  else k

/-- `clear_cache`. -/
def World.clearCache (w : World) : World :=
  { w with cache := .empty, inFlight := ∅, records := [], clears := w.clock :: w.clears }

def World.tick (w : World) : World := { w with clock := w.clock + 1 }

variable {σ κ : Type}

/-- The effect of an event, or `none` where it cannot happen. -/
def act (L : Stdlib) (P : Provider σ κ) (w : World) : Event → Option World
  | .call loop url domain now =>
    if w.busy loop then none else some (w.call loop url domain now)
  | .createTask f =>
    (w.fetches[f]?).bind fun x =>
      match x.phase with
      | .led => some (w.setFetch f { x with phase := .created })
      | _ => none
  | .start f =>
    (w.fetches[f]?).bind fun x =>
      if w.busy x.loop then none
      else
        match x.phase with
        | .created =>
          some (w.setFetch f { x with phase := .requesting, startedAt := some w.clock })
        | .doomed => some (w.setFetch f { x with phase := .finished })
        | _ => none
  | .complete f turn =>
    (w.fetches[f]?).bind fun x =>
      if w.busy x.loop then none
      else
        match x.phase with
        | .requesting => some (w.complete L P f x turn)
        -- a transport that is cancelled may answer all the same
        | .cancelling => some (w.complete L P f x turn)
        | _ => none
  | .throw f =>
    (w.fetches[f]?).bind fun x =>
      if w.busy x.loop then none
      else
        match x.phase with
        | .cancelling => some (w.fail f x .cancelledError)
        | _ => none
  | .resolve f =>
    (w.fetches[f]?).bind fun x =>
      match x.phase with
      | .settled outcome =>
        some (w.setFetch f { x with phase := .finished, future := some outcome })
      | _ => none
  | .receive k =>
    (w.callers[k]?).bind fun x =>
      if w.busy x.loop then none
      else
        match x.state with
        | .waiting f =>
          ((w.fetches[f]?).bind Fetching.future).map fun outcome =>
            w.setCaller k { x with state := .answered outcome [f] }
        | _ => none
  | .cancelCaller k =>
    (w.callers[k]?).bind fun x =>
      if w.busy x.loop then none
      else
        match x.state with
        | .waiting _ => some (w.setCaller k { x with state := .cancelled })
        | _ => none
  | .shutdown loop =>
    if w.busy loop then none
    else
      some { w with
        fetches := w.fetches.map fun x => x.cancel loop
        callers := w.callers.map fun k => k.cancel loop }
  | .clearCache => some w.clearCache

/-- One step: the event, and the clock moves on. -/
def step (L : Stdlib) (P : Provider σ κ) (w : World) (event : Event) : Option World :=
  (act L P w event).map World.tick

/-! ## The inversion of a step -/

/-- Everything a step can do, before the clock moves on. -/
inductive Stepped (L : Stdlib) (P : Provider σ κ) (w : World) : Event → World → Prop
  /-- A caller is answered from the cache. -/
  | answered {loop : Nat} {url domain : String} {now : DateTime} {held : KeyAnswer}
      (hidle : w.busy loop = false) (hheld : heldFor w.cache now (endPointOf url) url = some held) :
      Stepped L P w (.call loop url domain now)
        (w.addCaller loop url (.answered (.ok held) (w.sourcesOf (endPointOf url) held.pem)))
  /-- A caller joins the fetch that is registered. -/
  | joined {loop : Nat} {url domain : String} {now : DateTime} {f : Nat}
      (hidle : w.busy loop = false) (hheld : heldFor w.cache now (endPointOf url) url = none)
      (hentry : w.inFlight.lookup url = some f) :
      Stepped L P w (.call loop url domain now) (w.addCaller loop url (.waiting f))
  /-- A caller registers a fetch of its own. -/
  | led {loop : Nat} {url domain : String} {now : DateTime}
      (hidle : w.busy loop = false) (hheld : heldFor w.cache now (endPointOf url) url = none)
      (hentry : w.inFlight.lookup url = none) :
      Stepped L P w (.call loop url domain now)
        { w.addCaller loop url (.waiting w.fetches.length) with
          inFlight := w.inFlight.insert url w.fetches.length
          fetches := w.fetches ++ [⟨url, domain, loop, .led, none, w.clock, none⟩] }
  | created {f : Nat} {x : Fetching} (hx : w.fetches[f]? = some x) (hphase : x.phase = .led) :
      Stepped L P w (.createTask f) (w.setFetch f { x with phase := .created })
  | entered {f : Nat} {x : Fetching} (hx : w.fetches[f]? = some x)
      (hidle : w.busy x.loop = false) (hphase : x.phase = .created) :
      Stepped L P w (.start f)
        (w.setFetch f { x with phase := .requesting, startedAt := some w.clock })
  /-- The task was cancelled before its first step: its body is never entered. -/
  | skipped {f : Nat} {x : Fetching} (hx : w.fetches[f]? = some x)
      (hidle : w.busy x.loop = false) (hphase : x.phase = .doomed) :
      Stepped L P w (.start f) (w.setFetch f { x with phase := .finished })
  /-- The answer is held and the entry removed. -/
  | held {f : Nat} {turn : Turn} {x : Fetching} {pem : String} {start stop : Option Int}
      (hx : w.fetches[f]? = some x) (hidle : w.busy x.loop = false)
      (hphase : x.phase = .requesting ∨ x.phase = .cancelling)
      (hfetch : fetch L P turn x.url x.domain = .ok (pem, start, stop)) :
      Stepped L P w (.complete f turn)
        (((w.hold f turn x.url pem start stop).forget x.url f).setFetch f
          { x with phase := .settled (.ok (stated pem start stop)) })
  /-- The request failed and the entry is removed. -/
  | failed {f : Nat} {turn : Turn} {x : Fetching} {failed : PyExc}
      (hx : w.fetches[f]? = some x) (hidle : w.busy x.loop = false)
      (hphase : x.phase = .requesting ∨ x.phase = .cancelling)
      (hfetch : fetch L P turn x.url x.domain = .error failed) :
      Stepped L P w (.complete f turn) (w.fail f x failed)
  | thrown {f : Nat} {x : Fetching} (hx : w.fetches[f]? = some x)
      (hidle : w.busy x.loop = false) (hphase : x.phase = .cancelling) :
      Stepped L P w (.throw f) (w.fail f x .cancelledError)
  | resolved {f : Nat} {x : Fetching} {outcome : Except PyExc KeyAnswer}
      (hx : w.fetches[f]? = some x) (hphase : x.phase = .settled outcome) :
      Stepped L P w (.resolve f)
        (w.setFetch f { x with phase := .finished, future := some outcome })
  | received {k f : Nat} {caller : Caller} {x : Fetching} {outcome : Except PyExc KeyAnswer}
      (hk : w.callers[k]? = some caller) (hidle : w.busy caller.loop = false)
      (hwaiting : caller.state = .waiting f) (hx : w.fetches[f]? = some x)
      (hfuture : x.future = some outcome) :
      Stepped L P w (.receive k) (w.setCaller k { caller with state := .answered outcome [f] })
  | abandoned {k f : Nat} {caller : Caller} (hk : w.callers[k]? = some caller)
      (hidle : w.busy caller.loop = false) (hwaiting : caller.state = .waiting f) :
      Stepped L P w (.cancelCaller k) (w.setCaller k { caller with state := .cancelled })
  | shutdown {loop : Nat} (hidle : w.busy loop = false) :
      Stepped L P w (.shutdown loop)
        { w with
          fetches := w.fetches.map fun x => x.cancel loop
          callers := w.callers.map fun k => k.cancel loop }
  | cleared : Stepped L P w .clearCache w.clearCache

/-- What a completion does, in either phase the body can be in. -/
theorem stepped_complete {L : Stdlib} {P : Provider σ κ} {w : World} {f : Nat} {turn : Turn}
    {x : Fetching} (hx : w.fetches[f]? = some x) (hidle : w.busy x.loop = false)
    (hphase : x.phase = .requesting ∨ x.phase = .cancelling) :
    Stepped L P w (.complete f turn) (w.complete L P f x turn) := by
  unfold World.complete
  split
  next failed hfetch => exact .failed hx hidle hphase hfetch
  next pem start stop hfetch => exact .held hx hidle hphase hfetch

/-- What a call does, by what is held and what is registered. -/
theorem stepped_call {L : Stdlib} {P : Provider σ κ} {w : World} {loop : Nat}
    {url domain : String} {now : DateTime} (hidle : w.busy loop = false) :
    Stepped L P w (.call loop url domain now) (w.call loop url domain now) := by
  unfold World.call
  simp only
  split
  next held hheld => exact .answered hidle hheld
  next hheld =>
    split
    next f hentry => exact .joined hidle hheld hentry
    next hentry => exact .led hidle hheld hentry

/-- **The inversion of a step.** -/
theorem act_stepped {L : Stdlib} {P : Provider σ κ} {w w' : World} {event : Event}
    (h : act L P w event = some w') : Stepped L P w event w' := by
  cases event with
  | call loop url domain now =>
    simp only [act] at h
    split at h
    next => cases h
    next hidle =>
      cases h
      rw [Bool.not_eq_true] at hidle
      exact stepped_call hidle
  -- the events of a fetch: it is there, its loop is free and its phase is the one needed
  | createTask f =>
    obtain ⟨x, hx, h⟩ := Option.bind_eq_some_iff.mp h
    split at h
    next hphase =>
      cases h
      exact .created hx hphase
    next => cases h
  | start f =>
    obtain ⟨x, hx, h⟩ := Option.bind_eq_some_iff.mp h
    split at h
    next => cases h
    next hidle =>
      rw [Bool.not_eq_true] at hidle
      split at h
      next hphase =>
        cases h
        exact .entered hx hidle hphase
      next hphase =>
        cases h
        exact .skipped hx hidle hphase
      next => cases h
  | complete f turn =>
    obtain ⟨x, hx, h⟩ := Option.bind_eq_some_iff.mp h
    split at h
    next => cases h
    next hidle =>
      rw [Bool.not_eq_true] at hidle
      split at h
      next hphase =>
        cases h
        exact stepped_complete hx hidle (Or.inl hphase)
      next hphase =>
        cases h
        exact stepped_complete hx hidle (Or.inr hphase)
      next => cases h
  | throw f =>
    obtain ⟨x, hx, h⟩ := Option.bind_eq_some_iff.mp h
    split at h
    next => cases h
    next hidle =>
      rw [Bool.not_eq_true] at hidle
      split at h
      next hphase =>
        cases h
        exact .thrown hx hidle hphase
      next => cases h
  | resolve f =>
    obtain ⟨x, hx, h⟩ := Option.bind_eq_some_iff.mp h
    split at h
    next outcome hphase =>
      cases h
      exact .resolved hx hphase
    next => cases h
  -- the events of a caller: it is there, its loop is free and it waits
  | receive k =>
    obtain ⟨caller, hk, h⟩ := Option.bind_eq_some_iff.mp h
    split at h
    next => cases h
    next hidle =>
      rw [Bool.not_eq_true] at hidle
      split at h
      next f hwaiting =>
        obtain ⟨outcome, hfuture, h⟩ := Option.map_eq_some_iff.mp h
        obtain ⟨x, hx, hfuture⟩ := Option.bind_eq_some_iff.mp hfuture
        cases h
        exact .received hk hidle hwaiting hx hfuture
      next => cases h
  | cancelCaller k =>
    obtain ⟨caller, hk, h⟩ := Option.bind_eq_some_iff.mp h
    split at h
    next => cases h
    next hidle =>
      rw [Bool.not_eq_true] at hidle
      split at h
      next f hwaiting =>
        cases h
        exact .abandoned hk hidle hwaiting
      next => cases h
  | shutdown loop =>
    simp only [act] at h
    split at h
    next => cases h
    next hidle =>
      cases h
      rw [Bool.not_eq_true] at hidle
      exact .shutdown hidle
  | clearCache =>
    cases h
    exact .cleared

/-- Each of these things is what the step does. -/
theorem Stepped.act {L : Stdlib} {P : Provider σ κ} {w w' : World} {event : Event}
    (h : Stepped L P w event w') : act L P w event = some w' := by
  cases h with
  | answered hidle hheld => simp only [Fetch.act, hidle, World.call, hheld]; rfl
  | joined hidle hheld hentry => simp only [Fetch.act, hidle, World.call, hheld, hentry]; rfl
  | led hidle hheld hentry => simp only [Fetch.act, hidle, World.call, hheld, hentry]; rfl
  | created hx hphase => simp only [Fetch.act, hx, Option.bind_some, hphase]
  | entered hx hidle hphase => simp only [Fetch.act, hx, Option.bind_some, hidle, hphase]; rfl
  | skipped hx hidle hphase => simp only [Fetch.act, hx, Option.bind_some, hidle, hphase]; rfl
  | held hx hidle hphase hfetch =>
    rcases hphase with hphase | hphase
    · simp only [Fetch.act, hx, Option.bind_some, hidle, hphase, World.complete, hfetch]; rfl
    · simp only [Fetch.act, hx, Option.bind_some, hidle, hphase, World.complete, hfetch]; rfl
  | failed hx hidle hphase hfetch =>
    rcases hphase with hphase | hphase
    · simp only [Fetch.act, hx, Option.bind_some, hidle, hphase, World.complete, hfetch]; rfl
    · simp only [Fetch.act, hx, Option.bind_some, hidle, hphase, World.complete, hfetch]; rfl
  | thrown hx hidle hphase => simp only [Fetch.act, hx, Option.bind_some, hidle, hphase]; rfl
  | resolved hx hphase => simp only [Fetch.act, hx, Option.bind_some, hphase]
  | received hk hidle hwaiting hx hfuture =>
    simp only [Fetch.act, hk, Option.bind_some, hidle, hwaiting, hx, hfuture]; rfl
  | abandoned hk hidle hwaiting =>
    simp only [Fetch.act, hk, Option.bind_some, hidle, hwaiting]; rfl
  | shutdown hidle => simp only [Fetch.act, hidle]; rfl
  | cleared => rfl

theorem Stepped.step {L : Stdlib} {P : Provider σ κ} {w w' : World} {event : Event}
    (h : Stepped L P w event w') : step L P w event = some w'.tick := by
  rw [Fetch.step, h.act, Option.map_some]

/-- A step does one of these things, and the clock moves on. -/
theorem step_stepped {L : Stdlib} {P : Provider σ κ} {w w' : World} {event : Event}
    (h : step L P w event = some w') : ∃ w₁, Stepped L P w event w₁ ∧ w' = w₁.tick := by
  obtain ⟨w₁, h₁, htick⟩ := Option.map_eq_some_iff.mp h
  exact ⟨w₁, act_stepped h₁, htick.symm⟩

/-! ## What a step does to the fetches -/

/-- What a step can do to the fetch `f`, at the time of the step. -/
inductive Moved (clock : Nat) (event : Event) (f : Nat) (x : Fetching) : Fetching → Prop
  | same : Moved clock event f x x
  | created (hevent : event = .createTask f) (hphase : x.phase = .led) :
      Moved clock event f x { x with phase := .created }
  | entered (hevent : event = .start f) (hphase : x.phase = .created) :
      Moved clock event f x { x with phase := .requesting, startedAt := some clock }
  | skipped (hevent : event = .start f) (hphase : x.phase = .doomed) :
      Moved clock event f x { x with phase := .finished }
  | settled (hevent : (∃ turn, event = .complete f turn) ∨ event = .throw f)
      (hphase : x.phase = .requesting ∨ x.phase = .cancelling)
      (outcome : Except PyExc KeyAnswer) :
      Moved clock event f x { x with phase := .settled outcome }
  | resolved {outcome : Except PyExc KeyAnswer} (hevent : event = .resolve f)
      (hphase : x.phase = .settled outcome) :
      Moved clock event f x { x with phase := .finished, future := some outcome }
  | doomed (hevent : event = .shutdown x.loop) (hphase : x.phase = .created) :
      Moved clock event f x { x with phase := .doomed }
  | cancelling (hevent : event = .shutdown x.loop) (hphase : x.phase = .requesting) :
      Moved clock event f x { x with phase := .cancelling }

/-- What a step can do to the list of fetches. -/
inductive FetchesMoved (clock : Nat) (event : Event) (fetches : List Fetching) :
    List Fetching → Prop
  | kept : FetchesMoved clock event fetches fetches
  | set {f : Nat} {x y : Fetching} (hx : fetches[f]? = some x) (hmoved : Moved clock event f x y) :
      FetchesMoved clock event fetches (fetches.set f y)
  | led (url domain : String) (loop : Nat) :
      FetchesMoved clock event fetches (fetches ++ [⟨url, domain, loop, .led, none, clock, none⟩])
  | shutdown {loop : Nat} (hevent : event = .shutdown loop) :
      FetchesMoved clock event fetches (fetches.map fun x => x.cancel loop)

theorem Stepped.fetches {L : Stdlib} {P : Provider σ κ} {w w' : World} {event : Event}
    (h : Stepped L P w event w') : FetchesMoved w.clock event w.fetches w'.fetches := by
  cases h with
  | answered => exact .kept
  | joined => exact .kept
  | led => exact .led ..
  | created hx hphase => exact .set hx (.created rfl hphase)
  | entered hx _ hphase => exact .set hx (.entered rfl hphase)
  | skipped hx _ hphase => exact .set hx (.skipped rfl hphase)
  | held hx _ hphase => exact .set hx (.settled (Or.inl ⟨_, rfl⟩) hphase _)
  | failed hx _ hphase => exact .set hx (.settled (Or.inl ⟨_, rfl⟩) hphase _)
  | thrown hx _ hphase => exact .set hx (.settled (Or.inr rfl) (Or.inr hphase) _)
  | resolved hx hphase => exact .set hx (.resolved rfl hphase)
  | received => exact .kept
  | abandoned => exact .kept
  | shutdown => exact .shutdown rfl
  | cleared => exact .kept

/-- A shutdown does to a task what its phase calls for. -/
theorem Fetching.cancel_moved (x : Fetching) (loop clock f : Nat) :
    Moved clock (.shutdown loop) f x (x.cancel loop) := by
  unfold Fetching.cancel
  split
  next hloop =>
    subst hloop
    split
    next hphase => exact .doomed rfl hphase
    next hphase => exact .cancelling rfl hphase
    next => exact .same
  next => exact .same

/-- A fetch that was there is there after the step, moved. -/
theorem FetchesMoved.forward {clock : Nat} {event : Event} {fs gs : List Fetching}
    (h : FetchesMoved clock event fs gs) {f : Nat} {x : Fetching} (hx : fs[f]? = some x) :
    ∃ y, gs[f]? = some y ∧ Moved clock event f x y := by
  cases h with
  | kept => exact ⟨x, hx, .same⟩
  | @set g x' y hx' hmoved =>
    rw [List.getElem?_set]
    -- the one fetch that was set is this one or another
    by_cases hg : g = f
    · subst hg
      have hlt : g < fs.length := (List.getElem?_eq_some_iff.mp hx).1
      rw [hx] at hx'
      cases hx'
      refine ⟨y, ?_, hmoved⟩
      rw [if_pos rfl, if_pos hlt]
    · exact ⟨x, by rw [if_neg hg, hx], .same⟩
  | led url domain loop =>
    refine ⟨x, ?_, .same⟩
    rw [List.getElem?_append_left (List.getElem?_eq_some_iff.mp hx).1, hx]
  | @shutdown loop hevent =>
    subst hevent
    refine ⟨x.cancel loop, ?_, x.cancel_moved loop clock f⟩
    rw [List.getElem?_map, hx, Option.map_some]

/-- A fetch that is there after the step was there before it, or is the one just led. -/
theorem FetchesMoved.backward {clock : Nat} {event : Event} {fs gs : List Fetching}
    (h : FetchesMoved clock event fs gs) {f : Nat} {y : Fetching} (hy : gs[f]? = some y) :
    (∃ x, fs[f]? = some x ∧ Moved clock event f x y) ∨
      ∃ url domain loop, y = ⟨url, domain, loop, .led, none, clock, none⟩ := by
  by_cases hlt : f < fs.length
  · obtain ⟨y', hy', hmoved⟩ := h.forward (List.getElem?_eq_getElem hlt)
    rw [hy] at hy'
    cases hy'
    exact Or.inl ⟨_, List.getElem?_eq_getElem hlt, hmoved⟩
  -- only a fetch that was just led is past the end
  · have hge : fs.length ≤ f := Nat.not_lt.mp hlt
    cases h with
    | kept =>
      rw [List.getElem?_eq_none hge] at hy
      cases hy
    | set hx hmoved =>
      rw [List.getElem?_eq_none (by rwa [List.length_set])] at hy
      cases hy
    | led url domain loop =>
      rw [List.getElem?_append_right hge] at hy
      have hmem := List.mem_of_getElem? hy
      exact Or.inr ⟨url, domain, loop, List.mem_singleton.mp hmem⟩
    | shutdown hevent =>
      rw [List.getElem?_eq_none (by rwa [List.length_map])] at hy
      cases hy

/-! ## The times of a fetch -/

/-- The body of the task has not been entered. -/
def Phase.unentered : Phase → Bool
  | .led => true
  | .created => true
  | .doomed => true
  | _ => false

/-- The body of the task has been entered and has not ended. -/
def Phase.running : Phase → Bool
  | .requesting => true
  | .cancelling => true
  | .settled _ => true
  | _ => false

/-- The times of a fetch are in order, and its request is started where its body runs or
its future is resolved. -/
structure Fetching.Timed (x : Fetching) (clock : Nat) : Prop where
  led : x.ledAt < clock
  started : ∀ s, x.startedAt = some s → x.ledAt < s ∧ s < clock
  unentered : x.phase.unentered = true → x.startedAt = none
  running : x.phase.running = true → x.startedAt.isSome = true
  resolved : x.future.isSome = true → x.startedAt.isSome = true

/-- The stamps of a fetch are kept once they are set. -/
structure Fetching.Later (x y : Fetching) : Prop where
  url : y.url = x.url
  ledAt : y.ledAt = x.ledAt
  startedAt : ∀ s, x.startedAt = some s → y.startedAt = some s

theorem Moved.later {clock : Nat} {event : Event} {f : Nat} {x y : Fetching}
    (h : Moved clock event f x y) (hx : x.Timed clock) : x.Later y := by
  cases h with
  | same => exact ⟨rfl, rfl, fun s hs => hs⟩
  | created hevent hphase => exact ⟨rfl, rfl, fun s hs => hs⟩
  | entered hevent hphase =>
    -- a task that takes its first step has no start yet
    have hnone : x.startedAt = none := hx.unentered (by rw [hphase]; rfl)
    refine ⟨rfl, rfl, ?_⟩
    intro s hs
    rw [hnone] at hs
    cases hs
  | skipped hevent hphase => exact ⟨rfl, rfl, fun s hs => hs⟩
  | settled hevent hphase outcome => exact ⟨rfl, rfl, fun s hs => hs⟩
  | resolved hevent hphase => exact ⟨rfl, rfl, fun s hs => hs⟩
  | doomed hevent hphase => exact ⟨rfl, rfl, fun s hs => hs⟩
  | cancelling hevent hphase => exact ⟨rfl, rfl, fun s hs => hs⟩

theorem Fetching.Timed.tick {x : Fetching} {clock : Nat} (h : x.Timed clock) :
    x.Timed (clock + 1) :=
  { h with
    led := Nat.lt_succ_of_lt h.led
    started := fun s hs => ⟨(h.started s hs).1, Nat.lt_succ_of_lt (h.started s hs).2⟩ }

/-- One step keeps the times of a fetch in order. -/
theorem Moved.timed {clock : Nat} {event : Event} {f : Nat} {x y : Fetching}
    (h : Moved clock event f x y) (hx : x.Timed clock) : y.Timed (clock + 1) := by
  have ht := hx.tick
  cases h with
  | same => exact ht
  | created hevent hphase =>
    have hnone : x.startedAt = none := hx.unentered (by rw [hphase]; rfl)
    exact { ht with unentered := fun _ => hnone, running := nofun }
  | entered hevent hphase =>
    -- the request starts now, which is after it was led
    refine ⟨ht.led, ?_, nofun, fun _ => rfl, fun _ => rfl⟩
    intro s hs
    cases hs
    exact ⟨hx.led, Nat.lt_succ_self _⟩
  | skipped hevent hphase =>
    exact { ht with unentered := nofun, running := nofun }
  | settled hevent hphase outcome =>
    have hsome : x.startedAt.isSome = true := by
      rcases hphase with hphase | hphase
      · exact hx.running (by rw [hphase]; rfl)
      · exact hx.running (by rw [hphase]; rfl)
    exact { ht with unentered := nofun, running := fun _ => hsome }
  | resolved hevent hphase =>
    have hsome : x.startedAt.isSome = true := hx.running (by rw [hphase]; rfl)
    exact { ht with
      unentered := nofun
      running := nofun
      resolved := fun _ => hsome }
  | doomed hevent hphase =>
    have hnone : x.startedAt = none := hx.unentered (by rw [hphase]; rfl)
    exact { ht with unentered := fun _ => hnone, running := nofun }
  | cancelling hevent hphase =>
    have hsome : x.startedAt.isSome = true := hx.running (by rw [hphase]; rfl)
    exact { ht with unentered := nofun, running := fun _ => hsome }

/-! ## The cache and the records -/

/-- What the records make of an empty cache. -/
def replay (records : List Record) : Cache :=
  records.foldl (fun cache r => record cache r.endPoint r.key) .empty

/-- The records hold a key of the end point with the PEM. -/
def Recalls (records : List Record) (endPoint : String) (pem : String) : Prop :=
  ∃ r ∈ records, r.endPoint = endPoint ∧ r.key.pem = pem

theorem replay_append (records : List Record) (r : Record) :
    replay (records ++ [r]) = record (replay records) r.endPoint r.key := by
  rw [replay, replay, List.foldl_append, List.foldl_cons, List.foldl_nil]

/-- Whatever a replayed cache knows of a PEM, a record said of some minute. -/
theorem replay_sound (records : List Record) :
    Sound (fun endPoint _ pem => Recalls records endPoint pem) (replay records) := by
  -- records are added at the end, so the induction takes the last one off
  induction records using List.reverseRecOn with
  | nil => exact Sound.empty
  | append_singleton rs r ih =>
    rw [replay_append]
    refine Sound.record ?_ ?_ ?_
    · intro e p
      exact ⟨fun _ hm _ _ _ _ => hm⟩
    · intro e p m hm
      obtain ⟨r', hr', hsame⟩ := ih e p m hm
      exact ⟨r', List.mem_append_left _ hr', hsame⟩
    · intro m _ _
      exact ⟨r, List.mem_append_right _ (List.mem_singleton_self _), rfl, rfl⟩

/-- A key served from a replayed cache is one that was recorded. -/
theorem heldFor_recalls {records : List Record} {now : DateTime} {endPoint url : String}
    {held : KeyAnswer} (h : heldFor (replay records) now endPoint url = some held) :
    Recalls records endPoint held.pem := by
  obtain ⟨minute, -, hminute, -⟩ := heldFor_known h
  exact (replay_sound records).heldFor hminute h

/-- An answer that is held adds to the cache what it adds to the records. -/
theorem World.hold_replay {w : World} (h : w.cache = replay w.records) (f : Nat) (turn : Turn)
    (url pem : String) (start stop : Option Int) :
    (w.hold f turn url pem start stop).cache =
      replay (w.hold f turn url pem start stop).records := by
  unfold World.hold
  simp only [hold_eq]
  cases confirmed turn.holdNow turn.holdLater url pem start stop with
  | none => exact h
  | some new =>
    simp only
    rw [replay_append, h]

/-! ## What a step does to the table and the callers -/

/-- A fetch that forgets its URL is not registered for it. -/
theorem World.lookup_forget (w : World) (url : String) (f : Nat) :
    (w.forget url f).inFlight.lookup url ≠ some f := by
  unfold World.forget
  simp only
  split
  next =>
    rw [AList.lookup_erase]
    nofun
  next hother => exact hother

/-- Forgetting a URL leaves no entry that was not there. -/
theorem World.lookup_of_forget {w : World} {url other : String} {f g : Nat}
    (h : (w.forget other g).inFlight.lookup url = some f) : w.inFlight.lookup url = some f := by
  unfold World.forget at h
  simp only at h
  split at h
  next =>
    by_cases hurl : url = other
    · rw [hurl, AList.lookup_erase] at h
      cases h
    · rwa [AList.lookup_erase_ne hurl] at h
  next => exact h

/-- The entry of another fetch stays, under whatever URL. -/
theorem World.lookup_forget_of_ne {w : World} {url other : String} {f g : Nat}
    (h : w.inFlight.lookup url = some f) (hne : f ≠ g) :
    (w.forget other g).inFlight.lookup url = some f := by
  unfold World.forget
  simp only
  split
  next hentry =>
    have hurl : url ≠ other := by
      intro he
      rw [he, hentry] at h
      exact hne (Option.some.inj h).symm
    rwa [AList.lookup_erase_ne hurl]
  next => exact h

/-- What a step leaves in the table: entries that were there, and the one of the fetch
just led. -/
theorem Stepped.inFlight {L : Stdlib} {P : Provider σ κ} {w w' : World} {event : Event}
    (h : Stepped L P w event w') {url : String} {f : Nat}
    (hf : w'.inFlight.lookup url = some f) :
    w'.clears = w.clears ∧ (w.inFlight.lookup url = some f ∨
      ∃ x, w'.fetches[f]? = some x ∧ x.url = url ∧ x.ledAt = w.clock ∧ x.phase = .led) := by
  cases h with
  | answered => exact ⟨rfl, Or.inl hf⟩
  | joined => exact ⟨rfl, Or.inl hf⟩
  | @led loop url' domain now hidle hheld hentry =>
    refine ⟨rfl, ?_⟩
    -- the entry is the one just made, or is under another URL
    by_cases hurl : url = url'
    · subst hurl
      have hlookup : some w.fetches.length = some f := by
        rwa [AList.lookup_insert] at hf
      cases hlookup
      refine Or.inr ⟨⟨url, domain, loop, .led, none, w.clock, none⟩, ?_, rfl, rfl, rfl⟩
      exact List.getElem?_concat_length
    · exact Or.inl (by rwa [AList.lookup_insert_ne hurl] at hf)
  | created => exact ⟨rfl, Or.inl hf⟩
  | entered => exact ⟨rfl, Or.inl hf⟩
  | skipped => exact ⟨rfl, Or.inl hf⟩
  | held => exact ⟨rfl, Or.inl (World.lookup_of_forget hf)⟩
  | failed => exact ⟨rfl, Or.inl (World.lookup_of_forget hf)⟩
  | thrown => exact ⟨rfl, Or.inl (World.lookup_of_forget hf)⟩
  | resolved => exact ⟨rfl, Or.inl hf⟩
  | received => exact ⟨rfl, Or.inl hf⟩
  | abandoned => exact ⟨rfl, Or.inl hf⟩
  | shutdown => exact ⟨rfl, Or.inl hf⟩
  | cleared => cases hf

/-- A step clears nothing, or clears the cache now. -/
theorem Stepped.clears {L : Stdlib} {P : Provider σ κ} {w w' : World} {event : Event}
    (h : Stepped L P w event w') : w'.clears = w.clears ∨ w'.clears = w.clock :: w.clears := by
  cases h with
  | cleared => exact Or.inr rfl
  | _ => exact Or.inl rfl

/-- The clock stands still until the step is done. -/
theorem Stepped.clock {L : Stdlib} {P : Provider σ κ} {w w' : World} {event : Event}
    (h : Stepped L P w event w') : w'.clock = w.clock := by
  cases h <;> rfl

/-- How a caller stands after a step. -/
inductive CallerMoved (w w' : World) : Caller → Prop
  | kept {k : Caller} (hk : k ∈ w.callers) : CallerMoved w w' k
  /-- It has just called, and is answered from the cache. -/
  | answered {loop : Nat} {url : String} {now : DateTime} {held : KeyAnswer}
      (hheld : heldFor w.cache now (endPointOf url) url = some held) :
      CallerMoved w w' ⟨loop, url, w.clock,
        .answered (.ok held) (w.sourcesOf (endPointOf url) held.pem)⟩
  /-- It has just called, and its fetch is registered. -/
  | waits {loop : Nat} {url : String} {f : Nat} (hentry : w'.inFlight.lookup url = some f) :
      CallerMoved w w' ⟨loop, url, w.clock, .waiting f⟩
  /-- It waited, and receives the outcome of its fetch. -/
  | received {k : Caller} {f : Nat} {x : Fetching} {outcome : Except PyExc KeyAnswer}
      (hk : k ∈ w.callers) (hwaiting : k.state = .waiting f) (hx : w.fetches[f]? = some x)
      (hfuture : x.future = some outcome) :
      CallerMoved w w' { k with state := .answered outcome [f] }
  | cancelled {k : Caller} (hk : k ∈ w.callers) : CallerMoved w w' { k with state := .cancelled }

theorem Caller.cancel_moved {w : World} (w' : World) {k : Caller} (hk : k ∈ w.callers)
    (loop : Nat) : CallerMoved w w' (k.cancel loop) := by
  unfold Caller.cancel
  split
  next =>
    split
    next => exact .cancelled hk
    next => exact .kept hk
  next => exact .kept hk

/-- A caller there is after a step was there before it or has just called. -/
theorem Stepped.callers {L : Stdlib} {P : Provider σ κ} {w w' : World} {event : Event}
    (h : Stepped L P w event w') {k : Caller} (hk : k ∈ w'.callers) : CallerMoved w w' k := by
  cases h with
  | answered hidle hheld =>
    rcases List.mem_append.mp hk with hold | hnew
    · exact .kept hold
    · rw [List.mem_singleton.mp hnew]
      exact .answered hheld
  | joined hidle hheld hentry =>
    rcases List.mem_append.mp hk with hold | hnew
    · exact .kept hold
    · rw [List.mem_singleton.mp hnew]
      exact .waits hentry
  | led hidle hheld hentry =>
    rcases List.mem_append.mp hk with hold | hnew
    · exact .kept hold
    · rw [List.mem_singleton.mp hnew]
      exact .waits (AList.lookup_insert _)
  | created => exact .kept hk
  | entered => exact .kept hk
  | skipped => exact .kept hk
  | held => exact .kept hk
  | failed => exact .kept hk
  | thrown => exact .kept hk
  | resolved => exact .kept hk
  | received hk₀ hidle hwaiting hx hfuture =>
    rcases List.mem_or_eq_of_mem_set hk with hold | hnew
    · exact .kept hold
    · rw [hnew]
      exact .received (List.mem_of_getElem? hk₀) hwaiting hx hfuture
  | abandoned hk₀ hidle hwaiting =>
    rcases List.mem_or_eq_of_mem_set hk with hold | hnew
    · exact .kept hold
    · rw [hnew]
      exact .cancelled (List.mem_of_getElem? hk₀)
  | @shutdown loop hidle =>
    -- every caller is mapped, those on the loop to a cancelled one
    obtain ⟨k₀, hk₀, hcancel⟩ := List.mem_map.mp hk
    rw [← hcancel]
    exact k₀.cancel_moved _ hk₀ loop
  | cleared => exact .kept hk

/-! ## What holds in every state -/

/-- The times are in order, an entry is a fetch for its URL led since the cache was
cleared, a caller waits on a fetch for its URL led since any clearing before its call,
and the cache is what the records make of it. -/
structure Coherent (w : World) : Prop where
  timed : ∀ (f : Nat) x, w.fetches[f]? = some x → x.Timed w.clock
  clears : ∀ c ∈ w.clears, c < w.clock
  called : ∀ k ∈ w.callers, k.calledAt < w.clock
  entry : ∀ url f, w.inFlight.lookup url = some f → ∃ x, w.fetches[f]? = some x ∧ x.url = url ∧
    ∀ c ∈ w.clears, c < x.ledAt
  waiting : ∀ k ∈ w.callers, ∀ f, k.state = .waiting f → ∃ x, w.fetches[f]? = some x ∧
    x.url = k.url ∧ ∀ c ∈ w.clears, c < k.calledAt → c < x.ledAt
  cache : w.cache = replay w.records

theorem Coherent.start : Coherent World.start where
  timed f x hx := by cases hx
  clears c hc := by cases hc
  called k hk := by cases hk
  entry url f hf := by cases hf
  waiting k hk := by cases hk
  cache := rfl

/-- One step keeps the state coherent. -/
theorem Coherent.step {L : Stdlib} {P : Provider σ κ} {w w' : World} {event : Event}
    (h : Coherent w) (hstep : Fetch.step L P w event = some w') : Coherent w' := by
  obtain ⟨w₁, hstepped, rfl⟩ := step_stepped hstep
  have hclock := hstepped.clock
  -- a fetch that was there is there, for the same URL and led at the same time
  have hlater : ∀ (f : Nat) x, w.fetches[f]? = some x →
      ∃ y, w₁.fetches[f]? = some y ∧ x.Later y := by
    intro f x hx
    obtain ⟨y, hy, hmoved⟩ := hstepped.fetches.forward hx
    exact ⟨y, hy, hmoved.later (h.timed f x hx)⟩
  have hentry : ∀ url f, w₁.inFlight.lookup url = some f →
      ∃ x, w₁.fetches[f]? = some x ∧ x.url = url ∧ ∀ c ∈ w₁.clears, c < x.ledAt := by
    intro url f hf
    obtain ⟨hclears, hold | ⟨x, hx, hurl, hled, -⟩⟩ := hstepped.inFlight hf
    · obtain ⟨x, hx, hurl, hsince⟩ := h.entry url f hold
      obtain ⟨y, hy, hxy⟩ := hlater f x hx
      refine ⟨y, hy, hxy.url.trans hurl, ?_⟩
      intro c hc
      rw [hclears] at hc
      rw [hxy.ledAt]
      exact hsince c hc
    · refine ⟨x, hx, hurl, ?_⟩
      intro c hc
      rw [hclears] at hc
      rw [hled]
      exact h.clears c hc
  refine ⟨?_, ?_, ?_, hentry, ?_, ?_⟩
  · intro f y hy
    show y.Timed (w₁.clock + 1)
    rw [hclock]
    rcases hstepped.fetches.backward hy with ⟨x, hx, hmoved⟩ | ⟨url, domain, loop, hnew⟩
    · exact hmoved.timed (h.timed f x hx)
    · subst hnew
      exact ⟨Nat.lt_succ_self _, nofun, fun _ => rfl, nofun, nofun⟩
  · intro c hc
    show c < w₁.clock + 1
    rw [hclock]
    rcases hstepped.clears with hsame | hnow
    · exact Nat.lt_succ_of_lt (h.clears c (hsame ▸ hc))
    · rcases List.mem_cons.mp (hnow ▸ hc) with hc' | hc'
      · exact hc' ▸ Nat.lt_succ_self _
      · exact Nat.lt_succ_of_lt (h.clears c hc')
  · intro k hk
    show k.calledAt < w₁.clock + 1
    rw [hclock]
    cases hstepped.callers hk with
    | kept hold => exact Nat.lt_succ_of_lt (h.called k hold)
    | answered => exact Nat.lt_succ_self _
    | waits => exact Nat.lt_succ_self _
    | @received k₀ _ _ _ hold => exact Nat.lt_succ_of_lt (h.called k₀ hold)
    | @cancelled k₀ hold => exact Nat.lt_succ_of_lt (h.called k₀ hold)
  · intro k hk f hf
    cases hstepped.callers hk with
    | kept hold =>
      obtain ⟨x, hx, hurl, hsince⟩ := h.waiting k hold f hf
      obtain ⟨y, hy, hxy⟩ := hlater f x hx
      refine ⟨y, hy, hxy.url.trans hurl, ?_⟩
      intro c hc hcalled
      rw [hxy.ledAt]
      rcases hstepped.clears with hsame | hnow
      · exact hsince c (hsame ▸ hc) hcalled
      · rcases List.mem_cons.mp (hnow ▸ hc) with hc' | hc'
        · -- cleared now, and the caller called before now
          have := h.called k hold
          omega
        · exact hsince c hc' hcalled
    | answered => cases hf
    | waits hlookup =>
      cases hf
      obtain ⟨x, hx, hurl, hsince⟩ := hentry _ _ hlookup
      exact ⟨x, hx, hurl, fun c hc _ => hsince c hc⟩
    | received => cases hf
    | cancelled => cases hf
  · cases hstepped with
    | held => exact World.hold_replay h.cache ..
    | cleared => rfl
    | _ => exact h.cache

/-- **Every state of every run is coherent.** -/
theorem coherent_of_reaches {L : Stdlib} {P : Provider σ κ} {ok : World → Event → Prop} {w : World}
    (h : Reaches (step L P) ok World.start w) : Coherent w :=
  h.invariant Coherent.start fun _ _ _ hc _ hstep => hc.step hstep

/-! ## One caller alone -/

theorem getElem?_last {fs : List Fetching} {w : World} {x : Fetching}
    (hfetches : w.fetches = fs ++ [x]) : w.fetches[fs.length]? = some x := by
  rw [hfetches]
  exact List.getElem?_concat_length

/-- Setting the fetch led last leaves the others. -/
theorem setFetch_last {fs : List Fetching} {w : World} {x : Fetching}
    (hfetches : w.fetches = fs ++ [x]) (y : Fetching) :
    (w.setFetch fs.length y).fetches = fs ++ [y] := by
  rw [World.setFetch, hfetches, List.set_append_right _ _ (Nat.le_refl _), Nat.sub_self,
    List.set_cons_zero]

/-- A loop with nothing in the middle of a step but, perhaps, the fetch led last. -/
theorem busy_last {w w' : World} {loop : Nat} (h : w.busy loop = false) {x : Fetching}
    (hfetches : w'.fetches = w.fetches ++ [x]) (hphase : x.phase.midStep = false) :
    w'.busy loop = false := by
  have hold : (w.fetches.any fun x => decide (x.loop = loop) && x.phase.midStep) = false := h
  rw [World.busy, hfetches, List.any_append, hold, List.any_cons, List.any_nil, hphase,
    Bool.and_false]
  rfl

/-- The steps of a caller that fetches a key with nobody else about. -/
def aloneSteps (w : World) (loop : Nat) (url domain : String) (turn : Turn) : List Event :=
  [.call loop url domain turn.heldNow, .createTask w.fetches.length, .start w.fetches.length,
    .complete w.fetches.length turn, .resolve w.fetches.length, .receive w.callers.length]

/-- The end of the request of a caller with nobody else about. -/
theorem step_complete_alone (L : Stdlib) (P : Provider σ κ) {w : World} {fs : List Fetching}
    {x : Fetching} (hfetches : w.fetches = fs ++ [x]) (hidle : w.busy x.loop = false)
    (hphase : x.phase = .requesting) {turn : Turn}
    (hheld : heldFor w.cache turn.heldNow (endPointOf x.url) x.url = none) :
    ∃ w', step L P w (.complete fs.length turn) = some w' ∧
      w'.fetches = fs ++ [{ x with
        phase := .settled (keyAtUrl L P turn w.cache x.url x.domain).result }] ∧
      w'.cache = (keyAtUrl L P turn w.cache x.url x.domain).cache ∧ w'.callers = w.callers ∧
      w'.inFlight = (w.forget x.url fs.length).inFlight := by
  refine ⟨_, (stepped_complete (getElem?_last hfetches) hidle (Or.inl hphase)).step, ?_⟩
  unfold World.complete keyAtUrl
  simp only [hheld]
  cases fetch L P turn x.url x.domain with
  | error failed => exact ⟨setFetch_last hfetches _, rfl, rfl, rfl⟩
  | ok answer => exact ⟨setFetch_last hfetches _, rfl, rfl, rfl⟩

/-- A fetch that led and forgets its URL leaves the table as it was. -/
theorem lookup_forget_led {w w' : World} {url : String} {f : Nat}
    (hentry : w.inFlight.lookup url = none) (hled : w'.inFlight = w.inFlight.insert url f)
    (other : String) : (w'.forget url f).inFlight.lookup other = w.inFlight.lookup other := by
  unfold World.forget
  simp only
  rw [hled, AList.lookup_insert, if_pos rfl]
  by_cases hother : other = url
  · rw [hother, AList.lookup_erase, hentry]
  · rw [AList.lookup_erase_ne hother, AList.lookup_insert_ne hother]

/-- **A caller with nobody else about gets what `keyAtUrl` says**, and leaves the cache it
says. -/
theorem run_alone (L : Stdlib) (P : Provider σ κ) {w : World} {loop : Nat} {url : String}
    (domain : String) {turn : Turn} (hidle : w.busy loop = false)
    (hheld : heldFor w.cache turn.heldNow (endPointOf url) url = none)
    (hentry : w.inFlight.lookup url = none) :
    ∃ w', run (Fetch.step L P) w (aloneSteps w loop url domain turn) = some w' ∧
      w'.cache = (keyAtUrl L P turn w.cache url domain).cache ∧
      w'.callers = w.callers ++ [⟨loop, url, w.clock,
        .answered (keyAtUrl L P turn w.cache url domain).result [w.fetches.length]⟩] ∧
      (∃ x : Fetching, w'.fetches = w.fetches ++ [x] ∧ x.phase = .finished) ∧
      ∀ other, w'.inFlight.lookup other = w.inFlight.lookup other := by
  let x := Fetching.mk url domain loop
  let k := Caller.mk loop url w.clock
  -- the caller leads a fetch, and its task is created and started
  obtain ⟨w₁, hstep₁, hfetches₁, hcache₁, hcallers₁, hled₁⟩ : ∃ w₁,
      step L P w (.call loop url domain turn.heldNow) = some w₁ ∧
        w₁.fetches = w.fetches ++ [x .led none w.clock none] ∧ w₁.cache = w.cache ∧
        w₁.callers = w.callers ++ [k (.waiting w.fetches.length)] ∧
        w₁.inFlight = w.inFlight.insert url w.fetches.length :=
    ⟨_, (Stepped.led hidle hheld hentry).step, rfl, rfl, rfl, rfl⟩
  obtain ⟨w₂, hstep₂, hfetches₂, hcache₂, hcallers₂, hled₂⟩ : ∃ w₂,
      step L P w₁ (.createTask w.fetches.length) = some w₂ ∧
        w₂.fetches = w.fetches ++ [x .created none w.clock none] ∧ w₂.cache = w.cache ∧
        w₂.callers = w.callers ++ [k (.waiting w.fetches.length)] ∧
        w₂.inFlight = w.inFlight.insert url w.fetches.length :=
    ⟨_, (Stepped.created (getElem?_last hfetches₁) rfl).step, setFetch_last hfetches₁ _,
      hcache₁, hcallers₁, hled₁⟩
  obtain ⟨w₃, hstep₃, hfetches₃, hcache₃, hcallers₃, hled₃⟩ : ∃ w₃,
      step L P w₂ (.start w.fetches.length) = some w₃ ∧
        w₃.fetches = w.fetches ++ [x .requesting none w.clock (some w₂.clock)] ∧
        w₃.cache = w.cache ∧ w₃.callers = w.callers ++ [k (.waiting w.fetches.length)] ∧
        w₃.inFlight = w.inFlight.insert url w.fetches.length :=
    ⟨_, (Stepped.entered (getElem?_last hfetches₂) (busy_last hidle hfetches₂ rfl) rfl).step,
      setFetch_last hfetches₂ _, hcache₂, hcallers₂, hled₂⟩
  -- the answer is held as `keyAtUrl` holds it, from the cache the caller found
  have hheld₃ : heldFor w₃.cache turn.heldNow (endPointOf url) url = none := by
    rw [hcache₃]
    exact hheld
  obtain ⟨w₄, hstep₄, hfetches₄, hcache₄, hcallers₄, hforget₄⟩ :=
    step_complete_alone L P hfetches₃ (busy_last hidle hfetches₃ rfl) rfl hheld₃
  rw [hcache₃] at hfetches₄ hcache₄
  -- the future is resolved and the caller receives it
  obtain ⟨w₅, hstep₅, hfetches₅, hcache₅, hcallers₅, hforget₅⟩ : ∃ w₅,
      step L P w₄ (.resolve w.fetches.length) = some w₅ ∧
        w₅.fetches = w.fetches ++ [x .finished
          (some (keyAtUrl L P turn w.cache url domain).result) w.clock (some w₂.clock)] ∧
        w₅.cache = (keyAtUrl L P turn w.cache url domain).cache ∧
        w₅.callers = w.callers ++ [k (.waiting w.fetches.length)] ∧
        w₅.inFlight = w₄.inFlight :=
    ⟨_, (Stepped.resolved (getElem?_last hfetches₄) rfl).step, setFetch_last hfetches₄ _,
      hcache₄, hcallers₄.trans hcallers₃, rfl⟩
  have hk : w₅.callers[w.callers.length]? = some (k (.waiting w.fetches.length)) := by
    rw [hcallers₅]
    exact List.getElem?_concat_length
  obtain ⟨w₆, hstep₆, hcache₆, hcallers₆, hfetches₆, hforget₆⟩ : ∃ w₆,
      step L P w₅ (.receive w.callers.length) = some w₆ ∧ w₆.cache = w₅.cache ∧
        w₆.callers = w₅.callers.set w.callers.length
          (k (.answered (keyAtUrl L P turn w.cache url domain).result [w.fetches.length])) ∧
        w₆.fetches = w₅.fetches ∧ w₆.inFlight = w₅.inFlight :=
    ⟨_, (Stepped.received hk (busy_last hidle hfetches₅ rfl) rfl (getElem?_last hfetches₅)
      rfl).step, rfl, rfl, rfl, rfl⟩
  refine ⟨w₆, ?_, hcache₆.trans hcache₅, ?_, ⟨_, hfetches₆.trans hfetches₅, rfl⟩, ?_⟩
  · simp only [aloneSteps, run, hstep₁, hstep₂, hstep₃, hstep₄, hstep₅, hstep₆, Option.bind_some]
  · rw [hcallers₆, hcallers₅, List.set_append_right _ _ (Nat.le_refl _), Nat.sub_self,
      List.set_cons_zero]
  · intro other
    rw [hforget₆, hforget₅, hforget₄]
    exact lookup_forget_led hentry hled₃ other

/-! ## A request under way -/

/-- A process that has cleared its cache at the times given and called nothing. -/
def cleared (clears : List Nat) (clock : Nat) : World := ⟨.empty, ∅, [], [], clock, clears, []⟩

/-- The same process once a caller has led a fetch, with the task in the phase given. -/
def asking (url domain : String) (phase : Phase) (started : Option Nat) (clears : List Nat)
    (calledAt clock : Nat) : World :=
  ⟨.empty, AList.insert url 0 ∅, [⟨url, domain, 0, phase, none, calledAt, started⟩],
    [⟨0, url, calledAt, .waiting 0⟩], clock, clears, []⟩

/-- The steps a caller and its task take before the request is on its way. -/
def askSteps (url domain : String) (now : DateTime) : List Event :=
  [.call 0 url domain now, .createTask 0, .start 0]

theorem step_led (L : Stdlib) (P : Provider σ κ) (url domain : String) (now : DateTime)
    (clears : List Nat) (clock : Nat) :
    step L P (cleared clears clock) (.call 0 url domain now) =
      some (asking url domain .led none clears clock (clock + 1)) :=
  Stepped.step (.led rfl (heldFor_empty ..) rfl)

theorem step_created (L : Stdlib) (P : Provider σ κ) (url domain : String) (clears : List Nat)
    (calledAt clock : Nat) :
    step L P (asking url domain .led none clears calledAt clock) (.createTask 0) =
      some (asking url domain .created none clears calledAt (clock + 1)) := rfl

theorem step_entered (L : Stdlib) (P : Provider σ κ) (url domain : String) (clears : List Nat)
    (calledAt clock : Nat) :
    step L P (asking url domain .created none clears calledAt clock) (.start 0) =
      some (asking url domain .requesting (some clock) clears calledAt (clock + 1)) := rfl

theorem run_askSteps (L : Stdlib) (P : Provider σ κ) (url domain : String) (now : DateTime)
    (clears : List Nat) (clock : Nat) :
    run (step L P) (cleared clears clock) (askSteps url domain now) =
      some (asking url domain .requesting (some (clock + 2)) clears clock (clock + 3)) := by
  simp only [askSteps, run, step_led, step_created, step_entered, Option.bind_some]

end Fetch

end OpenWebId
