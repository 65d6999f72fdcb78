import OpenWebId.Agreement
import OpenWebId.Checks

/-!
# The sequential checks are runs of the process

`signatureStatusAtUrl` obtains one key after another with nobody else about. The process
has that run: where nothing is under way (`Quiet`), a check takes its own steps alone, each
of its requests is answered by the turn `signatureStatusAtUrl` takes, and it ends with the
same result and leaves the same cache, with nothing under way again (`Quiet.check`). A
process that checks one OWID after another therefore does what `sessionStep` says
(`session_reaches`), and what is shown of every run of the process is shown of the session.

The induction is over the minutes the loop over the neighbours asks about, and goes from
one key that has arrived to the next (`Quiet.called`).
-/

namespace OpenWebId

namespace Fetch

open Lib (Reaches run Allowed)

variable {σ κ : Type}

/-- No request is under way and no loop is in the middle of a step. -/
structure Quiet (w : World) : Prop where
  idle : ∀ loop, w.busy loop = false
  landed : ∀ url, w.inFlight.lookup url = none

theorem Quiet.start : Quiet World.start := ⟨fun _ => rfl, fun _ => rfl⟩

/-- The steps of a request that the turn answers. -/
def Event.Serves (turn : Turn) : Event → Prop
  | .createTask _ | .start _ | .resolve _ | .receive _ => True
  | .complete _ turn' => turn' = turn
  | _ => False

/-- The steps of one check, whose requests these turns answer. -/
def TakesTurns (turns : Nat → Turn) (_ : Process) : ProcessEvent → Prop
  | .world event => ∃ n, event.Serves (turns n)
  | _ => True

/-- **A key obtained with nothing under way** is what `keyAtUrl` says, and leaves nothing
under way. -/
theorem Quiet.called (L : Stdlib) (P : Provider σ κ) {w : World} (h : Quiet w) (loop : Nat)
    (url domain : String) (turn : Turn) :
    ∃ w₁ w', step L P w (.call loop url domain turn.heldNow) = some w₁ ∧
      Reaches (step L P) (fun _ event => event.Serves turn) w₁ w' ∧ Quiet w' ∧
      w'.cache = (keyAtUrl L P turn w.cache url domain).cache ∧
      w'.returned w.callers.length = some (keyAtUrl L P turn w.cache url domain).result := by
  cases hheld : heldFor w.cache turn.heldNow (endPointOf url) url with
  | some held =>
    refine ⟨_, _, (Stepped.answered (h.idle loop) hheld).step, .start, ⟨h.idle, h.landed⟩, ?_, ?_⟩
    · unfold keyAtUrl
      simp only [hheld]
      rfl
    · unfold World.returned World.tick keyAtUrl
      simp only [hheld, World.addCaller_last, Option.bind_some]
  | none =>
    obtain ⟨w', hrun, hcache, hcallers, ⟨x, hfetches, hphase⟩, hlookup⟩ :=
      run_alone L P domain (h.idle loop) hheld (h.landed url)
    obtain ⟨w₁, hstep, hrest⟩ := Option.bind_eq_some_iff.mp hrun
    refine ⟨w₁, w', hstep, .of_run _ (.of_events ?_ w₁) hrest, ⟨?_, ?_⟩, hcache, ?_⟩
    · intro event hevent _
      simp only [List.mem_cons, List.not_mem_nil, or_false] at hevent
      rcases hevent with rfl | rfl | rfl | rfl | rfl <;> trivial
    · intro other
      exact busy_last (h.idle other) hfetches (by rw [hphase]; rfl)
    · intro other
      rw [hlookup, h.landed]
    · rw [World.returned, hcallers, List.getElem?_concat_length, Option.bind_some]

/-- The steps of a request are steps of the process, whatever its checks. -/
theorem reaches_world {L : Stdlib} {P : Provider σ κ} {turns : Nat → Turn} {n : Nat}
    {w w' : World} (h : Reaches (step L P) (fun _ event => event.Serves (turns n)) w w')
    (checks : List Check) :
    Reaches (processStep L P) (TakesTurns turns) ⟨w, checks⟩ ⟨w', checks⟩ := by
  refine h.simulates (fun w => (⟨w, checks⟩ : Process)) ?_
  intro w event w' hserves hstep
  exact .next (.world event) .start ⟨n, hserves⟩ (Turned.world hstep).step

theorem TakesTurns.shift {turns : Nat → Turn} {p : Process} {event : ProcessEvent}
    (h : TakesTurns (fun n => turns (n + 1)) p event) : TakesTurns turns p event := by
  cases event with
  | world event =>
    obtain ⟨n, hserves⟩ := h
    exact ⟨n + 1, hserves⟩
  | check | resume => trivial

/-- The loop over the neighbours of a key with no stated span is over at once. -/
theorem neighbourVerifies_eq (L : Stdlib) (P : Provider σ κ) (turns : Nat → Turn) (cache : Cache)
    (owid : Owid) (minute : Int) (url : String) (tried : KeyAnswer) :
    neighbourVerifies L P turns cache owid minute url tried =
      tryNeighbours L P owid url tried turns cache
        (if tried.known = false then [] else beyond minute tried) := by
  unfold neighbourVerifies
  split
  next => rfl
  next => rfl

/-- A check whose signature does not match under the first key goes on to the head of the
loop. -/
theorem afterOwn_invalid {P : Provider σ κ} {owid : Owid} {answer : KeyAnswer}
    (hinvalid : owid.signatureStatus P answer.pem = .signatureInvalid)
    (hminute : ¬ minutesSinceBase owid.date < 0) :
    afterOwn P owid (.ok answer) = askNext owid answer
      (if answer.known = false then [] else beyond (minutesSinceBase owid.date) answer) := by
  simp only [afterOwn, hinvalid, if_neg (not_not_intro rfl), if_neg hminute]
  split
  next hknown =>
    have hnot : ¬ (answer.known = true ∧
        answer.covers (minutesSinceBase owid.date) = false) := by
      rw [hknown]
      exact fun hboth => Bool.noConfusion hboth.1
    rw [askNext, unverified, if_neg hnot]
  next => rfl

/-! ## From one key to the next -/

section Alone

variable {L : Stdlib} {P : Provider σ κ} {p : Process} {checks : List Check} {x : Check}
  {result : Except PyExc KeyAnswer}

/-- The check there is last goes on with what its call came to, and ends. -/
theorem resume_ends (h : Quiet p.world) (hchecks : p.checks = checks ++ [x])
    (hresult : p.world.returned x.caller = some result)
    {outcome : Except PyExc SignatureStatus} (hafter : x.after P result = some (.ends outcome))
    (turns : Nat → Turn) :
    Reaches (processStep L P) (TakesTurns turns) p
      ⟨p.world, checks ++ [{ x with stage := .done outcome }]⟩ := by
  have hx : p.checks[checks.length]? = some x := by
    rw [hchecks]
    exact List.getElem?_concat_length
  have hset : p.checks.set checks.length { x with stage := .done outcome } =
      checks ++ [{ x with stage := .done outcome }] := by
    rw [hchecks, List.set_append_right _ _ (Nat.le_refl _), Nat.sub_self, List.set_cons_zero]
  have hturned : Turned L P p (.resume checks.length baseDate) _ :=
    .ended hx (h.idle x.loop) hresult hafter
  rw [hset] at hturned
  exact .next (.resume checks.length baseDate) .start trivial hturned.step

/-- The check there is last goes on with what its call came to, and obtains another key. -/
theorem resume_asks (h : Quiet p.world) (hchecks : p.checks = checks ++ [x])
    (hresult : p.world.returned x.caller = some result) {tried : KeyAnswer} {minute : Int}
    {rest : List Int} (hafter : x.after P result = some (.asks tried minute rest))
    (turns : Nat → Turn) {asked : Outcome KeyAnswer}
    (hasked : keyAtUrl L P (turns 0) p.world.cache (x.urlAt minute) x.owid.domain = asked) :
    ∃ w k, Reaches (processStep L P) (TakesTurns turns) p
        ⟨w, checks ++ [{ x with caller := k, stage := .neighbour tried minute rest }]⟩ ∧
      Quiet w ∧ w.cache = asked.cache ∧ w.returned k = some asked.result := by
  obtain ⟨w₁, w', hstep, hreach, hquiet, hcache, hreturned⟩ :=
    h.called L P x.loop (x.urlAt minute) x.owid.domain (turns 0)
  rw [hasked] at hcache hreturned
  have hx : p.checks[checks.length]? = some x := by
    rw [hchecks]
    exact List.getElem?_concat_length
  have hset : ∀ y, p.checks.set checks.length y = checks ++ [y] := by
    intro y
    rw [hchecks, List.set_append_right _ _ (Nat.le_refl _), Nat.sub_self, List.set_cons_zero]
  have hturned : Turned L P p (.resume checks.length (turns 0).heldNow) _ :=
    .asked hx (h.idle x.loop) hresult hafter hstep
  rw [hset] at hturned
  refine ⟨w', p.world.callers.length, ?_, hquiet, hcache, hreturned⟩
  exact (Reaches.next (.resume checks.length (turns 0).heldNow) .start trivial
    hturned.step).trans (reaches_world hreach _)

/-- **The loop over the neighbours**, from a check that is about to run it on. -/
theorem resume_tryNeighbours {minutes : List Int} {tried : KeyAnswer} {turns : Nat → Turn}
    (h : Quiet p.world) (hchecks : p.checks = checks ++ [x])
    (hresult : p.world.returned x.caller = some result)
    (hafter : x.after P result = some (askNext x.owid tried minutes)) :
    ∃ w k, Reaches (processStep L P) (TakesTurns turns) p
        ⟨w, checks ++ [{ x with
          caller := k
          stage := .done ((tryNeighbours L P x.owid x.url tried turns p.world.cache
            minutes).result.map fun verified =>
              if verified then .signatureValid else unverified x.owid tried) }]⟩ ∧
      Quiet w ∧
      w.cache = (tryNeighbours L P x.owid x.url tried turns p.world.cache minutes).cache := by
  induction minutes generalizing p x result turns with
  | nil => exact ⟨p.world, x.caller, resume_ends h hchecks hresult hafter turns, h, rfl⟩
  | cons minute rest ih =>
    generalize hasked : keyAtUrl L P (turns 0) p.world.cache (x.urlAt minute) x.owid.domain = asked
    obtain ⟨w, k, hreach, hquiet, hcache, hreturned⟩ :=
      resume_asks h hchecks hresult hafter turns hasked
    let y : Check := { x with caller := k, stage := .neighbour tried minute rest }
    have hy : y.after P asked.result = some (afterNeighbour P x.owid tried rest asked.result) := rfl
    have hstep := tryNeighbours_cons tried rest hasked
    generalize tryNeighbours L P x.owid x.url tried turns p.world.cache (minute :: rest) = out
      at hstep ⊢
    cases hstep with
    | raised herror hnot =>
      rw [herror, afterNeighbour, hnot] at hy
      refine ⟨w, k, ?_, hquiet, hcache⟩
      exact hreach.trans (resume_ends hquiet rfl hreturned (herror ▸ hy) turns)
    | verified hok hpem hvalid =>
      rw [hok, afterNeighbour, if_neg hpem, if_pos hvalid] at hy
      refine ⟨w, k, ?_, hquiet, hcache⟩
      exact hreach.trans (resume_ends hquiet rfl hreturned (hok ▸ hy) turns)
    | goOn hnot hgoes =>
      -- the check is at the head of the loop again, with the minutes left
      have hnext : afterNeighbour P x.owid tried rest asked.result =
          askNext x.owid tried rest := by
        cases hout : asked.result with
        | error e =>
          rw [hout, raised_error, Bool.not_eq_false] at hnot
          rw [afterNeighbour, if_pos hnot]
        | ok neighbour =>
          rw [afterNeighbour]
          split
          next => rfl
          next hpem => rw [if_neg ((hgoes neighbour hout).resolve_left hpem)]
      rw [hnext] at hy
      obtain ⟨w', k', hreach', hquiet', hcache'⟩ :=
        @ih ⟨w, checks ++ [y]⟩ y asked.result (fun n => turns (n + 1)) hquiet rfl hreturned hy
      rw [hcache] at hreach' hcache'
      exact ⟨w', k', hreach.trans (hreach'.mono fun _ _ hok => hok.shift), hquiet', hcache'⟩

/-- **A check with nothing under way ends with what `signatureStatusAtUrl` says**, leaves the
cache it says, and leaves nothing under way. -/
theorem Quiet.check (h : Quiet p.world) (L : Stdlib) (P : Provider σ κ) (loop : Nat) (owid : Owid)
    (url : String) (turns : Nat → Turn) :
    ∃ w k, Reaches (processStep L P) (TakesTurns turns) p
        ⟨w, p.checks ++ [⟨owid, url, loop, k,
          .done (signatureStatusAtUrl L P turns p.world.cache owid url).result⟩]⟩ ∧
      Quiet w ∧ w.cache = (signatureStatusAtUrl L P turns p.world.cache owid url).cache := by
  obtain ⟨w₁, w, hstep, hreach, hquiet, hcache, hreturned⟩ :=
    h.called L P loop url owid.domain (turns 0)
  have hbegun : Reaches (processStep L P) (TakesTurns turns) p
      ⟨w, p.checks ++ [⟨owid, url, loop, p.world.callers.length, .own⟩]⟩ :=
    (Reaches.next (.check loop owid url (turns 0).heldNow) .start trivial
      (Turned.begun hstep).step).trans (reaches_world hreach _)
  generalize hasked : keyAtUrl L P (turns 0) p.world.cache url owid.domain = asked
    at hcache hreturned
  let x : Check := ⟨owid, url, loop, p.world.callers.length, .own⟩
  have hx : x.after P asked.result = some (afterOwn P owid asked.result) := rfl
  -- a check that ends with its own key
  have hends : ∀ outcome, afterOwn P owid asked.result = .ends outcome →
      ∃ w k, Reaches (processStep L P) (TakesTurns turns) p
          ⟨w, p.checks ++ [⟨owid, url, loop, k, .done outcome⟩]⟩ ∧
        Quiet w ∧ w.cache = asked.cache := by
    intro outcome houtcome
    rw [houtcome] at hx
    exact ⟨w, _, hbegun.trans (resume_ends hquiet rfl hreturned hx turns), hquiet, hcache⟩
  simp only [signatureStatusAtUrl, hasked]
  cases hout : asked.result with
  | error e => exact hends _ (by rw [hout]; rfl)
  | ok answer =>
    simp only
    split
    next hstatus => exact hends _ (by rw [hout, afterOwn]; exact if_pos hstatus)
    next hinvalid =>
      split
      next hminute =>
        refine hends _ ?_
        rw [hout, afterOwn]
        simp only [if_neg hinvalid, if_pos hminute]
      next hminute =>
        rw [Decidable.not_not] at hinvalid
        rw [hout, afterOwn_invalid hinvalid hminute] at hx
        rw [hinvalid, neighbourVerifies_eq]
        obtain ⟨w', k, hreach', hquiet', hcache'⟩ :=
          @resume_tryNeighbours _ _ L P ⟨w, p.checks ++ [x]⟩ p.checks x _ _ answer
            (fun n => turns (n + 1)) hquiet rfl (hout ▸ hreturned) hx
        rw [hcache] at hreach' hcache'
        exact ⟨w', k, hbegun.trans (hreach'.mono fun _ _ hok => hok.shift), hquiet', hcache'⟩

end Alone

/-! ## A session is a run of the process -/

/-- The turns of a session's checks are ones `A` allows. -/
def Turnwise (A : Turn → Prop) : SessionEvent → Prop
  | .check turns _ _ => ∀ n, A (turns n)
  | .clearCache => True

/-- The steps of a process in which nothing is thrown, cancelled or shut down, and whose
requests are answered by turns `A` allows. -/
def Undisturbed (A : Turn → Prop) (_ : Process) : ProcessEvent → Prop
  | .world event => event = .clearCache ∨ ∃ turn, A turn ∧ event.Serves turn
  | _ => True

/-- What a process has checked: the OWIDs, the URLs they were checked at and where the
checks stand. -/
def Process.verdicts (p : Process) : List (Owid × String × Stage) :=
  p.checks.map fun x => (x.owid, x.url, x.stage)

/-- What the checks of a session come to, in order. An OWID with no URL is not checked. -/
def verdictsOf (L : Stdlib) (P : Provider σ κ) : Cache → List SessionEvent →
    List (Owid × String × Stage)
  | _, [] => []
  | _, .clearCache :: events => verdictsOf L P .empty events
  | cache, .check turns owid scheme :: events =>
    let checked := signatureStatus L P turns cache owid scheme
    match publicKeyUrl owid scheme with
    | .ok url => (owid, url, .done checked.result) :: verdictsOf L P checked.cache events
    | .error _ => verdictsOf L P checked.cache events

section Session

variable {L : Stdlib} {P : Provider σ κ} {A : Turn → Prop}

theorem TakesTurns.undisturbed {turns : Nat → Turn} (hturns : ∀ n, A (turns n)) {p : Process}
    {event : ProcessEvent} (h : TakesTurns turns p event) : Undisturbed A p event := by
  cases event with
  | world event =>
    obtain ⟨n, hserves⟩ := h
    exact Or.inr ⟨turns n, hturns n, hserves⟩
  | check | resume => trivial

/-- **A session is a run of the process**: whatever a process with nothing under way checks
one after another, in whatever order with its clearings, it has a run with no other step in
it that comes to the same verdicts and the same cache. -/
theorem session_reaches (loop : Nat) {events : List SessionEvent}
    (hevents : ∀ event ∈ events, Turnwise A event) {p : Process} (hquiet : Quiet p.world)
    {s s' : Session} (hcache : p.world.cache = s.cache)
    (hrun : run (sessionStep L P) s events = some s') :
    ∃ p', Reaches (processStep L P) (Undisturbed A) p p' ∧ Quiet p'.world ∧
      p'.world.cache = s'.cache ∧ p'.verdicts = p.verdicts ++ verdictsOf L P s.cache events := by
  induction events generalizing p s with
  | nil =>
    cases hrun
    exact ⟨p, .start, hquiet, hcache, (List.append_nil _).symm⟩
  | cons event events ih =>
    obtain ⟨s₁, hstep, hrest⟩ := Option.bind_eq_some_iff.mp hrun
    have htail : ∀ event ∈ events, Turnwise A event :=
      fun e he => hevents e (List.mem_cons_of_mem _ he)
    cases event with
    | clearCache =>
      cases hstep
      have hcleared : step L P p.world .clearCache = some p.world.clearCache.tick :=
        Stepped.cleared.step
      obtain ⟨p', hreach, hquiet', hcache', hverdicts⟩ :=
        ih htail (p := ⟨p.world.clearCache.tick, p.checks⟩) ⟨hquiet.idle, fun _ => rfl⟩ rfl hrest
      have hclear : Reaches (processStep L P) (Undisturbed A) p
          ⟨p.world.clearCache.tick, p.checks⟩ :=
        .next (.world .clearCache) .start (Or.inl rfl) (Turned.world hcleared).step
      exact ⟨p', hclear.trans hreach, hquiet', hcache', hverdicts⟩
    | check turns owid scheme =>
      cases hstep
      cases hurl : publicKeyUrl owid scheme with
      | error e =>
        -- there is nothing to ask, and the cache is as it was
        have hkept : p.world.cache = (signatureStatus L P turns s.cache owid scheme).cache := by
          rw [signatureStatus, hurl]
          exact hcache
        obtain ⟨p', hreach, hquiet', hcache', hverdicts⟩ := ih htail hquiet hkept hrest
        refine ⟨p', hreach, hquiet', hcache', ?_⟩
        rw [hverdicts]
        simp only [verdictsOf, hurl]
      | ok url =>
        have hsame : signatureStatus L P turns s.cache owid scheme =
            signatureStatusAtUrl L P turns p.world.cache owid url := by
          rw [signatureStatus, hurl, hcache]
        obtain ⟨w, k, hchecked, hquiet', hcache'⟩ := hquiet.check L P loop owid url turns
        rw [← hsame] at hchecked hcache'
        obtain ⟨p', hreach, hquiet'', hcache'', hverdicts⟩ := ih htail (p := ⟨w, p.checks ++ _⟩)
          hquiet' hcache' hrest
        have hturns : ∀ n, A (turns n) := hevents _ (List.mem_cons_self ..)
        refine ⟨p', (hchecked.mono fun _ _ hok => hok.undisturbed hturns).trans hreach, hquiet'',
          hcache'', ?_⟩
        rw [hverdicts]
        simp only [Process.verdicts, verdictsOf, hurl, List.map_append, List.map_cons,
          List.map_nil, List.append_assoc, List.singleton_append]

end Session

/-- An end point that sends no key leaves it unavailable. -/
theorem fetch_unanswered (L : Stdlib) (P : Provider σ κ) {turn : Turn} {url : String}
    (domain : String) (hasks : asks url = true) (hout : ∀ body, turn.reply url ≠ .ok (200, body)) :
    ∃ e, fetch L P turn url domain = .error e ∧ failedStatus e = .ok .keyUnavailable ∧
      e.isOwidError = true := by
  have hnot : ¬ asks url = false := by
    rw [hasks]
    exact Bool.noConfusion
  cases hread : readReply domain (turn.reply url) with
  | ok body =>
    obtain ⟨bytes, hreply, -⟩ := readReply_ok hread
    exact absurd hreply (hout bytes)
  | error e =>
    refine ⟨e, ?_, readReply_failedStatus hread, (readReply_error hread).1⟩
    rw [fetch, read, if_neg hnot, hread, error_bind]

/-- The URL of the OWID of zeros. -/
def zeroUrl : String :=
  dateUrl (endPoint "https" zeroEnvelope.owid.domain zeroEnvelope.owid.version) 10

theorem zeroUrl_eq : publicKeyUrl zeroEnvelope.owid "https" = .ok zeroUrl :=
  publicKeyUrl_accepted (by decide) rfl (minutesSinceBase_of_whole rfl)

theorem zeroUrl_refused (L : Stdlib) (P : Provider σ κ) :
    signatureStatus L P (fun _ => refusedTurn) .empty zeroEnvelope.owid "https" =
      ⟨.ok .keyUnavailable, .empty, [⟨zeroUrl, .error .osError⟩]⟩ := by
  have hasks : asks zeroUrl = true := asks_dateUrl (by decide) rfl 10
  have hout : ∀ body, refusedTurn.reply zeroUrl ≠ .ok (200, body) := nofun
  obtain ⟨e, hfetch, hstatus, -⟩ := fetch_unanswered L P zeroEnvelope.owid.domain hasks hout
  simp only [signatureStatus, zeroUrl_eq, signatureStatusAtUrl, keyAtUrl, heldFor_empty, hfetch,
    hstatus, hasks]
  rfl

/-- Two checks of one OWID, the cache cleared in between, whose creator is not reached. -/
theorem session_reaches_refused :
    ∃ p, Reaches (processStep (plainStdlib [] []) .plain)
        (Undisturbed fun turn => turn = refusedTurn) .start p ∧ Quiet p.world ∧
      p.world.cache = .empty ∧
      p.verdicts = [(zeroEnvelope.owid, zeroUrl, .done (.ok .keyUnavailable)),
        (zeroEnvelope.owid, zeroUrl, .done (.ok .keyUnavailable))] := by
  let check := SessionEvent.check (fun _ => refusedTurn) zeroEnvelope.owid "https"
  have hrefused := zeroUrl_refused (plainStdlib [] []) .plain
  have hrun : run (sessionStep (plainStdlib [] []) .plain) Session.start
      [check, .clearCache, check] =
      some ⟨.empty, [⟨zeroUrl, .error .osError⟩, ⟨zeroUrl, .error .osError⟩]⟩ := by
    simp only [check, run, sessionStep, Session.start, hrefused, Option.bind_some]
    rfl
  have hevents : ∀ event ∈ [check, .clearCache, check],
      Turnwise (fun turn => turn = refusedTurn) event := by
    intro event hevent
    simp only [List.mem_cons, List.not_mem_nil, or_false] at hevent
    rcases hevent with rfl | rfl | rfl
    · exact fun _ => rfl
    · trivial
    · exact fun _ => rfl
  obtain ⟨p, hreach, hquiet, hcache, hverdicts⟩ :=
    session_reaches 0 hevents (p := .start) Quiet.start rfl hrun
  refine ⟨p, hreach, hquiet, hcache, ?_⟩
  rw [hverdicts]
  simp only [check, verdictsOf, zeroUrl_eq, Session.start, hrefused]
  rfl

end Fetch

end OpenWebId
