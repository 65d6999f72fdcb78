import OpenWebId.Checks

/-!
# The default transport: `_urllib_transport`

What a request asks for is the answer of the one server its URL names. `openUrl` is urllib's
`open` with a redirect handler, `noRedirects` the handler the source gives it and
`urllibRequest` the request with its bounded read. Behind it stand `Servers`, which answer any
URL with any code, a place to go on to and a body of any length.

The redirect handler reads the Location before it asks `redirect_request` about it, and raises
`ValueError` where that is no URL: such a response is one that did not arrive (`arrived`).
`Alike` says how much of two responses that did is looked at: the code, and of an answer of 200
the body up to the limit. No run can tell two networks apart that answer alike where they are
asked, whatever else is in them: where a redirect leads, what stands behind another URL, the
body of a refusal, the bytes past the limit (`visits_of_run`).
-/

namespace OpenWebId

namespace Fetch

open Lib (run Allowed)

variable {σ κ : Type}

/-- What a server answers a request with. -/
structure HttpResponse where
  code : Int
  location : Option String
  body : Bytes

/-- What every URL is answered with, or why no response could be obtained. -/
abbrev Servers := String → Except TransportError HttpResponse

/-- What urllib's `open` comes to where a response arrived: the response, or the `HTTPError`
of its code. -/
inductive Opened
  | response (status : Int) (body : Bytes)
  | httpError (code : Int)

/-- The codes urllib takes for a redirect. -/
def redirectCodes : List Int := [301, 302, 303, 307, 308]

/-- The redirects urllib follows one after another. -/
def maximumRedirections : Nat := 10

/-- What urllib's redirect handler makes of a Location at a URL: `urlparse` or `urljoin` raises
`ValueError`, or the scheme is none of http, https and ftp, or it leads to a URL. -/
inductive Redirect
  | malformed
  | forbidden
  | leads (newUrl : String)

/-- `_opener.open` of the standard library. A code from 200 to 299 is handed on. A redirect whose
Location can be read goes on to where the handler's `redirect_request` says, and anything else
is an `HTTPError`. -/
def openUrl (readLocation : String → String → Redirect)
    (redirectRequest : Int → String → Option String) (servers : Servers) (hops : Nat)
    (url : String) : Except TransportError Opened := do
  let response ← servers url
  if 200 ≤ response.code ∧ response.code < 300 then
    .ok (.response response.code response.body)
  else if response.code ∈ redirectCodes then
    match response.location.map (readLocation url) with
    | none | some .forbidden => .ok (.httpError response.code)
    | some .malformed => .error .valueError
    | some (.leads newUrl) =>
      match redirectRequest response.code newUrl with
      | none => .ok (.httpError response.code)
      | some next =>
        match hops with
        | 0 => .ok (.httpError response.code)
        | hops + 1 => openUrl readLocation redirectRequest servers hops next
  else .ok (.httpError response.code)

/-- `_NoRedirects.redirect_request`. -/
def noRedirects (_code : Int) (_newUrl : String) : Option String := none

section Location

variable (readLocation : String → String → Redirect)

/-- `_urllib_request`. -/
def urllibRequest (servers : Servers) (url : String) : Reply :=
  match openUrl readLocation noRedirects servers maximumRedirections url with
  | .error e => .error e
  | .ok (.response status body) => .ok (status, body.take (maximumResponseBytes + 1))
  | .ok (.httpError code) => .ok (code, [])

/-- The response is a redirect whose Location is no URL. -/
def HttpResponse.Malformed (url : String) (response : HttpResponse) : Prop :=
  response.code ∈ redirectCodes ∧ response.location.map (readLocation url) = some .malformed

/-- The response that the client gets to see of what the URL is answered with. -/
def Arrived (url : String) (answer : Except TransportError HttpResponse)
    (response : HttpResponse) : Prop :=
  answer = .ok response ∧ ¬ response.Malformed readLocation url

/-- The answers agree in what is looked at. -/
def Alike (url : String) (first second : Except TransportError HttpResponse) : Prop :=
  ((∃ response, Arrived readLocation url first response) ↔
    ∃ response, Arrived readLocation url second response) ∧
  ∀ response response', Arrived readLocation url first response →
    Arrived readLocation url second response' → response.code = response'.code ∧
      (response.code = 200 → response.body = response'.body ∨
        maximumResponseBytes < response.body.length ∧ maximumResponseBytes < response'.body.length)

/-! ## One request -/

variable {readLocation}

/-- Only the server of the URL is asked: a response that arrives is what the request reads. -/
theorem Arrived.urllibRequest {servers : Servers} {url : String} {response : HttpResponse}
    (h : Arrived readLocation url (servers url) response) :
    Fetch.urllibRequest readLocation servers url =
      .ok (response.code, if 200 ≤ response.code ∧ response.code < 300 then
        response.body.take (maximumResponseBytes + 1) else []) := by
  obtain ⟨hanswer, hread⟩ := h
  obtain ⟨code, location, body⟩ := response
  unfold Fetch.urllibRequest openUrl
  rw [hanswer, ok_bind]
  by_cases hsuccess : 200 ≤ code ∧ code < 300
  · simp only [if_pos hsuccess]
  · simp only [if_neg hsuccess]
    by_cases hredirect : code ∈ redirectCodes
    · rw [if_pos hredirect]
      cases hlocation : location.map (readLocation url) with
      | none => rfl
      | some redirect =>
        cases redirect with
        | malformed => exact absurd ⟨hredirect, hlocation⟩ hread
        | forbidden | leads => rfl
    · rw [if_neg hredirect]

/-- Where none arrives the request raises. -/
theorem urllibRequest_error {servers : Servers} {url : String}
    (h : ¬ ∃ response, Arrived readLocation url (servers url) response) :
    ∃ e, urllibRequest readLocation servers url = .error e := by
  unfold urllibRequest openUrl
  cases hanswer : servers url with
  | error e => exact ⟨e, rfl⟩
  | ok response =>
    have hmalformed : response.Malformed readLocation url :=
      Classical.not_not.mp fun hread => h ⟨response, hanswer, hread⟩
    obtain ⟨hredirect, hlocation⟩ := hmalformed
    have hsuccess : ¬ (200 ≤ response.code ∧ response.code < 300) := by
      intro hcode
      simp only [redirectCodes, List.mem_cons, List.not_mem_nil, or_false] at hredirect
      omega
    rw [ok_bind, if_neg hsuccess, if_pos hredirect, hlocation]
    exact ⟨_, rfl⟩

/-- A body that is cut where the read ends is as much too long as the whole of it. -/
theorem readReply_cut (domain : String) (code : Int) (body : Bytes) :
    readReply domain (.ok (code, body.take (maximumResponseBytes + 1))) =
      readReply domain (.ok (code, body)) := by
  unfold readReply
  by_cases hlong : maximumResponseBytes < body.length
  · have hcut : maximumResponseBytes < (body.take (maximumResponseBytes + 1)).length := by
      rw [List.length_take]
      omega
    simp only [gt_iff_lt, if_pos hlong, if_pos hcut]
  · rw [List.take_of_length_le (by omega)]

/-- What is read of a response that arrives. -/
theorem Arrived.readReply {servers : Servers} {url : String} {response : HttpResponse}
    (h : Arrived readLocation url (servers url) response) (domain : String) :
    Fetch.readReply domain (Fetch.urllibRequest readLocation servers url) =
      Fetch.readReply domain (.ok (response.code, response.body)) := by
  rw [h.urllibRequest]
  by_cases hsuccess : 200 ≤ response.code ∧ response.code < 300
  · rw [if_pos hsuccess]
    exact readReply_cut domain response.code response.body
  · -- the body of a refusal is not looked at
    have hrefused : response.code ≠ 200 := fun h => hsuccess (by omega)
    simp only [if_neg hsuccess, Fetch.readReply, if_pos hrefused]

/-- Answers that are alike are read alike. -/
theorem Alike.readReply {first second : Servers} {url : String}
    (h : Alike readLocation url (first url) (second url)) (domain : String) :
    Fetch.readReply domain (urllibRequest readLocation first url) =
      Fetch.readReply domain (urllibRequest readLocation second url) := by
  by_cases hfirst : ∃ response, Arrived readLocation url (first url) response
  · obtain ⟨response, harrived⟩ := hfirst
    obtain ⟨response', harrived'⟩ := h.1.mp ⟨response, harrived⟩
    obtain ⟨hcode, hbody⟩ := h.2 response response' harrived harrived'
    rw [harrived.readReply, harrived'.readReply]
    simp only [Fetch.readReply, ← hcode]
    by_cases hok : response.code = 200
    · rcases hbody hok with hsame | ⟨hlong, hlong'⟩
      · rw [hsame]
      · simp only [gt_iff_lt, if_pos hlong, if_pos hlong']
    · simp only [ne_eq, if_pos hok]
  · obtain ⟨e, he⟩ := urllibRequest_error hfirst
    obtain ⟨e', he'⟩ := urllibRequest_error fun hsecond => hfirst (h.1.mpr hsecond)
    rw [he, he']
    rfl

end Location

/-! ## Runs -/

/-- A step of a process in which requests go out to the network: the end of a request, in
either of two networks, or another step. -/
inductive Visit
  | complete (f : Nat) (first second : Servers) (holdNow holdLater : DateTime)
  | other (event : ProcessEvent)

/-- The step in the first network. -/
def Visit.inFirst (readLocation : String → String → Redirect) : Visit → ProcessEvent
  | .complete f first _ holdNow holdLater =>
    .world (.complete f ⟨holdNow, urllibRequest readLocation first, holdNow, holdLater⟩)
  | .other event => event

/-- The step in the second. -/
def Visit.inSecond (readLocation : String → String → Redirect) : Visit → ProcessEvent
  | .complete f _ second holdNow holdLater =>
    .world (.complete f ⟨holdNow, urllibRequest readLocation second, holdNow, holdLater⟩)
  | .other event => event

/-- The two networks answer the URL of the request alike. -/
def AlikeWhereAsked (readLocation : String → String → Redirect) (p : Process) : Visit → Prop
  | .complete f first second _ _ => ∀ x, p.world.fetches[f]? = some x →
    Alike readLocation x.url (first x.url) (second x.url)
  | .other _ => True

/-- A fetch looks at no more of a reply than `_read` does. -/
theorem fetch_congr (L : Stdlib) (P : Provider σ κ) {turn turn' : Turn} {url domain : String}
    (h : readReply domain (turn.reply url) = readReply domain (turn'.reply url)) :
    fetch L P turn url domain = fetch L P turn' url domain := by
  unfold fetch read
  rw [h]

section Run

variable {L : Stdlib} {P : Provider σ κ} {readLocation : String → String → Redirect}

/-- A completion looks at no more of a turn than the clock and what is read of the reply. -/
theorem processStep_complete_congr {p : Process} {f : Nat} {turn turn' : Turn}
    (hnow : turn.holdNow = turn'.holdNow) (hlater : turn.holdLater = turn'.holdLater)
    (hreply : ∀ x, p.world.fetches[f]? = some x →
      readReply x.domain (turn.reply x.url) = readReply x.domain (turn'.reply x.url)) :
    processStep L P p (.world (.complete f turn)) =
      processStep L P p (.world (.complete f turn')) := by
  simp only [processStep, step, act]
  cases hx : p.world.fetches[f]? with
  | none => rfl
  | some x =>
    have hcomplete : p.world.complete L P f x turn = p.world.complete L P f x turn' := by
      unfold World.complete World.hold
      rw [fetch_congr L P (hreply x hx), hnow, hlater]
    rw [Option.bind_some, Option.bind_some, hcomplete]

/-- **A step does the same in both networks.** -/
theorem step_visit {p : Process} {visit : Visit} (h : AlikeWhereAsked readLocation p visit) :
    processStep L P p (visit.inFirst readLocation) =
      processStep L P p (visit.inSecond readLocation) := by
  cases visit with
  | other event => rfl
  | complete f first second holdNow holdLater =>
    exact processStep_complete_congr rfl rfl fun x hx => (h x hx).readReply x.domain

/-- **No run tells two networks apart that answer alike where they are asked.** In any
interleaving, with the default transport: only the code of the asked URL's own answer matters,
and of an answer of 200 its body up to the limit, and whether there is a Location that is no
URL. Where a redirect leads, what is behind any other URL, the body of a refusal and the bytes
past the limit change no state of the run, and so no key that is held and no status. -/
theorem visits_of_run {p : Process} {visits : List Visit}
    (h : Allowed (fun p (visit : Visit) => processStep L P p (visit.inFirst readLocation))
      (AlikeWhereAsked readLocation) p visits) :
    run (processStep L P) p (visits.map (Visit.inFirst readLocation)) =
      run (processStep L P) p (visits.map (Visit.inSecond readLocation)) := by
  have hmap : ∀ (side : Visit → ProcessEvent) (visits : List Visit) (p : Process),
      run (processStep L P) p (visits.map side) =
        run (fun p visit => processStep L P p (side visit)) p visits := by
    intro side visits
    induction visits with
    | nil => exact fun p => rfl
    | cons visit visits ih =>
      intro p
      rw [List.map_cons, run, run]
      exact congrArg _ (funext ih)
  rw [hmap, hmap]
  exact Lib.run_congr (fun p visit => step_visit) h

end Run

/-- A Location with a bracket that is not closed is no URL. -/
def bracketLocation (_url location : String) : Redirect :=
  if '[' ∈ location.toList ∧ ']' ∉ location.toList then .malformed else .leads location

/-- Servers that send every request elsewhere, and servers that answer the same and say no
more. -/
def movedServers : Servers := fun _ => .ok ⟨302, some "http://b.c/", []⟩

def foundServers : Servers := fun _ => .ok ⟨302, none, [0x61]⟩

/-- Servers that send every request to no URL, and servers that are not there. -/
def bracketServers : Servers := fun _ => .ok ⟨302, some "http://[bad/", []⟩

def missingServers : Servers := fun _ => .error .osError

theorem moved_alike (url : String) :
    Alike bracketLocation url (movedServers url) (foundServers url) := by
  have hmoved : ¬ (⟨302, some "http://b.c/", []⟩ : HttpResponse).Malformed bracketLocation url := by
    intro h
    have hread : bracketLocation url "http://b.c/" = .leads "http://b.c/" := rfl
    cases hread.symm.trans (Option.some.inj h.2)
  have hfound : ¬ (⟨302, none, [0x61]⟩ : HttpResponse).Malformed bracketLocation url :=
    fun h => by cases h.2
  refine ⟨⟨fun _ => ⟨_, rfl, hfound⟩, fun _ => ⟨_, rfl, hmoved⟩⟩, ?_⟩
  intro response response' harrived harrived'
  cases harrived.1
  cases harrived'.1
  exact ⟨rfl, fun hok => absurd hok (by decide)⟩

theorem bracket_alike (url : String) :
    Alike bracketLocation url (bracketServers url) (missingServers url) := by
  have hbracket : ∀ response, ¬ Arrived bracketLocation url (bracketServers url) response := by
    intro response harrived
    have hmalformed : bracketLocation url "http://[bad/" = .malformed := rfl
    cases harrived.1
    exact harrived.2 ⟨by decide, congrArg some hmalformed⟩
  have hmissing : ∀ response, ¬ Arrived bracketLocation url (missingServers url) response :=
    fun response harrived => by cases harrived.1
  refine ⟨⟨fun h => ?_, fun h => ?_⟩, fun response _ harrived _ => absurd harrived
    (hbracket response)⟩
  · obtain ⟨response, harrived⟩ := h
    exact absurd harrived (hbracket response)
  · obtain ⟨response, harrived⟩ := h
    exact absurd harrived (hmissing response)

/-- Two checks: the request of the one is redirected, or told of no place to go on to, and that
of the other is sent to no URL, or not answered. -/
def redirectedVisits : List Visit :=
  [.other (.check 0 zeroEnvelope.owid oneKeyUrl baseDate), .other (.world (.createTask 0)),
    .other (.world (.start 0)), .complete 0 movedServers foundServers baseDate baseDate,
    .other (.world (.resolve 0)), .other (.world (.receive 0)), .other (.resume 0 baseDate),
    .other (.check 1 zeroEnvelope.owid oneKeyUrl baseDate), .other (.world (.createTask 1)),
    .other (.world (.start 1)), .complete 1 bracketServers missingServers baseDate baseDate,
    .other (.world (.resolve 1)), .other (.world (.receive 1)), .other (.resume 1 baseDate)]

theorem redirectedVisits_alike (visit : Visit) (h : visit ∈ redirectedVisits) (p : Process) :
    AlikeWhereAsked bracketLocation p visit := by
  cases visit with
  | other event => trivial
  | complete f first second holdNow holdLater =>
    simp only [redirectedVisits, List.mem_cons, Visit.complete.injEq, reduceCtorEq, false_or,
      or_false, List.not_mem_nil] at h
    intro x _
    rcases h with ⟨-, rfl, rfl, -⟩ | ⟨-, rfl, rfl, -⟩
    · exact moved_alike x.url
    · exact bracket_alike x.url

/-- The statuses the checks have ended with. -/
def Process.statuses (p : Process) : List (Option SignatureStatus) :=
  p.checks.map fun x =>
    match x.stage with
    | .done (.ok status) => some status
    | _ => none

theorem redirectedVisits_run :
    (run (processStep (plainStdlib [] []) Provider.plain) .start
        (redirectedVisits.map (Visit.inFirst bracketLocation))).map Process.statuses =
      some [some .keyUnavailable, some .keyUnavailable] := by
  decide +kernel

theorem visits_of_run_moved :
    (run (processStep (plainStdlib [] []) Provider.plain) .start
        (redirectedVisits.map (Visit.inFirst bracketLocation))).map Process.statuses =
      some [some .keyUnavailable, some .keyUnavailable] ∧
    run (processStep (plainStdlib [] []) Provider.plain) .start
        (redirectedVisits.map (Visit.inFirst bracketLocation)) =
      run (processStep (plainStdlib [] []) Provider.plain) .start
        (redirectedVisits.map (Visit.inSecond bracketLocation)) :=
  ⟨redirectedVisits_run, visits_of_run (.of_events redirectedVisits_alike _)⟩

end Fetch

end OpenWebId
