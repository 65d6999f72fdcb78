import OpenWebId.CacheSound

/-!
# Fetching a key and checking a signature: `public_key_fetch.py`

The path of one caller: `read` performs the request, `parseAnswer` reads the answer,
`keyAtUrl` answers from the cache or asks the creator and holds what it said, and
`signatureStatus` checks the signature under the key for the OWID's own minute and,
near an edge of the span stated for it, under the key just beyond the edge.

A `Turn` is what the outside does while one key is obtained: how the transport answers
a URL, and the four readings of the clock. Its type is the transport's contract: any
code with any body, or one of the three exceptions. Each call of `signatureStatus` takes
at most three turns. Every request made is kept in the list of `Exchange`s next to the
result, so that results can speak of the answers a call received.
-/

namespace OpenWebId

namespace Fetch

/-- What a transport raises where no response could be obtained. -/
inductive TransportError
  | osError
  | valueError
  | httpException
  deriving DecidableEq

/-- What a transport answers: a response code and a body, or an exception. -/
abbrev Reply := Except TransportError (Int × Bytes)

/-- A request that was made and how it was answered. -/
structure Exchange where
  url : String
  reply : Reply

/-- The outside while one key is obtained: the transport, the clock as `_held_for` reads
it, and the clock as `_hold` reads it, first for the recency and then for the span. -/
structure Turn where
  heldNow : DateTime
  reply : String → Reply
  holdNow : DateTime
  holdLater : DateTime

/-- `MAXIMUM_RESPONSE_BYTES`. -/
def maximumResponseBytes : Nat := 65536

variable {σ κ : Type}

/-- What `_read` makes of the transport's answer. -/
def readReply (domain : String) : Reply → Except PyExc String
  | .error _ => .error (.publicKeyFetchError
      ("the public key could not be fetched from domain " ++ quoted domain) .keyUnavailable
      domain 0)
  | .ok (code, body) =>
    if code ≠ 200 then
      .error (.publicKeyFetchError ("domain " ++ quoted domain ++ " returned code '" ++
        toString code ++ "' for the public key") .keyUnavailable domain code)
    else if body.length > maximumResponseBytes then
      .error (.publicKeyFetchError ("domain " ++ quoted domain ++
        " returned more than a key for the public key") .keyUnavailable domain code)
    else .ok (Lib.decodeUtf8 body)

/-- Whether `_read` asks for the URL at all. -/
def asks (url : String) : Bool :=
  decide (String.ofList (Lib.Url.schemeOf url.toList) ∈ acceptedSchemes)

/-- A URL on the end point of an accepted scheme and domain is asked for. -/
theorem asks_dateUrl {scheme domain : String} {version : Version}
    (hscheme : lower scheme ∈ acceptedSchemes) (hdomain : checkDomain domain = .ok ())
    (minute : Nat) : asks (dateUrl (endPoint scheme domain version) minute) = true := by
  rw [asks, schemeOf_dateUrl (ne_empty_of_accepted hscheme) (isAlpha_of_accepted hscheme) hdomain]
  exact decide_eq_true hscheme

/-- `_read`. -/
def read (turn : Turn) (url domain : String) : Except PyExc String :=
  if asks url = false then
    .error (.publicKeyFetchError ("the scheme used for domain " ++ quoted domain ++
      " does not make an HTTP request") .keyUnavailable domain 0)
  else readReply domain (turn.reply url)

/-- `_minutes_or_none`. -/
def minutesOrNone : Option DateTime → Option Int
  | none => none
  | some moment =>
    let minutes := minutesSinceBase moment
    if minutes ≥ 0 then some minutes else none

/-- `_parse_answer`. -/
def parseAnswer (L : Stdlib) (P : Provider σ κ) (body domain : String) :
    Except PyExc (String × Option Int × Option Int) :=
  match L.loads body with
  | .error .notJson => .error (.publicKeyFetchError ("domain " ++ quoted domain ++
      " did not answer with the JSON form the specification requires for the public key")
      .invalidKey domain 0)
  | .error .tooDeep => .error LoadsError.tooDeep.exc
  | .ok answer =>
    match Endpoints.validatePublicKeyAnswer L P answer none with
    | .error failed =>
      if failed.isOwidError then
        .error (.publicKeyFetchError ("domain " ++ quoted domain ++
          " answered with a public key answer that is not valid: " ++ failed.text)
          .invalidKey domain 0)
      else .error failed
    | .ok (pem, validFrom, validTo) => .ok (pem, minutesOrNone validFrom, minutesOrNone validTo)

/-- The body of `_fetch_and_hold` up to the lock: the request, and the answer read. -/
def fetch (L : Stdlib) (P : Provider σ κ) (turn : Turn) (url domain : String) :
    Except PyExc (String × Option Int × Option Int) := do
  let body ← read turn url domain
  parseAnswer L P body domain

/-- The result of a computation of the client, the cache it leaves and the requests it
made. -/
structure Outcome (α : Type) where
  result : Except PyExc α
  cache : Cache
  exchanges : List Exchange

/-- `_key_at_url` of a caller with no other request for the URL in flight. -/
def keyAtUrl (L : Stdlib) (P : Provider σ κ) (turn : Turn) (cache : Cache)
    (url domain : String) : Outcome KeyAnswer :=
  let endPoint := endPointOf url
  match heldFor cache turn.heldNow endPoint url with
  | some held => ⟨.ok held, cache, []⟩
  | none =>
    let exchanges := if asks url then [⟨url, turn.reply url⟩] else []
    match fetch L P turn url domain with
    | .error e => ⟨.error e, cache, exchanges⟩
    | .ok (pem, start, stop) =>
      let (answer, cache) := hold cache turn.holdNow turn.holdLater endPoint url pem start stop
      ⟨.ok answer, cache, exchanges⟩

/-- `_near_edge`. -/
def nearEdge (minute edge : Int) : Bool :=
  decide ((minute - edge).natAbs ≤ clockDriftAllowanceMinutes)

/-- The minutes just beyond the edges of the span tried that the OWID's minute is
near. -/
def beyond (minute : Int) (tried : KeyAnswer) : List Int :=
  (if tried.first > 0 ∧ nearEdge minute tried.first then [tried.first - 1] else []) ++
    (if tried.last < lastMinute ∧ nearEdge minute tried.last then [tried.last + 1] else [])

/-- The loop of `_neighbour_verifies`, over the minutes still to ask about. The turns are
the ones the loop has left. -/
def tryNeighbours (L : Stdlib) (P : Provider σ κ) (owid : Owid) (url : String)
    (tried : KeyAnswer) : (turns : Nat → Turn) → Cache → List Int → Outcome Bool
  | _, cache, [] => ⟨.ok false, cache, []⟩
  | turns, cache, minute :: minutes =>
    let asked := keyAtUrl L P (turns 0) cache (dateUrl (endPointOf url) minute.toNat) owid.domain
    let goOn : Outcome Bool :=
      let rest := tryNeighbours L P owid url tried (fun n => turns (n + 1)) asked.cache minutes
      ⟨rest.result, rest.cache, asked.exchanges ++ rest.exchanges⟩
    match asked.result with
    | .error e => if e.isOwidError then goOn else ⟨.error e, asked.cache, asked.exchanges⟩
    | .ok neighbour =>
      if neighbour.pem = tried.pem then goOn
      else if owid.signatureStatus P neighbour.pem = .signatureValid then
        ⟨.ok true, asked.cache, asked.exchanges⟩
      else goOn

/-- `_neighbour_verifies`. -/
def neighbourVerifies (L : Stdlib) (P : Provider σ κ) (turns : Nat → Turn) (cache : Cache)
    (owid : Owid) (minute : Int) (url : String) (tried : KeyAnswer) : Outcome Bool :=
  if tried.known = false then ⟨.ok false, cache, []⟩
  else tryNeighbours L P owid url tried turns cache (beyond minute tried)

/-- The status `_signature_status_at_url` reports where no key was obtained. -/
def failedStatus : PyExc → Except PyExc SignatureStatus
  | .publicKeyFetchError _ status _ _ => .ok status
  | .owidError _ => .ok .keyUnavailable
  | e => .error e

/-- `_signature_status_at_url`. -/
def signatureStatusAtUrl (L : Stdlib) (P : Provider σ κ) (turns : Nat → Turn) (cache : Cache)
    (owid : Owid) (url : String) : Outcome SignatureStatus :=
  let asked := keyAtUrl L P (turns 0) cache url owid.domain
  match asked.result with
  | .error e => ⟨failedStatus e, asked.cache, asked.exchanges⟩
  | .ok answer =>
    let status := owid.signatureStatus P answer.pem
    if status ≠ .signatureInvalid then ⟨.ok status, asked.cache, asked.exchanges⟩
    else
      let minute := minutesSinceBase owid.date
      if minute < 0 then ⟨.ok status, asked.cache, asked.exchanges⟩
      else
        let tried := neighbourVerifies L P (fun n => turns (n + 1)) asked.cache owid minute url
          answer
        let result := tried.result.map fun verified =>
          if verified then .signatureValid
          else if answer.known = true ∧ answer.covers minute = false then .keyUnavailable
          else status
        ⟨result, tried.cache, asked.exchanges ++ tried.exchanges⟩

/-- `signature_status`. -/
def signatureStatus (L : Stdlib) (P : Provider σ κ) (turns : Nat → Turn) (cache : Cache)
    (owid : Owid) (scheme : String) : Outcome SignatureStatus :=
  match publicKeyUrl owid scheme with
  | .error e => ⟨if e.isOwidError then .ok .keyUnavailable else .error e, cache, []⟩
  | .ok url => signatureStatusAtUrl L P turns cache owid url

end Fetch

end OpenWebId
