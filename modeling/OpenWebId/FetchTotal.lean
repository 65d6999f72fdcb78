import OpenWebId.Fetch
import OpenWebId.Lib.Utf8

/-!
# A check always answers with a status, or exactly when it does not

`Escapes` is the condition on an answer that the layers above do not translate: text
nested too deep for `json.loads`, or a moment whose UTC form is out of range.
`fetch_raised_iff` says that nothing else escapes a fetch, and `Raised` follows it up
through the cache, the loop over the neighbours and the check itself. The loop is inverted
once (`LoopStep`), and the induction over it is made once for what a check keeps of the
requests made and the cache (`signatureStatus_keeps`).

`Supplied` is where a key can come from: an answer of 200 of at most
`MAXIMUM_RESPONSE_BYTES` that `validate_public_key_answer` accepts, at the end point
the key is used for. It is a special case of the cache's soundness, for the "schedule"
in which a key is in force at every minute once it was supplied.
-/

namespace OpenWebId

namespace Fetch

open Lib (Reaches)

variable {σ κ : Type}

/-- The answer makes the client raise something other than an `OwidError`: a 200 within
the size limit whose text is nested too deep, or that passes the checks of the key and
states a moment out of range. -/
def Escapes (L : Stdlib) (P : Provider σ κ) (reply : Reply) : Prop :=
  ∃ body, reply = .ok (200, body) ∧ body.length ≤ maximumResponseBytes ∧
    (L.loads (Lib.decodeUtf8 body) = .error .tooDeep ∨
      ∃ answer, L.loads (Lib.decodeUtf8 body) = .ok answer ∧
        Endpoints.AnswerOverflows L P answer)

/-- The answer is a 200 within the size limit that the checks accept, with this key. -/
def Supplies (L : Stdlib) (P : Provider σ κ) (reply : Reply) (pem : String) : Prop :=
  ∃ body answer validFrom validTo, reply = .ok (200, body) ∧
    body.length ≤ maximumResponseBytes ∧ L.loads (Lib.decodeUtf8 body) = .ok answer ∧
    Endpoints.validatePublicKeyAnswer L P answer none = .ok (pem, validFrom, validTo)

/-- The computation raised something `except OwidError` does not catch. -/
def Raised {α : Type} (result : Except PyExc α) : Prop :=
  ∃ e, result = .error e ∧ e.isOwidError = false

theorem not_raised_ok {α : Type} {a : α} : ¬ Raised (.ok a : Except PyExc α) := by
  intro h
  obtain ⟨e, he, -⟩ := h
  cases he

theorem raised_error {α : Type} {e : PyExc} :
    Raised (.error e : Except PyExc α) ↔ e.isOwidError = false := by
  refine ⟨?_, fun h => ⟨e, rfl, h⟩⟩
  intro h
  obtain ⟨e', he, hnot⟩ := h
  cases he
  exact hnot

theorem not_raised_owid {α : Type} {e : PyExc} (h : e.isOwidError = true) :
    ¬ Raised (.error e : Except PyExc α) := by
  rw [raised_error, h]
  exact Bool.noConfusion

/-! ## One fetch -/

/-- What `_read` lets through is a 200 within the size limit, decoded. -/
theorem readReply_ok {domain body : String} {reply : Reply}
    (h : readReply domain reply = .ok body) :
    ∃ bytes, reply = .ok (200, bytes) ∧ bytes.length ≤ maximumResponseBytes ∧
      body = Lib.decodeUtf8 bytes := by
  unfold readReply at h
  split at h
  · cases h
  next code bytes =>
    split at h
    next => cases h
    next hcode =>
      split at h
      next => cases h
      next hlen =>
        cases h
        exact ⟨bytes, by rw [Decidable.not_not.mp hcode], Nat.le_of_not_lt hlen, rfl⟩

theorem readReply_error {domain : String} {reply : Reply} {e : PyExc}
    (h : readReply domain reply = .error e) :
    e.isOwidError = true ∧
      ∀ body, reply = .ok (200, body) → maximumResponseBytes < body.length := by
  unfold readReply at h
  split at h
  · cases h
    refine ⟨rfl, ?_⟩
    intro body hbody
    cases hbody
  next code bytes =>
    split at h
    next hcode =>
      cases h
      refine ⟨rfl, ?_⟩
      intro body hbody
      cases hbody
      exact absurd rfl hcode
    next =>
      split at h
      next hlen =>
        cases h
        refine ⟨rfl, ?_⟩
        intro body hbody
        cases hbody
        exact hlen
      next => cases h

/-- An answer that was read supplies the key, and its minutes are the counts of the
moments it states. -/
theorem parseAnswer_ok {L : Stdlib} {P : Provider σ κ} {body domain pem : String}
    {start stop : Option Int} (h : parseAnswer L P body domain = .ok (pem, start, stop)) :
    ∃ answer validFrom validTo, L.loads body = .ok answer ∧
      Endpoints.validatePublicKeyAnswer L P answer none = .ok (pem, validFrom, validTo) ∧
      start = minutesOrNone validFrom ∧ stop = minutesOrNone validTo := by
  unfold parseAnswer at h
  split at h
  · cases h
  · cases h
  next answer hload =>
    split at h
    next failed hfailed =>
      split at h <;> cases h
    next pem' validFrom validTo hvalid =>
      cases h
      exact ⟨answer, validFrom, validTo, hload, hvalid, rfl, rfl⟩

/-- What reading an answer raises past `OwidError`. -/
theorem parseAnswer_raised_iff {L : Stdlib} {P : Provider σ κ} {body domain : String} :
    Raised (parseAnswer L P body domain) ↔
      (L.loads body = .error .tooDeep ∨
        ∃ answer, L.loads body = .ok answer ∧ Endpoints.AnswerOverflows L P answer) := by
  unfold parseAnswer
  cases hload : L.loads body with
  | error why =>
    cases why with
    | notJson =>
      refine ⟨fun h => absurd h (not_raised_owid rfl), ?_⟩
      intro h
      rcases h with h | ⟨answer, h, -⟩ <;> cases h
    | tooDeep => exact ⟨fun _ => Or.inl rfl, fun _ => raised_error.mpr rfl⟩
  | ok answer =>
    simp only
    cases hvalid : Endpoints.validatePublicKeyAnswer L P answer none with
    | ok accepted =>
      refine ⟨fun h => absurd h not_raised_ok, ?_⟩
      intro h
      rcases h with h | ⟨answer', hanswer, hover⟩
      · cases h
      · cases hanswer
        rw [Endpoints.validate_overflows hover] at hvalid
        cases hvalid
    | error failed =>
      rcases Endpoints.validate_error hvalid with ⟨howid, hnot⟩ | ⟨hoverflow, hover⟩
      · simp only [howid, if_true]
        refine ⟨fun h => absurd h (not_raised_owid rfl), ?_⟩
        intro h
        rcases h with h | ⟨answer', hanswer, hover⟩
        · cases h
        · cases hanswer
          exact absurd hover hnot
      · subst hoverflow
        exact ⟨fun _ => Or.inr ⟨answer, rfl, hover⟩, fun _ => raised_error.mpr rfl⟩

/-- **What a fetch raises.** A fetch raises past `OwidError` exactly where it asks and
the answer escapes. -/
theorem fetch_raised_iff (L : Stdlib) (P : Provider σ κ) (turn : Turn) (url domain : String) :
    Raised (fetch L P turn url domain) ↔ asks url = true ∧ Escapes L P (turn.reply url) := by
  unfold fetch read
  by_cases hasks : asks url = false
  -- nothing is asked, and the refusal is an `OwidError`
  · rw [if_pos hasks, error_bind, raised_error, hasks]
    refine ⟨?_, ?_⟩
    · intro h
      cases h
    · intro h
      cases h.1
  · rw [if_neg hasks]
    have hasked : asks url = true := Bool.not_eq_false _ ▸ hasks
    cases hread : readReply domain (turn.reply url) with
    | error e =>
      obtain ⟨howid, hlong⟩ := readReply_error hread
      rw [error_bind, raised_error, howid]
      refine ⟨?_, ?_⟩
      · intro h
        cases h
      · intro h
        obtain ⟨-, body, hbody, hlen, -⟩ := h
        exact absurd (hlong body hbody) (Nat.not_lt.mpr hlen)
    | ok body =>
      obtain ⟨bytes, hreply, hlen, hbody⟩ := readReply_ok hread
      rw [ok_bind, parseAnswer_raised_iff, hbody]
      refine ⟨fun h => ⟨hasked, bytes, hreply, hlen, h⟩, ?_⟩
      intro h
      obtain ⟨-, bytes', hreply', -, h⟩ := h
      cases hreply.symm.trans hreply'
      exact h

/-- A fetch that succeeded asked, and was supplied with its key. -/
theorem fetch_ok {L : Stdlib} {P : Provider σ κ} {turn : Turn} {url domain pem : String}
    {start stop : Option Int} (h : fetch L P turn url domain = .ok (pem, start, stop)) :
    asks url = true ∧ Supplies L P (turn.reply url) pem := by
  unfold fetch read at h
  obtain ⟨body, hread, h⟩ := bind_eq_ok.mp h
  split at hread
  · cases hread
  next hasks =>
    obtain ⟨bytes, hreply, hlen, hbody⟩ := readReply_ok hread
    obtain ⟨answer, validFrom, validTo, hload, hvalid, -, -⟩ := parseAnswer_ok h
    rw [hbody] at hload
    exact ⟨Bool.not_eq_false _ ▸ hasks, bytes, answer, validFrom, validTo, hreply, hlen, hload,
      hvalid⟩

/-! ## One key -/

/-- Everything obtaining a key can do. -/
inductive Obtained (L : Stdlib) (P : Provider σ κ) (turn : Turn) (cache : Cache)
    (url domain : String) : Outcome KeyAnswer → Prop
  /-- The cache has it. -/
  | served {answer : KeyAnswer}
      (hheld : heldFor cache turn.heldNow (endPointOf url) url = some answer) :
      Obtained L P turn cache url domain ⟨.ok answer, cache, []⟩
  /-- The fetch failed. -/
  | failed {e : PyExc} (hfetch : fetch L P turn url domain = .error e) :
      Obtained L P turn cache url domain
        ⟨.error e, cache, if asks url then [⟨url, turn.reply url⟩] else []⟩
  /-- The creator was asked, and what it said is held. -/
  | fetched {pem : String} {start stop : Option Int}
      (hfetch : fetch L P turn url domain = .ok (pem, start, stop)) :
      Obtained L P turn cache url domain
        ⟨.ok (stated pem start stop),
          (hold cache turn.holdNow turn.holdLater (endPointOf url) url pem start stop).2,
          [⟨url, turn.reply url⟩]⟩

/-- **The inversion of `_key_at_url`.** -/
theorem keyAtUrl_obtained (L : Stdlib) (P : Provider σ κ) (turn : Turn) (cache : Cache)
    (url domain : String) :
    Obtained L P turn cache url domain (keyAtUrl L P turn cache url domain) := by
  unfold keyAtUrl
  simp only
  split
  next answer hheld => exact .served hheld
  next =>
    split
    next e hfetch => exact .failed hfetch
    next pem start stop hfetch =>
      rw [if_pos (fetch_ok hfetch).1]
      exact .fetched hfetch

/-- A key is not obtained for a reason past `OwidError` exactly where the answer received
escapes. -/
theorem keyAtUrl_raised_iff (L : Stdlib) (P : Provider σ κ) (turn : Turn) (cache : Cache)
    (url domain : String) :
    Raised (keyAtUrl L P turn cache url domain).result ↔
      ∃ x ∈ (keyAtUrl L P turn cache url domain).exchanges, Escapes L P x.reply := by
  have hfetch := fetch_raised_iff L P turn url domain
  generalize hout : keyAtUrl L P turn cache url domain = out
  have hobtained := keyAtUrl_obtained L P turn cache url domain
  rw [hout] at hobtained
  cases hobtained with
  | served hheld =>
    refine ⟨fun h => absurd h not_raised_ok, ?_⟩
    intro h
    obtain ⟨x, hx, -⟩ := h
    cases hx
  | @failed e hfailed =>
    -- the one exchange there can be is the one of the fetch that failed
    rw [hfailed] at hfetch
    have herror : Raised (.error e : Except PyExc KeyAnswer) ↔
        asks url = true ∧ Escapes L P (turn.reply url) := by
      rw [← hfetch, raised_error, raised_error]
    simp only
    rw [herror]
    by_cases hasks : asks url = true
    · rw [if_pos hasks]
      simp [hasks]
    · rw [if_neg hasks]
      simp [hasks]
  | fetched hok =>
    rw [hok] at hfetch
    refine ⟨fun h => absurd h not_raised_ok, ?_⟩
    intro h
    obtain ⟨x, hx, hescapes⟩ := h
    rw [List.mem_singleton.mp hx] at hescapes
    exact absurd (hfetch.mpr ⟨(fetch_ok hok).1, hescapes⟩) not_raised_ok

/-! ## The neighbours, and the check -/

/-- Everything one turn of the loop over the neighbours can do, from what was obtained
for its minute and what the rest of the loop comes to. -/
inductive LoopStep (P : Provider σ κ) (owid : Owid) (tried : KeyAnswer)
    (asked : Outcome KeyAnswer) (rest : Outcome Bool) : Outcome Bool → Prop
  /-- Something past `OwidError` leaves the loop. -/
  | raised {e : PyExc} (hresult : asked.result = .error e) (hnot : e.isOwidError = false) :
      LoopStep P owid tried asked rest ⟨.error e, asked.cache, asked.exchanges⟩
  /-- Another key verifies. -/
  | verified {neighbour : KeyAnswer} (hresult : asked.result = .ok neighbour)
      (hpem : neighbour.pem ≠ tried.pem)
      (hvalid : owid.signatureStatus P neighbour.pem = .signatureValid) :
      LoopStep P owid tried asked rest ⟨.ok true, asked.cache, asked.exchanges⟩
  /-- There is no other key, or it does not verify, and the loop goes on. -/
  | goOn (hnot : ¬ Raised asked.result)
      (hresult : ∀ neighbour, asked.result = .ok neighbour → neighbour.pem = tried.pem ∨
        owid.signatureStatus P neighbour.pem ≠ .signatureValid) :
      LoopStep P owid tried asked rest
        ⟨rest.result, rest.cache, asked.exchanges ++ rest.exchanges⟩

/-- **The inversion of a turn of the loop.** -/
theorem tryNeighbours_cons {L : Stdlib} {P : Provider σ κ} {owid : Owid} {url : String}
    (tried : KeyAnswer) {turns : Nat → Turn} {cache : Cache} {minute : Int}
    (minutes : List Int) {asked : Outcome KeyAnswer}
    (hasked : keyAtUrl L P (turns 0) cache (dateUrl (endPointOf url) minute.toNat) owid.domain =
      asked) :
    LoopStep P owid tried asked
      (tryNeighbours L P owid url tried (fun n => turns (n + 1)) asked.cache minutes)
      (tryNeighbours L P owid url tried turns cache (minute :: minutes)) := by
  simp only [tryNeighbours, hasked]
  split
  next e hresult =>
    -- a failure that is an `OwidError` is passed over, any other goes out of the loop
    split
    next howid =>
      refine .goOn ?_ ?_
      · rw [hresult]
        exact not_raised_owid howid
      · intro neighbour hok
        rw [hresult] at hok
        cases hok
    next hnot => exact .raised hresult (Bool.not_eq_true _ ▸ hnot)
  next neighbour hresult =>
    have hnot : ¬ Raised asked.result := by
      rw [hresult]
      exact not_raised_ok
    split
    next hsame =>
      refine .goOn hnot ?_
      intro neighbour' hok
      cases hresult.symm.trans hok
      exact Or.inl hsame
    next hpem =>
      split
      next hvalid => exact .verified hresult hpem hvalid
      next hinvalid =>
        refine .goOn hnot ?_
        intro neighbour' hok
        cases hresult.symm.trans hok
        exact Or.inr hinvalid

/-! ## What a check keeps -/

section Check

variable {L : Stdlib} {P : Provider σ κ} {A : Turn → Prop} {I : List Exchange → Cache → Prop}

/-- What obtaining a key keeps, of the requests made and of the cache, the loop over the
neighbours keeps. -/
theorem tryNeighbours_keeps
    (hkey : ∀ turn log cache url domain, A turn → I log cache →
      I (log ++ (keyAtUrl L P turn cache url domain).exchanges)
        (keyAtUrl L P turn cache url domain).cache)
    {owid : Owid} {url : String} {tried : KeyAnswer} {minutes : List Int} {turns : Nat → Turn}
    (hturns : ∀ n, A (turns n)) {log : List Exchange} {cache : Cache} (h : I log cache) :
    I (log ++ (tryNeighbours L P owid url tried turns cache minutes).exchanges)
      (tryNeighbours L P owid url tried turns cache minutes).cache := by
  induction minutes generalizing turns log cache with
  | nil =>
    show I (log ++ []) cache
    rw [List.append_nil]
    exact h
  | cons minute minutes ih =>
    have hasked := hkey (turns 0) log cache (dateUrl (endPointOf url) minute.toNat) owid.domain
      (hturns 0) h
    generalize heq : keyAtUrl L P (turns 0) cache (dateUrl (endPointOf url) minute.toNat)
      owid.domain = asked at hasked
    have hstep := tryNeighbours_cons tried minutes heq
    generalize tryNeighbours L P owid url tried turns cache (minute :: minutes) = out at hstep ⊢
    cases hstep with
    | raised => exact hasked
    | verified => exact hasked
    | goOn =>
      -- the rest of the loop starts from what this turn left
      show I (log ++ (asked.exchanges ++ _)) _
      rw [← List.append_assoc]
      exact ih (fun n => hturns (n + 1)) hasked

/-- So does the check at a URL. -/
theorem signatureStatusAtUrl_keeps
    (hkey : ∀ turn log cache url domain, A turn → I log cache →
      I (log ++ (keyAtUrl L P turn cache url domain).exchanges)
        (keyAtUrl L P turn cache url domain).cache)
    {owid : Owid} {url : String} {turns : Nat → Turn} (hturns : ∀ n, A (turns n))
    {log : List Exchange} {cache : Cache} (h : I log cache) :
    I (log ++ (signatureStatusAtUrl L P turns cache owid url).exchanges)
      (signatureStatusAtUrl L P turns cache owid url).cache := by
  have hasked := hkey (turns 0) log cache url owid.domain (hturns 0) h
  unfold signatureStatusAtUrl
  simp only
  split
  next => exact hasked
  next answer hresult =>
    split
    next => exact hasked
    next =>
      split
      next => exact hasked
      next =>
        show I (log ++ (_ ++ _)) _
        rw [← List.append_assoc]
        unfold neighbourVerifies
        split
        next =>
          -- nothing is known of the edges, and no neighbour is asked for
          rw [List.append_nil]
          exact hasked
        next => exact tryNeighbours_keeps hkey (fun n => hturns (n + 1)) hasked

/-- **A check does to the requests and the cache what obtaining keys does.** -/
theorem signatureStatus_keeps
    (hkey : ∀ turn log cache url domain, A turn → I log cache →
      I (log ++ (keyAtUrl L P turn cache url domain).exchanges)
        (keyAtUrl L P turn cache url domain).cache)
    {owid : Owid} {scheme : String} {turns : Nat → Turn} (hturns : ∀ n, A (turns n))
    (log : List Exchange) {cache : Cache} (h : I log cache) :
    I (log ++ (signatureStatus L P turns cache owid scheme).exchanges)
      (signatureStatus L P turns cache owid scheme).cache := by
  unfold signatureStatus
  split
  next =>
    rw [List.append_nil]
    exact h
  next => exact signatureStatusAtUrl_keeps hkey hturns h

end Check

/-! ## What a check raises -/

/-- The loop over the neighbours lets nothing through but what escapes. -/
theorem tryNeighbours_error {L : Stdlib} {P : Provider σ κ} {owid : Owid} {url : String}
    {tried : KeyAnswer} {minutes : List Int} {turns : Nat → Turn} {cache : Cache} {e : PyExc}
    (h : (tryNeighbours L P owid url tried turns cache minutes).result = .error e) :
    e.isOwidError = false := by
  induction minutes generalizing turns cache with
  | nil => cases h
  | cons minute minutes ih =>
    generalize hasked : keyAtUrl L P (turns 0) cache (dateUrl (endPointOf url) minute.toNat)
      owid.domain = asked
    have hstep := tryNeighbours_cons tried minutes hasked
    generalize tryNeighbours L P owid url tried turns cache (minute :: minutes) = out at h hstep
    cases hstep with
    | raised hresult hnot =>
      cases h
      exact hnot
    | verified => cases h
    | goOn =>
      simp only at h
      exact ih h

/-- The loop over the neighbours raises exactly where an answer it received escapes. -/
theorem tryNeighbours_raised_iff (L : Stdlib) (P : Provider σ κ) (owid : Owid) (url : String)
    (tried : KeyAnswer) (minutes : List Int) (turns : Nat → Turn) (cache : Cache) :
    Raised (tryNeighbours L P owid url tried turns cache minutes).result ↔
      ∃ x ∈ (tryNeighbours L P owid url tried turns cache minutes).exchanges,
        Escapes L P x.reply := by
  induction minutes generalizing turns cache with
  | nil => simp [tryNeighbours, not_raised_ok]
  | cons minute minutes ih =>
    have hraised := keyAtUrl_raised_iff L P (turns 0) cache (dateUrl (endPointOf url) minute.toNat)
      owid.domain
    generalize hasked : keyAtUrl L P (turns 0) cache (dateUrl (endPointOf url) minute.toNat)
      owid.domain = asked at hraised
    have hstep := tryNeighbours_cons tried minutes hasked
    generalize tryNeighbours L P owid url tried turns cache (minute :: minutes) = out at hstep ⊢
    cases hstep with
    | raised hresult hnot =>
      rw [← hraised, hresult]
      exact ⟨fun _ => raised_error.mpr hnot, fun _ => raised_error.mpr hnot⟩
    | verified hresult =>
      rw [← hraised, hresult]
      exact ⟨fun h => absurd h not_raised_ok, fun h => absurd h not_raised_ok⟩
    | goOn hnot =>
      rw [hraised] at hnot
      simp only [List.mem_append, or_and_right, exists_or]
      rw [ih]
      exact ⟨Or.inr, fun h => h.resolve_left hnot⟩

theorem neighbourVerifies_raised_iff (L : Stdlib) (P : Provider σ κ) (turns : Nat → Turn)
    (cache : Cache) (owid : Owid) (minute : Int) (url : String) (tried : KeyAnswer) :
    (∃ e, (neighbourVerifies L P turns cache owid minute url tried).result = .error e) ↔
      ∃ x ∈ (neighbourVerifies L P turns cache owid minute url tried).exchanges,
        Escapes L P x.reply := by
  unfold neighbourVerifies
  split
  · simp
  · rw [← tryNeighbours_raised_iff]
    refine ⟨?_, ?_⟩
    · intro h
      obtain ⟨e, he⟩ := h
      exact ⟨e, he, tryNeighbours_error he⟩
    · intro h
      obtain ⟨e, he, -⟩ := h
      exact ⟨e, he⟩

theorem failedStatus_error_iff {e : PyExc} :
    (∃ e', failedStatus e = .error e') ↔ e.isOwidError = false := by
  cases e <;> simp [failedStatus, PyExc.isOwidError]

/-- **The check raises exactly where an answer it received escapes.** -/
theorem signatureStatusAtUrl_error_iff (L : Stdlib) (P : Provider σ κ) (turns : Nat → Turn)
    (cache : Cache) (owid : Owid) (url : String) :
    (∃ e, (signatureStatusAtUrl L P turns cache owid url).result = .error e) ↔
      ∃ x ∈ (signatureStatusAtUrl L P turns cache owid url).exchanges, Escapes L P x.reply := by
  have hasked := keyAtUrl_raised_iff L P (turns 0) cache url owid.domain
  unfold signatureStatusAtUrl
  generalize keyAtUrl L P (turns 0) cache url owid.domain = asked at hasked ⊢
  simp only
  split
  next e hresult =>
    simp only
    rw [← hasked, hresult, raised_error, failedStatus_error_iff]
  next answer hresult =>
    -- the key was obtained, so what escapes is an answer about a neighbour
    have hnone : ¬ ∃ x ∈ asked.exchanges, Escapes L P x.reply := by
      rw [← hasked, hresult]
      exact not_raised_ok
    split
    · simp [hnone]
    · split
      · simp [hnone]
      · have hneighbour := neighbourVerifies_raised_iff L P (fun n => turns (n + 1)) asked.cache
          owid (minutesSinceBase owid.date) url answer
        simp only [List.mem_append, or_and_right, exists_or, hnone, false_or]
        rw [← hneighbour]
        generalize (neighbourVerifies L P (fun n => turns (n + 1)) asked.cache owid
          (minutesSinceBase owid.date) url answer).result = verdict
        cases verdict <;> simp [Except.map]

/-! ## Where keys come from -/

/-- Some answer in the log, from a request to this end point, supplied the key. -/
def Supplied (L : Stdlib) (P : Provider σ κ) (log : List Exchange) (endPoint pem : String) :
    Prop :=
  ∃ x ∈ log, endPointOf x.url = endPoint ∧ Supplies L P x.reply pem

theorem Supplied.mono {L : Stdlib} {P : Provider σ κ} {log : List Exchange} {endPoint pem : String}
    (h : Supplied L P log endPoint pem) (more : List Exchange) :
    Supplied L P (log ++ more) endPoint pem := by
  obtain ⟨x, hx, hend, hsupplies⟩ := h
  exact ⟨x, List.mem_append_left _ hx, hend, hsupplies⟩

/-- Every key held was supplied. -/
def AllSupplied (L : Stdlib) (P : Provider σ κ) (log : List Exchange) (cache : Cache) : Prop :=
  Sound (fun endPoint _ pem => Supplied L P log endPoint pem) cache

theorem AllSupplied.mono {L : Stdlib} {P : Provider σ κ} {log : List Exchange} {cache : Cache}
    (h : AllSupplied L P log cache) (more : List Exchange) :
    AllSupplied L P (log ++ more) cache := by
  intro endPoint pem m hm
  exact (h endPoint pem m hm).mono more

@[simp] theorem stated_pem (pem : String) (start stop : Option Int) :
    (stated pem start stop).pem = pem := by
  unfold stated
  split
  · rfl
  · split
    · split <;> rfl
    · rfl

/-- Obtaining a key keeps every held key supplied, and the key obtained was supplied. -/
theorem keyAtUrl_supplied {L : Stdlib} {P : Provider σ κ} {turn : Turn} {cache : Cache}
    {log : List Exchange} (h : AllSupplied L P log cache) {url domain : String}
    {out : Outcome KeyAnswer} (hout : keyAtUrl L P turn cache url domain = out) :
    AllSupplied L P (log ++ out.exchanges) out.cache ∧
      ∀ answer, out.result = .ok answer →
        Supplied L P (log ++ out.exchanges) (endPointOf url) answer.pem := by
  have hobtained := keyAtUrl_obtained L P turn cache url domain
  rw [hout] at hobtained
  cases hobtained with
  | @served held hheld =>
    refine ⟨h.mono [], ?_⟩
    intro answer hanswer
    cases hanswer
    obtain ⟨minute, key, hminute, -⟩ := heldFor_known hheld
    exact (Sound.heldFor h hminute hheld).mono []
  | failed hfetch =>
    refine ⟨h.mono _, ?_⟩
    intro answer hanswer
    cases hanswer
  | @fetched pem start stop hfetch =>
    obtain ⟨hasks, hsupplies⟩ := fetch_ok hfetch
    -- the exchange just made is the one that supplied it
    have hsupplied : Supplied L P (log ++ [⟨url, turn.reply url⟩]) (endPointOf url) pem :=
      ⟨_, List.mem_append_right _ (List.mem_singleton_self _), rfl, hsupplies⟩
    refine ⟨?_, ?_⟩
    · rw [hold_eq]
      simp only
      split
      next => exact h.mono _
      next new hnew =>
        refine Sound.record ?_ (h.mono _) ?_
        · intro e p
          exact ⟨fun a ha b hb m hm => ha⟩
        · intro m hfirst hlast
          rw [confirmed_pem hnew]
          exact hsupplied
    · intro answer hanswer
      cases hanswer
      rw [stated_pem]
      exact hsupplied

/-- A check keeps every held key supplied. -/
theorem signatureStatus_supplied {L : Stdlib} {P : Provider σ κ} {turns : Nat → Turn}
    {cache : Cache} {log : List Exchange} (h : AllSupplied L P log cache) (owid : Owid)
    (scheme : String) :
    AllSupplied L P (log ++ (signatureStatus L P turns cache owid scheme).exchanges)
      (signatureStatus L P turns cache owid scheme).cache := by
  refine signatureStatus_keeps (A := fun _ => True) (I := AllSupplied L P) ?_ (fun _ => trivial)
    log h
  intro turn log cache url domain _ hlog
  exact (keyAtUrl_supplied hlog rfl).1

/-- The requests of a check begin with those of the key it selects. -/
theorem signatureStatusAtUrl_exchanges (L : Stdlib) (P : Provider σ κ) (turns : Nat → Turn)
    (cache : Cache) (owid : Owid) (url : String) :
    ∃ more, (signatureStatusAtUrl L P turns cache owid url).exchanges =
      (keyAtUrl L P (turns 0) cache url owid.domain).exchanges ++ more := by
  unfold signatureStatusAtUrl
  simp only
  split
  next => exact ⟨[], (List.append_nil _).symm⟩
  next =>
    split
    next => exact ⟨[], (List.append_nil _).symm⟩
    next =>
      split
      next => exact ⟨[], (List.append_nil _).symm⟩
      next => exact ⟨_, rfl⟩

/-- The key a check selected was supplied. -/
theorem signatureStatusAtUrl_supplied {L : Stdlib} {P : Provider σ κ} {turns : Nat → Turn}
    {cache : Cache} {log : List Exchange} (h : AllSupplied L P log cache) {owid : Owid}
    {url : String} {answer : KeyAnswer}
    (hanswer : (keyAtUrl L P (turns 0) cache url owid.domain).result = .ok answer) :
    Supplied L P (log ++ (signatureStatusAtUrl L P turns cache owid url).exchanges)
      (endPointOf url) answer.pem := by
  obtain ⟨more, hmore⟩ := signatureStatusAtUrl_exchanges L P turns cache owid url
  rw [hmore, ← List.append_assoc]
  exact ((keyAtUrl_supplied h rfl).2 answer hanswer).mono more

/-! ## Every session -/

/-- What a process has done so far: the cache, and every request it made. -/
structure Session where
  cache : Cache
  log : List Exchange

def Session.start : Session := ⟨.empty, []⟩

/-- What a process does: it checks an OWID, or clears the cache. -/
inductive SessionEvent
  | check (turns : Nat → Turn) (owid : Owid) (scheme : String)
  | clearCache

def sessionStep (L : Stdlib) (P : Provider σ κ) (s : Session) : SessionEvent → Option Session
  | .check turns owid scheme =>
    let checked := signatureStatus L P turns s.cache owid scheme
    some ⟨checked.cache, s.log ++ checked.exchanges⟩
  | .clearCache => some ⟨.empty, s.log⟩

/-- One event keeps every held key supplied. -/
theorem sessionStep_supplied {L : Stdlib} {P : Provider σ κ} {s s' : Session} {event : SessionEvent}
    (h : AllSupplied L P s.log s.cache) (hstep : sessionStep L P s event = some s') :
    AllSupplied L P s'.log s'.cache := by
  cases event with
  | clearCache =>
    cases hstep
    exact Sound.empty
  | check turns owid scheme =>
    cases hstep
    exact signatureStatus_supplied h owid scheme

/-- What a check promises: a status, and where that is that the signature does not
match, a key that an accepted answer of the end point supplied. -/
def Answers (L : Stdlib) (P : Provider σ κ) (s : Session) (turns : Nat → Turn) (owid : Owid)
    (scheme : String) : Prop :=
  let checked := signatureStatus L P turns s.cache owid scheme
  (∃ status, checked.result = .ok status) ∧
    (checked.result = .ok .signatureInvalid → ∃ url answer, publicKeyUrl owid scheme = .ok url ∧
      (keyAtUrl L P (turns 0) s.cache url owid.domain).result = .ok answer ∧
      Supplied L P (s.log ++ checked.exchanges) (endPointOf url) answer.pem)

/-- A check whose answers do not escape returns a status; one of whose answers escapes
raises. -/
theorem signatureStatus_error_iff (L : Stdlib) (P : Provider σ κ) (turns : Nat → Turn)
    (cache : Cache) (owid : Owid) (scheme : String) :
    (∃ e, (signatureStatus L P turns cache owid scheme).result = .error e) ↔
      ∃ x ∈ (signatureStatus L P turns cache owid scheme).exchanges, Escapes L P x.reply := by
  unfold signatureStatus
  split
  next e hurl =>
    rw [if_pos (publicKeyUrl_error hurl)]
    simp
  next url hurl => exact signatureStatusAtUrl_error_iff L P turns cache owid url

theorem readReply_failedStatus {domain : String} {reply : Reply} {e : PyExc}
    (h : readReply domain reply = .error e) : failedStatus e = .ok .keyUnavailable := by
  unfold readReply at h
  split at h
  next =>
    cases h
    rfl
  next =>
    split at h
    next =>
      cases h
      rfl
    next =>
      split at h
      next =>
        cases h
        rfl
      next => cases h

theorem parseAnswer_error {L : Stdlib} {P : Provider σ κ} {body domain : String} {e : PyExc}
    (h : parseAnswer L P body domain = .error e) :
    failedStatus e = .ok .invalidKey ∨ e = LoadsError.tooDeep.exc ∨ e = .overflowError := by
  unfold parseAnswer at h
  split at h
  next =>
    cases h
    exact Or.inl rfl
  next =>
    cases h
    exact Or.inr (Or.inl rfl)
  next =>
    split at h
    next failed hfailed =>
      split at h
      next =>
        cases h
        exact Or.inl rfl
      next hnot =>
        -- what the checks raise besides `OwidError` is the overflow
        cases h
        rcases Endpoints.validate_error hfailed with ⟨howid, -⟩ | ⟨hover, -⟩
        · exact absurd howid hnot
        · exact Or.inr (Or.inr hover)
    next => cases h

/-- **What a fetch fails with**: a key that is not available, an answer that is not a key,
or one of the two exceptions that are not translated. -/
theorem fetch_error {L : Stdlib} {P : Provider σ κ} {turn : Turn} {url domain : String}
    {e : PyExc} (h : fetch L P turn url domain = .error e) :
    failedStatus e = .ok .keyUnavailable ∨ failedStatus e = .ok .invalidKey ∨
      e = LoadsError.tooDeep.exc ∨ e = .overflowError := by
  unfold fetch read at h
  rcases bind_eq_error.mp h with hread | ⟨body, -, hparse⟩
  · split at hread
    next =>
      cases hread
      exact Or.inl rfl
    next => exact Or.inl (readReply_failedStatus hread)
  · exact Or.inr (parseAnswer_error hparse)

/-- No failure to obtain a key is reported as a signature that does not match. -/
theorem fetch_failedStatus {L : Stdlib} {P : Provider σ κ} {turn : Turn} {url domain : String}
    {e : PyExc} (h : fetch L P turn url domain = .error e) :
    failedStatus e ≠ .ok .signatureInvalid := by
  intro hinvalid
  rcases fetch_error h with hstatus | hstatus | rfl | rfl
  · cases hstatus.symm.trans hinvalid
  · cases hstatus.symm.trans hinvalid
  · cases hinvalid
  · cases hinvalid

/-- A signature that was found not to match was checked under the key selected. -/
theorem signatureInvalid_selected {L : Stdlib} {P : Provider σ κ} {turns : Nat → Turn}
    {cache : Cache} {owid : Owid} {url : String}
    (h : (signatureStatusAtUrl L P turns cache owid url).result = .ok .signatureInvalid) :
    ∃ answer, (keyAtUrl L P (turns 0) cache url owid.domain).result = .ok answer := by
  have hobtained := keyAtUrl_obtained L P (turns 0) cache url owid.domain
  simp only [signatureStatusAtUrl] at h
  generalize keyAtUrl L P (turns 0) cache url owid.domain = asked at h hobtained
  cases hobtained with
  | served => exact ⟨_, rfl⟩
  | fetched => exact ⟨_, rfl⟩
  | failed hfetch => exact absurd h (fetch_failedStatus hfetch)

/-- **A check always answers, exactly where none of its answers escapes.** In any session,
whatever the transport does, the check returns a status and reports a signature as not
matching only under a key that an accepted answer supplied, if and only if no answer it
received escapes. -/
theorem signatureStatus_answers_iff {L : Stdlib} {P : Provider σ κ} {s : Session}
    (hreach : Reaches (sessionStep L P) (fun _ _ => True) Session.start s) (turns : Nat → Turn)
    (owid : Owid) (scheme : String) :
    Answers L P s turns owid scheme ↔
      ∀ x ∈ (signatureStatus L P turns s.cache owid scheme).exchanges, ¬ Escapes L P x.reply := by
  have hsupplied : AllSupplied L P s.log s.cache :=
    hreach.invariant Sound.empty fun _ _ _ h _ hstep => sessionStep_supplied h hstep
  have herror := signatureStatus_error_iff L P turns s.cache owid scheme
  unfold Answers
  refine ⟨?_, ?_⟩
  · intro h x hx hescapes
    -- an answer that escapes is raised, and a check that raises returns no status
    obtain ⟨e, he⟩ := herror.mpr ⟨x, hx, hescapes⟩
    obtain ⟨status, hstatus⟩ := h.1
    rw [he] at hstatus
    cases hstatus
  · intro h
    refine ⟨?_, ?_⟩
    · cases hresult : (signatureStatus L P turns s.cache owid scheme).result with
      | ok status => exact ⟨status, rfl⟩
      | error e =>
        obtain ⟨x, hx, hescapes⟩ := herror.mp ⟨e, hresult⟩
        exact absurd hescapes (h x hx)
    · intro hinvalid
      cases hurl : publicKeyUrl owid scheme with
      | error e =>
        rw [signatureStatus, hurl] at hinvalid
        simp only [publicKeyUrl_error hurl, if_true] at hinvalid
        cases hinvalid
      | ok url =>
        simp only [signatureStatus, hurl] at hinvalid ⊢
        -- only a key that was obtained makes a signature invalid
        obtain ⟨answer, hanswer⟩ := signatureInvalid_selected hinvalid
        exact ⟨url, answer, rfl, hanswer, signatureStatusAtUrl_supplied hsupplied hanswer⟩

/-! ## What the transport answered -/

/-- The exchange is what one of the turns answered. -/
def FromTurns (turns : Nat → Turn) (x : Exchange) : Prop :=
  ∃ n, x.reply = (turns n).reply x.url

theorem keyAtUrl_fromTurns {L : Stdlib} {P : Provider σ κ} {turns : Nat → Turn} {turn : Turn}
    (hturn : ∃ n, turn = turns n) {cache : Cache} {url domain : String} :
    ∀ x ∈ (keyAtUrl L P turn cache url domain).exchanges, FromTurns turns x := by
  obtain ⟨n, rfl⟩ := hturn
  have hobtained := keyAtUrl_obtained L P (turns n) cache url domain
  generalize keyAtUrl L P (turns n) cache url domain = out at hobtained
  intro x hx
  cases hobtained with
  | served => exact absurd hx List.not_mem_nil
  | failed =>
    simp only at hx
    split at hx
    · rw [List.mem_singleton.mp hx]
      exact ⟨n, rfl⟩
    · exact absurd hx List.not_mem_nil
  | fetched =>
    rw [List.mem_singleton.mp hx]
    exact ⟨n, rfl⟩

/-- Every exchange of a check is what one of its turns answered. -/
theorem signatureStatus_fromTurns {L : Stdlib} {P : Provider σ κ} {turns : Nat → Turn}
    {cache : Cache} {owid : Owid} {scheme : String} :
    ∀ x ∈ (signatureStatus L P turns cache owid scheme).exchanges, FromTurns turns x := by
  refine signatureStatus_keeps (A := fun turn => ∃ n, turn = turns n)
    (I := fun log _ => ∀ x ∈ log, FromTurns turns x) ?_ (fun n => ⟨n, rfl⟩) []
    (fun x hx => absurd hx List.not_mem_nil)
  intro turn log cache url domain hturn hlog x hx
  rcases List.mem_append.mp hx with hold | hnew
  · exact hlog x hold
  · exact keyAtUrl_fromTurns hturn x hnew

/-! ## Answered with a key, and with nothing but brackets -/

theorem minute50_le : 50 ≤ maximumMinutes := by decide
theorem minute60_le : 60 ≤ maximumMinutes := by decide

/-- An answer that states the key's first hour, and the text of it. -/
def givenAnswer : Json :=
  .obj [("format", .str spkiFormat), ("publicKey", .str "k"),
    ("validFrom", .str "2020-01-01T00:00:00Z"), ("validTo", .str "2020-01-01T01:00:00Z")]

def givenText : String :=
  "\x7b\"format\": \"spki\", \"publicKey\": \"k\", \"validFrom\": \"2020-01-01T00:00:00Z\", " ++
    "\"validTo\": \"2020-01-01T01:00:00Z\"\x7d"

/-- Where `json.loads` stops nesting. -/
def recursionLimit : Nat := 1000

/-- A standard library that reads that text and its moments, and nests no deeper than the
limit. -/
def limitedStdlib : Stdlib where
  loads text :=
    if recursionLimit < (text.toList.takeWhile fun c => decide (c = '[')).length then
      .error .tooDeep
    else if text = givenText then .ok givenAnswer
    else .error .notJson
  dumps _ := givenText
  fromisoformat text :=
    if text = "2020-01-01T00:00:00+00:00" then some ⟨baseDate, some 0⟩
    else if text = "2020-01-01T01:00:00+00:00" then some ⟨atMinute 60 minute60_le, some 0⟩
    else none
  strftime _ := "2020-01-01T00:00:00Z"

/-- A turn at the base date whose transport gives the same reply to every URL. -/
def fixedTurn (reply : Reply) : Turn := ⟨baseDate, fun _ => reply, baseDate, baseDate⟩

/-- An OWID of the domain `a.b` and minute 50, whose signature is zeros. -/
def zeroOwid : Owid := ⟨.version3, "a.b", atMinute 50 minute50_le, [], List.replicate 64 0⟩

/-- The transport answers with the key first, and with an empty body from then on. -/
def givenTurns : Nat → Turn
  | 0 => fixedTurn (.ok (200, Lib.encodeUtf8 givenText))
  | _ => fixedTurn (.ok (200, []))

theorem givenText_accepted :
    limitedStdlib.loads givenText = .ok givenAnswer ∧
      Endpoints.validatePublicKeyAnswer limitedStdlib .plain givenAnswer none =
        .ok ("k", some baseDate, some (atMinute 60 minute60_le)) := by
  refine ⟨?_, ?_⟩
  · rfl
  · decide +kernel

theorem emptyText_refused : limitedStdlib.loads "" = .error .notJson := rfl

/-- The answer with the key does not escape, and the empty body does not. -/
theorem givenTurns_reply (n : Nat) (url : String) :
    ¬ Escapes limitedStdlib .plain ((givenTurns n).reply url) := by
  intro h
  obtain ⟨body, hbody, -, hcase⟩ := h
  cases n with
  | zero =>
    obtain ⟨hloads, hvalid⟩ := givenText_accepted
    cases hbody
    rw [Lib.decodeUtf8_encodeUtf8, hloads] at hcase
    rcases hcase with hdeep | ⟨answer, hanswer, hover⟩
    · cases hdeep
    · -- an answer the checks accept states no moment out of range
      cases hanswer
      rw [Endpoints.validate_overflows hover] at hvalid
      cases hvalid
  | succ n =>
    cases hbody
    have hempty : Lib.decodeUtf8 [] = "" := by
      rw [Lib.decodeUtf8, Lib.decodeUtf8List]
    rw [hempty, emptyText_refused] at hcase
    rcases hcase with hdeep | ⟨answer, hanswer, -⟩
    · cases hdeep
    · cases hanswer

theorem givenTurns_supplies (url : String) :
    Supplies limitedStdlib .plain ((givenTurns 0).reply url) "k" := by
  obtain ⟨hloads, hvalid⟩ := givenText_accepted
  have hsize : (Lib.encodeUtf8 givenText).length ≤ maximumResponseBytes := by decide
  refine ⟨_, _, _, _, rfl, hsize, ?_, hvalid⟩
  rw [Lib.decodeUtf8_encodeUtf8, hloads]

/-- A session of one check whose transport failed. -/
def failedSession : Session :=
  let checked := signatureStatus limitedStdlib .plain (fun _ => fixedTurn (.error .osError))
    Cache.empty zeroOwid "https"
  ⟨checked.cache, checked.exchanges⟩

/-- The status of a check that is answered with the key, near the end of the hour that the
answer states, and with no neighbour. -/
theorem zeroOwid_invalid :
    (signatureStatus limitedStdlib .plain givenTurns failedSession.cache zeroOwid "https").result =
      .ok .signatureInvalid := by
  decide +kernel

/-- The answer with the key is accepted, and the key comes with the status. -/
theorem signatureStatus_answers_iff_given :
    Reaches (sessionStep limitedStdlib .plain) (fun _ _ => True) Session.start failedSession ∧
      (signatureStatus limitedStdlib .plain givenTurns failedSession.cache zeroOwid
        "https").result = .ok .signatureInvalid ∧
      Supplies limitedStdlib .plain ((givenTurns 0).reply "") "k" ∧
      Answers limitedStdlib .plain failedSession givenTurns zeroOwid "https" := by
  have hreach : Reaches (sessionStep limitedStdlib .plain) (fun _ _ => True) Session.start
      failedSession :=
    .next (.check (fun _ => fixedTurn (.error .osError)) zeroOwid "https") .start trivial rfl
  refine ⟨hreach, zeroOwid_invalid, givenTurns_supplies "", ?_⟩
  refine (signatureStatus_answers_iff hreach givenTurns zeroOwid "https").mpr ?_
  intro x hx
  obtain ⟨n, hreply⟩ := signatureStatus_fromTurns x hx
  rw [hreply]
  exact givenTurns_reply n x.url

/-- A body of 60000 opening brackets. -/
def nestedBody : Bytes := List.replicate 60000 0x5B

theorem nestedBody_length : nestedBody.length ≤ maximumResponseBytes := by
  rw [nestedBody, List.length_replicate]
  decide

theorem nestedBody_tooDeep :
    limitedStdlib.loads (Lib.decodeUtf8 nestedBody) = .error .tooDeep := by
  have hascii : ∀ c ∈ List.replicate 60000 '[', c.toNat < 0x80 := by
    intro c hc
    rw [List.eq_of_mem_replicate hc]
    decide
  have hbytes : nestedBody =
      (List.replicate 60000 '[').map fun c => UInt8.ofNat c.toNat := by
    rw [List.map_replicate]
    rfl
  have hdeep : recursionLimit < 60000 := by decide
  rw [Lib.decodeUtf8, hbytes, Lib.decodeUtf8List_ascii hascii]
  simp only [limitedStdlib, String.toList_ofList, List.takeWhile_replicate, decide_true, if_true,
    List.length_replicate, hdeep]

/-- The request whose text `loads` raises `RecursionError` on raises it too. -/
theorem fetch_tooDeep {L : Stdlib} {P : Provider σ κ} {body : Bytes}
    (hsize : body.length ≤ maximumResponseBytes)
    (hdeep : L.loads (Lib.decodeUtf8 body) = .error .tooDeep) {url : String}
    (hasks : asks url = true) (domain : String) :
    fetch L P (fixedTurn (.ok (200, body))) url domain = .error LoadsError.tooDeep.exc := by
  have hasked : ¬ asks url = false := by rw [hasks]; decide
  have hcode : ¬ (200 : Int) ≠ 200 := by decide
  have hread : read (fixedTurn (.ok (200, body))) url domain = .ok (Lib.decodeUtf8 body) := by
    unfold read
    rw [if_neg hasked, fixedTurn, readReply, if_neg hcode, if_neg (Nat.not_lt.mpr hsize)]
  rw [fetch, hread, ok_bind, parseAnswer, hdeep]

/-- So does the check that makes it. -/
theorem signatureStatus_tooDeep {L : Stdlib} {P : Provider σ κ} {body : Bytes}
    (hsize : body.length ≤ maximumResponseBytes)
    (hdeep : L.loads (Lib.decodeUtf8 body) = .error .tooDeep) :
    (signatureStatus L P (fun _ => fixedTurn (.ok (200, body))) Cache.empty zeroOwid
      "https").result = .error LoadsError.tooDeep.exc := by
  have hurl : publicKeyUrl zeroOwid "https" =
      .ok (dateUrl (endPoint "https" "a.b" .version3) 50) := by decide +kernel
  have hasks : asks (dateUrl (endPoint "https" "a.b" .version3) 50) = true :=
    asks_dateUrl (by decide) rfl 50
  have hfetch := fetch_tooDeep (P := P) hsize hdeep hasks zeroOwid.domain
  simp only [signatureStatus, hurl, signatureStatusAtUrl, keyAtUrl, heldFor_empty, hfetch]
  rfl

/-- A 200 whose text is nested too deep leaves the check as a `RecursionError`. -/
theorem signatureStatus_nested :
    (signatureStatus limitedStdlib .plain (fun _ => fixedTurn (.ok (200, nestedBody)))
        Cache.empty zeroOwid "https").result = .error LoadsError.tooDeep.exc ∧
      ¬ ∀ (L : Stdlib) (P : Provider Bytes Bytes) (s : Session),
        Reaches (sessionStep L P) (fun _ _ => True) Session.start s →
        ∀ (turns : Nat → Turn) (owid : Owid) (scheme : String),
          Answers L P s turns owid scheme := by
  have hraised := signatureStatus_tooDeep (P := Provider.plain) nestedBody_length nestedBody_tooDeep
  refine ⟨hraised, ?_⟩
  intro h
  obtain ⟨status, hstatus⟩ := (h limitedStdlib .plain Session.start .start
    (fun _ => fixedTurn (.ok (200, nestedBody))) zeroOwid "https").1
  have hsame : (Except.error LoadsError.tooDeep.exc : Except PyExc SignatureStatus) = .ok status :=
    hraised.symm.trans hstatus
  cases hsame

end Fetch

end OpenWebId
