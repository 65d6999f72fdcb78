import OpenWebId.Genuine

/-!
# A creator with one key and no schedule

`public_key_response` is the end point of a creator that never rotates. It states the key and
nothing of when it was in force, so a client that is told of it knows no span: the key is held
for the minutes asked about alone (`Single`), no neighbour of it is ever asked for, and every
check at the end point comes to the status of the signature under that key (`SingleJudged`).
What the creator signed with the key is therefore valid in every run.
-/

namespace OpenWebId

open Lib (Reaches)

variable {σ κ : Type}

namespace Endpoints

/-- `public_key_response`. -/
def publicKeyResponse (L : Stdlib) (P : KeyProvider σ κ) (creator : Creator σ κ)
    (format : Option String) : Except PyExc String := do
  checkFormat format
  let pem ← creator.crypto.subjectPublicKeyInfo P
  publicKeyAnswer L P.toProvider pem none none none

/-- The answer that states a key and no moment is accepted wherever the key is. -/
theorem validate_undated {L : Stdlib} {P : Provider σ κ} {pem : String}
    (hread : ∃ crypto, Crypto.newVerifyOnly P pem = .ok crypto) :
    validatePublicKeyAnswer L P (.obj (answerFields L pem none none)) none =
      .ok (pem, none, none) := by
  simp only [validatePublicKeyAnswer, Fetch.checkKey_answerFields L hread none none, ok_bind]
  rfl

end Endpoints

namespace Fetch

/-- The answer for a key with no schedule. -/
def undatedAnswer (L : Stdlib) (pem : String) : Json :=
  .obj (Endpoints.answerFields L pem none none)

/-- A creator's reply to a URL with `public_key_response`: 400 where it refuses the format, as
its docstring says, and a server error where it cannot answer. -/
def serveUndated (L : Stdlib) (P : KeyProvider σ κ) (creator : Creator σ κ) (url : String) :
    Reply :=
  let format := (Lib.Url.parseQsl (Lib.Url.queryOf url.toList)).lookup "format"
  match Endpoints.publicKeyResponse L P creator format with
  | .ok body => .ok (200, Lib.encodeUtf8 body)
  | .error _ => if (Endpoints.checkFormat format).isOk then .ok (500, []) else .ok (400, [])

/-- A creator that serves one key, whose answer a client accepts. -/
structure Undated (L : Stdlib) (P : KeyProvider σ κ) where
  creator : Creator σ κ
  pem : String
  /-- It exports its public key. -/
  exported : creator.crypto.subjectPublicKeyInfo P = .ok pem
  /-- The key can be read. -/
  readable : ∃ crypto, Crypto.newVerifyOnly P.toProvider pem = .ok crypto
  /-- `json.loads` reads back what `json.dumps` wrote of the answer. -/
  answerRead : L.loads (L.dumps (undatedAnswer L pem)) = .ok (undatedAnswer L pem)
  /-- The body is no longer than a client accepts. -/
  fits : (Lib.encodeUtf8 (L.dumps (undatedAnswer L pem))).length ≤ maximumResponseBytes

section Creator

variable {L : Stdlib} {P : KeyProvider σ κ} (u : Undated L P)

/-- A request in the one format is answered with the key. -/
theorem Undated.serve {url : String}
    (hformat : Endpoints.checkFormat
      ((Lib.Url.parseQsl (Lib.Url.queryOf url.toList)).lookup "format") = .ok ()) :
    serveUndated L P u.creator url =
      .ok (200, Lib.encodeUtf8 (L.dumps (undatedAnswer L u.pem))) := by
  have hvalid := Endpoints.validate_undated (L := L) u.readable
  simp only [serveUndated, Endpoints.publicKeyResponse, hformat, u.exported, ok_bind,
    Endpoints.publicKeyAnswer, hvalid]
  rfl

/-- Whatever is asked, a 200 carries the one answer. -/
theorem Undated.serve_ok {url : String} {body : Bytes}
    (h : serveUndated L P u.creator url = .ok (200, body)) :
    body = Lib.encodeUtf8 (L.dumps (undatedAnswer L u.pem)) := by
  cases hformat : Endpoints.checkFormat
    ((Lib.Url.parseQsl (Lib.Url.queryOf url.toList)).lookup "format") with
  | ok _ =>
    rw [u.serve hformat] at h
    cases h
    rfl
  | error e =>
    simp only [serveUndated, Endpoints.publicKeyResponse, hformat, error_bind, Except.isOk,
      Except.toBool] at h
    cases h

/-- What a client makes of the answer: the key, with no moment. -/
theorem Undated.fetch {turn : Turn} {url : String} (hasks : asks url = true)
    (hreply : turn.reply url = .ok (200, Lib.encodeUtf8 (L.dumps (undatedAnswer L u.pem))))
    (domain : String) :
    fetch L P.toProvider turn url domain = .ok (u.pem, none, none) :=
  fetch_answer hasks hreply u.fits u.answerRead (Endpoints.validate_undated u.readable) domain

/-- The URL of a minute asks for the one format. -/
theorem checkFormat_dateUrl {base : String} (hbase : Clean base) (minute : Nat) :
    Endpoints.checkFormat
      ((Lib.Url.parseQsl (Lib.Url.queryOf (dateUrl base minute).toList)).lookup "format") =
        .ok () := by
  rw [queryOf_dateUrl hbase, parseQsl_dateQuery]
  rfl

end Creator

/-! ## What a client holds and is told -/

/-- A held key for which nothing was stated. -/
structure HeldKey.Unstated (key : HeldKey) (pem : String) : Prop where
  pem : key.pem = pem
  explicit : key.explicit = false
  openEnded : key.openEnded = false

/-- A key that is held with nothing stated is served with no span. -/
theorem HeldKey.Unstated.statedFor {key : HeldKey} {pem : String} (h : key.Unstated pem) :
    statedFor key = stated pem none none := by
  unfold Fetch.statedFor
  rw [h.explicit, h.openEnded, h.pem]
  rfl

/-- An answer that states no moment confirms a key with nothing stated. -/
theorem confirmed_unstated {now later : DateTime} {url pem : String} {new : HeldKey}
    (h : confirmed now later url pem none none = some new) : new.Unstated pem := by
  simp only [confirmed] at h
  split at h
  next =>
    cases h
    exact ⟨rfl, rfl, rfl⟩
  next => cases h

section Client

variable {L : Stdlib} {P : KeyProvider σ κ} {und : String → Option (Undated L P)} {outage : Prop}

/-- All that is held for the end points with one key is that key, with nothing stated. -/
def Single (und : String → Option (Undated L P)) (cache : Cache) : Prop :=
  ∀ endPoint u, und endPoint = some u → ∀ key ∈ cache.keysOf endPoint, key.Unstated u.pem

theorem Single.empty : Single und Cache.empty := by
  intro endPoint u _ key hkey
  rw [Cache.keysOf_empty] at hkey
  exact absurd hkey List.not_mem_nil

/-- Recording a key with nothing stated keeps the cache so. -/
theorem Single.record {cache : Cache} (h : Single und cache) {endPoint : String} {new : HeldKey}
    (hnew : ∀ u, und endPoint = some u → new.Unstated u.pem) :
    Single und (record cache endPoint new) := by
  intro other u hu key hkey
  rcases mem_keysOf_recorded (record_recorded cache endPoint new) hkey with
    hold | ⟨rfl, rfl | ⟨old, hold, -, others, wider, hwiden, rfl⟩⟩
  · exact h other u hu key hold
  · exact hnew u hu
  · -- neither what was held nor what is added states a span
    obtain ⟨hpem, -, -, hexplicit, hopen, -⟩ := widen_some hwiden
    have hbefore := h other u hu old hold
    have hadded := hnew u hu
    refine ⟨hpem.trans hbefore.pem, ?_, ?_⟩
    · simp only [HeldKey.restate, hexplicit, hbefore.explicit, hadded.explicit, Bool.or_false]
    · simp only [HeldKey.restate, hopen, hbefore.openEnded, hadded.openEnded, Bool.or_false,
        Bool.and_false]

/-- The end points with one key answer with it, or are out. -/
def AnsweringUndated (L : Stdlib) (P : KeyProvider σ κ) (und : String → Option (Undated L P)) :
    (outage : Prop) → Process → ProcessEvent → Prop :=
  ProcessResponds und fun _ _ turn x u => turn.reply x.url = serveUndated L P u.creator x.url

/-- A key that was fetched from an end point with one key is that key. -/
theorem AnsweringUndated.fetched {p : Process} {f : Nat} {turn : Turn}
    (hok : AnsweringUndated L P und outage p (.world (.complete f turn))) {x : Fetching}
    (hx : p.world.fetches[f]? = some x) {u : Undated L P} (hu : und (endPointOf x.url) = some u)
    {pem : String} {start stop : Option Int}
    (hfetch : fetch L P.toProvider turn x.url x.domain = .ok (pem, start, stop)) :
    pem = u.pem ∧ start = none ∧ stop = none := by
  obtain ⟨hasks, body, -, -, -, hbody, -⟩ := fetch_ok hfetch
  rcases hok x hx u hu with hreply | ⟨-, hout⟩
  · rw [u.serve_ok (hreply.symm.trans hbody)] at hbody
    cases (u.fetch hasks hbody x.domain).symm.trans hfetch
    exact ⟨rfl, rfl, rfl⟩
  · exact absurd hbody (hout body)

/-- Holding an answer keeps the cache so. -/
theorem Single.hold {p : Process} (h : Single und p.world.cache) {f : Nat} {turn : Turn}
    (hok : AnsweringUndated L P und outage p (.world (.complete f turn))) {x : Fetching}
    (hx : p.world.fetches[f]? = some x) {pem : String} {start stop : Option Int}
    (hfetch : Fetch.fetch L P.toProvider turn x.url x.domain = .ok (pem, start, stop)) :
    Single und (Fetch.hold p.world.cache turn.holdNow turn.holdLater (endPointOf x.url) x.url pem
      start stop).2 := by
  rw [hold_eq]
  simp only
  split
  next => exact h
  next new hnew =>
    refine h.record fun u hu => ?_
    obtain ⟨rfl, rfl, rfl⟩ := hok.fetched hx hu hfetch
    exact confirmed_unstated hnew

/-- What a check is told of a URL of an end point with one key. -/
inductive ToldSingle (u : Undated L P) (outage : Prop) : Except PyExc KeyAnswer → Prop
  | key : ToldSingle u outage (.ok (stated u.pem none none))
  | lost {e : PyExc} (houtage : outage) (hstatus : failedStatus e = .ok .keyUnavailable) :
      ToldSingle u outage (.error e)
  | cancelled : ToldSingle u outage (.error .cancelledError)

/-- The URL asks for the key in the one format. -/
def AsksKey (url : String) : Prop :=
  asks url = true ∧ Endpoints.checkFormat
    ((Lib.Url.parseQsl (Lib.Url.queryOf url.toList)).lookup "format") = .ok ()

/-- What a check is told of a URL, where the end point is one with one key. -/
def TellsSingle (und : String → Option (Undated L P)) (outage : Prop) (_ : Owid) (url : String)
    (result : Except PyExc KeyAnswer) : Prop :=
  AsksKey url → ∀ u, und (endPointOf url) = some u → ToldSingle u outage result

/-- Every step tells the checks the one key. -/
theorem AnsweringUndated.tells {p : Process} {event : ProcessEvent}
    (hcache : Single und p.world.cache) (hok : AnsweringUndated L P und outage p event) :
    Tells L P.toProvider (TellsSingle und outage) p event where
  held owid now url answer hheld _ u hu := by
    obtain ⟨minute, key, -, hkey, -, -, rfl, -⟩ := heldFor_known hheld
    rw [(hcache _ u hu key hkey).statedFor]
    exact .key
  completed f turn hevent y hy x hx hawaits hurl u hu := by
    subst hevent
    obtain ⟨hasks, hformat⟩ := hurl
    rcases hok y hy u hu with hreply | ⟨houtage, hout⟩
    · have hfetch := u.fetch hasks (hreply.trans (u.serve hformat)) y.domain
      simp only [Fetching.completion, hfetch]
      exact .key
    · obtain ⟨e, hfetch, hstatus, -⟩ := fetch_unanswered L P.toProvider y.domain hasks hout
      simp only [Fetching.completion, hfetch]
      exact .lost houtage hstatus
  cancelled owid url _ u _ := .cancelled

/-- Where a check of an OWID at an end point with one key can stand. It asks for no second
key. -/
inductive SingleJudged (P : Provider σ κ) (pem : String) (outage : Prop) (owid : Owid) :
    Stage → Prop
  | own : SingleJudged P pem outage owid .own
  | status : SingleJudged P pem outage owid (.done (.ok (owid.signatureStatus P pem)))
  | lost (houtage : outage) : SingleJudged P pem outage owid (.done (.ok .keyUnavailable))
  | cancelled : SingleJudged P pem outage owid (.done (.error .cancelledError))

/-- What a check does with what it is told of the one key. -/
theorem ToldSingle.afterOwn {u : Undated L P} {owid : Owid} {result : Except PyExc KeyAnswer}
    (h : ToldSingle u outage result) :
    SingleJudged P.toProvider u.pem outage owid (afterOwn P.toProvider owid result).stage := by
  cases h with
  | lost houtage hstatus =>
    simp only [Fetch.afterOwn, hstatus]
    exact .lost houtage
  | cancelled => exact .cancelled
  | key =>
    have hknown : (stated u.pem none none).known = false := rfl
    unfold Fetch.afterOwn
    simp only [stated_pem]
    split
    next => exact .status
    next hinvalid =>
      split
      next => exact .status
      next => exact .status

/-- A check stays where it can stand. -/
theorem follows_single : Follows P.toProvider (TellsSingle und outage) fun owid url stage =>
    AsksKey url → ∀ u, und (endPointOf url) = some u →
      SingleJudged P.toProvider u.pem outage owid stage where
  own owid url _ u _ := .own
  after x url result goes hok hawaited htold hafter hasks u hu := by
    have hjudged := hok hasks u hu
    unfold Check.after at hafter
    unfold Check.awaited at hawaited
    generalize hstage : x.stage = stage at hjudged hafter hawaited
    cases hjudged with
    | own =>
      cases hafter
      cases hawaited
      exact (htold hasks u hu).afterOwn
    | status | lost | cancelled => cases hafter

/-! ## What the checks come to -/

/-- **Checks at an end point with one key.** In any interleaving of callers, checks, requests,
cancellations, shutdowns and clearings, among end points that answer anything at all, a check
at an end point whose creator serves one key asks for no second key, and ends with the status
of the signature under that key, with the key kept away by an outage, or cancelled. -/
theorem undated_of_reaches {p : Process}
    (hreach : Reaches (processStep L P.toProvider) (AnsweringUndated L P und outage) .start p)
    {c : Check} (hc : c ∈ p.checks) {scheme : String} (hscheme : lower scheme ∈ acceptedSchemes)
    (hurl : publicKeyUrl c.owid scheme = .ok c.url) (hdate : 0 ≤ minutesSinceBase c.owid.date)
    {u : Undated L P} (hu : und (endPointOf c.url) = some u) :
    SingleJudged P.toProvider u.pem outage c.owid c.stage := by
  have hheeds : Heeds (Single und) (TellsSingle und outage) (fun owid url stage =>
      AsksKey url → ∀ u, und (endPointOf url) = some u →
        SingleJudged P.toProvider u.pem outage owid stage) p :=
    heeds_of_reaches follows_single Single.empty
      (fun q f turn x pem start stop hcache hok hx hfetch => hcache.hold hok hx hfetch)
      (fun q event hcache hok => hok.tells hcache) hreach
  obtain ⟨hc_url, hdomain, -⟩ := publicKeyUrl_ok hurl hdate
  have hclean : Clean (endPoint scheme c.owid.domain c.owid.version) :=
    endPoint_clean (isAlpha_of_accepted hscheme) hdomain
  have hasks : AsksKey c.url := by
    rw [hc_url]
    exact ⟨asks_dateUrl hscheme hdomain _, checkFormat_dateUrl hclean _⟩
  exact hheeds.follow c hc hasks u hu

end Client

/-- `json` with the answer for the one key of `KeyProvider.plain`. -/
def undatedStdlib : Stdlib :=
  plainStdlib [] [.obj [("format", .str spkiFormat), ("publicKey", .str "key"),
    ("validFrom", .null), ("validTo", .null)]]

theorem plainUndated_notBlank : Lib.strip "a.b" ≠ "" := by decide

theorem plainUndated_short : (Lib.encodeUtf8 "a.b").length ≤ maximumDomainLength := by decide

/-- The creator on `a.b` with that key. -/
def plainUndated : Undated undatedStdlib .plain where
  creator := ⟨"a.b", Crypto.new .plain 0, plainUndated_notBlank, plainUndated_short, rfl⟩
  pem := "key"
  exported := by
    show decodePem (Lib.encodeUtf8 "key") = .ok "key"
    exact decodePem_eq rfl
  readable := ⟨_, Provider.plain_newVerifyOnly (by decide)⟩
  answerRead := by simp [undatedStdlib, plainStdlib, undatedAnswer, Endpoints.answerFields,
    Endpoints.momentText]
  fits := by decide

/-- It is the creator at every end point. -/
def undatedEverywhere (_ : String) : Option (Undated undatedStdlib .plain) := some plainUndated

/-- What it answers. -/
def undatedTurn : Turn :=
  ⟨zeroEnvelope.date, serveUndated undatedStdlib .plain plainUndated.creator, zeroEnvelope.date,
    zeroEnvelope.date⟩

theorem Undisturbed.answeringUndated {p : Process} {event : ProcessEvent}
    (h : Undisturbed (fun turn => turn = undatedTurn) p event) :
    AnsweringUndated undatedStdlib .plain undatedEverywhere False p event := by
  cases event with
  | check | resume => trivial
  | world event =>
    cases event with
    | complete f turn =>
      intro x hx u hu
      cases hu
      rcases h with hclear | ⟨turn', rfl, hserves⟩
      · cases hclear
      · have hturn : turn = undatedTurn := hserves
        rw [hturn]
        exact Or.inl rfl
    | _ => trivial

/-- A check on its own of an OWID at that creator. -/
theorem undated_check (owid : Owid) (url : String) :
    ∃ w k result, Reaches (processStep undatedStdlib KeyProvider.plain.toProvider)
      (AnsweringUndated undatedStdlib .plain undatedEverywhere False) .start
      ⟨w, [⟨owid, url, 0, k, .done result⟩]⟩ := by
  obtain ⟨w, k, hreach, -⟩ := Quiet.start.check (p := .start) undatedStdlib .plain 0 owid url
    (fun _ => undatedTurn)
  exact ⟨w, k, _, hreach.mono fun _ _ hok =>
    (hok.undisturbed (A := fun turn => turn = undatedTurn) fun _ => rfl).answeringUndated⟩

theorem undated_of_reaches_key :
    ∃ (p : Process) (c : Check) (result : Except PyExc SignatureStatus),
      Reaches (processStep undatedStdlib KeyProvider.plain.toProvider)
        (AnsweringUndated undatedStdlib .plain undatedEverywhere False) .start p ∧
      c ∈ p.checks ∧ c.owid = zeroEnvelope.owid ∧ c.stage = .done result ∧
      SingleJudged .plain "key" False zeroEnvelope.owid (.done result) := by
  obtain ⟨w, k, result, hreach⟩ := undated_check zeroEnvelope.owid zeroUrl
  have hcount : minutesSinceBase zeroEnvelope.owid.date = (10 : Nat) :=
    minutesSinceBase_of_whole rfl
  have hdate : 0 ≤ minutesSinceBase zeroEnvelope.owid.date := by
    rw [hcount]
    exact Int.natCast_nonneg 10
  have hmem := List.mem_singleton_self
    (⟨zeroEnvelope.owid, zeroUrl, 0, k, .done result⟩ : Check)
  have hjudged := undated_of_reaches hreach hmem https_accepted zeroUrl_eq hdate
    (u := plainUndated) rfl
  exact ⟨_, _, result, hreach, hmem, rfl, rfl, hjudged⟩

section Generated

variable {L : Stdlib} {P : KeyProvider σ κ} {und : String → Option (Undated L P)} {outage : Prop}

/-- **A generated key pair, served without a schedule.** Whoever creates OWIDs with the pair
that the creator at their end point serves the public key of, a check of what was read of one
of them comes to `SIGNATURE_VALID` in every run, unless the end point is out or the check is
cancelled. -/
theorem generated_of_reaches (hP : P.Lawful) {p : Process}
    (hreach : Reaches (processStep L P.toProvider) (AnsweringUndated L P und outage) .start p)
    {c : Check} (hc : c ∈ p.checks) {result : Except PyExc SignatureStatus}
    (hdone : c.stage = .done result) {scheme : String} (hscheme : lower scheme ∈ acceptedSchemes)
    (hurl : publicKeyUrl c.owid scheme = .ok c.url) {u : Undated L P}
    (hu : und (endPointOf c.url) = some u) {seed : Nat}
    (hserved : u.creator.crypto = Crypto.new P seed) {creator : Creator σ κ}
    (hsigner : creator.crypto = Crypto.new P seed) {value : Bytes} {now : DateTime} {entropy : Nat}
    {o : Owid} (hcreate : creator.create P.toProvider value now entropy = .ok o)
    (hread : ReadFrom o c.owid) :
    result = .ok .signatureValid ∨ (outage ∧ result = .ok .keyUnavailable) ∨
      result = .error .cancelledError := by
  obtain ⟨hsame, hparsed, hverify⟩ :=
    hread.created hP.toLawful hsigner hcreate (checkDomain_of_publicKeyUrl hurl)
  -- what the creator serves is the export of the pair
  obtain ⟨pem, hpem, hverifier⟩ := Crypto.publicKeyPem_new hP seed
  have hexported := u.exported
  rw [hserved] at hexported
  obtain rfl : pem = u.pem := Except.ok.inj (hpem.symm.trans hexported)
  have hvalid : c.owid.signatureStatus P.toProvider u.pem = .signatureValid := by
    rw [hsame]
    exact (Owid.signatureValid_of_pem hverifier (by rw [hsigner]; rfl)
      (Creator.create_signature hcreate) hverify).2
  obtain ⟨minute, -, hmicros⟩ := hparsed.date
  have hdate : 0 ≤ minutesSinceBase c.owid.date := by
    rw [minutesSinceBase_of_whole hmicros]
    exact Int.natCast_nonneg minute
  have hjudged := undated_of_reaches hreach hc hscheme hurl hdate hu
  rw [hdone] at hjudged
  cases hjudged with
  | status => exact Or.inl (by rw [hvalid])
  | lost houtage => exact Or.inr (Or.inl ⟨houtage, rfl⟩)
  | cancelled => exact Or.inr (Or.inr rfl)

end Generated

theorem generated_of_reaches_key :
    ∃ (o : Owid) (p : Process) (c : Check),
      plainUndated.creator.create .plain [1] baseDate 0 = .ok o ∧
      Reaches (processStep undatedStdlib KeyProvider.plain.toProvider)
        (AnsweringUndated undatedStdlib .plain undatedEverywhere False) .start p ∧
      c ∈ p.checks ∧ c.owid = o ∧
      (c.stage = .done (.ok .signatureValid) ∨ c.stage = .done (.error .cancelledError)) := by
  have h0 : 0 ∉ Lib.encodeUtf8 plainUndated.creator.domain := by
    show 0 ∉ Lib.encodeUtf8 "a.b"
    decide
  have hvalue : ([1] : Bytes).length < 2 ^ 32 := by decide
  obtain ⟨o, ho⟩ := Creator.create_total Provider.plain_lawful rfl h0 hvalue (Int.le_refl _) 0
  obtain ⟨e, hbytes, -, hback, -⟩ := Creator.create_envelope Provider.plain_lawful rfl
    (Creator.payload_lt ho) (Int.le_refl _) ho
  obtain rfl : e.owid = o := hback.mpr (Lib.decodeAscii_encodeUtf8 (by decide : Lib.IsAscii "a.b"))
  obtain ⟨text, htext, hparse⟩ := parse_asBase64 hbytes
  have hread : ReadFrom e.owid e.owid := ⟨text, _, htext, hparse, rfl⟩
  obtain ⟨-, hdomain, hdate, -⟩ := Creator.create_ok ho
  have hcheck : checkDomain e.owid.domain = .ok () := by
    rw [hdomain]
    rfl
  have hcount : minutesSinceBase e.owid.date = (0 : Nat) := by
    rw [hdate]
    rfl
  have hscheme : lower "https" ∈ acceptedSchemes := by decide
  have hurl := publicKeyUrl_accepted hscheme hcheck hcount
  obtain ⟨w, k, result, hreach⟩ := undated_check e.owid
    (dateUrl (endPoint "https" e.owid.domain e.owid.version) 0)
  have hresult := generated_of_reaches KeyProvider.plain_lawful hreach
    (List.mem_singleton_self _) rfl hscheme hurl (u := plainUndated) rfl rfl rfl ho hread
  refine ⟨e.owid, _, _, ho, hreach, List.mem_singleton_self _, rfl, ?_⟩
  rcases hresult with hvalid | ⟨hout, -⟩ | hcancelled
  · exact Or.inl (by rw [hvalid])
  · exact hout.elim
  · exact Or.inr (by rw [hcancelled])

end Fetch

end OpenWebId
