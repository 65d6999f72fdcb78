import OpenWebId.ServeTotal

/-!
# What the end point answers

The key that `public_key_response_at` answers with, and the dates it refuses, over the keys
of a schedule as they were supplied. `StatesKey` is what a body of 200 must say: the key
supplied first among those with the latest start that has come, that start, and the least
later one, to the second and by the moments. `Spoken.answerAt_serves_iff` is that this is said,
and that a moment has no key exactly when every start is after it, where the key that is chosen
and its next start are those of the moments (`Right`), as they are where the comparisons say what
the moments do (`right_of_agree`).

A date is a count of minutes, `IsCount`, when its text is decimal digits and the value
fits four bytes. The end point tells the two apart by the digits alone and converts before
it looks at the value, and the conversion refuses a text of more digits than
`sys.get_int_max_str_digits()` with a `ValueError` that nothing catches.
-/

namespace OpenWebId

variable {σ κ ζ : Type}

namespace Fetch

/-! ## The dates -/

/-- The count nought, in the given number of digits. -/
def zeros (n : Nat) : String := String.ofList (List.replicate n '0')

theorem ofDigitChars_zeros (n : Nat) : Nat.ofDigitChars 10 (List.replicate n '0') 0 = 0 := by
  induction n with
  | zero => rfl
  | succ n ih =>
    rw [List.replicate_succ, Nat.ofDigitChars_cons]
    exact ih

theorem zeros_toList (n : Nat) : (zeros n).toList = List.replicate n '0' :=
  String.toList_ofList

theorem zeros_isDigit (n : Nat) : (zeros n).toList.all Char.isDigit = true := by
  rw [zeros_toList]
  apply List.all_eq_true.mpr
  intro c hc
  rw [List.eq_of_mem_replicate hc]
  rfl

theorem zeros_ne {n : Nat} (h : 0 < n) : zeros n ≠ "" := by
  intro hempty
  have hlen := congrArg (fun s => s.toList.length) hempty
  simp only [zeros_toList, List.length_replicate, String.toList_empty, List.length_nil] at hlen
  omega

theorem counts_zeros {n : Nat} (h : 0 < n) : Counts (.text (zeros n)) (some 0) := by
  have hvalue : Nat.ofDigitChars 10 (zeros n).toList 0 = 0 := by
    rw [zeros_toList]
    exact ofDigitChars_zeros n
  have hcounts : Counts (.text (zeros n)) (some (Nat.ofDigitChars 10 (zeros n).toList 0)) := by
    refine .text (zeros_ne h) (zeros_isDigit n) ?_
    rw [hvalue]
    exact Nat.zero_le _
  rw [hvalue] at hcounts
  exact hcounts

theorem not_short_zeros {n : Nat} (h : Lib.intMaxStrDigits < n) : ¬ Short (.text (zeros n)) := by
  intro hshort
  have hlen : (zeros n).toList.length ≤ Lib.intMaxStrDigits := hshort
  rw [zeros_toList, List.length_replicate] at hlen
  omega

/-- Decimal digits, with zeros in front or not, whose value fits four bytes. -/
def IsCount (s : String) : Prop :=
  s ≠ "" ∧ s.toList.all Char.isDigit = true ∧ Nat.ofDigitChars 10 s.toList 0 ≤ 0xFFFFFFFF

/-- Digits alone, and more of them than `int` reads. -/
def ManyDigits (s : String) : Prop :=
  s.toList.all Char.isDigit = true ∧ Lib.intMaxStrDigits < s.toList.length

/-- A text of too many digits raises, whatever its value. -/
theorem minutesOf_manyDigits {s : String} (h : ManyDigits s) :
    Endpoints.minutesOf (.text s) = .error .valueError := by
  have hchars : s.toList ≠ [] := by
    intro hnil
    have hlong := h.2
    rw [hnil] at hlong
    exact absurd hlong (Nat.not_lt_zero _)
  have hne : s ≠ "" := fun hempty => hchars (String.toList_eq_nil_iff.mpr hempty)
  have hall : ∀ c ∈ s.toList, c.isDigit = true := List.all_eq_true.mp h.1
  simp only [Endpoints.minutesOf, if_pos (And.intro hne h.1),
    Lib.unsignedOfText_of_isDigit hchars hall, if_neg (Nat.not_le.mpr h.2)]

/-- Any other text that is not a count is told apart from one. -/
theorem minutesOf_notCount {s : String} (hne : s ≠ "") (hcount : ¬ IsCount s)
    (hfew : ¬ ManyDigits s) : Endpoints.minutesOf (.text s) = .ok none := by
  by_cases hdigits : s.toList.all Char.isDigit = true
  · have hlen : s.toList.length ≤ Lib.intMaxStrDigits := by
      by_cases hlong : Lib.intMaxStrDigits < s.toList.length
      · exact absurd ⟨hdigits, hlong⟩ hfew
      · exact Nat.not_lt.mp hlong
    have hbig : ¬ Nat.ofDigitChars 10 s.toList 0 ≤ 0xFFFFFFFF := fun hsmall =>
      hcount ⟨hne, hdigits, hsmall⟩
    have hrange : (Nat.ofDigitChars 10 s.toList 0 : Int) < 0 ∨
        (Nat.ofDigitChars 10 s.toList 0 : Int) > 0xFFFFFFFF := by omega
    have hchars : s.toList ≠ [] := fun hnil => hne (String.toList_eq_nil_iff.mp hnil)
    have hall : ∀ c ∈ s.toList, c.isDigit = true := List.all_eq_true.mp hdigits
    simp only [Endpoints.minutesOf, if_pos (And.intro hne hdigits),
      Lib.unsignedOfText_of_isDigit hchars hall, if_pos hlen, if_pos hrange]
  · have hnot : ¬ (s ≠ "" ∧ s.toList.all Char.isDigit = true) := fun h => hdigits h.2
    simp only [Endpoints.minutesOf, if_neg hnot]

/-- A standard library that writes and reads moments, and reads back these answers. -/
def answering (answers : List Json) : Stdlib :=
  { plainStdlib [] answers with fromisoformat := Iso.fromisoformat, strftime := Iso.strftime }

theorem answering_reads (answers : List Json) : ReadsMoments (answering answers) where
  strftime _ _ := rfl
  fromisoformat _ _ h := h

/-- The answers for keys that begin otherwise have other texts. -/
theorem plainText_ne {L L' : Stdlib} {pem pem' : String} {c c' : Char} {rest rest' : List Char}
    (hpem : pem.toList = c :: rest) (hpem' : pem'.toList = c' :: rest') (hne : c ≠ c')
    (validFrom validTo validFrom' validTo' : Option DateTime) :
    plainText (.obj (Endpoints.answerFields L pem validFrom validTo)) ≠
      plainText (.obj (Endpoints.answerFields L' pem' validFrom' validTo')) := by
  intro h
  have hlist := congrArg String.toList h
  simp only [plainText, Endpoints.answerFields, List.map, String.toList_ofList, List.intercalate,
    List.intersperse, List.flatten_cons, List.append_assoc, List.cons_append, List.cons.injEq,
    true_and, List.append_cancel_left_eq, plainValue, hpem, hpem'] at hlist
  exact hne hlist.1

/-- Answers whose texts differ are read back as themselves. -/
theorem answering_loads {answers : List Json}
    (hdistinct : answers.Pairwise fun a b => plainText a ≠ plainText b) {answer : Json}
    (h : answer ∈ answers) : (answering answers).loads (plainText answer) = .ok answer := by
  have hfind : answers.find? (fun a => decide (plainText a = plainText answer)) = some answer := by
    induction answers with
    | nil => cases h
    | cons a answers ih =>
      obtain ⟨hfirst, hrest⟩ := List.pairwise_cons.mp hdistinct
      rcases List.mem_cons.mp h with rfl | hmem
      · exact List.find?_cons_of_pos (decide_eq_true rfl)
      · rw [List.find?_cons_of_neg (by simpa using hfirst answer hmem)]
        exact ih hrest hmem
  simp only [answering, plainStdlib, hfind]

end Fetch

namespace Zoned

namespace Endpoints

open Fetch (Counts Short IsCount ManyDigits zeros counts_zeros not_short_zeros zeros_isDigit
  zeros_toList zeros_ne ofDigitChars_zeros minutesOf_manyDigits minutesOf_notCount isoStdlib
  answering answering_reads answering_loads plainText_ne secondAndQuarter)
open OpenWebId.Endpoints (DateParam)
open OpenWebId.Zoned.PublicKeySchedule (new StartsAgree DateAgrees london londonA londonB
  startsAgree_of_offset)

/-! ## What is stated -/

section Definitions

variable [DecidableEq ζ] (L : Stdlib) (P : Provider σ κ) (T : Tzdata ζ)
  (keys : List (DatedPublicKey ζ))

omit [DecidableEq ζ] in
/-- The least start after the key's own, `none` where there is none. -/
def NextStart (key : DatedPublicKey ζ) : Option Int → Prop
  | none => ∀ k ∈ keys, startOf T k ≤ startOf T key
  | some next => startOf T key < next ∧ (∃ k ∈ keys, startOf T k = next) ∧
      ∀ k ∈ keys, startOf T key < startOf T k → next ≤ startOf T k

/-- The body states the key supplied first among those with the latest start that is not
after the moment, and its span to the second. -/
def StatesKey (asked : Int) (body : String) : Prop :=
  ∃ fields key next start stop, L.loads body = .ok (.obj fields) ∧ InForce T keys asked key ∧
    NextStart T keys key next ∧
    OpenWebId.Endpoints.get fields "publicKey" = .str key.publicKeyPem ∧
    OpenWebId.Endpoints.momentOf L (OpenWebId.Endpoints.get fields "validFrom") "validFrom" =
      .ok (some start) ∧
    start.micros = toSecond (startOf T key) ∧
    OpenWebId.Endpoints.momentOf L (OpenWebId.Endpoints.get fields "validTo") "validTo" =
      .ok stop ∧
    stop.map DateTime.micros = next.map toSecond

/-- The key that is chosen and its next start are, to the second, those of the moments: there is
none where every start is after the moment, and where there is one that can be sent it is the
key in force, or one that reads the same. -/
def Right (S : Lib.StableSort (DatedPublicKey ζ)) (asked : Aware ζ) : Prop :=
  match (new T S keys).keyInForce T (some asked.datetime) with
  | none => ∀ key ∈ keys, T.moment asked < startOf T key
  | some key => (∃ k ∈ keys, startOf T k ≤ T.moment asked) ∧
      ((∃ crypto, Crypto.newVerifyOnly P key.publicKeyPem = .ok crypto) →
        Holds T (new T S keys) key (T.moment asked) →
          ∃ k next, InForce T keys (T.moment asked) k ∧ NextStart T keys k next ∧
            k.publicKeyPem = key.publicKeyPem ∧
            toSecond (startOf T k) = toSecond (startOf T key) ∧
            next.map toSecond =
              ((new T S keys).nextStartAfter T key).map fun d => toSecond (T.moment d))

end Definitions

/-- Keys that start from the base date on, over a standard library that reads back the
moments and the answers it writes. -/
structure Spoken [DecidableEq ζ] (L : Stdlib) (T : Tzdata ζ) (S : Lib.StableSort (DatedPublicKey ζ))
    (keys : List (DatedPublicKey ζ)) : Prop extends Dated L T keys where
  /-- `json.loads` reads back what `json.dumps` wrote of an answer. -/
  answersRead : ∀ key ∈ keys, L.loads (L.dumps (answerOf T L (new T S keys) key)) =
    .ok (answerOf T L (new T S keys) key)

variable [DecidableEq ζ] {L : Stdlib} {P : Provider σ κ} {T : Tzdata ζ}
  {keys : List (DatedPublicKey ζ)} {S : Lib.StableSort (DatedPublicKey ζ)}

/-! ## The answer for one moment -/

/-- A key that is answered can be read. -/
theorem readable_of_publicKeyAnswer {pem : String} {validFrom validTo : Option (Aware ζ)}
    {asked : Aware ζ} {body : String}
    (h : publicKeyAnswer L P T pem validFrom validTo asked = .ok body) :
    ∃ crypto, Crypto.newVerifyOnly P pem = .ok crypto := by
  obtain ⟨start, -, h⟩ := bind_eq_ok.mp h
  obtain ⟨stop, -, h⟩ := bind_eq_ok.mp h
  obtain ⟨read, hvalid, -⟩ := bind_eq_ok.mp h
  obtain ⟨⟨pem', validFrom', validTo'⟩, hvalid, -⟩ := bind_eq_ok.mp hvalid
  obtain ⟨fields, hfields, hkey, -⟩ := OpenWebId.Endpoints.validate_ok hvalid
  obtain ⟨hget, hread⟩ := OpenWebId.Endpoints.checkKey_ok hkey
  cases hfields
  cases hget
  exact hread

/-- A key that can be read is answered where it holds the moment, and nowhere else. -/
theorem Dated.answer_ok_iff (h : Dated L T keys) {key : DatedPublicKey ζ}
    (hkey : key ∈ keys) {asked : Aware ζ} {body : String} :
    Endpoints.publicKeyAnswer L P T key.publicKeyPem (some key.startsAt)
        ((new T S keys).nextStartAfter T key) asked = .ok body ↔
      (∃ crypto, Crypto.newVerifyOnly P key.publicKeyPem = .ok crypto) ∧
        Holds T (new T S keys) key (T.moment asked) ∧
        body = L.dumps (answerOf T L (new T S keys) key) := by
  constructor
  · intro hok
    have hread := readable_of_publicKeyAnswer hok
    rw [h.publicKeyAnswer hkey hread] at hok
    cases hheld : checkHeld T (new T S keys) key asked with
    | error e =>
      rw [hheld] at hok
      cases hok
    | ok u =>
      rw [hheld] at hok
      cases hok
      exact ⟨hread, (h.checkHeld_iff hkey asked).mp hheld, rfl⟩
  · rintro ⟨hread, hholds, rfl⟩
    rw [h.publicKeyAnswer hkey hread, (h.checkHeld_iff hkey asked).mpr hholds]
    rfl

/-- The answer for a key states another where the two read the same. -/
theorem Spoken.statesKey_iff (h : Spoken L T S keys) {key : DatedPublicKey ζ} (hkey : key ∈ keys)
    {asked : Int} :
    StatesKey L T keys asked (L.dumps (answerOf T L (new T S keys) key)) ↔
      ∃ k next, InForce T keys asked k ∧ NextStart T keys k next ∧
        k.publicKeyPem = key.publicKeyPem ∧ toSecond (startOf T k) = toSecond (startOf T key) ∧
        next.map toSecond =
          ((new T S keys).nextStartAfter T key).map fun d => toSecond (T.moment d) := by
  have hstart : (T.utc key.startsAt).truncateToSecond.micros = toSecond (startOf T key) := by
    rw [← h.utc_micros hkey]
    rfl
  have hstop : (((new T S keys).nextStartAfter T key).map fun d =>
      (T.utc d).truncateToSecond).map DateTime.micros =
      ((new T S keys).nextStartAfter T key).map fun d => toSecond (T.moment d) := by
    cases hnext : (new T S keys).nextStartAfter T key with
    | none => rfl
    | some next =>
      obtain ⟨k, hk, rfl⟩ := PublicKeySchedule.nextStartAfter_mem hnext
      have hmicros := h.utc_micros hk
      rw [startOf] at hmicros
      simp only [Option.map_some, ← hmicros]
      rfl
  have hfrom : OpenWebId.Endpoints.momentOf L (OpenWebId.Endpoints.get
      (OpenWebId.Endpoints.answerFields L key.publicKeyPem (some (T.utc key.startsAt))
        (((new T S keys).nextStartAfter T key).map T.utc)) "validFrom") "validFrom" =
      .ok (some (T.utc key.startsAt).truncateToSecond) := h.momentOf hkey "validFrom"
  have hto : OpenWebId.Endpoints.momentOf L (OpenWebId.Endpoints.get
      (OpenWebId.Endpoints.answerFields L key.publicKeyPem (some (T.utc key.startsAt))
        (((new T S keys).nextStartAfter T key).map T.utc)) "validTo") "validTo" =
      .ok (((new T S keys).nextStartAfter T key).map fun d => (T.utc d).truncateToSecond) :=
    h.momentOf_next key "validTo"
  constructor
  · rintro ⟨fields, k, next, start, stop, hread, hforce, hnext, hpem, hreadFrom, hmicros, hreadTo,
      hstops⟩
    rw [h.answersRead key hkey] at hread
    cases hread
    rw [hfrom] at hreadFrom
    cases hreadFrom
    rw [hto] at hreadTo
    cases hreadTo
    have hsame : key.publicKeyPem = k.publicKeyPem := Json.str.inj hpem
    exact ⟨k, next, hforce, hnext, hsame.symm, hmicros.symm.trans hstart, hstops.symm.trans hstop⟩
  · rintro ⟨k, next, hforce, hnext, hpem, hseconds, hstops⟩
    refine ⟨_, k, next, _, _, h.answersRead key hkey, hforce, hnext, ?_, hfrom,
      hstart.trans hseconds.symm, hto, hstop.trans hstops.symm⟩
    rw [hpem]
    rfl

/-- **A moment is answered as it is meant to be** exactly where the choice of the key and its
next start is right. -/
theorem Spoken.answerAt_serves_iff (h : Spoken L T S keys) (asked : Aware ζ) :
    ((∀ body, answerAt L P T (new T S keys) asked = .ok (200, body) →
        StatesKey L T keys (T.moment asked) body) ∧
      ((∃ body, answerAt L P T (new T S keys) asked = .ok (404, body)) ↔
        ∀ key ∈ keys, T.moment asked < startOf T key)) ↔
      Right P T keys S asked := by
  rw [answerAt, Right]
  cases hkey : (new T S keys).keyInForce T (some asked.datetime) with
  | none => simp
  | some key =>
    have hmem := PublicKeySchedule.keyInForce_mem hkey
    have hbody : ∀ code body, (do
        let body ← publicKeyAnswer L P T key.publicKeyPem (some key.startsAt)
          ((new T S keys).nextStartAfter T key) asked
        .ok (200, body) : Except PyExc (Int × String)) = .ok (code, body) ↔
          code = 200 ∧ publicKeyAnswer L P T key.publicKeyPem (some key.startsAt)
            ((new T S keys).nextStartAfter T key) asked = .ok body := by
      intro code body
      cases publicKeyAnswer L P T key.publicKeyPem (some key.startsAt)
        ((new T S keys).nextStartAfter T key) asked with
      | error e => simp
      | ok text => simp [eq_comm, and_comm]
    simp only [hbody, h.answer_ok_iff hmem, true_and]
    have hfound : ¬ ∃ body, (404 : Int) = 200 ∧
        (∃ crypto, Crypto.newVerifyOnly P key.publicKeyPem = .ok crypto) ∧
        Holds T (new T S keys) key (T.moment asked) ∧
        body = L.dumps (answerOf T L (new T S keys) key) := by
      rintro ⟨body, hcode, -⟩
      cases hcode
    rw [iff_false_left hfound, ← h.statesKey_iff hmem]
    push Not
    constructor
    · rintro ⟨hstates, hstarted⟩
      exact ⟨hstarted, fun hread hholds => hstates _ ⟨hread, hholds, rfl⟩⟩
    · rintro ⟨hstarted, hstates⟩
      refine ⟨?_, hstarted⟩
      rintro body ⟨hread, hholds, rfl⟩
      exact hstates hread hholds

omit [DecidableEq ζ] in
theorem nextStart_of_spec {key : DatedPublicKey ζ} {next : Option (Aware ζ)}
    (h : match next with
      | none => ∀ k ∈ keys, startOf T k ≤ startOf T key
      | some next => startOf T key < T.moment next ∧ (∃ k ∈ keys, k.startsAt = next) ∧
          ∀ k ∈ keys, startOf T key < startOf T k → T.moment next ≤ startOf T k) :
    NextStart T keys key (next.map T.moment) := by
  cases next with
  | none => exact h
  | some next =>
    obtain ⟨hafter, ⟨k, hk, rfl⟩, hmin⟩ := h
    exact ⟨hafter, ⟨k, hk, rfl⟩, hmin⟩

/-- **Where the comparisons say what the moments do, the choice is right.** -/
theorem right_of_agree (h : StartsAgree T keys) {asked : Aware ζ}
    (hreads : DateAgrees T keys asked) : Right P T keys S asked := by
  have hdate : DateAgrees T keys asked.datetime.aware := hreads
  obtain ⟨hnone, hsome⟩ := h.keyInForce S hdate
  rw [Right]
  cases hkey : (new T S keys).keyInForce T (some asked.datetime) with
  | none => exact hnone.mp hkey
  | some key =>
    have hforce : InForce T keys (T.moment asked) key := (hsome key).mp hkey
    refine ⟨⟨key, hforce.mem, hforce.started⟩, fun _ _ => ?_⟩
    refine ⟨key, _, hforce, nextStart_of_spec (h.nextStartAfter S hforce.mem), rfl, rfl, ?_⟩
    rw [Option.map_map]
    rfl

/-! ## The key that is served -/

/-- The answers for three keys, of which two share a start. -/
def tieAnswers (S : Lib.StableSort (DatedPublicKey Unit)) : List Json :=
  [secondB, baseC, baseA].map (answerOf london isoStdlib (new london S [secondB, baseC, baseA]))

theorem spoken_tie (S : Lib.StableSort (DatedPublicKey Unit)) :
    Spoken (answering (tieAnswers S)) london S [secondB, baseC, baseA] where
  moments := answering_reads _
  fromBase := by decide
  answersRead key hkey := by
    have hsame : answerOf london (answering (tieAnswers S)) (new london S [secondB, baseC, baseA])
        key = answerOf london isoStdlib (new london S [secondB, baseC, baseA]) key := rfl
    rw [hsame]
    refine answering_loads ?_ (List.mem_map_of_mem hkey)
    refine List.pairwise_cons.mpr ⟨?_, List.pairwise_pair.mpr ?_⟩
    · intro answer hanswer
      rcases List.mem_pair.mp hanswer with rfl | rfl
      · exact plainText_ne rfl rfl (by decide) _ _ _ _
      · exact plainText_ne rfl rfl (by decide) _ _ _ _
    · exact plainText_ne rfl rfl (by decide) _ _ _ _

/-- A text that is not empty and not read as minutes is refused, or raises. -/
theorem publicKeyResponseAt_text {schedule : PublicKeySchedule ζ} {s : String} (hne : s ≠ "")
    {read : Except PyExc (Option Int)} (hread : OpenWebId.Endpoints.minutesOf (.text s) = read)
    (hnone : ∀ minutes, read ≠ .ok (some minutes)) (now : PyDateTime ζ) :
    publicKeyResponseAt L P T schedule (some spkiFormat) (.text s) now =
      read.map fun _ => (400, "") := by
  have hpresent : ¬ (DateParam.text s = .absent ∨ DateParam.text s = .text "") := by
    intro h
    rcases h with h | h
    · cases h
    · injection h with hempty
      exact hne hempty
  have hformat : OpenWebId.Endpoints.checkFormat (some spkiFormat) = .ok () := rfl
  unfold publicKeyResponseAt
  rw [hformat]
  simp only [if_neg hpresent, hread]
  cases read with
  | error e => rfl
  | ok minutes =>
    cases minutes with
    | none => rfl
    | some minutes => exact absurd rfl (hnone minutes)

/-- The answer for a moment is 200 or 404. -/
theorem answerAt_ne_badRequest {schedule : PublicKeySchedule ζ} {asked : Aware ζ} {body : String} :
    answerAt L P T schedule asked ≠ .ok (400, body) := by
  intro h
  unfold answerAt at h
  split at h
  next => cases h
  next =>
    obtain ⟨body', -, hcode⟩ := bind_eq_ok.mp h
    cases hcode

theorem toSecond_wholeMinute {moment : Int} (h : moment % microsPerMinute = 0) :
    toSecond moment = moment := by
  simp only [toSecond, microsPerMinute, microsPerSecond] at h ⊢
  omega

omit [DecidableEq ζ] in
/-- Starts at whole minutes leave no start to come within a second. -/
theorem noStartWithin_wholeMinutes
    (hwhole : ∀ key ∈ keys, startOf T key % microsPerMinute = 0) (moment : Int) :
    NoStartWithin T keys moment := by
  intro key hkey hlater
  rw [toSecond_wholeMinute (hwhole key hkey)]
  exact hlater

end Endpoints

end Zoned

end OpenWebId
