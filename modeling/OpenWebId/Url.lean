import OpenWebId.Endpoints
import OpenWebId.Lib.Url

/-!
# The URL of a key, written and read

`publicKeyUrl` builds the URL that names an OWID's key and `minuteAndRecency` reads
the minute back out of one. `dateUrl` is the text both come down to, the end point and
a query naming a minute; `namedMinute_dateUrl` says that the minute read is the
minute written, and `publicKeyUrl_ok` that a URL that was built is such a text, over
an end point with nothing in it that `urlsplit` would read differently.
-/

namespace OpenWebId

open Lib.Url (queryOf schemeOf parseQsl IsPlain)

namespace Fetch

/-- `CLOCK_DRIFT_ALLOWANCE_MINUTES`. -/
def clockDriftAllowanceMinutes : Int := 15

/-- `_LAST_MINUTE`, the last minute the date field of an OWID can hold. -/
def lastMinute : Int := 0xFFFFFFFF

/-- `text.lower()`, as far as the comparison with an accepted scheme can tell: no
character outside ASCII is the upper case of one of their letters. -/
def lower (s : String) : String := String.ofList (s.toList.map Char.toLower)

/-- `_ACCEPTED_SCHEMES`. -/
def acceptedSchemes : List String := ["http", "https"]

def quoted (value : String) : String := "'" ++ value ++ "'"

/-- The characters a domain may hold. -/
def isDomainChar (c : Char) : Bool := c.isAlphanum || c == '.' || c == '-'

/-- `_check_domain`. -/
def checkDomain (domain : String) : Except PyExc Unit :=
  if domain = "" then .error (.owidError "the OWID carries no domain")
  else if domain.toList.all isDomainChar then .ok ()
  else .error (.owidError ("the domain in the OWID is not a domain name this package " ++
    "will request a key from"))

/-- The end point for a scheme, a domain and a version. -/
def endPoint (scheme domain : String) (version : Version) : String :=
  scheme ++ "://" ++ domain ++ Endpoints.publicKeyPath version

/-- The query naming a minute. -/
def dateQuery (minute : Nat) : String :=
  "date=" ++ toString minute ++ "&format=" ++ spkiFormat

/-- The URL of the key an end point has for a minute. -/
def dateUrl (endPoint : String) (minute : Nat) : String := endPoint ++ "?" ++ dateQuery minute

/-- `public_key_url`. -/
def publicKeyUrl (owid : Owid) (scheme : String) : Except PyExc String :=
  if Lib.strip scheme = "" then .error (.owidError "the scheme is missing")
  else if lower (Lib.strip scheme) ∉ acceptedSchemes then
    .error (.owidError ("the scheme must be http or https, received " ++ quoted scheme))
  else do
    checkDomain owid.domain
    let minutes := minutesSinceBase owid.date
    let base := endPoint scheme owid.domain owid.version
    .ok (if minutes ≥ 0 then dateUrl base minutes.toNat else base ++ "?format=" ++ spkiFormat)

/-- `_end_point_of`. -/
def endPointOf (url : String) : String := String.ofList (Lib.beforeFirst '?' url.toList)

/-- The loop of `_minute_and_recency` over the query's pairs. -/
def minuteNamed : List (String × String) → Option Int
  | [] => none
  | (name, value) :: pairs => if name = "date" then Lib.intOfText value else minuteNamed pairs

/-- The minute a URL names. -/
def namedMinute (url : String) : Option Int := minuteNamed (parseQsl (queryOf url.toList))

/-- `_minute_and_recency`, at the moment `now`. -/
def minuteAndRecency (url : String) (now : DateTime) : Option Int × Bool :=
  match namedMinute url with
  | none => (none, false)
  | some minute => (some minute, minute > minutesSinceBase now - clockDriftAllowanceMinutes)

/-! ## Reading back what was written -/

/-- An end point with nothing in it that ends it early or that `urlsplit` drops. -/
def Clean (endPoint : String) : Prop := '?' ∉ endPoint.toList ∧ '#' ∉ endPoint.toList

instance (endPoint : String) : Decidable (Clean endPoint) :=
  inferInstanceAs (Decidable (_ ∧ _))

theorem isPlain_toString {n : Nat} : ∀ c ∈ (toString n).toList, IsPlain c := by
  intro c hc
  refine IsPlain.of_isAlphanum ?_
  rw [Char.isAlphanum, Lib.isDigit_of_mem_repr hc, Bool.or_true]

/-- No digit is one of the marks a query is cut at. -/
theorem notMem_toString {n : Nat} {c : Char} (h : c.isDigit = false) :
    c ∉ (toString n).toList := by
  intro hc
  rw [Lib.isDigit_of_mem_repr hc] at h
  cases h

theorem toList_dateQuery (minute : Nat) :
    (dateQuery minute).toList =
      ("date".toList ++ '=' :: (toString minute).toList) ++ '&' ::
        ("format".toList ++ '=' :: spkiFormat.toList) := by
  simp [dateQuery, spkiFormat, String.toList_append]

/-- The words of a query are alphanumeric. -/
theorem isAlphanum_words {c : Char}
    (h : c ∈ "date".toList ++ "format".toList ++ spkiFormat.toList) : c.isAlphanum = true := by
  have hall : ("date".toList ++ "format".toList ++ spkiFormat.toList).all Char.isAlphanum =
      true := by decide
  exact List.all_eq_true.mp hall c h

theorem toList_dateUrl (base : String) (minute : Nat) :
    (dateUrl base minute).toList = base.toList ++ '?' :: (dateQuery minute).toList := by
  simp [dateUrl, String.toList_append]

theorem mem_dateQuery {minute : Nat} {c : Char} (h : c ∈ (dateQuery minute).toList) :
    0x20 < c.toNat ∧ c ≠ '#' := by
  have hword : c.isAlphanum = true → 0x20 < c.toNat ∧ c ≠ '#' := by
    intro hc
    refine ⟨(IsPlain.of_isAlphanum hc).1, ?_⟩
    intro he
    subst he
    exact absurd hc (by decide)
  rw [toList_dateQuery] at h
  simp only [List.mem_append, List.mem_cons] at h
  rcases h with (hname | hmark | hdigit) | hmark | hname | hmark | hvalue
  · exact hword (isAlphanum_words (by simp only [List.mem_append, hname, true_or]))
  · subst hmark
    decide
  · exact hword (by rw [Char.isAlphanum, Lib.isDigit_of_mem_repr hdigit, Bool.or_true])
  · subst hmark
    decide
  · exact hword (isAlphanum_words (by simp only [List.mem_append, hname, or_true, true_or]))
  · subst hmark
    decide
  · exact hword (isAlphanum_words (by simp only [List.mem_append, hvalue, or_true]))

theorem queryOf_dateUrl {base : String} (hbase : Clean base) (minute : Nat) :
    queryOf (dateUrl base minute).toList = (dateQuery minute).toList := by
  rw [toList_dateUrl]
  exact Lib.Url.queryOf_append hbase.1 hbase.2 (fun c hc => (mem_dateQuery hc).1)
    fun h => (mem_dateQuery h).2 rfl

/-- The pairs of a query that was written. -/
theorem parseQsl_dateQuery (minute : Nat) :
    parseQsl (dateQuery minute).toList = [("date", toString minute), ("format", spkiFormat)] := by
  have hplain : ∀ c ∈ "date".toList ++ "format".toList ++ spkiFormat.toList, IsPlain c :=
    fun c hc => IsPlain.of_isAlphanum (isAlphanum_words hc)
  have hdate := Lib.Url.pairOf_plain
    (fun c hc => hplain c (List.mem_append_left _ (List.mem_append_left _ hc)))
    (isPlain_toString (n := minute)) (Lib.repr_ne_nil minute) (by decide : '=' ∉ "date".toList)
  have hformat := Lib.Url.pairOf_plain
    (fun c hc => hplain c (List.mem_append_left _ (List.mem_append_right _ hc)))
    (fun c hc => hplain c (List.mem_append_right _ hc)) (by decide)
    (by decide : '=' ∉ "format".toList)
  have hand : '&' ∉ "date".toList ++ '=' :: (toString minute).toList := by
    intro h
    rcases List.mem_append.mp h with hname | hrest
    · exact absurd hname (by decide)
    · rcases List.mem_cons.mp hrest with hmark | hdigit
      · exact absurd hmark (by decide)
      · exact notMem_toString (by decide) hdigit
  rw [toList_dateQuery, Lib.Url.parseQsl_two hdate hformat hand (by decide)]
  simp only [String.ofList_toList]

/-- A minute that the text of an integer can name. -/
theorem lt_intMax {minute : Nat} (h : minute ≤ 0xFFFFFFFF) : minute < 10 ^ Lib.intMaxStrDigits := by
  have hpow : 10 ^ 10 ≤ 10 ^ Lib.intMaxStrDigits :=
    Nat.pow_le_pow_right (by decide) (by decide)
  omega

/-- **The minute read is the minute written.** -/
theorem namedMinute_dateUrl {base : String} (hbase : Clean base) {minute : Nat}
    (hminute : minute ≤ 0xFFFFFFFF) :
    namedMinute (dateUrl base minute) = some (minute : Int) := by
  rw [namedMinute, queryOf_dateUrl hbase, parseQsl_dateQuery, minuteNamed, if_pos rfl,
    Lib.intOfText_toString (lt_intMax hminute)]

/-- A minute is recent where it is later than the drift allowance behind now. -/
theorem minuteAndRecency_some {url : String} {minute : Int} (h : namedMinute url = some minute)
    (now : DateTime) :
    minuteAndRecency url now =
      (some minute, decide (minute > minutesSinceBase now - clockDriftAllowanceMinutes)) := by
  rw [minuteAndRecency, h]

theorem endPointOf_dateUrl {base : String} (hbase : Clean base) (minute : Nat) :
    endPointOf (dateUrl base minute) = base := by
  rw [endPointOf, toList_dateUrl, Lib.beforeFirst_append hbase.1, String.ofList_toList]

/-! ## The URL that was built -/

theorem checkDomain_ok {domain : String} (h : checkDomain domain = .ok ()) :
    domain ≠ "" ∧ ∀ c ∈ domain.toList, isDomainChar c = true := by
  unfold checkDomain at h
  split at h
  · cases h
  next hne =>
    split at h
    next hall => exact ⟨hne, List.all_eq_true.mp hall⟩
    next => cases h

theorem checkDomain_error {domain : String} {e : PyExc} (h : checkDomain domain = .error e) :
    e.isOwidError = true := by
  unfold checkDomain at h
  split at h
  · cases h
    rfl
  · split at h
    · cases h
    · cases h
      rfl

/-- A URL that cannot be built is an `OwidError`. -/
theorem publicKeyUrl_error {owid : Owid} {scheme : String} {e : PyExc}
    (h : publicKeyUrl owid scheme = .error e) : e.isOwidError = true := by
  unfold publicKeyUrl at h
  split at h
  · cases h
    rfl
  · split at h
    · cases h
      rfl
    · rcases bind_eq_error.mp h with hdomain | ⟨-, -, hurl⟩
      · exact checkDomain_error hdomain
      · cases hurl

/-- A URL that was built for an OWID with a countable date names that date's minute at
the end point of its domain. -/
theorem publicKeyUrl_ok {owid : Owid} {scheme url : String}
    (h : publicKeyUrl owid scheme = .ok url) (hdate : 0 ≤ minutesSinceBase owid.date) :
    url = dateUrl (endPoint scheme owid.domain owid.version)
        (minutesSinceBase owid.date).toNat ∧
      checkDomain owid.domain = .ok () ∧ lower (Lib.strip scheme) ∈ acceptedSchemes := by
  unfold publicKeyUrl at h
  split at h
  · cases h
  · split at h
    next => cases h
    next hscheme =>
      obtain ⟨u, hdomain, h⟩ := bind_eq_ok.mp h
      have hurl := Except.ok.inj h
      rw [if_pos hdate] at hurl
      exact ⟨hurl.symm, hdomain, Decidable.not_not.mp hscheme⟩

/-- A domain character is visible and none of the marks a URL is cut at. -/
theorem isDomainChar_spec {c : Char} (h : isDomainChar c = true) :
    0x20 < c.toNat ∧ c ≠ '?' ∧ c ≠ '#' := by
  have hne : ∀ d : Char, isDomainChar d = false → c ≠ d := by
    intro d hd he
    rw [he, hd] at h
    cases h
  refine ⟨?_, hne _ (by decide), hne _ (by decide)⟩
  simp only [isDomainChar, Bool.or_eq_true, beq_iff_eq] at h
  rcases h with (halnum | hdot) | hdash
  · exact (IsPlain.of_isAlphanum halnum).1
  · subst hdot
    decide
  · subst hdash
    decide

/-- The path of every version is visible and has none of the marks. -/
theorem publicKeyPath_spec (version : Version) :
    ∀ c ∈ (Endpoints.publicKeyPath version).toList, 0x20 < c.toNat ∧ c ≠ '?' ∧ c ≠ '#' := by
  have hall : (Endpoints.publicKeyPath version).toList.all
      (fun c => decide (0x20 < c.toNat ∧ c ≠ '?' ∧ c ≠ '#')) = true := by
    cases version <;> rfl
  intro c hc
  exact of_decide_eq_true (List.all_eq_true.mp hall c hc)

theorem toList_endPoint (scheme domain : String) (version : Version) :
    (endPoint scheme domain version).toList =
      scheme.toList ++ ':' :: ('/' :: '/' ::
        (domain.toList ++ (Endpoints.publicKeyPath version).toList)) := by
  simp [endPoint, String.toList_append]

/-- What comes after the scheme of an end point. -/
theorem endPoint_rest {domain : String} (hdomain : checkDomain domain = .ok ())
    (version : Version) :
    ∀ c ∈ '/' :: '/' :: (domain.toList ++ (Endpoints.publicKeyPath version).toList),
      0x20 < c.toNat ∧ c ≠ '?' ∧ c ≠ '#' := by
  intro c hc
  simp only [List.mem_cons, List.mem_append] at hc
  rcases hc with hslash | hslash | hin | hpath
  · subst hslash
    decide
  · subst hslash
    decide
  · exact isDomainChar_spec ((checkDomain_ok hdomain).2 c hin)
  · exact publicKeyPath_spec version c hpath

/-- The end point of a scheme of letters and a domain that was accepted is clean. -/
theorem endPoint_clean {scheme domain : String} {version : Version}
    (hscheme : ∀ c ∈ scheme.toList, c.isAlpha = true) (hdomain : checkDomain domain = .ok ()) :
    Clean (endPoint scheme domain version) := by
  have hmark : ∀ c ∈ (endPoint scheme domain version).toList, c ≠ '?' ∧ c ≠ '#' := by
    intro c hc
    rw [toList_endPoint] at hc
    rcases List.mem_append.mp hc with hs | hr
    · have halpha := hscheme c hs
      refine ⟨?_, ?_⟩
      all_goals
        intro he
        subst he
        exact absurd halpha (by decide)
    · rcases List.mem_cons.mp hr with hcolon | hrest
      · subst hcolon
        decide
      · exact (endPoint_rest hdomain version c hrest).2
  exact ⟨fun h => (hmark _ h).1 rfl, fun h => (hmark _ h).2 rfl⟩

/-- The scheme `urlsplit` reads from a URL on an end point is the one it was built with. -/
theorem schemeOf_dateUrl {scheme domain : String} {version : Version} (hne : scheme ≠ "")
    (hscheme : ∀ c ∈ scheme.toList, c.isAlpha = true) (hdomain : checkDomain domain = .ok ())
    (minute : Nat) :
    String.ofList (schemeOf (dateUrl (endPoint scheme domain version) minute).toList) =
      lower scheme := by
  have hne' : scheme.toList ≠ [] := by
    intro he
    exact hne (String.toList_inj.mp he)
  rw [toList_dateUrl, toList_endPoint, List.append_assoc, List.cons_append,
    Lib.Url.schemeOf_append hne' hscheme]
  · rfl
  · intro c hc
    rcases List.mem_append.mp hc with hrest | hquery
    · exact (endPoint_rest hdomain version c hrest).1
    · rcases List.mem_cons.mp hquery with hmark | hquery
      · subst hmark
        decide
      · exact (mem_dateQuery hquery).1

/-! ## The accepted schemes -/

theorem https_accepted : lower "https" ∈ acceptedSchemes := by decide

/-- Every character of an accepted scheme is a letter. -/
theorem isAlpha_of_accepted {scheme : String} (h : lower scheme ∈ acceptedSchemes) :
    ∀ c ∈ scheme.toList, c.isAlpha = true := by
  have hletters : (acceptedSchemes.all fun s => s.toList.all Char.isAlpha) = true := by decide
  intro c hc
  have hlower : c.toLower ∈ (lower scheme).toList := by
    rw [lower, String.toList_ofList]
    exact List.mem_map_of_mem hc
  have halpha := List.all_eq_true.mp (List.all_eq_true.mp hletters _ h) _ hlower
  by_cases hupper : c.isUpper = true
  · rw [Char.isAlpha, hupper, Bool.true_or]
  · have hsame : c.toLower = c := by
      unfold Char.toLower
      refine dif_neg fun hrange => hupper ?_
      simpa [Char.isUpper] using hrange
    rwa [hsame] at halpha

theorem strip_of_accepted {scheme : String} (h : lower scheme ∈ acceptedSchemes) :
    Lib.strip scheme = scheme := by
  refine Lib.strip_eq_self fun c hc => ?_
  have halnum : c.isAlphanum = true := by
    rw [Char.isAlphanum, isAlpha_of_accepted h c hc, Bool.true_or]
  exact Lib.isSpace_of_printable (IsPlain.of_isAlphanum halnum).1 (IsPlain.of_isAlphanum halnum).2.1

theorem ne_empty_of_accepted {scheme : String} (h : lower scheme ∈ acceptedSchemes) :
    scheme ≠ "" := by
  intro he
  rw [he] at h
  exact absurd h (by decide)

/-- The URL for an accepted scheme, a usable domain and a date that can be counted. -/
theorem publicKeyUrl_accepted {owid : Owid} {scheme : String}
    (hscheme : lower scheme ∈ acceptedSchemes) (hdomain : checkDomain owid.domain = .ok ())
    {minute : Nat} (hdate : minutesSinceBase owid.date = minute) :
    publicKeyUrl owid scheme =
      .ok (dateUrl (endPoint scheme owid.domain owid.version) minute) := by
  have hstrip := strip_of_accepted hscheme
  rw [publicKeyUrl, hstrip, if_neg (ne_empty_of_accepted hscheme), if_neg (not_not_intro hscheme),
    hdomain, ok_bind, hdate]
  simp only
  rw [if_pos (Int.natCast_nonneg minute), Int.toNat_natCast]

end Fetch

end OpenWebId
