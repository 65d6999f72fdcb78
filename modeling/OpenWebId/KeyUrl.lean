import OpenWebId.Url
import OpenWebId.RoundTrip
import OpenWebId.Lib.Rfc3986

/-!
# What a key URL names

The domain in an OWID is text from outside, and `public_key_url` formats it into a URL that
a request is sent to and that the cache is indexed by. `Names` is what such a URL must say,
by the rules of RFC 3986 and by the two functions that take it apart again, and
`publicKeyUrl_names` that every URL built for an OWID that was read says it: the check of
the domain lets no mark through that would end the authority or start another part of it.

The end point is then one creator's and one version's alone, as the path starts with a
slash and no domain holds one.
-/

namespace OpenWebId

/-- The date that was read of an envelope is on or after the base date. -/
theorem Envelope.minutes_nonneg (e : Envelope) : 0 ≤ minutesSinceBase e.owid.date := by
  have hunit : 0 ≤ dateUnit e.version := by
    cases e.version <;> decide
  have hdate : 0 ≤ e.owid.date.micros :=
    Int.mul_nonneg (Int.natCast_nonneg e.count) hunit
  rw [minutesSinceBase_of_nonneg hdate]
  exact wholeMinutes_nonneg hdate

namespace Fetch

/-- The URL names the OWID's creator, its version and its date, and nothing else. -/
structure Names (o : Owid) (scheme url : String) : Prop where
  /-- The date is one that can be counted. -/
  counted : 0 ≤ minutesSinceBase o.date
  parts : Lib.Rfc3986.split url.toList =
    ⟨some scheme.toList, some o.domain.toList, (Endpoints.publicKeyPath o.version).toList,
      some (dateQuery (minutesSinceBase o.date).toNat).toList, none⟩
  /-- The authority is a host, with no user information and no port. -/
  authority : Lib.Rfc3986.splitAuthority o.domain.toList = ⟨none, o.domain.toList, none⟩
  endPoint : endPointOf url = Fetch.endPoint scheme o.domain o.version
  query : url = endPointOf url ++ "?" ++ dateQuery (minutesSinceBase o.date).toNat
  minute : ∀ now, (minuteAndRecency url now).1 = some (minutesSinceBase o.date)

/-! ## The characters of each part -/

/-- A domain character is none of the marks that are not. -/
theorem isDomainChar_notMem {marks : List Char} (hmarks : marks.any isDomainChar = false)
    {c : Char} (h : isDomainChar c = true) : c ∉ marks := by
  intro hc
  rw [List.any_eq_false] at hmarks
  exact hmarks c hc h

theorem isAlpha_notMem {marks : List Char} (hmarks : marks.any Char.isAlpha = false) {c : Char}
    (h : c.isAlpha = true) : c ∉ marks := by
  intro hc
  rw [List.any_eq_false] at hmarks
  exact hmarks c hc h

/-- The path starts with a slash, and holds neither mark that would end it. -/
theorem publicKeyPath_cons (version : Version) :
    ∃ path, (Endpoints.publicKeyPath version).toList = '/' :: path ∧
      ∀ c ∈ path, c ∉ ['?', '#'] := by
  obtain ⟨path, hpath⟩ : ∃ path, (Endpoints.publicKeyPath version).toList = '/' :: path := by
    cases version <;> exact ⟨_, rfl⟩
  refine ⟨path, hpath, ?_⟩
  intro c hc hmark
  have hin : c ∈ (Endpoints.publicKeyPath version).toList := by
    rw [hpath]
    exact List.mem_cons_of_mem _ hc
  obtain ⟨-, hquestion, hhash⟩ := publicKeyPath_spec version c hin
  rcases List.mem_cons.mp hmark with he | he
  · exact hquestion he
  · exact hhash (List.mem_singleton.mp he)

theorem publicKeyPath_injective {v w : Version}
    (h : Endpoints.publicKeyPath v = Endpoints.publicKeyPath w) : v = w := by
  have hdigit : ∀ version : Version, (Endpoints.publicKeyPath version).toList[11]? =
      some (Nat.digitChar version.asByte.toNat) := by
    intro version
    cases version <;> rfl
  have hsame := hdigit v
  rw [h, hdigit w] at hsame
  cases v <;> cases w <;> first | rfl | exact absurd hsame (by decide)

/-- **An end point is one domain's and one version's.** -/
theorem endPoint_injective {scheme domain domain' : String} {v w : Version}
    (hdomain : checkDomain domain = .ok ()) (hdomain' : checkDomain domain' = .ok ())
    (h : endPoint scheme domain v = endPoint scheme domain' w) : domain = domain' ∧ v = w := by
  have hslash : ∀ {d : String}, checkDomain d = .ok () → '/' ∉ d.toList := by
    intro d hd hmem
    exact absurd ((checkDomain_ok hd).2 '/' hmem) (by decide)
  obtain ⟨path, hpath, -⟩ := publicKeyPath_cons v
  obtain ⟨path', hpath', -⟩ := publicKeyPath_cons w
  have hlist := congrArg String.toList h
  rw [toList_endPoint, toList_endPoint, hpath, hpath'] at hlist
  have hrest := List.append_cancel_left hlist
  simp only [List.cons.injEq, true_and] at hrest
  obtain ⟨hdomains, hpaths⟩ := Lib.append_sep_inj (hslash hdomain) (hslash hdomain') hrest
  refine ⟨String.toList_inj.mp hdomains, publicKeyPath_injective (String.toList_inj.mp ?_)⟩
  rw [hpath, hpath', hpaths]

/-! ## The URL of an OWID that was read -/

/-- The parts of a key URL. -/
theorem split_dateUrl {scheme domain : String} (hscheme : lower scheme ∈ acceptedSchemes)
    (hdomain : checkDomain domain = .ok ()) (version : Version) (minute : Nat) :
    Lib.Rfc3986.split (dateUrl (endPoint scheme domain version) minute).toList =
      ⟨some scheme.toList, some domain.toList, (Endpoints.publicKeyPath version).toList,
        some (dateQuery minute).toList, none⟩ := by
  obtain ⟨path, hpath, hmarks⟩ := publicKeyPath_cons version
  have hne : scheme.toList ≠ [] := fun he => ne_empty_of_accepted hscheme (String.toList_inj.mp he)
  rw [toList_dateUrl, toList_endPoint, hpath]
  apply Lib.Rfc3986.split_append hne
  · intro c hc
    exact isAlpha_notMem (by decide) (isAlpha_of_accepted hscheme c hc)
  · intro c hc
    exact isDomainChar_notMem (by decide) ((checkDomain_ok hdomain).2 c hc)
  · exact hmarks
  · exact fun h => (mem_dateQuery h).2 rfl

theorem names_of_received {o : Owid} (ho : Received o) {scheme url : String}
    (hscheme : lower scheme ∈ acceptedSchemes) (hurl : publicKeyUrl o scheme = .ok url) :
    Names o scheme url ∧ checkDomain o.domain = .ok () := by
  obtain ⟨e, rfl⟩ := ho.exists_envelope
  have hcounted := Envelope.minutes_nonneg e
  obtain ⟨rfl, hdomain, -⟩ := publicKeyUrl_ok hurl hcounted
  have hclean : Clean (endPoint scheme e.owid.domain e.owid.version) :=
    endPoint_clean (isAlpha_of_accepted hscheme) hdomain
  have hfield : (minutesSinceBase e.owid.date).toNat ≤ 0xFFFFFFFF := by
    have hle := minutesSinceBase_le e.owid.date
    rw [maximumMinutes_eq] at hle
    omega
  have hback := endPointOf_dateUrl hclean (minutesSinceBase e.owid.date).toNat
  refine ⟨⟨hcounted, split_dateUrl hscheme hdomain _ _, ?_, hback, ?_, ?_⟩, hdomain⟩
  · apply Lib.Rfc3986.splitAuthority_host
    intro c hc
    exact isDomainChar_notMem (by decide) ((checkDomain_ok hdomain).2 c hc)
  · rw [hback]
    rfl
  · intro now
    rw [minuteAndRecency_some (namedMinute_dateUrl hclean hfield)]
    exact congrArg some (Int.toNat_of_nonneg hcounted)

/-- **A key URL names the creator and nothing else.** For every OWID that was read and every
way to write an accepted scheme, a URL that is returned comes apart into that scheme, the
OWID's domain alone, the version's path and the query of its date; the cache reads back the
end point and the minute that were put in; and the end point is no other domain's and no
other version's. -/
theorem publicKeyUrl_names {o : Owid} (ho : Received o) {scheme url : String}
    (hscheme : lower scheme ∈ acceptedSchemes) (hurl : publicKeyUrl o scheme = .ok url) :
    Names o scheme url ∧
      ∀ o' url', Received o' → publicKeyUrl o' scheme = .ok url' →
        endPointOf url' = endPointOf url → o'.domain = o.domain ∧ o'.version = o.version := by
  obtain ⟨hnames, hdomain⟩ := names_of_received ho hscheme hurl
  refine ⟨hnames, ?_⟩
  intro o' url' ho' hurl' hsame
  obtain ⟨hnames', hdomain'⟩ := names_of_received ho' hscheme hurl'
  rw [hnames.endPoint, hnames'.endPoint] at hsame
  exact endPoint_injective hdomain' hdomain hsame

/-- The URL of the smallest envelope of the domain `a`, under a scheme in capitals. -/
theorem publicKeyUrl_names_capitals :
    ∃ o url, publicKeyUrl o "HTTPS" = .ok url ∧ Names o "HTTPS" url := by
  let e := plainEnvelope [0x61] (by decide) (by decide)
  have hdomain : checkDomain e.owid.domain = .ok () := by decide
  have hscheme : lower "HTTPS" ∈ acceptedSchemes := by decide
  have hurl := publicKeyUrl_accepted hscheme hdomain
    (Int.toNat_of_nonneg (Envelope.minutes_nonneg e)).symm
  exact ⟨e.owid, _, hurl, (publicKeyUrl_names e.received hscheme hurl).1⟩

end Fetch

end OpenWebId
