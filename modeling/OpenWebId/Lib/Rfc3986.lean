import Mathlib

/-!
# The parts of a URI reference

RFC 3986 takes a reference apart from the left, each part running up to the first of the
marks that can follow it: the scheme up to a colon, the authority behind two slashes up
to a slash, a question mark or a hash, the path up to a question mark or a hash, the query
up to a hash, and the fragment to the end (appendix B). The authority is user information
up to an `@`, the host, which may be a literal in brackets, and a port behind a colon
(section 3.2). Texts are lists of characters.

`split_append` is how a reference that was put together comes apart again.
-/

namespace OpenWebId.Lib.Rfc3986

/-- The character is none of the marks. -/
def passes (marks : List Char) (c : Char) : Bool := decide (c ∉ marks)

/-- The characters in front of the first of the marks, and the rest from there. -/
def cutAt (marks s : List Char) : List Char × List Char :=
  (s.takeWhile (passes marks), s.dropWhile (passes marks))

/-- A reference in its five parts. -/
structure Parts where
  scheme : Option (List Char)
  authority : Option (List Char)
  path : List Char
  query : Option (List Char)
  fragment : Option (List Char)
  deriving DecidableEq

/-- An authority in its three parts. -/
structure Authority where
  userInfo : Option (List Char)
  host : List Char
  port : Option (List Char)
  deriving DecidableEq

/-- `scheme ":"`, and what follows. -/
def schemePart (s : List Char) : Option (List Char) × List Char :=
  match cutAt [':', '/', '?', '#'] s with
  | (c :: front, ':' :: rest) => (some (c :: front), rest)
  | _ => (none, s)

/-- `"//" authority`, and what follows. -/
def authorityPart : List Char → Option (List Char) × List Char
  | '/' :: '/' :: s => (some (cutAt ['/', '?', '#'] s).1, (cutAt ['/', '?', '#'] s).2)
  | s => (none, s)

/-- `"?" query`, and what follows. -/
def queryPart : List Char → Option (List Char) × List Char
  | '?' :: s => (some (cutAt ['#'] s).1, (cutAt ['#'] s).2)
  | s => (none, s)

/-- `"#" fragment`. -/
def fragmentPart : List Char → Option (List Char)
  | '#' :: s => some s
  | _ => none

/-- The five parts of a reference. -/
def split (s : List Char) : Parts :=
  let (scheme, s) := schemePart s
  let (authority, s) := authorityPart s
  let (path, s) := cutAt ['?', '#'] s
  let (query, s) := queryPart s
  ⟨scheme, authority, path, query, fragmentPart s⟩

/-- `":" port`. -/
def portPart : List Char → Option (List Char)
  | ':' :: s => some s
  | _ => none

/-- `userinfo "@"`, and what follows. -/
def userInfoPart (s : List Char) : Option (List Char) × List Char :=
  match cutAt ['@'] s with
  | (front, '@' :: rest) => (some front, rest)
  | _ => (none, s)

/-- The host, and the port behind it. -/
def hostPort : List Char → List Char × Option (List Char)
  | '[' :: s =>
    match cutAt [']'] s with
    | (literal, ']' :: rest) => ('[' :: literal ++ [']'], portPart rest)
    | _ => ('[' :: s, none)
  | s => ((cutAt [':'] s).1, portPart (cutAt [':'] s).2)

/-- The three parts of an authority. -/
def splitAuthority (s : List Char) : Authority :=
  let (userInfo, s) := userInfoPart s
  let (host, port) := hostPort s
  ⟨userInfo, host, port⟩

/-! ## Putting together and taking apart -/

/-- The first of the marks ends the run in front of it. -/
theorem cutAt_append {marks front rest : List Char} {mark : Char}
    (hfront : ∀ c ∈ front, c ∉ marks) (hmark : mark ∈ marks) :
    cutAt marks (front ++ mark :: rest) = (front, mark :: rest) := by
  have hpass : ∀ c ∈ front, passes marks c = true := fun c hc => decide_eq_true (hfront c hc)
  have hstop : ¬ passes marks mark = true := fun h => of_decide_eq_true h hmark
  rw [cutAt, List.takeWhile_append_of_pos hpass, List.takeWhile_cons_of_neg hstop,
    List.dropWhile_append_of_pos hpass, List.dropWhile_cons_of_neg hstop, List.append_nil]

theorem cutAt_all {marks s : List Char} (h : ∀ c ∈ s, c ∉ marks) : cutAt marks s = (s, []) := by
  have hpass : ∀ c ∈ s, passes marks c = true := fun c hc => decide_eq_true (h c hc)
  rw [cutAt, List.takeWhile_eq_self_iff.mpr hpass, List.dropWhile_eq_nil_iff.mpr hpass]

theorem schemePart_append {scheme rest : List Char} (hne : scheme ≠ [])
    (hscheme : ∀ c ∈ scheme, c ∉ [':', '/', '?', '#']) :
    schemePart (scheme ++ ':' :: rest) = (some scheme, rest) := by
  obtain ⟨c, front, rfl⟩ := List.exists_cons_of_ne_nil hne
  rw [schemePart, cutAt_append hscheme (List.mem_cons_self ..)]
  rfl

theorem authorityPart_append {authority rest : List Char}
    (hauthority : ∀ c ∈ authority, c ∉ ['/', '?', '#']) :
    authorityPart ('/' :: '/' :: (authority ++ '/' :: rest)) =
      (some authority, '/' :: rest) := by
  rw [authorityPart, cutAt_append hauthority (List.mem_cons_self ..)]

/-- **A reference with every part but a fragment comes apart into its parts.** -/
theorem split_append {scheme authority path query : List Char} (hne : scheme ≠ [])
    (hscheme : ∀ c ∈ scheme, c ∉ [':', '/', '?', '#'])
    (hauthority : ∀ c ∈ authority, c ∉ ['/', '?', '#']) (hpath : ∀ c ∈ path, c ∉ ['?', '#'])
    (hquery : '#' ∉ query) :
    split (scheme ++ ':' :: ('/' :: '/' :: (authority ++ '/' :: path)) ++ '?' :: query) =
      ⟨some scheme, some authority, '/' :: path, some query, none⟩ := by
  have hslashed : ∀ c ∈ '/' :: path, c ∉ ['?', '#'] := by
    intro c hc
    rcases List.mem_cons.mp hc with hslash | hin
    · subst hslash
      decide
    · exact hpath c hin
  have hwhole : ∀ c ∈ query, c ∉ ['#'] := by
    intro c hc hmark
    exact hquery (List.mem_singleton.mp hmark ▸ hc)
  have hshape : scheme ++ ':' :: ('/' :: '/' :: (authority ++ '/' :: path)) ++ '?' :: query =
      scheme ++ ':' :: ('/' :: '/' :: (authority ++ '/' :: (path ++ '?' :: query))) := by
    simp only [List.append_assoc, List.cons_append]
  have hcut : cutAt ['?', '#'] ('/' :: (path ++ '?' :: query)) = ('/' :: path, '?' :: query) :=
    cutAt_append hslashed (List.mem_cons_self ..)
  rw [hshape]
  simp only [split, schemePart_append hne hscheme, authorityPart_append hauthority, hcut, queryPart,
    cutAt_all hwhole, fragmentPart]

/-- A host with none of the marks of an authority is the whole of it. -/
theorem splitAuthority_host {host : List Char} (h : ∀ c ∈ host, c ∉ ['@', ':', '[']) :
    splitAuthority host = ⟨none, host, none⟩ := by
  have hat : ∀ c ∈ host, c ∉ ['@'] := by
    intro c hc hmark
    exact h c hc (List.mem_cons.mpr (Or.inl (List.mem_singleton.mp hmark)))
  have hcolon : ∀ c ∈ host, c ∉ [':'] := by
    intro c hc hmark
    rw [List.mem_singleton.mp hmark] at hc
    exact h ':' hc (by decide)
  have hbracket : ∀ s, host ≠ '[' :: s := by
    intro s hs
    exact h '[' (hs ▸ List.mem_cons_self ..) (by decide)
  have huser : userInfoPart host = (none, host) := by
    rw [userInfoPart, cutAt_all hat]
  have hport : hostPort host = (host, none) := by
    unfold hostPort
    split
    next s => exact absurd rfl (hbracket s)
    next =>
      rw [cutAt_all hcolon]
      rfl
  simp only [splitAuthority, huser, hport]

end OpenWebId.Lib.Rfc3986
