import OpenWebId.Lib.Text

/-!
# URLs and their queries

The parts of Python's `urllib.parse` that read a URL: `urlsplit` as far as the scheme
and the query, `unquote_plus`, and `parse_qsl`. Texts are lists of characters.

`urlsplit` also refuses brackets that do not pair in the network location; the texts
it is used on have none, and that refusal is not modelled.

`parseQsl_two` and `unquotePlus_plain` are how a query of plain names and values is
read back without evaluating any of it.
-/

namespace OpenWebId.Lib.Url

/-- The characters `urlsplit` strips from the front. -/
def isControlOrSpace (c : Char) : Bool := decide (c.toNat ≤ 0x20)

/-- The characters `urlsplit` removes wherever they stand. -/
def isRemoved (c : Char) : Bool := c == '\t' || c == '\r' || c == '\n'

/-- The text `urlsplit` looks at. -/
def cleaned (url : List Char) : List Char :=
  (url.dropWhile isControlOrSpace).filter fun c => !isRemoved c

/-- `scheme_chars`. -/
def isSchemeChar (c : Char) : Bool := c.isAlphanum || c == '+' || c == '-' || c == '.'

/-- `urlsplit(url).scheme`, in lower case. -/
def schemeOf (url : List Char) : List Char :=
  let text := cleaned url
  let front := beforeFirst ':' text
  if ':' ∈ text ∧ (front.head?.any Char.isAlpha) ∧ front.all isSchemeChar then
    front.map Char.toLower
  else []

/-- `urlsplit(url).query`. -/
def queryOf (url : List Char) : List Char := afterFirst '?' (beforeFirst '#' (cleaned url))

/-- The value of a hexadecimal digit. -/
def hexValue (c : Char) : Option Nat :=
  if '0' ≤ c ∧ c ≤ '9' then some (c.toNat - 48)
  else if 'a' ≤ c ∧ c ≤ 'f' then some (c.toNat - 87)
  else if 'A' ≤ c ∧ c ≤ 'F' then some (c.toNat - 55)
  else none

/-- `unquote`: the bytes of each run of ASCII, its escapes among them, are decoded
together as UTF-8 with replacement. `run` holds the run so far, last byte first. -/
def unquote (run : List UInt8) : List Char → List Char
  | [] => decodeUtf8List run.reverse
  | '%' :: a :: b :: rest =>
    match hexValue a, hexValue b with
    | some high, some low => unquote (UInt8.ofNat (high * 16 + low) :: run) rest
    | _, _ => unquote (UInt8.ofNat '%'.toNat :: run) (a :: b :: rest)
  | c :: rest =>
    if c.toNat < 0x80 then unquote (UInt8.ofNat c.toNat :: run) rest
    else decodeUtf8List run.reverse ++ c :: unquote [] rest

/-- `unquote(text.replace("+", " "))`. -/
def unquotePlus (s : List Char) : String :=
  String.ofList (unquote [] (s.map fun c => if c = '+' then ' ' else c))

/-- The name and the value of one part of a query, where it has a value. -/
def pairOf (part : List Char) : Option (String × String) :=
  let value := afterFirst '=' part
  if value = [] then none else some (unquotePlus (beforeFirst '=' part), unquotePlus value)

/-- `parse_qsl(query)`, which leaves out the parts with no value. -/
def parseQsl (query : List Char) : List (String × String) :=
  (splitOn '&' query).filterMap pairOf

/-! ## Reading a plain query back -/

/-- A character that stands for itself wherever it is read. -/
def IsPlain (c : Char) : Prop := 0x20 < c.toNat ∧ c.toNat < 0x80 ∧ c ≠ '%' ∧ c ≠ '+'

theorem toNat_of_isAlphanum {c : Char} (h : c.isAlphanum = true) :
    0x30 ≤ c.toNat ∧ c.toNat ≤ 0x7A := by
  simp only [Char.isAlphanum, Char.isAlpha, Char.isUpper, Char.isLower, Char.isDigit,
    Bool.or_eq_true, Bool.and_eq_true, decide_eq_true_eq, UInt32.le_iff_toNat_le,
    ge_iff_le] at h
  change (((65 ≤ c.toNat ∧ c.toNat ≤ 90) ∨ (97 ≤ c.toNat ∧ c.toNat ≤ 122)) ∨
    (48 ≤ c.toNat ∧ c.toNat ≤ 57)) at h
  omega

theorem IsPlain.of_isAlphanum {c : Char} (h : c.isAlphanum = true) : IsPlain c := by
  obtain ⟨hlow, hhigh⟩ := toNat_of_isAlphanum h
  refine ⟨by omega, by omega, ?_, ?_⟩
  · intro he
    subst he
    exact absurd h (by decide)
  · intro he
    subst he
    exact absurd h (by decide)

theorem unquote_cons {c : Char} {rest : List Char} (run : List UInt8) (h : IsPlain c) :
    unquote run (c :: rest) = unquote (UInt8.ofNat c.toNat :: run) rest := by
  rw [unquote.eq_def]
  split
  next heq => cases heq
  next heq => exact absurd (List.cons.inj heq).1 h.2.2.1
  next heq =>
    obtain ⟨hhead, htail⟩ := List.cons.inj heq
    subst hhead htail
    rw [if_pos h.2.1]

theorem unquote_plain : ∀ (s : List Char) (run : List UInt8), (∀ c ∈ s, IsPlain c) →
    unquote run s = decodeUtf8List (run.reverse ++ s.map fun c => UInt8.ofNat c.toNat)
  | [], run, _ => by simp [unquote]
  | c :: rest, run, h => by
    rw [unquote_cons run (h c (List.mem_cons_self ..)),
      unquote_plain rest _ fun d hd => h d (List.mem_cons_of_mem _ hd)]
    simp

/-- A plain text is its own unquoted form. -/
theorem unquotePlus_plain {s : List Char} (h : ∀ c ∈ s, IsPlain c) :
    unquotePlus s = String.ofList s := by
  have hmap : s.map (fun c => if c = '+' then ' ' else c) = s := by
    refine (List.map_congr_left fun c hc => ?_).trans (List.map_id s)
    rw [if_neg (h c hc).2.2.2, id_eq]
  rw [unquotePlus, hmap, unquote_plain s [] h, List.reverse_nil, List.nil_append,
    decodeUtf8List_ascii fun c hc => (h c hc).2.1]

/-- A part made of a plain name and a plain value is the pair of them. -/
theorem pairOf_plain {name value : List Char} (hname : ∀ c ∈ name, IsPlain c)
    (hvalue : ∀ c ∈ value, IsPlain c) (hne : value ≠ []) (heq : '=' ∉ name) :
    pairOf (name ++ '=' :: value) = some (String.ofList name, String.ofList value) := by
  simp only [pairOf, afterFirst_append heq, beforeFirst_append heq, if_neg hne,
    unquotePlus_plain hname, unquotePlus_plain hvalue]

/-- A query of two such parts is its two pairs. -/
theorem parseQsl_two {part part' : List Char} {pair pair' : String × String}
    (hpart : pairOf part = some pair) (hpart' : pairOf part' = some pair') (hand : '&' ∉ part)
    (hand' : '&' ∉ part') : parseQsl (part ++ '&' :: part') = [pair, pair'] := by
  rw [parseQsl, splitOn_append hand, splitOn_of_notMem hand', List.filterMap_cons_some hpart,
    List.filterMap_cons_some hpart', List.filterMap_nil]

theorem isRemoved_of_visible {c : Char} (h : 0x20 < c.toNat) : isRemoved c = false := by
  rw [isRemoved, Bool.or_eq_false_iff, Bool.or_eq_false_iff]
  refine ⟨⟨?_, ?_⟩, ?_⟩
  all_goals
    rw [beq_eq_false_iff_ne]
    intro he
    subst he
    exact absurd h (by decide)

theorem filter_visible {s : List Char} (h : ∀ c ∈ s, 0x20 < c.toNat) :
    s.filter (fun c => !isRemoved c) = s := by
  refine List.filter_eq_self.mpr fun c hc => ?_
  rw [isRemoved_of_visible (h c hc)]
  rfl

/-- Cleaning leaves a text alone from a visible character on, where what follows is
visible too. -/
theorem cleaned_append {c : Char} {t : List Char} (hc : 0x20 < c.toNat)
    (ht : ∀ d ∈ t, 0x20 < d.toNat) (s : List Char) :
    ∃ s', cleaned (s ++ c :: t) = s' ++ c :: t ∧ ∀ d ∈ s', d ∈ s := by
  have hvisible : ∀ d ∈ c :: t, 0x20 < d.toNat := by
    intro d hd
    rcases List.mem_cons.mp hd with hhead | htail
    · rw [hhead]
      exact hc
    · exact ht d htail
  have hstop : ¬ isControlOrSpace c = true := by
    rw [isControlOrSpace, decide_eq_true_iff]
    omega
  induction s with
  | nil =>
    refine ⟨[], ?_, fun d hd => hd⟩
    rw [List.nil_append, cleaned, List.dropWhile_cons_of_neg hstop, filter_visible hvisible]
  | cons d s ih =>
    by_cases hd : isControlOrSpace d = true
    · -- still in the part that is stripped from the front
      obtain ⟨s', hs', hmem⟩ := ih
      refine ⟨s', ?_, fun x hx => List.mem_cons_of_mem _ (hmem x hx)⟩
      rw [← hs', List.cons_append, cleaned, List.dropWhile_cons_of_pos hd]
      rfl
    · refine ⟨(d :: s).filter fun d => !isRemoved d, ?_, fun x hx => (List.mem_filter.mp hx).1⟩
      rw [List.cons_append, cleaned, List.dropWhile_cons_of_neg hd, ← List.cons_append,
        List.filter_append, filter_visible hvisible]

/-- The query of a text that has one, after a front with neither mark in it. -/
theorem queryOf_append {front query : List Char} (hmark : '?' ∉ front) (hhash : '#' ∉ front)
    (hquery : ∀ c ∈ query, 0x20 < c.toNat) (hhash' : '#' ∉ query) :
    queryOf (front ++ '?' :: query) = query := by
  have hvisible : 0x20 < '?'.toNat := by decide
  obtain ⟨front', hclean, hmem⟩ := cleaned_append hvisible hquery front
  have hno : '#' ∉ front' ++ '?' :: query := by
    intro h
    rcases List.mem_append.mp h with h | h
    · exact hhash (hmem _ h)
    · rcases List.mem_cons.mp h with h | h
      · exact absurd h (by decide)
      · exact hhash' h
  rw [queryOf, hclean, beforeFirst_of_notMem hno, afterFirst_append fun h => hmark (hmem _ h)]

theorem isAlpha_ne_colon {c : Char} (h : c.isAlpha = true) : c ≠ ':' := by
  intro he
  subst he
  exact absurd h (by decide)

/-- The scheme of a visible text that starts with letters and a colon. -/
theorem schemeOf_append {scheme rest : List Char} (hne : scheme ≠ [])
    (halpha : ∀ c ∈ scheme, c.isAlpha = true) (hrest : ∀ d ∈ rest, 0x20 < d.toNat) :
    schemeOf (scheme ++ ':' :: rest) = scheme.map Char.toLower := by
  have hcolon : ':' ∉ scheme := fun h => isAlpha_ne_colon (halpha _ h) rfl
  have halnum : ∀ c ∈ scheme, c.isAlphanum = true := fun c hc => by
    rw [Char.isAlphanum, halpha c hc, Bool.true_or]
  have hvisible : ∀ c ∈ scheme ++ ':' :: rest, 0x20 < c.toNat := by
    intro c hc
    rcases List.mem_append.mp hc with hs | hr
    · exact (IsPlain.of_isAlphanum (halnum c hs)).1
    · rcases List.mem_cons.mp hr with hhead | htail
      · rw [hhead]
        decide
      · exact hrest c htail
  have hclean : cleaned (scheme ++ ':' :: rest) = scheme ++ ':' :: rest := by
    cases scheme with
    | nil => exact absurd rfl hne
    | cons c scheme =>
      have hstop : ¬ isControlOrSpace c = true := by
        have := hvisible c (List.mem_cons_self ..)
        rw [isControlOrSpace, decide_eq_true_iff]
        omega
      rw [cleaned, List.cons_append, List.dropWhile_cons_of_neg hstop]
      exact filter_visible hvisible
  have hhead : scheme.head?.any Char.isAlpha = true := by
    cases scheme with
    | nil => exact absurd rfl hne
    | cons c scheme => exact halpha c (List.mem_cons_self ..)
  have hall : scheme.all isSchemeChar = true := by
    rw [List.all_eq_true]
    intro c hc
    rw [isSchemeChar, halnum c hc, Bool.true_or, Bool.true_or, Bool.true_or]
  simp only [schemeOf, hclean, beforeFirst_append hcolon]
  rw [if_pos ⟨by simp, hhead, hall⟩]

end OpenWebId.Lib.Url
