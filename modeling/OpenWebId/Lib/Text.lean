import Mathlib

/-!
# Text as Python's `str` and `bytes` treat it

A text is a `String`, a sequence of Unicode scalar values. This file holds the
operations of `str` and `bytes` that code working at the byte level leans on, as
definitions that follow their documentation: `strip`, UTF-8 encoding, decoding with
`errors="replace"` in ASCII and in UTF-8, splitting at a character, and the decimal
forms that `"{0}".format(n)` writes and `int(text)` reads.

The facts beside them are the ones byte formats need: how long a text is when
encoded and when a zero byte can occur, that ASCII survives either codec, that a
count written in decimal reads back, in as many digits as it has or in a fixed number
of them, and that splitting finds the separator it was joined with.
-/

namespace OpenWebId.Lib

/-! ## White space -/

/-- `str.isspace` on one character: the Unicode white space and the four
information separators. -/
def isSpace (c : Char) : Bool :=
  let n := c.toNat
  (9 ≤ n && n ≤ 13) || (28 ≤ n && n ≤ 32) || n == 0x85 || n == 0xA0 || n == 0x1680 ||
    (0x2000 ≤ n && n ≤ 0x200A) || n == 0x2028 || n == 0x2029 || n == 0x202F ||
    n == 0x205F || n == 0x3000

/-- Drops the characters from both ends while they satisfy `p`. -/
def stripList {α : Type} (p : α → Bool) (s : List α) : List α :=
  ((s.dropWhile p).reverse.dropWhile p).reverse

/-- `str.strip()`. -/
def strip (s : String) : String := String.ofList (stripList isSpace s.toList)

theorem dropWhile_of_not {α : Type} {p : α → Bool} {s : List α} (h : ∀ c ∈ s, p c = false) :
    s.dropWhile p = s := by
  cases s with
  | nil => rfl
  | cons c s => exact List.dropWhile_cons_of_neg (by simp [h c (List.mem_cons_self ..)])

/-- What is around a list is stripped from it, and no more. -/
theorem stripList_around {α : Type} {p : α → Bool} {before s after : List α}
    (hbefore : ∀ c ∈ before, p c = true) (hs : ∀ c ∈ s, p c = false)
    (hafter : ∀ c ∈ after, p c = true) : stripList p (before ++ (s ++ after)) = s := by
  rw [stripList, List.dropWhile_append_of_pos hbefore]
  cases s with
  | nil =>
    rw [List.nil_append, List.dropWhile_eq_nil_iff.mpr hafter]
    rfl
  | cons c s =>
    have hc : ¬ p c = true := by simp [hs c (List.mem_cons_self ..)]
    rw [List.cons_append, List.dropWhile_cons_of_neg hc, ← List.cons_append, List.reverse_append,
      List.dropWhile_append_of_pos fun d hd => hafter d (List.mem_reverse.mp hd),
      dropWhile_of_not fun d hd => hs d (List.mem_reverse.mp hd), List.reverse_reverse]

theorem stripList_eq_self {α : Type} {p : α → Bool} {s : List α}
    (h : ∀ c ∈ s, p c = false) : stripList p s = s := by
  rw [stripList, dropWhile_of_not h, dropWhile_of_not fun c hc => h c (List.mem_reverse.mp hc),
    List.reverse_reverse]

/-- A text with no white space is its own `strip`. -/
theorem strip_eq_self {s : String} (h : ∀ c ∈ s.toList, isSpace c = false) :
    strip s = s := by
  rw [strip, stripList_eq_self h, String.ofList_toList]

/-- A text with white space around it is stripped to the text. -/
theorem strip_around {before s after : List Char} (hbefore : ∀ c ∈ before, isSpace c = true)
    (hs : ∀ c ∈ s, isSpace c = false) (hafter : ∀ c ∈ after, isSpace c = true) :
    strip (String.ofList (before ++ (s ++ after))) = String.ofList s := by
  rw [strip, String.toList_ofList, stripList_around hbefore hs hafter]

/-! ## Encoding -/

/-- `str.encode("utf-8")`. -/
def encodeUtf8 (s : String) : List UInt8 := s.toList.flatMap String.utf8EncodeChar

/-- Whether every character of the text is below 0x80. -/
def IsAscii (s : String) : Prop := ∀ c ∈ s.toList, c.toNat < 0x80

instance (s : String) : Decidable (IsAscii s) := List.decidableBAll _ _

/-- A test of every character says it of every character. -/
theorem ascii_of_all {l : List Char} (h : l.all (fun c => decide (c.toNat < 0x80)) = true) :
    ∀ c ∈ l, c.toNat < 0x80 := by
  intro c hc
  exact of_decide_eq_true (List.all_eq_true.mp h c hc)

theorem encodeChar_ascii {c : Char} (h : c.toNat < 0x80) :
    String.utf8EncodeChar c = [UInt8.ofNat c.toNat] := by
  have hc : c.val.toNat ≤ 127 := Nat.le_of_lt_succ h
  simp only [String.utf8EncodeChar, if_pos hc]
  rfl

/-- Encoded, an ASCII text is one byte a character. -/
theorem encodeUtf8_ascii {s : String} (h : IsAscii s) :
    encodeUtf8 s = s.toList.map fun c => UInt8.ofNat c.toNat := by
  have hlist : ∀ l : List Char, (∀ c ∈ l, c.toNat < 0x80) →
      l.flatMap String.utf8EncodeChar = l.map fun c => UInt8.ofNat c.toNat := by
    intro l
    induction l with
    | nil => intro _; rfl
    | cons c cs ih =>
      intro hl
      rw [List.flatMap_cons, List.map_cons, encodeChar_ascii (hl c (List.mem_cons_self ..)),
        ih fun d hd => hl d (List.mem_cons_of_mem _ hd), List.singleton_append]
  exact hlist s.toList h

theorem length_encodeChar_pos (c : Char) : 0 < (String.utf8EncodeChar c).length := by
  simp only [String.utf8EncodeChar]
  split
  · simp
  · split
    · simp
    · split <;> simp

/-- Encoding never shortens a text. -/
theorem length_le_encodeUtf8 (s : String) : s.toList.length ≤ (encodeUtf8 s).length := by
  unfold encodeUtf8
  induction s.toList with
  | nil => exact Nat.le_refl _
  | cons c cs ih =>
    have hc := length_encodeChar_pos c
    rw [List.flatMap_cons, List.length_append, List.length_cons]
    omega

/-- Encoded, a text is the bytes it is held in. -/
theorem toByteArray_encodeUtf8 (s : String) : (encodeUtf8 s).toByteArray = s.toByteArray := by
  have h : (String.ofList s.toList).toByteArray = s.toList.utf8Encode := String.toByteArray_ofList
  rw [String.ofList_toList] at h
  exact h.symm

/-- **No two texts are encoded alike.** -/
theorem encodeUtf8_injective {s t : String} (h : encodeUtf8 s = encodeUtf8 t) : s = t := by
  apply String.toByteArray_inj.mp
  rw [← toByteArray_encodeUtf8, ← toByteArray_encodeUtf8, h]

/-- `bytes.decode("utf-8")`, `none` where it raises `UnicodeDecodeError`. -/
def decodeUtf8Strict (bs : List UInt8) : Option String := String.fromUTF8? bs.toByteArray

/-- Every text is decoded from what it was encoded to. -/
theorem decodeUtf8Strict_encodeUtf8 (s : String) : decodeUtf8Strict (encodeUtf8 s) = some s := by
  rw [decodeUtf8Strict, toByteArray_encodeUtf8, String.fromUTF8?, dif_pos s.isValidUTF8]
  rfl

/-! ## Decoding with replacement -/

/-- The character `errors="replace"` stands in for what cannot be decoded. -/
def replacement : Char := Char.ofNat 0xFFFD

/-- One byte of `bytes.decode("ascii", errors="replace")`. -/
def decodeAsciiByte (b : UInt8) : Char :=
  if b.toNat < 0x80 then Char.ofNat b.toNat else replacement

/-- `bytes.decode("ascii", errors="replace")`. -/
def decodeAscii (bs : List UInt8) : String := String.ofList (bs.map decodeAsciiByte)

@[simp] theorem toList_decodeAscii (bs : List UInt8) :
    (decodeAscii bs).toList = bs.map decodeAsciiByte := by
  simp [decodeAscii]

theorem toNat_ofNat_of_lt_128 {n : Nat} (h : n < 0x80) : (Char.ofNat n).toNat = n := by
  have hv : n.isValidChar := Or.inl (by omega)
  simp only [Char.ofNat, dif_pos hv]
  rfl

theorem toNat_decodeAsciiByte {b : UInt8} (h : b.toNat < 0x80) :
    (decodeAsciiByte b).toNat = b.toNat := by
  rw [decodeAsciiByte, if_pos h, toNat_ofNat_of_lt_128 h]

/-- A decoded text is ASCII exactly when every byte of it was. -/
theorem isAscii_decodeAscii {bs : List UInt8} :
    IsAscii (decodeAscii bs) ↔ ∀ b ∈ bs, b.toNat < 0x80 := by
  simp only [IsAscii, toList_decodeAscii, List.mem_map]
  constructor
  · intro h b hb
    by_cases hlow : b.toNat < 0x80
    · exact hlow
    · have hr := h _ ⟨b, hb, rfl⟩
      rw [decodeAsciiByte, if_neg hlow] at hr
      exact absurd hr (by decide)
  · intro h c hc
    obtain ⟨b, hb, rfl⟩ := hc
    rw [toNat_decodeAsciiByte (h b hb)]
    exact h b hb

/-- Encoding inverts ASCII decoding on ASCII bytes. -/
theorem encodeUtf8_decodeAscii {bs : List UInt8} (h : ∀ b ∈ bs, b.toNat < 0x80) :
    encodeUtf8 (decodeAscii bs) = bs := by
  rw [encodeUtf8_ascii (isAscii_decodeAscii.mpr h), toList_decodeAscii, List.map_map]
  refine (List.map_congr_left fun b hb => ?_).trans (List.map_id bs)
  rw [Function.comp_apply, toNat_decodeAsciiByte (h b hb), UInt8.ofNat_toNat, id_eq]

/-- ASCII decoding inverts encoding on ASCII texts. -/
theorem decodeAscii_encodeUtf8 {s : String} (h : IsAscii s) :
    decodeAscii (encodeUtf8 s) = s := by
  rw [decodeAscii, encodeUtf8_ascii h, List.map_map]
  have hid : s.toList.map (decodeAsciiByte ∘ fun c => UInt8.ofNat c.toNat) = s.toList := by
    refine (List.map_congr_left fun c hc => ?_).trans (List.map_id _)
    have hc' := h c hc
    have hb : (UInt8.ofNat c.toNat).toNat = c.toNat := by
      rw [UInt8.toNat_ofNat']
      omega
    rw [Function.comp_apply, decodeAsciiByte, hb, if_pos hc', Char.ofNat_toNat, id_eq]
  rw [hid, String.ofList_toList]

/-- Written again, a byte that was decoded is itself, or the three bytes of the
replacement character. -/
theorem encodeChar_decodeAsciiByte (b : UInt8) :
    String.utf8EncodeChar (decodeAsciiByte b) =
      if b.toNat < 0x80 then [b] else [0xEF, 0xBF, 0xBD] := by
  by_cases hlow : b.toNat < 0x80
  · have hascii : (decodeAsciiByte b).toNat < 0x80 := by
      rw [toNat_decodeAsciiByte hlow]
      exact hlow
    rw [if_pos hlow, encodeChar_ascii hascii, toNat_decodeAsciiByte hlow, UInt8.ofNat_toNat]
  · rw [if_neg hlow, decodeAsciiByte, if_neg hlow]
    rfl

theorem encodeUtf8_decodeAscii_cons (b : UInt8) (bs : List UInt8) :
    encodeUtf8 (decodeAscii (b :: bs)) =
      (if b.toNat < 0x80 then [b] else [0xEF, 0xBF, 0xBD]) ++ encodeUtf8 (decodeAscii bs) := by
  rw [encodeUtf8, encodeUtf8, toList_decodeAscii, toList_decodeAscii, List.map_cons,
    List.flatMap_cons, encodeChar_decodeAsciiByte]

/-- **Each byte at or above 0x80 is written again as three.** -/
theorem length_encodeUtf8_decodeAscii (bs : List UInt8) :
    (encodeUtf8 (decodeAscii bs)).length =
      bs.length + 2 * bs.countP fun b => decide (0x80 ≤ b.toNat) := by
  induction bs with
  | nil => rfl
  | cons b bs ih =>
    rw [encodeUtf8_decodeAscii_cons, List.length_append, ih, List.length_cons, List.countP_cons]
    by_cases hlow : b.toNat < 0x80
    · have hhigh : ¬ 0x80 ≤ b.toNat := Nat.not_le.mpr hlow
      simp only [if_pos hlow, List.length_singleton, decide_eq_true_eq, if_neg hhigh]
      omega
    · have hhigh : 0x80 ≤ b.toNat := Nat.not_lt.mp hlow
      simp only [if_neg hlow, List.length_cons, List.length_nil, decide_eq_true_eq, if_pos hhigh]
      omega

/-- Re-encoding a decoded text is strictly longer as soon as one byte was not ASCII. -/
theorem length_lt_encodeUtf8_decodeAscii {bs : List UInt8} (h : ∃ b ∈ bs, 0x80 ≤ b.toNat) :
    bs.length < (encodeUtf8 (decodeAscii bs)).length := by
  have hpos : 0 < bs.countP fun b => decide (0x80 ≤ b.toNat) := by
    obtain ⟨b, hb, hhigh⟩ := h
    exact List.countP_pos_iff.mpr ⟨b, hb, decide_eq_true hhigh⟩
  rw [length_encodeUtf8_decodeAscii]
  omega

/-- A text decoded from bytes with no zero among them is written with none. -/
theorem zero_notMem_encodeUtf8_decodeAscii {bs : List UInt8} (h : 0 ∉ bs) :
    0 ∉ encodeUtf8 (decodeAscii bs) := by
  induction bs with
  | nil => exact List.not_mem_nil
  | cons b bs ih =>
    have hb : (0 : UInt8) ≠ b := fun he => h (he ▸ List.mem_cons_self ..)
    have hrest : 0 ∉ bs := fun hm => h (List.mem_cons_of_mem _ hm)
    rw [encodeUtf8_decodeAscii_cons, List.mem_append, not_or]
    refine ⟨?_, ih hrest⟩
    split
    · exact fun hm => hb (List.mem_singleton.mp hm)
    · decide

/-- How many of the next `n` bytes continue a UTF-8 sequence, the first of them
within `lo..hi`. -/
def continuations : (n : Nat) → (lo hi : UInt8) → List UInt8 → Nat
  | 0, _, _, _ => 0
  | _ + 1, _, _, [] => 0
  | n + 1, lo, hi, b :: bs =>
    if lo ≤ b ∧ b ≤ hi then 1 + continuations n 0x80 0xBF bs else 0

/-- How many continuation bytes a lead byte calls for and the range of the first of
them, or `none` where no sequence starts with the byte. -/
def leadByte (b : UInt8) : Option (Nat × UInt8 × UInt8) :=
  if 0xC2 ≤ b ∧ b ≤ 0xDF then some (1, 0x80, 0xBF)
  else if b = 0xE0 then some (2, 0xA0, 0xBF)
  else if b = 0xED then some (2, 0x80, 0x9F)
  else if 0xE1 ≤ b ∧ b ≤ 0xEF then some (2, 0x80, 0xBF)
  else if b = 0xF0 then some (3, 0x90, 0xBF)
  else if b = 0xF4 then some (3, 0x80, 0x8F)
  else if 0xF1 ≤ b ∧ b ≤ 0xF3 then some (3, 0x80, 0xBF)
  else none

/-- `bytes.decode("utf-8", errors="replace")`: each maximal part of a sequence that
does not complete becomes one replacement character. -/
def decodeUtf8List : List UInt8 → List Char
  | [] => []
  | b :: rest =>
    if b.toNat < 0x80 then Char.ofNat b.toNat :: decodeUtf8List rest
    else
      match leadByte b with
      | none => replacement :: decodeUtf8List rest
      | some (n, lo, hi) =>
        let k := continuations n lo hi rest
        let char := if k = n then
            Char.ofNat ((rest.take n).foldl (fun acc c => acc * 64 + c.toNat % 64)
              (b.toNat % 2 ^ (6 - n)))
          else replacement
        char :: decodeUtf8List (rest.drop k)
  termination_by bs => bs.length
  decreasing_by all_goals (simp only [List.length_cons, List.length_drop]; omega)

def decodeUtf8 (bs : List UInt8) : String := String.ofList (decodeUtf8List bs)

theorem decodeUtf8List_ascii : ∀ {s : List Char}, (∀ c ∈ s, c.toNat < 0x80) →
    decodeUtf8List (s.map fun c => UInt8.ofNat c.toNat) = s
  | [], _ => by rw [List.map_nil, decodeUtf8List]
  | c :: cs, h => by
    have hc := h c (List.mem_cons_self ..)
    have hb : (UInt8.ofNat c.toNat).toNat = c.toNat := by
      rw [UInt8.toNat_ofNat']
      omega
    rw [List.map_cons, decodeUtf8List, hb, if_pos hc, Char.ofNat_toNat,
      decodeUtf8List_ascii fun d hd => h d (List.mem_cons_of_mem _ hd)]

/-! ## Splitting at a character -/

/-- The text before the first occurrence of a character, the whole text where it
does not occur: `text.split(sep, 1)[0]`. -/
def beforeFirst {α : Type} [DecidableEq α] (sep : α) (s : List α) : List α :=
  s.takeWhile (· ≠ sep)

/-- The text after the first occurrence of a character, empty where it does not
occur. -/
def afterFirst {α : Type} [DecidableEq α] (sep : α) (s : List α) : List α :=
  (s.dropWhile (· ≠ sep)).tail

/-- `text.split(sep)`. -/
def splitOn {α : Type} [DecidableEq α] (sep : α) : List α → List (List α)
  | [] => [[]]
  | c :: cs =>
    if c = sep then [] :: splitOn sep cs
    else
      match splitOn sep cs with
      | [] => [[c]]
      | part :: parts => (c :: part) :: parts

/-- The characters of a text without the separator pass the test for another one. -/
theorem ne_of_notMem {α : Type} [DecidableEq α] {sep : α} {s : List α} (h : sep ∉ s) :
    ∀ c ∈ s, decide (c ≠ sep) = true := by
  intro c hc
  exact decide_eq_true fun he => h (he ▸ hc)

theorem beforeFirst_append {α : Type} [DecidableEq α] {sep : α} {s t : List α}
    (h : sep ∉ s) : beforeFirst sep (s ++ sep :: t) = s := by
  rw [beforeFirst, List.takeWhile_append_of_pos (ne_of_notMem h),
    List.takeWhile_cons_of_neg (by simp), List.append_nil]

theorem beforeFirst_of_notMem {α : Type} [DecidableEq α] {sep : α} {s : List α}
    (h : sep ∉ s) : beforeFirst sep s = s := by
  have happ : (s ++ []).takeWhile _ = s ++ [].takeWhile _ :=
    List.takeWhile_append_of_pos (ne_of_notMem h)
  rwa [List.append_nil, List.takeWhile_nil, List.append_nil] at happ

theorem afterFirst_append {α : Type} [DecidableEq α] {sep : α} {s t : List α}
    (h : sep ∉ s) : afterFirst sep (s ++ sep :: t) = t := by
  rw [afterFirst, List.dropWhile_append_of_pos (ne_of_notMem h),
    List.dropWhile_cons_of_neg (by simp), List.tail_cons]

/-- The first separator tells the two parts around it apart. -/
theorem append_sep_inj {α : Type} [DecidableEq α] {sep : α} {a b s t : List α} (ha : sep ∉ a)
    (hb : sep ∉ b) (h : a ++ sep :: s = b ++ sep :: t) : a = b ∧ s = t := by
  have hfront := congrArg (beforeFirst sep) h
  have hback := congrArg (afterFirst sep) h
  rw [beforeFirst_append ha, beforeFirst_append hb] at hfront
  rw [afterFirst_append ha, afterFirst_append hb] at hback
  exact ⟨hfront, hback⟩

theorem splitOn_of_notMem {α : Type} [DecidableEq α] {sep : α} :
    ∀ {s : List α}, sep ∉ s → splitOn sep s = [s]
  | [], _ => rfl
  | c :: cs, h => by
    have hc : c ≠ sep := fun he => h (he ▸ List.mem_cons_self ..)
    have hcs : sep ∉ cs := fun hm => h (List.mem_cons_of_mem _ hm)
    rw [splitOn, if_neg hc, splitOn_of_notMem hcs]

theorem splitOn_append {α : Type} [DecidableEq α] {sep : α} {t : List α} :
    ∀ {s : List α}, sep ∉ s → splitOn sep (s ++ sep :: t) = s :: splitOn sep t
  | [], _ => by rw [List.nil_append, splitOn, if_pos rfl]
  | c :: cs, h => by
    have hc : c ≠ sep := fun he => h (he ▸ List.mem_cons_self ..)
    have hcs : sep ∉ cs := fun hm => h (List.mem_cons_of_mem _ hm)
    rw [List.cons_append, splitOn, if_neg hc, splitOn_append hcs]

/-! ## Decimal counts -/

/-- `sys.get_int_max_str_digits()`: `int(text)` refuses a longer run of digits. -/
def intMaxStrDigits : Nat := 4300

/-- Digits with single underscores between them, as `int(text)` allows. -/
def isDigitRun : List Char → Bool
  | [] => false
  | [c] => c.isDigit
  | c :: '_' :: cs => c.isDigit && isDigitRun cs
  | c :: cs => c.isDigit && isDigitRun cs

/-- The value of a run of digits, or `none` where `int(text)` raises `ValueError`. -/
def unsignedOfText (s : List Char) : Option Nat :=
  let digits := s.filter (· ≠ '_')
  if isDigitRun s ∧ digits.length ≤ intMaxStrDigits then
    some (Nat.ofDigitChars 10 digits 0)
  else none

/-- `int(text)` over ASCII: white space around, an optional sign, and digits. -/
def intOfText (s : String) : Option Int :=
  match (strip s).toList with
  | '-' :: digits => (unsignedOfText digits).map fun n : Nat => -(n : Int)
  | '+' :: digits => (unsignedOfText digits).map fun n : Nat => (n : Int)
  | digits => (unsignedOfText digits).map fun n : Nat => (n : Int)

theorem isDigitRun_of_isDigit : ∀ {s : List Char}, s ≠ [] → (∀ c ∈ s, c.isDigit) →
    isDigitRun s = true
  | [], hne, _ => absurd rfl hne
  | [c], _, h => h c (List.mem_cons_self ..)
  | c :: d :: cs, _, h => by
    have hc := h c (List.mem_cons_self ..)
    have hd := h d (List.mem_cons_of_mem _ (List.mem_cons_self ..))
    have hrest : isDigitRun (d :: cs) = true :=
      isDigitRun_of_isDigit (List.cons_ne_nil _ _) fun e he => h e (List.mem_cons_of_mem _ he)
    by_cases hu : d = '_'
    · subst hu
      exact absurd hd (by decide)
    · rw [isDigitRun]
      · rw [hc, hrest, Bool.and_true]
      · simp
      · intro _ he
        exact hu (List.cons.inj he).1

theorem isDigit_of_mem_repr {n : Nat} {c : Char} (h : c ∈ (toString n).toList) :
    c.isDigit = true := by
  rw [Nat.toString_eq_repr, Nat.toList_repr] at h
  exact Nat.isDigit_of_mem_toDigits (by decide) (by decide) h

theorem repr_ne_nil (n : Nat) : (toString n).toList ≠ [] := by
  rw [Nat.toString_eq_repr, Nat.toList_repr]
  exact Nat.toDigits_ne_nil

/-- A run of digits is read for its value, as far as `int`'s limit on digits. -/
theorem unsignedOfText_of_isDigit {s : List Char} (hne : s ≠ [])
    (h : ∀ c ∈ s, c.isDigit = true) :
    unsignedOfText s = if s.length ≤ intMaxStrDigits then some (Nat.ofDigitChars 10 s 0)
      else none := by
  have hfilter : s.filter (· ≠ '_') = s := by
    refine List.filter_eq_self.mpr fun c hc => ?_
    have hd := h c hc
    simp only [ne_eq, decide_not, Bool.not_eq_eq_eq_not, Bool.not_true, decide_eq_false_iff_not]
    rintro rfl
    exact absurd hd (by decide)
  unfold unsignedOfText
  simp only [hfilter, isDigitRun_of_isDigit hne h, true_and]

/-- **A count written in decimal reads back**, up to `int`'s limit on digits. -/
theorem unsignedOfText_toString {n : Nat} (h : n < 10 ^ intMaxStrDigits) :
    unsignedOfText (toString n).toList = some n := by
  have hdigits : ∀ c ∈ (toString n).toList, c.isDigit = true := fun c hc =>
    isDigit_of_mem_repr hc
  have hlen : (toString n).toList.length ≤ intMaxStrDigits := by
    rw [Nat.toString_eq_repr, Nat.toList_repr]
    exact (Nat.length_toDigits_le_iff (by decide) (by decide)).mpr h
  rw [unsignedOfText_of_isDigit (repr_ne_nil n) hdigits, if_pos hlen,
    Nat.toString_eq_repr, Nat.toList_repr, Nat.ofDigitChars_ten_toDigits]

/-- The printable ASCII characters are not white space. -/
theorem isSpace_of_printable {c : Char} (hlow : 33 ≤ c.toNat) (hhigh : c.toNat < 0x80) :
    isSpace c = false := by
  simp only [isSpace, Bool.or_eq_false_iff, Bool.and_eq_false_iff, decide_eq_false_iff_not,
    beq_eq_false_iff_ne]
  omega

theorem isSpace_of_isDigit {c : Char} (h : c.isDigit = true) : isSpace c = false := by
  simp only [Char.isDigit, Bool.and_eq_true, decide_eq_true_eq, ge_iff_le] at h
  have h1 : 48 ≤ c.toNat := UInt32.le_iff_toNat_le.mp h.1
  have h2 : c.toNat ≤ 57 := UInt32.le_iff_toNat_le.mp h.2
  exact isSpace_of_printable (by omega) (by omega)

/-- `int(str(n))` is `n`. -/
theorem intOfText_toString {n : Nat} (h : n < 10 ^ intMaxStrDigits) :
    intOfText (toString n) = some (n : Int) := by
  have hdigits : ∀ c ∈ (toString n).toList, c.isDigit = true := fun c hc =>
    isDigit_of_mem_repr hc
  have hstrip : strip (toString n) = toString n :=
    strip_eq_self fun c hc => isSpace_of_isDigit (hdigits c hc)
  have hread := unsignedOfText_toString h
  rw [intOfText, hstrip]
  split
  next heq =>
    have := hdigits '-' (heq ▸ List.mem_cons_self ..)
    exact absurd this (by decide)
  next heq =>
    have := hdigits '+' (heq ▸ List.mem_cons_self ..)
    exact absurd this (by decide)
  next => rw [hread, Option.map_some]

/-! ## Numbers of a fixed width -/

/-- The last `width` decimal digits of a number, with zeros in front. -/
def digitsOf : Nat → Nat → List Char
  | 0, _ => []
  | width + 1, n => digitsOf width (n / 10) ++ [Nat.digitChar (n % 10)]

/-- The number that `width` digits at the front of a text name, and what follows them. -/
def number (width : Nat) (text : List Char) : Option (Nat × List Char) :=
  if (text.take width).length = width ∧ (text.take width).all Char.isDigit then
    some (Nat.ofDigitChars 10 (text.take width) 0, text.drop width)
  else none

@[simp] theorem length_digitsOf (width n : Nat) : (digitsOf width n).length = width := by
  induction width generalizing n with
  | zero => rfl
  | succ width ih => rw [digitsOf, List.length_append, ih, List.length_singleton]

theorem isDigit_of_mem_digitsOf {width n : Nat} {c : Char} (h : c ∈ digitsOf width n) :
    c.isDigit = true := by
  induction width generalizing n with
  | zero => cases h
  | succ width ih =>
    rw [digitsOf, List.mem_append] at h
    rcases h with hfront | hlast
    · exact ih hfront
    · rw [List.mem_singleton.mp hlast, Nat.isDigit_digitChar]
      exact decide_eq_true (Nat.mod_lt n (by decide))

theorem ofDigitChars_digitsOf {width n : Nat} (h : n < 10 ^ width) :
    Nat.ofDigitChars 10 (digitsOf width n) 0 = n := by
  induction width generalizing n with
  | zero =>
    rw [Nat.pow_zero] at h
    exact (Nat.lt_one_iff.mp h).symm
  | succ width ih =>
    have hfront : n / 10 < 10 ^ width := by
      rw [Nat.pow_succ] at h
      omega
    have hdigit : n % 10 < 10 := Nat.mod_lt n (by decide)
    rw [digitsOf, Nat.ofDigitChars_append, ih hfront,
      Nat.ofDigitChars_cons_digitChar_of_lt_ten hdigit, Nat.ofDigitChars_nil]
    omega

/-- **A number of a fixed width reads back**, whatever follows it. -/
theorem number_digitsOf {width n : Nat} (h : n < 10 ^ width) (rest : List Char) :
    number width (digitsOf width n ++ rest) = some (n, rest) := by
  have htake : (digitsOf width n ++ rest).take width = digitsOf width n :=
    List.take_left' (length_digitsOf width n)
  have hdrop : (digitsOf width n ++ rest).drop width = rest :=
    List.drop_left' (length_digitsOf width n)
  have hall : (digitsOf width n).all Char.isDigit = true :=
    List.all_eq_true.mpr fun c hc => isDigit_of_mem_digitsOf hc
  unfold number
  rw [htake, hdrop, if_pos ⟨length_digitsOf width n, hall⟩, ofDigitChars_digitsOf h]

end OpenWebId.Lib
