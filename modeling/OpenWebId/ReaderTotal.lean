import OpenWebId.Reader

/-!
# The raising reader on every buffer

`fromByteArrayOrRaise_agrees` compares the two readers where the domain is ASCII and the version
is one of the three. Over every buffer they part in two ways. The raising reader hands back an
OWID of its own for the marker of an absent one, and ignores what follows it, where `parse_bytes`
reports an absent node. And it decodes the domain as UTF-8, so it may raise where the other
replaces, and may read another text where it does not. `fromByteArrayOrRaise_total` says for each
status that `parse_bytes` reports what the raising reader does, and with it what it raises: an
`OwidError` always, but for the `OverflowError` of a date past the last moment.
-/

namespace OpenWebId

open Lib (toLE toBE ofLE ofBE decodeAscii)
open Parse (index slice)
open Owid (dateBytes)

/-- The read raises an `OwidError` here. -/
def Refuses {α : Type} (read : Read α) (r : Reader) : Prop :=
  ∃ message, read r = .error (.owidError message)

/-- Wherever the read raises, it raises an `OwidError`. -/
def Careful {α : Type} (read : Read α) : Prop :=
  ∀ r e, read r = .error e → ∃ message, e = .owidError message

section Raising

variable {α β : Type} {read : Read α} {next : α → Read β} {r : Reader}

theorem Careful.refuses (h : Careful read) (hraises : ∃ e, read r = .error e) :
    Refuses read r := by
  obtain ⟨e, he⟩ := hraises
  obtain ⟨message, rfl⟩ := h r e he
  exact ⟨message, he⟩

/-- What is sequenced of careful reads is careful. -/
theorem Careful.bind (h : Careful read) (hnext : ∀ a, Careful (next a)) :
    Careful (read >>= next) := by
  intro r e he
  have hsequence : (read r >>= fun p => next p.1 p.2) = .error e := he
  rcases bind_eq_error.mp hsequence with hread | ⟨p, -, hrest⟩
  · exact h r e hread
  · exact hnext p.1 p.2 e hrest

theorem Refuses.bind (h : Refuses read r) : Refuses (read >>= next) r := by
  obtain ⟨message, hread⟩ := h
  exact ⟨message, read_bind_error hread⟩

end Raising

namespace Reader

/-! ## The reads that raise nothing else -/

theorem careful_readByte : Careful readByte := by
  intro r e he
  unfold readByte at he
  split at he
  next hended =>
    cases he
    exact ⟨_, rfl⟩
  next hroom =>
    -- there is a byte at the position, so the index is in range
    have hlt : r.position < r.buffer.length := Nat.not_le.mp hroom
    have hindex : r.buffer[r.position]? = some r.buffer[r.position] :=
      List.getElem?_eq_getElem hlt
    rw [index, hindex] at he
    cases he

theorem careful_readBytes (count : Nat) : Careful (readBytes count) := by
  intro r e he
  simp only [readBytes] at he
  split at he
  · cases he
    exact ⟨_, rfl⟩
  · cases he

theorem careful_readString : Careful readString := by
  intro r e he
  simp only [readString] at he
  split at he
  · split at he
    · cases he
      exact ⟨_, rfl⟩
    · cases he
      exact ⟨_, rfl⟩
  · split at he
    · cases he
      exact ⟨_, rfl⟩
    · cases he

theorem careful_readU32 : Careful readU32 := by
  intro r e he
  simp only [readU32] at he
  split at he
  · cases he
    exact ⟨_, rfl⟩
  · cases he

theorem careful_readByteArray : Careful readByteArray := by
  refine careful_readU32.bind fun count => Careful.bind ?_ fun r => ?_
  · intro r e he
    cases he
  · intro r' e he
    simp only at he
    split at he
    · cases he
      exact ⟨_, rfl⟩
    · exact careful_readBytes count r' e he

/-! ## The reads that differ -/

section Split

variable {done ahead : Bytes}

/-- The domain is decoded as UTF-8, or refused. -/
theorem readString_decoded {domain : Bytes} (h0 : 0 ∉ domain)
    (hlen : domain.length ≤ maximumDomainLength) :
    readString (split done (domain ++ 0 :: ahead)) =
      match Lib.decodeUtf8Strict domain with
      | none => .error (.owidError "domain bytes are not valid UTF-8")
      | some text => .ok (text, split (done ++ (domain ++ [0])) ahead) := by
  have hfind : findZero (done ++ (domain ++ 0 :: ahead)) done.length
      (done.length + (maximumDomainLength + 1)) = some (done.length + domain.length) :=
    findZero_found h0 (Nat.lt_succ_of_le hlen)
  have hslice : slice (done ++ (domain ++ 0 :: ahead)) done.length (done.length + domain.length) =
      domain := slice_append done domain (0 :: ahead)
  have hnext := split_assoc done (domain ++ [0]) ahead
  rw [List.append_assoc, List.singleton_append, List.length_append, List.length_singleton,
    ← Nat.add_assoc] at hnext
  simp only [readString, split, Nat.add_assoc]
  simp only [hfind, hslice]
  cases Lib.decodeUtf8Strict domain with
  | none => rfl
  | some text => exact congrArg (fun r => Except.ok (text, r)) hnext

/-- A date that is cut short is refused before it is added to anything. -/
theorem readDate_refuses {version : Version} (hv : version ≠ .empty)
    (hahead : ahead.length < dateWidth version) :
    Refuses (readDate version) (split done ahead) := by
  by_cases hv1 : version = .version1
  · subst hv1
    cases ahead with
    | nil => exact (careful_readByte.refuses readByte_end).bind
    | cons high rest =>
      have hrest : rest = [] := by
        apply List.length_eq_zero_iff.mp
        simp only [List.length_cons, dateWidth] at hahead
        omega
      subst hrest
      rw [Refuses, readDate, read_bind (readByte_split high)]
      exact (careful_readByte.refuses readByte_end).bind
  · rw [dateWidth_minutes hv1] at hahead
    rw [readDate_minutes hv hv1]
    exact (careful_readU32.refuses (readU32_end hahead)).bind

/-- One past the last moment overflows. -/
theorem readDate_overflow {version : Version} {count : Nat} (hv : version ≠ .empty)
    (hv1 : version ≠ .version1) (hcount : maximumMinutes < count) (hfield : count ≤ 0xFFFFFFFF) :
    readDate version (split done (dateBytes version count ++ ahead)) = .error .overflowError := by
  rw [dateBytes_minutes hv1, readDate_minutes hv hv1, read_bind (readU32_split hfield)]
  exact dateAfter_error (baseDate_add_minutes_overflow hcount)

end Split

end Reader

namespace Owid

open Reader (split readString readDate readByteArray readSignature)

section Fields

variable {v : Version} {domain rest : Bytes}

/-- What the reader does behind a version, as far as the domain decides it. -/
theorem fromReader_decoded (hv : v ≠ .empty) (h0 : 0 ∉ domain)
    (hlen : domain.length ≤ maximumDomainLength) (now : DateTime) :
    fromReader now (split [] (v.asByte :: (domain ++ 0 :: rest))) =
      match Lib.decodeUtf8Strict domain with
      | none => .error (.owidError "domain bytes are not valid UTF-8")
      | some text => fieldsAfter v text (split ([v.asByte] ++ (domain ++ [0])) rest) := by
  rw [fromReader_version hv]
  have hread : readString (split [v.asByte] (domain ++ 0 :: rest)) =
      match Lib.decodeUtf8Strict domain with
      | none => .error (.owidError "domain bytes are not valid UTF-8")
      | some text => .ok (text, split ([v.asByte] ++ (domain ++ [0])) rest) :=
    Reader.readString_decoded h0 hlen
  cases hdecode : Lib.decodeUtf8Strict domain with
  | none =>
    rw [hdecode] at hread
    exact read_bind_error hread
  | some text =>
    rw [hdecode] at hread
    exact read_bind hread

/-- Where the fields behind the domain are refused, so is the buffer. -/
theorem fromReader_refuses (hv : v ≠ .empty) (h0 : 0 ∉ domain)
    (hlen : domain.length ≤ maximumDomainLength) (now : DateTime)
    (h : ∀ text, Refuses (fieldsAfter v text) (split ([v.asByte] ++ (domain ++ [0])) rest)) :
    Refuses (fromReader now) (split [] (v.asByte :: (domain ++ 0 :: rest))) := by
  rw [Refuses, fromReader_decoded hv h0 hlen]
  cases Lib.decodeUtf8Strict domain with
  | none => exact ⟨_, rfl⟩
  | some text => exact h text

/-- Behind the date, only an `OwidError` is raised. -/
theorem fieldsAfter_refuses {done : Bytes} {text : String} {count : Nat} (hv : v ≠ .empty)
    (hcount : count ≤ maximumCount v)
    (h : ∃ e, readByteArray (split (done ++ dateBytes v count) rest) = .error e) :
    Refuses (fieldsAfter v text) (split done (dateBytes v count ++ rest)) := by
  rw [Refuses, fieldsAfter, read_bind (Reader.readDate_split hv hcount)]
  exact (Reader.careful_readByteArray.refuses h).bind

end Fields

/-- The marker of an absent OWID is read as one with no fields, dated now. -/
theorem fromReader_absent (rest : Bytes) (now : DateTime) :
    ∃ r, fromReader now (split [] (Version.empty.asByte :: rest)) =
      .ok (⟨.empty, "", now, [], []⟩, r) := by
  rw [fromReader, read_bind (Reader.readByte_split Version.empty.asByte),
    read_bind (read_lift (Version.fromByte_asByte .empty)), if_pos rfl]
  exact ⟨_, rfl⟩

/-- What the raising reader does with a buffer of which `parse_bytes` reports this result. -/
def RaisingRead (buffer : Bytes) (now : DateTime) (result : ParseResult) : Prop :=
  match result.status with
  | .absentNode => fromByteArrayOrRaise buffer now = .ok ⟨.empty, "", now, [], []⟩
  | .parsed => ∃ owid, result.owid = some owid ∧
      fromByteArrayOrRaise buffer now =
        match Lib.decodeUtf8Strict (domainField buffer) with
        | none => .error (.owidError "domain bytes are not valid UTF-8")
        | some text => .ok { owid with domain := text }
  | .implementationCapacityExceeded =>
      fromByteArrayOrRaise buffer now =
        match Lib.decodeUtf8Strict (domainField buffer) with
        | none => .error (.owidError "domain bytes are not valid UTF-8")
        | some _ => .error .overflowError
  | _ => ∃ message, fromByteArrayOrRaise buffer now = .error (.owidError message)

theorem fromByteArrayOrRaise_refuses {buffer : Bytes} {now : DateTime}
    (h : Refuses (fromReader now) (split [] buffer)) :
    ∃ message, fromByteArrayOrRaise buffer now = .error (.owidError message) := by
  obtain ⟨message, hread⟩ := h
  have hread' : fromReader now ⟨buffer, 0⟩ = .error (.owidError message) := hread
  exact ⟨message, by rw [fromByteArrayOrRaise, hread']; rfl⟩

/-- Each way that the other reader goes, and what this one does there. -/
theorem raisingRead_walk {buffer : Bytes} {result : ParseResult}
    (h : Walk true buffer result) (now : DateTime) : RaisingRead buffer now result := by
  have hsplit : ∀ b, fromByteArrayOrRaise b now = (fromReader now (split [] b)).map Prod.fst :=
    fun _ => rfl
  cases h with
  | missing =>
    refine fromByteArrayOrRaise_refuses ?_
    exact (Reader.careful_readByte.refuses Reader.readByte_end).bind
  | @unsupported b rest hb =>
    refine fromByteArrayOrRaise_refuses ?_
    cases hversion : Version.fromByte b with
    | ok v => exact absurd (Version.fromByte_ok hversion).symm (hb v)
    | error e =>
      obtain ⟨message, rfl⟩ : ∃ message, e = .owidError message := by
        unfold Version.fromByte at hversion
        split at hversion <;> cases hversion
        exact ⟨_, rfl⟩
      refine ⟨message, ?_⟩
      rw [fromReader, read_bind (Reader.readByte_split b)]
      refine read_bind_error ?_
      rw [hversion]
      rfl
  | @absent rest =>
    obtain ⟨r, hread⟩ := fromReader_absent rest now
    show fromByteArrayOrRaise _ now = _
    rw [hsplit, hread]
    rfl
  | endInDomain hv h0 hlen =>
    refine fromByteArrayOrRaise_refuses ?_
    rw [Refuses, fromReader_version hv]
    refine (Reader.careful_readString.refuses ?_).bind
    exact Reader.readString_end fun hm => h0 (List.mem_of_mem_take hm)
  | @badDomain v domain rest hv h0 hlen =>
    refine fromByteArrayOrRaise_refuses ?_
    have hwindow : 0 ∉ (domain ++ rest).take (maximumDomainLength + 1) := by
      rwa [List.take_left' hlen]
    rw [Refuses, fromReader_version hv]
    exact (Reader.careful_readString.refuses (Reader.readString_end hwindow)).bind
  | endInDate hv h0 hlen hrest =>
    refine fromByteArrayOrRaise_refuses (fromReader_refuses hv h0 hlen now fun text => ?_)
    exact (Reader.readDate_refuses hv hrest).bind
  | @capacity v domain rest count hv h0 hlen hv1 hcount hfield =>
    have hdomain : domainField (headerBytes v domain count ++ rest) = domain := by
      rw [headerBytes_append, domainField, List.drop_one, List.tail_cons,
        Lib.beforeFirst_append h0]
    show fromByteArrayOrRaise _ now = _
    rw [hsplit, hdomain, headerBytes_append, fromReader_decoded hv h0 hlen]
    cases Lib.decodeUtf8Strict domain with
    | none => rfl
    | some text =>
      simp only
      rw [fieldsAfter, read_bind_error (Reader.readDate_overflow hv hv1 hcount hfield)]
      rfl
  | endInCount hv h0 hlen hcount hrest =>
    rw [headerBytes_append]
    refine fromByteArrayOrRaise_refuses (fromReader_refuses hv h0 hlen now fun text => ?_)
    exact fieldsAfter_refuses hv hcount (Reader.readByteArray_end hrest)
  | mismatch _ hv h0 hlen hcount hdeclared hrest =>
    rw [headerBytes_append]
    refine fromByteArrayOrRaise_refuses (fromReader_refuses hv h0 hlen now fun text => ?_)
    exact fieldsAfter_refuses hv hcount (Reader.readByteArray_mismatch hdeclared hrest)
  | short hexact => cases hexact
  | parsed e tail hexact =>
    obtain rfl := hexact rfl
    rw [List.append_nil]
    refine ⟨e.owid, rfl, ?_⟩
    rw [hsplit, e.domainField_bytes, e.bytes_eq, headerBytes_append,
      fromReader_decoded e.versionKnown e.domainNonzero e.domainShort]
    cases Lib.decodeUtf8Strict e.domain with
    | none => rfl
    | some text =>
      simp only
      rw [fieldsAfter, read_bind (Reader.readDate_split e.versionKnown e.countFits),
        read_bind (Reader.readByteArray_split e.payloadFits e.signatureFits),
        read_bind (Reader.readSignature_split e.signatureFits)]
      rfl

end Owid

/-- **The raising reader on every buffer.** Whatever the bytes, the raising reader does what the
status that `parse_bytes` reports of them says: an absent node is an OWID with no fields, an OWID
that was parsed is the same one with its domain read as UTF-8, or is refused where the domain is
not, a date past the last moment overflows behind a domain that is, and everything else is an
`OwidError`. -/
theorem fromByteArrayOrRaise_total (buffer : Bytes) (now : DateTime) :
    ∃ result, Parse.parseBytes (.bytes buffer) = .ok result ∧
      Owid.RaisingRead buffer now result := by
  obtain ⟨result, hread, hwalk⟩ := parseData_walk buffer true
  exact ⟨result, hread, Owid.raisingRead_walk hwalk now⟩

end OpenWebId
