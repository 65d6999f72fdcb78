import OpenWebId.Lib.Framing
import OpenWebId.Wire

/-!
# Two contracts over one walk, and a run of frames

The whole buffer read and the framed read are one walk under two contracts, so each way
the framed read can go decides how the whole buffer read goes: `Reads` holds the pair,
and `reads_of_walk` is the table of them.

A framed read that stops at the end of the data stops inside an envelope
(`exists_envelope_of_end`), so more bytes can complete it, and every other way the read
goes looks only at bytes it has (`Walk.extend`), so no bytes that arrive later change it.

An envelope is therefore delimited by its own bytes, which is what `walkFrames`, the
documented loop over a run of frames, relies on: it is the loop of `Lib.Framing` with
`parse_prefix` as its turn.
-/

namespace OpenWebId

open Lib (toLE toBE ofLE ofBE)
open Owid (dateBytes)
open Parse (failed parseData)

/-! ## The bytes up to the payload count -/

/-- Every byte up to and including the payload count is there: the version, the domain
with its zero byte, the date, and the four bytes of the count. -/
def CountPresent (b : Bytes) : Prop :=
  ∃ (v : Version) (domain field rest : Bytes), v ≠ .empty ∧ 0 ∉ domain ∧
    field.length = dateWidth v + 4 ∧ b = v.asByte :: (domain ++ 0 :: (field ++ rest))

/-- Behind the domain, the count is there when the date and four more bytes are. -/
theorem countPresent_iff {v : Version} {domain tail : Bytes} (hv : v ≠ .empty)
    (h0 : 0 ∉ domain) :
    CountPresent (v.asByte :: (domain ++ 0 :: tail)) ↔ dateWidth v + 4 ≤ tail.length := by
  constructor
  · intro h
    obtain ⟨w, domain', field, rest, -, h0', hfield, hb⟩ := h
    obtain ⟨hbyte, hrest⟩ := List.cons.inj hb
    obtain ⟨-, rfl⟩ := Lib.append_sep_inj h0 h0' hrest
    rw [Version.asByte_injective hbyte, ← hfield, List.length_append]
    omega
  · intro h
    refine ⟨v, domain, tail.take (dateWidth v + 4), tail.drop (dateWidth v + 4), hv, h0, ?_, ?_⟩
    · rw [List.length_take]
      omega
    · rw [List.take_append_drop]

theorem not_countPresent_domain {v : Version} {domain : Bytes} (h0 : 0 ∉ domain) :
    ¬ CountPresent (v.asByte :: domain) := by
  intro h
  obtain ⟨w, domain', field, rest, -, -, -, hb⟩ := h
  have hdomain := (List.cons.inj hb).2
  refine h0 ?_
  rw [hdomain]
  exact List.mem_append_right _ (List.mem_cons_self ..)

/-- Behind the date, the count is there when four bytes are. -/
theorem countPresent_header {v : Version} {domain rest : Bytes} {count : Nat}
    (hv : v ≠ .empty) (h0 : 0 ∉ domain) :
    CountPresent (headerBytes v domain count ++ rest) ↔ 4 ≤ rest.length := by
  rw [headerBytes_append, countPresent_iff hv h0, List.length_append, length_dateBytes]
  omega

/-! ## The two reads of one buffer -/

/-- The results of the whole buffer read and of the framed read of one buffer, and how
they compare. -/
structure Reads (b : Bytes) (whole framed : ParseResult) : Prop where
  parsed : whole.status = .parsed ↔ framed.status = .parsed ∧ framed.consumed = b.length
  owids : whole.status = .parsed → whole.owid = framed.owid
  mismatch : whole.status = .byteCountMismatch ↔
    (framed.status = .parsed ∧ framed.consumed < b.length) ∨
      (framed.status = .unexpectedEnd ∧ CountPresent b)
  otherwise : whole.status ≠ .parsed → whole.status ≠ .byteCountMismatch →
    whole.status = framed.status ∧ whole.consumed = 0 ∧
      framed.consumed = if framed.status = .absentNode then 1 else 0

/-- Both reads refuse with one status, and the count is not there to disagree with. -/
theorem Reads.same {b : Bytes} {status : ParseStatus} (hparsed : status ≠ .parsed)
    (hmismatch : status ≠ .byteCountMismatch) (habsent : status ≠ .absentNode)
    (hcount : status = .unexpectedEnd → ¬ CountPresent b) :
    Reads b (failed status) (failed status) where
  parsed := by simp [failed, hparsed]
  owids := fun h => absurd h hparsed
  mismatch := by
    simp only [failed, hmismatch, hparsed, false_and, false_or, false_iff]
    exact fun h => hcount h.1 h.2
  otherwise := fun _ _ => ⟨rfl, rfl, (if_neg habsent).symm⟩

/-- How the whole buffer read of a buffer goes, for each way the framed read of it
goes. -/
theorem reads_of_walk {b : Bytes} {framed : ParseResult} (h : Walk false b framed) :
    ∃ whole, parseData b true = .ok whole ∧ Reads b whole framed := by
  cases h with
  | missing => exact ⟨_, Walk.missing.read, .same nofun nofun nofun nofun⟩
  | unsupported hb => exact ⟨_, (Walk.unsupported hb).read, .same nofun nofun nofun nofun⟩
  | absent =>
    refine ⟨_, Walk.absent.read, ?_, nofun, ?_, fun _ _ => ⟨rfl, rfl, rfl⟩⟩
    · simp
    · simp
  | endInDomain hv h0 hlen =>
    exact ⟨_, (Walk.endInDomain hv h0 hlen).read,
      .same nofun nofun nofun fun _ => not_countPresent_domain h0⟩
  | badDomain hv h0 hlen =>
    exact ⟨_, (Walk.badDomain hv h0 hlen).read, .same nofun nofun nofun nofun⟩
  | endInDate hv h0 hlen hrest =>
    refine ⟨_, (Walk.endInDate hv h0 hlen hrest).read, .same nofun nofun nofun fun _ => ?_⟩
    rw [countPresent_iff hv h0]
    omega
  | capacity hv h0 hlen hv1 hcount hfield =>
    exact ⟨_, (Walk.capacity hv h0 hlen hv1 hcount hfield).read, .same nofun nofun nofun nofun⟩
  | endInCount hv h0 hlen hcount hrest =>
    refine ⟨_, (Walk.endInCount hv h0 hlen hcount hrest).read,
      .same nofun nofun nofun fun _ => ?_⟩
    rw [countPresent_header hv h0]
    omega
  | mismatch hexact => cases hexact
  | @short v domain rest count declared _ hv h0 hlen hcount hdeclared hrest =>
    -- the count is there, and what it declares is not what is left
    have hpresent : CountPresent (headerBytes v domain count ++ (toLE 4 declared ++ rest)) := by
      rw [countPresent_header hv h0, List.length_append, Lib.length_toLE]
      omega
    refine ⟨_, (Walk.mismatch rfl hv h0 hlen hcount hdeclared (Nat.ne_of_lt hrest)).read,
      ?_, nofun, ?_, fun _ h => absurd rfl h⟩
    · simp [failed]
    · simp [failed, hpresent]
  | parsed e rest _ =>
    by_cases hrest : rest = []
    · subst hrest
      refine ⟨_, (Walk.parsed e [] fun _ => rfl).read, ?_, fun _ => rfl, ?_,
        fun h => absurd rfl h⟩
      · simp
      · simp
    · -- a byte after the envelope is one the count does not declare
      have hpos : 0 < rest.length := List.length_pos_iff.mpr hrest
      have hdata : e.bytes ++ rest = headerBytes e.version e.domain e.count ++
          (toLE 4 e.payload.length ++ (e.payload ++ e.signature ++ rest)) := by
        rw [e.bytes_eq]
        simp
      have hleft : (e.payload ++ e.signature ++ rest).length ≠
          e.payload.length + signatureLength := by
        simp only [List.length_append, e.signatureFits]
        omega
      have hread : parseData (e.bytes ++ rest) true = .ok (failed .byteCountMismatch) := by
        rw [hdata]
        exact (Walk.mismatch rfl e.versionKnown e.domainNonzero e.domainShort e.countFits
          e.payloadFits hleft).read
      refine ⟨_, hread, ?_, nofun, ?_, fun _ h => absurd rfl h⟩
      · simp only [failed, List.length_append, true_and, false_iff, reduceCtorEq]
        omega
      · simp only [failed, List.length_append, true_and, true_iff, reduceCtorEq, false_and,
          or_false]
        omega

/-- **The two reads differ in three answers.** On every buffer both reads return. The
whole buffer read is parsed exactly where the framed read is and took every byte, and
the OWIDs are then one; it reports a byte count mismatch exactly where the framed read
is parsed with bytes left, or ends early with the payload count there; and otherwise the
two report one status and consume nothing, but for the one byte of an absent node that
only the framed read counts. -/
theorem parseBytes_parsePrefix (b : Bytes) :
    ∃ whole framed, Parse.parseBytes (.bytes b) = .ok whole ∧
      Parse.parsePrefix (.bytes b) = .ok framed ∧
      (whole.status = .parsed ↔ framed.status = .parsed ∧ framed.consumed = b.length) ∧
      (whole.status = .parsed → whole.owid = framed.owid) ∧
      (whole.status = .byteCountMismatch ↔
        (framed.status = .parsed ∧ framed.consumed < b.length) ∨
          (framed.status = .unexpectedEnd ∧ CountPresent b)) ∧
      (whole.status ≠ .parsed → whole.status ≠ .byteCountMismatch →
        whole.status = framed.status ∧ whole.consumed = 0 ∧
          framed.consumed = if framed.status = .absentNode then 1 else 0) := by
  obtain ⟨framed, hframed, hwalk⟩ := parseData_walk b false
  obtain ⟨whole, hwhole, hreads⟩ := reads_of_walk hwalk
  exact ⟨whole, framed, hwhole, hframed, hreads.parsed, hreads.owids, hreads.mismatch,
    hreads.otherwise⟩

/-! ## Waiting for more bytes -/

/-- What a framed read made of bytes it has is not changed by the bytes after them. -/
theorem Walk.extend {b : Bytes} {r : ParseResult} (h : Walk false b r) (hb : b ≠ [])
    (hr : r.status ≠ .unexpectedEnd) (x : Bytes) : Walk false (b ++ x) r := by
  cases h with
  | missing => exact absurd rfl hb
  | unsupported hv => exact .unsupported hv
  | absent => exact .absent
  | @badDomain v domain rest hv h0 hlen =>
    rw [List.cons_append, List.append_assoc]
    exact .badDomain hv h0 hlen
  | capacity hv h0 hlen hv1 hcount hfield =>
    rw [List.append_assoc]
    exact .capacity hv h0 hlen hv1 hcount hfield
  | mismatch hexact => cases hexact
  | parsed e rest _ =>
    rw [List.append_assoc]
    exact .parsed e (rest ++ x) nofun
  | endInDomain | endInDate | endInCount | short => exact absurd rfl hr

/-- Bytes short of the date field are the start of one whose count is in range: of the
four bytes, the low ones alone hold no count past it. -/
theorem exists_dateBytes_prefix {v : Version} {rest : Bytes} (h : rest.length < dateWidth v) :
    ∃ count pad, rest ++ pad = dateBytes v count ∧ count ≤ maximumCount v := by
  have hfield : (rest ++ List.replicate (dateWidth v - rest.length) (0 : UInt8)).length =
      dateWidth v := by
    rw [List.length_append, List.length_replicate]
    omega
  by_cases hv : v = .version1
  -- hours: every count of two bytes is in range
  · subst hv
    obtain ⟨count, hdate, hlt⟩ := exists_dateBytes .version1 hfield
    refine ⟨count, _, hdate, ?_⟩
    simp only [dateWidth, maximumCount] at hlt ⊢
    omega
  · have hw := dateWidth_minutes hv
    -- a later version: the bytes that are there are the low ones of the count
    have hread := Lib.toLE_ofLE (rest ++ List.replicate (dateWidth v - rest.length) (0 : UInt8))
    rw [hfield, hw, Lib.ofLE_append_replicate] at hread
    refine ⟨ofLE rest, _, (dateBytes_minutes hv _ ▸ hread).symm, ?_⟩
    have hlt : ofLE rest < 256 ^ 3 :=
      Nat.lt_of_lt_of_le (Lib.ofLE_lt rest) (Nat.pow_le_pow_right (by omega) (by omega))
    rw [maximumCount_minutes hv, maximumMinutes_eq]
    omega

/-- An envelope with these fields, the payload and the signature cut from the bytes
given. -/
theorem exists_envelope_header {v : Version} {domain body : Bytes} {count declared : Nat}
    (hv : v ≠ .empty) (h0 : 0 ∉ domain) (hlen : domain.length ≤ maximumDomainLength)
    (hcount : count ≤ maximumCount v) (hdeclared : declared ≤ 0xFFFFFFFF)
    (hbody : body.length = declared + signatureLength) :
    ∃ e : Envelope, e.bytes = headerBytes v domain count ++ (toLE 4 declared ++ body) := by
  have hpayload : (body.take declared).length = declared := by
    rw [List.length_take]
    omega
  let e : Envelope :=
    { version := v, domain := domain, count := count, payload := body.take declared,
      signature := body.drop declared, versionKnown := hv, domainNonzero := h0,
      domainShort := hlen, countFits := hcount,
      payloadFits := by rw [hpayload]; exact hdeclared,
      signatureFits := by rw [List.length_drop]; omega }
  refine ⟨e, ?_⟩
  rw [e.bytes_eq]
  simp only [e, hpayload, List.take_append_drop]

/-- Behind a date in range, bytes short of the payload count are the start of an
envelope. -/
theorem exists_envelope_short {v : Version} {domain rest : Bytes} {count : Nat}
    (hv : v ≠ .empty) (h0 : 0 ∉ domain) (hlen : domain.length ≤ maximumDomainLength)
    (hcount : count ≤ maximumCount v) (hrest : rest.length < 4) :
    ∃ (e : Envelope) (x : Bytes), e.bytes = headerBytes v domain count ++ rest ++ x := by
  have hcounted : (rest ++ List.replicate (4 - rest.length) (0 : UInt8)).length = 4 := by
    rw [List.length_append, List.length_replicate]
    omega
  obtain ⟨declared, tail, hsplit, hdeclared⟩ := exists_toLE (Nat.le_of_eq hcounted.symm)
  have htail : tail = [] := by
    have h := congrArg List.length hsplit
    rw [hcounted, List.length_append, Lib.length_toLE] at h
    exact List.length_eq_zero_iff.mp (by omega)
  subst htail
  have hbody : (List.replicate (declared + signatureLength) (0 : UInt8)).length =
      declared + signatureLength := List.length_replicate ..
  obtain ⟨e, he⟩ := exists_envelope_header hv h0 hlen hcount hdeclared hbody
  rw [List.append_nil] at hsplit
  refine ⟨e, List.replicate (4 - rest.length) 0 ++
    List.replicate (declared + signatureLength) 0, ?_⟩
  rw [he, ← hsplit]
  simp

/-- The fields up to a date in range are the start of an envelope. -/
theorem exists_envelope_dated {v : Version} {domain : Bytes} {count : Nat} (hv : v ≠ .empty)
    (h0 : 0 ∉ domain) (hlen : domain.length ≤ maximumDomainLength)
    (hcount : count ≤ maximumCount v) :
    ∃ (e : Envelope) (x : Bytes), e.bytes = headerBytes v domain count ++ x := by
  have hrest : ([] : Bytes).length < 4 := Nat.zero_lt_succ 3
  obtain ⟨e, x, he⟩ := exists_envelope_short hv h0 hlen hcount hrest
  rw [List.append_nil] at he
  exact ⟨e, x, he⟩

/-- **A framed read that ends early ends inside an envelope.** What arrived is the start
of one, completed field by field from where the data stopped. -/
theorem exists_envelope_of_end {b : Bytes} {r : ParseResult} (h : Walk false b r)
    (hr : r.status = .unexpectedEnd) : ∃ (e : Envelope) (x : Bytes), e.bytes = b ++ x := by
  cases h with
  | @endInDomain v domain hv h0 hlen =>
    -- the domain's end, then a date of no units
    obtain ⟨e, x, he⟩ := exists_envelope_dated hv h0 hlen (Nat.zero_le (maximumCount v))
    refine ⟨e, 0 :: (dateBytes v 0 ++ x), ?_⟩
    rw [he]
    simp [headerBytes]
  | @endInDate v domain rest hv h0 hlen hrest =>
    obtain ⟨count, pad, hdate, hcount⟩ := exists_dateBytes_prefix hrest
    obtain ⟨e, x, he⟩ := exists_envelope_dated hv h0 hlen hcount
    refine ⟨e, pad ++ x, ?_⟩
    rw [he, headerBytes, ← hdate]
    simp
  | endInCount hv h0 hlen hcount hrest => exact exists_envelope_short hv h0 hlen hcount hrest
  | mismatch hexact => cases hexact
  | @short v domain rest count declared _ hv h0 hlen hcount hdeclared hrest =>
    have hbody : (rest ++ List.replicate (declared + signatureLength - rest.length) (0 : UInt8)
        ).length = declared + signatureLength := by
      rw [List.length_append, List.length_replicate]
      omega
    obtain ⟨e, he⟩ := exists_envelope_header hv h0 hlen hcount hdeclared hbody
    refine ⟨e, List.replicate (declared + signatureLength - rest.length) 0, ?_⟩
    rw [he]
    simp
  | missing | unsupported | absent | badDomain | capacity | parsed => cases hr

theorem parsePrefix_envelope (e : Envelope) (rest : Bytes) :
    Parse.parsePrefix (.bytes (e.bytes ++ rest)) =
      .ok ⟨true, some e.owid, .parsed, e.bytes.length⟩ := by
  have hwalk : Walk false (e.bytes ++ rest) ⟨true, some e.owid, .parsed, e.bytes.length⟩ :=
    .parsed e rest nofun
  exact hwalk.read

/-- The framed read never reports a byte count mismatch. -/
theorem parsePrefix_not_mismatch {input : Input} {r : ParseResult}
    (h : Parse.parsePrefix input = .ok r) : r.status ≠ .byteCountMismatch := by
  cases input with
  | none => cases h; decide
  | text => cases h; decide
  | other => cases h; decide
  | bytes b =>
    obtain ⟨r', hread, hwalk⟩ := parseData_walk b false
    obtain rfl : r' = r := Except.ok.inj (hread.symm.trans h)
    cases hwalk with
    | mismatch hexact => cases hexact
    | _ => nofun

/-- **An unexpected end means that more bytes could help.** For a buffer that is not
empty, the framed read reports an unexpected end exactly where it did not parse and some
bytes appended make it parse; every other answer is final, whatever is appended; and a
byte count mismatch is never one of them. -/
theorem parsePrefix_unexpectedEnd :
    (∀ b : Bytes, b ≠ [] → ∃ r, Parse.parsePrefix (.bytes b) = .ok r ∧
      (r.status = .unexpectedEnd ↔ r.status ≠ .parsed ∧
        ∃ x r', Parse.parsePrefix (.bytes (b ++ x)) = .ok r' ∧ r'.status = .parsed) ∧
      (r.status ≠ .unexpectedEnd → ∀ x, ∃ r', Parse.parsePrefix (.bytes (b ++ x)) = .ok r' ∧
        r'.status = r.status ∧ r'.consumed = r.consumed ∧ r'.owid = r.owid)) ∧
    ∀ input r, Parse.parsePrefix input = .ok r → r.status ≠ .byteCountMismatch := by
  refine ⟨fun b hb => ?_, fun input r h => parsePrefix_not_mismatch h⟩
  obtain ⟨r, hread, hwalk⟩ := parseData_walk b false
  have hfinal : r.status ≠ .unexpectedEnd → ∀ x, Parse.parsePrefix (.bytes (b ++ x)) = .ok r :=
    fun hr x => (hwalk.extend hb hr x).read
  refine ⟨r, hread, ⟨fun hr => ⟨by rw [hr]; nofun, ?_⟩, fun h => ?_⟩,
    fun hr x => ⟨r, hfinal hr x, rfl, rfl, rfl⟩⟩
  · obtain ⟨e, x, he⟩ := exists_envelope_of_end hwalk hr
    have hparse := parsePrefix_envelope e []
    rw [List.append_nil, he] at hparse
    exact ⟨x, _, hparse, rfl⟩
  · -- any other answer is the one the extension gives too
    obtain ⟨hr, x, r', hparse, hr'⟩ := h
    by_contra hend
    have hsame : r = r' := Except.ok.inj ((hfinal hend x).symm.trans hparse)
    exact hr (hsame ▸ hr')

/-! ## Walking a run of frames -/

/-- One turn of the documented walk: an OWID that was read is kept, an absent node is
stepped over, and any other answer ends the walk. -/
def walkTurn (data : Bytes) : Except PyExc (Option (Option Owid × Nat)) := do
  let frame ← Parse.parsePrefix (.bytes data)
  if frame.ok then .ok (some (frame.owid, frame.consumed))
  else if frame.status ≠ .absentNode then .ok none
  else .ok (some (none, frame.consumed))

/-- The documented walk over a run of frames, `while data: …`, taking at most so many
turns: the slices stepped over, each with the OWID kept there, and what was left. -/
def walkFrames (turns : Nat) (data : Bytes) :
    Except PyExc (Option (List (Bytes × Option Owid) × Bytes)) :=
  Lib.whileData walkTurn turns data

/-- A frame of a run: the marker of an absent node, or bytes the whole buffer read
accepts. -/
def IsFrame (frame : Bytes) : Prop :=
  frame = [0] ∨ ∃ r, Parse.parseBytes (.bytes frame) = .ok r ∧ r.ok = true

/-- The OWID the whole buffer read gives for the frame alone. -/
def ParsesTo (frame : Bytes) (owid : Option Owid) : Prop :=
  ∃ r, Parse.parseBytes (.bytes frame) = .ok r ∧ r.owid = owid

theorem walkTurn_walk {data : Bytes} {r : ParseResult} (h : Walk false data r) :
    walkTurn data =
      if r.ok then .ok (some (r.owid, r.consumed))
      else if r.status ≠ .absentNode then .ok none
      else .ok (some (none, r.consumed)) := by
  have hread : Parse.parsePrefix (.bytes data) = .ok r := h.read
  rw [walkTurn, hread, ok_bind]

theorem delimits_marker : Lib.Delimits walkTurn [0] none := by
  refine ⟨nofun, fun rest => ?_⟩
  have hwalk : Walk false ([0] ++ rest) ⟨false, none, .absentNode, 1⟩ := .absent
  rw [walkTurn_walk hwalk]
  rfl

theorem delimits_envelope (e : Envelope) : Lib.Delimits walkTurn e.bytes (some e.owid) := by
  refine ⟨fun hnil => ?_, fun rest => ?_⟩
  · have h := congrArg List.length hnil
    rw [e.bytes_eq, List.length_append, length_headerBytes, List.length_nil] at h
    omega
  · have hwalk : Walk false (e.bytes ++ rest) ⟨true, some e.owid, .parsed, e.bytes.length⟩ :=
      .parsed e rest nofun
    rw [walkTurn_walk hwalk]
    rfl

/-- A frame is read whole in front of anything, with the OWID the whole buffer read
gives. -/
theorem IsFrame.delimits {frame : Bytes} (h : IsFrame frame) :
    ∃ owid, ParsesTo frame owid ∧ Lib.Delimits walkTurn frame owid := by
  rcases h with rfl | ⟨r, hread, hok⟩
  · exact ⟨none, ⟨_, rfl, rfl⟩, delimits_marker⟩
  · obtain ⟨r', hread', hwalk⟩ := parseData_walk frame true
    obtain rfl : r' = r := Except.ok.inj (hread'.symm.trans hread)
    cases hwalk with
    | parsed e rest hexact =>
      rw [hexact rfl, List.append_nil]
      exact ⟨some e.owid, ⟨_, parseBytes_envelope e, rfl⟩, delimits_envelope e⟩
    | _ => cases hok

/-- What a turn took from the front of a buffer is a frame, with the OWID the whole
buffer read gives for it alone. -/
theorem isFrame_of_turn {piece tail : Bytes} {owid : Option Owid}
    (h : walkTurn (piece ++ tail) = .ok (some (owid, piece.length))) :
    IsFrame piece ∧ ParsesTo piece owid := by
  obtain ⟨r, -, hwalk⟩ := parseData_walk (piece ++ tail) false
  rw [walkTurn_walk hwalk] at h
  generalize hdata : piece ++ tail = data at hwalk
  cases hwalk with
  | @absent rest =>
    obtain ⟨rfl, hlen⟩ := Prod.mk.inj (Option.some.inj (Except.ok.inj h))
    -- the one byte that was consumed is the zero the buffer starts with
    have hpiece : piece = [0] := by
      have hone : piece.length = ([0] : Bytes).length := hlen.symm
      exact (List.append_inj (hdata.trans (List.singleton_append).symm) hone).1
    subst hpiece
    exact ⟨.inl rfl, _, rfl, rfl⟩
  | parsed e rest _ =>
    obtain ⟨rfl, hlen⟩ := Prod.mk.inj (Option.some.inj (Except.ok.inj h))
    -- as many bytes as the envelope has, from the same buffer, are the envelope
    obtain ⟨rfl, -⟩ := List.append_inj hdata hlen.symm
    exact ⟨.inr ⟨_, parseBytes_envelope e, rfl⟩, _, parseBytes_envelope e, rfl⟩
  | mismatch hexact => cases hexact
  | missing | unsupported | endInDomain | badDomain | endInDate | capacity | endInCount
  | short => cases h

/-- What a framed read consumes: between one byte and all of them where it hands a frame
back, and nothing otherwise. -/
theorem consumed_of_walk {data : Bytes} {r : ParseResult} (h : Walk false data r) :
    if r.status = .parsed ∨ r.status = .absentNode then
      1 ≤ r.consumed ∧ r.consumed ≤ data.length
    else r.consumed = 0 := by
  cases h with
  | absent => exact ⟨Nat.le_refl 1, Nat.succ_le_succ (Nat.zero_le _)⟩
  | parsed e rest _ =>
    have hpos : 1 ≤ e.bytes.length := by
      rw [e.bytes_eq, List.length_append, length_headerBytes]
      omega
    have hfits : e.bytes.length ≤ (e.bytes ++ rest).length := by
      rw [List.length_append]
      omega
    exact ⟨hpos, hfits⟩
  | mismatch hexact => cases hexact
  | missing | unsupported | endInDomain | badDomain | endInDate | capacity | endInCount
  | short => rfl

theorem advances_walkTurn : Lib.Advances walkTurn := by
  intro data hdata
  obtain ⟨r, -, hwalk⟩ := parseData_walk data false
  rw [walkTurn_walk hwalk]
  have hconsumed := consumed_of_walk hwalk
  cases hwalk with
  | absent => exact .inr ⟨_, _, rfl, hconsumed⟩
  | parsed e rest _ => exact .inr ⟨_, _, rfl, hconsumed⟩
  | _ => exact .inl rfl

/-- **Walking a run of frames loses nothing and always ends.** Over the frames of any
list, one after the other, the documented walk visits exactly them, in order, and keeps
for each the OWID the whole buffer read gives for it alone. On every buffer it ends
within a turn for each byte, as every frame handed back takes between one byte and all
of them and nothing else takes any; and the slices it stepped over are such frames,
which with what is left make up the buffer. -/
theorem walkFrames_frames :
    (∀ frames : List Bytes, (∀ frame ∈ frames, IsFrame frame) →
      ∀ turns, frames.flatten.length ≤ turns →
        ∃ visits, walkFrames turns frames.flatten = .ok (some (visits, [])) ∧
          visits.map Prod.fst = frames ∧ ∀ visit ∈ visits, ParsesTo visit.1 visit.2) ∧
    ∀ data : Bytes,
      (∃ r, Parse.parsePrefix (.bytes data) = .ok r ∧
        if r.status = .parsed ∨ r.status = .absentNode then
          1 ≤ r.consumed ∧ r.consumed ≤ data.length
        else r.consumed = 0) ∧
      ∀ turns, data.length ≤ turns →
        ∃ visits rest, walkFrames turns data = .ok (some (visits, rest)) ∧
          (visits.map Prod.fst).flatten ++ rest = data ∧
          ∀ visit ∈ visits, IsFrame visit.1 ∧ ParsesTo visit.1 visit.2 := by
  constructor
  · intro frames hframes turns hturns
    -- each frame delimits itself, whatever follows it
    obtain ⟨visits, rfl, hvisits⟩ :=
      Lib.exists_visits fun frame hframe => (hframes frame hframe).delimits
    exact ⟨visits, Lib.whileData_flatten (fun visit hv => (hvisits visit hv).2) hturns, rfl,
      fun visit hv => (hvisits visit hv).1⟩
  · intro data
    refine ⟨?_, fun turns hturns => ?_⟩
    · obtain ⟨r, hread, hwalk⟩ := parseData_walk data false
      exact ⟨r, hread, consumed_of_walk hwalk⟩
    -- every turn takes a byte or stops, so the bytes bound the turns
    · obtain ⟨visits, rest, hwalk, hflat, hvisits⟩ :=
        Lib.whileData_advances advances_walkTurn hturns
      refine ⟨visits, rest, hwalk, hflat, fun visit hv => ?_⟩
      obtain ⟨-, tail, hread⟩ := hvisits visit hv
      exact isFrame_of_turn hread

/-- Two absent nodes, then a byte that starts no frame. -/
example : walkFrames 3 [0, 0, 9] = .ok (some ([([0], none), ([0], none)], [9])) := rfl

end OpenWebId
