import OpenWebId.BufferWrite
import OpenWebId.Frames
import OpenWebId.Keys
import OpenWebId.Lib.Arrival

/-!
# A run of nodes, written, sent and read as it arrives

A sender writes nodes into one buffer, `to_buffer` for an OWID and `empty_to_buffer` for
one that is absent. A reader of a source still arriving runs the documented walk on what
it has, and again on what that left whenever more bytes have come (`receive`).

What a framed read takes from the front of some bytes it takes whatever follows
(`keeps_walkTurn`), so the reader does not see how the bytes were cut, and while a run of
frames is under way it is never given a reason to give up. Of what was written it gets
every node back, each as it was exactly where the domain is ASCII.
-/

namespace OpenWebId

open Lib (encodeUtf8 decodeAscii IsAscii)
open Lib.Writer (Appends Fails)

variable {σ κ : Type}

/-- `Owid.empty_to_buffer`. -/
def Owid.emptyToBuffer : Write := Io.writeByte Version.empty.asByte

/-- A node of a run: an OWID, or one that is absent. -/
def writeNode : Option Owid → Write
  | none => Owid.emptyToBuffer
  | some o => o.toBuffer

/-- The nodes, one after another into one buffer. -/
def writeNodes : List (Option Owid) → Write
  | [] => Lib.Writer.extend []
  | node :: nodes => writeNode node >> writeNodes nodes

/-- The documented walk over a source still arriving, from no bytes on. -/
def receive (chunks : List Bytes) : Except PyExc (Option (List (Bytes × Option Owid) × Bytes)) :=
  Lib.whileArriving walkTurn [] chunks

/-! ## The reader -/

theorem keeps_walkTurn : Lib.Keeps walkTurn := by
  intro data owid n hdata hturn rest
  obtain ⟨r, -, hwalk⟩ := parseData_walk data false
  rw [walkTurn_walk hwalk] at hturn
  -- a read that ended early takes nothing
  have hr : r.status ≠ .unexpectedEnd := by
    intro hend
    cases hwalk with
    | absent | parsed => cases hend
    | mismatch hexact => cases hexact
    | missing | unsupported | endInDomain | badDomain | endInDate | capacity | endInCount
    | short => cases hturn
  rw [walkTurn_walk (hwalk.extend hdata hr rest), hturn]

/-- A turn that stops at bytes that could still become a frame is waiting for the rest. -/
theorem waiting_of_stopped {left y : Bytes} (hne : left ≠ [])
    (hstop : walkTurn left = .ok none) (hgo : walkTurn (left ++ y) ≠ .ok none) :
    ∃ r, Parse.parsePrefix (.bytes left) = .ok r ∧ r.status = .unexpectedEnd := by
  obtain ⟨r, hread, hwalk⟩ := parseData_walk left false
  refine ⟨r, hread, ?_⟩
  by_contra hr
  -- any other answer is the one the longer buffer gives
  have hsame := walkTurn_walk (hwalk.extend hne hr y)
  rw [← walkTurn_walk hwalk, hstop] at hsame
  exact hgo hsame

/-- **A reader does not see how the bytes were cut.** Over any bytes at all, in any pieces,
it visits what one walk over all of them visits, and waits with what that leaves. -/
theorem receive_chunks (chunks : List Bytes) :
    ∃ visits left, receive chunks = .ok (some (visits, left)) ∧
      ∀ turns, chunks.flatten.length ≤ turns →
        walkFrames turns chunks.flatten = .ok (some (visits, left)) :=
  Lib.whileArriving_flatten keeps_walkTurn advances_walkTurn (Or.inl rfl)

/-- **A reader never gives up on a run of frames.** Whatever part of the run has arrived and
in whatever pieces, it has visited the first frames, each with the OWID the whole buffer read
gives for it alone; what it is left with is the start of the others, and is nothing or is read
as an unexpected end. -/
theorem receive_part {frames : List Bytes} (hframes : ∀ frame ∈ frames, IsFrame frame)
    {chunks : List Bytes} {y : Bytes} (hrun : chunks.flatten ++ y = frames.flatten) :
    ∃ visits pending left, receive chunks = .ok (some (visits, left)) ∧
      frames = visits.map Prod.fst ++ pending ∧ left ++ y = pending.flatten ∧
      (∀ visit ∈ visits, ParsesTo visit.1 visit.2) ∧
      (left = [] ∨ ∃ r, Parse.parsePrefix (.bytes left) = .ok r ∧ r.status = .unexpectedEnd) := by
  obtain ⟨all, rfl, hall⟩ := Lib.exists_visits fun frame hframe => (hframes frame hframe).delimits
  obtain ⟨visits, left, hreceive, hwalk⟩ := receive_chunks chunks
  obtain ⟨visited, pending, left', rfl, hpart, hleft, hstop, hnothing⟩ :=
    Lib.whileData_part keeps_walkTurn advances_walkTurn (fun visit hv => (hall visit hv).2) hrun
      (Nat.le_refl _)
  have hsame := (hwalk _ (Nat.le_refl _)).symm.trans hpart
  obtain ⟨rfl, rfl⟩ := Prod.mk.inj (Option.some.inj (Except.ok.inj hsame))
  refine ⟨visits, pending.map Prod.fst, left, hreceive, List.map_append, hleft, ?_, ?_⟩
  · intro visit hv
    exact (hall visit (List.mem_append_left _ hv)).1
  · by_cases hne : left = []
    · exact Or.inl hne
    · refine Or.inr (waiting_of_stopped (y := y) hne (hstop.resolve_left hne) fun hend => ?_)
      exact hne (List.append_eq_nil_iff.mp (hnothing (Or.inr hend))).1

/-- Half of an envelope, behind the marker of an absent node. -/
theorem receive_part_half :
    ∃ left, receive [[0], [3, 0x61]] = .ok (some ([([0], none)], left)) ∧
      ∃ r, Parse.parsePrefix (.bytes left) = .ok r ∧ r.status = .unexpectedEnd := by
  let e := plainEnvelope [0x61] (by decide) (by decide)
  have hframes : ∀ frame ∈ [[0], e.bytes], IsFrame frame := by
    intro frame hframe
    rcases List.mem_cons.mp hframe with rfl | hframe
    · exact Or.inl rfl
    · rw [List.mem_singleton.mp hframe]
      exact Or.inr ⟨_, parseBytes_envelope e, rfl⟩
  have hrun : [[0], [3, 0x61]].flatten ++ e.bytes.drop 2 = [[0], e.bytes].flatten := rfl
  obtain ⟨visits, pending, left, hreceive, -, -, -, hwaits⟩ := receive_part hframes hrun
  have hends : receive [[0], [3, 0x61]] = .ok (some ([([0], none)], [3, 0x61])) := rfl
  cases hends.symm.trans hreceive
  exact ⟨_, hends, hwaits.resolve_left (List.cons_ne_nil _ _)⟩

/-! ## The sender -/

/-- What is written of an OWID whose fields all fit is an envelope, which reads back as the
OWID exactly where its domain is ASCII. -/
theorem exists_written {o : Owid} (hversion : o.version ≠ .empty) (h0 : 0 ∉ encodeUtf8 o.domain)
    (hlen : (encodeUtf8 o.domain).length ≤ maximumDomainLength) {count : Nat}
    (hcount : count ≤ maximumCount o.version) (hdate : o.date = dateOf o.version count hcount)
    (hpayload : o.payload.length ≤ 0xFFFFFFFF) (hsignature : o.signature.length = signatureLength) :
    ∃ e : Envelope, Appends o.toBuffer e.bytes ∧ (e.owid = o ↔ IsAscii o.domain) := by
  let e : Envelope := ⟨o.version, encodeUtf8 o.domain, count, o.payload, o.signature, hversion, h0,
    hlen, hcount, hpayload, hsignature⟩
  have hdateIs := e.dateIs
  simp only [Envelope.owid, Envelope.date, e, ← hdate] at hdateIs
  refine ⟨e, toBuffer_appends (Owid.toBufferNoSignature_appends h0 hlen hdateIs hpayload)
    hsignature, ?_⟩
  rw [← decodeAscii_encodeUtf8_iff]
  obtain ⟨version, domain, date, payload, signature⟩ := o
  simp only at hdate
  simp only [Envelope.owid, Envelope.date, Owid.mk.injEq, hdate, and_true, true_and, e]

/-- What was created is written as an envelope. -/
theorem Creator.exists_written {P : Provider σ κ} {creator : Creator σ κ} {value : Bytes}
    {now : DateTime} {entropy : Nat} {o : Owid} (h : creator.create P value now entropy = .ok o) :
    ∃ e : Envelope, Appends o.toBuffer e.bytes ∧ (e.owid = o ↔ IsAscii o.domain) := by
  obtain ⟨hversion, hdomain, hdate, -, data, hdata, -⟩ := Creator.create_ok h
  obtain ⟨h0, hpayload, -⟩ := Owid.signedBytes_ok hdata
  obtain ⟨count, hcount, hfits⟩ := exists_count (Creator.baseDate_le h)
  have hmax : count ≤ maximumCount o.version := by
    rw [hversion]
    exact hfits
  have hdateOf : o.date = dateOf o.version count hmax := by
    rw [hdate]
    apply DateTime.ext
    simp only [dateOf, dateUnit, DateTime.truncateToMinute, hversion, defaultVersion, hcount]
  refine OpenWebId.exists_written ?_ h0 ?_ hmax hdateOf hpayload (Creator.create_signature h)
  · rw [hversion]
    exact version3_known
  · rw [hdomain]
    exact creator.domainShort

/-- A held OWID is written as an envelope, or its domain no longer fits and the write
fails. -/
theorem Held.written {P : Provider σ κ} {o : Owid} (h : Held P o) :
    (Fails o.toBuffer ∧ ¬ IsAscii o.domain) ∨
      ∃ e : Envelope, Appends o.toBuffer e.bytes ∧ (e.owid = o ↔ IsAscii o.domain) := by
  cases h with
  | created h => exact Or.inr (Creator.exists_written h)
  | received h =>
    obtain ⟨e, rfl⟩ := h.exists_envelope
    have h0 : 0 ∉ encodeUtf8 e.owid.domain := Lib.zero_notMem_encodeUtf8_decodeAscii e.domainNonzero
    by_cases hlen : (encodeUtf8 e.owid.domain).length ≤ maximumDomainLength
    · exact Or.inr (exists_written e.versionKnown h0 hlen e.countFits rfl e.payloadFits
        e.signatureFits)
    · obtain ⟨err, -, hstops⟩ := toBuffer_longDomain h0 (Nat.lt_of_not_le hlen)
      refine Or.inl ⟨fun buffer => ⟨err, _, hstops buffer⟩, fun hascii => hlen ?_⟩
      have hlow : ∀ b ∈ e.domain, b.toNat < 0x80 := Lib.isAscii_decodeAscii.mp hascii
      have hsame : encodeUtf8 e.owid.domain = e.domain := Lib.encodeUtf8_decodeAscii hlow
      rw [hsame]
      exact e.domainShort

/-- A run that was written is frames, one for each node, that read back as the nodes exactly
where the domains are ASCII; otherwise the write of some domain that is not ASCII failed. -/
theorem writeNodes_visits {P : Provider σ κ} {nodes : List (Option Owid)}
    (h : ∀ o, some o ∈ nodes → Held P o) :
    (Fails (writeNodes nodes) ∧ ¬ ∀ o, some o ∈ nodes → IsAscii o.domain) ∨
      ∃ visits : List (Bytes × Option Owid),
        Appends (writeNodes nodes) (visits.map Prod.fst).flatten ∧
        (∀ visit ∈ visits, Lib.Delimits walkTurn visit.1 visit.2) ∧
        visits.map (fun visit => visit.2.isSome) = nodes.map Option.isSome ∧
        (visits.map Prod.snd = nodes ↔ ∀ o, some o ∈ nodes → IsAscii o.domain) := by
  induction nodes with
  | nil =>
    exact Or.inr ⟨[], Lib.Writer.appends_extend [], fun _ hv => absurd hv List.not_mem_nil, rfl,
      iff_of_true rfl fun _ ho => absurd ho List.not_mem_nil⟩
  | cons node nodes ih =>
    have hrest := ih fun o ho => h o (List.mem_cons_of_mem _ ho)
    cases node with
    | none =>
      have hmarker : Appends (writeNode none) [0] := Io.writeByte_appends _
      have hascii : (∀ o, some o ∈ none :: nodes → IsAscii o.domain) ↔
          ∀ o, some o ∈ nodes → IsAscii o.domain := by
        simp
      rw [hascii]
      rcases hrest with ⟨hfails, hnot⟩ | ⟨visits, happends, hvisits, hkinds, hsame⟩
      · exact Or.inl ⟨hmarker.andThen_fails hfails, hnot⟩
      · refine Or.inr ⟨([0], none) :: visits, hmarker.andThen happends, ?_, ?_, ?_⟩
        · intro visit hv
          rcases List.mem_cons.mp hv with rfl | hv
          · exact delimits_marker
          · exact hvisits visit hv
        · rw [List.map_cons, List.map_cons, hkinds]
        · rw [List.map_cons, ← hsame, List.cons.injEq, eq_self, true_and]
    | some o =>
      have hascii : (∀ o', some o' ∈ some o :: nodes → IsAscii o'.domain) ↔
          IsAscii o.domain ∧ ∀ o', some o' ∈ nodes → IsAscii o'.domain := by
        simp
      rw [hascii]
      rcases (h o (List.mem_cons_self ..)).written with ⟨hfails, hnot⟩ | ⟨e, hwritten, hback⟩
      · exact Or.inl ⟨hfails.andThen, fun hboth => hnot hboth.1⟩
      · have hnode : Appends (writeNode (some o)) e.bytes := hwritten
        rcases hrest with ⟨hfails, hnot⟩ | ⟨visits, happends, hvisits, hkinds, hsame⟩
        · exact Or.inl ⟨hnode.andThen_fails hfails, fun hboth => hnot hboth.2⟩
        · refine Or.inr ⟨(e.bytes, some e.owid) :: visits, hnode.andThen happends, ?_, ?_, ?_⟩
          · intro visit hv
            rcases List.mem_cons.mp hv with rfl | hv
            · exact delimits_envelope e
            · exact hvisits visit hv
          · rw [List.map_cons, List.map_cons, hkinds]
            rfl
          · rw [List.map_cons, List.cons.injEq, Option.some.injEq, hback, hsame]

/-- **Nodes that are written and sent arrive.** A list of OWIDs that a caller can hold and of
absent nodes is written whole where the domains are ASCII. What was written, sent in any
pieces, is read to its end with an OWID where one was written and an absent node where none
was, and the nodes come back as they were exactly where the domains are ASCII. -/
theorem nodes_arrive_iff {P : Provider σ κ} {nodes : List (Option Owid)}
    (h : ∀ o, some o ∈ nodes → Held P o) :
    ((∀ o, some o ∈ nodes → IsAscii o.domain) →
      ∃ buffer, (writeNodes nodes).toValue = .ok buffer) ∧
    ∀ buffer, (writeNodes nodes).toValue = .ok buffer → ∀ chunks : List Bytes,
      chunks.flatten = buffer → ∃ visits, receive chunks = .ok (some (visits, [])) ∧
        visits.map (fun visit => visit.2.isSome) = nodes.map Option.isSome ∧
        (visits.map Prod.snd = nodes ↔ ∀ o, some o ∈ nodes → IsAscii o.domain) := by
  rcases writeNodes_visits h with ⟨hfails, hnot⟩ | ⟨visits, happends, hvisits, hkinds, hsame⟩
  · exact ⟨fun hascii => absurd hascii hnot,
      fun buffer hbuffer => absurd hbuffer hfails.toValue_ne_ok⟩
  · refine ⟨fun _ => ⟨_, happends.toValue⟩, ?_⟩
    intro buffer hbuffer chunks hchunks
    cases happends.toValue.symm.trans hbuffer
    obtain ⟨visits', left, hreceive, hwalk⟩ := receive_chunks chunks
    rw [hchunks] at hwalk
    -- the walk over what was written visits the frames of it
    have hall := Lib.whileData_flatten hvisits (Nat.le_refl _)
    cases (hwalk _ (Nat.le_refl _)).symm.trans hall
    exact ⟨visits, hreceive, hkinds, hsame⟩

/-- An envelope and an absent node, sent a byte at a time. -/
theorem nodes_arrive_iff_bytes :
    ∃ (o : Owid) (chunks : List Bytes) (visits : List (Bytes × Option Owid)),
      (∀ chunk ∈ chunks, chunk.length = 1) ∧ receive chunks = .ok (some (visits, [])) ∧
        visits.map Prod.snd = [some o, none] := by
  let e := plainEnvelope [0x61] (by decide) (by decide)
  have hheld : ∀ o, some o ∈ [some e.owid, none] → Held Provider.plain o := by
    intro o ho
    rcases List.mem_cons.mp ho with ho | ho
    · cases ho
      exact .received e.received
    · cases List.mem_singleton.mp ho
  have hascii : ∀ o, some o ∈ [some e.owid, none] → IsAscii o.domain := by
    intro o ho
    rcases List.mem_cons.mp ho with ho | ho
    · cases ho
      decide
    · cases List.mem_singleton.mp ho
  obtain ⟨htotal, harrive⟩ := nodes_arrive_iff hheld
  obtain ⟨buffer, hbuffer⟩ := htotal hascii
  have hflat : (buffer.map fun b => [b]).flatten = buffer := by
    rw [← List.flatMap_def, List.flatMap_singleton']
  obtain ⟨visits, hreceive, -, hback⟩ := harrive buffer hbuffer _ hflat
  refine ⟨e.owid, _, visits, ?_, hreceive, hback.mpr hascii⟩
  intro chunk hchunk
  obtain ⟨b, -, rfl⟩ := List.mem_map.mp hchunk
  rfl

end OpenWebId
