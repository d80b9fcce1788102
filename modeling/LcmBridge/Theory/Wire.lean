import LcmBridge.Library.Codec
import LcmBridge.Core.Protocol

/-!
# The Wire Codec

The encoders and the parser of the wire protocol are inverse to each other.

The encoders are total but not faithful everywhere. A channel name that holds
a NUL character is cut short by the reader, and a fragment whose channel is
present when its number is not zero, or absent when it is, is read with the
channel bytes in the wrong place. `Packet.WellFormed` leaves out exactly these
packets, and `wireCodec` packages the two round trips between what is left and
the datagrams the parser accepts.

The parser's result on an encoding is computed for *every* channel, not only
the faithful ones (`parse_encodeShortMessage`, `parse_encodeFragment`):
the sender does not check what it sends, so what a receiver makes of the rest
matters too.

## Main definitions

* `NulFree`: A channel name without the NUL character.
* `readName`: What a parser reads from a name field.
* `fragmentBody`: What follows the header of a fragment.
* `encodePacket`: The encoder that matches a packet's kind.
* `Packet.WellFormed`: The packets the encoders are faithful on.
* `wireCodec`: The codec between well-formed packets and datagrams.

## Theorems

* `nulFree_iff`: NUL characters are zero bytes.
* `parse_encodeShortMessage`: What is read from a short message.
* `parse_encodeFragment`: What is read from a fragment.
* `encodePacket_of_parse`: Re-encoding what was parsed gives the input back.
* `wire_bijection`: The exact domains of both round trips.
-/

namespace LcmBridge

open Bytes

/-- The channel name holds no NUL character. -/
def NulFree (channel : String) : Prop := '\x00' ∉ channel.toList

instance (channel : String) : Decidable (NulFree channel) :=
  inferInstanceAs (Decidable (¬ _))

theorem nulFree_iff (channel : String) : NulFree channel ↔ (0 : UInt8) ∉ asBytes channel := by
  rw [NulFree, zero_mem_asBytes_iff]

/-! ### Parsing an encoding -/

/-- What a parser reads from a name field: the name before the first zero byte
    and the bytes after it. -/
def readName (bs : List UInt8) : Option (String × List UInt8) :=
  match splitAtNul bs with
  | none => none
  | some (name, rest) => (fromUtf8 name).map (fun channel => (channel, rest))

theorem readName_append (channel : String) (data : List UInt8) (h : (0 : UInt8) ∉ asBytes channel) :
    readName (asBytes channel ++ 0 :: data) = some (channel, data) := by
  simp only [readName, splitAtNul_append _ _ h, fromUtf8_asBytes, Option.map_some]

-- Left to right, the name is the UTF-8 decoding of the bytes before the zero,
-- and decoding loses nothing.
theorem readName_eq_some_iff {bs data : List UInt8} {channel : String} :
    readName bs = some (channel, data) ↔
      bs = asBytes channel ++ 0 :: data ∧ (0 : UInt8) ∉ asBytes channel := by
  constructor
  · intro h
    rw [readName] at h
    cases hsplit : splitAtNul bs with
    | none =>
        rw [hsplit] at h
        exact absurd h (by simp only [reduceCtorEq, not_false_eq_true])
    | some p =>
        obtain ⟨name, rest⟩ := p
        rw [hsplit] at h
        simp only [Option.map_eq_some_iff, Prod.mk.injEq] at h
        rcases h with ⟨c, hc, rfl, rfl⟩
        rw [asBytes_of_fromUtf8 hc]
        exact splitAtNul_eq_some_iff.mp hsplit
  · intro h
    rcases h with ⟨rfl, h⟩
    exact readName_append channel data h

-- Each field is read back from its own position; the name is left to
-- `readName`, since it may be cut short.
theorem parse_encodeShortMessage (sequenceNumber : UInt32) (channel : String)
    (data : List UInt8) :
    parseDatagram (encodeShortMessage sequenceNumber channel data)
      = (readName (asBytes channel ++ 0 :: data)).map
          (fun p => Packet.short ⟨sequenceNumber, p.1, p.2⟩) := by
  set buf := encodeShortMessage sequenceNumber channel data with hbuf
  have hlen : 9 ≤ buf.length := by
    rw [hbuf, length_encodeShortMessage]
    omega
  have hmagic : readU32 buf 0 (by omega) = magicShort := by
    rw [readU32_eq_iff, hbuf]
    simp only [encodeShortMessage, List.append_assoc, List.drop_zero]
    rfl
  have hseq : readU32 buf 4 (by omega) = sequenceNumber := by
    rw [readU32_eq_iff, hbuf]
    simp only [encodeShortMessage, List.append_assoc]
    rfl
  have hrest : buf.drop 8 = asBytes channel ++ 0 :: data := by
    rw [hbuf]
    simp only [encodeShortMessage, List.append_assoc, List.singleton_append]
    rfl
  rw [parseDatagram, dif_neg (by omega)]
  simp only [hmagic, if_true]
  rw [parseShortMessage, dif_neg (by simp only [shortHeaderSize]; omega)]
  simp only [hseq, hrest, readName]
  cases splitAtNul (asBytes channel ++ 0 :: data) with
  | none => rfl
  | some p => cases hu : fromUtf8 p.1 <;> simp only [hu, Option.map_none, Option.map_some]

/-- What follows the header of an encoded fragment. -/
def fragmentBody (channel : Option String) (data : List UInt8) : List UInt8 :=
  match channel with
  | some channel => asBytes channel ++ 0 :: data
  | none => data

theorem parse_encodeFragment (sequenceNumber payloadSize fragmentOffset : UInt32)
    (fragmentNumber nFragments : UInt16) (channel : Option String) (data : List UInt8) :
    parseDatagram (encodeFragment sequenceNumber payloadSize fragmentOffset fragmentNumber
        nFragments channel data)
      = if fragmentNumber = 0 then
          (readName (fragmentBody channel data)).map (fun p => Packet.fragment
            ⟨sequenceNumber, payloadSize, fragmentOffset, fragmentNumber, nFragments,
              some p.1, p.2⟩)
        else
          some (Packet.fragment ⟨sequenceNumber, payloadSize, fragmentOffset, fragmentNumber,
            nFragments, none, fragmentBody channel data⟩) := by
  set buf := encodeFragment sequenceNumber payloadSize fragmentOffset fragmentNumber nFragments
    channel data with hbuf
  have hlen : 20 ≤ buf.length := by
    rw [hbuf, length_encodeFragment]
    omega
  -- Each header field stands at its own fixed position.
  have hmagic : readU32 buf 0 (by omega) = magicFragment := by
    rw [readU32_eq_iff, hbuf]
    simp only [encodeFragment, List.append_assoc, List.drop_zero]
    rfl
  have hseq : readU32 buf 4 (by omega) = sequenceNumber := by
    rw [readU32_eq_iff, hbuf]
    simp only [encodeFragment, List.append_assoc]
    rfl
  have hsize : readU32 buf 8 (by omega) = payloadSize := by
    rw [readU32_eq_iff, hbuf]
    simp only [encodeFragment, List.append_assoc]
    rfl
  have hoff : readU32 buf 12 (by omega) = fragmentOffset := by
    rw [readU32_eq_iff, hbuf]
    simp only [encodeFragment, List.append_assoc]
    rfl
  have hnum : readU16 buf 16 (by omega) = fragmentNumber := by
    rw [readU16_eq_iff, hbuf]
    simp only [encodeFragment, List.append_assoc]
    rfl
  have hn : readU16 buf 18 (by omega) = nFragments := by
    rw [readU16_eq_iff, hbuf]
    simp only [encodeFragment, List.append_assoc]
    rfl
  have hrest : buf.drop 20 = fragmentBody channel data := by
    rw [hbuf]
    cases channel <;>
      simp only [encodeFragment, fragmentBody, List.append_assoc, List.singleton_append,
        List.nil_append] <;>
      rfl
  have hmagicNe : magicFragment ≠ magicShort := by decide
  rw [parseDatagram, dif_neg (by omega)]
  simp only [hmagic, if_neg hmagicNe, if_true]
  rw [parseFragment, dif_neg (by simp only [fragmentHeaderSize]; omega)]
  simp only [hseq, hsize, hoff, hnum, hn, fragmentHeaderSize, hrest, readName]
  by_cases h0 : fragmentNumber = 0
  · rw [if_pos h0, if_pos h0]
    cases splitAtNul (fragmentBody channel data) with
    | none => rfl
    | some p => cases hu : fromUtf8 p.1 <;> simp only [hu, Option.map_none, Option.map_some]
  · rw [if_neg h0, if_neg h0]

/-! ### Re-encoding what was parsed -/

/-- The encoder that matches the packet's kind. -/
def encodePacket : Packet → List UInt8
  | .short msg => encodeShortMessage msg.sequenceNumber msg.channel msg.data
  | .fragment frag =>
      encodeFragment frag.sequenceNumber frag.payloadSize frag.fragmentOffset frag.fragmentNumber
        frag.nFragments frag.channel frag.data

/-- A fragment carries a channel exactly when its number is zero, and the
    channel holds no NUL character. -/
def Fragment.WellFormed (frag : Fragment) : Prop :=
  (frag.channel.isSome = true ↔ frag.fragmentNumber = 0) ∧
    ∀ channel, frag.channel = some channel → NulFree channel

instance (frag : Fragment) : Decidable frag.WellFormed :=
  inferInstanceAs (Decidable (_ ∧ ∀ channel ∈ frag.channel, NulFree channel))

/-- The packets the encoders are faithful on. -/
def Packet.WellFormed : Packet → Prop
  | .short msg => NulFree msg.channel
  | .fragment frag => frag.WellFormed

-- The checks that a parse has passed, with what it read.
theorem parseShortMessage_eq_some {buf : List UInt8} {p : Packet}
    (h : parseShortMessage buf = some p) :
    ∃ (hlen : 8 ≤ buf.length) (channel : String) (data : List UInt8),
      readName (buf.drop 8) = some (channel, data) ∧
        p = .short ⟨readU32 buf 4 hlen, channel, data⟩ := by
  rw [parseShortMessage] at h
  split at h
  · simp only [reduceCtorEq] at h
  · next hlen =>
      refine ⟨Nat.le_of_not_lt hlen, ?_⟩
      dsimp only at h
      cases hsplit : splitAtNul (buf.drop 8) with
      | none => simp only [hsplit, reduceCtorEq] at h
      | some q =>
          cases hu : fromUtf8 q.1 with
          | none => simp only [hsplit, hu, reduceCtorEq] at h
          | some channel =>
              simp only [hsplit, hu, Option.some.injEq] at h
              exact ⟨channel, q.2, by simp only [readName, hsplit, hu, Option.map_some], h.symm⟩

/-- A buffer is the word it starts with, then the rest. -/
theorem drop_eq_u32 (buf : List UInt8) (i : Nat) (h : i + 4 ≤ buf.length) :
    buf.drop i = u32ToBeBytes (readU32 buf i h) ++ buf.drop (i + 4) := by
  rw [← (readU32_eq_iff h _).mp rfl, ← List.drop_drop, List.take_append_drop]

theorem drop_eq_u16 (buf : List UInt8) (i : Nat) (h : i + 2 ≤ buf.length) :
    buf.drop i = u16ToBeBytes (readU16 buf i h) ++ buf.drop (i + 2) := by
  rw [← (readU16_eq_iff h _).mp rfl, ← List.drop_drop, List.take_append_drop]

theorem parseFragment_eq_some {buf : List UInt8} {p : Packet} (h : parseFragment buf = some p) :
    ∃ (h4 : 4 + 4 ≤ buf.length) (h8 : 8 + 4 ≤ buf.length) (h12 : 12 + 4 ≤ buf.length)
      (h16 : 16 + 2 ≤ buf.length) (h18 : 18 + 2 ≤ buf.length) (channel : Option String)
      (data : List UInt8),
      buf.drop 20 = fragmentBody channel data ∧
        (channel.isSome = true ↔ readU16 buf 16 h16 = 0) ∧
        (∀ c, channel = some c → NulFree c) ∧
        p = .fragment ⟨readU32 buf 4 h4, readU32 buf 8 h8, readU32 buf 12 h12,
          readU16 buf 16 h16, readU16 buf 18 h18, channel, data⟩ := by
  rw [parseFragment] at h
  split at h
  · simp only [reduceCtorEq] at h
  · next hlen =>
      dsimp only [fragmentHeaderSize] at h hlen
      refine ⟨by omega, by omega, by omega, by omega, by omega, ?_⟩
      split at h
      · next h0 =>
          -- Fragment zero: the body starts with a name.
          cases hsplit : splitAtNul (buf.drop 20) with
          | none => simp only [hsplit, reduceCtorEq] at h
          | some q =>
              cases hu : fromUtf8 q.1 with
              | none => simp only [hsplit, hu, reduceCtorEq] at h
              | some channel =>
                  simp only [hsplit, hu, Option.some.injEq] at h
                  have hread : readName (buf.drop 20) = some (channel, q.2) := by
                    simp only [readName, hsplit, hu, Option.map_some]
                  rcases readName_eq_some_iff.mp hread with ⟨hbody, hnul⟩
                  refine ⟨some channel, q.2, hbody, ?_, ?_, h.symm⟩
                  · simp only [Option.isSome_some, h0]
                  · intro c hc
                    rw [← Option.some.inj hc, nulFree_iff]
                    exact hnul
      · next h0 =>
          refine ⟨none, buf.drop 20, rfl, ?_, ?_, (Option.some.inj h).symm⟩
          · simp only [Option.isSome_none, Bool.false_eq_true, h0]
          · intro c hc
            exact absurd hc (by simp only [reduceCtorEq, not_false_eq_true])

-- The buffer is taken apart word by word, in the order in which the encoder
-- puts them together.
theorem encodePacket_of_parse {buf : List UInt8} {p : Packet} (h : parseDatagram buf = some p) :
    p.WellFormed ∧ encodePacket p = buf := by
  rw [parseDatagram] at h
  split at h
  · simp only [reduceCtorEq] at h
  · next hlen4 =>
      dsimp only at h
      have hmagic := drop_eq_u32 buf 0 (by omega)
      split at h
      · next hm =>
          rcases parseShortMessage_eq_some h with ⟨hlen, channel, data, hname, rfl⟩
          rcases readName_eq_some_iff.mp hname with ⟨hbody, hnul⟩
          refine ⟨(nulFree_iff channel).mpr hnul, ?_⟩
          rw [hm, drop_eq_u32 buf 4 hlen, hbody, List.drop_zero] at hmagic
          conv_rhs => rw [hmagic]
          simp only [encodePacket, encodeShortMessage, List.append_assoc, List.singleton_append]
      · split at h
        · next hm =>
            rcases parseFragment_eq_some h with
              ⟨h4, h8, h12, h16, h18, channel, data, hbody, hiff, hnul, rfl⟩
            refine ⟨⟨hiff, hnul⟩, ?_⟩
            have hwhole : buf = u32ToBeBytes magicFragment ++ buf.drop 4 := by
              rw [hm, List.drop_zero] at hmagic
              exact hmagic
            rw [drop_eq_u32 buf 4 h4, drop_eq_u32 buf 8 h8, drop_eq_u32 buf 12 h12,
              drop_eq_u16 buf 16 h16, drop_eq_u16 buf 18 h18, hbody] at hwhole
            conv_rhs => rw [hwhole]
            cases channel <;>
              simp only [encodePacket, encodeFragment, fragmentBody, List.append_assoc,
                List.singleton_append, List.nil_append]
        · simp only [reduceCtorEq] at h

-- A well-formed packet has its channel where the parser looks for it.
theorem parse_encodePacket {p : Packet} (h : p.WellFormed) :
    parseDatagram (encodePacket p) = some p := by
  cases p with
  | short msg =>
      rw [encodePacket, parse_encodeShortMessage,
        readName_append _ _ ((nulFree_iff msg.channel).mp h), Option.map_some]
  | fragment frag =>
      rcases h with ⟨hiff, hnul⟩
      rw [encodePacket, parse_encodeFragment]
      cases hc : frag.channel with
      | none =>
          rw [hc] at hiff
          have h0 : frag.fragmentNumber ≠ 0 := by
            intro hz
            exact absurd (hiff.mpr hz) (by simp only [Option.isSome_none, Bool.false_eq_true,
              not_false_eq_true])
          rw [if_neg h0, fragmentBody, ← hc]
      | some channel =>
          rw [hc] at hiff
          have h0 : frag.fragmentNumber = 0 := hiff.mp rfl
          rw [if_pos h0, fragmentBody,
            readName_append _ _ ((nulFree_iff channel).mp (hnul channel hc)), Option.map_some,
            ← hc]

/-- The wire codec: well-formed packets on one side, datagrams on the other. -/
def wireCodec : Codec Packet (List UInt8) where
  Valid := Packet.WellFormed
  encode := encodePacket
  decode := parseDatagram
  decode_encode _ h := parse_encodePacket h
  encode_decode _ _ h := encodePacket_of_parse h

/-- The two round trips, each with its exact domain: encoding then parsing
    returns a packet unchanged exactly when it is well formed, parsing then
    encoding returns every accepted datagram unchanged, and what is refused is
    exactly what no well-formed packet encodes to. -/
theorem wire_bijection :
    (∀ (sequenceNumber : UInt32) (channel : String) (data : List UInt8),
      parseDatagram (encodeShortMessage sequenceNumber channel data)
          = some (.short ⟨sequenceNumber, channel, data⟩) ↔ NulFree channel) ∧
    (∀ (sequenceNumber payloadSize fragmentOffset : UInt32) (fragmentNumber nFragments : UInt16)
      (channel : Option String) (data : List UInt8),
      parseDatagram (encodeFragment sequenceNumber payloadSize fragmentOffset fragmentNumber
            nFragments channel data)
          = some (.fragment ⟨sequenceNumber, payloadSize, fragmentOffset, fragmentNumber,
              nFragments, channel, data⟩) ↔
        (channel.isSome = true ↔ fragmentNumber = 0) ∧
          ∀ name, channel = some name → NulFree name) ∧
    (∀ (buf : List UInt8) (p : Packet), parseDatagram buf = some p → encodePacket p = buf) ∧
    (∀ buf : List UInt8,
      parseDatagram buf = none ↔ ¬ ∃ p : Packet, p.WellFormed ∧ encodePacket p = buf) := by
  refine ⟨?_, ?_, ?_, ?_⟩
  · intro sequenceNumber channel data
    have h := wireCodec.decode_encode_iff (.short ⟨sequenceNumber, channel, data⟩)
    simpa only [wireCodec, encodePacket, Packet.WellFormed] using h
  · intro sequenceNumber payloadSize fragmentOffset fragmentNumber nFragments channel data
    have h := wireCodec.decode_encode_iff (.fragment ⟨sequenceNumber, payloadSize,
      fragmentOffset, fragmentNumber, nFragments, channel, data⟩)
    simpa only [wireCodec, encodePacket, Packet.WellFormed, Fragment.WellFormed] using h
  · intro buf p h
    exact (encodePacket_of_parse h).2
  · exact wireCodec.decode_eq_none_iff

end LcmBridge
