import LcmBridge.Library.Bytes

/-!
# Wire Protocol

The two kinds of LCM datagram and the functions between them and their bytes.

A short message carries a whole payload: magic, sequence number, the channel
name closed by a zero byte, then the data. A fragment carries a slice of one:
a 20-byte header, and only in fragment number zero the channel name, again
closed by a zero byte, then the data. All integers are big-endian.

The encoders and the parsers are separate functions, written independently of
each other here as in the source. An encoder writes whatever name it is
given. A parser reads the name up to the first zero byte.

## Main definitions

* `ShortMessage`, `Fragment`, `Packet`: The parsed datagrams.
* `parseDatagram`: The dispatch on the magic number.
* `parseShortMessage`, `parseFragment`: The parsers of the two kinds.
* `encodeShortMessage`, `encodeFragment`: The encoders of the two kinds.

## Theorems

* `length_encodeShortMessage`, `length_encodeFragment`: The size of a datagram.
-/

namespace LcmBridge

open Bytes

/-- "LC02" in ASCII. -/
def magicShort : UInt32 := 0x4c433032

/-- "LC03" in ASCII. -/
def magicFragment : UInt32 := 0x4c433033

/-- Minimum size of a short message header. -/
def shortHeaderSize : Nat := 4 + 4

/-- Size of a fragment header. -/
def fragmentHeaderSize : Nat := 20

/-- A parsed short message. -/
structure ShortMessage where
  sequenceNumber : UInt32
  channel : String
  data : List UInt8
  deriving DecidableEq, Repr

/-- A parsed fragment. The channel is only present in fragment number zero. -/
structure Fragment where
  sequenceNumber : UInt32
  payloadSize : UInt32
  fragmentOffset : UInt32
  fragmentNumber : UInt16
  nFragments : UInt16
  channel : Option String
  data : List UInt8
  deriving DecidableEq, Repr

/-- The result of parsing a datagram. -/
inductive Packet where
  | short (msg : ShortMessage)
  | fragment (frag : Fragment)
  deriving DecidableEq, Repr

/-- Parse a datagram that carries the short message magic. -/
def parseShortMessage (buf : List UInt8) : Option Packet :=
  if h : buf.length < shortHeaderSize then none
  else
    have hlen : 8 ≤ buf.length := Nat.le_of_not_lt h
    let sequenceNumber := readU32 buf 4 hlen
    let channelAndData := buf.drop 8
    match splitAtNul channelAndData with
    | none => none
    | some (name, data) =>
        match fromUtf8 name with
        | none => none
        | some channel => some (.short { sequenceNumber, channel, data })

/-- Parse a datagram that carries the fragment magic. -/
def parseFragment (buf : List UInt8) : Option Packet :=
  if h : buf.length < fragmentHeaderSize then none
  else
    have hlen : 20 ≤ buf.length := Nat.le_of_not_lt h
    let sequenceNumber := readU32 buf 4 (by omega)
    let payloadSize := readU32 buf 8 (by omega)
    let fragmentOffset := readU32 buf 12 (by omega)
    let fragmentNumber := readU16 buf 16 (by omega)
    let nFragments := readU16 buf 18 hlen
    let rest := buf.drop fragmentHeaderSize
    if fragmentNumber = 0 then
      -- The first fragment carries the channel name.
      match splitAtNul rest with
      | none => none
      | some (name, data) =>
          match fromUtf8 name with
          | none => none
          | some channel =>
              some (.fragment { sequenceNumber, payloadSize, fragmentOffset, fragmentNumber,
                                nFragments, channel := some channel, data })
    else
      some (.fragment { sequenceNumber, payloadSize, fragmentOffset, fragmentNumber,
                        nFragments, channel := none, data := rest })

/-- Parse a raw UDP datagram. `none` if it is too small or not recognised. -/
def parseDatagram (buf : List UInt8) : Option Packet :=
  if h : buf.length < 4 then none
  else
    have hlen : 4 ≤ buf.length := Nat.le_of_not_lt h
    let magic := readU32 buf 0 hlen
    if magic = magicShort then parseShortMessage buf
    else if magic = magicFragment then parseFragment buf
    else none

/-- Encode a short message. -/
def encodeShortMessage (sequenceNumber : UInt32) (channel : String) (data : List UInt8) :
    List UInt8 :=
  u32ToBeBytes magicShort ++ u32ToBeBytes sequenceNumber ++ asBytes channel ++ [0] ++ data

/-- Encode a fragment header and its data, with the channel name between them
    if one is given. -/
def encodeFragment (sequenceNumber payloadSize fragmentOffset : UInt32)
    (fragmentNumber nFragments : UInt16) (channel : Option String) (data : List UInt8) :
    List UInt8 :=
  u32ToBeBytes magicFragment ++ u32ToBeBytes sequenceNumber ++ u32ToBeBytes payloadSize ++
    u32ToBeBytes fragmentOffset ++ u16ToBeBytes fragmentNumber ++ u16ToBeBytes nFragments ++
    (match channel with
      | some channel => asBytes channel ++ [0]
      | none => []) ++ data

theorem length_encodeShortMessage (sequenceNumber : UInt32) (channel : String)
    (data : List UInt8) :
    (encodeShortMessage sequenceNumber channel data).length
      = 9 + (asBytes channel).length + data.length := by
  simp only [encodeShortMessage, List.length_append, length_u32ToBeBytes, List.length_singleton]
  omega

theorem length_encodeFragment (sequenceNumber payloadSize fragmentOffset : UInt32)
    (fragmentNumber nFragments : UInt16) (channel : Option String) (data : List UInt8) :
    (encodeFragment sequenceNumber payloadSize fragmentOffset fragmentNumber nFragments channel
      data).length
      = 20 + (match channel with
        | some channel => (asBytes channel).length + 1
        | none => 0) + data.length := by
  cases channel <;>
    simp only [encodeFragment, List.length_append, length_u32ToBeBytes, length_u16ToBeBytes,
      List.length_singleton, List.length_nil]

end LcmBridge
