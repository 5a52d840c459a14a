import Limpid.Wire

/-!
# LTP frames

`ltp.rs` and `modules/input/ltp.rs`.  A frame is a magic number, a version, the metadata and the
payload, each with its length in four bytes before it.  `encodeFrame` writes one.  There are two
decoders: `decodeFrame` takes a frame apart that has been received as a whole, `readFrame` reads
one off a connection and leaves its metadata undecoded.

The metadata are a protobuf message.  Its codec is the `prost` crate's and a parameter: a
`Message`.
-/

namespace Limpid.Ltp

open Limpid.Wire

/-! ## Messages -/

/-- `HopStamp`. -/
structure HopStamp where
  nodeId : String
  arrivalUnixNano : UInt64
  departureUnixNano : UInt64
deriving DecidableEq

/-- `LtpMeta`. -/
structure LtpMeta where
  key : Bytes
  stamps : List HopStamp
deriving DecidableEq

/-- The part of `prost::Message` the frames use, with the error `δ` of its decoder. -/
structure Message (M δ : Type) where
  encodedLen : M → ℕ
  encodeRaw : M → Bytes
  decode : Bytes → Except δ M

/-! ## Encoding -/

/-- `"LTP\0"`. -/
def frameMagic : Bytes := [76, 84, 80, 0]

/-- `FRAME_VERSION`. -/
def frameVersion : UInt8 := 1

/-- `META_LEN_SIZE`. -/
def metaLenSize : ℕ := 4

/-- `PAYLOAD_LEN_SIZE`. -/
def payloadLenSize : ℕ := 4

/-- `FRAME_PREFIX_SIZE`. -/
def framePrefixSize : ℕ := frameMagic.length + 1 + metaLenSize

/-- `MAX_META_LEN`. -/
def maxMetaLen : ℕ := 64 * 1024

/-- `MAX_PAYLOAD_LEN`. -/
def maxPayloadLen : ℕ := 16 * 1024 * 1024

/-- `FrameError`. -/
inductive FrameError (δ : Type) where
  | badMagic
  | version (version : UInt8)
  | metaTooLarge (length : ℕ)
  | payloadTooLarge (length : ℕ)
  | truncated
  | trailing
  | metaDecode (error : δ)

/-- `encode_message_frame`. -/
def encodeMessageFrame {M δ : Type} (codec : Message M δ) (msg : M) (payload : Bytes) :
    Except (FrameError δ) Bytes :=
  let metaLen := codec.encodedLen msg
  if maxMetaLen < metaLen then .error (.metaTooLarge metaLen)
  else if maxPayloadLen < payload.length then .error (.payloadTooLarge payload.length)
  else .ok (frameMagic ++ [frameVersion] ++ toBe metaLenSize metaLen ++ codec.encodeRaw msg ++
    toBe payloadLenSize payload.length ++ payload)

/-- `encode_frame`. -/
def encodeFrame {δ : Type} (codec : Message LtpMeta δ) (msg : LtpMeta) (payload : Bytes) :
    Except (FrameError δ) Bytes :=
  encodeMessageFrame codec msg payload

/-! ## Decoding a whole frame -/

/-- `bytes[start..stop]`. -/
def slice (bytes : Bytes) (start stop : ℕ) : Bytes := (bytes.take stop).drop start

/-- `decode_frame`. -/
def decodeFrame {δ : Type} (codec : Message LtpMeta δ) (frame : Bytes) :
    Except (FrameError δ) (LtpMeta × Bytes) :=
  if frame.length < frameMagic.length then .error .truncated
  else if slice frame 0 frameMagic.length ≠ frameMagic then .error .badMagic
  else if frame.length < frameMagic.length + 1 then .error .truncated
  else
    let version := frame.getD frameMagic.length 0
    if version ≠ frameVersion then .error (.version version)
    else if frame.length < framePrefixSize then .error .truncated
    else
      let metaLen := ofBe (slice frame (frameMagic.length + 1) framePrefixSize)
      if maxMetaLen < metaLen then .error (.metaTooLarge metaLen)
      else
        let metaEnd := framePrefixSize + metaLen
        let payloadLenEnd := metaEnd + payloadLenSize
        if frame.length < payloadLenEnd then .error .truncated
        else
          let payloadLen := ofBe (slice frame metaEnd payloadLenEnd)
          if maxPayloadLen < payloadLen then .error (.payloadTooLarge payloadLen)
          else
            let payloadEnd := payloadLenEnd + payloadLen
            if frame.length < payloadEnd then .error .truncated
            else if payloadEnd < frame.length then .error .trailing
            else
              match codec.decode (slice frame framePrefixSize metaEnd) with
              | .error error => .error (.metaDecode error)
              | .ok msg => .ok (msg, slice frame payloadLenEnd payloadEnd)

/-! ## Reading a frame off a connection -/

/-- `RawFrame`. -/
structure RawFrame where
  metadata : Bytes
  payload : Bytes
deriving DecidableEq

/-- Why a frame is not read. -/
inductive ReadError where
  | truncatedPrefix
  | badMagic
  | version (version : UInt8)
  | metaTooLarge (length : ℕ)
  | truncatedMetadata
  | truncatedPayloadLength
  | payloadTooLarge (length : ℕ)
  | truncatedPayload
deriving DecidableEq

/-- `read_frame_inner` on a connection that ends but does not fail: a frame and what is left of
the connection, or nothing if it has ended before the first byte.  The loop that reads the
payload is the one of `read_exact`. -/
def readFrame (reader : Reader) : Except ReadError (Option (RawFrame × Reader)) :=
  match readExact 1 reader with
  | none => .ok none
  | some (first, reader) =>
  match readExact (framePrefixSize - 1) reader with
  | none => .error .truncatedPrefix
  | some (others, reader) =>
    let head := first ++ others
    if slice head 0 frameMagic.length ≠ frameMagic then .error .badMagic
    else
      let version := head.getD frameMagic.length 0
      if version ≠ frameVersion then .error (.version version)
      else
        let metaLen := ofBe (slice head 5 9)
        if maxMetaLen < metaLen then .error (.metaTooLarge metaLen)
        else
          match readExact metaLen reader with
          | none => .error .truncatedMetadata
          | some (metadata, reader) =>
          match readExact payloadLenSize reader with
          | none => .error .truncatedPayloadLength
          | some (payloadLenBytes, reader) =>
            let payloadLen := ofBe payloadLenBytes
            if maxPayloadLen < payloadLen then .error (.payloadTooLarge payloadLen)
            else
              match readExact payloadLen reader with
              | none => .error .truncatedPayload
              | some (payload, reader) => .ok (some (⟨metadata, payload⟩, reader))

/-- Successive `read_frame` calls return `frames`, and the connection is then in a state that
satisfies `done`. -/
def ReadsThen (done : Reader → Prop) : Reader → List RawFrame → Prop
  | reader, [] => done reader
  | reader, frame :: frames =>
      ∃ rest, readFrame reader = .ok (some (frame, rest)) ∧ ReadsThen done rest frames

/-- `read_frame` finds the end of the connection. -/
def AtEnd (reader : Reader) : Prop := readFrame reader = .ok none

/-- The next frame is not read. -/
def Fails (reader : Reader) : Prop := ∃ error, readFrame reader = .error error

end Limpid.Ltp
