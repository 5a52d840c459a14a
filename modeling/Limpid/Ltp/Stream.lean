import Limpid.Ltp.Frame

/-!
# Frames on a stream

The bytes of a frame are `image`.  Both decoders accept a stream exactly when it begins with the
image of a frame within the limits: `readFrame_eq_some` and `readFrame_of_image` say so for the
connection, `decodeFrame_eq_ok` for a whole frame.  Everything else follows from these.

* A stream of images is read back image by image, in whatever pieces it arrives
  (`readsThen_images`).
* No image is the beginning of another (`image_append_inj`), so a stream that ends within an image
  is an error (`fails_of_cut`).
* The two decoders agree, because they are described by the same image.
-/

namespace Limpid.Ltp

open Limpid.Wire

/-! ## The image of a frame -/

/-- The fixed-size beginning of a frame. -/
def head (metaLen : ℕ) : Bytes := frameMagic ++ [frameVersion] ++ toBe metaLenSize metaLen

/-- The bytes of a frame. -/
def image (frame : RawFrame) : Bytes :=
  head frame.metadata.length ++ (frame.metadata ++
    (toBe payloadLenSize frame.payload.length ++ frame.payload))

/-- Both parts fit the limits. -/
def RawFrame.InBounds (frame : RawFrame) : Prop :=
  frame.metadata.length ≤ maxMetaLen ∧ frame.payload.length ≤ maxPayloadLen

@[simp] theorem length_head (metaLen : ℕ) : (head metaLen).length = framePrefixSize := by
  simp [head, framePrefixSize, frameMagic, metaLenSize]

theorem head_magic (metaLen : ℕ) : slice (head metaLen) 0 frameMagic.length = frameMagic := rfl

theorem head_version (metaLen : ℕ) : (head metaLen).getD frameMagic.length 0 = frameVersion := rfl

theorem lt_of_le_maxMetaLen {n : ℕ} (h : n ≤ maxMetaLen) : n < 256 ^ metaLenSize :=
  h.trans_lt (by decide)

theorem lt_of_le_maxPayloadLen {n : ℕ} (h : n ≤ maxPayloadLen) : n < 256 ^ payloadLenSize :=
  h.trans_lt (by decide)

/-- What passes the checks of both decoders is a head. -/
theorem eq_head {bytes : Bytes} (hlength : bytes.length = framePrefixSize)
    (hmagic : slice bytes 0 frameMagic.length = frameMagic)
    (hversion : bytes.getD frameMagic.length 0 = frameVersion) :
    bytes = head (ofBe (slice bytes (frameMagic.length + 1) framePrefixSize)) := by
  match bytes, hlength with
  | [b₀, b₁, b₂, b₃, b₄, b₅, b₆, b₇, b₈], _ =>
      have hlen : toBe metaLenSize (ofBe [b₅, b₆, b₇, b₈]) = [b₅, b₆, b₇, b₈] :=
        toBe_ofBe [b₅, b₆, b₇, b₈]
      have hfirst : [b₀, b₁, b₂, b₃] = frameMagic := hmagic
      have hfifth : b₄ = frameVersion := hversion
      show _ = frameMagic ++ [frameVersion] ++ toBe metaLenSize (ofBe [b₅, b₆, b₇, b₈])
      rw [hlen, ← hfirst, ← hfifth]
      rfl

/-! ## Reading -/

theorem ite_error_eq_ok {ε α : Type} {c : Prop} [Decidable c] {error : ε} {rest : Except ε α}
    {a : α} : (if c then .error error else rest) = .ok a ↔ ¬c ∧ rest = .ok a := by
  by_cases hc : c
  · simp [hc]
  · simp [hc]

/-- `readFrame` ends cleanly exactly at the end of the stream. -/
theorem atEnd_iff {reader : Reader} : AtEnd reader ↔ reader.flatten = [] := by
  unfold AtEnd
  cases hfirst : readExact 1 reader with
  | none =>
      have hlength := readExact_eq_none.mp hfirst
      have hnil : reader.flatten = [] := List.eq_nil_of_length_eq_zero (by omega)
      simp [readFrame, hfirst, hnil]
  | some result =>
      obtain ⟨first, rest⟩ := result
      obtain ⟨hlength, hflatten⟩ := readExact_eq_some hfirst
      have hne : reader.flatten ≠ [] := by
        rw [hflatten]
        intro hnil
        simp [(List.append_eq_nil_iff.mp hnil).1] at hlength
      simp only [readFrame, hfirst, hne, iff_false]
      repeat' split
      all_goals simp

/-- A frame that is read is the beginning of the stream. -/
theorem readFrame_eq_some {reader rest : Reader} {frame : RawFrame}
    (h : readFrame reader = .ok (some (frame, rest))) :
    frame.InBounds ∧ reader.flatten = image frame ++ rest.flatten := by
  unfold readFrame at h
  split at h
  · exact absurd h (by simp)
  next first reader₁ hfirst =>
  split at h
  · exact absurd h (by simp)
  next others reader₂ hothers =>
  obtain ⟨hmagic, h⟩ := ite_error_eq_ok.mp h
  obtain ⟨hversion, h⟩ := ite_error_eq_ok.mp h
  obtain ⟨hmeta, h⟩ := ite_error_eq_ok.mp h
  split at h
  · exact absurd h (by simp)
  next metadata reader₃ hmetadata =>
  split at h
  · exact absurd h (by simp)
  next payloadLenBytes reader₄ hlen =>
  obtain ⟨hpayloadLen, h⟩ := ite_error_eq_ok.mp h
  split at h
  · exact absurd h (by simp)
  next payload reader₅ hpayload =>
  simp only [Except.ok.injEq, Option.some.injEq, Prod.mk.injEq] at h
  obtain ⟨rfl, rfl⟩ := h
  obtain ⟨hlength₁, hflatten₁⟩ := readExact_eq_some hfirst
  obtain ⟨hlength₂, hflatten₂⟩ := readExact_eq_some hothers
  obtain ⟨hlength₃, hflatten₃⟩ := readExact_eq_some hmetadata
  obtain ⟨hlength₄, hflatten₄⟩ := readExact_eq_some hlen
  obtain ⟨hlength₅, hflatten₅⟩ := readExact_eq_some hpayload
  have hhead : first ++ others = head metadata.length := by
    rw [hlength₃]
    refine eq_head ?_ (not_not.mp hmagic) (not_not.mp hversion)
    rw [List.length_append, hlength₁, hlength₂]
    rfl
  have hbytes : payloadLenBytes = toBe payloadLenSize payload.length := by
    rw [hlength₅, ← hlength₄, toBe_ofBe]
  refine ⟨⟨?_, ?_⟩, ?_⟩
  · show metadata.length ≤ maxMetaLen
    rw [hlength₃]
    exact Nat.le_of_not_lt hmeta
  · show payload.length ≤ maxPayloadLen
    rw [hlength₅]
    exact Nat.le_of_not_lt hpayloadLen
  · show reader.flatten = head metadata.length ++ (metadata ++
      (toBe payloadLenSize payload.length ++ payload)) ++ reader₅.flatten
    rw [hflatten₁, hflatten₂, hflatten₃, hflatten₄, hflatten₅, ← hhead, ← hbytes]
    simp only [List.append_assoc]

/-- A stream that begins with a frame's image yields the frame. -/
theorem readFrame_of_image {reader : Reader} {frame : RawFrame} {more : Bytes}
    (hbounds : frame.InBounds) (h : reader.flatten = image frame ++ more) :
    ∃ rest, readFrame reader = .ok (some (frame, rest)) ∧ rest.flatten = more := by
  obtain ⟨metadata, payload⟩ := frame
  obtain ⟨hmeta, hpayload⟩ := hbounds
  dsimp only at hmeta hpayload
  have hsplit : reader.flatten = [76] ++ ((head metadata.length).drop 1 ++ (metadata ++
      (toBe payloadLenSize payload.length ++ (payload ++ more)))) := by
    rw [h]
    simp [image, head, frameMagic]
  obtain ⟨reader₁, hread₁, hflatten₁⟩ := readExact_append (n := 1) hsplit rfl
  obtain ⟨reader₂, hread₂, hflatten₂⟩ :=
    readExact_append (n := framePrefixSize - 1) hflatten₁ (by simp)
  obtain ⟨reader₃, hread₃, hflatten₃⟩ := readExact_append hflatten₂ rfl
  obtain ⟨reader₄, hread₄, hflatten₄⟩ :=
    readExact_append (n := payloadLenSize) hflatten₃ (by simp)
  obtain ⟨reader₅, hread₅, hflatten₅⟩ := readExact_append hflatten₄ rfl
  have hhead : [76] ++ (head metadata.length).drop 1 = head metadata.length := rfl
  have hmetaLen : ofBe (slice (head metadata.length) 5 9) = metadata.length :=
    ofBe_toBe (lt_of_le_maxMetaLen hmeta)
  have hpayloadLen : ofBe (toBe payloadLenSize payload.length) = payload.length :=
    ofBe_toBe (lt_of_le_maxPayloadLen hpayload)
  refine ⟨reader₅, ?_, hflatten₅⟩
  simp only [readFrame, hread₁, hread₂, hhead, head_magic, head_version, hmetaLen, hread₃, hread₄,
    hpayloadLen, hread₅, ne_eq, not_true_eq_false, ↓reduceIte, Nat.not_lt.mpr hmeta,
    Nat.not_lt.mpr hpayload]

/-! ## Taking a whole frame apart -/

theorem slice_middle (first middle last : Bytes) {start stop : ℕ} (hstart : first.length = start)
    (hstop : start + middle.length = stop) :
    slice (first ++ (middle ++ last)) start stop = middle := by
  subst hstart hstop
  rw [slice, ← List.append_assoc, ← List.length_append, List.take_left, List.drop_left]

theorem length_slice {bytes : Bytes} {start stop : ℕ} (h : stop ≤ bytes.length) :
    (slice bytes start stop).length = stop - start := by
  rw [slice, List.length_drop, List.length_take, Nat.min_eq_left h]

theorem slice_append_slice {bytes : Bytes} {start middle stop : ℕ} (hstart : start ≤ middle)
    (hmiddle : middle ≤ stop) (hstop : stop ≤ bytes.length) :
    slice bytes start middle ++ slice bytes middle stop = slice bytes start stop := by
  have htake : bytes.take middle = (bytes.take stop).take middle := by
    rw [List.take_take, Nat.min_eq_left hmiddle]
  have hlength : start ≤ ((bytes.take stop).take middle).length := by
    rw [List.length_take, List.length_take]
    omega
  simp only [slice]
  rw [htake, ← List.drop_append_of_le_length hlength, List.take_append_drop]

/-- `slice` does not look beyond where it stops. -/
theorem slice_take (bytes : Bytes) {start stop n : ℕ} (h : stop ≤ n) :
    slice (bytes.take n) start stop = slice bytes start stop := by
  rw [slice, slice, List.take_take, Nat.min_eq_left h]

section Decode

variable {δ : Type} {codec : Message LtpMeta δ}

/-- An image with metadata that decode is accepted. -/
theorem decodeFrame_image {frame : RawFrame} {msg : LtpMeta} (hbounds : frame.InBounds)
    (hdecode : codec.decode frame.metadata = .ok msg) :
    decodeFrame codec (image frame) = .ok (msg, frame.payload) := by
  obtain ⟨metadata, payload⟩ := frame
  obtain ⟨hmeta, hpayload⟩ := hbounds
  dsimp only at hmeta hpayload hdecode ⊢
  set bytes := image ⟨metadata, payload⟩ with hbytes
  have hlength : bytes.length =
      framePrefixSize + metadata.length + payloadLenSize + payload.length := by
    simp [hbytes, image, Nat.add_assoc]
  have hmagic : slice bytes 0 frameMagic.length = frameMagic := rfl
  have hversion : bytes.getD frameMagic.length 0 = frameVersion := rfl
  have hmetaLen : ofBe (slice bytes (frameMagic.length + 1) framePrefixSize) = metadata.length :=
    ofBe_toBe (lt_of_le_maxMetaLen hmeta)
  have hmetadata : slice bytes framePrefixSize (framePrefixSize + metadata.length) = metadata :=
    slice_middle (head metadata.length) metadata _ (length_head _) rfl
  have hlenBytes : slice bytes (framePrefixSize + metadata.length)
      (framePrefixSize + metadata.length + payloadLenSize) =
        toBe payloadLenSize payload.length := by
    have hassoc : bytes = (head metadata.length ++ metadata) ++
        (toBe payloadLenSize payload.length ++ payload) := (List.append_assoc ..).symm
    rw [hassoc]
    exact slice_middle _ _ payload (by simp) (by simp)
  have hpayloadBytes : slice bytes (framePrefixSize + metadata.length + payloadLenSize)
      (framePrefixSize + metadata.length + payloadLenSize + payload.length) = payload := by
    have hassoc : bytes = (head metadata.length ++ metadata ++
        toBe payloadLenSize payload.length) ++ (payload ++ []) := by
      simp [hbytes, image]
    rw [hassoc]
    exact slice_middle _ payload [] (by simp [Nat.add_assoc]) rfl
  have hpayloadLen : ofBe (toBe payloadLenSize payload.length) = payload.length :=
    ofBe_toBe (lt_of_le_maxPayloadLen hpayload)
  have hprefix : framePrefixSize = frameMagic.length + 1 + metaLenSize := rfl
  unfold decodeFrame
  rw [if_neg (by omega), if_neg (not_not.mpr hmagic), if_neg (by omega)]
  simp only [hversion, hmetaLen, hmetadata, hlenBytes, hpayloadLen, hpayloadBytes, hdecode]
  rw [if_neg (not_not.mpr rfl), if_neg (by omega), if_neg (by omega), if_neg (by omega),
    if_neg (by omega), if_neg (by omega), if_neg (by omega)]

/-- What is accepted is an image. -/
theorem eq_image_of_decodeFrame {bytes payload : Bytes} {msg : LtpMeta}
    (h : decodeFrame codec bytes = .ok (msg, payload)) :
    ∃ metadata, RawFrame.InBounds ⟨metadata, payload⟩ ∧ bytes = image ⟨metadata, payload⟩ ∧
      codec.decode metadata = .ok msg := by
  unfold decodeFrame at h
  obtain ⟨hlength₀, h⟩ := ite_error_eq_ok.mp h
  obtain ⟨hmagic, h⟩ := ite_error_eq_ok.mp h
  obtain ⟨hlength₁, h⟩ := ite_error_eq_ok.mp h
  obtain ⟨hversion, h⟩ := ite_error_eq_ok.mp h
  obtain ⟨hlength₂, h⟩ := ite_error_eq_ok.mp h
  obtain ⟨hmeta, h⟩ := ite_error_eq_ok.mp h
  obtain ⟨hlength₃, h⟩ := ite_error_eq_ok.mp h
  obtain ⟨hpayloadLen, h⟩ := ite_error_eq_ok.mp h
  obtain ⟨hlength₄, h⟩ := ite_error_eq_ok.mp h
  obtain ⟨hlength₅, h⟩ := ite_error_eq_ok.mp h
  split at h
  · exact absurd h (by simp)
  next msg' hdecode =>
  simp only [Except.ok.injEq, Prod.mk.injEq] at h
  obtain ⟨rfl, rfl⟩ := h
  -- the two lengths as the prefix has them; the checks say where the parts lie
  generalize hmetaLen : ofBe (slice bytes (frameMagic.length + 1) framePrefixSize) = metaLen at *
  generalize hlen : ofBe (slice bytes (framePrefixSize + metaLen)
    (framePrefixSize + metaLen + payloadLenSize)) = payloadLen at *
  have hhead : slice bytes 0 framePrefixSize = head metaLen := by
    have htake : slice bytes 0 framePrefixSize = bytes.take framePrefixSize := rfl
    rw [htake, ← hmetaLen, ← slice_take bytes (le_refl framePrefixSize)]
    refine eq_head (by rw [List.length_take]; omega) ?_ ?_
    · rw [slice_take bytes (by decide)]
      exact not_not.mp hmagic
    · rw [← not_not.mp hversion, List.getD_eq_getElem?_getD, List.getD_eq_getElem?_getD,
        List.getElem?_take_of_lt (by decide)]
  have hlenBytes : slice bytes (framePrefixSize + metaLen)
      (framePrefixSize + metaLen + payloadLenSize) = toBe payloadLenSize payloadLen := by
    have hwidth : (slice bytes (framePrefixSize + metaLen)
        (framePrefixSize + metaLen + payloadLenSize)).length = payloadLenSize := by
      rw [length_slice (by omega)]
      omega
    rw [← hlen]
    conv_lhs => rw [← toBe_ofBe (slice bytes _ _), hwidth]
  have hmetadata : (slice bytes framePrefixSize (framePrefixSize + metaLen)).length = metaLen := by
    rw [length_slice (by omega)]
    omega
  have hpayload : (slice bytes (framePrefixSize + metaLen + payloadLenSize)
      (framePrefixSize + metaLen + payloadLenSize + payloadLen)).length = payloadLen := by
    rw [length_slice (by omega)]
    omega
  refine ⟨slice bytes framePrefixSize (framePrefixSize + metaLen), ⟨?_, ?_⟩, ?_, hdecode⟩
  · show (slice bytes framePrefixSize (framePrefixSize + metaLen)).length ≤ maxMetaLen
    omega
  · show (slice bytes (framePrefixSize + metaLen + payloadLenSize)
      (framePrefixSize + metaLen + payloadLenSize + payloadLen)).length ≤ maxPayloadLen
    omega
  · -- nothing follows the payload
    have hall : slice bytes 0 (framePrefixSize + metaLen + payloadLenSize + payloadLen) =
    bytes := by
      rw [slice, List.drop_zero, List.take_of_length_le (by omega)]
    simp only [image, hmetadata, hpayload]
    rw [← hhead, ← hlenBytes, slice_append_slice (by omega) (by omega) (by omega),
      slice_append_slice (by omega) (by omega) (by omega),
      slice_append_slice (by omega) (by omega) (by omega), hall]

/-- **`decodeFrame` accepts the images of frames within the limits** whose metadata decode. -/
theorem decodeFrame_eq_ok {bytes payload : Bytes} {msg : LtpMeta} :
    decodeFrame codec bytes = .ok (msg, payload) ↔
      ∃ metadata, RawFrame.InBounds ⟨metadata, payload⟩ ∧ bytes = image ⟨metadata, payload⟩ ∧
        codec.decode metadata = .ok msg := by
  constructor
  · exact eq_image_of_decodeFrame
  · rintro ⟨metadata, hbounds, rfl, hdecode⟩
    exact decodeFrame_image hbounds hdecode

end Decode

/-! ## Streams of frames -/

/-- No image is the beginning of another. -/
theorem image_append_inj {frame frame' : RawFrame} {rest rest' : Bytes}
    (hbounds : frame.InBounds) (hbounds' : frame'.InBounds)
    (h : image frame ++ rest = image frame' ++ rest') : frame = frame' ∧ rest = rest' := by
  -- both are what `readFrame` finds on the one stream
  have hflatten : [image frame ++ rest].flatten = image frame ++ rest := List.append_nil _
  obtain ⟨reader, hread, hrest⟩ := readFrame_of_image hbounds hflatten
  obtain ⟨reader', hread', hrest'⟩ := readFrame_of_image hbounds' (hflatten.trans h)
  have hsame := hread.symm.trans hread'
  simp only [Except.ok.injEq, Option.some.injEq, Prod.mk.injEq] at hsame
  exact ⟨hsame.1, by rw [← hrest, ← hrest', hsame.2]⟩

/-- Frames are read back from their images, one by one. -/
theorem readsThen_images {done : Reader → Prop} {tail : Bytes} {frames : List RawFrame}
    {reader : Reader} (hbounds : ∀ frame ∈ frames, frame.InBounds)
    (hdone : ∀ rest : Reader, rest.flatten = tail → done rest)
    (h : reader.flatten = (frames.map image).flatten ++ tail) :
    ReadsThen done reader frames := by
  induction frames generalizing reader with
  | nil => exact hdone reader (by simpa using h)
  | cons frame frames ih =>
      rw [List.map_cons, List.flatten_cons, List.append_assoc] at h
      obtain ⟨rest, hread, hrest⟩ := readFrame_of_image (hbounds frame (by simp)) h
      exact ⟨rest, hread, ih (fun frame hmem => hbounds frame (by simp [hmem])) hrest⟩

/-- A stream that ends within a frame is an error. -/
theorem fails_of_cut {frame : RawFrame} {cut more : Bytes} {reader : Reader}
    (hbounds : frame.InBounds) (hcut : cut ≠ []) (hmore : more ≠ [])
    (himage : image frame = cut ++ more) (h : reader.flatten = cut) : Fails reader := by
  cases hread : readFrame reader with
  | error error => exact ⟨error, hread⟩
  | ok result =>
      cases result with
      | none => exact absurd (h.symm.trans (atEnd_iff.mp hread)) hcut
      | some result =>
          obtain ⟨frame', rest⟩ := result
          obtain ⟨hbounds', hflatten⟩ := readFrame_eq_some hread
          -- the frame read would be the frame cut, with nothing missing
          have heq : image frame ++ [] = image frame' ++ (rest.flatten ++ more) := by
            rw [List.append_nil, himage, ← h, hflatten, List.append_assoc]
          have hnil := (image_append_inj hbounds hbounds' heq).2
          exact absurd (List.append_eq_nil_iff.mp hnil.symm).2 hmore

section Codec

variable {δ : Type} {codec : Message LtpMeta δ}

/-- What an event's frame looks like to the connection reader. -/
def rawFrame (codec : Message LtpMeta δ) (event : LtpMeta × Bytes) : RawFrame :=
  ⟨codec.encodeRaw event.1, event.2⟩

/-- The sizes `encode_frame` accepts. -/
def Encodable (codec : Message LtpMeta δ) (event : LtpMeta × Bytes) : Prop :=
  codec.encodedLen event.1 ≤ maxMetaLen ∧ event.2.length ≤ maxPayloadLen

theorem encodeFrame_eq_ok (hlen : ∀ msg, codec.encodedLen msg = (codec.encodeRaw msg).length)
    {e : LtpMeta × Bytes} {frame : Bytes} :
    encodeFrame codec e.1 e.2 = .ok frame ↔
      Encodable codec e ∧ frame = image (rawFrame codec e) := by
  have hbytes : frameMagic ++ [frameVersion] ++ toBe metaLenSize (codec.encodedLen e.1) ++
      codec.encodeRaw e.1 ++ toBe payloadLenSize e.2.length ++ e.2 =
        image (rawFrame codec e) := by
    simp [image, head, rawFrame, hlen]
  simp only [encodeFrame, encodeMessageFrame, hbytes, Encodable]
  split
  · next hmeta => simp [Nat.not_le.mpr hmeta]
  · next hmeta =>
      split
      · next hpayload => simp [Nat.not_le.mpr hpayload]
      · next hpayload =>
          simp [Nat.le_of_not_lt hmeta, Nat.le_of_not_lt hpayload, eq_comm]

theorem Encodable.inBounds (hlen : ∀ msg, codec.encodedLen msg = (codec.encodeRaw msg).length)
    {event : LtpMeta × Bytes} (h : Encodable codec event) : (rawFrame codec event).InBounds := by
  obtain ⟨hmeta, hpayload⟩ := h
  rw [hlen] at hmeta
  exact ⟨hmeta, hpayload⟩

theorem mapM_encodeFrame (hlen : ∀ msg, codec.encodedLen msg = (codec.encodeRaw msg).length)
    {events : List (LtpMeta × Bytes)} (hevents : ∀ event ∈ events, Encodable codec event) :
    events.mapM (fun event => encodeFrame codec event.1 event.2) =
      .ok ((events.map (rawFrame codec)).map image) := by
  induction events with
  | nil => rfl
  | cons event events ih =>
      have hevent := (encodeFrame_eq_ok hlen).mpr ⟨hevents event (by simp), rfl⟩
      rw [List.mapM_cons, hevent, ih fun event hmem => hevents event (by simp [hmem])]
      rfl

/-- **LTP framing is faithful on streams.**  Frames within the limits can be encoded, and however
the stream of their encodings is cut into reads it yields the frames and then a clean end; if it
ends within one more frame, it yields the frames and then an error.  A frame decodes to what was
encoded in it.  And on any bytes, reading a frame, decoding its metadata and finding the end
succeeds exactly when `decode_frame` does, with the same result. -/
theorem framing_faithful
    (hlen : ∀ msg, codec.encodedLen msg = (codec.encodeRaw msg).length) :
    (∀ events : List (LtpMeta × Bytes), (∀ event ∈ events, Encodable codec event) →
      ∃ images, events.mapM (fun event => encodeFrame codec event.1 event.2) = .ok images ∧
        (∀ reader : Reader, reader.flatten = images.flatten →
          ReadsThen AtEnd reader (events.map (rawFrame codec))) ∧
        ∀ msg payload cut more, encodeFrame codec msg payload = .ok (cut ++ more) →
          cut ≠ [] → more ≠ [] → ∀ reader : Reader, reader.flatten = images.flatten ++ cut →
            ReadsThen Fails reader (events.map (rawFrame codec))) ∧
    (∀ msg payload frame, encodeFrame codec msg payload = .ok frame →
      codec.decode (codec.encodeRaw msg) = .ok msg →
        decodeFrame codec frame = .ok (msg, payload)) ∧
    ∀ (bytes : Bytes) (reader : Reader), reader.flatten = bytes → ∀ msg payload,
      (∃ frame rest, readFrame reader = .ok (some (frame, rest)) ∧ AtEnd rest ∧
        codec.decode frame.metadata = .ok msg ∧ frame.payload = payload) ↔
      decodeFrame codec bytes = .ok (msg, payload) := by
  have hbounds : ∀ events : List (LtpMeta × Bytes), (∀ event ∈ events, Encodable codec event) →
      ∀ frame ∈ events.map (rawFrame codec), frame.InBounds := by
    intro events hevents frame hmem
    obtain ⟨event, hevent, rfl⟩ := List.mem_map.mp hmem
    exact (hevents event hevent).inBounds hlen
  refine ⟨fun events hevents => ⟨_, mapM_encodeFrame hlen hevents, ?_, ?_⟩, ?_, ?_⟩
  · intro reader hreader
    have hflatten := hreader.trans (List.append_nil _).symm
    exact readsThen_images (hbounds events hevents) (fun _ hrest => atEnd_iff.mpr hrest) hflatten
  · intro msg payload cut more hencode hcut hmore reader hreader
    obtain ⟨hencodable, himage⟩ :=
      (encodeFrame_eq_ok (e := (msg, payload)) hlen).mp hencode
    refine readsThen_images (hbounds events hevents) (fun rest hrest => ?_) hreader
    exact fails_of_cut (hencodable.inBounds hlen) hcut hmore himage.symm hrest
  · intro msg payload frame hencode hdecode
    obtain ⟨hencodable, rfl⟩ := (encodeFrame_eq_ok (e := (msg, payload)) hlen).mp hencode
    exact decodeFrame_image (hencodable.inBounds hlen) hdecode
  · intro bytes reader hreader msg payload
    rw [decodeFrame_eq_ok]
    constructor
    · rintro ⟨frame, rest, hread, hend, hdecode, rfl⟩
      obtain ⟨hbounds, hflatten⟩ := readFrame_eq_some hread
      rw [atEnd_iff.mp hend, List.append_nil, hreader] at hflatten
      exact ⟨frame.metadata, hbounds, hflatten, hdecode⟩
    · rintro ⟨metadata, hbounds, himage, hdecode⟩
      have hflatten : reader.flatten = image ⟨metadata, payload⟩ ++ [] := by
        rw [hreader, himage, List.append_nil]
      obtain ⟨rest, hread, hrest⟩ := readFrame_of_image hbounds hflatten
      exact ⟨_, rest, hread, atEnd_iff.mpr hrest, hdecode, rfl⟩

end Codec

/-- The protobuf encoding of metadata without stamps whose key is shorter than 128 bytes. -/
def keyCodec : Message LtpMeta Unit where
  encodedLen msg := if msg.key = [] then 0 else msg.key.length + 2
  encodeRaw msg := if msg.key = [] then [] else 10 :: UInt8.ofNat msg.key.length :: msg.key
  decode
    | [] => .ok ⟨[], []⟩
    | 10 :: length :: key =>
        if length < 128 ∧ length.toNat = key.length then .ok ⟨key, []⟩ else .error ()
    | _ => .error ()

theorem framing_faithful_keyCodec :
    ReadsThen AtEnd [[76], [84, 80, 0, 1, 0, 0, 0, 3, 10], [1, 7, 0, 0, 0, 2, 1], [2]]
        [⟨[10, 1, 7], [1, 2]⟩] ∧
      decodeFrame keyCodec [76, 84, 80, 0, 1, 0, 0, 0, 3, 10, 1, 7, 0, 0, 0, 2, 1, 2] =
        .ok (⟨[7], []⟩, [1, 2]) := by
  have hlen : ∀ msg, keyCodec.encodedLen msg = (keyCodec.encodeRaw msg).length := by
    intro msg
    unfold keyCodec
    dsimp only
    split <;> rfl
  obtain ⟨hstream, hdecode, -⟩ := framing_faithful hlen
  obtain ⟨images, himages, hreads, -⟩ := hstream [(⟨[7], []⟩, [1, 2])] (by
    simp [Encodable, keyCodec, maxMetaLen, maxPayloadLen])
  obtain rfl := Except.ok.inj himages
  exact ⟨hreads _ rfl, hdecode ⟨[7], []⟩ [1, 2] _ rfl rfl⟩

end Limpid.Ltp
