import Limpid.Syslog.Framing

/-!
# Stream connections

A connection to a peer is the record of the frames written to it.  A write hands over a whole frame,
and a number of its bytes reaches the connection: all of them when it succeeds, any number when it
fails, when its timeout elapses, or when its future is dropped.

`Conn.Settled` is a connection that may be written to: no frame was left incomplete on it.
`Conn.WellFormed` is what a connection must be at any time: an incomplete frame is the last thing
written to it.
-/

namespace Limpid.Output

/-- A frame handed to `write_all`, and how many of its bytes were written. -/
structure FrameWrite where
  frame : Bytes
  count : ℕ
  count_le : count ≤ frame.length

namespace FrameWrite

/-- A part of a frame. -/
def upTo (frame : Bytes) (count : ℕ) : FrameWrite :=
    ⟨frame, min count frame.length, min_le_right ..⟩

/-- A frame as a whole. -/
def whole (frame : Bytes) : FrameWrite := ⟨frame, frame.length, le_rfl⟩

def bytes (write : FrameWrite) : Bytes := write.frame.take write.count

/-- The frame was begun and not ended. -/
def Partial (write : FrameWrite) : Prop := 0 < write.count ∧ write.count < write.frame.length

instance (write : FrameWrite) : Decidable write.Partial := inferInstanceAs (Decidable (_ ∧ _))

@[simp] theorem not_partial_whole (frame : Bytes) : ¬ (whole frame).Partial :=
  fun h => lt_irrefl _ h.2

theorem partial_upTo_iff (frame : Bytes) (count : ℕ) :
    (upTo frame count).Partial ↔ 0 < count ∧ count < frame.length := by
  simp only [Partial, upTo]
  omega

/-- A frame is written in part, or as a whole, or not at all. -/
theorem bytes_of_not_partial {write : FrameWrite} (h : ¬ write.Partial) :
    write.bytes = [] ∨ write.bytes = write.frame := by
  have hle := write.count_le
  rcases Nat.eq_zero_or_pos write.count with hzero | hpos
  · exact .inl (by simp [bytes, hzero])
  · refine .inr (List.take_of_length_le ?_)
    unfold Partial at h
    omega

end FrameWrite

/-- A connection: what was written to it, oldest first. -/
abbrev Conn := List FrameWrite

namespace Conn

def bytes (conn : Conn) : Bytes := conn.flatMap FrameWrite.bytes

/-- No frame was left incomplete. -/
def Settled (conn : Conn) : Prop := ∀ write ∈ conn, ¬ write.Partial

/-- Nothing was written after an incomplete frame. -/
def WellFormed (conn : Conn) : Prop := Settled conn.dropLast

theorem settled_nil : Settled [] := by simp [Settled]

theorem Settled.wellFormed {conn : Conn} (h : conn.Settled) : conn.WellFormed :=
  fun write hmem => h write (List.dropLast_subset _ hmem)

theorem Settled.push {conn : Conn} (h : conn.Settled) {write : FrameWrite}
    (hwrite : ¬ write.Partial) :
    Settled (conn ++ [write]) := by
  intro other hmem
  rcases List.mem_append.mp hmem with hmem | hmem
  · exact h other hmem
  · rwa [List.mem_singleton.mp hmem]

/-- One more write, of any part of a frame. -/
theorem Settled.push_wellFormed {conn : Conn} (h : conn.Settled) (write : FrameWrite) :
    WellFormed (conn ++ [write]) := by
  simpa [WellFormed] using h

/-- The bytes of a settled connection are whole frames. -/
theorem Settled.bytes_eq {conn : Conn} (h : conn.Settled) :
    ∃ frames : List Bytes, conn.bytes = frames.flatten ∧
      ∀ frame ∈ frames, ∃ write ∈ conn, write.frame = frame := by
  induction conn with
  | nil => exact ⟨[], rfl, by simp⟩
  | cons write conn ih =>
      obtain ⟨frames, hbytes, hframes⟩ := ih fun other hmem => h other (List.mem_cons_of_mem _ hmem)
      have hmore : ∀ frame ∈ frames, ∃ other ∈ write :: conn, other.frame = frame := by
        intro frame hmem
        obtain ⟨other, hother, heq⟩ := hframes frame hmem
        exact ⟨other, List.mem_cons_of_mem _ hother, heq⟩
      have hcons : bytes (write :: conn) = write.bytes ++ bytes conn := rfl
      rcases FrameWrite.bytes_of_not_partial (h write (List.mem_cons_self ..)) with hnone | hall
      · exact ⟨frames, by rw [hcons, hnone, hbytes, List.nil_append], hmore⟩
      · refine ⟨write.frame :: frames, by rw [hcons, hall, hbytes, List.flatten_cons], ?_⟩
        exact List.forall_mem_cons.mpr ⟨⟨write, List.mem_cons_self .., rfl⟩, hmore⟩

/-- The bytes are whole frames and then a part of one more. -/
def Framed (conn : Conn) : Prop :=
  ∃ (frames : List Bytes) (rest : Bytes), conn.bytes = frames.flatten ++ rest ∧
    (∀ frame ∈ frames, ∃ write ∈ conn, write.frame = frame) ∧
    (rest = [] ∨ ∃ write ∈ conn, rest <+: write.frame)

theorem WellFormed.framed {conn : Conn} (h : conn.WellFormed) : conn.Framed := by
  rcases List.eq_nil_or_concat' conn with rfl | ⟨earlier, last, rfl⟩
  · exact ⟨[], [], rfl, by simp, .inl rfl⟩
  · have hsettled : Settled earlier := by simpa [WellFormed] using h
    obtain ⟨frames, hbytes, hframes⟩ := hsettled.bytes_eq
    refine ⟨frames, last.bytes, ?_, fun frame hmem => ?_, .inr ⟨last, by simp, ?_⟩⟩
    · calc bytes (earlier ++ [last]) = bytes earlier ++ bytes [last] := List.flatMap_append
        _ = frames.flatten ++ last.bytes := by rw [hbytes]; simp [bytes]
    · obtain ⟨write, hwrite, heq⟩ := hframes frame hmem
      exact ⟨write, List.mem_append_left _ hwrite, heq⟩
    · exact List.take_prefix ..

end Conn

/-- How a write of a frame ends. -/
inductive WriteResult where
  | written
  /-- An I/O error, after so many bytes. -/
  | failed (count : ℕ)
  /-- `PEER_WRITE_TIMEOUT` elapsed. -/
  | timedOut (count : ℕ)
  /-- The caller dropped the future. -/
  | dropped (count : ℕ)

/-- What reaches the connection. -/
def WriteResult.writes (frame : Bytes) : WriteResult → FrameWrite
  | .written => .whole frame
  | .failed count | .timedOut count | .dropped count => .upTo frame count

/-- How a connect, or a TLS handshake, ends. -/
inductive Connect where
  | connected
  /-- With an error, or by its timeout. -/
  | failed
  | dropped

/-- What a call says of its event. -/
inductive Resolution where
  | delivered
  | preSendShutdown
  | failed
  /-- The future was dropped. -/
  | dropped
deriving DecidableEq

end Limpid.Output
