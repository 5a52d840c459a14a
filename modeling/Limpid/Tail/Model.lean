import Mathlib.Algebra.GroupWithZero.Nat
import Mathlib.Data.List.DropRight
import Limpid.Bytes
import Limpid.Lines

/-!
# The tail input

`modules/input/tail.rs` follows a log file.  `readNewLines` reads complete lines from an offset
and emits an event for each; the run loop (`step`) polls the file, remembers how far it has read
(`read_offset`) and, separately, how far the pipeline has finished (`acked_offset`), which is
what it saves.  A rotated or truncated file starts a new generation of offsets.

Bytes are read into a `String`, so a line that is not valid UTF-8 is a read error, and so is an
unterminated tail that ends within a character.

What the file system shows to a poll is an argument of the move.  A `Line` is an emitted event
as far as its ack is concerned; `epoch` counts the resets and is not part of the program, whose
`generation` wraps around.
-/

namespace Limpid.Tail

open Limpid.Lines

/-! ## Reading -/

/-- What the loop of `read_new_lines` makes of one `read_line`. -/
inductive LineRead where
  | error
  | incomplete
  | blank
  | event (ingress : Bytes)
deriving DecidableEq

/-- The line without its line end. -/
def trimLine (line : Bytes) : Bytes :=
  (line.rdropWhile (· = newline)).rdropWhile (· = carriageReturn)

/-- What `read_line` makes of a line. -/
def readLine (line : Bytes) : LineRead :=
  if validUtf8 line = false then .error
  else if line.getLast? ≠ some newline then .incomplete
  else if trimLine line = [] then .blank
  else .event (trimLine line)

/-- An event put on the pipeline channel, with the offsets of its line. -/
structure Emitted where
  ingress : Bytes
  start : ℕ
  stop : ℕ
deriving DecidableEq

/-- The loop of `read_new_lines` over the lines left to read.  The channel takes `room` more
events before it is closed (`none`: it stays open).  The offset is `none` for a read error. -/
def readLoop : Option ℕ → ℕ → List Bytes → List Emitted × Option ℕ
  | _, current, [] => ([], some current)
  | room, current, line :: rest =>
      match readLine line with
      | .error => ([], none)
      | .incomplete => ([], some current)
      | .blank => readLoop room (current + line.length) rest
      | .event ingress =>
          if room = some 0 then ([], some current)
          else
            let (events, offset) :=
              readLoop (room.map (· - 1)) (current + line.length) rest
            (⟨ingress, current, current + line.length⟩ :: events, offset)

/-- `read_new_lines` on an opened file. -/
def readNewLines (room : Option ℕ) (content : Bytes) (fromOffset : ℕ) :
    List Emitted × Option ℕ :=
  readLoop room fromOffset (lines newline (content.drop fromOffset))

/-- What the run loop does with it: after an error `read_offset` stays where it was.  `content`
is `none` when the file cannot be opened. -/
def readPass (room : Option ℕ) (content : Option Bytes) (readOffset : ℕ) : List Emitted × ℕ :=
  match content with
  | none => ([], readOffset)
  | some content =>
      let (events, offset) := readNewLines room content readOffset
      (events, offset.getD readOffset)

/-! ## Acks -/

/-- `AckPosition::Offset`. -/
structure AckPosition where
  generation : ℕ
  offset : ℕ
deriving DecidableEq

/-- An emitted line whose ack handle has not been dropped, or its ack in the channel. -/
structure Line where
  position : AckPosition
  start : ℕ
  epoch : ℕ
deriving DecidableEq

/-- `ack_offset_for_generation`. -/
def ackOffsetForGeneration (position : AckPosition) (generation : ℕ) : Option ℕ :=
  if position.generation = generation then some position.offset else none

/-- `drain_acks_into_watermark`. -/
def drainAcksIntoWatermark (acks : List AckPosition) (generation : ℕ) : Option ℕ :=
  acks.foldl (fun hi position =>
    match ackOffsetForGeneration position generation with
    | some offset => some (hi.elim offset (max · offset))
    | none => hi) none

/-- `drain_remaining_acks`. -/
def drainRemainingAcks (initial : ℕ) (acks : List AckPosition) (generation : ℕ) : ℕ :=
  acks.foldl (fun hi position =>
    match ackOffsetForGeneration position generation with
    | some offset => max hi offset
    | none => hi) initial

theorem drainAcksIntoWatermark_cons_none {position : AckPosition} {generation : ℕ}
    (h : ackOffsetForGeneration position generation = none) (rest : List AckPosition) :
    drainAcksIntoWatermark (position :: rest) generation =
      drainAcksIntoWatermark rest generation := by
  unfold drainAcksIntoWatermark
  rw [List.foldl_cons, h]

/-- The first ack of the generation, then a drain from there. -/
theorem drainAcksIntoWatermark_cons_some {position : AckPosition} {generation offset : ℕ}
    (h : ackOffsetForGeneration position generation = some offset) (rest : List AckPosition) :
    drainAcksIntoWatermark (position :: rest) generation =
      some (drainRemainingAcks offset rest generation) := by
  have hseeded : ∀ (acks : List AckPosition) (initial : ℕ), acks.foldl (fun hi position =>
      match ackOffsetForGeneration position generation with
      | some offset => some (hi.elim offset (max · offset))
      | none => hi) (some initial) = some (drainRemainingAcks initial acks generation) := by
    intro acks
    unfold drainRemainingAcks
    induction acks with
    | nil => exact fun initial => rfl
    | cons position rest ih =>
        intro initial
        rw [List.foldl_cons, List.foldl_cons, ← ih]
        cases ackOffsetForGeneration position generation <;> rfl
  unfold drainAcksIntoWatermark
  rw [List.foldl_cons, h]
  exact hseeded rest offset

/-! ## The run loop -/

/-- Where the run loop is. -/
inductive Phase where
  /-- In the `select!`. -/
  | waiting
  /-- Between a read pass and the drain after it. -/
  | draining
  | stopped
deriving DecidableEq

/-- The state of the input. -/
structure TailRun where
  readOffset : ℕ
  ackedOffset : ℕ
  lastInode : Option ℕ
  generation : ℕ
  /-- The value last passed to `save_position`. -/
  saved : Option ℕ
  phase : Phase
  /-- The ack channel. -/
  acks : List Line
  /-- The lines on their way through the pipeline worker, in order. -/
  worker : List Line
  epoch : ℕ
deriving DecidableEq

/-- What a poll finds: the metadata, and the bytes if the file can be read. -/
structure FileStat where
  inode : Option ℕ
  len : ℕ
  content : Option Bytes

/-- A move of the file, the input or the pipeline. -/
inductive Move where
  /-- The pipeline worker finishes the event that came first, and its ack fires. -/
  | finish
  /-- The select loop wakes on an ack. -/
  | wake
  /-- A poll up to the end of its read pass; `none` when there is no file. -/
  | poll (stat : Option FileStat) (room : Option ℕ)
  /-- The drain after the read pass. -/
  | drain
  | shutdown

/-- A run that begins at an offset. -/
def start (offset : ℕ) (inode : Option ℕ) : TailRun :=
  ⟨offset, offset, inode, 0, none, .waiting, [], [], 0⟩

/-- `save_position`. -/
def savePosition (offset : ℕ) (tail : TailRun) : TailRun :=
  { tail with saved := some offset }

/-- Rotation or truncation: both cursors restart, the queued acks are dropped and the reset is
saved. -/
def reset (inode : Option ℕ) (tail : TailRun) : TailRun :=
  savePosition 0 { tail with
    readOffset := 0
    ackedOffset := 0
    generation := (tail.generation + 1) % 2 ^ 64
    lastInode := inode
    acks := []
    epoch := tail.epoch + 1 }

/-- The rotation and truncation checks of a poll. -/
def checkRotation (stat : FileStat) (tail : TailRun) : TailRun :=
  if stat.inode ≠ tail.lastInode then reset stat.inode tail
  else if stat.len < tail.readOffset then reset tail.lastInode tail
  else tail

/-- An emitted line with its place. -/
def Emitted.line (generation epoch : ℕ) (event : Emitted) : Line :=
  ⟨⟨generation, event.stop⟩, event.start, epoch⟩

/-- The rest of a poll: nothing when there is no new data, else a read pass. -/
def readFile (stat : FileStat) (room : Option ℕ) (tail : TailRun) : TailRun :=
  if stat.len ≤ tail.readOffset then tail
  else
    let (events, offset) := readPass room stat.content tail.readOffset
    { tail with
      readOffset := offset
      worker := tail.worker ++ events.map (Emitted.line tail.generation tail.epoch)
      phase := .draining }

/-- Save the watermark if the acks have moved it. -/
def raiseWatermark (hi : Option ℕ) (tail : TailRun) : TailRun :=
  match hi with
  | none => tail
  | some hi => if tail.ackedOffset < hi then savePosition hi
    { tail with ackedOffset := hi } else tail

/-- One move of the worker, the file or the run loop; `none` when it is not possible. -/
def step (tail : TailRun) : Move → Option TailRun
  | .finish =>
      match tail.worker with
      | [] => none
      | line :: rest => some { tail with worker := rest, acks := tail.acks ++ [line] }
  | .wake =>
      match tail.phase, tail.acks with
      | .waiting, line :: rest =>
          match ackOffsetForGeneration line.position tail.generation with
          | none => some { tail with acks := rest }
          | some offset =>
              some (raiseWatermark
                (some (drainRemainingAcks offset (rest.map Line.position) tail.generation))
                { tail with acks := [] })
      | _, _ => none
  | .poll stat room =>
      if tail.phase = .waiting then
        match stat with
        | none => some tail
        | some stat => some (readFile stat room (checkRotation stat tail))
      else none
  | .drain =>
      if tail.phase = .draining then
        some (raiseWatermark (drainAcksIntoWatermark (tail.acks.map Line.position) tail.generation)
          { tail with acks := [], phase := .waiting })
      else none
  | .shutdown =>
      if tail.phase = .waiting then
        let hi := drainAcksIntoWatermark (tail.acks.map Line.position) tail.generation
        let acked := hi.elim tail.ackedOffset (max tail.ackedOffset)
        some (savePosition acked
          { tail with ackedOffset := acked, acks := [], phase := .stopped })
      else none

end Limpid.Tail
