import Mathlib.Algebra.GroupWithZero.Nat
import Mathlib.Data.List.AList
import Mathlib.Data.List.Sort
import Limpid.Bytes
import Limpid.Lines
import Limpid.Decimal

/-!
# The disk queue

The write-ahead queue of `queue/disk.rs`: events are appended, one JSON line each, to segment
files; a `cursor` file holds the acked position; the receiver hands events out in order and
advances the cursor when they are acked.

* `DiskQueue` is one open queue: its directory (`Dir`), the state its senders and its receiver
  share (`DiskQueueState`) and the receiver's own cursors (`DiskQueueReceiver`).
* `send`, `tryReadNext` and `ackTo` are the operations, `createDiskQueue` opens a directory.

What the file system answers is an argument of each operation (`WriteIo`, `AckIo`), so every
error branch is reachable.  Sequence numbers and offsets are `u64` in the source and `ℕ` here.
A record's JSON form is a `RecordCodec`: the text has no raw newline and decodes back to the
event.
-/

namespace Limpid.Disk

open Limpid.Lines Limpid.Decimal

/-- `SEGMENT_MAX_BYTES`: 16 MiB per segment. -/
def segmentMaxBytes : ℕ := 16 * 1024 * 1024

/-- How queued events are written as WAL records and read back. -/
structure RecordCodec (Event : Type*) where
  /-- `serde_json::to_string` of the event's JSON value. -/
  serialize : Event → Option Bytes
  /-- `serde_json::from_slice` followed by `Event::from_json_value`. -/
  parse : Bytes → Option Event
  newline_notMem : ∀ {event data}, serialize event = some data → newline ∉ data
  not_blank : ∀ {event data}, serialize event = some data →
    (data.all isAsciiWhitespace) = false
  parse_serialize : ∀ {event data}, serialize event = some data →
    parse (data ++ [newline]) = some event

/-- The simplest codec: event `n` is written as `n + 1` letters. -/
def letterCodec : RecordCodec ℕ where
  serialize n := some (List.replicate (n + 1) 120)
  parse line := some (line.length - 2)
  newline_notMem := by
    rintro n data ⟨⟩ h
    exact absurd (List.eq_of_mem_replicate h) (by decide)
  not_blank := by
    rintro n data ⟨⟩
    rfl
  parse_serialize := by
    rintro n data ⟨⟩
    simp

/-- The record of event `n`, with its newline. -/
def letterLine (n : ℕ) : Bytes :=
  List.replicate (n + 1) 120 ++ [newline]

/-- A byte position in the queue: `AckPosition::Disk`. -/
structure Position where
  seq : ℕ
  offset : ℕ
deriving DecidableEq, Repr

/-- Positions are ordered by segment, then by offset. -/
instance : LE Position where
  le a b := a.seq < b.seq ∨ a.seq = b.seq ∧ a.offset ≤ b.offset

instance : LT Position where
  lt a b := a.seq < b.seq ∨ a.seq = b.seq ∧ a.offset < b.offset

/-- The queue directory: the segment files by sequence number, and the cursor file. -/
structure Dir where
  segments : AList fun _ : ℕ => Bytes
  cursor : Option (List Char)

namespace Dir

/-- The bytes of a segment file; a missing one has none. -/
def content (dir : Dir) (seq : ℕ) : Bytes :=
  (dir.segments.lookup seq).getD []

/-- A write on a file handle opened for append. -/
def append (dir : Dir) (seq : ℕ) (data : Bytes) : Dir :=
  { dir with segments := dir.segments.insert seq (dir.content seq ++ data) }

/-- `fs::remove_file`, which may fail. -/
def removeFile (removable : ℕ → Bool) (dir : Dir) (seq : ℕ) : Dir :=
  if removable seq then { dir with segments := dir.segments.erase seq } else dir

/-- A new directory. -/
def empty : Dir := ⟨∅, none⟩

end Dir

/-- `DiskQueueState`: what the sender knows. -/
structure DiskQueueState where
  maxSize : ℕ
  writeSeq : ℕ
  /-- Whether the append handle is open. -/
  writeFile : Bool
  writeSize : ℕ
  readSeq : ℕ
  ackedSeq : ℕ
deriving DecidableEq, Repr

/-- One event handed out and not yet popped: where it starts and where the next one does. -/
structure InFlight where
  startSeq : ℕ
  startOffset : ℕ
  endSeq : ℕ
  endOffset : ℕ
  acked : Bool
deriving DecidableEq, Repr

/-- `DiskQueueReceiver`: the read position, the acked position and what is in flight. -/
structure DiskQueueReceiver where
  readSeq : ℕ
  readOffset : ℕ
  ackedSeq : ℕ
  ackedOffset : ℕ
  inFlightPositions : List InFlight
deriving DecidableEq, Repr

/-- The directory and both ends of the queue. -/
structure DiskQueue where
  dir : Dir
  state : DiskQueueState
  receiver : DiskQueueReceiver
  /-- Set when the last sender is dropped. -/
  closed : Bool

/-! ## Writing -/

/-- What the file system answers while a record is written. -/
structure WriteIo where
  tailReadable : Bool
  openable : Bool
  /-- Whether the length of a freshly opened segment can be read. -/
  sized : Bool
  /-- `none` when the whole buffer is written, `some k` for an error after `k` bytes. -/
  written : Option ℕ
  flushed : Bool
  removable : ℕ → Bool

/-- A segment this process has not opened is inspected first: after an unterminated tail the
record goes to a fresh segment. -/
def inspectTail (io : WriteIo) (dir : Dir) (state : DiskQueueState) : Option DiskQueueState :=
  if state.writeFile then some state
  else if io.tailReadable = false then none
  else match dir.segments.lookup state.writeSeq with
    | none => some { state with writeSize := 0 }
    | some content =>
        if content = [] then some { state with writeSize := 0 }
        else if content.getLast? = some newline then
          some { state with writeSize := content.length }
        else some { state with writeSeq := state.writeSeq + 1, writeSize := 0 }

/-- Rotation, when the record and its newline do not fit in the segment any more. -/
def rotate (state : DiskQueueState) (data : Bytes) : DiskQueueState :=
  if state.writeSize + data.length + 1 > segmentMaxBytes then
    { state with writeFile := false, writeSeq := state.writeSeq + 1, writeSize := 0 }
  else state

/-- Open the write segment for append, creating it if it is missing. -/
def openSegment (io : WriteIo) (dir : Dir) (state : DiskQueueState) :
    Option (Dir × DiskQueueState) :=
  if state.writeFile then some (dir, state)
  else if io.openable = false then none
  else some (dir.append state.writeSeq [],
    { state with
      writeFile := true
      writeSize := if io.sized then (dir.content state.writeSeq).length else 0 })

/-- The deletion loop of `enforce_max_size` over the sorted listing. -/
def enforceLoop (removable : ℕ → Bool) (maxSize ackedSeq : ℕ) :
    List (ℕ × ℕ) → ℕ → Dir → Dir
  | [], _, dir => dir
  | (seq, size) :: rest, total, dir =>
      if total ≤ maxSize then dir
      else if ackedSeq ≤ seq then dir
      else if removable seq then
        enforceLoop removable maxSize ackedSeq rest (total - size) (dir.removeFile removable seq)
      else enforceLoop removable maxSize ackedSeq rest total dir

/-- Remove the oldest segments below `ackedSeq` until the total size fits. -/
def enforceMaxSize (removable : ℕ → Bool) (dir : Dir) (maxSize ackedSeq : ℕ) : Dir :=
  if maxSize = 0 then dir
  else
    let segments := dir.segments.entries.map fun entry => (entry.1, entry.2.length)
    let total := (segments.map Prod.snd).sum
    if total ≤ maxSize then dir
    else enforceLoop removable maxSize ackedSeq
      (segments.insertionSort fun a b => a.1 ≤ b.1) total dir

/-- Append the record and its newline in one write, then enforce the size limit. -/
def appendRecord (io : WriteIo) (dir : Dir) (state : DiskQueueState) (data : Bytes) :
    Dir × DiskQueueState × Bool :=
  let buf := data ++ [newline]
  match io.written with
  | some k =>
      (dir.append state.writeSeq (buf.take k), { state with writeFile := false }, false)
  | none =>
      let dir := dir.append state.writeSeq buf
      if io.flushed = false then (dir, { state with writeFile := false }, false)
      else
        let state := { state with writeSize := state.writeSize + buf.length }
        (enforceMaxSize io.removable dir state.maxSize state.ackedSeq, state, true)

/-- `write_to_segment`; the flag is its return value. -/
def writeToSegment (io : WriteIo) (dir : Dir) (state : DiskQueueState) (data : Bytes) :
    Dir × DiskQueueState × Bool :=
  match inspectTail io dir state with
  | none => (dir, state, false)
  | some inspected =>
      let rotated := rotate inspected data
      match openSegment io dir rotated with
      | none => (dir, rotated, false)
      | some (dir, opened) => appendRecord io dir opened data

variable {Event : Type*} (codec : RecordCodec Event)

/-- `DiskQueueSender::send`. -/
def send (io : WriteIo) (event : Event) (queue : DiskQueue) : DiskQueue × Bool :=
  match codec.serialize event with
  | none => (queue, false)
  | some data =>
      let (dir, state, wrote) := writeToSegment io queue.dir queue.state data
      ({ queue with dir := dir, state := state }, wrote)

/-! ## Reading -/

/-- `read_line_at`. -/
def readLineAt (content : Bytes) (offset : ℕ) : Bytes :=
  takeLine newline (content.drop offset)

/-- The segment a writer of this process is appending to. -/
def DiskQueue.activeSegment (queue : DiskQueue) : Bool :=
  queue.state.writeSeq = queue.receiver.readSeq && queue.state.writeFile && !queue.closed

/-- The event on a line: the line must be complete, not blank, and decode. -/
def decodeLine (line : Bytes) : Option Event :=
  if line.getLast? = some newline ∧ line.all isAsciiWhitespace = false then codec.parse line
  else none

/-- The receiver steps over a line; a decodable one becomes an in-flight event. -/
def consumeLine (line : Bytes) (receiver : DiskQueueReceiver) :
    Option Event × DiskQueueReceiver :=
  let endOffset := receiver.readOffset + line.length
  match decodeLine codec line with
  | none => (none, { receiver with readOffset := endOffset })
  | some event =>
      (some event, { receiver with
        readOffset := endOffset
        inFlightPositions := receiver.inFlightPositions ++
          [⟨receiver.readSeq, receiver.readOffset, receiver.readSeq, endOffset, false⟩] })

/-- Advance the read cursor to the next segment, in the receiver and in the shared state. -/
def DiskQueue.nextSegment (queue : DiskQueue) : DiskQueue :=
  { queue with
    state := { queue.state with readSeq := queue.receiver.readSeq + 1 }
    receiver := { queue.receiver with readSeq := queue.receiver.readSeq + 1, readOffset := 0 } }

/-- How one turn of the `try_read_next` loop ends. -/
inductive Turn (Event : Type*) where
  /-- `return None`. -/
  | idle
  /-- `continue`. -/
  | again (queue : DiskQueue)
  /-- `return Some(..)`. -/
  | event (event : Event) (queue : DiskQueue)

/-- Nothing is left in the segment: go on to the next one if the writer has left it. -/
def finishSegment (queue : DiskQueue) : Turn Event :=
  if queue.receiver.readSeq < queue.state.writeSeq then .again queue.nextSegment else .idle

/-- One turn of the loop, with no writer in between: the second read of an incomplete line
returns what the first one did. -/
def readTurn (queue : DiskQueue) : Turn Event :=
  match queue.dir.segments.lookup queue.receiver.readSeq with
  | none => finishSegment queue
  | some content =>
      let line := readLineAt content queue.receiver.readOffset
      if line = [] then finishSegment queue
      else if line.getLast? ≠ some newline ∧ queue.activeSegment = true then .idle
      else match consumeLine codec line queue.receiver with
        | (none, receiver) => .again { queue with receiver := receiver }
        | (some event, receiver) => .event event { queue with receiver := receiver }

theorem consumeLine_readOffset (line : Bytes) (receiver : DiskQueueReceiver) :
    (consumeLine codec line receiver).2.readSeq = receiver.readSeq ∧
      (consumeLine codec line receiver).2.readOffset = receiver.readOffset + line.length := by
  unfold consumeLine
  cases decodeLine codec line <;> exact ⟨rfl, rfl⟩

theorem finishSegment_eq_again {queue next : DiskQueue}
    (h : (finishSegment queue : Turn Event) = .again next) :
    queue.receiver.readSeq < queue.state.writeSeq ∧ next = queue.nextSegment := by
  unfold finishSegment at h
  split at h
  · injection h with h
    exact ⟨by assumption, h.symm⟩
  · cases h

/-- A turn that continues either leaves the segment or steps over a line of it. -/
theorem readTurn_eq_again {queue next : DiskQueue} (h : readTurn codec queue = .again next) :
    (queue.receiver.readSeq < queue.state.writeSeq ∧ next = queue.nextSegment ∧
      readLineAt (queue.dir.content queue.receiver.readSeq) queue.receiver.readOffset = []) ∨
    ∃ line receiver,
      line = readLineAt (queue.dir.content queue.receiver.readSeq) queue.receiver.readOffset ∧
      line ≠ [] ∧ consumeLine codec line queue.receiver = (none, receiver) ∧
      next = { queue with receiver := receiver } := by
  unfold readTurn at h
  unfold Dir.content
  split at h
  · rename_i hlookup
    obtain ⟨hlt, hnext⟩ := finishSegment_eq_again h
    exact Or.inl ⟨hlt, hnext, by simp [hlookup, readLineAt]⟩
  · rename_i content hlookup
    dsimp only at h
    rw [hlookup, Option.getD_some]
    split at h
    · rename_i hline
      obtain ⟨hlt, hnext⟩ := finishSegment_eq_again h
      exact Or.inl ⟨hlt, hnext, hline⟩
    · rename_i hline
      split at h
      · cases h
      · cases hconsume : consumeLine codec
            (readLineAt content queue.receiver.readOffset) queue.receiver with
        | mk result receiver =>
            rw [hconsume] at h
            cases result with
            | some event => cases h
            | none =>
                injection h with h
                subst h
                exact Or.inr ⟨_, receiver, rfl, hline, hconsume, rfl⟩

theorem readLineAt_length_le (content : Bytes) (offset : ℕ) :
    (readLineAt content offset).length ≤ content.length - offset := by
  have h := congrArg List.length (takeLine_append_drop (d := newline) (content.drop offset))
  simp only [List.length_append, List.length_drop] at h
  unfold readLineAt
  omega

/-- `try_read_next`: repeat the turn until it returns. -/
def tryReadNext (queue : DiskQueue) : Option (Event × Position) × DiskQueue :=
  match _hturn : readTurn codec queue with
  | .idle => (none, queue)
  | .event event next =>
      (some (event, ⟨queue.receiver.readSeq, queue.receiver.readOffset⟩), next)
  | .again next => tryReadNext next
termination_by (queue.state.writeSeq - queue.receiver.readSeq,
  (queue.dir.content queue.receiver.readSeq).length - queue.receiver.readOffset)
decreasing_by
  rcases readTurn_eq_again codec _hturn with ⟨hlt, rfl, -⟩ |
    ⟨line, receiver, hline, hne, hconsume, rfl⟩
  · exact Prod.Lex.left _ _ (by simp only [DiskQueue.nextSegment]; omega)
  · have hmoved := consumeLine_readOffset codec line queue.receiver
    rw [hconsume] at hmoved
    have hpos : 0 < line.length := List.length_pos_of_ne_nil hne
    have hle := readLineAt_length_le (queue.dir.content queue.receiver.readSeq)
      queue.receiver.readOffset
    rw [← hline] at hle
    dsimp only at hmoved ⊢
    rw [hmoved.1, hmoved.2]
    exact Prod.Lex.right _ (by omega)

/-! ## Acks -/

/-- What the file system answers to an ack. -/
structure AckIo where
  removable : ℕ → Bool
  cursorSaved : Bool

/-- Mark the first in-flight entry that starts at `position`; `none` when there is none. -/
def markAcked (position : Position) : List InFlight → Option (List InFlight)
  | [] => none
  | entry :: rest =>
      if entry.startSeq = position.seq ∧ entry.startOffset = position.offset then
        some ({ entry with acked := true } :: rest)
      else (markAcked position rest).map (entry :: ·)

/-- Pop the contiguous acked prefix: the end of the last entry popped, and what stays. -/
def popAcked : List InFlight → Option Position × List InFlight
  | [] => (none, [])
  | entry :: rest =>
      if entry.acked then
        match popAcked rest with
        | (none, left) => (some ⟨entry.endSeq, entry.endOffset⟩, left)
        | (some last, left) => (some last, left)
      else (none, entry :: rest)

/-- The text of the cursor file. -/
def cursorText (position : Position) : List Char :=
  formatNat position.seq ++ ':' :: formatNat position.offset

/-- `save_cursor`: written to a temporary file and renamed, so it is all or nothing. -/
def saveCursor (saved : Bool) (dir : Dir) (position : Position) : Dir :=
  if saved then { dir with cursor := some (cursorText position) } else dir

/-- `load_cursor`: a missing or malformed file means the beginning. -/
def loadCursor (dir : Dir) : Position :=
  match dir.cursor with
  | none => ⟨0, 0⟩
  | some content =>
      match (trim content).splitOn ':' with
      | [seq, offset] => ⟨(parseUnsigned seq).getD 0, (parseUnsigned offset).getD 0⟩
      | _ => ⟨0, 0⟩

/-- Advance the acked cursor, delete the segments it has left and persist it. -/
def commit (io : AckIo) (queue : DiskQueue) (position : Position) : DiskQueue :=
  let stale := List.range' queue.receiver.ackedSeq (position.seq - queue.receiver.ackedSeq)
  let dir := stale.foldl (Dir.removeFile io.removable) queue.dir
  { queue with
    dir := saveCursor io.cursorSaved dir position
    state := { queue.state with ackedSeq := position.seq }
    receiver := { queue.receiver with ackedSeq := position.seq, ackedOffset := position.offset } }

/-- `ack_to`. -/
def ackTo (io : AckIo) (position : Position) (queue : DiskQueue) : DiskQueue :=
  match markAcked position queue.receiver.inFlightPositions with
  | none => queue
  | some marked =>
      let (advanced, left) := popAcked marked
      let popped := { queue with receiver := { queue.receiver with inFlightPositions := left } }
      match advanced with
      | none => popped
      | some last =>
          if last.seq = queue.receiver.ackedSeq ∧ last.offset = queue.receiver.ackedOffset then
            popped
          else commit io popped last

/-! ## Opening -/

/-- The highest segment number present, `0` when there is none. -/
def maxSeq (dir : Dir) : ℕ :=
  dir.segments.keys.foldl max 0

/-- `create_disk_queue` on a directory: `recover_state` and fresh in-memory state. -/
def createDiskQueue (dir : Dir) (maxSize : ℕ) : DiskQueue where
  dir := dir
  state :=
    { maxSize := maxSize, writeSeq := maxSeq dir, writeFile := false, writeSize := 0,
      readSeq := (loadCursor dir).seq, ackedSeq := (loadCursor dir).seq }
  receiver :=
    { readSeq := (loadCursor dir).seq, readOffset := (loadCursor dir).offset,
      ackedSeq := (loadCursor dir).seq, ackedOffset := (loadCursor dir).offset,
      inFlightPositions := [] }
  closed := false

/-- **The cursor file is read back as it was written.** -/
theorem loadCursor_saveCursor (dir : Dir) (position : Position) :
    loadCursor (saveCursor true dir position) = position := by
  have htrim : trim (cursorText position) = cursorText position := by
    apply trim_eq_self
    · intro c hc
      obtain ⟨x, xs, hx⟩ := List.exists_cons_of_ne_nil (formatNat_ne_nil position.seq)
      have hxc : x = c := by simpa [cursorText, hx] using hc
      exact isWhiteSpace_of_isDigit
        (isDigit_of_mem_formatNat (n := position.seq) (by simp [hx, hxc]))
    · intro c hc
      have hlast : c ∈ (formatNat position.offset).getLast? := by
        rw [cursorText, List.getLast?_append, List.getLast?_cons] at hc
        simpa [List.getLast?_eq_some_getLast (formatNat_ne_nil position.offset)] using hc
      exact isWhiteSpace_of_isDigit (isDigit_of_mem_formatNat (List.mem_of_getLast? hlast))
  have hsplit : (cursorText position).splitOn ':' =
      [formatNat position.seq, formatNat position.offset] := by
    rw [cursorText, List.splitOn_append_cons_self,
      List.splitOn_eq_singleton (notMem_formatNat (by decide)),
      List.splitOn_eq_singleton (notMem_formatNat (by decide))]
    rfl
  simp [loadCursor, saveCursor, htrim, hsplit, parseUnsigned_formatNat]

end Limpid.Disk
