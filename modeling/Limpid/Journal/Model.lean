import Mathlib.Data.List.Range
import Mathlib.Order.Bounds.Defs
import Mathlib.Order.Lattice

/-!
# The journal input

`modules/input/journal.rs` has two parties.  A blocking thread reads the journal through
`libsystemd` and sends the entries over a channel of 1024 to the input actor, which makes an event
of each, with an ack handle that carries the entry's cursor.  When the handle is dropped, at the end
of the pipeline, the cursor comes back to the actor, which saves it in the state file.  A later
start seeks to the saved cursor and skips one entry.

`libsystemd` is a parameter, of which the documented behaviour is assumed (`Libsystemd`):
`seek_cursor` followed by `next` finds the entry of the cursor or, if it is gone, the closest one
after it; `next` finds the first matching entry after the current one.  So the position of the
reader is a lower bound for what `next` finds (`Running.location`).  The entries that match are
numbered as they are appended.

A move is one call of either party, or something that happens around them; what the calls return
is an argument of the move.  The fields under `History` are not part of the program: they record
which entries became events, whose ack has fired, and which could not be read.
-/

namespace Limpid.Journal

/-- What `libsystemd` does with a journal of which the entries from `head` up to `tail` are left. -/
structure Libsystemd where
  /-- The entry that `sd_journal_next` finds from a location. -/
  next (head tail location : ℕ) : Option ℕ
  /-- The location after `seek_tail` and `previous`, and `seek_head` if there is no entry. -/
  anchored (head tail : ℕ) : ℕ
  /-- `next` finds the first entry from the location on. -/
  next_eq_some_iff : ∀ {head tail location entry : ℕ}, next head tail location = some entry ↔
    IsLeast {e | location ≤ e ∧ head ≤ e ∧ e < tail} entry
  /-- Behind the last entry, `next` finds what is appended. -/
  anchored_of_lt : ∀ {head tail : ℕ}, head < tail → anchored head tail = tail
  /-- At the head, `next` finds whatever is appended first. -/
  anchored_of_le : ∀ {head tail : ℕ}, tail ≤ head → anchored head tail = 0

/-- The first entry from a location on is the location itself, or the first entry that is left. -/
theorem Libsystemd.next_eq (lib : Libsystemd) (head tail location : ℕ) :
    lib.next head tail location =
      if max location head < tail then some (max location head) else none := by
  split
  · next hlt =>
    rw [lib.next_eq_some_iff]
    refine ⟨⟨le_max_left _ _, le_max_right _ _, hlt⟩, ?_⟩
    rintro e ⟨hlocation, hhead, -⟩
    exact max_le hlocation hhead
  · next hnot =>
    rw [Option.eq_none_iff_forall_ne_some]
    intro e he
    obtain ⟨hlocation, hhead, htail⟩ := (lib.next_eq_some_iff.mp he).1
    exact hnot ((max_le hlocation hhead).trans_lt htail)

/-- A library that does what is documented, and nothing else. -/
def documented : Libsystemd where
  next head tail location :=
    if max location head < tail then some (max location head) else none
  anchored head tail := if head < tail then tail else 0
  next_eq_some_iff := by
    intro head tail location entry
    constructor
    · intro h
      split at h
      · next hlt =>
        obtain rfl := Option.some.inj h
        refine ⟨⟨le_max_left _ _, le_max_right _ _, hlt⟩, ?_⟩
        rintro e ⟨hlocation, hhead, -⟩
        exact max_le hlocation hhead
      · cases h
    · rintro ⟨⟨hlocation, hhead, htail⟩, hleast⟩
      have hlt : max location head < tail := (max_le hlocation hhead).trans_lt htail
      have hentry : entry = max location head :=
        le_antisymm (hleast ⟨le_max_left _ _, le_max_right _ _, hlt⟩) (max_le hlocation hhead)
      rw [if_pos hlt, hentry]
  anchored_of_lt hlt := if_pos hlt
  anchored_of_le hle := if_neg (Nat.not_lt.mpr hle)

/-- An entry on its way.  The cursor is `none` when `sd_journal_get_cursor` has failed, which
leaves an empty string. -/
structure Entry where
  position : ℕ
  cursor : Option ℕ
deriving DecidableEq

/-- Where the reader thread is. -/
inductive Phase where
  /-- After `seek_cursor`, before the `next` that skips. -/
  | skip
  /-- Before the loop looks at the shutdown flag. -/
  | top
  /-- Before `next`. -/
  | next
  /-- In `blocking_send`. -/
  | sending (entry : Entry)
  | ended
deriving DecidableEq

/-- The capacity of the channel from the reader to the actor. -/
def channelCapacity : ℕ := 1024

/-- The input while it runs. -/
structure Running where
  phase : Phase
  /-- `next` finds the first entry at or after it. -/
  location : ℕ
  channel : List Entry := []
  /-- The actor has left its loop and set the shutdown flag. -/
  stopped : Bool := false
  /-- The event that could not be sent, whose handle was disarmed. -/
  refused : Option Entry := none
  /-- The events whose handles have not been dropped, the oldest first. -/
  inflight : List Entry := []
  /-- The ack channel. -/
  acks : List Entry := []
  /-- The positions of the entries that this run has made events of. -/
  events : List ℕ := []
deriving DecidableEq

/-- What has happened over all runs; nothing in the code reads it. -/
structure History where
  /-- Where the journal ended when the input was first started. -/
  firstStart : Option ℕ := none
  emitted : List ℕ := []
  acked : List ℕ := []
  /-- Entries that were gone when the reader came to their place, or whose fields could not be
  read. -/
  unreadable : List ℕ := []
deriving DecidableEq

/-- The journal, the cursor file and the run, if there is one. -/
structure State where
  /-- The entries before `head` have been vacuumed. -/
  head : ℕ := 0
  /-- The number of entries that have been appended. -/
  tail : ℕ := 0
  /-- What `load_cursor` makes of the state file. -/
  saved : Option ℕ := none
  run : Option Running := none
  history : History := {}
deriving DecidableEq

/-- How `anchor_at_tail_or_head` ends. -/
inductive Anchor where
  /-- `seek_tail` and `previous` have succeeded, and so has `seek_head` if it was needed. -/
  | anchored
  /-- One of them has failed, and the reader is wherever that leaves it. -/
  | failed (location : ℕ)

/-- What reading an entry comes to once `next` has found it. -/
inductive Reading where
  | whole
  | withoutCursor
  /-- `collect_entry_fields` has failed. -/
  | fieldsFailed

/-- A move of the journal, the reader, the actor, the pipeline or the machine. -/
inductive Move where
  | append
  /-- The entries before `head` are vacuumed. -/
  | vacuum (head : ℕ)
  | start (loadFailed seekFailed : Bool) (anchor : Anchor)
  | skip (failed : Bool)
  | look
  | read (failed : Bool) (reading : Reading)
  | push
  | emit (sent : Bool)
  /-- The handle of an event is dropped. -/
  | ack (index : ℕ)
  /-- The actor takes the first acks of its channel, up to the given one. -/
  | save (index : ℕ) (written : Bool)
  | stop
  /-- The reader has been joined, and what is left of the acks is drained. -/
  | finish (written : Bool)
  | crash

section Steps

variable (lib : Libsystemd)

/-- Where the reader is after `anchor_at_tail_or_head`. -/
def State.anchorAt (s : State) : Anchor → ℕ
  | .anchored => lib.anchored s.head s.tail
  | .failed location => min location s.tail

/-- `save_cursor`. -/
def State.saveCursor (s : State) (entry : Entry) (written : Bool) : State :=
  if written then { s with saved := entry.cursor } else s

/-- The entries between the location and what `next` finds are gone. -/
def State.passOver (s : State) (location : ℕ) : State :=
  { s with history.unreadable :=
      s.history.unreadable ++ List.range' location (s.head - location) }

/-- The reader is anchored for want of a cursor, or of a cursor that can be sought.  What has been
vacuumed by then cannot be read. -/
def State.startAnchored (s : State) (anchor : Anchor) : State :=
  { s.passOver 0 with run := some { phase := .top, location := s.anchorAt lib anchor } }

/-- `load_cursor` may fail to read the state file, which is the same as that there is none. -/
def State.start (s : State) (loadFailed seekFailed : Bool) (anchor : Anchor) : State :=
  let s := { s with history.firstStart := some (s.history.firstStart.getD s.tail) }
  match if loadFailed then none else s.saved with
  | some cursor =>
      if seekFailed then s.startAnchored lib anchor
      else { s with run := some { phase := .skip, location := cursor } }
  | none => s.startAnchored lib anchor

/-! ### The reader thread -/

/-- `next` moves the reader to `location`. -/
def Running.moveTo (r : Running) (location : ℕ) (phase : Phase) : Running :=
  { r with location, phase }

/-- The `next` that skips an entry; its result is ignored. -/
def State.skip (s : State) (r : Running) (failed : Bool) : State :=
  if failed then { s with run := some (r.moveTo r.location .top) }
  else
    match lib.next s.head s.tail r.location with
    | some position =>
        { s.passOver r.location with run := some (r.moveTo (position + 1) .top) }
    | none => { s.passOver r.location with run := some (r.moveTo (max r.location s.head) .top) }

/-- The reader is at the top of its loop, and looks whether it is to stop. -/
def State.look (s : State) (r : Running) : State :=
  { s with run := some { r with phase := if r.stopped then .ended else .next } }

/-- What the reader makes of the entry it came to. -/
def Reading.entry : Reading → ℕ → Option Entry
  | .whole, position => some ⟨position, some position⟩
  | .withoutCursor, position => some ⟨position, none⟩
  | .fieldsFailed, _ => none

/-- At the end of the journal the reader waits for a change and goes back to the top. -/
def State.read (s : State) (r : Running) (failed : Bool) (reading : Reading) : State :=
  if failed then { s with run := some (r.moveTo r.location .top) }
  else
    match lib.next s.head s.tail r.location with
    | none => { s.passOver r.location with run := some (r.moveTo (max r.location s.head) .top) }
    | some position =>
        let s := s.passOver r.location
        match reading.entry position with
        | some entry => { s with run := some (r.moveTo (position + 1) (.sending entry)) }
        | none =>
            { s with
              run := some (r.moveTo (position + 1) .top)
              history.unreadable := s.history.unreadable ++ [position] }

/-- The reader sends an entry, if the channel has room. -/
def State.push (s : State) (r : Running) (entry : Entry) : Option State :=
  if r.channel.length < channelCapacity then
    some { s with run := some { r with phase := .top, channel := r.channel ++ [entry] } }
  else none

/-! ### The actor and the pipeline -/

/-- The actor takes an entry from the channel and sends it on. -/
def State.emit (s : State) (r : Running) (sent : Bool) : Option State :=
  match r.channel with
  | [] => none
  | entry :: channel =>
      if sent then
        some { s with
          run := some { r with
            channel := channel
            inflight := r.inflight ++ [entry]
            events := r.events ++ [entry.position] }
          history.emitted := s.history.emitted ++ [entry.position] }
      else
        some { s with
          run := some { r with channel := channel, refused := some entry, stopped := true } }

/-- The pipeline finishes an event, and its ack fires. -/
def State.ack (s : State) (r : Running) (index : ℕ) : Option State :=
  match r.inflight[index]? with
  | none => none
  | some entry =>
      some { s with
        run := some { r with
          inflight := r.inflight.eraseIdx index, acks := r.acks ++ [entry] }
        history.acked := s.history.acked ++ [entry.position] }

/-- The actor drains acks and saves the cursor of the last one. -/
def State.save (s : State) (r : Running) (index : ℕ) (written : Bool) : Option State :=
  match r.acks[index]? with
  | none => none
  | some entry =>
      some (({ s with run := some { r with acks := r.acks.drop (index + 1) } } : State).saveCursor
        entry written)

/-- `drain_cursor_acks`, and the end of the run. -/
def State.finish (s : State) (r : Running) (written : Bool) : State :=
  match r.acks.getLast? with
  | none => { s with run := none }
  | some entry => ({ s with run := none } : State).saveCursor entry written

/-- One step of the reader thread, the actor, the pipeline or the world. -/
def State.step (s : State) : Move → Option State
  | .append => some { s with tail := s.tail + 1 }
  | .vacuum head => some { s with head := min s.tail (max s.head head) }
  | .start loadFailed seekFailed anchor =>
      if s.run = none then some (s.start lib loadFailed seekFailed anchor) else none
  | .skip failed =>
      s.run.bind fun r => if r.phase = .skip then some (s.skip lib r failed) else none
  | .look => s.run.bind fun r => if r.phase = .top then some (s.look r) else none
  | .read failed reading =>
      s.run.bind fun r => if r.phase = .next then some (s.read lib r failed reading) else none
  | .push =>
      s.run.bind fun r =>
        match r.phase with
        | .sending entry => s.push r entry
        | _ => none
  | .emit sent => s.run.bind fun r => if r.stopped then none else s.emit r sent
  | .ack index => s.run.bind fun r => s.ack r index
  | .save index written => s.run.bind fun r => if r.stopped then none else s.save r index written
  | .stop =>
      s.run.bind fun r =>
        if r.stopped then none else some { s with run := some { r with stopped := true } }
  | .finish written =>
      s.run.bind fun r =>
        if r.stopped ∧ r.phase = .ended then some (s.finish r written) else none
  | .crash => some { s with run := none }

end Steps

end Limpid.Journal
