import Limpid.Disk.Ack

/-!
# At-least-once delivery

A run of the disk queue is any sequence of operations: `send`, `try_recv`, `ack_to` with any
position, dropping the senders, and a crash followed by `create_disk_queue` on the files left
behind.  `Run` adds to the queue what the statements are about and the queue does not keep:

* `sent`: the events whose `send` returned `Ok`, each with the position it was written at;
* `acked`: the positions `ack_to` was called with;
* `handed`: the positions of the events `try_recv` has returned since the queue was last opened,
  in the order of the calls;
* `confirmed`: those of them that were acked after they had been handed out;
* `settled`: the positions that completed a contiguous acked prefix whose cursor was written.

The contiguous acked prefix is read off the ghosts alone: it is the longest prefix of `handed`
all of whose positions are `confirmed` (`completed`).  That `ack_to` pops exactly this prefix off
its deque is a result (`Inv.handed_eq`), not part of what `completed` means.

The invariant `Run.Inv` has one idea: the unread list of the acked cursor is the in-flight
entries followed by what the reader has not read, and every event sent and never acked is in
that list.  The persisted cursor is never past the acked one, and both stand at line starts,
so after a reopen the list can only be longer (`unread_suffix`).
-/

namespace Limpid.Disk

open Limpid.Lines

variable {Event : Type*}

/-- The operations on a queue; `reopen` is a crash and a restart on the files left behind. -/
inductive Op (Event : Type*) where
  | send (io : WriteIo) (event : Event)
  | tryRecv
  | ackTo (io : AckIo) (position : Position)
  | close
  | reopen (maxSize : ℕ)

/-- A queue in the course of a run, with the history the statements are about. -/
structure Run (Event : Type*) where
  queue : DiskQueue
  sent : List (Event × Position)
  acked : List Position
  handed : List Position
  confirmed : List Position
  settled : List Position

namespace Run

/-- The contiguous acked prefix of what has been handed out. -/
def completed (run : Run Event) : List Position :=
  run.handed.takeWhile (· ∈ run.confirmed)

/-- What an ack adds to the history; an ack of a position not handed out confirms nothing. -/
def confirm (position : Position) (run : Run Event) : Run Event :=
  { run with
    acked := run.acked ++ [position]
    confirmed := if position ∈ run.handed then run.confirmed ++ [position] else run.confirmed }

variable (codec : RecordCodec Event)

/-- One operation.  An ack that makes the contiguous acked prefix longer settles all of it when
the cursor file is written. -/
def step (run : Run Event) : Op Event → Run Event
  | .send io event =>
      let (queue, wrote) := send codec io event run.queue
      let position := ⟨queue.state.writeSeq, (run.queue.dir.content queue.state.writeSeq).length⟩
      { run with
        queue := queue
        sent := if wrote then run.sent ++ [(event, position)] else run.sent }
  | .tryRecv =>
      let (result, queue) := tryReadNext codec run.queue
      { run with queue := queue, handed := run.handed ++ (result.map Prod.snd).toList }
  | .ackTo io position =>
      let next := { run.confirm position with queue := ackTo io position run.queue }
      { next with
        settled := if io.cursorSaved ∧ next.completed ≠ run.completed then
            run.settled ++ next.completed
          else run.settled }
  | .close => { run with queue := { run.queue with closed := true } }
  | .reopen maxSize =>
      { run with queue := createDiskQueue run.queue.dir maxSize, handed := [], confirmed := [] }

/-- A queue opened on an empty directory. -/
def start (maxSize : ℕ) : Run Event := ⟨createDiskQueue Dir.empty maxSize, [], [], [], [], []⟩

/-- A sequence of operations. -/
def steps (run : Run Event) (ops : List (Op Event)) : Run Event :=
  ops.foldl (step codec) run

/-- What the acked cursor still has to read: the in-flight records and the pending ones. -/
def unacked (run : Run Event) : List (Record Event) :=
  unread codec run.queue.dir run.queue.state.writeSeq run.queue.ackedPosition

/-- The invariant of a run. -/
structure Inv (run : Run Event) : Prop where
  writer : WriterOk run.queue.dir run.queue.state
  ackedSeq_eq : run.queue.state.ackedSeq = run.queue.receiver.ackedSeq
  acked_le : run.queue.receiver.ackedSeq ≤ run.queue.receiver.readSeq
  cursor_le : loadCursor run.queue.dir ≤ run.queue.ackedPosition
  acked_within : Within run.queue.dir (maxSeq run.queue.dir) run.queue.ackedPosition
  read_within : Within run.queue.dir run.queue.state.writeSeq run.queue.readPosition
  acked_line : AtLine run.queue.dir run.queue.ackedPosition
  cursor_line : AtLine run.queue.dir (loadCursor run.queue.dir)
  inFlight : ∃ claimed, run.unacked codec = claimed ++ run.queue.pending codec ∧
    claimed.map Record.bounds = run.queue.receiver.inFlightPositions.map InFlight.bounds
  inFlight_seq : ∀ entry ∈ run.queue.receiver.inFlightPositions,
    entry.stop.seq ≤ run.queue.receiver.readSeq
  inFlight_acked : ∀ entry ∈ run.queue.receiver.inFlightPositions,
    entry.acked = true ↔ entry.start ∈ run.confirmed
  sent_unread : ∀ sent ∈ run.sent, sent.2 ∉ run.acked →
    ∃ r ∈ run.unacked codec, (r.event, r.start) = sent
  handed_eq : run.completed ++ run.queue.starts = run.handed
  handed_nodup : run.handed.Nodup
  handed_lt : ∀ position ∈ run.handed, position < run.queue.readPosition
  confirmed_handed : ∀ position ∈ run.confirmed, position ∈ run.handed
  confirmed_acked : ∀ position ∈ run.confirmed, position ∈ run.acked
  completed_lt : ∀ position ∈ run.completed, position < run.queue.ackedPosition
  settled_lt : ∀ position ∈ run.settled, position < loadCursor run.queue.dir

theorem inv_start (maxSize : ℕ) : (start maxSize : Run Event).Inv codec where
  writer := ⟨fun _ h => absurd h (AList.notMem_empty _), fun h => absurd h Bool.false_ne_true⟩
  ackedSeq_eq := rfl
  acked_le := le_rfl
  cursor_le := Position.le_refl _
  acked_within := Or.inr ⟨rfl, le_rfl⟩
  read_within := Or.inr ⟨rfl, le_rfl⟩
  acked_line := Or.inl rfl
  cursor_line := Or.inl rfl
  inFlight := ⟨[], rfl, rfl⟩
  inFlight_seq := fun _ h => absurd h List.not_mem_nil
  inFlight_acked := fun _ h => absurd h List.not_mem_nil
  sent_unread := fun _ h => absurd h List.not_mem_nil
  handed_eq := rfl
  handed_nodup := List.nodup_nil
  handed_lt := fun _ h => absurd h List.not_mem_nil
  confirmed_handed := fun _ h => absurd h List.not_mem_nil
  confirmed_acked := fun _ h => absurd h List.not_mem_nil
  completed_lt := fun _ h => absurd h List.not_mem_nil
  settled_lt := fun _ h => absurd h List.not_mem_nil

variable {codec} {run : Run Event}

/-! ## The contiguous acked prefix -/

/-- The prefix ends at the first position that is not confirmed. -/
theorem completed_eq {done rest : List Position} (hhanded : run.handed = done ++ rest)
    (hdone : ∀ position ∈ done, position ∈ run.confirmed)
    (hrest : ∀ position ∈ rest.head?, position ∉ run.confirmed) : run.completed = done := by
  rw [completed, hhanded,
    List.takeWhile_append_of_pos fun position hposition => by simpa using hdone position hposition]
  cases rest with
  | nil => simp
  | cons first rest =>
      have hfirst : first ∉ run.confirmed := hrest first rfl
      rw [List.takeWhile_cons_of_neg (by simpa using hfirst), List.append_nil]

@[simp] theorem completed_withQueue (run : Run Event) (queue : DiskQueue) :
    ({ run with queue := queue } : Run Event).completed = run.completed := rfl

theorem mem_confirmed_of_mem_completed {position : Position} (h : position ∈ run.completed) :
    position ∈ run.confirmed := by
  simpa using List.mem_takeWhile_imp h

/-- The front of the deque is the first position handed out and not confirmed. -/
theorem Inv.head_notMem (h : run.Inv codec) :
    ∀ position ∈ run.queue.starts.head?, position ∉ run.confirmed := by
  intro position hposition
  have hstarts : run.queue.starts = run.handed.dropWhile (· ∈ run.confirmed) := by
    refine List.append_cancel_left (h.handed_eq.trans ?_)
    exact (List.takeWhile_append_dropWhile).symm
  have hhead := List.head?_dropWhile_not (· ∈ run.confirmed) run.handed
  rw [← hstarts, Option.mem_def.mp hposition] at hhead
  simpa using hhead

/-- What has been read ahead of is not confirmed yet. -/
theorem Inv.notMem_confirmed (h : run.Inv codec) {position : Position}
    (hle : run.queue.readPosition ≤ position) : position ∉ run.confirmed :=
  fun hmem => Position.not_lt_of_le hle (h.handed_lt position (h.confirmed_handed position hmem))

/-! ## Reading -/

theorem inv_tryRecv (h : run.Inv codec) : (run.step codec .tryRecv).Inv codec := by
  obtain ⟨hreads, hspec⟩ := tryReadNext_spec codec run.queue
  obtain ⟨claimed, hunacked, hbounds⟩ := h.inFlight
  have hdir := hreads.dir_eq
  have hwrite := hreads.writeSeq_eq
  have hacked := hreads.acked_eq
  have hsame : (run.step codec .tryRecv).unacked codec = run.unacked codec := by
    simp only [unacked, step, hdir, hwrite, hacked]
  have hackedSeq : (tryReadNext codec run.queue).2.state.ackedSeq = run.queue.state.ackedSeq := by
    rw [hreads.state_eq]
  have hfile : (tryReadNext codec run.queue).2.state.writeFile = run.queue.state.writeFile := by
    rw [hreads.state_eq]
  -- the in-flight deque: unchanged, or with the record just returned at its end
  have hinFlight : ∃ more : List (Record Event),
      (tryReadNext codec run.queue).2.receiver.inFlightPositions =
        run.queue.receiver.inFlightPositions ++ more.map Record.entry ∧
      run.queue.pending codec = more ++ (tryReadNext codec run.queue).2.pending codec ∧
      ((tryReadNext codec run.queue).1.map Prod.snd).toList = more.map Record.start ∧
      (more.map Record.start).Nodup ∧
      ∀ r ∈ more, r.stop = (tryReadNext codec run.queue).2.readPosition := by
    cases hread : (tryReadNext codec run.queue).1 with
    | none =>
        rw [hread] at hspec
        exact ⟨[], by simp [hspec.2.2], by simp [hspec.1, hspec.2.1], rfl, by simp, by simp⟩
    | some received =>
        rw [hread] at hspec
        obtain ⟨r, hpending, -, hstart, hstop, hentries⟩ := hspec
        exact ⟨[r], by simp [hentries], by simp [hpending], by simp [hstart], by simp,
          by simpa using hstop⟩
  obtain ⟨more, hentries, hpending, hreturned, hmoreNodup, hmore⟩ := hinFlight
  have hhanded : (run.step codec .tryRecv).handed = run.handed ++ more.map Record.start := by
    rw [← hreturned]
    rfl
  have hstarts : (run.step codec .tryRecv).queue.starts =
      run.queue.starts ++ more.map Record.start := by
    simp only [step, DiskQueue.starts, hentries, List.map_append, List.map_map]
    rfl
  have hbound : ∀ r ∈ more, run.queue.readPosition ≤ r.start ∧
      r.start < (tryReadNext codec run.queue).2.readPosition := by
    intro r hr
    have hr' : r ∈ run.queue.pending codec := by
      rw [hpending]
      exact List.mem_append_left _ hr
    exact ⟨(unread_bounds hr').1, hmore r hr ▸ (unread_bounds hr').2.1⟩
  have hfresh : ∀ position ∈ more.map Record.start, run.queue.readPosition ≤ position := by
    intro position hposition
    obtain ⟨r, hr, rfl⟩ := List.mem_map.mp hposition
    exact (hbound r hr).1
  have hcompleted : (run.step codec .tryRecv).completed = run.completed := by
    refine completed_eq (?_ : _ = _ ++ (run.queue.starts ++ more.map Record.start)) ?_ ?_
    · rw [hhanded, ← h.handed_eq, List.append_assoc]
    · exact fun position => mem_confirmed_of_mem_completed
    · intro position hposition
      rw [List.head?_append, Option.mem_def, Option.or_eq_some_iff] at hposition
      rcases hposition with hposition | ⟨-, hposition⟩
      · exact h.head_notMem position hposition
      · exact h.notMem_confirmed (hfresh position (List.mem_of_mem_head? hposition))
  exact {
    writer := by
      refine ⟨?_, ?_⟩
      · simpa only [step, hdir, hwrite] using h.writer.le_writeSeq
      · simpa only [step, hdir, hwrite, hfile] using h.writer.complete
    ackedSeq_eq := by
      simp only [step, hackedSeq, hreads.ackedSeq_eq]
      exact h.ackedSeq_eq
    acked_le := by
      simp only [step, hreads.ackedSeq_eq]
      exact h.acked_le.trans hreads.readSeq_le
    cursor_le := by simpa only [step, hdir, hacked] using h.cursor_le
    acked_within := by simpa only [step, hdir, hacked] using h.acked_within
    read_within := by
      simp only [step, hdir, hwrite]
      exact hreads.within h.read_within
    acked_line := by simpa only [step, hdir, hacked] using h.acked_line
    cursor_line := by simpa only [step, hdir] using h.cursor_line
    inFlight := by
      refine ⟨claimed ++ more, ?_, ?_⟩
      · rw [hsame, hunacked, hpending, List.append_assoc]
        rfl
      · simp only [step, hentries, List.map_append, hbounds]
        simp [Function.comp_def, Record.bounds, InFlight.bounds, Record.entry, InFlight.start,
          InFlight.stop]
    inFlight_seq := by
      intro entry hentry
      simp only [step, hentries, List.mem_append, List.mem_map] at hentry ⊢
      rcases hentry with hentry | ⟨r, hr, rfl⟩
      · exact (h.inFlight_seq entry hentry).trans hreads.readSeq_le
      · exact (congrArg Position.seq (hmore r hr)).le
    inFlight_acked := by
      intro entry hentry
      simp only [step, hentries, List.mem_append, List.mem_map] at hentry
      rcases hentry with hentry | ⟨r, hr, rfl⟩
      · exact h.inFlight_acked entry hentry
      · exact iff_of_false Bool.false_ne_true (h.notMem_confirmed (hbound r hr).1)
    sent_unread := by
      rw [hsame]
      exact h.sent_unread
    handed_eq := by rw [hcompleted, hstarts, hhanded, ← h.handed_eq, List.append_assoc]
    handed_nodup := by
      rw [hhanded]
      refine List.nodup_append.mpr ⟨h.handed_nodup, hmoreNodup, ?_⟩
      rintro p hp q hq rfl
      exact Position.not_lt_of_le (hfresh p hq) (h.handed_lt p hp)
    handed_lt := by
      intro position hposition
      rw [hhanded] at hposition
      rcases List.mem_append.mp hposition with hold | hnew
      · exact Position.lt_of_lt_of_le (h.handed_lt position hold) hreads.read_le
      · obtain ⟨r, hr, rfl⟩ := List.mem_map.mp hnew
        exact (hbound r hr).2
    confirmed_handed := by
      intro position hposition
      rw [hhanded]
      exact List.mem_append_left _ (h.confirmed_handed position hposition)
    confirmed_acked := h.confirmed_acked
    completed_lt := by
      rw [hcompleted]
      simpa only [step, hacked] using h.completed_lt
    settled_lt := by simpa only [step, hdir] using h.settled_lt }

/-! ## Writing -/

/-- A write keeps the invariant; the event counts as sent when it returned `Ok`. -/
theorem inv_write (h : run.Inv codec) {later : Dir} {next : DiskQueueState} {data suffix : Bytes}
    {event : Event} {wrote : Bool} (hserialize : codec.serialize event = some data)
    (happended : Appended run.queue.dir run.queue.state later next suffix)
    (hsuffix : LineOrPart data suffix wrote) :
    Inv codec { run with
      queue := { run.queue with dir := later, state := next }
      sent := if wrote then run.sent ++
        [(event, ⟨next.writeSeq, (run.queue.dir.content next.writeSeq).length⟩)]
        else run.sent } := by
  have hacked : run.queue.state.ackedSeq = run.queue.ackedPosition.seq := h.ackedSeq_eq
  have hread : run.queue.state.ackedSeq ≤ run.queue.readPosition.seq :=
    h.ackedSeq_eq ▸ h.acked_le
  have hcursor : loadCursor later = loadCursor run.queue.dir := loadCursor_congr happended.cursor_eq
  have hmax : maxSeq run.queue.dir ≤ maxSeq later :=
    maxSeq_le_of_kept happended.mem_of_mem (hacked ▸ h.acked_within.seq_le)
  have hmaxWrite : maxSeq run.queue.dir ≤ run.queue.state.writeSeq := by
    rcases maxSeq_mem run.queue.dir with hzero | hmem
    · omega
    · exact h.writer.le_writeSeq _ hmem
  -- both unread lists grow by the same suffix
  have hunacked : unread codec later next.writeSeq run.queue.ackedPosition = _ :=
    unread_of_appended happended h.writer hacked.le (h.acked_within.mono hmaxWrite)
  have hpending : unread codec later next.writeSeq run.queue.readPosition = _ :=
    unread_of_appended happended h.writer hread h.read_within
  obtain ⟨claimed, hclaimed, hbounds⟩ := h.inFlight
  exact {
    writer := happended.writer
    ackedSeq_eq := happended.same.ackedSeq_eq.trans h.ackedSeq_eq
    acked_le := h.acked_le
    cursor_le := hcursor ▸ h.cursor_le
    acked_within := within_of_appended happended h.acked_within hacked.le hmax
    read_within := within_of_appended happended h.read_within hread happended.same.writeSeq_le
    acked_line := atLine_of_appended happended h.acked_within hmaxWrite hacked.le h.acked_line
    cursor_line := by
      have hline := h.cursor_line
      rw [hcursor]
      -- below the acked segment the cursor may stand in a segment that has been removed
      rcases Nat.lt_or_ge (loadCursor run.queue.dir).seq run.queue.state.ackedSeq with hlt | hge
      · unfold AtLine at hline ⊢
        rcases happended.content_or _ hlt with hnil | heq
        · simp [hnil]
        · rwa [heq]
      · exact atLine_of_appended happended (h.acked_within.of_le h.cursor_le) hmaxWrite hge hline
    inFlight := by
      refine ⟨claimed, ?_, hbounds⟩
      refine hunacked.trans ?_
      rw [← unacked, hclaimed, List.append_assoc]
      exact congrArg (claimed ++ ·) hpending.symm
    inFlight_seq := h.inFlight_seq
    inFlight_acked := h.inFlight_acked
    sent_unread := by
      intro sent hsent hnot
      have hold : ∀ sent ∈ run.sent, sent.2 ∉ run.acked →
          ∃ r ∈ unread codec later next.writeSeq run.queue.ackedPosition,
            (r.event, r.start) = sent := by
        intro sent hsent hnot
        obtain ⟨r, hr, heq⟩ := h.sent_unread sent hsent hnot
        exact ⟨r, by rw [hunacked]; exact List.mem_append_left _ hr, heq⟩
      cases wrote with
      | false => exact hold sent hsent hnot
      | true =>
          rcases List.mem_append.mp hsent with hsent | hnew
          · exact hold sent hsent hnot
          · rw [List.mem_singleton.mp hnew]
            -- the event counts as sent only when the whole line was written
            rcases hsuffix with hline | ⟨-, hfalse⟩
            · refine ⟨writtenRecord next.writeSeq
                (run.queue.dir.content next.writeSeq).length data event, ?_, rfl⟩
              show _ ∈ unread codec later next.writeSeq run.queue.ackedPosition
              rw [hunacked, hline, scanLines_line hserialize]
              exact List.mem_append_right _ (List.mem_singleton_self _)
            · cases hfalse
    handed_eq := h.handed_eq
    handed_nodup := h.handed_nodup
    handed_lt := h.handed_lt
    confirmed_handed := h.confirmed_handed
    confirmed_acked := h.confirmed_acked
    completed_lt := h.completed_lt
    settled_lt := fun position hposition => hcursor ▸ h.settled_lt position hposition }

theorem inv_send (h : run.Inv codec) (io : WriteIo) (event : Event) :
    (run.step codec (.send io event)).Inv codec := by
  cases hserialize : codec.serialize event with
  | none => simpa [step, send, hserialize] using h
  | some data =>
      cases hwrite : writeToSegment io run.queue.dir run.queue.state data with
      | mk later result =>
          obtain ⟨next, wrote⟩ := result
          have hacked : run.queue.state.ackedSeq ≤ run.queue.state.writeSeq := by
            have hseq := h.acked_le.trans h.read_within.seq_le
            rwa [← h.ackedSeq_eq] at hseq
          obtain ⟨suffix, happended, hsuffix⟩ :=
            writeToSegment_spec h.writer hacked (codec.newline_notMem hserialize) hwrite
          have hstep := inv_write h hserialize happended hsuffix
          simpa only [step, send, hserialize, hwrite] using hstep

/-! ## Acks -/

/-- The unread list does not depend on how far beyond the last segment one looks. -/
theorem Inv.unread_maxSeq (h : run.Inv codec) {p : Position}
    (hp : p.seq ≤ maxSeq run.queue.dir) :
    unread codec run.queue.dir run.queue.state.writeSeq p =
      unread codec run.queue.dir (maxSeq run.queue.dir) p := by
  refine unread_top ?_ hp fun seq hseq => content_of_maxSeq_lt hseq
  rcases maxSeq_mem run.queue.dir with hzero | hmem
  · omega
  · exact h.writer.le_writeSeq _ hmem

/-- The deque under an ack of `position`: with the entry marked it is `popped ++ left`, the flags
say what is confirmed, and `popped` is the longest acked prefix. -/
structure Acks (run : Run Event) (position : Position) (popped left : List InFlight) : Prop where
  bounds : (popped ++ left).map InFlight.bounds =
    run.queue.receiver.inFlightPositions.map InFlight.bounds
  flags : ∀ entry ∈ popped ++ left,
    entry.acked = true ↔ entry.start ∈ (run.confirm position).confirmed
  popped_acked : ∀ entry ∈ popped, entry.acked = true
  head_unacked : ∀ entry ∈ left.head?, entry.acked = false

section Acks

variable {position : Position} {popped left : List InFlight}

theorem Inv.nodup_starts (h : run.Inv codec) : run.queue.starts.Nodup := by
  have hnodup := h.handed_nodup
  rw [← h.handed_eq] at hnodup
  exact (List.nodup_append.mp hnodup).2.1

/-- An ack that marks an entry. -/
theorem Inv.acks_of_marked (h : run.Inv codec)
    (hmark : markAcked position run.queue.receiver.inFlightPositions = some (popped ++ left))
    (hpopped : ∀ entry ∈ popped, entry.acked = true)
    (hhead : ∀ entry ∈ left.head?, entry.acked = false) : Acks run position popped left where
  bounds := markAcked_bounds hmark
  flags := by
    have hstart : position ∈ run.queue.starts := by
      by_contra hnot
      rw [markAcked_eq_none.mpr hnot] at hmark
      cases hmark
    have hhanded : position ∈ run.handed := h.handed_eq ▸ List.mem_append_right _ hstart
    rw [confirm, if_pos hhanded]
    exact markAcked_flags hmark h.nodup_starts h.inFlight_acked
  popped_acked := hpopped
  head_unacked := hhead

/-- An ack of a position that is not in the deque: it was not handed out, or it is confirmed
already. -/
theorem Inv.acks_of_ignored (h : run.Inv codec)
    (hmark : markAcked position run.queue.receiver.inFlightPositions = none) :
    Acks run position [] run.queue.receiver.inFlightPositions where
  bounds := rfl
  flags := by
    intro entry hentry
    rw [h.inFlight_acked entry hentry, confirm]
    dsimp only
    split
    · have hne : entry.start ≠ position := by
        rintro rfl
        exact markAcked_eq_none.mp hmark (List.mem_map_of_mem hentry)
      rw [List.mem_append, List.mem_singleton, or_iff_left hne]
    · exact Iff.rfl
  popped_acked := fun _ hentry => absurd hentry List.not_mem_nil
  head_unacked := by
    intro entry hentry
    have hhead := h.head_notMem entry.start (by
      rw [DiskQueue.starts, List.head?_map, Option.mem_def.mp hentry]
      rfl)
    rw [← h.inFlight_acked entry (List.mem_of_mem_head? hentry)] at hhead
    simpa using hhead

theorem Acks.stop_le (hacks : Acks run position popped left) (h : run.Inv codec) :
    ∀ entry ∈ popped ++ left, entry.stop.seq ≤ run.queue.receiver.readSeq := by
  intro entry hentry
  have hmem : entry.bounds ∈ run.queue.receiver.inFlightPositions.map InFlight.bounds := by
    rw [← hacks.bounds]
    exact List.mem_map_of_mem hentry
  obtain ⟨before, hbefore, heq⟩ := List.mem_map.mp hmem
  have hstop : before.stop = entry.stop := congrArg Prod.snd heq
  exact hstop ▸ h.inFlight_seq before hbefore

theorem mem_confirm {q : Position} (hq : q ∈ run.confirmed) :
    q ∈ (run.confirm position).confirmed := by
  rw [confirm]
  dsimp only
  split
  · exact List.mem_append_left _ hq
  · exact hq

theorem Inv.confirm_handed (h : run.Inv codec) :
    ∀ q ∈ (run.confirm position).confirmed, q ∈ run.handed := by
  intro q hq
  rw [confirm] at hq
  dsimp only at hq
  split at hq
  · rename_i hposition
    rcases List.mem_append.mp hq with hq | hq
    · exact h.confirmed_handed q hq
    · exact List.mem_singleton.mp hq ▸ hposition
  · exact h.confirmed_handed q hq

theorem Inv.confirm_acked (h : run.Inv codec) :
    ∀ q ∈ (run.confirm position).confirmed, q ∈ run.acked ++ [position] := by
  intro q hq
  rw [confirm] at hq
  dsimp only at hq
  split at hq
  · rcases List.mem_append.mp hq with hq | hq
    · exact List.mem_append_left _ (h.confirmed_acked q hq)
    · exact List.mem_append_right _ hq
  · exact List.mem_append_left _ (h.confirmed_acked q hq)

theorem Acks.handed_eq (hacks : Acks run position popped left) (h : run.Inv codec) :
    run.handed = (run.completed ++ popped.map InFlight.start) ++ left.map InFlight.start := by
  rw [List.append_assoc, ← starts_of_bounds hacks.bounds, h.handed_eq]

/-- **The entries popped are what the ack adds to the contiguous acked prefix.** -/
theorem Acks.completed_eq (hacks : Acks run position popped left) (h : run.Inv codec) :
    (run.confirm position).completed = run.completed ++ popped.map InFlight.start := by
  refine Run.completed_eq (hacks.handed_eq h) ?_ ?_
  · intro q hq
    rcases List.mem_append.mp hq with hq | hq
    · exact mem_confirm (mem_confirmed_of_mem_completed hq)
    · obtain ⟨entry, hentry, rfl⟩ := List.mem_map.mp hq
      exact (hacks.flags entry (List.mem_append_left _ hentry)).mp (hacks.popped_acked entry hentry)
  · intro q hq
    rw [List.head?_map, Option.mem_def, Option.map_eq_some_iff] at hq
    obtain ⟨entry, hentry, rfl⟩ := hq
    rw [← hacks.flags entry (List.mem_append_right _ (List.mem_of_mem_head? hentry)),
      hacks.head_unacked entry hentry]
    exact Bool.false_ne_true

/-- An ack that pops nothing. -/
theorem inv_ack_nothing (h : run.Inv codec) (hacks : Acks run position [] left) :
    Inv codec { run.confirm position with queue := run.queue.withInFlight left } := by
  have hcompleted : (run.confirm position).completed = run.completed := by
    simpa using hacks.completed_eq h
  exact { h with
    inFlight := by
      obtain ⟨claimed, hclaimed, hbefore⟩ := h.inFlight
      exact ⟨claimed, hclaimed, hbefore.trans hacks.bounds.symm⟩
    inFlight_seq := hacks.stop_le h
    inFlight_acked := hacks.flags
    sent_unread := fun sent hsent hnot =>
      h.sent_unread sent hsent fun hmem => hnot (List.mem_append_left _ hmem)
    handed_eq := by
      refine Eq.trans ?_ (hacks.handed_eq h).symm
      exact congrArg (· ++ left.map InFlight.start) (hacks.completed_eq h)
    confirmed_handed := h.confirm_handed
    confirmed_acked := h.confirm_acked
    completed_lt := by
      intro q hq
      exact h.completed_lt q (hcompleted ▸ hq) }

/-- The popped entries, seen as records: the last one is `r`, and after it comes what is left. -/
theorem Acks.records (hacks : Acks run position popped left) (h : run.Inv codec)
    {last : InFlight} (hlast : popped.getLast? = some last) :
    ∃ front r claimed, run.unacked codec =
        front ++ r :: (claimed ++ run.queue.pending codec) ∧
      (front ++ [r]).map Record.bounds = popped.map InFlight.bounds ∧
      claimed.map Record.bounds = left.map InFlight.bounds ∧ r.stop = last.stop := by
  obtain ⟨claimed, hunacked, hclaimed⟩ := h.inFlight
  rw [← hacks.bounds, List.map_append] at hclaimed
  obtain ⟨first, rest, rfl, hfirst, hrest⟩ := List.map_eq_append_iff.mp hclaimed
  obtain ⟨init, rfl⟩ := List.getLast?_eq_some_iff.mp hlast
  rw [List.map_append] at hfirst
  obtain ⟨front, tail, rfl, hfront, htail⟩ := List.map_eq_append_iff.mp hfirst
  obtain ⟨r, hr⟩ : ∃ r, tail = [r] := by
    refine List.length_eq_one_iff.mp ?_
    simpa using congrArg List.length htail
  subst hr
  refine ⟨front, r, rest, ?_, ?_, hrest, ?_⟩
  · simpa using hunacked
  · rw [List.map_append, List.map_append, hfront, htail]
  · simpa [Record.bounds, InFlight.bounds] using congrArg (List.map Prod.snd) htail

/-- **Committing the acked cursor keeps the invariant.**  The popped entries are the records
`front ++ [r]`; the new cursor is where `r` ends. -/
theorem inv_commit (h : run.Inv codec) (io : AckIo) (hacks : Acks run position popped left)
    {front claimed : List (Record Event)} {r : Record Event}
    (hunacked : run.unacked codec = front ++ r :: (claimed ++ run.queue.pending codec))
    (hfront : (front ++ [r]).map Record.bounds = popped.map InFlight.bounds)
    (hclaimed : claimed.map Record.bounds = left.map InFlight.bounds) :
    Inv codec { run.confirm position with
      queue := commit io (run.queue.withInFlight left) r.stop
      settled := if io.cursorSaved then run.settled ++ (run.confirm position).completed
        else run.settled } := by
  -- the new cursor: past the old one, within the queue, at a line start
  have hr : r ∈ run.unacked codec := by
    rw [hunacked]
    simp
  have hbounds := unread_bounds hr
  have hadvance : run.queue.ackedPosition ≤ r.stop :=
    Position.le_trans hbounds.1 (Position.le_of_lt hbounds.2.1)
  have hstop : Within run.queue.dir (maxSeq run.queue.dir) r.stop ∧
      AtLine run.queue.dir r.stop := by
    rw [unacked, h.unread_maxSeq h.acked_within.seq_le] at hr
    exact unread_stop h.acked_within.seq_le hr
  have hread : r.stop.seq ≤ run.queue.receiver.readSeq := by
    have hmem : r.bounds ∈ popped.map InFlight.bounds := by
      rw [← hfront]
      exact List.mem_map_of_mem (by simp)
    obtain ⟨entry, hentry, heq⟩ := List.mem_map.mp hmem
    have hstop : entry.stop = r.stop := congrArg Prod.snd heq
    exact hstop ▸ hacks.stop_le h entry (List.mem_append_left _ hentry)
  have hwrite : r.stop.seq ≤ run.queue.state.writeSeq := hread.trans h.read_within.seq_le
  -- the directory: nothing from the new cursor on is touched
  have hcontent : ∀ seq, r.stop.seq ≤ seq →
      (commit io (run.queue.withInFlight left) r.stop).dir.content seq =
        run.queue.dir.content seq := fun seq hle => content_commit io _ hle
  have hmax : maxSeq run.queue.dir ≤
      maxSeq (commit io (run.queue.withInFlight left) r.stop).dir :=
    maxSeq_le_of_kept (fun seq hle hmem => (mem_commit io _ hle).mpr hmem) hstop.1.seq_le
  have hunread : ∀ p : Position, r.stop.seq ≤ p.seq →
      unread codec (commit io (run.queue.withInFlight left) r.stop).dir
        run.queue.state.writeSeq p = unread codec run.queue.dir run.queue.state.writeSeq p :=
    fun p hle => unread_congr fun seq hseq => hcontent seq (hle.trans hseq)
  have hcursor := loadCursor_commit io (run.queue.withInFlight left) r.stop
  have hpoppedLt : ∀ start ∈ popped.map InFlight.start, start < r.stop := by
    intro start hstart
    have hmem : start ∈ (front ++ [r]).map Record.start := by
      have hmap := congrArg (List.map Prod.fst) hfront
      simp only [List.map_map] at hmap
      exact hmap ▸ hstart
    obtain ⟨r', hr', rfl⟩ := List.mem_map.mp hmem
    exact unread_start_lt hunacked hr'
  have hlt : ∀ p ∈ (run.confirm position).completed, p < r.stop := by
    intro p hp
    rw [hacks.completed_eq h] at hp
    rcases List.mem_append.mp hp with hp | hp
    · exact Position.lt_of_lt_of_le (h.completed_lt p hp) hadvance
    · exact hpoppedLt p hp
  exact {
    writer := by
      refine ⟨fun seq hmem => h.writer.le_writeSeq seq (mem_of_mem_commit hmem), fun hfile => ?_⟩
      have hcomplete := h.writer.complete hfile
      rwa [← hcontent _ hwrite] at hcomplete
    ackedSeq_eq := rfl
    acked_le := hread
    cursor_le := by
      dsimp only
      rw [hcursor]
      split
      · exact Position.le_refl _
      · exact Position.le_trans h.cursor_le hadvance
    acked_within := by
      rcases Nat.lt_or_eq_of_le hmax with hmax | hmax
      · exact Or.inl (lt_of_le_of_lt hstop.1.seq_le hmax)
      · rcases hstop.1 with hlt | ⟨heq, hoffset⟩
        · exact Or.inl (hmax ▸ hlt)
        · refine Or.inr ⟨heq.trans hmax, ?_⟩
          rw [← hmax, hcontent _ heq.le]
          exact hoffset
    read_within := by
      rcases h.read_within with hlt | ⟨heq, hoffset⟩
      · exact Or.inl hlt
      · rw [← hcontent _ hwrite] at hoffset
        exact Or.inr ⟨heq, hoffset⟩
    acked_line := by
      have hline := hstop.2
      rw [AtLine, ← hcontent _ le_rfl] at hline
      exact hline
    cursor_line := by
      dsimp only
      rw [hcursor]
      split
      · have hline := hstop.2
        rw [AtLine, ← hcontent _ le_rfl] at hline
        exact hline
      · rcases content_commit_or io (run.queue.withInFlight left) r.stop
            (loadCursor (run.queue.withInFlight left).dir).seq with hnil | heq
        · rw [AtLine, hnil]
          simp
        · have hline := h.cursor_line
          rw [AtLine, heq]
          exact hline
    inFlight := by
      refine ⟨claimed, ?_, hclaimed⟩
      have hrest : unread codec run.queue.dir run.queue.state.writeSeq r.stop =
          claimed ++ run.queue.pending codec := unread_split hunacked
      refine (hunread r.stop le_rfl).trans (hrest.trans ?_)
      exact congrArg (claimed ++ ·) (hunread run.queue.readPosition hread).symm
    inFlight_seq := fun entry hentry => hacks.stop_le h entry (List.mem_append_right _ hentry)
    inFlight_acked := fun entry hentry => hacks.flags entry (List.mem_append_right _ hentry)
    sent_unread := by
      intro sent hsent hnot
      obtain ⟨r', hr', rfl⟩ := h.sent_unread sent hsent fun hmem =>
        hnot (List.mem_append_left _ hmem)
      rw [hunacked] at hr'
      refine ⟨r', ?_, rfl⟩
      have hrest : unread codec run.queue.dir run.queue.state.writeSeq r.stop =
          claimed ++ run.queue.pending codec := unread_split hunacked
      have hnew : ∀ r' ∈ claimed ++ run.queue.pending codec, r' ∈
          unread codec (commit io (run.queue.withInFlight left) r.stop).dir
            run.queue.state.writeSeq r.stop := by
        intro r' hr'
        rwa [hunread r.stop le_rfl, hrest]
      rw [← List.singleton_append, ← List.append_assoc] at hr'
      rcases List.mem_append.mp hr' with hgone | hstays
      · -- a popped record: its own position has been acked
        have hmem : r'.bounds ∈ popped.map InFlight.bounds := by
          rw [← hfront]
          exact List.mem_map_of_mem hgone
        obtain ⟨entry, hentry, heq⟩ := List.mem_map.mp hmem
        have hstart : entry.start = r'.start := congrArg Prod.fst heq
        have hconfirmed := (hacks.flags entry (List.mem_append_left _ hentry)).mp
          (hacks.popped_acked entry hentry)
        rw [hstart] at hconfirmed
        exact absurd (h.confirm_acked _ hconfirmed) hnot
      · exact hnew r' hstays
    handed_eq := by
      refine Eq.trans ?_ (hacks.handed_eq h).symm
      exact congrArg (· ++ left.map InFlight.start) (hacks.completed_eq h)
    handed_nodup := h.handed_nodup
    handed_lt := h.handed_lt
    confirmed_handed := h.confirm_handed
    confirmed_acked := h.confirm_acked
    completed_lt := hlt
    settled_lt := by
      intro p hp
      dsimp only at hp ⊢
      rw [hcursor]
      cases hsaved : io.cursorSaved with
      | false =>
          simp only [hsaved, Bool.false_eq_true, if_false] at hp ⊢
          exact h.settled_lt p hp
      | true =>
          simp only [hsaved, if_true] at hp ⊢
          rcases List.mem_append.mp hp with hp | hp
          · exact Position.lt_of_lt_of_le (h.settled_lt p hp)
              (Position.le_trans h.cursor_le hadvance)
          · exact hlt p hp }

theorem inv_ackTo (h : run.Inv codec) (io : AckIo) (position : Position) :
    (run.step codec (.ackTo io position)).Inv codec := by
  rcases ackTo_cases io position run.queue with
    ⟨hmark, hsame⟩ | ⟨marked, popped, left, hmark, rfl, hpopped, hhead, hnone |
      ⟨last, hlast, hcommit⟩⟩
  · have hacks := h.acks_of_ignored hmark
    have hcompleted : (run.confirm position).completed = run.completed := by
      simpa using hacks.completed_eq h
    have hstep := inv_ack_nothing h hacks
    simp only [step, hsame, completed_withQueue, hcompleted, ne_eq, not_true_eq_false, and_false,
      if_false]
    exact hstep
  · obtain ⟨rfl, hsame⟩ := hnone
    have hacks := h.acks_of_marked hmark hpopped hhead
    have hcompleted : (run.confirm position).completed = run.completed := by
      simpa using hacks.completed_eq h
    have hstep := inv_ack_nothing h hacks
    simp only [step, hsame, completed_withQueue, hcompleted, ne_eq, not_true_eq_false, and_false,
      if_false]
    exact hstep
  · have hacks := h.acks_of_marked hmark hpopped hhead
    obtain ⟨front, r, claimed, hunacked, hfront, hclaimed, hstop⟩ := hacks.records h hlast
    have hr : r ∈ run.unacked codec := by
      rw [hunacked]
      simp
    have hne : last.stop ≠ run.queue.ackedPosition := by
      rw [← hstop]
      intro heq
      have hbounds := unread_bounds hr
      rw [← heq] at hbounds
      exact Position.not_lt_of_le hbounds.1 hbounds.2.1
    have hsame := hcommit.resolve_left fun hstay => hne hstay.1
    have hlonger : (run.confirm position).completed ≠ run.completed := by
      rw [hacks.completed_eq h]
      intro heq
      have hnil : popped = [] := by simpa using heq
      simp [hnil] at hlast
    have hstep := inv_commit h io hacks hunacked hfront hclaimed
    rw [hstop] at hstep
    simp only [step, hsame, completed_withQueue, hlonger, ne_eq, not_false_eq_true, and_true]
    exact hstep

end Acks

/-! ## Reopening -/

/-- After a reopen the reader has to read at least what was unacked. -/
theorem Inv.unacked_suffix (h : run.Inv codec) (maxSize : ℕ) :
    run.unacked codec <:+ (createDiskQueue run.queue.dir maxSize).pending codec := by
  have hseq := h.acked_within.seq_le
  rw [unacked, h.unread_maxSeq hseq]
  exact unread_suffix h.cursor_le h.acked_line hseq

theorem inv_reopen (h : run.Inv codec) (maxSize : ℕ) :
    (run.step codec (.reopen maxSize)).Inv codec where
  writer := ⟨fun _ hseq => le_maxSeq hseq, fun hfile => absurd hfile Bool.false_ne_true⟩
  ackedSeq_eq := rfl
  acked_le := le_rfl
  cursor_le := Position.le_refl _
  acked_within := h.acked_within.of_le h.cursor_le
  read_within := h.acked_within.of_le h.cursor_le
  acked_line := h.cursor_line
  cursor_line := h.cursor_line
  inFlight := ⟨[], rfl, rfl⟩
  inFlight_seq := fun _ hentry => absurd hentry List.not_mem_nil
  inFlight_acked := fun _ hentry => absurd hentry List.not_mem_nil
  sent_unread := by
    intro sent hsent hnot
    obtain ⟨r, hr, heq⟩ := h.sent_unread sent hsent hnot
    exact ⟨r, (h.unacked_suffix maxSize).subset hr, heq⟩
  handed_eq := rfl
  handed_nodup := List.nodup_nil
  handed_lt := fun _ hposition => absurd hposition List.not_mem_nil
  confirmed_handed := fun _ hposition => absurd hposition List.not_mem_nil
  confirmed_acked := fun _ hposition => absurd hposition List.not_mem_nil
  completed_lt := fun _ hposition => absurd hposition List.not_mem_nil
  settled_lt := h.settled_lt

theorem inv_close (h : run.Inv codec) : (run.step codec .close).Inv codec :=
  { h with }

/-! ## Runs -/

theorem inv_step (h : run.Inv codec) (op : Op Event) : (run.step codec op).Inv codec := by
  cases op with
  | send io event => exact inv_send h io event
  | tryRecv => exact inv_tryRecv h
  | ackTo io position => exact inv_ackTo h io position
  | close => exact inv_close h
  | reopen maxSize => exact inv_reopen h maxSize

theorem inv_steps (h : run.Inv codec) (ops : List (Op Event)) :
    (run.steps codec ops).Inv codec := by
  induction ops generalizing run with
  | nil => exact h
  | cons op ops ih => exact ih (inv_step h op)

/-- What is settled stays settled. -/
theorem settled_subset_step (run : Run Event) (op : Op Event) :
    run.settled ⊆ (run.step codec op).settled := by
  intro p hp
  cases op with
  | ackTo io position =>
      rw [step]
      dsimp only
      split
      · exact List.mem_append_left _ hp
      · exact hp
  | send io event => exact hp
  | tryRecv => exact hp
  | close => exact hp
  | reopen maxSize => exact hp

theorem settled_subset (run : Run Event) (ops : List (Op Event)) :
    run.settled ⊆ (run.steps codec ops).settled := by
  induction ops generalizing run with
  | nil => exact List.Subset.refl _
  | cons op ops ih => exact List.Subset.trans (settled_subset_step run op) (ih _)

/-- What `try_recv` returns lies at or after the acked cursor. -/
theorem Inv.le_of_received (h : run.Inv codec) {event : Event} {position : Position}
    (hreceived : (tryReadNext codec run.queue).1 = some (event, position)) :
    run.queue.ackedPosition ≤ position := by
  obtain ⟨-, hspec⟩ := tryReadNext_spec codec run.queue
  rw [hreceived] at hspec
  obtain ⟨r, hpending, -, rfl, -⟩ := hspec
  obtain ⟨claimed, hunacked, -⟩ := h.inFlight
  have hr : r ∈ run.unacked codec := by
    rw [hunacked, hpending]
    simp
  exact (unread_bounds hr).1

/-- **No event is lost and no completed event comes back.**  After any run:

1. an event whose `send` returned `Ok` and whose position was never acked lies at or after the
   persisted cursor, in a segment that still exists, and is among what `try_recv` returns after a
   reopen;
2. the acks have popped the contiguous acked prefix of what was handed out, and nothing else;
3. an event in this prefix is not returned again before the next reopen;
4. an event that was in it when an ack wrote the cursor is never returned again, whatever happens
   later. -/
theorem at_least_once (codec : RecordCodec Event) (maxSize : ℕ) (ops : List (Op Event)) :
    (∀ sent ∈ ((start maxSize).steps codec ops).sent,
      sent.2 ∉ ((start maxSize).steps codec ops).acked →
      loadCursor ((start maxSize).steps codec ops).queue.dir ≤ sent.2 ∧
      sent.2.seq ∈ ((start maxSize).steps codec ops).queue.dir.segments ∧
      ∀ maxSize', ∃ n, sent ∈
        drain codec n (createDiskQueue ((start maxSize).steps codec ops).queue.dir maxSize')) ∧
    ((start maxSize).steps codec ops).completed ++
        ((start maxSize).steps codec ops).queue.receiver.inFlightPositions.map InFlight.start =
      ((start maxSize).steps codec ops).handed ∧
    (∀ position ∈ ((start maxSize).steps codec ops).completed, ∀ event,
      (tryReadNext codec ((start maxSize).steps codec ops).queue).1 ≠ some (event, position)) ∧
    (∀ position ∈ ((start maxSize).steps codec ops).settled, ∀ more event,
      (tryReadNext codec (((start maxSize).steps codec ops).steps codec more).queue).1 ≠
        some (event, position)) := by
  have hinv := inv_steps (inv_start codec maxSize) ops
  refine ⟨fun sent hsent hnot => ?_, hinv.handed_eq,
    fun position hcompleted event hreceived => ?_,
    fun position hsettled more event hreceived => ?_⟩
  · obtain ⟨r, hr, rfl⟩ := hinv.sent_unread sent hsent hnot
    have hbounds := unread_bounds hr
    refine ⟨Position.le_trans hinv.cursor_le hbounds.1, mem_of_content_ne_nil ?_,
      fun maxSize' => ⟨((createDiskQueue ((start maxSize).steps codec ops).queue.dir
        maxSize').pending codec).length, ?_⟩⟩
    · exact List.length_pos_iff.mp (lt_of_le_of_lt (Nat.zero_le _) hbounds.2.2.2)
    · rw [drain_eq_pending]
      exact List.mem_map_of_mem ((hinv.unacked_suffix maxSize').subset hr)
  · exact Position.not_lt_of_le (hinv.le_of_received hreceived)
      (hinv.completed_lt position hcompleted)
  · have hlater := inv_steps hinv more
    exact Position.not_lt_of_le
      (Position.le_trans hlater.cursor_le (hlater.le_of_received hreceived))
      (hlater.settled_lt position (settled_subset _ more hsettled))

end Run

end Limpid.Disk
