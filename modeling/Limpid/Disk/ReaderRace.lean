import Limpid.Runs
import Limpid.Disk.Write

/-!
# The reader between two writes

`try_read_next` is not atomic: it looks whether the segment file exists, reads a line from it,
and only then takes the lock to read `write_seq`, and a writer may append in between.  Here the
reader takes these steps one at a time (`readerStep`) while each `write_to_segment` stays one
step under the lock.  Run without a writer in between, the steps amount to `tryReadNext`
(`runReader_eq_tryReadNext`).

The end-of-segment decision combines two observations made at different times.  If the reader
finds its segment missing or exhausted, a record is then appended to that segment, and the next
one rotates, the reader reads the new `write_seq` and leaves the segment with the record unread
(`reader_skips_record`).  As long as nothing has been appended by the time the decision is taken
(`Undisturbed`), what is received is a prefix of what is sent (`received_prefix_of_undisturbed`).
-/

namespace Limpid.Disk

open Limpid.Lines

variable {Event : Type*} (codec : RecordCodec Event)

/-- Where the reader is in `try_read_next`. -/
inductive ReaderPc where
  /-- Not in a call. -/
  | idle
  /-- About to look whether the segment file exists. -/
  | check
  /-- It does not: about to read `write_seq`. -/
  | missing
  /-- It does: about to read a line. -/
  | present
  /-- The line is unterminated: about to ask whether the segment is active. -/
  | torn
  /-- About to read the line again. -/
  | reread (active : Bool)
  /-- Nothing was left in the segment: about to read `write_seq`. -/
  | exhausted
deriving DecidableEq, Repr

/-- What the reader does with a line, without looking at anything shared. -/
def handleLine (queue : DiskQueue) (line : Bytes) : ReaderPc × DiskQueue × Option Event :=
  if line = [] then (.exhausted, queue, none)
  else match consumeLine codec line queue.receiver with
    | (none, receiver) => (.check, { queue with receiver := receiver }, none)
    | (some event, receiver) => (.idle, { queue with receiver := receiver }, some event)

/-- The locked look at `write_seq` that ends a segment. -/
def leaveSegment (queue : DiskQueue) : ReaderPc × DiskQueue × Option Event :=
  if queue.receiver.readSeq < queue.state.writeSeq then (.check, queue.nextSegment, none)
  else (.idle, queue, none)

/-- One step of the reader: where it is next, the queue, and the event it returns. -/
def readerStep (queue : DiskQueue) : ReaderPc → ReaderPc × DiskQueue × Option Event
  | .idle => (.check, queue, none)
  | .check =>
      if queue.receiver.readSeq ∈ queue.dir.segments then (.present, queue, none)
      else (.missing, queue, none)
  | .missing => leaveSegment queue
  | .present =>
      match queue.dir.segments.lookup queue.receiver.readSeq with
      | none => (.idle, queue, none)
      | some content =>
          let line := readLineAt content queue.receiver.readOffset
          if line ≠ [] ∧ line.getLast? ≠ some newline then (.torn, queue, none)
          else handleLine codec queue line
  | .torn => (.reread queue.activeSegment, queue, none)
  | .reread active =>
      match queue.dir.segments.lookup queue.receiver.readSeq with
      | none => (.idle, queue, none)
      | some content =>
          let line := readLineAt content queue.receiver.readOffset
          if line ≠ [] ∧ line.getLast? ≠ some newline ∧ active = true then (.idle, queue, none)
          else handleLine codec queue line
  | .exhausted => leaveSegment queue

/-! ## Without a writer in between -/

/-- The reader's steps until the call returns. -/
def runReader : ℕ → ReaderPc → DiskQueue → Option (Option Event × DiskQueue)
  | 0, _, _ => none
  | n + 1, pc, queue =>
      match readerStep codec queue pc with
      | (.idle, next, event) => some (event, next)
      | (pc, next, _) => runReader n pc next

/-- Undisturbed, handling a line does what the rest of the turn does with it. -/
theorem runReader_handleLine {queue : DiskQueue} {line : Bytes} (hne : line ≠ []) {pc : ReaderPc}
    (hpc : readerStep codec queue pc = handleLine codec queue line) (n : ℕ) :
    runReader codec (n + 1) pc queue =
      match consumeLine codec line queue.receiver with
      | (none, receiver) => runReader codec n .check { queue with receiver := receiver }
      | (some event, receiver) => some (some event, { queue with receiver := receiver }) := by
  rw [runReader, hpc, handleLine, if_neg hne]
  cases consumeLine codec line queue.receiver with
  | mk result receiver => cases result <;> rfl

theorem runReader_leaveSegment {queue : DiskQueue} {pc : ReaderPc}
    (hpc : readerStep codec queue pc = leaveSegment queue) (n : ℕ) :
    runReader codec (n + 1) pc queue =
      if queue.receiver.readSeq < queue.state.writeSeq then
        runReader codec n .check queue.nextSegment
      else some (none, queue) := by
  rw [runReader, hpc, leaveSegment]
  by_cases hlt : queue.receiver.readSeq < queue.state.writeSeq
  · rw [if_pos hlt, if_pos hlt]
  · rw [if_neg hlt, if_neg hlt]

/-- Undisturbed, the steps from the top of the loop do what one turn of it does. -/
theorem runReader_turn (queue : DiskQueue) (n : ℕ) :
    ∃ k, runReader codec (n + k) .check queue =
      match readTurn codec queue with
      | .idle => some (none, queue)
      | .event event next => some (some event, next)
      | .again next => runReader codec n .check next := by
  have hfinish : ∀ pc, readerStep codec queue pc = leaveSegment queue →
      runReader codec (n + 1) pc queue =
        match (finishSegment queue : Turn Event) with
        | .idle => some (none, queue)
        | .event event next => some (some event, next)
        | .again next => runReader codec n .check next := by
    intro pc hpc
    rw [runReader_leaveSegment codec hpc, finishSegment]
    split <;> rfl
  unfold readTurn
  cases hlookup : queue.dir.segments.lookup queue.receiver.readSeq with
  | none =>
      have hmem : queue.receiver.readSeq ∉ queue.dir.segments := AList.lookup_eq_none.mp hlookup
      refine ⟨2, ?_⟩
      rw [runReader, readerStep, if_neg hmem]
      exact hfinish .missing rfl
  | some content =>
      have hmem : queue.receiver.readSeq ∈ queue.dir.segments := by
        rw [← AList.lookup_isSome, hlookup]
        rfl
      dsimp only
      -- the segment is at its end, so the reader leaves it
      by_cases hnil : readLineAt content queue.receiver.readOffset = []
      · refine ⟨3, ?_⟩
        rw [if_pos hnil, runReader, readerStep, if_pos hmem]
        dsimp only
        rw [runReader, readerStep, hlookup]
        dsimp only
        rw [if_neg (fun h => h.1 hnil), handleLine, if_pos hnil]
        exact hfinish .exhausted rfl
      · rw [if_neg hnil]
        -- a line without its end is read again, from the place where it starts
        by_cases hcomplete : (readLineAt content queue.receiver.readOffset).getLast? = some newline
        · refine ⟨2, ?_⟩
          rw [if_neg (fun h => h.1 hcomplete), runReader, readerStep, if_pos hmem]
          refine (runReader_handleLine codec hnil ?_ n).trans ?_
          · rw [readerStep, hlookup]
            exact if_neg fun h => h.2 hcomplete
          · cases consumeLine codec (readLineAt content queue.receiver.readOffset)
              queue.receiver with
            | mk result receiver => cases result <;> rfl
        · refine ⟨4, ?_⟩
          rw [runReader, readerStep, if_pos hmem]
          dsimp only
          rw [runReader, readerStep, hlookup]
          dsimp only
          rw [if_pos ⟨hnil, hcomplete⟩]
          dsimp only
          rw [runReader, readerStep]
          dsimp only
          cases hactive : queue.activeSegment with
          | true =>
              rw [if_pos ⟨hcomplete, rfl⟩, runReader, readerStep, hlookup]
              dsimp only
              rw [if_pos ⟨hnil, hcomplete, rfl⟩]
          | false =>
              rw [if_neg (fun h => Bool.false_ne_true h.2)]
              refine (runReader_handleLine codec hnil ?_ n).trans ?_
              · rw [readerStep, hlookup]
                exact if_neg fun h => Bool.false_ne_true h.2.2
              · cases consumeLine codec (readLineAt content queue.receiver.readOffset)
                  queue.receiver with
                | mk result receiver => cases result <;> rfl

/-- **Undisturbed, the reader's steps amount to `try_read_next`.** -/
theorem runReader_eq_tryReadNext (queue : DiskQueue) :
    ∃ n, runReader codec n .check queue =
      some ((tryReadNext codec queue).1.map Prod.fst, (tryReadNext codec queue).2) := by
  induction queue using tryReadNext.induct codec with
  | case1 queue h =>
      obtain ⟨k, hk⟩ := runReader_turn codec queue 0
      refine ⟨0 + k, ?_⟩
      rw [hk, h, tryReadNext, h]
      rfl
  | case2 queue event next h =>
      obtain ⟨k, hk⟩ := runReader_turn codec queue 0
      refine ⟨0 + k, ?_⟩
      rw [hk, h, tryReadNext, h]
      rfl
  | case3 queue next h ih =>
      obtain ⟨n, hn⟩ := ih
      obtain ⟨k, hk⟩ := runReader_turn codec queue n
      refine ⟨n + k, ?_⟩
      rw [hk, h, tryReadNext, h]
      exact hn

/-! ## Any interleaving -/

/-- The queue, where its reader is, and the events sent and received so far. -/
structure Race (Event : Type*) where
  queue : DiskQueue
  pc : ReaderPc
  sent : List Event
  received : List Event

/-- A move: a sender completes a `write_to_segment`, or the reader takes one step. -/
inductive Move (Event : Type*) where
  | send (io : WriteIo) (event : Event)
  | read

/-- The steps of senders and reader; only sends that return `Ok` are moves. -/
inductive RaceStep : Race Event → Move Event → Race Event → Prop where
  | send {race : Race Event} {io : WriteIo} {event : Event} {queue : DiskQueue} :
      send codec io event race.queue = (queue, true) →
      RaceStep race (.send io event) { race with queue := queue, sent := race.sent ++ [event] }
  | read {race : Race Event} {pc : ReaderPc} {queue : DiskQueue} {event : Option Event} :
      readerStep codec race.queue race.pc = (pc, queue, event) →
      RaceStep race .read
        { race with queue := queue, pc := pc, received := race.received ++ event.toList }

/-- A new queue, with no send under way. -/
def Race.start (maxSize : ℕ) : Race Event :=
  ⟨createDiskQueue Dir.empty maxSize, .idle, [], []⟩

/-- Before the reader leaves a segment it has found missing or exhausted: nothing has been
appended to it since. -/
def Undisturbed (race : Race Event) : Move Event → Prop
  | .send _ _ => True
  | .read => (race.pc = .missing ∨ race.pc = .exhausted) →
      race.queue.receiver.readSeq < race.queue.state.writeSeq →
      (race.queue.dir.content race.queue.receiver.readSeq).length ≤ race.queue.receiver.readOffset

theorem undisturbed_of_pc {race : Race Event} (hmissing : race.pc ≠ .missing)
    (hexhausted : race.pc ≠ .exhausted) (move : Move Event) : Undisturbed race move := by
  cases move with
  | send io event => trivial
  | read =>
      rintro (hpc | hpc)
      · exact absurd hpc hmissing
      · exact absurd hpc hexhausted

/-- Every event sent is received or still unread. -/
structure Race.Inv (race : Race Event) : Prop where
  writer : WriterOk race.queue.dir race.queue.state
  ackedSeq_eq : race.queue.state.ackedSeq = 0
  within : Within race.queue.dir race.queue.state.writeSeq race.queue.readPosition
  sent_eq : race.sent = race.received ++ (race.queue.pending codec).map Record.event

variable {codec}

theorem Race.inv_start (maxSize : ℕ) : (Race.start maxSize : Race Event).Inv codec where
  writer := ⟨fun _ h => absurd h (AList.notMem_empty _), fun h => absurd h Bool.false_ne_true⟩
  ackedSeq_eq := rfl
  within := Or.inr ⟨rfl, le_rfl⟩
  sent_eq := rfl

theorem Race.inv_send {race : Race Event} (h : race.Inv codec) {io : WriteIo} {event : Event}
    {queue : DiskQueue} (hsend : send codec io event race.queue = (queue, true)) :
    Race.Inv codec { race with queue := queue, sent := race.sent ++ [event] } := by
  unfold send at hsend
  cases hserialize : codec.serialize event with
  | none => simp [hserialize] at hsend
  | some data =>
      cases hwrite : writeToSegment io race.queue.dir race.queue.state data with
      | mk later result =>
          obtain ⟨next, wrote⟩ := result
          simp only [hserialize, hwrite, Prod.mk.injEq] at hsend
          obtain ⟨rfl, rfl⟩ := hsend
          have hacked : ∀ seq, race.queue.state.ackedSeq ≤ seq := by
            intro seq
            rw [h.ackedSeq_eq]
            exact Nat.zero_le seq
          obtain ⟨suffix, happended, hsuffix⟩ := writeToSegment_spec h.writer (hacked _)
            (codec.newline_notMem hserialize) hwrite
          have hline : suffix = data ++ [newline] :=
            hsuffix.resolve_right fun hpart => Bool.false_ne_true hpart.2.symm
          have hpending : unread codec later next.writeSeq race.queue.readPosition = _ :=
            unread_of_appended happended h.writer (hacked _) h.within
          rw [hline, scanLines_line hserialize] at hpending
          exact {
            writer := happended.writer
            ackedSeq_eq := happended.same.ackedSeq_eq.trans h.ackedSeq_eq
            within := within_of_appended happended h.within (hacked _) happended.same.writeSeq_le
            sent_eq := by
              have hrecords : DiskQueue.pending codec
                  { race.queue with dir := later, state := next } = _ := hpending
              rw [hrecords, List.map_append, ← List.append_assoc, h.sent_eq]
              rfl }

/-- What a reader step keeps: it moves records from the unread list to the received events. -/
structure Kept (codec : RecordCodec Event) (queue next : DiskQueue) (event : Option Event) :
    Prop where
  reads : ReadsOn queue next
  pending_eq : (queue.pending codec).map Record.event =
    event.toList ++ (next.pending codec).map Record.event

theorem Kept.refl (queue : DiskQueue) : Kept codec queue queue none :=
  ⟨ReadsOn.refl queue, rfl⟩

theorem kept_handleLine {queue next : DiskQueue} {pc : ReaderPc} {event : Option Event}
    {line : Bytes} (hline : line = readLineAt (queue.dir.content queue.receiver.readSeq)
      queue.receiver.readOffset)
    (h : handleLine codec queue line = (pc, next, event)) : Kept codec queue next event := by
  unfold handleLine at h
  split at h
  · rw [Prod.mk.injEq, Prod.mk.injEq] at h
    obtain ⟨-, rfl, rfl⟩ := h
    exact Kept.refl queue
  · rename_i hne
    have hpending := pending_consumeLine codec hline hne
    have hposition := readPosition_consumeLine codec line queue
    cases hconsume : consumeLine codec line queue.receiver with
    | mk result receiver =>
        have hreads := readsOn_consumeLine hline hne hconsume
        have hdecode : decodeLine codec line = result := by
          unfold consumeLine at hconsume
          cases hdecode : decodeLine codec line <;>
            · simp only [hdecode, Prod.mk.injEq] at hconsume
              exact hconsume.1
        rw [hconsume] at h hposition
        rw [hdecode] at hpending
        cases result <;>
          · rw [Prod.mk.injEq, Prod.mk.injEq] at h
            obtain ⟨-, rfl, rfl⟩ := h
            refine ⟨hreads, ?_⟩
            rw [hpending, DiskQueue.pending, hposition]
            rfl

theorem kept_leaveSegment {queue next : DiskQueue} {pc : ReaderPc} {event : Option Event}
    (hend : queue.receiver.readSeq < queue.state.writeSeq →
      (queue.dir.content queue.receiver.readSeq).length ≤ queue.receiver.readOffset)
    (h : leaveSegment queue = (pc, next, event)) : Kept codec queue next event := by
  unfold leaveSegment at h
  split at h
  · rename_i hlt
    rw [Prod.mk.injEq, Prod.mk.injEq] at h
    obtain ⟨-, rfl, rfl⟩ := h
    refine ⟨readsOn_nextSegment hlt, ?_⟩
    rw [pending_nextSegment hlt]
    · rfl
    · rw [readLineAt, takeLine_eq_nil]
      exact List.drop_eq_nil_of_le (hend hlt)
  · rw [Prod.mk.injEq, Prod.mk.injEq] at h
    obtain ⟨-, rfl, rfl⟩ := h
    exact Kept.refl queue

/-- **A reader step skips nothing**, provided it leaves no segment that has been appended to. -/
theorem kept_readerStep {race : Race Event} {next : DiskQueue} {pc : ReaderPc}
    {event : Option Event} (hguard : Undisturbed race .read)
    (h : readerStep codec race.queue race.pc = (pc, next, event)) :
    Kept codec race.queue next event := by
  have hcontent : ∀ {content : Bytes},
      race.queue.dir.segments.lookup race.queue.receiver.readSeq = some content →
      race.queue.dir.content race.queue.receiver.readSeq = content := by
    intro content hlookup
    rw [Dir.content, hlookup]
    rfl
  have hsame : ∀ {pc' : ReaderPc}, (pc', race.queue, (none : Option Event)) = (pc, next, event) →
      Kept codec race.queue next event := by
    intro pc' heq
    rw [Prod.mk.injEq, Prod.mk.injEq] at heq
    obtain ⟨-, rfl, rfl⟩ := heq
    exact Kept.refl race.queue
  cases hpc : race.pc with
  | idle =>
      rw [hpc, readerStep] at h
      exact hsame h
  | check =>
      rw [hpc, readerStep] at h
      split at h <;> exact hsame h
  | missing =>
      rw [hpc, readerStep] at h
      exact kept_leaveSegment (hguard (Or.inl hpc)) h
  | present =>
      rw [hpc, readerStep] at h
      split at h
      · exact hsame h
      · rename_i content hlookup
        dsimp only at h
        split at h
        · exact hsame h
        · exact kept_handleLine (by rw [hcontent hlookup]) h
  | torn =>
      rw [hpc, readerStep] at h
      exact hsame h
  | reread active =>
      rw [hpc, readerStep] at h
      split at h
      · exact hsame h
      · rename_i content hlookup
        dsimp only at h
        split at h
        · exact hsame h
        · exact kept_handleLine (by rw [hcontent hlookup]) h
  | exhausted =>
      rw [hpc, readerStep] at h
      exact kept_leaveSegment (hguard (Or.inr hpc)) h

theorem Race.inv_step {race later : Race Event} {move : Move Event} (h : race.Inv codec)
    (hguard : Undisturbed race move) (hstep : RaceStep codec race move later) :
    later.Inv codec := by
  cases hstep with
  | send hsend => exact Race.inv_send h hsend
  | read hread =>
      obtain ⟨hreads, hpending⟩ := kept_readerStep hguard hread
      have hwithin := hreads.within h.within
      have hwriter := h.writer
      have hacked := h.ackedSeq_eq
      refine ⟨⟨?_, ?_⟩, ?_, ?_, ?_⟩
      · rw [hreads.dir_eq, hreads.state_eq]
        exact hwriter.le_writeSeq
      · rw [hreads.dir_eq, hreads.state_eq]
        exact hwriter.complete
      · rw [hreads.state_eq]
        exact hacked
      · rw [hreads.dir_eq, hreads.writeSeq_eq]
        exact hwithin
      · rw [h.sent_eq, hpending, List.append_assoc]

/-- **In order, nothing skipped and nothing twice**, in every interleaving of sends with the
reader's steps in which no record is appended to a segment between the reader's finding it
missing or exhausted and its look at `write_seq`. -/
theorem received_prefix_of_undisturbed (maxSize : ℕ) {race : Race Event}
    (h : Reached (RaceStep codec) Undisturbed (Race.start maxSize) race) :
    race.received <+: race.sent := by
  have hinv : race.Inv codec := h.invariant (Race.Inv codec) (Race.inv_start maxSize)
    fun _ _ _ hinv hguard hstep => Race.inv_step hinv hguard hstep
  rw [hinv.sent_eq]
  exact List.prefix_append _ _

/-! ## A record is skipped -/

/-- A record that does not fit beside the first one goes to the next segment. -/
theorem send_rotates {dir : Dir} (h : 1 ∉ dir.segments) {big : ℕ} (hbig : segmentMaxBytes ≤ big) :
    send letterCodec soundIo big (openQueue dir 0 2) =
      (openQueue ((dir.append 1 []).append 1 (letterLine big)) 1 (big + 2), true) := by
  have hrotate : 2 + (big + 1) + 1 > segmentMaxBytes := by omega
  simp [send, letterCodec, writeToSegment, inspectTail, soundIo, rotate, openSegment, appendRecord,
    enforceMaxSize, openQueue, letterLine, hrotate, content_eq_nil h]

/-- Reading a segment that starts with the record of `n` returns `n`. -/
theorem readerStep_letterLine {queue : DiskQueue} {n : ℕ}
    (hmem : queue.receiver.readSeq ∈ queue.dir.segments) (hoffset : queue.receiver.readOffset = 0)
    (hcontent : queue.dir.content queue.receiver.readSeq = letterLine n) :
    ∃ next, readerStep letterCodec queue .present = (.idle, next, some n) := by
  have hne : letterLine n ≠ [] := by simp [letterLine]
  have hlast : (letterLine n).getLast? = some newline := by simp [letterLine]
  have hdecode : decodeLine letterCodec (letterLine n) = some n := decodeLine_serialize rfl
  rw [readerStep, lookup_of_mem hmem, hcontent, hoffset]
  dsimp only
  rw [readLineAt_letterLine, if_neg (fun h => h.2 hlast), handleLine, if_neg hne, consumeLine,
    hdecode]
  exact ⟨_, rfl⟩

/-- The reader finds segment 0 missing; event `0` is written there; event `big` rotates; the
reader reads `write_seq`, goes on to segment 1 and returns `big`. -/
theorem reader_skips_first {big : ℕ} (hbig : segmentMaxBytes ≤ big) :
    ∃ race, Reached (RaceStep letterCodec) (fun _ _ => True) (Race.start 0) race ∧
      race.sent = [0, big] ∧ race.received = [big] := by
  let start : DiskQueue := createDiskQueue Dir.empty 0
  let dir : Dir := (Dir.empty.append 0 []).append 0 (letterLine 0)
  let full : Dir := (dir.append 1 []).append 1 (letterLine big)
  have hdir : 1 ∉ dir.segments := by
    rw [mem_append_iff, mem_append_iff]
    rintro (h | h | h)
    · cases h
    · cases h
    · exact AList.notMem_empty 1 h
  have hfull : full.content 1 = letterLine big := by
    rw [content_append, if_pos rfl, content_append, if_pos rfl, content_eq_nil hdir]
    rfl
  have hmem : 1 ∈ full.segments := (mem_append_iff ..).mpr (Or.inl rfl)
  let both : DiskQueue := openQueue full 1 (big + 2)
  obtain ⟨last, hlast⟩ : ∃ next,
      readerStep letterCodec both.nextSegment .present = (.idle, next, some big) :=
    readerStep_letterLine hmem rfl hfull
  have hcheck : readerStep letterCodec start .check = (.missing, start, none) := by
    rw [readerStep, if_neg]
    exact AList.notMem_empty 0
  have hleave : readerStep letterCodec both .missing = (.check, both.nextSegment, none) := rfl
  have hpresent : readerStep letterCodec both.nextSegment .check =
      (.present, both.nextSegment, none) := by
    rw [readerStep, if_pos]
    exact hmem
  have h₀ : Reached (RaceStep letterCodec) (fun _ _ => True) (Race.start 0)
      ⟨start, .idle, [], []⟩ :=
    .start
  have h₁ := h₀.next trivial (.read rfl)
  have h₂ := h₁.next trivial (.read hcheck)
  have h₃ := h₂.next trivial (.send send_first)
  have h₄ := h₃.next trivial (.send (send_rotates hdir hbig))
  have h₅ := h₄.next trivial (.read hleave)
  have h₆ := h₅.next trivial (.read hpresent)
  exact ⟨_, h₆.next trivial (.read hlast), rfl, rfl⟩

/-- A run that meets the condition: the event is sent before the reader looks. -/
theorem received_prefix_first :
    ∃ race : Race ℕ, race.received = [0] ∧ race.received <+: race.sent := by
  let dir : Dir := (Dir.empty.append 0 []).append 0 (letterLine 0)
  have hmem : 0 ∈ dir.segments := (mem_append_iff ..).mpr (Or.inl rfl)
  have hcheck : readerStep letterCodec (openQueue dir 0 2) .check =
      (.present, openQueue dir 0 2, none) := by
    rw [readerStep, if_pos]
    exact hmem
  obtain ⟨last, hlast⟩ : ∃ next,
      readerStep letterCodec (openQueue dir 0 2) .present = (.idle, next, some 0) :=
    readerStep_letterLine hmem rfl rfl
  have h₀ : Reached (RaceStep letterCodec) Undisturbed (Race.start 0)
      ⟨createDiskQueue Dir.empty 0, .idle, [], []⟩ := .start
  have h₁ := h₀.next (undisturbed_of_pc (by simp) (by simp) _) (.send send_first)
  have h₂ := h₁.next (undisturbed_of_pc (by simp) (by simp) _) (.read rfl)
  have h₃ := h₂.next (undisturbed_of_pc (by simp) (by simp) _) (.read hcheck)
  have h₄ := h₃.next (undisturbed_of_pc (by simp) (by simp) _) (.read hlast)
  exact ⟨_, rfl, received_prefix_of_undisturbed 0 h₄⟩

/-- The run above: what is received is not a prefix of what was sent. -/
theorem received_not_prefix :
    ∃ race : Race ℕ, Reached (RaceStep letterCodec) (fun _ _ => True) (Race.start 0) race ∧
      ¬ race.received <+: race.sent := by
  obtain ⟨race, hreached, hsent, hreceived⟩ := reader_skips_first le_rfl
  refine ⟨race, hreached, fun hprefix => ?_⟩
  rw [hsent, hreceived, List.cons_prefix_cons] at hprefix
  exact absurd hprefix.1 (by decide)

end Limpid.Disk
