import Limpid.Disk.Unread

/-!
# Reading

`try_read_next` against the unread list: it returns `none` exactly when nothing is left, and
otherwise returns the head of the list, leaves its tail, and adds the head to the in-flight
positions (`tryReadNext_spec`).  One turn of its loop is treated first.

What is unread is the list `pending` from the read position on.  A turn that returns an event takes
the head of this list; one that only goes on, over a line or to the next segment, leaves the list as
it is.
-/

namespace Limpid.Disk

open Limpid.Lines

variable {Event : Type*} (codec : RecordCodec Event)

namespace DiskQueue

/-- Where the next record is read. -/
def readPosition (queue : DiskQueue) : Position :=
  ⟨queue.receiver.readSeq, queue.receiver.readOffset⟩

/-- Where the acked prefix ends. -/
def ackedPosition (queue : DiskQueue) : Position :=
  ⟨queue.receiver.ackedSeq, queue.receiver.ackedOffset⟩

/-- What the receiver has not read yet. -/
def pending (queue : DiskQueue) : List (Record Event) :=
  unread codec queue.dir queue.state.writeSeq queue.readPosition

end DiskQueue

namespace InFlight

/-- Where the event begins. -/
def start (entry : InFlight) : Position := ⟨entry.startSeq, entry.startOffset⟩

/-- Where the event ends. -/
def stop (entry : InFlight) : Position := ⟨entry.endSeq, entry.endOffset⟩

end InFlight

/-- The in-flight entry of a record that has just been handed out. -/
def Record.entry (r : Record Event) : InFlight :=
  ⟨r.start.seq, r.start.offset, r.stop.seq, r.stop.offset, false⟩

/-- Reading moves the read cursor forward, adds to the in-flight positions, and does nothing
else. -/
structure ReadsOn (queue next : DiskQueue) : Prop where
  dir_eq : next.dir = queue.dir
  closed_eq : next.closed = queue.closed
  state_eq : next.state = { queue.state with readSeq := next.state.readSeq }
  acked_eq : next.ackedPosition = queue.ackedPosition
  ackedSeq_eq : next.receiver.ackedSeq = queue.receiver.ackedSeq
  read_le : queue.readPosition ≤ next.readPosition
  within : Within queue.dir queue.state.writeSeq queue.readPosition →
    Within queue.dir queue.state.writeSeq next.readPosition

theorem ReadsOn.writeSeq_eq {queue next : DiskQueue} (h : ReadsOn queue next) :
    next.state.writeSeq = queue.state.writeSeq := by
  rw [h.state_eq]

theorem ReadsOn.readSeq_le {queue next : DiskQueue} (h : ReadsOn queue next) :
    queue.receiver.readSeq ≤ next.receiver.readSeq :=
  Position.seq_le h.read_le

theorem ReadsOn.refl (queue : DiskQueue) : ReadsOn queue queue :=
  ⟨rfl, rfl, rfl, rfl, rfl, Position.le_refl _, id⟩

theorem ReadsOn.trans {first second third : DiskQueue} (h₁ : ReadsOn first second)
    (h₂ : ReadsOn second third) : ReadsOn first third where
  dir_eq := h₂.dir_eq.trans h₁.dir_eq
  closed_eq := h₂.closed_eq.trans h₁.closed_eq
  state_eq := by rw [h₂.state_eq, h₁.state_eq]
  acked_eq := h₂.acked_eq.trans h₁.acked_eq
  ackedSeq_eq := h₂.ackedSeq_eq.trans h₁.ackedSeq_eq
  read_le := Position.le_trans h₁.read_le h₂.read_le
  within := fun hwithin => by
    have hthird := h₂.within
    rw [h₁.dir_eq, h₁.writeSeq_eq] at hthird
    exact hthird (h₁.within hwithin)

theorem readsOn_nextSegment {queue : DiskQueue}
    (hlt : queue.receiver.readSeq < queue.state.writeSeq) : ReadsOn queue queue.nextSegment := by
  refine ⟨rfl, rfl, rfl, rfl, rfl, Or.inl (Nat.lt_succ_self _), fun _ => ?_⟩
  rcases Nat.lt_or_eq_of_le (show queue.receiver.readSeq + 1 ≤ queue.state.writeSeq from hlt)
    with h | h
  · exact Or.inl h
  · exact Or.inr ⟨h, Nat.zero_le _⟩

variable {codec}

theorem readsOn_consumeLine {line : Bytes} {queue : DiskQueue} {result : Option Event}
    {receiver : DiskQueueReceiver}
    (hline : line = readLineAt (queue.dir.content queue.receiver.readSeq) queue.receiver.readOffset)
    (hne : line ≠ []) (h : consumeLine codec line queue.receiver = (result, receiver)) :
    ReadsOn queue { queue with receiver := receiver } := by
  have hmoved := consumeLine_readOffset codec line queue.receiver
  rw [h] at hmoved
  dsimp only at hmoved
  have hlength := readLineAt_length_le (queue.dir.content queue.receiver.readSeq)
    queue.receiver.readOffset
  have hpos : 0 < line.length := List.length_pos_of_ne_nil hne
  rw [← hline] at hlength
  have hacked : receiver.ackedSeq = queue.receiver.ackedSeq ∧
      receiver.ackedOffset = queue.receiver.ackedOffset := by
    unfold consumeLine at h
    cases hdecode : decodeLine codec line <;>
      · rw [hdecode, Prod.mk.injEq] at h
        rw [← h.2]
        exact ⟨rfl, rfl⟩
  refine ⟨rfl, rfl, rfl, ?_, hacked.1, Or.inr ⟨hmoved.1.symm, ?_⟩, fun hwithin => ?_⟩
  · simp only [DiskQueue.ackedPosition, hacked]
  · simp only [DiskQueue.readPosition, hmoved.2]
    omega
  · simp only [Within, DiskQueue.readPosition] at hwithin ⊢
    rw [hmoved.1, hmoved.2]
    rcases hwithin with hlt | ⟨heq, -⟩
    · exact Or.inl hlt
    · refine Or.inr ⟨heq, ?_⟩
      rw [← heq]
      omega

/-- When the segment is finished, what is pending starts in the next one. -/
theorem pending_nextSegment {queue : DiskQueue}
    (hlt : queue.receiver.readSeq < queue.state.writeSeq)
    (hline : readLineAt (queue.dir.content queue.receiver.readSeq) queue.receiver.readOffset = []) :
    queue.nextSegment.pending codec = queue.pending codec := by
  rw [readLineAt, takeLine_eq_nil] at hline
  have hseg :
      segmentRecords codec queue.dir queue.receiver.readSeq queue.receiver.readOffset = [] :=
    by rw [segmentRecords, hline]; rfl
  have hpending : queue.pending codec = _ := unread_of_lt_top (p := queue.readPosition) hlt
  rw [hpending]
  simp only [DiskQueue.readPosition, hseg, List.nil_append]
  rfl

variable (codec) in
/-- Stepping over one line of the segment. -/
theorem pending_consumeLine {queue : DiskQueue} {line : Bytes}
    (hline : line = readLineAt (queue.dir.content queue.receiver.readSeq) queue.receiver.readOffset)
    (hne : line ≠ []) :
    queue.pending codec =
      (match decodeLine codec line with
        | none => []
        | some event => [⟨queue.readPosition,
            ⟨queue.receiver.readSeq, queue.receiver.readOffset + line.length⟩, event⟩]) ++
      unread codec queue.dir queue.state.writeSeq
        ⟨queue.receiver.readSeq, queue.receiver.readOffset + line.length⟩ := by
  have hcontent :
      (queue.dir.content queue.receiver.readSeq).drop queue.receiver.readOffset ≠ [] := by
    intro hnil
    rw [readLineAt, hnil] at hline
    exact hne hline
  have hseg : segmentRecords codec queue.dir queue.receiver.readSeq queue.receiver.readOffset =
      (match decodeLine codec line with
        | none => []
        | some event => [⟨queue.readPosition,
            ⟨queue.receiver.readSeq, queue.receiver.readOffset + line.length⟩, event⟩]) ++
      segmentRecords codec queue.dir queue.receiver.readSeq
        (queue.receiver.readOffset + line.length) := by
    rw [segmentRecords, lines_cons_eq_takeLine hcontent, ← readLineAt, ← hline, List.drop_drop,
      scanLines]
    cases decodeLine codec line <;> rfl
  unfold DiskQueue.pending unread
  simp only [DiskQueue.readPosition] at hseg ⊢
  rw [hseg, List.append_assoc]

variable (codec) in
theorem readPosition_consumeLine (line : Bytes) (queue : DiskQueue) :
    ({ queue with receiver := (consumeLine codec line queue.receiver).2 } :
      DiskQueue).readPosition =
        ⟨queue.receiver.readSeq, queue.receiver.readOffset + line.length⟩ := by
  have h := consumeLine_readOffset codec line queue.receiver
  simp only [DiskQueue.readPosition, h]

theorem finishSegment_ne_event {queue next : DiskQueue} {event : Event} :
    finishSegment queue ≠ .event event next := by
  unfold finishSegment
  split <;> simp

/-- A turn that stops has nothing left to read. -/
theorem pending_of_idle {queue : DiskQueue} (h : readTurn codec queue = .idle) :
    queue.pending codec = [] := by
  have hend : (finishSegment queue : Turn Event) = .idle →
      queue.state.writeSeq ≤ queue.receiver.readSeq := by
    intro hfinish
    unfold finishSegment at hfinish
    split at hfinish
    · cases hfinish
    · omega
  unfold readTurn at h
  split at h
  · rename_i hlookup
    rw [DiskQueue.pending, unread_of_top_le (hend h)]
    exact segmentRecords_eq_nil (by simp [DiskQueue.readPosition, Dir.content, hlookup])
  · rename_i content hlookup
    dsimp only at h
    have hcontent : queue.dir.content queue.receiver.readSeq = content := by
      simp [Dir.content, hlookup]
    split at h
    · rename_i hline
      rw [DiskQueue.pending, unread_of_top_le (hend h), segmentRecords]
      rw [readLineAt, takeLine_eq_nil] at hline
      simp only [DiskQueue.readPosition, hcontent, hline]
      rfl
    · rename_i hline
      split at h
      · rename_i hactive
        -- an unterminated tail of the active segment: no record is behind it
        have htop : queue.state.writeSeq = queue.receiver.readSeq := by
          have := hactive.2
          simp only [DiskQueue.activeSegment, Bool.and_eq_true, decide_eq_true_eq] at this
          exact this.1.1
        obtain ⟨heq, -⟩ := takeLine_eq_self_of_incomplete hactive.1
        rw [pending_consumeLine codec (by rw [hcontent]) hline, decodeLine_of_incomplete hactive.1,
          unread_of_top_le htop.le, List.nil_append]
        refine segmentRecords_eq_nil ?_
        rw [hcontent, readLineAt, heq, List.length_drop]
        dsimp only
        omega
      · cases hconsume : consumeLine codec
            (readLineAt content queue.receiver.readOffset) queue.receiver with
        | mk result receiver =>
            rw [hconsume] at h
            cases result <;> cases h

/-- A turn that continues has stepped over something that is not a record. -/
theorem pending_of_again {queue next : DiskQueue} (h : readTurn codec queue = .again next) :
    ReadsOn queue next ∧ next.pending codec = queue.pending codec ∧
      next.receiver.inFlightPositions = queue.receiver.inFlightPositions := by
  rcases readTurn_eq_again codec h with ⟨hlt, rfl, hline⟩ |
    ⟨line, receiver, hline, hne, hconsume, rfl⟩
  · exact ⟨readsOn_nextSegment hlt, pending_nextSegment hlt hline, rfl⟩
  · have hpos := readPosition_consumeLine codec line queue
    rw [hconsume] at hpos
    have hnone : decodeLine codec line = none := by
      unfold consumeLine at hconsume
      cases hdecode : decodeLine codec line with
      | none => rfl
      | some event => simp [hdecode] at hconsume
    refine ⟨readsOn_consumeLine hline hne hconsume, ?_, ?_⟩
    · rw [pending_consumeLine codec hline hne, hnone, DiskQueue.pending, hpos]
      rfl
    · simp only [consumeLine, hnone, Prod.mk.injEq, true_and] at hconsume
      rw [← hconsume]

/-- A turn that returns an event returns the first record that is pending. -/
theorem pending_of_event {queue next : DiskQueue} {event : Event}
    (h : readTurn codec queue = .event event next) :
    ∃ r, queue.pending codec = r :: next.pending codec ∧ r.event = event ∧
      r.start = queue.readPosition ∧ r.stop = next.readPosition ∧ ReadsOn queue next ∧
      next.receiver.inFlightPositions = queue.receiver.inFlightPositions ++ [r.entry] := by
  unfold readTurn at h
  split at h
  · exact absurd h finishSegment_ne_event
  · rename_i content hlookup
    dsimp only at h
    have hcontent : queue.dir.content queue.receiver.readSeq = content := by
      simp [Dir.content, hlookup]
    split at h
    · exact absurd h finishSegment_ne_event
    · rename_i hline
      split at h
      · cases h
      · cases hconsume : consumeLine codec
            (readLineAt content queue.receiver.readOffset) queue.receiver with
        | mk result receiver =>
            rw [hconsume] at h
            cases result with
            | none => cases h
            | some decoded =>
                injection h with hevent hnext
                subst hevent hnext
                have hpos := readPosition_consumeLine codec
                  (readLineAt content queue.receiver.readOffset) queue
                rw [hconsume] at hpos
                dsimp only at hpos
                have hdecode : decodeLine codec
                    (readLineAt content queue.receiver.readOffset) = some decoded := by
                  unfold consumeLine at hconsume
                  cases hdecode : decodeLine codec
                      (readLineAt content queue.receiver.readOffset) with
                  | none => simp [hdecode] at hconsume
                  | some event => simp only [hdecode, Prod.mk.injEq] at hconsume; rw [hconsume.1]
                have hpending := pending_consumeLine codec
                  (show readLineAt content queue.receiver.readOffset = _ by rw [hcontent]) hline
                rw [hdecode] at hpending
                refine ⟨⟨queue.readPosition, ⟨queue.receiver.readSeq, queue.receiver.readOffset +
                    (readLineAt content queue.receiver.readOffset).length⟩, decoded⟩,
                  hpending.trans ?_, rfl, rfl, hpos.symm,
                  readsOn_consumeLine (by rw [hcontent]) hline hconsume, ?_⟩
                · rw [DiskQueue.pending, hpos]
                  rfl
                · simp only [consumeLine, hdecode, Prod.mk.injEq, true_and] at hconsume
                  rw [← hconsume]
                  rfl

variable (codec) in
/-- **What one `try_read_next` does to the unread list.** -/
theorem tryReadNext_spec (queue : DiskQueue) :
    ReadsOn queue (tryReadNext codec queue).2 ∧
    match (tryReadNext codec queue).1 with
    | none => queue.pending codec = [] ∧ (tryReadNext codec queue).2.pending codec = [] ∧
        (tryReadNext codec queue).2.receiver.inFlightPositions =
          queue.receiver.inFlightPositions
    | some (event, position) =>
        ∃ r, queue.pending codec = r :: (tryReadNext codec queue).2.pending codec ∧
          r.event = event ∧ r.start = position ∧
          r.stop = (tryReadNext codec queue).2.readPosition ∧
          (tryReadNext codec queue).2.receiver.inFlightPositions =
            queue.receiver.inFlightPositions ++ [r.entry] := by
  induction queue using tryReadNext.induct codec with
  | case1 queue h =>
      have hpending := pending_of_idle h
      rw [tryReadNext, h]
      exact ⟨ReadsOn.refl queue, hpending, hpending, rfl⟩
  | case2 queue event next h =>
      obtain ⟨r, hpending, hevent, hstart, hstop, hreads, hinflight⟩ := pending_of_event h
      rw [tryReadNext, h]
      exact ⟨hreads, r, hpending, hevent, hstart, hstop, hinflight⟩
  | case3 queue next h ih =>
      obtain ⟨hreads, hpending, hinflight⟩ := pending_of_again h
      have heq : tryReadNext codec queue = tryReadNext codec next := by
        rw [tryReadNext, h]
      rw [heq, ← hpending, ← hinflight]
      exact ⟨hreads.trans ih.1, ih.2⟩

theorem tryReadNext_of_event {queue next : DiskQueue} {event : Event}
    (h : readTurn codec queue = .event event next) :
    tryReadNext codec queue = (some (event, queue.readPosition), next) := by
  rw [tryReadNext, h]
  rfl

theorem tryReadNext_of_none {queue next : DiskQueue}
    (h : tryReadNext codec queue = (none, next)) :
    ReadsOn queue next ∧ queue.pending codec = [] ∧ next.pending codec = [] ∧
      next.receiver.inFlightPositions = queue.receiver.inFlightPositions := by
  have hspec := tryReadNext_spec codec queue
  rw [h] at hspec
  exact hspec

theorem tryReadNext_of_some {queue next : DiskQueue} {event : Event} {position : Position}
    (h : tryReadNext codec queue = (some (event, position), next)) :
    ReadsOn queue next ∧ ∃ r, queue.pending codec = r :: next.pending codec ∧ r.event = event ∧
      r.start = position ∧ r.stop = next.readPosition ∧
      next.receiver.inFlightPositions = queue.receiver.inFlightPositions ++ [r.entry] := by
  have hspec := tryReadNext_spec codec queue
  rw [h] at hspec
  exact hspec

/-! ## Reading to the end -/

/-- What up to `n` successive `try_recv` calls return. -/
def drain (codec : RecordCodec Event) : ℕ → DiskQueue → List (Event × Position)
  | 0, _ => []
  | n + 1, queue =>
      match tryReadNext codec queue with
      | (none, _) => []
      | (some received, next) => received :: drain codec n next

/-- **A reader left alone returns the whole unread list, in order.** -/
theorem drain_eq_pending (queue : DiskQueue) :
    drain codec (queue.pending codec).length queue =
      (queue.pending codec).map fun r => (r.event, r.start) := by
  induction hn : (queue.pending codec).length generalizing queue with
  | zero => rw [List.length_eq_zero_iff.mp hn]; rfl
  | succ n ih =>
      rw [drain]
      cases hread : tryReadNext codec queue with
      | mk result next =>
          cases result with
          | none =>
              obtain ⟨-, hnil, -⟩ := tryReadNext_of_none hread
              simp [hnil] at hn
          | some received =>
              obtain ⟨event, position⟩ := received
              obtain ⟨-, r, hpending, rfl, rfl, -⟩ := tryReadNext_of_some hread
              rw [hpending, List.length_cons, Nat.add_right_cancel_iff] at hn
              simp only [hpending, List.map_cons, ih next hn]

end Limpid.Disk
