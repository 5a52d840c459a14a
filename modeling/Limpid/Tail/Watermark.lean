import Mathlib.Order.MinMax
import Limpid.Runs
import Limpid.Tail.Model

/-!
# The saved offset of a tailed file

The run loop saves how far the pipeline has finished, so that a restart reads again whatever it
had not.  The acks come in the order in which the lines were emitted; those of a file that has
been rotated away, or of bytes that have been truncated, carry an earlier generation and are
ignored.

`Inv` keeps the lines under way in file order: of two lines of one epoch the first ends before
the second starts, and the watermark is before all those of the current epoch.

Two steps of a run can break this, and `Clean` excludes them:

* a read error after some lines have been emitted.  The offset is not moved, so these lines are
  emitted again, behind the acks of their first emission (`reemitted_behind_watermark`);
* a reset to a generation number that a line under way carries from `2 ^ 64` resets before.
-/

namespace Limpid.Tail

open Limpid.Lines

/-! ## Reads -/

/-- The lines that become events before the first line that is not UTF-8. -/
def firstEvents (lines : List Bytes) : List Bytes :=
  (lines.takeWhile validUtf8).filter (trimLine · ≠ [])

/-- A read that meets no line that is not UTF-8: there is none, or the channel is closed before
it. -/
def ReadsOn (room : Option ℕ) (lines : List Bytes) : Prop :=
  (∀ line ∈ lines, validUtf8 line = true) ∨ ∃ k, room = some k ∧ k < (firstEvents lines).length

/-- A read in which no line is emitted before a line that is not UTF-8 is met. -/
def CleanRead (room : Option ℕ) (lines : List Bytes) : Prop :=
  firstEvents lines = [] ∨ ReadsOn room lines

theorem readLine_eq_error {line : Bytes} : readLine line = .error ↔ validUtf8 line = false := by
  unfold readLine
  split
  · simp_all
  · split
    · simp_all
    · split <;> simp_all

theorem readLine_eq_event {line ingress : Bytes} (h : readLine line = .event ingress) :
    validUtf8 line = true ∧ trimLine line ≠ [] := by
  unfold readLine at h
  split at h
  · exact absurd h (by simp)
  · next hvalid =>
      split at h
      · exact absurd h (by simp)
      · split at h
        · exact absurd h (by simp)
        · next htrim => exact ⟨by simpa using hvalid, htrim⟩

theorem readLine_eq_blank {line : Bytes} (h : readLine line = .blank) :
    validUtf8 line = true ∧ trimLine line = [] := by
  unfold readLine at h
  split at h
  · exact absurd h (by simp)
  · next hvalid =>
      split at h
      · exact absurd h (by simp)
      · split at h
        · next htrim => exact ⟨by simpa using hvalid, htrim⟩
        · exact absurd h (by simp)

theorem firstEvents_cons_blank {line : Bytes} (h : readLine line = .blank) (rest : List Bytes) :
    firstEvents (line :: rest) = firstEvents rest := by
  simp [firstEvents, readLine_eq_blank h]

theorem firstEvents_cons_event {line ingress : Bytes} (h : readLine line = .event ingress)
    (rest : List Bytes) : firstEvents (line :: rest) = line :: firstEvents rest := by
  simp [firstEvents, readLine_eq_event h]

theorem ReadsOn.of_blank {line : Bytes} {rest : List Bytes} {room : Option ℕ}
    (hline : readLine line = .blank) (h : ReadsOn room (line :: rest)) : ReadsOn room rest := by
  rw [ReadsOn, firstEvents_cons_blank hline] at h
  exact h.imp_left fun hall line hmem => hall line (List.mem_cons_of_mem _ hmem)

theorem ReadsOn.of_event {line ingress : Bytes} {rest : List Bytes} {room : Option ℕ}
    (hline : readLine line = .event ingress) (hroom : room ≠ some 0)
    (h : ReadsOn room (line :: rest)) : ReadsOn (room.map (· - 1)) rest := by
  rw [ReadsOn, firstEvents_cons_event hline, List.length_cons] at h
  rcases h with hall | ⟨k, rfl, hk⟩
  · exact Or.inl fun line hmem => hall line (List.mem_cons_of_mem _ hmem)
  · have hpos : k ≠ 0 := fun hzero => hroom (congrArg some hzero)
    exact Or.inr ⟨k - 1, rfl, by omega⟩

/-- A read that meets no invalid line does not fail. -/
theorem ReadsOn.readLoop_ne_none {room : Option ℕ} {lines : List Bytes} (h : ReadsOn room lines)
    (current : ℕ) : (readLoop room current lines).2 ≠ none := by
  induction lines generalizing room current with
  | nil => simp [readLoop]
  | cons line rest ih =>
      rw [readLoop]
      cases hline : readLine line with
      | error =>
          have hinvalid := readLine_eq_error.mp hline
          rcases h with hall | ⟨k, -, hk⟩
          · exact absurd (hall line (by simp)) (by simp [hinvalid])
          · exact absurd hk (by simp [firstEvents, hinvalid])
      | incomplete => simp
      | blank => exact ih (h.of_blank hline) _
      | event ingress =>
          by_cases hroom : room = some 0
          · simp [hroom]
          · simpa [hroom] using ih (h.of_event hline hroom) (current + line.length)

theorem readLoop_of_firstEvents_eq_nil {lines : List Bytes} (h : firstEvents lines = [])
    (room : Option ℕ) (current : ℕ) : (readLoop room current lines).1 = [] := by
  induction lines generalizing current with
  | nil => rfl
  | cons line rest ih =>
      rw [readLoop]
      cases hline : readLine line with
      | error => rfl
      | incomplete => rfl
      | blank => exact ih (by rwa [firstEvents_cons_blank hline] at h) _
      | event ingress =>
          rw [firstEvents_cons_event hline] at h
          exact absurd h (List.cons_ne_nil _ _)

/-- The events of a read are in file order, from `current` to the offset reached. -/
theorem readLoop_ordered (room : Option ℕ) (current : ℕ) (lines : List Bytes) :
    (∀ event ∈ (readLoop room current lines).1, current ≤ event.start) ∧
      (readLoop room current lines).1.Pairwise (fun first second => first.stop ≤ second.start) ∧
      ∀ offset, (readLoop room current lines).2 = some offset →
        current ≤ offset ∧ ∀ event ∈ (readLoop room current lines).1, event.stop ≤ offset := by
  induction lines generalizing room current with
  | nil => simp [readLoop]
  | cons line rest ih =>
      rw [readLoop]
      cases hline : readLine line with
      | error => simp
      | incomplete => simp
      | blank =>
          obtain ⟨hstart, hpair, hoffset⟩ := ih room (current + line.length)
          exact ⟨fun event hmem => le_trans (Nat.le_add_right _ _) (hstart event hmem), hpair,
            fun offset h =>
              ⟨le_trans (Nat.le_add_right _ _) (hoffset offset h).1, (hoffset offset h).2⟩⟩
      | event ingress =>
          by_cases hroom : room = some 0
          · simp [hroom]
          · obtain ⟨hstart, hpair, hoffset⟩ := ih (room.map (· - 1)) (current + line.length)
            simp only [if_neg hroom, List.mem_cons, List.pairwise_cons]
            refine ⟨?_, ⟨hstart, hpair⟩, fun offset h => ?_⟩
            · rintro event (rfl | hmem)
              · exact le_rfl
              · exact le_trans (Nat.le_add_right _ _) (hstart event hmem)
            · obtain ⟨hle, hstop⟩ := hoffset offset h
              refine ⟨le_trans (Nat.le_add_right _ _) hle, ?_⟩
              rintro event (rfl | hmem)
              · exact hle
              · exact hstop event hmem

/-- What a clean read pass emits lies between the old offset and the new one, in file order. -/
theorem readPass_ordered {room : Option ℕ} {content : Option Bytes} {readOffset : ℕ}
    (hclean : ∀ bytes, content = some bytes →
      CleanRead room (lines newline (bytes.drop readOffset))) :
    readOffset ≤ (readPass room content readOffset).2 ∧
      (∀ event ∈ (readPass room content readOffset).1,
        readOffset ≤ event.start ∧ event.stop ≤ (readPass room content readOffset).2) ∧
      (readPass room content readOffset).1.Pairwise
        (fun first second => first.stop ≤ second.start) := by
  cases content with
  | none => simp [readPass]
  | some bytes =>
      obtain ⟨hstart, hpair, hoffset⟩ :=
        readLoop_ordered room readOffset (lines newline (bytes.drop readOffset))
      simp only [readPass, readNewLines]
      cases hread : (readLoop room readOffset (lines newline (bytes.drop readOffset))).2 with
      | none =>
          -- the read fails, so it has emitted nothing
          have hnil := (hclean bytes rfl).resolve_right fun hon =>
            hon.readLoop_ne_none readOffset hread
          rw [readLoop_of_firstEvents_eq_nil hnil]
          simp
      | some offset =>
          obtain ⟨hle, hstop⟩ := hoffset offset hread
          exact ⟨hle, fun event hmem => ⟨hstart event hmem, hstop event hmem⟩, hpair⟩

/-! ## Draining the acks -/

theorem ackOffsetForGeneration_eq_some {position : AckPosition} {generation offset : ℕ} :
    ackOffsetForGeneration position generation = some offset ↔
      position.generation = generation ∧ position.offset = offset := by
  unfold ackOffsetForGeneration
  split <;> simp_all

/-- What a drain returns is the offset of an ack of the generation, unless it is what the drain
started from. -/
theorem drainRemainingAcks_eq (initial : ℕ) (acks : List AckPosition) (generation : ℕ) :
    drainRemainingAcks initial acks generation = initial ∨
      ∃ position ∈ acks, position.generation = generation ∧
        drainRemainingAcks initial acks generation = position.offset := by
  unfold drainRemainingAcks
  induction acks generalizing initial with
  | nil => exact Or.inl rfl
  | cons position rest ih =>
      rw [List.foldl_cons]
      cases hack : ackOffsetForGeneration position generation with
      | none =>
          refine (ih initial).imp_right ?_
          rintro ⟨other, hmem, hother⟩
          exact ⟨other, List.mem_cons_of_mem _ hmem, hother⟩
      | some offset =>
          obtain ⟨htag, rfl⟩ := ackOffsetForGeneration_eq_some.mp hack
          rcases ih (max initial position.offset) with heq | ⟨other, hmem, hother⟩
          · rcases max_choice initial position.offset with hmax | hmax
            · exact Or.inl (heq.trans hmax)
            · exact Or.inr ⟨position, List.mem_cons_self, htag, heq.trans hmax⟩
          · exact Or.inr ⟨other, List.mem_cons_of_mem _ hmem, hother⟩

theorem drainAcksIntoWatermark_mem {acks : List AckPosition} {generation hi : ℕ}
    (h : drainAcksIntoWatermark acks generation = some hi) :
    ∃ position ∈ acks, position.generation = generation ∧ hi = position.offset := by
  induction acks with
  | nil => exact absurd h (by simp [drainAcksIntoWatermark])
  | cons position rest ih =>
      cases hack : ackOffsetForGeneration position generation with
      | none =>
          rw [drainAcksIntoWatermark_cons_none hack] at h
          obtain ⟨other, hmem, hother⟩ := ih h
          exact ⟨other, List.mem_cons_of_mem _ hmem, hother⟩
      | some offset =>
          rw [drainAcksIntoWatermark_cons_some hack, Option.some.injEq] at h
          subst h
          obtain ⟨htag, rfl⟩ := ackOffsetForGeneration_eq_some.mp hack
          rcases drainRemainingAcks_eq position.offset rest generation with
            heq | ⟨other, hmem, hother⟩
          · exact ⟨position, List.mem_cons_self, htag, heq⟩
          · exact ⟨other, List.mem_cons_of_mem _ hmem, hother⟩

/-! ## The invariant -/

/-- Everything emitted whose ack has not been received, in the order of emission. -/
def TailRun.pending (tail : TailRun) : List Line := tail.acks ++ tail.worker

/-- What holds of a run: the saved offset lies before every line that is not finished. -/
structure TailRun.Inv (tail : TailRun) : Prop where
  epoch_le : ∀ line ∈ tail.pending, line.epoch ≤ tail.epoch
  tagged : ∀ line ∈ tail.pending,
    line.position.generation = tail.generation → line.epoch = tail.epoch
  ordered : tail.pending.Pairwise fun first second =>
    first.epoch = second.epoch → first.position.offset ≤ second.start
  read_le : ∀ line ∈ tail.pending, line.epoch = tail.epoch →
    line.position.offset ≤ tail.readOffset
  acked_le : ∀ line ∈ tail.pending, line.epoch = tail.epoch → tail.ackedOffset ≤ line.start
  acked_le_read : tail.ackedOffset ≤ tail.readOffset
  saved : tail.saved = none ∨ tail.saved = some tail.ackedOffset

/-- The reads of a poll are clean, and a reset does not reuse the generation of a line under
way. -/
def Clean (tail : TailRun) : Move → Prop
  | .poll (some stat) room =>
      ((checkRotation stat tail).epoch ≠ tail.epoch → ∀ line ∈ tail.worker,
        line.position.generation ≠ (checkRotation stat tail).generation) ∧
      ∀ bytes, stat.content = some bytes →
        CleanRead room (lines newline (bytes.drop (checkRotation stat tail).readOffset))
  | _ => True

theorem inv_start (offset : ℕ) (inode : Option ℕ) : (start offset inode).Inv where
  epoch_le := by simp [TailRun.pending, start]
  tagged := by simp [TailRun.pending, start]
  ordered := by simp [TailRun.pending, start]
  read_le := by simp [TailRun.pending, start]
  acked_le := by simp [TailRun.pending, start]
  acked_le_read := le_rfl
  saved := Or.inl rfl

/-- A poll resets exactly when the inode has changed or the file is shorter than what has been
read of it. -/
theorem checkRotation_cases (stat : FileStat) (tail : TailRun) :
    ((stat.inode ≠ tail.lastInode ∨ stat.len < tail.readOffset) ∧
        ∃ inode, checkRotation stat tail = reset inode tail) ∨
      ((stat.inode = tail.lastInode ∧ tail.readOffset ≤ stat.len) ∧
        checkRotation stat tail = tail) := by
  unfold checkRotation
  by_cases hinode : stat.inode = tail.lastInode
  · by_cases hlen : stat.len < tail.readOffset
    · exact Or.inl ⟨Or.inr hlen, tail.lastInode, by simp [hinode, hlen]⟩
    · exact Or.inr ⟨⟨hinode, Nat.le_of_not_lt hlen⟩, by simp [hinode, hlen]⟩
  · exact Or.inl ⟨Or.inl hinode, stat.inode, by simp [hinode]⟩

namespace TailRun.Inv

variable {tail : TailRun}

/-- Acks may be received. -/
theorem dropAcks (h : tail.Inv) {rest : List Line} (hrest : rest.Sublist tail.acks)
    (phase : Phase) : TailRun.Inv { tail with acks := rest, phase := phase } := by
  have hsub : (rest ++ tail.worker).Sublist tail.pending := hrest.append_right tail.worker
  exact {
    epoch_le := fun line hmem => h.epoch_le line (hsub.subset hmem)
    tagged := fun line hmem => h.tagged line (hsub.subset hmem)
    ordered := h.ordered.sublist hsub
    read_le := fun line hmem => h.read_le line (hsub.subset hmem)
    acked_le := fun line hmem => h.acked_le line (hsub.subset hmem)
    acked_le_read := h.acked_le_read
    saved := h.saved }

/-- Once all acks have been received the watermark may move to any of them. -/
theorem raise (h : tail.Inv) {ack : Line} (hack : ack ∈ tail.acks)
    (htag : ack.position.generation = tail.generation) (phase : Phase) :
    TailRun.Inv { tail with
      ackedOffset := ack.position.offset
      saved := some ack.position.offset
      acks := []
      phase := phase } := by
  have hpending : ack ∈ tail.pending := List.mem_append_left _ hack
  have hepoch := h.tagged ack hpending htag
  have hworker : ∀ line ∈ tail.worker, line ∈ tail.pending :=
    fun line hmem => List.mem_append_right _ hmem
  have hordered := List.pairwise_append.mp h.ordered
  exact {
    epoch_le := fun line hmem => h.epoch_le line (hworker line hmem)
    tagged := fun line hmem => h.tagged line (hworker line hmem)
    ordered := hordered.2.1
    read_le := fun line hmem => h.read_le line (hworker line hmem)
    acked_le := fun line hmem hline =>
      hordered.2.2 ack hack line hmem (hepoch.trans hline.symm)
    acked_le_read := h.read_le ack hpending hepoch
    saved := Or.inr rfl }

/-- The worker finishes its first line. -/
theorem finish (h : tail.Inv) {line : Line} {rest : List Line}
    (hworker : tail.worker = line :: rest) :
    TailRun.Inv { tail with worker := rest, acks := tail.acks ++ [line] } := by
  have hpending : tail.pending = (tail.acks ++ [line]) ++ rest := by
    rw [pending, hworker, List.append_assoc, List.singleton_append]
  obtain ⟨h₁, h₂, h₃, h₄, h₅, h₆, h₇⟩ := h
  rw [hpending] at h₁ h₂ h₃ h₄ h₅
  exact ⟨h₁, h₂, h₃, h₄, h₅, h₆, h₇⟩

theorem reset (h : tail.Inv) (inode : Option ℕ)
    (hfresh : ∀ line ∈ tail.worker,
      line.position.generation ≠ (tail.generation + 1) % 2 ^ 64) :
    (reset inode tail).Inv := by
  have hworker : ∀ line ∈ tail.worker, line.epoch ≤ tail.epoch :=
    fun line hmem => h.epoch_le line (List.mem_append_right _ hmem)
  -- no line under way is of the new epoch
  have hold : ∀ line ∈ tail.worker, line.epoch ≠ tail.epoch + 1 := by
    intro line hmem heq
    have := hworker line hmem
    omega
  exact {
    epoch_le := fun line hmem => (hworker line hmem).trans (Nat.le_succ _)
    tagged := fun line hmem htag => absurd htag (hfresh line hmem)
    ordered := (List.pairwise_append.mp h.ordered).2.1
    read_le := fun line hmem hepoch => absurd hepoch (hold line hmem)
    acked_le := fun line hmem hepoch => absurd hepoch (hold line hmem)
    acked_le_read := le_rfl
    saved := Or.inr rfl }

theorem checkRotation (h : tail.Inv) (stat : FileStat)
    (hfresh : (checkRotation stat tail).epoch ≠ tail.epoch → ∀ line ∈ tail.worker,
      line.position.generation ≠ (checkRotation stat tail).generation) :
    (checkRotation stat tail).Inv := by
  rcases checkRotation_cases stat tail with ⟨-, inode, heq⟩ | ⟨-, heq⟩
  · rw [heq] at hfresh ⊢
    exact h.reset inode (hfresh (Nat.succ_ne_self _))
  · rw [heq]
    exact h

/-- A clean read appends its lines behind everything under way. -/
theorem readFile (h : tail.Inv) (stat : FileStat) (room : Option ℕ)
    (hclean : ∀ bytes, stat.content = some bytes →
      CleanRead room (lines newline (bytes.drop tail.readOffset))) :
    (readFile stat room tail).Inv := by
  unfold Tail.readFile
  split
  · exact h
  · obtain ⟨hle, hevent, hpair⟩ := readPass_ordered hclean
    revert hle hevent hpair
    generalize readPass room stat.content tail.readOffset = read
    obtain ⟨events, offset⟩ := read
    intro hle hevent hpair
    dsimp only at hle hevent hpair ⊢
    have hpending : ∀ line ∈ tail.acks ++ (tail.worker ++
        events.map (Emitted.line tail.generation tail.epoch)),
        line ∈ tail.pending ∨ ∃ event ∈ events,
          line = Emitted.line tail.generation tail.epoch event := by
      intro line hmem
      rw [← List.append_assoc, List.mem_append, List.mem_map] at hmem
      refine hmem.imp_right ?_
      rintro ⟨event, hevent, rfl⟩
      exact ⟨event, hevent, rfl⟩
    refine ⟨?_, ?_, ?_, ?_, ?_, h.acked_le_read.trans hle, h.saved⟩
    · intro line hmem
      rcases hpending line hmem with hold | ⟨event, -, rfl⟩
      · exact h.epoch_le line hold
      · exact le_rfl
    · intro line hmem htag
      rcases hpending line hmem with hold | ⟨event, -, rfl⟩
      · exact h.tagged line hold htag
      · rfl
    · show List.Pairwise _ (tail.acks ++ (tail.worker ++ _))
      rw [← List.append_assoc, List.pairwise_append, List.pairwise_map]
      refine ⟨h.ordered, hpair.imp ?_, ?_⟩
      · exact fun hstop _ => hstop
      · intro first hfirst second hsecond hepoch
        obtain ⟨event, hmem, rfl⟩ := List.mem_map.mp hsecond
        exact (h.read_le first hfirst hepoch).trans (hevent event hmem).1
    · intro line hmem hepoch
      rcases hpending line hmem with hold | ⟨event, hmem', rfl⟩
      · exact (h.read_le line hold hepoch).trans hle
      · exact (hevent event hmem').2
    · intro line hmem hepoch
      rcases hpending line hmem with hold | ⟨event, hmem', rfl⟩
      · exact h.acked_le line hold hepoch
      · exact h.acked_le_read.trans (hevent event hmem').1

/-- The watermark is saved as it is. -/
theorem settle (h : tail.Inv) (phase : Phase) :
    TailRun.Inv { tail with saved := some tail.ackedOffset, acks := [], phase := phase } :=
  { h.dropAcks (List.nil_sublist _) phase with saved := Or.inr rfl }

end TailRun.Inv

/-! ## Steps -/

/-- What receiving acks can do: acks are dropped, or the watermark moves to one of them that has
the current generation, or it is saved as it is. -/
inductive Received (tail : TailRun) : TailRun → Prop where
  | dropped {rest : List Line} (hrest : rest.Sublist tail.acks) (phase : Phase) :
      Received tail { tail with acks := rest, phase := phase }
  | raised {ack : Line} (hack : ack ∈ tail.acks)
      (htag : ack.position.generation = tail.generation) (phase : Phase) :
      Received tail { tail with
        ackedOffset := ack.position.offset
        saved := some ack.position.offset
        acks := []
        phase := phase }
  | settled (phase : Phase) :
      Received tail { tail with saved := some tail.ackedOffset, acks := [], phase := phase }

theorem Received.inv {tail next : TailRun} (h : tail.Inv) (hnext : Received tail next) :
    next.Inv := by
  cases hnext with
  | dropped hrest phase => exact h.dropAcks hrest phase
  | raised hack htag phase => exact h.raise hack htag phase
  | settled phase => exact h.settle phase

theorem Received.raiseWatermark {tail : TailRun} {hi : Option ℕ}
    (hhi : ∀ offset, hi = some offset →
      ∃ ack ∈ tail.acks, ack.position.generation = tail.generation ∧
        offset = ack.position.offset) (phase : Phase) :
    Received tail (raiseWatermark hi { tail with acks := [], phase := phase }) := by
  unfold Tail.raiseWatermark
  split
  · exact .dropped (List.nil_sublist _) phase
  · next offset =>
      split
      · obtain ⟨ack, hack, htag, rfl⟩ := hhi offset rfl
        exact .raised hack htag phase
      · exact .dropped (List.nil_sublist _) phase

theorem drained_mem {acks : List Line} {generation hi : ℕ}
    (h : drainAcksIntoWatermark (acks.map Line.position) generation = some hi) :
    ∃ ack ∈ acks, ack.position.generation = generation ∧ hi = ack.position.offset := by
  obtain ⟨position, hmem, htag, rfl⟩ := drainAcksIntoWatermark_mem h
  obtain ⟨ack, hack, rfl⟩ := List.mem_map.mp hmem
  exact ⟨ack, hack, htag, rfl⟩

/-- What a step can do: the worker finishes a line, a file is polled, or acks are received. -/
theorem step_cases {tail next : TailRun} {move : Move} (hstep : step tail move = some next) :
    (∃ line rest, tail.worker = line :: rest ∧ move = .finish ∧
      next = { tail with worker := rest, acks := tail.acks ++ [line] }) ∨
    (∃ stat room, move = .poll (some stat) room ∧
      next = readFile stat room (checkRotation stat tail)) ∨
    ((∀ stat room, move ≠ .poll (some stat) room) ∧ Received tail next) := by
  cases move with
  | finish =>
      simp only [step] at hstep
      split at hstep
      · exact absurd hstep (by simp)
      · next line rest hworker =>
          exact Or.inl ⟨line, rest, hworker, rfl, (Option.some.inj hstep).symm⟩
  | wake =>
      refine Or.inr (Or.inr ⟨by simp, ?_⟩)
      simp only [step] at hstep
      split at hstep
      · next line rest hphase hacks =>
          split at hstep
          · obtain rfl := Option.some.inj hstep
            exact .dropped (by rw [hacks]; exact List.sublist_cons_self line rest) tail.phase
          · next offset hack =>
              obtain rfl := Option.some.inj hstep
              obtain ⟨htag, rfl⟩ := ackOffsetForGeneration_eq_some.mp hack
              -- the highest offset among the acks of this generation
              refine Received.raiseWatermark (fun offset hoffset => ?_) tail.phase
              rw [← Option.some.inj hoffset, hacks]
              rcases drainRemainingAcks_eq line.position.offset (rest.map Line.position)
                tail.generation with heq | ⟨position, hmem, htag', heq⟩
              · exact ⟨line, List.mem_cons_self, htag, heq⟩
              · obtain ⟨ack, hack, rfl⟩ := List.mem_map.mp hmem
                exact ⟨ack, List.mem_cons_of_mem _ hack, htag', heq⟩
      · exact absurd hstep (by simp)
  | poll stat room =>
      simp only [step] at hstep
      split at hstep
      · cases stat with
        | none =>
            obtain rfl := Option.some.inj hstep
            exact Or.inr (Or.inr ⟨by simp, .dropped (List.Sublist.refl _) tail.phase⟩)
        | some stat => exact Or.inr (Or.inl ⟨stat, room, rfl, (Option.some.inj hstep).symm⟩)
      · exact absurd hstep (by simp)
  | drain =>
      refine Or.inr (Or.inr ⟨by simp, ?_⟩)
      simp only [step] at hstep
      split at hstep
      · obtain rfl := Option.some.inj hstep
        exact Received.raiseWatermark (fun offset hoffset => drained_mem hoffset) .waiting
      · exact absurd hstep (by simp)
  | shutdown =>
      refine Or.inr (Or.inr ⟨by simp, ?_⟩)
      simp only [step] at hstep
      split at hstep
      · obtain rfl := Option.some.inj hstep
        -- at shutdown what has been acked is drained once more
        cases hhi : drainAcksIntoWatermark (tail.acks.map Line.position) tail.generation with
        | none => exact .settled .stopped
        | some hi =>
            obtain ⟨ack, hack, htag, rfl⟩ := drained_mem hhi
            rcases max_choice tail.ackedOffset ack.position.offset with hmax | hmax
            · simpa [savePosition, hmax] using (Received.settled .stopped : Received tail _)
            · simpa [savePosition, hmax] using Received.raised hack htag .stopped
      · exact absurd hstep (by simp)

theorem step_inv {tail next : TailRun} {move : Move} (h : tail.Inv) (hclean : Clean tail move)
    (hstep : step tail move = some next) : next.Inv := by
  rcases step_cases hstep with ⟨line, rest, hworker, -, rfl⟩ | ⟨stat, room, rfl, rfl⟩ |
    ⟨-, hreceived⟩
  · exact h.finish hworker
  · exact (h.checkRotation stat hclean.1).readFile stat room hclean.2
  · exact hreceived.inv h

/-! ## The watermark -/

/-- The saved offset is before every line of the current epoch whose ack has not fired. -/
def TailRun.BeforeUnfinished (tail : TailRun) : Prop :=
  ∀ offset, tail.saved = some offset → ∀ line ∈ tail.worker, line.epoch = tail.epoch →
    offset ≤ line.start

/-- What a step does to the watermark: unless it is a reset, the watermark stays or becomes the
offset of an ack of the current epoch; after a rotation or a truncation zero is saved. -/
structure WatermarkStep (tail : TailRun) (move : Move) (next : TailRun) : Prop where
  current : next.epoch = tail.epoch → next.ackedOffset = tail.ackedOffset ∨
    ∃ ack ∈ tail.acks, ack.epoch = tail.epoch ∧ next.ackedOffset = ack.position.offset
  reset : ∀ stat room, move = .poll (some stat) room →
    stat.inode ≠ tail.lastInode ∨ stat.len < tail.readOffset → next.saved = some 0

theorem readFile_frame (stat : FileStat) (room : Option ℕ) (tail : TailRun) :
    (readFile stat room tail).ackedOffset = tail.ackedOffset ∧
      (readFile stat room tail).saved = tail.saved ∧
      (readFile stat room tail).epoch = tail.epoch := by
  unfold readFile
  split
  · exact ⟨rfl, rfl, rfl⟩
  · exact ⟨rfl, rfl, rfl⟩

theorem TailRun.Inv.beforeUnfinished {tail : TailRun} (h : tail.Inv) :
    tail.BeforeUnfinished := by
  intro offset hoffset line hmem hepoch
  have hsaved : offset = tail.ackedOffset := by
    rcases h.saved with hnone | hsome
    · exact absurd (hoffset.symm.trans hnone) (by simp)
    · exact Option.some.inj (hoffset.symm.trans hsome)
  rw [hsaved]
  exact h.acked_le line (List.mem_append_right _ hmem) hepoch

theorem TailRun.Inv.watermarkStep {tail next : TailRun} {move : Move} (h : tail.Inv)
    (hstep : step tail move = some next) : WatermarkStep tail move next := by
  rcases step_cases hstep with ⟨line, rest, -, rfl, rfl⟩ | ⟨stat, room, rfl, rfl⟩ |
    ⟨hmove, hreceived⟩
  · exact ⟨fun _ => Or.inl rfl, fun stat room hmove => by cases hmove⟩
  · obtain ⟨hacked, hsaved, hepoch⟩ := readFile_frame stat room (Tail.checkRotation stat tail)
    refine ⟨fun hsame => ?_, fun stat' room' hmove hrotated => ?_⟩
    · rcases checkRotation_cases stat tail with ⟨-, inode, heq⟩ | ⟨-, heq⟩
      · -- a reset starts a new epoch
        rw [hepoch, heq] at hsame
        exact absurd hsame (Nat.succ_ne_self _)
      · exact Or.inl (by rw [hacked, heq])
    · cases hmove
      rcases checkRotation_cases stat tail with ⟨-, inode, heq⟩ | ⟨⟨hinode, hlen⟩, -⟩
      · rw [hsaved, heq]
        rfl
      · exact absurd hrotated (by simp [hinode, hlen])
  · refine ⟨fun _ => ?_, fun stat room heq => absurd heq (hmove stat room)⟩
    cases hreceived with
    | dropped hrest phase => exact Or.inl rfl
    | raised hack htag phase =>
        exact Or.inr ⟨_, hack, h.tagged _ (List.mem_append_left _ hack) htag, rfl⟩
    | settled phase => exact Or.inl rfl

/-- **The saved offset never passes unfinished work.**  In every clean run the saved offset is at
or before the start of every line of the current epoch whose ack has not fired; acks of earlier
epochs do not move the watermark; and a rotation or a truncation saves zero. -/
theorem watermark_before_unfinished {offset : ℕ} {inode : Option ℕ} {tail : TailRun}
    (h : Reached (fun s m t => step s m = some t) Clean (start offset inode) tail) :
    tail.BeforeUnfinished ∧
      ∀ move next, step tail move = some next → WatermarkStep tail move next := by
  have hinv : tail.Inv := h.invariant TailRun.Inv (inv_start offset inode)
    fun s m t hs hclean hstep => step_inv hs hclean hstep
  exact ⟨hinv.beforeUnfinished, fun move next hstep => hinv.watermarkStep hstep⟩

/-! ## A read error after an event -/

/-- Reached by polling `ab` and `cd`, finishing the first and draining its ack. -/
def oneFinished : TailRun :=
  ⟨6, 3, none, 0, some 3, .waiting, [], [⟨⟨0, 6⟩, 3, 0⟩], 0⟩

theorem watermark_oneFinished :
    oneFinished.saved = some 3 ∧ oneFinished.BeforeUnfinished := by
  have hstart : Reached (fun s m t => step s m = some t) Clean (start 0 none) (start 0 none) :=
    .start
  have hvalid : ∀ line ∈ lines newline [97, 98, 10, 99, 100, 10], validUtf8 line = true := by
    decide
  have hclean : Clean (start 0 none) (.poll (some ⟨none, 6, some [97, 98, 10, 99, 100, 10]⟩)
      none) := by
    refine ⟨fun h => absurd rfl h, fun bytes hbytes => ?_⟩
    rw [← Option.some.inj hbytes]
    exact Or.inr (Or.inl hvalid)
  have hpolled := hstart.next (t := ⟨6, 0, none, 0, none, .draining, [],
    [⟨⟨0, 3⟩, 0, 0⟩, ⟨⟨0, 6⟩, 3, 0⟩], 0⟩) hclean (by decide)
  have hfinished := hpolled.next (m := Move.finish) (by trivial) rfl
  have hdrained := hfinished.next (m := Move.drain) (by trivial) rfl
  exact ⟨rfl, (watermark_before_unfinished hdrained).1⟩

/-- A line, then one that is not UTF-8: the line is finished and its offset saved, and then it is
emitted again. -/
theorem reemitted_behind_watermark :
    ∃ tail, Reached (fun s m t => step s m = some t) (fun _ _ => True) (start 0 none) tail ∧
      ¬ tail.BeforeUnfinished := by
  have hstart : Reached (fun s m t => step s m = some t) (fun _ _ => True) (start 0 none)
      (start 0 none) := .start
  have hpolled := hstart.next (m := .poll (some ⟨none, 5, some [97, 98, 10, 255, 10]⟩) none)
    (t := ⟨0, 0, none, 0, none, .draining, [], [⟨⟨0, 3⟩, 0, 0⟩], 0⟩) trivial (by decide)
  have hsaved := (hpolled.next (m := Move.finish) trivial rfl).next (m := Move.drain) trivial rfl
  have hagain := hsaved.next (m := .poll (some ⟨none, 5, some [97, 98, 10, 255, 10]⟩) none)
    (t := ⟨0, 3, none, 0, some 3, .draining, [], [⟨⟨0, 3⟩, 0, 0⟩], 0⟩) trivial (by decide)
  refine ⟨_, hagain, fun h => ?_⟩
  have hle : 3 ≤ 0 := h 3 rfl ⟨⟨0, 3⟩, 0, 0⟩ List.mem_cons_self rfl
  omega

end Limpid.Tail
