import Limpid.Disk.Read

/-!
# Writing

What `write_to_segment` leaves behind.  Whatever the file system answers, some bytes are added
at the end of one segment (`Appended`): the whole line, or a beginning of it without its
newline when the write is cut short.  They are added at a line boundary, because an
unterminated tail makes the next write start a fresh segment; so the unread list of every
position at or above `acked_seq` grows by exactly the record, or not at all
(`unread_of_appended`).
-/

namespace Limpid.Disk

open Limpid.Lines

variable {Event : Type*} {codec : RecordCodec Event}

/-! ## Files -/

theorem content_append (dir : Dir) (seq other : ℕ) (data : Bytes) :
    (dir.append seq data).content other =
      if other = seq then dir.content other ++ data else dir.content other := by
  unfold Dir.append Dir.content
  by_cases h : other = seq
  · subst h
    simp
  · simp [AList.lookup_insert_ne h, h]

theorem mem_append_iff (dir : Dir) (seq other : ℕ) (data : Bytes) :
    other ∈ (dir.append seq data).segments ↔ other = seq ∨ other ∈ dir.segments := by
  simp [Dir.append]

theorem content_eq_nil {dir : Dir} {seq : ℕ} (h : seq ∉ dir.segments) : dir.content seq = [] := by
  rw [Dir.content, AList.lookup_eq_none.mpr h]
  rfl

theorem lookup_of_mem {dir : Dir} {seq : ℕ} (h : seq ∈ dir.segments) :
    dir.segments.lookup seq = some (dir.content seq) := by
  obtain ⟨content, hcontent⟩ := Option.isSome_iff_exists.mp (AList.lookup_isSome.mpr h)
  rw [Dir.content, hcontent]
  rfl

theorem mem_of_content_ne_nil {dir : Dir} {seq : ℕ} (h : dir.content seq ≠ []) :
    seq ∈ dir.segments := by
  by_contra hnot
  exact h (content_eq_nil hnot)

/-- The later directory is the earlier one less some segments below `floor`. -/
structure Pruned (floor : ℕ) (dir later : Dir) : Prop where
  cursor_eq : later.cursor = dir.cursor
  lookup_eq : ∀ seq, floor ≤ seq → later.segments.lookup seq = dir.segments.lookup seq
  lookup_or : ∀ seq, later.segments.lookup seq = none ∨
    later.segments.lookup seq = dir.segments.lookup seq

namespace Pruned

theorem refl (floor : ℕ) (dir : Dir) : Pruned floor dir dir :=
  ⟨rfl, fun _ _ => rfl, fun _ => Or.inr rfl⟩

theorem trans {floor : ℕ} {first second third : Dir} (h₁ : Pruned floor first second)
    (h₂ : Pruned floor second third) : Pruned floor first third where
  cursor_eq := h₂.cursor_eq.trans h₁.cursor_eq
  lookup_eq := fun seq h => (h₂.lookup_eq seq h).trans (h₁.lookup_eq seq h)
  lookup_or := fun seq => by
    rcases h₂.lookup_or seq with h | h
    · exact Or.inl h
    · rw [h]
      exact h₁.lookup_or seq

theorem removeFile (removable : ℕ → Bool) (dir : Dir) {floor seq : ℕ} (h : seq < floor) :
    Pruned floor dir (dir.removeFile removable seq) := by
  unfold Dir.removeFile
  split
  · refine ⟨rfl, fun other hother => AList.lookup_erase_ne (by omega), fun other => ?_⟩
    by_cases hother : other = seq
    · subst hother
      exact Or.inl (AList.lookup_erase ..)
    · exact Or.inr (AList.lookup_erase_ne hother)
  · exact refl floor dir

/-- Segments below the floor may go one after the other. -/
theorem foldl_removeFile (removable : ℕ → Bool) {floor : ℕ} {stale : List ℕ} (dir : Dir)
    (h : ∀ seq ∈ stale, seq < floor) :
    Pruned floor dir (stale.foldl (Dir.removeFile removable) dir) := by
  induction stale generalizing dir with
  | nil => exact refl floor dir
  | cons seq stale ih =>
      have hfirst := removeFile removable dir (h seq (List.mem_cons_self ..))
      exact hfirst.trans (ih _ fun other hother => h other (List.mem_cons_of_mem _ hother))

variable {floor : ℕ} {dir later : Dir} (h : Pruned floor dir later)

include h

theorem mem_of_mem {seq : ℕ} (hseq : seq ∈ later.segments) : seq ∈ dir.segments := by
  rw [← AList.lookup_isSome] at hseq ⊢
  rcases h.lookup_or seq with hnone | heq
  · simp [hnone] at hseq
  · rwa [← heq]

theorem content_or (seq : ℕ) : later.content seq = [] ∨ later.content seq = dir.content seq := by
  unfold Dir.content
  rcases h.lookup_or seq with hnone | heq
  · exact Or.inl (by rw [hnone]; rfl)
  · exact Or.inr (by rw [heq])

theorem content_eq {seq : ℕ} (hseq : floor ≤ seq) : later.content seq = dir.content seq := by
  rw [Dir.content, Dir.content, h.lookup_eq seq hseq]

theorem mem_iff {seq : ℕ} (hseq : floor ≤ seq) : seq ∈ later.segments ↔ seq ∈ dir.segments := by
  rw [← AList.lookup_isSome, ← AList.lookup_isSome, h.lookup_eq seq hseq]

end Pruned

theorem pruned_enforceLoop (removable : ℕ → Bool) (maxSize ackedSeq : ℕ) (listing : List (ℕ × ℕ)) :
    ∀ (total : ℕ) (dir : Dir),
      Pruned ackedSeq dir (enforceLoop removable maxSize ackedSeq listing total dir) := by
  induction listing with
  | nil => exact fun _ dir => Pruned.refl ackedSeq dir
  | cons entry rest ih =>
      intro total dir
      obtain ⟨seq, size⟩ := entry
      rw [enforceLoop]
      split_ifs with htotal hseq hremove
      · exact Pruned.refl ackedSeq dir
      · exact Pruned.refl ackedSeq dir
      · exact (Pruned.removeFile removable dir (by omega)).trans (ih _ _)
      · exact ih _ _

/-- **The size limit never reaches a segment that may hold unacked events.** -/
theorem pruned_enforceMaxSize (removable : ℕ → Bool) (dir : Dir) (maxSize ackedSeq : ℕ) :
    Pruned ackedSeq dir (enforceMaxSize removable dir maxSize ackedSeq) := by
  unfold enforceMaxSize
  dsimp only
  split_ifs
  · exact Pruned.refl ackedSeq dir
  · exact Pruned.refl ackedSeq dir
  · exact pruned_enforceLoop removable maxSize ackedSeq _ _ dir

/-! ## The writer's invariant -/

/-- No segment lies beyond the write segment, and an open one ends at a line boundary. -/
structure WriterOk (dir : Dir) (state : DiskQueueState) : Prop where
  le_writeSeq : ∀ seq ∈ dir.segments, seq ≤ state.writeSeq
  complete : state.writeFile = true → Complete newline (dir.content state.writeSeq)

/-- The write segment can take a record, whether its file is open or not. -/
structure Ready (dir : Dir) (state : DiskQueueState) : Prop where
  le_writeSeq : ∀ seq ∈ dir.segments, seq ≤ state.writeSeq
  complete : Complete newline (dir.content state.writeSeq)

/-- The fields of the shared state a write leaves alone; the write segment only goes up. -/
structure SameQueue (state later : DiskQueueState) : Prop where
  writeSeq_le : state.writeSeq ≤ later.writeSeq
  maxSize_eq : later.maxSize = state.maxSize
  readSeq_eq : later.readSeq = state.readSeq
  ackedSeq_eq : later.ackedSeq = state.ackedSeq

theorem SameQueue.trans {first second third : DiskQueueState} (h₁ : SameQueue first second)
    (h₂ : SameQueue second third) : SameQueue first third :=
  ⟨h₁.writeSeq_le.trans h₂.writeSeq_le, h₂.maxSize_eq.trans h₁.maxSize_eq,
    h₂.readSeq_eq.trans h₁.readSeq_eq, h₂.ackedSeq_eq.trans h₁.ackedSeq_eq⟩

/-- Past the write segment there is nothing. -/
theorem Ready.next {dir : Dir} {state later : DiskQueueState}
    (h : ∀ seq ∈ dir.segments, seq ≤ state.writeSeq) (hnext : later.writeSeq = state.writeSeq + 1) :
    Ready dir later where
  le_writeSeq := fun seq hseq => by have := h seq hseq; omega
  complete := by
    rw [content_eq_nil fun hmem => by have := h _ hmem; omega]
    exact complete_nil

theorem inspectTail_spec {io : WriteIo} {dir : Dir} {state inspected : DiskQueueState}
    (h : WriterOk dir state) (hinspect : inspectTail io dir state = some inspected) :
    Ready dir inspected ∧ SameQueue state inspected := by
  unfold inspectTail at hinspect
  split_ifs at hinspect with hfile hio
  · injection hinspect with hinspect
    subst hinspect
    exact ⟨⟨h.le_writeSeq, h.complete hfile⟩, le_rfl, rfl, rfl, rfl⟩
  · cases hlookup : dir.segments.lookup state.writeSeq with
    | none =>
        rw [hlookup] at hinspect
        injection hinspect with hinspect
        subst hinspect
        refine ⟨⟨h.le_writeSeq, ?_⟩, le_rfl, rfl, rfl, rfl⟩
        simp [Dir.content, hlookup]
    | some content =>
        rw [hlookup] at hinspect
        have hcontent : dir.content state.writeSeq = content := by simp [Dir.content, hlookup]
        dsimp only at hinspect
        split_ifs at hinspect with hempty htail <;>
          · injection hinspect with hinspect
            subst hinspect
            first
            | exact ⟨⟨h.le_writeSeq, by rw [hcontent]; exact Or.inl hempty⟩, le_rfl, rfl, rfl, rfl⟩
            | exact ⟨⟨h.le_writeSeq, by rw [hcontent]; exact Or.inr htail⟩, le_rfl, rfl, rfl, rfl⟩
            | exact ⟨Ready.next h.le_writeSeq rfl, Nat.le_succ _, rfl, rfl, rfl⟩

theorem rotate_spec {dir : Dir} {state : DiskQueueState} (h : Ready dir state) (data : Bytes) :
    Ready dir (rotate state data) ∧ SameQueue state (rotate state data) := by
  unfold rotate
  split
  · exact ⟨Ready.next h.le_writeSeq rfl, Nat.le_succ _, rfl, rfl, rfl⟩
  · exact ⟨h, le_rfl, rfl, rfl, rfl⟩

theorem openSegment_spec {io : WriteIo} {dir opened : Dir} {state later : DiskQueueState}
    (h : Ready dir state) (hopen : openSegment io dir state = some (opened, later)) :
    Ready opened later ∧ SameQueue state later ∧ later.writeSeq = state.writeSeq ∧
      opened.cursor = dir.cursor ∧ (∀ seq, opened.content seq = dir.content seq) ∧
      (∀ seq, seq ∈ opened.segments → seq = state.writeSeq ∨ seq ∈ dir.segments) ∧
      ∀ seq ∈ dir.segments, seq ∈ opened.segments := by
  unfold openSegment at hopen
  by_cases hfile : state.writeFile = true
  · rw [if_pos hfile] at hopen
    injection hopen with hopen
    rw [Prod.mk.injEq] at hopen
    obtain ⟨rfl, rfl⟩ := hopen
    exact ⟨h, ⟨le_rfl, rfl, rfl, rfl⟩, rfl, rfl, fun _ => rfl, fun _ => Or.inr, fun _ => id⟩
  · rw [if_neg hfile] at hopen
    split at hopen
    · cases hopen
    injection hopen with hopen
    rw [Prod.mk.injEq] at hopen
    obtain ⟨rfl, rfl⟩ := hopen
    have hcontent : ∀ seq, (dir.append state.writeSeq []).content seq = dir.content seq := by
      intro seq
      rw [content_append]
      split <;> simp
    refine ⟨⟨fun seq hseq => ?_, ?_⟩, ⟨le_rfl, rfl, rfl, rfl⟩, rfl, rfl, hcontent, ?_, ?_⟩
    · rcases (mem_append_iff ..).mp hseq with rfl | hseq
      · exact le_rfl
      · exact h.le_writeSeq seq hseq
    · rw [hcontent]
      exact h.complete
    · exact fun seq hseq => (mem_append_iff ..).mp hseq
    · exact fun seq hseq => (mem_append_iff ..).mpr (Or.inr hseq)

/-! ## The write -/

/-- `suffix` has been added at the end of the write segment, at a line boundary; apart from
that only segments below `acked_seq` may be gone. -/
structure Appended (dir : Dir) (state : DiskQueueState) (later : Dir) (next : DiskQueueState)
    (suffix : Bytes) : Prop where
  same : SameQueue state next
  writer : WriterOk later next
  cursor_eq : later.cursor = dir.cursor
  content_eq : ∀ seq, state.ackedSeq ≤ seq → later.content seq =
    if seq = next.writeSeq then dir.content seq ++ suffix else dir.content seq
  content_or : ∀ seq, seq < state.ackedSeq →
    later.content seq = [] ∨ later.content seq = dir.content seq
  mem_of_mem : ∀ seq, state.ackedSeq ≤ seq → seq ∈ dir.segments → seq ∈ later.segments
  mem_or_eq : ∀ seq ∈ later.segments, seq ∈ dir.segments ∨ seq = next.writeSeq
  boundary : suffix ≠ [] → Complete newline (dir.content next.writeSeq)

/-- Nothing has been written. -/
theorem Appended.of_same {dir : Dir} {state next : DiskQueueState} (hsame : SameQueue state next)
    (hwriter : WriterOk dir next) : Appended dir state dir next [] :=
  ⟨hsame, hwriter, rfl, fun seq _ => by split <;> simp, fun _ _ => Or.inr rfl, fun _ _ h => h,
    fun _ h => Or.inl h, fun h => absurd rfl h⟩

/-- A write on the open handle, followed by the removal of old segments. -/
theorem Appended.of_ready {dir later : Dir} {state next : DiskQueueState} {suffix : Bytes}
    (h : Ready dir state) (hsame : SameQueue state next) (hseq : next.writeSeq = state.writeSeq)
    (hacked : state.ackedSeq ≤ state.writeSeq)
    (hpruned : Pruned state.ackedSeq (dir.append state.writeSeq suffix) later)
    (hcomplete : next.writeFile = true → Complete newline suffix) :
    Appended dir state later next suffix where
  same := hsame
  writer := by
    refine ⟨fun seq hmem => ?_, fun hfile => ?_⟩
    · rcases (mem_append_iff ..).mp (hpruned.mem_of_mem hmem) with rfl | hmem
      · exact hseq.ge
      · exact hseq ▸ h.le_writeSeq seq hmem
    · rw [hseq, hpruned.content_eq hacked, content_append, if_pos rfl]
      exact complete_append h.complete (hcomplete hfile)
  cursor_eq := hpruned.cursor_eq
  content_eq := fun seq hle => by rw [hpruned.content_eq hle, content_append, hseq]
  content_or := fun seq hlt => by
    have hne : seq ≠ state.writeSeq := by omega
    have hor := hpruned.content_or seq
    rwa [content_append, if_neg hne] at hor
  mem_of_mem := fun seq hle hmem =>
    (hpruned.mem_iff hle).mpr ((mem_append_iff ..).mpr (Or.inr hmem))
  mem_or_eq := fun seq hmem => by
    rcases (mem_append_iff ..).mp (hpruned.mem_of_mem hmem) with rfl | hmem
    · exact Or.inr hseq.symm
    · exact Or.inl hmem
  boundary := fun _ => hseq ▸ h.complete

/-- What a write that returns `wrote` has put in the file: the whole line, or, when it
failed, possibly only a beginning of it. -/
def LineOrPart (data suffix : Bytes) (wrote : Bool) : Prop :=
  suffix = data ++ [newline] ∨ (newline ∉ suffix ∧ wrote = false)

theorem appendRecord_spec {io : WriteIo} {dir later : Dir} {state next : DiskQueueState}
    {data : Bytes} {wrote : Bool} (h : Ready dir state) (hacked : state.ackedSeq ≤ state.writeSeq)
    (hdata : newline ∉ data) (hwrite : appendRecord io dir state data = (later, next, wrote)) :
    next.writeSeq = state.writeSeq ∧
      ∃ suffix, Appended dir state later next suffix ∧ LineOrPart data suffix wrote := by
  have hsame : ∀ file size, SameQueue state { state with writeFile := file, writeSize := size } :=
    fun _ _ => ⟨le_rfl, rfl, rfl, rfl⟩
  unfold appendRecord at hwrite
  cases hio : io.written with
  | some k =>
      rw [hio] at hwrite
      dsimp only at hwrite
      rw [Prod.mk.injEq, Prod.mk.injEq] at hwrite
      obtain ⟨rfl, rfl, rfl⟩ := hwrite
      refine ⟨rfl, _, Appended.of_ready h (hsame false state.writeSize) rfl hacked
        (Pruned.refl _ _) (fun hfile => absurd hfile (by simp)), ?_⟩
      by_cases hk : k ≤ data.length
      · refine Or.inr ⟨?_, rfl⟩
        rw [List.take_append_of_le_length hk]
        exact fun hmem => hdata (List.mem_of_mem_take hmem)
      · exact Or.inl (List.take_of_length_le (by simp; omega))
  | none =>
      rw [hio] at hwrite
      dsimp only at hwrite
      split_ifs at hwrite
      · rw [Prod.mk.injEq, Prod.mk.injEq] at hwrite
        obtain ⟨rfl, rfl, rfl⟩ := hwrite
        exact ⟨rfl, _, Appended.of_ready h (hsame false state.writeSize) rfl hacked
          (Pruned.refl _ _) (fun hfile => absurd hfile (by simp)), Or.inl rfl⟩
      · rw [Prod.mk.injEq, Prod.mk.injEq] at hwrite
        obtain ⟨rfl, rfl, rfl⟩ := hwrite
        exact ⟨rfl, _, Appended.of_ready h (hsame state.writeFile _) rfl hacked
          (pruned_enforceMaxSize _ _ _ _) (fun _ => complete_append_singleton data), Or.inl rfl⟩

/-- **What `write_to_segment` leaves behind, whatever the file system answers.** -/
theorem writeToSegment_spec {io : WriteIo} {dir later : Dir} {state next : DiskQueueState}
    {data : Bytes} {wrote : Bool} (h : WriterOk dir state)
    (hacked : state.ackedSeq ≤ state.writeSeq) (hdata : newline ∉ data)
    (hwrite : writeToSegment io dir state data = (later, next, wrote)) :
    ∃ suffix, Appended dir state later next suffix ∧ LineOrPart data suffix wrote := by
  have hnothing : LineOrPart data [] false := Or.inr ⟨by simp, rfl⟩
  unfold writeToSegment at hwrite
  -- what stands at the end of the segment is looked at first
  cases hinspect : inspectTail io dir state with
  | none =>
      rw [hinspect, Prod.mk.injEq, Prod.mk.injEq] at hwrite
      obtain ⟨rfl, rfl, rfl⟩ := hwrite
      exact ⟨[], Appended.of_same ⟨le_rfl, rfl, rfl, rfl⟩ h, hnothing⟩
  | some inspected =>
      rw [hinspect] at hwrite
      dsimp only at hwrite
      obtain ⟨hready, hsame⟩ := inspectTail_spec h hinspect
      obtain ⟨hrotated, hsame'⟩ := rotate_spec hready data
      have hsame₂ := hsame.trans hsame'
      -- then the segment may be rotated, and is opened
      cases hopen : openSegment io dir (rotate inspected data) with
      | none =>
          rw [hopen, Prod.mk.injEq, Prod.mk.injEq] at hwrite
          obtain ⟨rfl, rfl, rfl⟩ := hwrite
          exact ⟨[], Appended.of_same hsame₂ ⟨hrotated.le_writeSeq, fun _ => hrotated.complete⟩,
            hnothing⟩
      | some result =>
          obtain ⟨opened, openState⟩ := result
          rw [hopen] at hwrite
          obtain ⟨hopened, hsame₃, hseq, hcursor, hcontent, hmem, hkept⟩ :=
            openSegment_spec hrotated hopen
          have hsame₄ := hsame₂.trans hsame₃
          have hacked' : openState.ackedSeq ≤ openState.writeSeq := by
            rw [hsame₄.ackedSeq_eq]
            exact hacked.trans hsame₄.writeSeq_le
          obtain ⟨hnext, suffix, happended, hsuffix⟩ :=
            appendRecord_spec hopened hacked' hdata hwrite
          have hack := hsame₄.ackedSeq_eq
          refine ⟨suffix, ⟨hsame₄.trans happended.same, happended.writer,
            happended.cursor_eq.trans hcursor, ?_, ?_, ?_, ?_, ?_⟩, hsuffix⟩
          · intro seq hle
            rw [happended.content_eq seq (hack ▸ hle), hcontent]
          · intro seq hlt
            rw [← hcontent]
            exact happended.content_or seq (hack ▸ hlt)
          · exact fun seq hle hseq' => happended.mem_of_mem seq (hack ▸ hle) (hkept seq hseq')
          · intro seq hseq'
            rcases happended.mem_or_eq seq hseq' with hin | heq
            · rcases hmem seq hin with rfl | hin
              · exact Or.inr (hseq.symm.trans hnext.symm)
              · exact Or.inl hin
            · exact Or.inr heq
          · intro hne
            rw [← hcontent]
            exact happended.boundary hne

/-! ## The unread list -/

section Unread

variable {dir later : Dir} {state next : DiskQueueState} {suffix : Bytes}
  (h : Appended dir state later next suffix)

include h

theorem segmentRecords_of_appended {offset : ℕ} (hacked : state.ackedSeq ≤ next.writeSeq)
    (hoffset : offset ≤ (dir.content next.writeSeq).length) :
    segmentRecords codec later next.writeSeq offset =
      segmentRecords codec dir next.writeSeq offset ++
        scanLines codec next.writeSeq (dir.content next.writeSeq).length
          (lines newline suffix) := by
  have hlen : offset + ((dir.content next.writeSeq).drop offset).length =
      (dir.content next.writeSeq).length := by
    rw [List.length_drop]
    omega
  unfold segmentRecords
  rw [h.content_eq _ hacked, if_pos rfl, List.drop_append_of_le_length hoffset]
  by_cases hsuffix : suffix = []
  · simp [hsuffix, scanLines]
  · rw [lines_append (complete_drop (h.boundary hsuffix) offset), scanLines_append, flatten_lines,
      hlen]

theorem unread_next_of_appended {p : Position} (hacked : state.ackedSeq ≤ p.seq)
    (hle : p.seq ≤ next.writeSeq)
    (hoffset : p.seq = next.writeSeq → p.offset ≤ (dir.content next.writeSeq).length) :
    unread codec later next.writeSeq p = unread codec dir next.writeSeq p ++
      scanLines codec next.writeSeq (dir.content next.writeSeq).length (lines newline suffix) := by
  induction hk : next.writeSeq - p.seq generalizing p with
  | zero =>
      have heq : p.seq = next.writeSeq := by omega
      rw [unread_of_top_le heq.ge, unread_of_top_le heq.ge, heq]
      exact segmentRecords_of_appended h (heq ▸ hacked) (hoffset heq)
  | succ k ih =>
      have hlt : p.seq < next.writeSeq := by omega
      have hsame : segmentRecords codec later p.seq p.offset =
          segmentRecords codec dir p.seq p.offset := by
        rw [segmentRecords, h.content_eq _ hacked, if_neg hlt.ne, segmentRecords]
      rw [unread_of_lt_top hlt, unread_of_lt_top hlt, hsame,
        ih (p := ⟨p.seq + 1, 0⟩) (by simp only; omega) hlt (fun _ => Nat.zero_le _)
          (by simp only; omega), List.append_assoc]

/-- What a write adds to the unread list of a position. -/
theorem unread_of_appended {p : Position} (hwriter : WriterOk dir state)
    (hacked : state.ackedSeq ≤ p.seq) (hp : Within dir state.writeSeq p) :
    unread codec later next.writeSeq p = unread codec dir state.writeSeq p ++
      scanLines codec next.writeSeq (dir.content next.writeSeq).length (lines newline suffix) := by
  rw [← unread_top h.same.writeSeq_le hp.seq_le fun seq hseq =>
    content_eq_nil fun hmem => absurd (hwriter.le_writeSeq seq hmem) (by omega)]
  refine unread_next_of_appended h hacked (hp.seq_le.trans h.same.writeSeq_le) fun heq => ?_
  have hsame := h.same.writeSeq_le
  rcases hp with hlt | ⟨hseq, hoffset⟩
  · omega
  · rwa [← heq, hseq]

/-- A position within the queue stays within it. -/
theorem within_of_appended {p : Position} {top top' : ℕ} (hp : Within dir top p)
    (hacked : state.ackedSeq ≤ p.seq) (hle : top ≤ top') : Within later top' p := by
  rcases Nat.lt_or_eq_of_le hle with hlt | rfl
  · exact Or.inl (lt_of_le_of_lt hp.seq_le hlt)
  · rcases hp with hlt | ⟨rfl, hoffset⟩
    · exact Or.inl hlt
    · refine Or.inr ⟨rfl, hoffset.trans ?_⟩
      rw [h.content_eq _ hacked]
      split <;> simp

/-- A position at the start of a line stays there. -/
theorem atLine_of_appended {p : Position} {top : ℕ} (hp : Within dir top p)
    (htop : top ≤ state.writeSeq) (hacked : state.ackedSeq ≤ p.seq) (hline : AtLine dir p) :
    AtLine later p := by
  have hsame := h.same.writeSeq_le
  unfold AtLine at hline ⊢
  rw [h.content_eq _ hacked]
  split
  · have hoffset : p.offset ≤ (dir.content p.seq).length := by
      rcases hp with hlt | ⟨rfl, hoffset⟩
      · omega
      · exact hoffset
    rwa [List.take_append_of_le_length hoffset]
  · exact hline

end Unread

/-- The record a completed write of `data` in segment `seq` makes, after `length` bytes. -/
def writtenRecord (seq length : ℕ) (data : Bytes) (event : Event) : Record Event :=
  ⟨⟨seq, length⟩, ⟨seq, length + (data.length + 1)⟩, event⟩

theorem scanLines_line {event : Event} {data : Bytes} (hdata : codec.serialize event = some data)
    (seq length : ℕ) :
    scanLines codec seq length (lines newline (data ++ [newline])) =
      [writtenRecord seq length data event] := by
  rw [lines_append_delim (codec.newline_notMem hdata), scanLines, decodeLine_serialize hdata]
  simp [scanLines, writtenRecord]

/-! ## Small queues -/

/-- A file system on which everything succeeds. -/
def soundIo : WriteIo := ⟨true, true, true, none, true, fun _ => true⟩

/-- A queue with an open write segment whose reader has not moved. -/
def openQueue (dir : Dir) (writeSeq writeSize : ℕ) : DiskQueue where
  dir := dir
  state := ⟨0, writeSeq, true, writeSize, 0, 0⟩
  receiver := ⟨0, 0, 0, 0, []⟩
  closed := false

theorem send_first : send letterCodec soundIo 0 (createDiskQueue Dir.empty 0) =
    (openQueue ((Dir.empty.append 0 []).append 0 (letterLine 0)) 0 2, true) := by
  simp [send, letterCodec, writeToSegment, inspectTail, createDiskQueue, soundIo, Dir.empty,
    rotate, openSegment, appendRecord, enforceMaxSize, openQueue, loadCursor, maxSeq, Dir.append,
    letterLine, segmentMaxBytes, Dir.content]

/-- A record that fits goes to the end of the open segment. -/
theorem send_fits (dir : Dir) {n size : ℕ} (h : size + (n + 1) + 1 ≤ segmentMaxBytes) :
    send letterCodec soundIo n (openQueue dir 0 size) =
      (openQueue (dir.append 0 (letterLine n)) 0 (size + (n + 2)), true) := by
  have hrotate : ¬size + (n + 1) + 1 > segmentMaxBytes := by omega
  simp [send, letterCodec, writeToSegment, inspectTail, soundIo, rotate, openSegment, appendRecord,
    enforceMaxSize, openQueue, letterLine, hrotate]

theorem readLineAt_letterLine (n : ℕ) : readLineAt (letterLine n) 0 = letterLine n := by
  have hnot : newline ∉ List.replicate (n + 1) (120 : UInt8) := fun h =>
    absurd (List.eq_of_mem_replicate h) (by decide)
  rw [readLineAt, List.drop_zero, letterLine, takeLine_append_delim hnot]

end Limpid.Disk
