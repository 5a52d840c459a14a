import Limpid.Tail.Model

/-!
# Each line of a growing file, once

A file that only grows is polled again and again, and each poll reads from where the one before
it stopped.  What should come out is `completeLines`: the terminated lines that are not blank,
trimmed, each once and in order; and a poll that finds a terminated line should get past it.

`read_new_lines` moves the offset only when it returns `Ok`.  A read error discards the offset,
although the lines before the bad one have already been sent: the next poll sends them again, and
no poll gets past the bad line (`emits_again`).

The polls that go well are exactly those that either find no terminated line or find only valid
UTF-8, the unterminated tail included (`Readable`).  `exact_iff_readable` says so for every file
and every way of revealing it.
-/

namespace Limpid.Tail

open Limpid.Lines

/-! ## What a growing file should give -/

/-- The terminated lines of a file that are not blank, trimmed. -/
def completeLines (content : Bytes) : List Bytes :=
  (((lines newline content).filter (·.getLast? = some newline)).map trimLine).filter (· ≠ [])

/-- The offset the next read starts from, and everything emitted so far. -/
structure Cursor where
  readOffset : ℕ
  emitted : List Bytes
deriving DecidableEq

/-- The beginning of the file. -/
def Cursor.start : Cursor := ⟨0, []⟩

/-- A poll of a file that has not been rotated, the channel staying open. -/
def poll (content : Bytes) (cursor : Cursor) : Cursor :=
  if content.length ≤ cursor.readOffset then cursor
  else
    let (events, offset) := readPass none (some content) cursor.readOffset
    ⟨offset, cursor.emitted ++ events.map Emitted.ingress⟩

/-- After a poll everything present has been emitted once, and a poll that sees a terminated line
beyond the offset moves it. -/
def PollExact (content : Bytes) (before after : Cursor) : Prop :=
  after.emitted = completeLines content ∧
    (newline ∈ content.drop before.readOffset → before.readOffset < after.readOffset)

instance (content : Bytes) (before after : Cursor) : Decidable (PollExact content before after) :=
  inferInstanceAs (Decidable (_ ∧ _))

/-- Every poll of a file is exact, where `chunks` are what is appended before each poll. -/
def Exact (content : Bytes) (cursor : Cursor) : List Bytes → Prop
  | [] => True
  | chunk :: chunks =>
      PollExact (content ++ chunk) cursor (poll (content ++ chunk) cursor) ∧
        Exact (content ++ chunk) (poll (content ++ chunk) cursor) chunks

/-- What a poll finds beyond the last newline it knew holds no newline, or no line that is not
UTF-8. -/
def Readable (previous chunk : Bytes) : Prop :=
  newline ∉ unterminated newline previous ++ chunk ∨
    ∀ line ∈ lines newline (unterminated newline previous ++ chunk), validUtf8 line = true

/-- Every poll of a file is readable. -/
def AllReadable (content : Bytes) : List Bytes → Prop
  | [] => True
  | chunk :: chunks => Readable content chunk ∧ AllReadable (content ++ chunk) chunks

/-- A line, then one that is not UTF-8: the first is emitted by every poll, and no poll gets past
it. -/
theorem emits_again :
    poll [97, 98, 10, 255, 10] (poll [97, 98, 10, 255, 10] .start) = ⟨0, [[97, 98], [97, 98]]⟩ ∧
      ¬ Exact [] .start [[97, 98, 10, 255, 10], []] := by
  refine ⟨by decide, fun h => ?_⟩
  have hprogress := h.1.2
  revert hprogress
  decide

/-! ## The lines of a file in two parts -/

theorem completeLines_append {first : Bytes} (h : Complete newline first) (second : Bytes) :
    completeLines (first ++ second) = completeLines first ++ completeLines second := by
  simp [completeLines, lines_append h]

theorem completeLines_of_notMem {content : Bytes} (h : newline ∉ content) :
    completeLines content = [] := by
  by_cases hne : content = []
  · simp [completeLines, hne]
  · have hlast : content.getLast? ≠ some newline := fun hlast =>
      h (List.mem_of_getLast? hlast)
    simp [completeLines, lines_of_notMem hne h, hlast]

theorem completeLines_completePart (content : Bytes) :
    completeLines (completePart newline content) = completeLines content := by
  conv_rhs => rw [← completePart_append_unterminated (d := newline) content,
    completeLines_append (complete_completePart content),
    completeLines_of_notMem (notMem_unterminated content), List.append_nil]

theorem completeLines_of_complete {content : Bytes} (h : Complete newline content) :
    completeLines content = ((lines newline content).map trimLine).filter (· ≠ []) := by
  have hall : (lines newline content).filter (·.getLast? = some newline) =
      lines newline content :=
    List.filter_eq_self.mpr fun line hline => by simpa using getLast?_of_mem_lines h hline
  rw [completeLines, hall]

/-! ## The loop of `read_new_lines` -/

theorem readLine_of_invalid {line : Bytes} (h : validUtf8 line = false) :
    readLine line = .error := by
  simp [readLine, h]

theorem readLine_of_incomplete {line : Bytes} (hvalid : validUtf8 line = true)
    (hlast : line.getLast? ≠ some newline) : readLine line = .incomplete := by
  simp [readLine, hvalid, hlast]

theorem readLine_of_complete {line : Bytes} (hvalid : validUtf8 line = true)
    (hlast : line.getLast? = some newline) :
    readLine line = if trimLine line = [] then .blank else .event (trimLine line) := by
  simp [readLine, hvalid, hlast]

/-- Terminated valid lines are emitted and passed. -/
theorem readLoop_append {full : List Bytes} (hvalid : ∀ line ∈ full, validUtf8 line = true)
    (hlast : ∀ line ∈ full, line.getLast? = some newline) (current : ℕ) (more : List Bytes) :
    ((readLoop none current (full ++ more)).1.map Emitted.ingress =
      (full.map trimLine).filter (· ≠ []) ++
        (readLoop none (current + full.flatten.length) more).1.map Emitted.ingress) ∧
    (readLoop none current (full ++ more)).2 =
      (readLoop none (current + full.flatten.length) more).2 := by
  induction full generalizing current with
  | nil => simp
  | cons line full ih =>
      have hline := readLine_of_complete (hvalid line (by simp)) (hlast line (by simp))
      have hrest := ih (fun line h => hvalid line (by simp [h]))
        (fun line h => hlast line (by simp [h])) (current + line.length)
      have hlength : current + (line :: full).flatten.length =
          current + line.length + full.flatten.length := by
        simp [Nat.add_assoc]
      rw [hlength, List.cons_append, readLoop]
      by_cases htrim : trimLine line = []
      · rw [hline, if_pos htrim]
        simpa [htrim] using hrest
      · rw [hline, if_neg htrim]
        simpa [htrim] using hrest

/-- An invalid line anywhere is an error, if only the last line may lack its newline. -/
theorem readLoop_error {full tail : List Bytes}
    (hlast : ∀ line ∈ full, line.getLast? = some newline) (htail : tail.length ≤ 1)
    (hinvalid : ∃ line ∈ full ++ tail, validUtf8 line = false) (current : ℕ) :
    (readLoop none current (full ++ tail)).2 = none := by
  induction full generalizing current with
  | nil =>
      obtain ⟨line, hline, hinvalid⟩ := hinvalid
      obtain rfl : tail = [line] := by
        match tail, htail, hline with
        | [_], _, hline => simpa using (List.mem_singleton.mp hline).symm
      simp [readLoop, readLine_of_invalid hinvalid]
  | cons line full ih =>
      rw [List.cons_append, readLoop]
      by_cases hline : validUtf8 line = false
      · rw [readLine_of_invalid hline]
      · rw [readLine_of_complete (by simpa using hline) (hlast line (by simp))]
        have hrest := ih (fun line h => hlast line (by simp [h]))
          (by simpa [hline] using hinvalid) (current + line.length)
        by_cases htrim : trimLine line = []
        · rw [if_pos htrim]
          exact hrest
        · rw [if_neg htrim]
          simpa using hrest

/-! ## One read -/

/-- A readable rest is read to its last newline. -/
theorem readNewLines_of_valid {rest : Bytes} (current : ℕ)
    (hvalid : ∀ line ∈ lines newline rest, validUtf8 line = true) :
    (readLoop none current (lines newline rest)).1.map Emitted.ingress = completeLines rest ∧
      (readLoop none current (lines newline rest)).2 =
        some (current + (completePart newline rest).length) := by
  have hlines := lines_eq_completePart (d := newline) rest
  have hcomplete := complete_completePart (d := newline) rest
  have hfull : ∀ line ∈ lines newline (completePart newline rest), validUtf8 line = true :=
    fun line h => hvalid line (by rw [hlines]; exact List.mem_append_left _ h)
  have hloop := readLoop_append hfull
    (fun line h => getLast?_of_mem_lines hcomplete h) current
  rw [hlines, ← completeLines_completePart, completeLines_of_complete hcomplete,
    (hloop _).1, (hloop _).2, flatten_lines]
  split
  · simp [readLoop]
  · next hne =>
      have htail : validUtf8 (unterminated newline rest) = true :=
        hvalid _ (by rw [hlines]; simp [hne])
      have hlast : (unterminated newline rest).getLast? ≠ some newline := fun h =>
        notMem_unterminated rest (List.mem_of_getLast? h)
      simp [readLoop, readLine_of_incomplete htail hlast]

theorem readNewLines_of_invalid {rest : Bytes} (current : ℕ)
    (hinvalid : ∃ line ∈ lines newline rest, validUtf8 line = false) :
    (readLoop none current (lines newline rest)).2 = none := by
  rw [lines_eq_completePart] at hinvalid ⊢
  refine readLoop_error (fun line h => ?_) (by split <;> simp) hinvalid current
  exact getLast?_of_mem_lines (complete_completePart rest) h

/-! ## One poll -/

/-- Between polls that go well the offset is at the last newline, and everything before it has
been emitted. -/
structure AtLineEnd (content : Bytes) (cursor : Cursor) : Prop where
  readOffset : cursor.readOffset = (completePart newline content).length
  emitted : cursor.emitted = completeLines content

theorem AtLineEnd.start : AtLineEnd [] .start := ⟨rfl, rfl⟩

theorem completeLines_append_eq (previous chunk : Bytes) :
    completeLines (previous ++ chunk) =
      completeLines previous ++ completeLines (unterminated newline previous ++ chunk) := by
  rw [append_eq_completePart (d := newline) previous chunk,
    completeLines_append (complete_completePart previous), completeLines_completePart]

section Poll

variable {previous chunk : Bytes} {cursor : Cursor}

/-- Unless there is nothing at all to read, a poll runs the loop over the lines beyond the last
newline. -/
theorem AtLineEnd.poll_eq (h : AtLineEnd previous cursor)
    (hne : unterminated newline previous ++ chunk ≠ []) :
    poll (previous ++ chunk) cursor =
      ⟨(readLoop none cursor.readOffset
          (lines newline (unterminated newline previous ++ chunk))).2.getD cursor.readOffset,
        cursor.emitted ++ (readLoop none cursor.readOffset
          (lines newline (unterminated newline previous ++ chunk))).1.map Emitted.ingress⟩ := by
  have hdrop : (previous ++ chunk).drop cursor.readOffset =
      unterminated newline previous ++ chunk := by
    rw [h.readOffset]
    exact drop_completePart previous chunk
  have hlength : ¬ (previous ++ chunk).length ≤ cursor.readOffset := fun hle =>
    hne (by rw [← hdrop]; exact List.drop_eq_nil_of_le hle)
  rw [poll, if_neg hlength]
  simp only [readPass, readNewLines, hdrop]

/-- **A readable poll is at a line end again.** -/
theorem AtLineEnd.poll (h : AtLineEnd previous cursor) (hread : Readable previous chunk) :
    AtLineEnd (previous ++ chunk) (poll (previous ++ chunk) cursor) := by
  have hoffset := congrArg List.length (completePart_append_eq (d := newline) previous chunk)
  have hemitted := completeLines_append_eq previous chunk
  rw [List.length_append, ← h.readOffset] at hoffset
  rw [← h.emitted] at hemitted
  by_cases hne : unterminated newline previous ++ chunk = []
  · -- nothing was appended
    rw [hne] at hoffset hemitted
    have hchunk : chunk = [] := (List.append_eq_nil_iff.mp hne).2
    have hlength : (previous ++ chunk).length ≤ cursor.readOffset := by
      have hpart := completePart_append_unterminated (d := newline) previous
      rw [(List.append_eq_nil_iff.mp hne).1, List.append_nil] at hpart
      rw [hchunk, List.append_nil, h.readOffset, hpart]
    rw [Tail.poll, if_pos hlength]
    rw [completePart_eq_nil.mpr List.not_mem_nil, List.length_nil, Nat.add_zero] at hoffset
    exact ⟨hoffset.symm, by simpa [completeLines] using hemitted.symm⟩
  · rw [h.poll_eq hne]
    by_cases hvalid : ∀ line ∈ lines newline (unterminated newline previous ++ chunk),
        validUtf8 line = true
    · obtain ⟨hevents, hread⟩ := readNewLines_of_valid cursor.readOffset hvalid
      exact ⟨by rw [hread, hoffset]; rfl, by rw [hevents, hemitted]⟩
    · -- a single line, which is not UTF-8: it is retried
      have hnot : newline ∉ unterminated newline previous ++ chunk :=
        hread.resolve_right hvalid
      rw [completeLines_of_notMem hnot, List.append_nil] at hemitted
      rw [completePart_eq_nil.mpr hnot] at hoffset
      have hinvalid : validUtf8 (unterminated newline previous ++ chunk) = false := by
        simpa [lines_of_notMem hne hnot] using hvalid
      rw [lines_of_notMem hne hnot, readLoop, readLine_of_invalid hinvalid]
      exact ⟨by simpa using hoffset.symm, by simpa using hemitted.symm⟩

/-- **The polls that go well are the readable ones.** -/
theorem AtLineEnd.pollExact_iff (h : AtLineEnd previous cursor) :
    PollExact (previous ++ chunk) cursor (Tail.poll (previous ++ chunk) cursor) ↔
      Readable previous chunk := by
  have hdrop : (previous ++ chunk).drop cursor.readOffset =
      unterminated newline previous ++ chunk := by
    rw [h.readOffset]
    exact drop_completePart previous chunk
  constructor
  · intro hexact
    by_contra hread
    obtain ⟨hmem, hinvalid⟩ := not_or.mp hread
    have hne : unterminated newline previous ++ chunk ≠ [] := by
      intro hnil
      simp [hnil] at hmem
    -- the read error leaves the offset where it was
    have hprogress := hexact.2 (by rw [hdrop]; exact not_not.mp hmem)
    rw [h.poll_eq hne, readNewLines_of_invalid cursor.readOffset (by simpa using hinvalid)]
      at hprogress
    exact absurd hprogress (lt_irrefl _)
  · intro hread
    have hafter := h.poll hread
    refine ⟨hafter.emitted, fun hmem => ?_⟩
    rw [hdrop] at hmem
    have hpart : completePart newline (unterminated newline previous ++ chunk) ≠ [] := fun hnil =>
      completePart_eq_nil.mp hnil hmem
    rw [hafter.readOffset, completePart_append_eq, List.length_append, ← h.readOffset]
    have hpos := List.length_pos_of_ne_nil hpart
    omega

end Poll

/-- From a line end, exact polls are readable polls. -/
theorem AtLineEnd.exact_iff {previous : Bytes} {cursor : Cursor} (h : AtLineEnd previous cursor)
    (chunks : List Bytes) : Exact previous cursor chunks ↔ AllReadable previous chunks := by
  induction chunks generalizing previous cursor with
  | nil => exact Iff.rfl
  | cons chunk chunks ih =>
      constructor
      · intro hexact
        have hread := h.pollExact_iff.mp hexact.1
        exact ⟨hread, (ih (h.poll hread)).mp hexact.2⟩
      · intro hall
        exact ⟨h.pollExact_iff.mpr hall.1, (ih (h.poll hall.1)).mpr hall.2⟩

/-- **Each line once, and progress.**  However a growing file is revealed, every poll emits
exactly the new terminated lines and gets past them if and only if at every poll what lies beyond
the last newline known before holds no newline, or only lines that are UTF-8. -/
theorem exact_iff_readable (chunks : List Bytes) :
    Exact [] .start chunks ↔ AllReadable [] chunks :=
  AtLineEnd.start.exact_iff chunks

end Limpid.Tail
