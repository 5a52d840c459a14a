import Mathlib.Data.List.Basic
import Mathlib.Data.List.DropRight

/-!
# Delimited lines

A byte stream read line by line: `takeLine` is what one `read_until` call returns, and
`lines` is what the calls return when they are repeated to the end of the stream.  Every
line but the last ends in the delimiter; the last one may be cut short.

A stream is `Complete` when it is empty or ends in the delimiter.  Cutting a stream after a
complete part is invisible to a line reader (`lines_append`), which is what lets an appender
and a reader share one file.
-/

namespace Limpid.Lines

variable {α : Type*} [DecidableEq α] (d : α)

/-- Everything up to and including the first delimiter, or the whole stream when it has
none. -/
def takeLine : List α → List α
  | [] => []
  | a :: rest => if a = d then [a] else a :: takeLine rest

/-- The successive lines of a stream. -/
def lines : List α → List (List α)
  | [] => []
  | a :: rest =>
      if a = d then [a] :: lines rest
      else match lines rest with
        | [] => [[a]]
        | line :: more => (a :: line) :: more

/-- The stream is empty or ends in the delimiter. -/
def Complete (stream : List α) : Prop :=
  stream = [] ∨ stream.getLast? = some d

instance (stream : List α) : Decidable (Complete d stream) :=
  inferInstanceAs (Decidable (_ ∨ _))

variable {d}

@[simp] theorem takeLine_nil : takeLine d [] = [] := rfl

@[simp] theorem lines_nil : lines d [] = [] := rfl

omit [DecidableEq α] in
@[simp] theorem complete_nil : Complete d [] := Or.inl rfl

omit [DecidableEq α] in
theorem complete_append_singleton (stream : List α) : Complete d (stream ++ [d]) :=
  Or.inr (by simp)

omit [DecidableEq α] in
theorem complete_append {first second : List α} (h₁ : Complete d first)
    (h₂ : Complete d second) : Complete d (first ++ second) := by
  rcases h₂ with rfl | h₂
  · simpa using h₁
  · exact Or.inr (by simp [List.getLast?_append, h₂])

omit [DecidableEq α] in
/-- A suffix of a complete stream is complete. -/
theorem complete_drop {stream : List α} (h : Complete d stream) (n : ℕ) :
    Complete d (stream.drop n) := by
  rcases h with rfl | h
  · simp
  · by_cases hn : n < stream.length
    · exact Or.inr (by rw [List.getLast?_drop, if_neg (by omega), h])
    · exact Or.inl (List.drop_eq_nil_of_le (by omega))

omit [DecidableEq α] in
/-- What follows a complete stream's beginning ends the way the stream does. -/
theorem complete_of_complete_append {first second : List α}
    (h : Complete d (first ++ second)) : Complete d second := by
  simpa using complete_drop h first.length

/-! ## One line -/

theorem takeLine_append_drop (stream : List α) :
    takeLine d stream ++ stream.drop (takeLine d stream).length = stream := by
  induction stream with
  | nil => rfl
  | cons a rest ih =>
      by_cases h : a = d
      · simp [takeLine, h]
      · simpa [takeLine, h] using ih

theorem takeLine_eq_nil {stream : List α} : takeLine d stream = [] ↔ stream = [] := by
  cases stream with
  | nil => simp
  | cons a rest => by_cases h : a = d <;> simp [takeLine, h]

theorem takeLine_of_notMem {stream : List α} (h : d ∉ stream) : takeLine d stream = stream := by
  induction stream with
  | nil => rfl
  | cons a rest ih =>
      rw [List.mem_cons, not_or] at h
      simp [takeLine, Ne.symm h.1, ih h.2]

/-- A line is found by its delimiter, whatever comes after it. -/
theorem takeLine_append_delim {line : List α} (h : d ∉ line) (rest : List α) :
    takeLine d (line ++ d :: rest) = line ++ [d] := by
  induction line with
  | nil => simp [takeLine]
  | cons a line ih =>
      rw [List.mem_cons, not_or] at h
      simp [takeLine, Ne.symm h.1, ih h.2]

theorem takeLine_append_of_mem {first : List α} (h : d ∈ first) (second : List α) :
    takeLine d (first ++ second) = takeLine d first := by
  induction first with
  | nil => exact absurd h List.not_mem_nil
  | cons a first ih =>
      by_cases ha : a = d
      · simp [takeLine, ha]
      · have hmem : d ∈ first := (List.mem_cons.mp h).resolve_left (Ne.symm ha)
        simp [takeLine, ha, ih hmem]

theorem takeLine_append_of_notMem {first : List α} (h : d ∉ first) (second : List α) :
    takeLine d (first ++ second) = first ++ takeLine d second := by
  induction first with
  | nil => rfl
  | cons a first ih =>
      rw [List.mem_cons, not_or] at h
      simp [takeLine, Ne.symm h.1, ih h.2]

/-- A line is its own first line. -/
theorem takeLine_takeLine (stream : List α) :
    takeLine d (takeLine d stream) = takeLine d stream := by
  induction stream with
  | nil => rfl
  | cons a rest ih =>
      by_cases ha : a = d
      · simp [takeLine, ha]
      · simp [takeLine, ha, ih]

theorem length_takeLine_le (stream : List α) : (takeLine d stream).length ≤ stream.length := by
  have hlength := congrArg List.length (takeLine_append_drop (d := d) stream)
  rw [List.length_append] at hlength
  omega

/-- A line that does not end in the delimiter is everything that was left. -/
theorem takeLine_eq_self_of_incomplete {stream : List α}
    (h : (takeLine d stream).getLast? ≠ some d) : takeLine d stream = stream ∧ d ∉ stream := by
  induction stream with
  | nil => simp
  | cons a rest ih =>
      by_cases ha : a = d
      · simp [takeLine, ha] at h
      · by_cases hrest : rest = []
        · simp [takeLine, ha, hrest, Ne.symm ha]
        · have hline : takeLine d rest ≠ [] := by simpa [takeLine_eq_nil] using hrest
          obtain ⟨x, xs, hx⟩ := List.exists_cons_of_ne_nil hline
          have hlast : (takeLine d rest).getLast? ≠ some d := by
            simpa [takeLine, ha, hx] using h
          obtain ⟨heq, hnot⟩ := ih hlast
          exact ⟨by simp [takeLine, ha, heq], by simp [Ne.symm ha, hnot]⟩

/-! ## All lines -/

theorem lines_cons_eq_takeLine {stream : List α} (h : stream ≠ []) :
    lines d stream =
      takeLine d stream :: lines d (stream.drop (takeLine d stream).length) := by
  induction stream with
  | nil => exact absurd rfl h
  | cons a rest ih =>
      by_cases ha : a = d
      · simp [lines, takeLine, ha]
      · by_cases hrest : rest = []
        · simp [lines, takeLine, ha, hrest]
        · simp [lines, takeLine, ha, ih hrest]

theorem lines_eq_nil {stream : List α} : lines d stream = [] ↔ stream = [] := by
  constructor
  · intro h
    by_contra hne
    rw [lines_cons_eq_takeLine hne] at h
    exact absurd h (by simp)
  · rintro rfl
    rfl

/-- The lines put back together are the stream. -/
theorem flatten_lines (stream : List α) : (lines d stream).flatten = stream := by
  induction stream with
  | nil => rfl
  | cons a rest ih =>
      by_cases ha : a = d
      · simp [lines, ha, ih]
      · cases hlines : lines d rest with
        | nil => simp [lines, ha, lines_eq_nil.mp hlines]
        | cons line more => simpa [lines, ha, hlines] using ih

theorem lines_of_notMem {stream : List α} (hne : stream ≠ []) (h : d ∉ stream) :
    lines d stream = [stream] := by
  rw [lines_cons_eq_takeLine hne, takeLine_of_notMem h]
  simp

theorem lines_append_delim {line : List α} (h : d ∉ line) :
    lines d (line ++ [d]) = [line ++ [d]] := by
  rw [lines_cons_eq_takeLine (by simp), takeLine_append_delim h]
  simp

/-- Dropping the first few lines of a stream leaves the others. -/
theorem lines_drop {stream : List α} {first rest : List (List α)}
    (h : lines d stream = first ++ rest) :
    lines d (stream.drop first.flatten.length) = rest := by
  induction first generalizing stream with
  | nil => simpa using h
  | cons line first ih =>
      have hne : stream ≠ [] := by
        rintro rfl
        simp at h
      rw [lines_cons_eq_takeLine hne, List.cons_append, List.cons.injEq] at h
      rw [List.flatten_cons, List.length_append, ← List.drop_drop, ← h.1]
      exact ih h.2

/-- **A cut after a complete part is invisible to a line reader.** -/
theorem lines_append {first : List α} (h : Complete d first) (second : List α) :
    lines d (first ++ second) = lines d first ++ lines d second := by
  induction first with
  | nil => rfl
  | cons a rest ih =>
      have hrest : Complete d rest := by
        have hcons : Complete d ([a] ++ rest) := by simpa using h
        exact complete_of_complete_append hcons
      by_cases ha : a = d
      · simp [lines, ha, ih hrest]
      · cases hlines : lines d rest with
        | nil =>
            -- the delimiter cannot be the last element of `[a]`
            rw [lines_eq_nil] at hlines
            subst hlines
            exact absurd h (by simp [Complete, ha])
        | cons line more => simp [lines, ha, ih hrest, hlines]

/-- In a complete stream every line ends in the delimiter. -/
theorem getLast?_of_mem_lines {stream : List α} (h : Complete d stream) {line : List α}
    (hline : line ∈ lines d stream) : line.getLast? = some d := by
  induction stream generalizing line with
  | nil => simp at hline
  | cons a rest ih =>
      have hrest : Complete d rest := by
        have hcons : Complete d ([a] ++ rest) := by simpa using h
        exact complete_of_complete_append hcons
      by_cases ha : a = d
      · simp only [lines, ha, ↓reduceIte, List.mem_cons] at hline
        rcases hline with rfl | hline
        · rfl
        · exact ih hrest hline
      · cases hlines : lines d rest with
        | nil =>
            rw [lines_eq_nil] at hlines
            subst hlines
            exact absurd h (by simp [Complete, ha])
        | cons first more =>
            have hfirst : first.getLast? = some d := ih hrest (by simp [hlines])
            simp only [lines, ha, ↓reduceIte, hlines, List.mem_cons] at hline
            rcases hline with rfl | hline
            · simp [List.getLast?_cons, hfirst]
            · exact ih hrest (by simp [hlines, hline])

/-! ## The complete part and the unterminated tail -/

variable (d) in
/-- Everything up to and including the last delimiter. -/
def completePart (stream : List α) : List α := stream.rdropWhile (· ≠ d)

variable (d) in
/-- What follows the last delimiter. -/
def unterminated (stream : List α) : List α := stream.rtakeWhile (· ≠ d)

theorem completePart_append_unterminated (stream : List α) :
    completePart d stream ++ unterminated d stream = stream :=
  List.rdropWhile_append_rtakeWhile

theorem complete_completePart (stream : List α) : Complete d (completePart d stream) := by
  by_cases h : completePart d stream = []
  · exact Or.inl h
  · have hlast : (completePart d stream).getLast h = d := by
      have hlast := List.rdropWhile_last_not (· ≠ d) stream h
      rwa [decide_eq_true_eq, not_not] at hlast
    exact Or.inr (by rw [List.getLast?_eq_getLast_of_ne_nil h, hlast])

theorem notMem_unterminated (stream : List α) : d ∉ unterminated d stream := by
  intro h
  simpa using List.mem_rtakeWhile_imp h

theorem unterminated_eq_nil {stream : List α} (h : Complete d stream) :
    unterminated d stream = [] := by
  rcases h with rfl | h
  · rfl
  · refine (List.rtakeWhile_eq_nil_iff).mpr fun hne => ?_
    rw [List.getLast?_eq_getLast_of_ne_nil hne, Option.some.injEq] at h
    simp [h]

theorem completePart_eq_nil {stream : List α} : completePart d stream = [] ↔ d ∉ stream := by
  constructor
  · intro h
    have heq := completePart_append_unterminated (d := d) stream
    rw [h, List.nil_append] at heq
    rw [← heq]
    exact notMem_unterminated stream
  · intro h
    refine List.rdropWhile_eq_nil_iff.mpr fun a ha => ?_
    have hne : a ≠ d := by
      rintro rfl
      exact h ha
    simpa using hne

/-- The complete part is cut where the stream is. -/
theorem completePart_append {first : List α} (h : Complete d first) (second : List α) :
    completePart d (first ++ second) = first ++ completePart d second := by
  have hfirst : first.rdropWhile (· ≠ d) = first := by
    have heq := completePart_append_unterminated (d := d) first
    rwa [unterminated_eq_nil h, List.append_nil] at heq
  unfold completePart at *
  simp only [List.rdropWhile, List.reverse_append, List.dropWhile_append] at *
  split
  · next hnil => simp_all
  · simp

omit [DecidableEq α] in
private theorem append_of_eq {complete tail first : List α} (h : complete ++ tail = first)
    (second : List α) : first ++ second = complete ++ (tail ++ second) := by
  rw [← h, List.append_assoc]

/-- What is appended to a stream continues its tail. -/
theorem append_eq_completePart (first second : List α) :
    first ++ second = completePart d first ++ (unterminated d first ++ second) :=
  append_of_eq (completePart_append_unterminated first) second

theorem drop_completePart (first second : List α) :
    (first ++ second).drop (completePart d first).length = unterminated d first ++ second := by
  rw [append_eq_completePart (d := d) first second, List.drop_left]

theorem completePart_append_eq (first second : List α) :
    completePart d (first ++ second) =
      completePart d first ++ completePart d (unterminated d first ++ second) := by
  rw [append_eq_completePart (d := d) first second,
    completePart_append (complete_completePart first)]

/-- The tail is the last line when it is there. -/
theorem lines_eq_completePart (stream : List α) :
    lines d stream =
      lines d (completePart d stream) ++
        if unterminated d stream = [] then [] else [unterminated d stream] := by
  have heq := lines_append (complete_completePart (d := d) stream) (unterminated d stream)
  rw [completePart_append_unterminated] at heq
  rw [heq]
  split
  · next hnil => rw [hnil, lines_nil]
  · next hnil => rw [lines_of_notMem hnil (notMem_unterminated stream)]

/-! ## Several delimiters

The lines of a stream without their delimiters, and what follows the last one. -/

section Split

variable (p : α → Bool)

/-- The lines that are ended, and what follows the last of them. -/
def splitLines : List α → List (List α) × List α
  | [] => ([], [])
  | a :: rest =>
      if p a then ([] :: (splitLines rest).1, (splitLines rest).2)
      else match splitLines rest with
        | ([], tail) => ([], a :: tail)
        | (line :: more, tail) => ((a :: line) :: more, tail)

variable {p}

omit [DecidableEq α] in
theorem splitLines_of_none {stream : List α} (h : ∀ a ∈ stream, p a = false) :
    splitLines p stream = ([], stream) := by
  induction stream with
  | nil => rfl
  | cons a rest ih =>
      rw [List.forall_mem_cons] at h
      simp only [splitLines, h.1, ih h.2, Bool.false_eq_true, ↓reduceIte]

omit [DecidableEq α] in
theorem splitLines_append {line : List α} (h : ∀ a ∈ line, p a = false) {d : α} (hd : p d = true)
    (rest : List α) :
    splitLines p (line ++ d :: rest) =
      (line :: (splitLines p rest).1, (splitLines p rest).2) := by
  induction line with
  | nil => simp only [List.nil_append, splitLines, hd, ↓reduceIte]
  | cons a line ih =>
      rw [List.forall_mem_cons] at h
      simp only [List.cons_append, splitLines, h.1, ih h.2, Bool.false_eq_true, ↓reduceIte]

omit [DecidableEq α] in
/-- A stream without a delimiter, or a line and the rest. -/
theorem exists_split (p : α → Bool) (stream : List α) :
    (∀ a ∈ stream, p a = false) ∨
      ∃ line d rest, stream = line ++ d :: rest ∧ (∀ a ∈ line, p a = false) ∧ p d = true := by
  induction stream with
  | nil => exact Or.inl fun a h => absurd h List.not_mem_nil
  | cons a rest ih =>
      cases ha : p a with
      | true => exact Or.inr ⟨[], a, rest, rfl, fun b h => absurd h List.not_mem_nil, ha⟩
      | false =>
          rcases ih with hnone | ⟨line, d, more, rfl, hline, hd⟩
          · exact Or.inl (List.forall_mem_cons.mpr ⟨ha, hnone⟩)
          · exact Or.inr ⟨a :: line, d, more, rfl, List.forall_mem_cons.mpr ⟨ha, hline⟩, hd⟩

omit [DecidableEq α] in
theorem findIdx?_of_none {line : List α} (h : ∀ a ∈ line, p a = false) :
    line.findIdx? p = none :=
  List.findIdx?_eq_none_iff.mpr h

omit [DecidableEq α] in
theorem findIdx?_append_delim {line : List α} (h : ∀ a ∈ line, p a = false) {d : α}
    (hd : p d = true) (rest : List α) : (line ++ d :: rest).findIdx? p = some line.length := by
  rw [List.findIdx?_append, findIdx?_of_none h, List.findIdx?_cons, hd]
  simp

omit [DecidableEq α] in
/-- The first piece of a stream is a part of the first line, or contains it with its delimiter. -/
theorem split_of_append {piece others line rest : List α} {d : α}
    (h : piece ++ others = line ++ d :: rest) :
    (∃ more, line = piece ++ more ∧ others = more ++ d :: rest) ∨
      ∃ ahead, piece = line ++ d :: ahead ∧ rest = ahead ++ others := by
  rcases List.append_eq_append_iff.mp h with ⟨more, hline, hothers⟩ | ⟨ahead, hpiece, hrest⟩
  · exact Or.inl ⟨more, hline, hothers⟩
  · cases ahead with
    | nil => exact Or.inl ⟨[], by rw [hpiece, List.append_nil, List.append_nil], hrest.symm⟩
    | cons b ahead =>
        obtain ⟨rfl, rfl⟩ := List.cons.inj hrest
        exact Or.inr ⟨ahead, hpiece, rfl⟩

end Split

end Limpid.Lines
