import Limpid.Disk.Model

/-!
# What a cursor still has to read

The abstract view of the directory: `unread` lists, in order, the records a reader placed at a
position finds from there on, over the rest of its segment and the segments after it.  Blank
lines, undecodable lines and unterminated tails are stepped over and do not appear.

Every operation is described by what it does to this list:

* a completed write appends one record, a failed one appends nothing (`Write.lean`);
* `try_read_next` returns the head and leaves the tail (`tryReadNext_spec`);
* removing segments below a position changes nothing for it (`unread_congr`).

`unread_split` is the link between records and cursors: from where a record ends, exactly the
records after it are left.  `unread_suffix` is the link between two cursors: one at a line start
has to read a part of what an earlier one has.
-/

namespace Limpid.Disk

open Limpid.Lines

variable {Event : Type*} (codec : RecordCodec Event)

/-- A decodable record on disk: where it starts, where the next line starts, its event. -/
structure Record (Event : Type*) where
  start : Position
  stop : Position
  event : Event

/-- The records among the lines of a segment, read from `offset`. -/
def scanLines (seq : ℕ) : ℕ → List Bytes → List (Record Event)
  | _, [] => []
  | offset, line :: rest =>
      match decodeLine codec line with
      | none => scanLines seq (offset + line.length) rest
      | some event =>
          ⟨⟨seq, offset⟩, ⟨seq, offset + line.length⟩, event⟩ ::
            scanLines seq (offset + line.length) rest

/-- The records of one segment from `offset` on. -/
def segmentRecords (dir : Dir) (seq offset : ℕ) : List (Record Event) :=
  scanLines codec seq offset (lines newline ((dir.content seq).drop offset))

/-- The records from `position` on, up to and including segment `top`. -/
def unread (dir : Dir) (top : ℕ) (position : Position) : List (Record Event) :=
  segmentRecords codec dir position.seq position.offset ++
    (List.range' (position.seq + 1) (top - position.seq)).flatMap fun seq =>
      segmentRecords codec dir seq 0

/-! ## Positions -/

theorem Position.le_refl (p : Position) : p ≤ p :=
  Or.inr ⟨rfl, le_rfl⟩

theorem Position.le_trans {p q r : Position} (h₁ : p ≤ q) (h₂ : q ≤ r) : p ≤ r := by
  rcases h₁ with h₁ | h₁ <;> rcases h₂ with h₂ | h₂
  · exact Or.inl (by omega)
  · exact Or.inl (by omega)
  · exact Or.inl (by omega)
  · exact Or.inr (by omega)

theorem Position.lt_of_lt_of_le {p q r : Position} (h₁ : p < q) (h₂ : q ≤ r) : p < r := by
  rcases h₁ with h₁ | h₁ <;> rcases h₂ with h₂ | h₂
  · exact Or.inl (by omega)
  · exact Or.inl (by omega)
  · exact Or.inl (by omega)
  · exact Or.inr (by omega)

theorem Position.le_of_lt {p q : Position} (h : p < q) : p ≤ q := by
  rcases h with h | h
  · exact Or.inl h
  · exact Or.inr ⟨h.1, h.2.le⟩

theorem Position.not_lt_of_le {p q : Position} (h : p ≤ q) : ¬ q < p := by
  rcases h with h | h <;> rintro (h' | h') <;> omega

theorem Position.seq_le {p q : Position} (h : p ≤ q) : p.seq ≤ q.seq := by
  rcases h with h | h <;> omega

/-! ## One segment -/

variable {codec}

theorem decodeLine_eq_some {line : Bytes} {event : Event}
    (h : decodeLine codec line = some event) :
    line.getLast? = some newline ∧ codec.parse line = some event := by
  unfold decodeLine at h
  split at h
  · rename_i hline
    exact ⟨hline.1, h⟩
  · cases h

theorem decodeLine_of_incomplete {line : Bytes} (h : line.getLast? ≠ some newline) :
    decodeLine codec line = none :=
  if_neg fun hline => h hline.1

/-- A serialized event is a decodable line. -/
theorem decodeLine_serialize {event : Event} {data : Bytes}
    (h : codec.serialize event = some data) :
    decodeLine codec (data ++ [newline]) = some event := by
  rw [decodeLine, if_pos, codec.parse_serialize h]
  exact ⟨by simp, by simp [codec.not_blank h]⟩

theorem scanLines_append (seq offset : ℕ) (first second : List Bytes) :
    scanLines codec seq offset (first ++ second) =
      scanLines codec seq offset first ++
        scanLines codec seq (offset + first.flatten.length) second := by
  induction first generalizing offset with
  | nil => rfl
  | cons line first ih =>
      have hlen : offset + (line :: first).flatten.length =
          offset + line.length + first.flatten.length := by
        simp [Nat.add_assoc]
      rw [List.cons_append, scanLines, scanLines, hlen, ih]
      cases decodeLine codec line <;> rfl

/-- Where the records of a segment lie. -/
theorem scanLines_bounds {seq offset : ℕ} {ls : List Bytes} {r : Record Event}
    (h : r ∈ scanLines codec seq offset ls) :
    r.start.seq = seq ∧ r.stop.seq = seq ∧ offset ≤ r.start.offset ∧
      r.start.offset < r.stop.offset := by
  induction ls generalizing offset with
  | nil => cases h
  | cons line rest ih =>
      rw [scanLines] at h
      cases hdecode : decodeLine codec line with
      | none =>
          rw [hdecode] at h
          obtain ⟨h₁, h₂, h₃, h₄⟩ := ih h
          exact ⟨h₁, h₂, by omega, h₄⟩
      | some event =>
          have hpos : 0 < line.length := by
            refine List.length_pos_of_ne_nil fun hnil => ?_
            have := (decodeLine_eq_some hdecode).1
            simp [hnil] at this
          rw [hdecode] at h
          rcases List.mem_cons.mp h with rfl | h
          · exact ⟨rfl, rfl, le_rfl, Nat.lt_add_of_pos_right hpos⟩
          · obtain ⟨h₁, h₂, h₃, h₄⟩ := ih h
            exact ⟨h₁, h₂, by omega, h₄⟩

/-- The lines after a record are the ones its `stop` leaves. -/
theorem scanLines_split {seq offset : ℕ} {ls : List Bytes} {before after : List (Record Event)}
    {r : Record Event} (h : scanLines codec seq offset ls = before ++ r :: after) :
    ∃ first rest, ls = first ++ rest ∧ r.stop = ⟨seq, offset + first.flatten.length⟩ ∧
      scanLines codec seq (offset + first.flatten.length) rest = after ∧
      first.flatten.getLast? = some newline := by
  induction ls generalizing offset before with
  | nil => simp [scanLines] at h
  | cons line ls ih =>
      have hlater : ∀ {before}, scanLines codec seq (offset + line.length) ls =
          before ++ r :: after → ∃ first rest, line :: ls = first ++ rest ∧
            r.stop = ⟨seq, offset + first.flatten.length⟩ ∧
            scanLines codec seq (offset + first.flatten.length) rest = after ∧
            first.flatten.getLast? = some newline := by
        intro before hrest
        obtain ⟨first, rest, rfl, hstop, hafter, hlast⟩ := ih hrest
        exact ⟨line :: first, rest, rfl, by simpa [Nat.add_assoc] using hstop,
          by simpa [Nat.add_assoc] using hafter, by simp [List.getLast?_append, hlast]⟩
      rw [scanLines] at h
      cases hdecode : decodeLine codec line with
      | none =>
          rw [hdecode] at h
          exact hlater h
      | some event =>
          rw [hdecode] at h
          cases before with
          | nil =>
              rw [List.nil_append, List.cons.injEq] at h
              exact ⟨[line], ls, rfl, by simp [← h.1], by simpa using h.2,
                by simpa using (decodeLine_eq_some hdecode).1⟩
          | cons b before =>
              rw [List.cons_append, List.cons.injEq] at h
              exact hlater h.2

theorem segmentRecords_split {dir : Dir} {seq offset : ℕ} {before after : List (Record Event)}
    {r : Record Event} (h : segmentRecords codec dir seq offset = before ++ r :: after) :
    segmentRecords codec dir r.stop.seq r.stop.offset = after := by
  obtain ⟨first, rest, hlines, hstop, hafter, -⟩ := scanLines_split h
  rw [hstop, segmentRecords, ← List.drop_drop, lines_drop hlines]
  exact hafter

theorem segmentRecords_eq_nil {dir : Dir} {seq offset : ℕ}
    (h : (dir.content seq).length ≤ offset) : segmentRecords codec dir seq offset = [] := by
  rw [segmentRecords, List.drop_eq_nil_of_le h]
  rfl

/-! ## The whole queue -/

theorem unread_of_top_le {dir : Dir} {top : ℕ} {p : Position} (h : top ≤ p.seq) :
    unread codec dir top p = segmentRecords codec dir p.seq p.offset := by
  simp [unread, Nat.sub_eq_zero_of_le h]

theorem unread_of_lt_top {dir : Dir} {top : ℕ} {p : Position} (h : p.seq < top) :
    unread codec dir top p =
      segmentRecords codec dir p.seq p.offset ++ unread codec dir top ⟨p.seq + 1, 0⟩ := by
  obtain ⟨n, hn⟩ : ∃ n, top - p.seq = n + 1 := ⟨top - p.seq - 1, by omega⟩
  have hrest : top - (p.seq + 1) = n := by omega
  simp [unread, hn, hrest, List.range'_succ]

/-- **From where a record ends, exactly the records after it are left.** -/
theorem unread_split {dir : Dir} {top : ℕ} {p : Position} {before after : List (Record Event)}
    {r : Record Event} (h : unread codec dir top p = before ++ r :: after) :
    unread codec dir top r.stop = after := by
  induction hk : top - p.seq generalizing p before with
  | zero =>
      have htop : top ≤ p.seq := by omega
      rw [unread_of_top_le htop] at h
      have hr : r ∈ segmentRecords codec dir p.seq p.offset := by
        rw [h]
        simp
      have hseq : r.stop.seq = p.seq := (scanLines_bounds hr).2.1
      rw [unread_of_top_le (by omega), segmentRecords_split h]
  | succ k ih =>
      have htop : p.seq < top := by omega
      rw [unread_of_lt_top htop, List.append_eq_append_iff] at h
      rcases h with ⟨mid, rfl, hmid⟩ | ⟨mid, hseg, hmid⟩
      · exact ih hmid (by simp only; omega)
      · cases mid with
        | nil =>
            have hrest : unread codec dir top ⟨p.seq + 1, 0⟩ = [] ++ r :: after := by
              simpa using hmid.symm
            exact ih hrest (by simp only; omega)
        | cons m mid =>
            rw [List.cons_append, List.cons.injEq] at hmid
            obtain ⟨rfl, rfl⟩ := hmid
            have hr : r ∈ segmentRecords codec dir p.seq p.offset := by
              rw [hseg]
              simp
            have hseq : r.stop.seq = p.seq := (scanLines_bounds hr).2.1
            rw [unread_of_lt_top (by omega), segmentRecords_split hseg, hseq]

/-- Where the unread records lie. -/
theorem unread_bounds {dir : Dir} {top : ℕ} {p : Position} {r : Record Event}
    (h : r ∈ unread codec dir top p) :
    p ≤ r.start ∧ r.start < r.stop ∧ r.stop.seq = r.start.seq ∧
      r.start.offset < (dir.content r.start.seq).length := by
  have hlen : ∀ {seq offset}, r ∈ segmentRecords codec dir seq offset →
      r.start.offset < (dir.content r.start.seq).length := by
    intro seq offset hr
    obtain ⟨before, after, hsplit⟩ := List.append_of_mem hr
    obtain ⟨first, rest, hlines, hstop, -, -⟩ := scanLines_split hsplit
    have hb := scanLines_bounds hr
    have hflat := congrArg (fun ls => (List.flatten ls).length) hlines
    simp only [flatten_lines, List.length_drop, List.flatten_append, List.length_append] at hflat
    have hoffset : r.stop.offset = offset + first.flatten.length := by rw [hstop]
    rw [hb.1]
    omega
  rcases List.mem_append.mp h with hr | hr
  · have hb := scanLines_bounds hr
    exact ⟨Or.inr ⟨hb.1.symm, hb.2.2.1⟩, Or.inr ⟨by omega, hb.2.2.2⟩, by omega, hlen hr⟩
  · obtain ⟨seq, hseq, hr⟩ := List.mem_flatMap.mp hr
    have hb := scanLines_bounds hr
    rw [List.mem_range'_1] at hseq
    exact ⟨Or.inl (by omega), Or.inr ⟨by omega, hb.2.2.2⟩, by omega, hlen hr⟩

/-- A record ends before any later one starts. -/
theorem unread_stop_le {dir : Dir} {top : ℕ} {p : Position} {before after : List (Record Event)}
    {r r' : Record Event} (h : unread codec dir top p = before ++ r :: after) (hr' : r' ∈ before) :
    r'.start < r'.stop ∧ r'.stop ≤ r.start := by
  obtain ⟨front, between, rfl⟩ := List.append_of_mem hr'
  rw [List.append_assoc, List.cons_append] at h
  have hnext : r ∈ unread codec dir top r'.stop := by
    rw [unread_split h]
    simp
  have hfirst : r' ∈ unread codec dir top p := by
    rw [h]
    simp
  exact ⟨(unread_bounds hfirst).2.1, (unread_bounds hnext).1⟩

/-- A record starts before any later one ends. -/
theorem unread_start_lt {dir : Dir} {top : ℕ} {p : Position} {before after : List (Record Event)}
    {r r' : Record Event} (h : unread codec dir top p = before ++ r :: after)
    (hr' : r' ∈ before ++ [r]) : r'.start < r.stop := by
  have hr : r ∈ unread codec dir top p := by
    rw [h]
    simp
  have hlast : r.start < r.stop := (unread_bounds hr).2.1
  rcases List.mem_append.mp hr' with hbefore | heq
  · obtain ⟨hstart, hstop⟩ := unread_stop_le h hbefore
    exact Position.lt_of_lt_of_le hstart (Position.le_trans hstop (Position.le_of_lt hlast))
  · rwa [List.mem_singleton.mp heq]

/-- Only the segments from a position on matter to it. -/
theorem unread_congr {dir dir' : Dir} {top : ℕ} {p : Position}
    (h : ∀ seq, p.seq ≤ seq → dir'.content seq = dir.content seq) :
    unread codec dir' top p = unread codec dir top p := by
  unfold unread segmentRecords
  rw [h p.seq le_rfl]
  congr 1
  refine List.flatMap_congr fun seq hseq => ?_
  rw [List.mem_range'_1] at hseq
  rw [h seq (by omega)]

/-- Segments that do not exist do not matter. -/
theorem unread_top {dir : Dir} {top top' : ℕ} {p : Position} (hle : top ≤ top')
    (hp : p.seq ≤ top) (hnone : ∀ seq, top < seq → dir.content seq = []) :
    unread codec dir top' p = unread codec dir top p := by
  obtain ⟨n, hn⟩ : ∃ n, top' - p.seq = (top - p.seq) + n := ⟨top' - top, by omega⟩
  unfold unread
  rw [hn, ← List.range'_append_1, List.flatMap_append]
  have hlater : (List.range' (p.seq + 1 + (top - p.seq)) n).flatMap
      (fun seq => segmentRecords codec dir seq 0) = [] := by
    refine List.flatMap_eq_nil_iff.mpr fun seq hseq => ?_
    rw [List.mem_range'_1] at hseq
    exact segmentRecords_eq_nil (by simp [hnone seq (by omega)])
  rw [hlater, List.append_nil]

/-! ## Cursors -/

/-- The position lies in the bytes of the segments up to `top`. -/
def Within (dir : Dir) (top : ℕ) (p : Position) : Prop :=
  p.seq < top ∨ p.seq = top ∧ p.offset ≤ (dir.content top).length

/-- The position is at the start of a line. -/
def AtLine (dir : Dir) (p : Position) : Prop :=
  Complete newline ((dir.content p.seq).take p.offset)

theorem Within.seq_le {dir : Dir} {top : ℕ} {p : Position} (h : Within dir top p) :
    p.seq ≤ top := by
  rcases h with h | h <;> omega

/-- A position before one within the queue is within it too. -/
theorem Within.of_le {dir : Dir} {top : ℕ} {p q : Position} (hle : q ≤ p)
    (h : Within dir top p) : Within dir top q := by
  rcases hle with hle | hle <;> rcases h with h | h
  · exact Or.inl (by omega)
  · exact Or.inl (by omega)
  · exact Or.inl (by omega)
  · exact Or.inr ⟨by omega, by omega⟩

theorem Within.mono {dir : Dir} {top top' : ℕ} {p : Position} (h : Within dir top p)
    (hle : top ≤ top') : Within dir top' p := by
  rcases Nat.lt_or_eq_of_le hle with hlt | rfl
  · exact Or.inl (lt_of_le_of_lt h.seq_le hlt)
  · exact h

theorem segmentRecords_suffix {dir : Dir} {seq offset offset' : ℕ} (hle : offset' ≤ offset)
    (hline : Complete newline ((dir.content seq).take offset)) :
    segmentRecords codec dir seq offset <:+ segmentRecords codec dir seq offset' := by
  rcases Nat.lt_or_ge (dir.content seq).length offset with hlt | hge
  · rw [segmentRecords_eq_nil hlt.le]
    exact List.nil_suffix
  · have hlen : ((dir.content seq).take offset).length = offset := by simp [hge]
    have hsplit : (dir.content seq).drop offset' =
        ((dir.content seq).take offset).drop offset' ++ (dir.content seq).drop offset := by
      conv_lhs => rw [← List.take_append_drop offset (dir.content seq)]
      rw [List.drop_append, hlen, Nat.sub_eq_zero_of_le hle, List.drop_zero]
    have hdrop : offset' + (((dir.content seq).take offset).drop offset').length = offset := by
      rw [List.length_drop, hlen]
      omega
    unfold segmentRecords
    rw [hsplit, lines_append (complete_drop hline _), scanLines_append, flatten_lines, hdrop]
    exact List.suffix_append _ _

/-- **A cursor at a line start has to read a part of what an earlier cursor has.** -/
theorem unread_suffix {dir : Dir} {top : ℕ} {p q : Position} (hle : q ≤ p)
    (hline : AtLine dir p) (htop : p.seq ≤ top) :
    unread codec dir top p <:+ unread codec dir top q := by
  induction hk : p.seq - q.seq generalizing q with
  | zero =>
      rcases hle with hle | ⟨hseq, hoffset⟩
      · omega
      · obtain ⟨front, hfront⟩ : segmentRecords codec dir p.seq p.offset <:+
          segmentRecords codec dir p.seq q.offset := segmentRecords_suffix hoffset hline
        refine ⟨front, ?_⟩
        unfold unread
        rw [hseq, ← List.append_assoc, hfront]
  | succ k ih =>
      have hlt : q.seq < p.seq := by omega
      rw [unread_of_lt_top (p := q) (by omega)]
      refine (ih ?_ (by simp only; omega)).trans (List.suffix_append _ _)
      rcases Nat.lt_or_eq_of_le (show q.seq + 1 ≤ p.seq from hlt) with h | h
      · exact Or.inl h
      · exact Or.inr ⟨h, Nat.zero_le _⟩

theorem segmentRecords_stop {dir : Dir} {seq offset : ℕ} {r : Record Event}
    (h : r ∈ segmentRecords codec dir seq offset) :
    r.stop.seq = seq ∧ r.stop.offset ≤ (dir.content seq).length ∧ AtLine dir r.stop := by
  obtain ⟨before, after, hsplit⟩ := List.append_of_mem h
  obtain ⟨first, rest, hlines, hstop, -, hlast⟩ := scanLines_split hsplit
  have hflat := congrArg List.flatten hlines
  rw [flatten_lines, List.flatten_append] at hflat
  have hlength := congrArg List.length hflat
  have hpos : 0 < first.flatten.length := by
    refine List.length_pos_of_ne_nil fun hnil => ?_
    simp [hnil] at hlast
  rw [List.length_drop, List.length_append] at hlength
  refine ⟨by rw [hstop], ?_, Or.inr ?_⟩
  · rw [hstop]
    dsimp only
    omega
  · rw [hstop, List.take_add, hflat, List.take_left, List.getLast?_append, hlast]
    rfl

/-- A record ends within the queue, at a line start. -/
theorem unread_stop {dir : Dir} {top : ℕ} {p : Position} {r : Record Event} (hp : p.seq ≤ top)
    (h : r ∈ unread codec dir top p) : Within dir top r.stop ∧ AtLine dir r.stop := by
  have hwithin : ∀ {seq}, seq ≤ top → r.stop.seq = seq →
      r.stop.offset ≤ (dir.content seq).length → Within dir top r.stop := by
    intro seq hle hseq hoffset
    rcases Nat.lt_or_eq_of_le hle with hlt | rfl
    · exact Or.inl (hseq ▸ hlt)
    · exact Or.inr ⟨hseq, hoffset⟩
  rcases List.mem_append.mp h with hr | hr
  · obtain ⟨hseq, hoffset, hline⟩ := segmentRecords_stop hr
    exact ⟨hwithin hp hseq hoffset, hline⟩
  · obtain ⟨seq, hseq, hr⟩ := List.mem_flatMap.mp hr
    rw [List.mem_range'_1] at hseq
    obtain ⟨heq, hoffset, hline⟩ := segmentRecords_stop hr
    exact ⟨hwithin (by omega) heq hoffset, hline⟩

end Limpid.Disk
