import Limpid.Disk.Write

/-!
# Acks

`ack_to` marks the entry that starts at the acked position and pops the acked entries at the
front of the in-flight deque (`ackTo_cases`).  The acked cursor goes to where the last popped
record ends, so what is unread from there is what was unread before less the popped records.
Segments below the new cursor may be removed; nothing from the cursor on is touched
(`Pruned`).

`starts` is the list of the in-flight positions in order.  The results about one call of `ack_to`
are stated in terms of it: a position that is not in flight changes nothing, any other marks its
entry, and the entries that are popped are those at the front all of which are marked.
-/

namespace Limpid.Disk

open Limpid.Lines

variable {Event : Type*} {codec : RecordCodec Event}

/-! ## The in-flight deque -/

/-- Where an event in flight begins and ends. -/
def InFlight.bounds (entry : InFlight) : Position × Position := (entry.start, entry.stop)

/-- Where a record begins and ends. -/
def Record.bounds (r : Record Event) : Position × Position := (r.start, r.stop)

/-- The positions handed out and not popped yet, in the order they were handed out. -/
def DiskQueue.starts (queue : DiskQueue) : List Position :=
  queue.receiver.inFlightPositions.map InFlight.start

/-- An ack of a position that is not in the deque is ignored. -/
theorem markAcked_eq_none {position : Position} {inFlight : List InFlight} :
    markAcked position inFlight = none ↔ position ∉ inFlight.map InFlight.start := by
  induction inFlight with
  | nil => simp [markAcked]
  | cons first rest ih =>
      rw [markAcked, List.map_cons, List.mem_cons]
      split
      · rename_i hstart
        have hposition : position = first.start := by rw [InFlight.start, hstart.1, hstart.2]
        simp [hposition]
      · rename_i hstart
        have hne : position ≠ first.start := by
          rintro rfl
          exact hstart ⟨rfl, rfl⟩
        simp [hne, ih]

/-- Marking changes no bounds. -/
theorem markAcked_bounds {position : Position} {inFlight marked : List InFlight}
    (h : markAcked position inFlight = some marked) :
    marked.map InFlight.bounds = inFlight.map InFlight.bounds := by
  induction inFlight generalizing marked with
  | nil => cases h
  | cons first rest ih =>
      rw [markAcked] at h
      split at h
      · injection h with h
        subst h
        rfl
      · obtain ⟨marked', hmarked', rfl⟩ := Option.map_eq_some_iff.mp h
        simp [ih hmarked']

/-- When the flags say which positions are in `confirmed`, marking adds the acked one.  The
entry marked is the only one at its position. -/
theorem markAcked_flags {position : Position} {inFlight marked : List InFlight}
    {confirmed : List Position} (h : markAcked position inFlight = some marked)
    (hnodup : (inFlight.map InFlight.start).Nodup)
    (hflags : ∀ entry ∈ inFlight, entry.acked = true ↔ entry.start ∈ confirmed) :
    ∀ entry ∈ marked, entry.acked = true ↔ entry.start ∈ confirmed ++ [position] := by
  induction inFlight generalizing marked with
  | nil => cases h
  | cons first rest ih =>
      rw [List.map_cons, List.nodup_cons] at hnodup
      have hrest : ∀ entry ∈ rest, entry.acked = true ↔ entry.start ∈ confirmed :=
        fun entry hentry => hflags entry (List.mem_cons_of_mem _ hentry)
      rw [markAcked] at h
      split at h
      · rename_i hstart
        injection h with h
        subst h
        have hposition : first.start = position := by
          rw [InFlight.start, hstart.1, hstart.2]
        intro entry hentry
        rcases List.mem_cons.mp hentry with rfl | hentry
        · simp only [true_iff]
          exact List.mem_append_right _ (List.mem_singleton.mpr hposition)
        · have hne : entry.start ≠ position := by
            rintro heq
            rw [← hposition] at heq
            exact hnodup.1 (heq ▸ List.mem_map_of_mem hentry)
          rw [hrest entry hentry, List.mem_append, List.mem_singleton, or_iff_left hne]
      · rename_i hstart
        obtain ⟨marked', hmarked', rfl⟩ := Option.map_eq_some_iff.mp h
        intro entry hentry
        rcases List.mem_cons.mp hentry with rfl | hentry
        · have hne : entry.start ≠ position := by
            rintro rfl
            exact hstart ⟨rfl, rfl⟩
          rw [hflags entry (List.mem_cons_self ..), List.mem_append, List.mem_singleton,
            or_iff_left hne]
        · exact ih hmarked' hnodup.2 hrest entry hentry

/-- What is popped is the longest acked prefix, and the position returned is where it ends. -/
theorem popAcked_spec (inFlight : List InFlight) :
    ∃ popped, inFlight = popped ++ (popAcked inFlight).2 ∧
      (∀ entry ∈ popped, entry.acked = true) ∧
      (∀ entry ∈ (popAcked inFlight).2.head?, entry.acked = false) ∧
      (popAcked inFlight).1 = popped.getLast?.map InFlight.stop := by
  induction inFlight with
  | nil => exact ⟨[], rfl, by simp, by simp [popAcked], rfl⟩
  | cons first rest ih =>
      rw [popAcked]
      split
      · rename_i hfirst
        obtain ⟨popped, hrest, hacked, hhead, hlast⟩ := ih
        refine ⟨first :: popped, ?_, ?_, ?_, ?_⟩
        · cases hpop : popAcked rest with
          | mk last left =>
              rw [hpop] at hrest
              cases last <;> simp [hrest]
        · intro entry hentry
          rcases List.mem_cons.mp hentry with rfl | hentry
          · exact hfirst
          · exact hacked entry hentry
        · cases hpop : popAcked rest with
          | mk last left =>
              rw [hpop] at hhead
              cases last <;> exact hhead
        · cases hpop : popAcked rest with
          | mk last left =>
              rw [hpop] at hlast
              cases last with
              | none =>
                  have hnil : popped = [] := by simpa using hlast.symm
                  simp [hnil, InFlight.stop]
              | some last =>
                  have hne : popped ≠ [] := by rintro rfl; simp at hlast
                  obtain ⟨entry, hentry⟩ := Option.ne_none_iff_exists'.mp
                    (by simpa using hne : popped.getLast? ≠ none)
                  rw [hentry] at hlast
                  dsimp only [Option.map_some] at hlast
                  injection hlast with hlast
                  subst hlast
                  simp [List.getLast?_cons, hentry]
      · rename_i hfirst
        exact ⟨[], rfl, by simp, by simpa using hfirst, rfl⟩

/-! ## The ack -/

/-- The receiver with its in-flight deque replaced. -/
def DiskQueue.withInFlight (queue : DiskQueue) (left : List InFlight) : DiskQueue :=
  { queue with receiver := { queue.receiver with inFlightPositions := left } }

/-- **The ways an ack can go**: the position is not in flight, or the longest acked prefix
`popped` is popped, and then the cursor is committed unless it is there already. -/
theorem ackTo_cases (io : AckIo) (position : Position) (queue : DiskQueue) :
    (markAcked position queue.receiver.inFlightPositions = none ∧
      ackTo io position queue = queue) ∨
    ∃ marked popped left, markAcked position queue.receiver.inFlightPositions = some marked ∧
      marked = popped ++ left ∧ (∀ entry ∈ popped, entry.acked = true) ∧
      (∀ entry ∈ left.head?, entry.acked = false) ∧
      ((popped = [] ∧ ackTo io position queue = queue.withInFlight left) ∨
        ∃ last, popped.getLast? = some last ∧
          (last.stop = queue.ackedPosition ∧ ackTo io position queue = queue.withInFlight left ∨
            ackTo io position queue = commit io (queue.withInFlight left) last.stop)) := by
  unfold ackTo
  cases hmark : markAcked position queue.receiver.inFlightPositions with
  | none => exact Or.inl ⟨rfl, rfl⟩
  | some marked =>
      obtain ⟨popped, hsplit, hacked, hhead, hlast⟩ := popAcked_spec marked
      refine Or.inr ⟨marked, popped, (popAcked marked).2, rfl, hsplit, hacked, hhead, ?_⟩
      cases hpop : popAcked marked with
      | mk advanced left =>
          rw [hpop] at hlast
          dsimp only at hlast ⊢
          rw [hpop]
          cases hgot : popped.getLast? with
          | none =>
              rw [hgot] at hlast
              dsimp only [Option.map_none] at hlast
              subst hlast
              exact Or.inl ⟨List.getLast?_eq_none_iff.mp hgot, rfl⟩
          | some last =>
              rw [hgot] at hlast
              dsimp only [Option.map_some] at hlast
              subst hlast
              refine Or.inr ⟨last, rfl, ?_⟩
              dsimp only
              split
              · rename_i hsame
                refine Or.inl ⟨?_, rfl⟩
                rw [DiskQueue.ackedPosition, ← hsame.1, ← hsame.2]
              · exact Or.inr rfl

/-- Entries with the same bounds start at the same positions. -/
theorem starts_of_bounds {queue : DiskQueue} {popped left : List InFlight}
    (hbounds : (popped ++ left).map InFlight.bounds =
      queue.receiver.inFlightPositions.map InFlight.bounds) :
    queue.starts = popped.map InFlight.start ++ left.map InFlight.start := by
  have hmap := congrArg (List.map Prod.fst) hbounds.symm
  rwa [List.map_map, List.map_map, List.map_append] at hmap

/-! ## The commit -/

@[simp] theorem content_saveCursor (saved : Bool) (dir : Dir) (position : Position) (seq : ℕ) :
    (saveCursor saved dir position).content seq = dir.content seq := by
  unfold saveCursor
  split <;> rfl

@[simp] theorem segments_saveCursor (saved : Bool) (dir : Dir) (position : Position) :
    (saveCursor saved dir position).segments = dir.segments := by
  unfold saveCursor
  split <;> rfl

theorem loadCursor_congr {dir dir' : Dir} (h : dir'.cursor = dir.cursor) :
    loadCursor dir' = loadCursor dir := by
  rw [loadCursor, h, loadCursor]

/-- The segments after a commit. -/
theorem commit_dir (io : AckIo) (queue : DiskQueue) (position : Position) :
    ∃ pruned, Pruned position.seq queue.dir pruned ∧
      (commit io queue position).dir = saveCursor io.cursorSaved pruned position := by
  refine ⟨_, Pruned.foldl_removeFile io.removable queue.dir fun seq hseq => ?_, rfl⟩
  rw [List.mem_range'_1] at hseq
  omega

theorem content_commit (io : AckIo) (queue : DiskQueue) {position : Position} {seq : ℕ}
    (hle : position.seq ≤ seq) :
    (commit io queue position).dir.content seq = queue.dir.content seq := by
  obtain ⟨pruned, hpruned, hdir⟩ := commit_dir io queue position
  rw [hdir, content_saveCursor, hpruned.content_eq hle]

theorem content_commit_or (io : AckIo) (queue : DiskQueue) (position : Position) (seq : ℕ) :
    (commit io queue position).dir.content seq = [] ∨
      (commit io queue position).dir.content seq = queue.dir.content seq := by
  obtain ⟨pruned, hpruned, hdir⟩ := commit_dir io queue position
  rw [hdir, content_saveCursor]
  exact hpruned.content_or seq

theorem mem_commit (io : AckIo) (queue : DiskQueue) {position : Position} {seq : ℕ}
    (hle : position.seq ≤ seq) :
    seq ∈ (commit io queue position).dir.segments ↔ seq ∈ queue.dir.segments := by
  obtain ⟨pruned, hpruned, hdir⟩ := commit_dir io queue position
  rw [hdir, segments_saveCursor, hpruned.mem_iff hle]

theorem mem_of_mem_commit {io : AckIo} {queue : DiskQueue} {position : Position} {seq : ℕ}
    (h : seq ∈ (commit io queue position).dir.segments) : seq ∈ queue.dir.segments := by
  obtain ⟨pruned, hpruned, hdir⟩ := commit_dir io queue position
  rw [hdir, segments_saveCursor] at h
  exact hpruned.mem_of_mem h

/-- The cursor file after a commit: the new position if it could be written. -/
theorem loadCursor_commit (io : AckIo) (queue : DiskQueue) (position : Position) :
    loadCursor (commit io queue position).dir =
      if io.cursorSaved then position else loadCursor queue.dir := by
  obtain ⟨pruned, hpruned, hdir⟩ := commit_dir io queue position
  rw [hdir]
  cases io.cursorSaved with
  | true => exact loadCursor_saveCursor pruned position
  | false => exact loadCursor_congr hpruned.cursor_eq

/-! ## Segment numbers -/

theorem le_maxSeq {dir : Dir} {seq : ℕ} (h : seq ∈ dir.segments) : seq ≤ maxSeq dir := by
  have hfold : ∀ (keys : List ℕ) (init : ℕ), init ≤ keys.foldl max init ∧
      ∀ key ∈ keys, key ≤ keys.foldl max init := by
    intro keys
    induction keys with
    | nil => simp
    | cons key keys ih =>
        intro init
        obtain ⟨hinit, hkeys⟩ := ih (max init key)
        refine ⟨(le_max_left init key).trans hinit, fun other hother => ?_⟩
        rcases List.mem_cons.mp hother with rfl | hother
        · exact (le_max_right init other).trans hinit
        · exact hkeys other hother
  exact (hfold dir.segments.keys 0).2 seq h

theorem maxSeq_mem (dir : Dir) : maxSeq dir = 0 ∨ maxSeq dir ∈ dir.segments := by
  have hfold : ∀ (keys : List ℕ) (init : ℕ), keys.foldl max init = init ∨
      keys.foldl max init ∈ keys := by
    intro keys
    induction keys with
    | nil => simp
    | cons key keys ih =>
        intro init
        rcases ih (max init key) with h | h
        · rw [List.foldl_cons, h]
          rcases Nat.le_total init key with hle | hle
          · rw [max_eq_right hle]
            exact Or.inr (List.mem_cons_self ..)
          · exact Or.inl (max_eq_left hle)
        · exact Or.inr (List.mem_cons_of_mem _ h)
  exact hfold dir.segments.keys 0

/-- Keeping the segments from `floor` on keeps the highest one. -/
theorem maxSeq_le_of_kept {dir later : Dir} {floor : ℕ}
    (hkept : ∀ seq, floor ≤ seq → seq ∈ dir.segments → seq ∈ later.segments)
    (hfloor : floor ≤ maxSeq dir) : maxSeq dir ≤ maxSeq later := by
  rcases maxSeq_mem dir with h | h
  · omega
  · exact le_maxSeq (hkept _ hfloor h)

theorem content_of_maxSeq_lt {dir : Dir} {seq : ℕ} (h : maxSeq dir < seq) :
    dir.content seq = [] :=
  content_eq_nil fun hmem => absurd (le_maxSeq hmem) (by omega)

end Limpid.Disk
