import Limpid.Lines
import Limpid.Syslog.Octet

/-!
# Non-transparent framing

A line is at most `maxMessageSize` bytes as long as its delimiter has not been seen.  The check is
made when a piece without a delimiter is added; the piece that ends the line is added unchecked.
So a line that is too long by less than the size of the read buffer is refused or taken depending
on where the stream is cut.

`messages limit` is what a reader sends that refuses the lines longer than `limit`.  Every reader
sends something between `messages maxMessageSize` and `messages (maxMessageSize + capacity - 1)`
(`messages_prefix`), and some cuts reach the two ends.  So the cut does not matter exactly when
the two ends meet, and they meet exactly when no line in between is reached that could change what
is sent (`Steady`).
-/

namespace Limpid.Syslog

open Limpid.Wire Limpid.Lines

/-- The reads that fill a buffer of `capacity` bytes with a stream. -/
structure Cut (capacity : ℕ) (stream : Bytes) (reader : Reader) : Prop where
  flatten : reader.flatten = stream
  pieces : ∀ piece ∈ reader, piece.length ≤ capacity

theorem Cut.tail {capacity : ℕ} {stream piece : Bytes} {reader : Reader}
    (h : Cut capacity stream (piece :: reader)) : Cut capacity reader.flatten reader :=
  ⟨rfl, fun p hp => h.pieces p (List.mem_cons_of_mem piece hp)⟩

/-! ## One line -/

/-- A text without a delimiter is taken as a whole unless it is too long. -/
theorem readUntilDelimiter_of_none {buf : Bytes} {reader : Reader}
    (h : ∀ b ∈ reader.flatten, isDelimiter b = false) (hbuf : buf.length ≤ maxMessageSize) :
    readUntilDelimiter buf reader =
      if maxMessageSize < buf.length + reader.flatten.length then .error (.framingError .tooLarge)
      else .ok ((false, buf ++ reader.flatten), []) := by
  induction reader generalizing buf with
  | nil =>
      rw [List.flatten_nil, List.length_nil, Nat.add_zero, if_neg (by omega), List.append_nil]
      rfl
  | cons available reader ih =>
      rw [List.flatten_cons] at h
      have havailable : ∀ b ∈ available, isDelimiter b = false :=
        fun b hb => h b (List.mem_append_left _ hb)
      have hreader : ∀ b ∈ reader.flatten, isDelimiter b = false :=
        fun b hb => h b (List.mem_append_right _ hb)
      rw [List.flatten_cons, List.length_append, readUntilDelimiter, findIdx?_of_none havailable]
      split
      · next hnil =>
          rw [ih hreader hbuf, hnil, List.length_nil, Nat.zero_add, List.nil_append]
      · dsimp only
        split
        · next hlong => rw [if_pos (by omega)]
        · next hshort =>
            have hlength : (buf ++ available).length ≤ maxMessageSize := by
              rw [List.length_append]
              omega
            rw [ih hreader hlength, List.length_append, List.append_assoc, Nat.add_assoc]

/-- A line that ends in a delimiter is taken or refused.  It is taken if it is short enough, and
refused if it is too long by the size of the buffer. -/
theorem readUntilDelimiter_line {capacity : ℕ} {buf line rest : Bytes} {d : UInt8}
    {reader : Reader} (hline : ∀ b ∈ line, isDelimiter b = false) (hd : isDelimiter d = true)
    (hcut : Cut capacity (line ++ d :: rest) reader) (hbuf : buf.length ≤ maxMessageSize) :
    (readUntilDelimiter buf reader = .error (.framingError .tooLarge) ∧
        maxMessageSize < buf.length + line.length) ∨
      ∃ reader', readUntilDelimiter buf reader = .ok ((true, buf ++ line), reader') ∧
        Cut capacity rest reader' ∧ buf.length + line.length < maxMessageSize + capacity := by
  induction reader generalizing buf line with
  | nil =>
      -- the delimiter is still to come, so the stream has not ended
      have hflatten := hcut.flatten
      exact absurd hflatten (by simp)
  | cons available reader ih =>
      have hflatten : available ++ reader.flatten = line ++ d :: rest := hcut.flatten
      have hpieces : ∀ piece ∈ reader, piece.length ≤ capacity := hcut.tail.pieces
      rw [readUntilDelimiter]
      rcases split_of_append hflatten with ⟨more, rfl, hmore⟩ | ⟨ahead, rfl, rfl⟩
      · -- the piece is a part of the line
        have havailable : ∀ b ∈ available, isDelimiter b = false :=
          fun b hb => hline b (List.mem_append_left _ hb)
        have hrest : ∀ b ∈ more, isDelimiter b = false :=
          fun b hb => hline b (List.mem_append_right _ hb)
        rw [List.length_append]
        split
        · next hnil =>
            subst hnil
            rcases ih hrest ⟨hmore, hpieces⟩ hbuf with ⟨herror, hlong⟩ | ⟨reader', hok, hcut', hlt⟩
            · exact Or.inl ⟨herror, by rw [List.length_nil]; omega⟩
            · exact Or.inr ⟨reader', hok, hcut', by rw [List.length_nil]; omega⟩
        · rw [findIdx?_of_none havailable]
          dsimp only
          split
          · next hlong => exact Or.inl ⟨rfl, by omega⟩
          · next hshort =>
              have hlength : (buf ++ available).length ≤ maxMessageSize := by
                rw [List.length_append]
                omega
              rcases ih hrest ⟨hmore, hpieces⟩ hlength with
                ⟨herror, hlong⟩ | ⟨reader', hok, hcut', hlt⟩
              · rw [List.length_append] at hlong
                exact Or.inl ⟨herror, by omega⟩
              · rw [List.length_append] at hlt
                rw [List.append_assoc] at hok
                exact Or.inr ⟨reader', hok, hcut', by omega⟩
      · -- the piece contains the delimiter, and the limit is not checked
        have hpiece := hcut.pieces _ List.mem_cons_self
        rw [List.length_append, List.length_cons] at hpiece
        have htake : (line ++ d :: ahead).take line.length = line := List.take_left
        have hdrop : (line ++ d :: ahead).drop (line.length + 1) = ahead := by
          rw [← List.drop_drop, List.drop_left]
          rfl
        rw [if_neg (by simp), findIdx?_append_delim hline hd]
        dsimp only
        rw [htake, hdrop]
        refine Or.inr ⟨_, rfl, ⟨rfl, ?_⟩, by omega⟩
        exact List.forall_mem_cons.mpr ⟨by omega, hpieces⟩

/-! ## The loop -/

/-- What is sent for a text, and after it. -/
def sends (buf : Bytes) (more : List Bytes) : List Bytes :=
  match messageOf buf with
  | .error _ => []
  | .ok sent => sent.toList ++ more

theorem sends_prefix (buf : Bytes) {more more' : List Bytes} (h : more <+: more') :
    sends buf more <+: sends buf more' := by
  unfold sends
  cases messageOf buf with
  | error e => exact List.prefix_rfl
  | ok sent => exact (List.prefix_append_right_inj _).mpr h

/-- What a reader sends that refuses the lines longer than `limit`. -/
def messages (limit : ℕ) : List Bytes → Bytes → List Bytes
  | [], tail => if maxMessageSize < tail.length then [] else sends tail []
  | line :: rest, tail =>
      if limit < line.length then [] else sends line (messages limit rest tail)

/-- The messages of a stream under a limit. -/
def messagesOf (limit : ℕ) (stream : Bytes) : List Bytes :=
  messages limit (splitLines isDelimiter stream).1 (splitLines isDelimiter stream).2

section Loop

variable {reader rest : Reader} {buf : Bytes}

theorem readNonTransparent_of_error {reason : CloseReason}
    (h : readUntilDelimiter [] reader = .error reason) : (readNonTransparent reader).1 = [] := by
  rw [readNonTransparent]
  split
  · rfl
  · next h' => rw [h] at h'; exact absurd h' (by simp)
  · next h' => rw [h] at h'; exact absurd h' (by simp)

theorem readNonTransparent_of_end (h : readUntilDelimiter [] reader = .ok ((false, buf), rest)) :
    (readNonTransparent reader).1 = sends buf [] := by
  rw [readNonTransparent]
  split
  · next h' => rw [h] at h'; exact absurd h' (by simp)
  · next buf' rest' h' =>
      rw [h] at h'
      obtain ⟨hbuf, -⟩ := Prod.mk.inj (Except.ok.inj h')
      obtain ⟨-, rfl⟩ := Prod.mk.inj hbuf
      unfold sends
      cases messageOf buf with
      | error e => rfl
      | ok sent => exact (List.append_nil _).symm
  · next h' => rw [h] at h'; exact absurd h' (by simp)

theorem readNonTransparent_of_line (h : readUntilDelimiter [] reader = .ok ((true, buf), rest)) :
    (readNonTransparent reader).1 = sends buf (readNonTransparent rest).1 := by
  rw [readNonTransparent]
  split
  · next h' => rw [h] at h'; exact absurd h' (by simp)
  · next h' => rw [h] at h'; exact absurd h' (by simp)
  · next buf' rest' h' =>
      rw [h] at h'
      obtain ⟨hbuf, rfl⟩ := Prod.mk.inj (Except.ok.inj h')
      obtain ⟨-, rfl⟩ := Prod.mk.inj hbuf
      unfold sends
      cases messageOf buf <;> rfl

theorem readNonTransparent_congr {reader' : Reader}
    (h : readUntilDelimiter [] reader = readUntilDelimiter [] reader') :
    (readNonTransparent reader).1 = (readNonTransparent reader').1 := by
  cases hread : readUntilDelimiter [] reader' with
  | error reason =>
      rw [readNonTransparent_of_error hread, readNonTransparent_of_error (h.trans hread)]
  | ok result =>
      obtain ⟨⟨ended, buf⟩, rest⟩ := result
      cases ended with
      | false => rw [readNonTransparent_of_end hread, readNonTransparent_of_end (h.trans hread)]
      | true => rw [readNonTransparent_of_line hread, readNonTransparent_of_line (h.trans hread)]

end Loop

theorem messagesOf_of_none {limit : ℕ} {stream : Bytes}
    (h : ∀ b ∈ stream, isDelimiter b = false) :
    messagesOf limit stream = if maxMessageSize < stream.length then [] else sends stream [] := by
  unfold messagesOf
  rw [splitLines_of_none h]
  rfl

theorem messagesOf_line {limit : ℕ} {line rest : Bytes} {d : UInt8}
    (hline : ∀ b ∈ line, isDelimiter b = false) (hd : isDelimiter d = true) :
    messagesOf limit (line ++ d :: rest) =
      if limit < line.length then [] else sends line (messagesOf limit rest) := by
  unfold messagesOf
  rw [splitLines_append hline hd]
  rfl

/-- What is sent for a text that no delimiter ends does not depend on the cut. -/
theorem readNonTransparent_of_none {reader : Reader}
    (h : ∀ b ∈ reader.flatten, isDelimiter b = false) (limit : ℕ) :
    (readNonTransparent reader).1 = messagesOf limit reader.flatten := by
  have hread := @readUntilDelimiter_of_none [] reader h (Nat.zero_le _)
  rw [List.length_nil, Nat.zero_add, List.nil_append] at hread
  rw [messagesOf_of_none h]
  split
  · next hlong =>
      rw [if_pos hlong] at hread
      exact readNonTransparent_of_error hread
  · next hshort =>
      rw [if_neg hshort] at hread
      exact readNonTransparent_of_end hread

/-- **Every reader sends at least what is within the limit, and at most what is within the limit
and a buffer.** -/
theorem messages_prefix {capacity : ℕ} {stream : Bytes} {reader : Reader}
    (hcut : Cut capacity stream reader) :
    messagesOf maxMessageSize stream <+: (readNonTransparent reader).1 ∧
      (readNonTransparent reader).1 <+: messagesOf (maxMessageSize + capacity - 1) stream := by
  induction hm : stream.length using Nat.strongRecOn generalizing stream reader with
  | ind m ih =>
      rcases exists_split isDelimiter stream with hnone | ⟨line, d, rest, rfl, hline, hd⟩
      · obtain rfl := hcut.flatten
        rw [readNonTransparent_of_none hnone maxMessageSize, messagesOf_of_none hnone,
          messagesOf_of_none hnone]
        exact ⟨List.prefix_rfl, List.prefix_rfl⟩
      · have hlt : rest.length < m := by
          rw [← hm, List.length_append, List.length_cons]
          omega
        rw [messagesOf_line hline hd, messagesOf_line hline hd]
        rcases @readUntilDelimiter_line capacity [] line rest d reader hline hd hcut
          (Nat.zero_le _) with
          ⟨herror, hlong⟩ | ⟨reader', hok, hcut', hshort⟩
        · rw [List.length_nil, Nat.zero_add] at hlong
          rw [if_pos hlong, readNonTransparent_of_error herror]
          exact ⟨List.prefix_rfl, List.nil_prefix⟩
        · obtain ⟨hfirst, hlast⟩ := ih rest.length hlt hcut' rfl
          rw [List.length_nil, Nat.zero_add] at hshort
          rw [if_neg (by omega : ¬ maxMessageSize + capacity - 1 < line.length),
            readNonTransparent_of_line hok, List.nil_append]
          refine ⟨?_, sends_prefix line hlast⟩
          split
          · exact List.nil_prefix
          · exact sends_prefix line hfirst

/-! ## Two cuts -/

/-- Pieces of one byte that end no line. -/
theorem readUntilDelimiter_singletons {part buf : Bytes} (h : ∀ b ∈ part, isDelimiter b = false)
    (hlength : buf.length + part.length ≤ maxMessageSize) (reader : Reader) :
    readUntilDelimiter buf (part.map ([·]) ++ reader) =
      readUntilDelimiter (buf ++ part) reader := by
  induction part generalizing buf with
  | nil => rw [List.map_nil, List.nil_append, List.append_nil]
  | cons b part ih =>
      rw [List.length_cons] at hlength
      have hb : ∀ c ∈ [b], isDelimiter c = false :=
        fun c hc => h c (List.mem_singleton.mp hc ▸ List.mem_cons_self)
      rw [List.map_cons, List.cons_append, readUntilDelimiter, if_neg (List.cons_ne_nil _ _),
        findIdx?_of_none hb]
      dsimp only
      rw [if_neg (by rw [List.length_singleton]; omega),
        ih (fun c hc => h c (List.mem_cons_of_mem b hc))
          (by rw [List.length_append, List.length_singleton]; omega), List.append_assoc]
      rfl

theorem cut_singletons {capacity : ℕ} (hcapacity : 0 < capacity) (stream : Bytes) :
    Cut capacity stream (stream.map ([·])) := by
  refine ⟨?_, fun piece hpiece => ?_⟩
  · rw [← List.flatMap_def]
    exact List.flatMap_singleton' stream
  · obtain ⟨b, -, rfl⟩ := List.mem_map.mp hpiece
    exact hcapacity

/-- Byte by byte, nothing longer than the limit is sent. -/
theorem readNonTransparent_singletons (stream : Bytes) :
    (readNonTransparent (stream.map ([·]))).1 = messagesOf maxMessageSize stream := by
  obtain ⟨hleast, hmost⟩ := messages_prefix (cut_singletons Nat.one_pos stream)
  exact hmost.eq_of_length_le hleast.length_le

/-- With as much as possible in the pieces that end lines, all is sent that can be. -/
theorem exists_most {capacity : ℕ} (hcapacity : 0 < capacity) (stream : Bytes) :
    ∃ reader, Cut capacity stream reader ∧
      (readNonTransparent reader).1 = messagesOf (maxMessageSize + capacity - 1) stream := by
  induction hm : stream.length using Nat.strongRecOn generalizing stream with
  | ind m ih =>
      rcases exists_split isDelimiter stream with hnone | ⟨line, d, rest, rfl, hline, hd⟩
      · have hcut := cut_singletons hcapacity stream
        have hflatten := hcut.flatten
        refine ⟨_, hcut, ?_⟩
        rw [readNonTransparent_of_none (by rwa [hflatten]), hflatten]
      · by_cases hlong : maxMessageSize + capacity - 1 < line.length
        · have hcut := cut_singletons hcapacity (line ++ d :: rest)
          refine ⟨_, hcut, ?_⟩
          obtain ⟨-, hmost⟩ := messages_prefix hcut
          rw [messagesOf_line hline hd, if_pos hlong] at hmost ⊢
          exact List.prefix_nil.mp hmost
        · have hlt : rest.length < m := by
            rw [← hm, List.length_append, List.length_cons]
            omega
          obtain ⟨reader, hcut, hread⟩ := ih rest.length hlt rest rfl
          -- the last piece of the line is full
          let kept := line.length - (capacity - 1)
          let last := line.drop kept ++ [d]
          refine ⟨(line.take kept).map ([·]) ++ last :: reader, ⟨?_, ?_⟩, ?_⟩
          · rw [List.flatten_append, (cut_singletons Nat.one_pos _).flatten, List.flatten_cons,
              hcut.flatten, ← List.append_assoc, ← List.append_assoc, List.take_append_drop,
              List.append_assoc]
            rfl
          · intro piece hpiece
            rcases List.mem_append.mp hpiece with hpiece | hpiece
            · exact (cut_singletons hcapacity _).pieces piece hpiece
            rcases List.mem_cons.mp hpiece with rfl | hpiece
            · rw [List.length_append, List.length_drop, List.length_singleton]
              omega
            · exact hcut.pieces piece hpiece
          · have htake : ∀ b ∈ line.take kept, isDelimiter b = false :=
              fun b hb => hline b (List.mem_of_mem_take hb)
            have hdrop : ∀ b ∈ line.drop kept, isDelimiter b = false :=
              fun b hb => hline b (List.mem_of_mem_drop hb)
            have hread' : readUntilDelimiter [] ((line.take kept).map ([·]) ++ last :: reader) =
                .ok ((true, line), [] :: reader) := by
              rw [readUntilDelimiter_singletons htake
                (by rw [List.length_nil, List.length_take]; omega), readUntilDelimiter,
                if_neg (by simp [last]), findIdx?_append_delim hdrop hd]
              simp [last]
            have hskip : (readNonTransparent ([] :: reader)).1 = (readNonTransparent reader).1 := by
              rw [readNonTransparent_congr]
              rw [readUntilDelimiter, if_pos rfl]
            rw [readNonTransparent_of_line hread', messagesOf_line hline hd, if_neg hlong, hskip,
              hread]

/-! ## When the cut does not matter -/

/-- The first text that is not empty would be sent under the limit. -/
def SentNext (limit : ℕ) : List Bytes → Bytes → Prop
  | [], tail => tail.length ≤ maxMessageSize ∧ ValidPri (stripCr tail)
  | line :: rest, tail =>
      line.length ≤ limit ∧
        if stripCr line = [] then SentNext limit rest tail else ValidPri (stripCr line)

/-- No line is reached that is too long by less than the buffer and could be sent, or is empty
without its CRs and comes before something that could. -/
def Steady (capacity : ℕ) : List Bytes → Bytes → Prop
  | [], _ => True
  | line :: rest, tail =>
      if line.length ≤ maxMessageSize then
        stripCr line = [] ∨ ValidPri (stripCr line) → Steady capacity rest tail
      else ¬ SentNext (maxMessageSize + capacity - 1) (line :: rest) tail

/-- `Steady` of the lines of a stream. -/
def SteadyStream (capacity : ℕ) (stream : Bytes) : Prop :=
  Steady capacity (splitLines isDelimiter stream).1 (splitLines isDelimiter stream).2

theorem not_validPri_nil : ¬ ValidPri [] := by
  simp [ValidPri, validatePri]

theorem sends_of_nil {buf : Bytes} (h : stripCr buf = []) (more : List Bytes) :
    sends buf more = more := by
  rw [sends, messageOf, if_pos h]
  rfl

theorem sends_of_validPri {buf : Bytes} (h : ValidPri (stripCr buf)) (more : List Bytes) :
    sends buf more = stripCr buf :: more := by
  have hne : stripCr buf ≠ [] := fun hnil => not_validPri_nil (hnil ▸ h)
  have hvalid : validatePri (stripCr buf) = .ok () := h
  rw [sends, messageOf, if_neg hne, hvalid]
  rfl

theorem sends_of_not_validPri {buf : Bytes} (hne : stripCr buf ≠ [])
    (h : ¬ ValidPri (stripCr buf)) (more : List Bytes) : sends buf more = [] := by
  rw [sends, messageOf, if_neg hne]
  unfold ValidPri at h
  cases hpri : validatePri (stripCr buf) with
  | error e => rfl
  | ok u => exact absurd hpri h

/-- A text is empty without its CRs, or a message, or neither. -/
theorem text_cases (buf : Bytes) :
    stripCr buf = [] ∨ (stripCr buf ≠ [] ∧ ValidPri (stripCr buf)) ∨
      (stripCr buf ≠ [] ∧ ¬ ValidPri (stripCr buf)) := by
  tauto

theorem messages_ne_nil {limit : ℕ} {lines : List Bytes} {tail : Bytes} :
    messages limit lines tail ≠ [] ↔ SentNext limit lines tail := by
  induction lines with
  | nil =>
      unfold messages SentNext
      by_cases hlong : maxMessageSize < tail.length
      · rw [if_pos hlong]
        exact iff_of_false (fun h => h rfl) fun h => absurd h.1 (Nat.not_le.mpr hlong)
      · rw [if_neg hlong]
        have hle : tail.length ≤ maxMessageSize := Nat.le_of_not_lt hlong
        rcases text_cases tail with hnil | ⟨-, hvalid⟩ | ⟨hne, hinvalid⟩
        · rw [sends_of_nil hnil, hnil]
          exact iff_of_false (fun h => h rfl) fun h => not_validPri_nil h.2
        · rw [sends_of_validPri hvalid]
          exact iff_of_true (List.cons_ne_nil _ _) ⟨hle, hvalid⟩
        · rw [sends_of_not_validPri hne hinvalid]
          exact iff_of_false (fun h => h rfl) fun h => hinvalid h.2
  | cons line rest ih =>
      unfold messages SentNext
      by_cases hlong : limit < line.length
      · rw [if_pos hlong]
        exact iff_of_false (fun h => h rfl) fun h => absurd h.1 (Nat.not_le.mpr hlong)
      · rw [if_neg hlong]
        have hle : line.length ≤ limit := Nat.le_of_not_lt hlong
        rcases text_cases line with hnil | ⟨hne, hvalid⟩ | ⟨hne, hinvalid⟩
        · rw [sends_of_nil hnil, if_pos hnil, ih]
          exact (and_iff_right hle).symm
        · rw [sends_of_validPri hvalid, if_neg hne]
          exact iff_of_true (List.cons_ne_nil _ _) ⟨hle, hvalid⟩
        · rw [sends_of_not_validPri hne hinvalid, if_neg hne]
          exact iff_of_false (fun h => h rfl) fun h => hinvalid h.2

/-- The two ends meet exactly on the steady streams. -/
theorem messages_eq_iff {capacity : ℕ} (hcapacity : 0 < capacity) (lines : List Bytes)
    (tail : Bytes) :
    messages maxMessageSize lines tail = messages (maxMessageSize + capacity - 1) lines tail ↔
      Steady capacity lines tail := by
  induction lines with
  | nil => exact iff_of_true rfl trivial
  | cons line rest ih =>
      unfold Steady
      by_cases hlong : maxMessageSize < line.length
      · rw [if_neg (Nat.not_le.mpr hlong), ← messages_ne_nil, not_not, messages, if_pos hlong]
        exact eq_comm
      · have hlast : ¬ maxMessageSize + capacity - 1 < line.length := by omega
        rw [if_pos (Nat.le_of_not_lt hlong), messages, if_neg hlong, messages, if_neg hlast]
        rcases text_cases line with hnil | ⟨-, hvalid⟩ | ⟨hne, hinvalid⟩
        · rw [sends_of_nil hnil, sends_of_nil hnil, ih]
          exact ⟨fun h _ => h, fun h => h (Or.inl hnil)⟩
        · rw [sends_of_validPri hvalid, sends_of_validPri hvalid, List.cons.injEq, ih]
          exact ⟨fun h _ => h.2, fun h => ⟨rfl, h (Or.inr hvalid)⟩⟩
        · -- the connection is closed here
          rw [sends_of_not_validPri hne hinvalid, sends_of_not_validPri hne hinvalid]
          exact iff_of_true rfl fun h => absurd h (not_or.mpr ⟨hne, hinvalid⟩)

theorem length_stripCr_le (buf : Bytes) : (stripCr buf).length ≤ buf.length :=
  (List.rdropWhile_prefix _ buf).length_le

theorem mem_sends {buf msg : Bytes} {more : List Bytes} (h : msg ∈ sends buf more) :
    msg = stripCr buf ∨ msg ∈ more := by
  rcases text_cases buf with hnil | ⟨-, hvalid⟩ | ⟨hne, hinvalid⟩
  · rw [sends_of_nil hnil] at h
    exact Or.inr h
  · rw [sends_of_validPri hvalid] at h
    exact List.mem_cons.mp h
  · rw [sends_of_not_validPri hne hinvalid] at h
    exact absurd h List.not_mem_nil

/-- What is sent under the limit is within the limit. -/
theorem length_le_of_mem_messages {lines : List Bytes} {tail msg : Bytes}
    (h : msg ∈ messages maxMessageSize lines tail) : msg.length ≤ maxMessageSize := by
  induction lines with
  | nil =>
      unfold messages at h
      split at h
      · exact absurd h List.not_mem_nil
      · rcases mem_sends h with rfl | h
        · exact (length_stripCr_le tail).trans (by omega)
        · exact absurd h List.not_mem_nil
  | cons line rest ih =>
      unfold messages at h
      split at h
      · exact absurd h List.not_mem_nil
      · rcases mem_sends h with rfl | h
        · exact (length_stripCr_le line).trans (by omega)
        · exact ih h

/-- The cut does not matter and the limit is kept. -/
structure CutFree (read : Reader → List Bytes) (cut : Reader → Prop) : Prop where
  same : ∀ reader reader', cut reader → cut reader' → read reader = read reader'
  bounded : ∀ reader, cut reader → ∀ msg ∈ read reader, msg.length ≤ maxMessageSize

theorem cutFree_iff_steady {capacity : ℕ} (hcapacity : 0 < capacity) (stream : Bytes) :
    CutFree (fun reader => (readNonTransparent reader).1) (Cut capacity stream) ↔
      SteadyStream capacity stream := by
  unfold SteadyStream
  rw [← messages_eq_iff hcapacity]
  constructor
  · intro h
    obtain ⟨reader, hcut, hmost⟩ := exists_most hcapacity stream
    have hsame := h.same _ _ (cut_singletons hcapacity stream) hcut
    rw [readNonTransparent_singletons, hmost] at hsame
    exact hsame
  · intro h
    have hread : ∀ reader, Cut capacity stream reader →
        (readNonTransparent reader).1 = messagesOf maxMessageSize stream := by
      intro reader hcut
      obtain ⟨hleast, hmost⟩ := messages_prefix hcut
      have hends : messagesOf maxMessageSize stream =
          messagesOf (maxMessageSize + capacity - 1) stream := h
      rw [← hends] at hmost
      exact hmost.eq_of_length_le hleast.length_le
    refine ⟨fun reader reader' hcut hcut' => (hread reader hcut).trans (hread reader' hcut').symm,
      fun reader hcut msg hmsg => ?_⟩
    rw [hread reader hcut] at hmsg
    exact length_le_of_mem_messages hmsg

/-! ## Reading back -/

/-- A message that non-transparent framing can carry. -/
structure Transparent (msg : Bytes) : Prop where
  noDelimiter : ∀ b ∈ msg, isDelimiter b = false
  noCr : msg.getLast? ≠ some carriageReturn

theorem stripCr_of_transparent {msg : Bytes} (h : Transparent msg) : stripCr msg = msg := by
  unfold stripCr
  rw [List.rdropWhile_eq_self_iff]
  intro hne hlast
  refine h.noCr ?_
  rw [List.getLast?_eq_some_getLast hne, of_decide_eq_true hlast]

theorem messagesOf_written {limit : ℕ} (hlimit : maxMessageSize ≤ limit) {msgs : List Bytes}
    (hmsgs : ∀ msg ∈ msgs, ValidPri msg ∧ msg.length ≤ maxMessageSize ∧ Transparent msg) :
    messagesOf limit (msgs.flatMap fun msg => writeFramed msg .nonTransparent) = msgs := by
  induction msgs with
  | nil => rfl
  | cons msg more ih =>
      obtain ⟨hpri, hlength, htransparent⟩ := hmsgs msg List.mem_cons_self
      have hstrip := stripCr_of_transparent htransparent
      have hshort : ¬ limit < msg.length := by omega
      rw [List.flatMap_cons, writeFramed, List.append_assoc, List.singleton_append,
        messagesOf_line htransparent.noDelimiter rfl, if_neg hshort,
        ih fun m hm => hmsgs m (List.mem_cons_of_mem msg hm),
        sends_of_validPri (hstrip.symm ▸ hpri), hstrip]

/-- **Lines are read back**, however the stream is cut. -/
theorem readNonTransparent_written {msgs : List Bytes} {reader : Reader}
    (hmsgs : ∀ msg ∈ msgs, ValidPri msg ∧ msg.length ≤ maxMessageSize ∧ Transparent msg)
    (hstream : reader.flatten = msgs.flatMap fun msg => writeFramed msg .nonTransparent) :
    (readNonTransparent reader).1 = msgs := by
  have hcut : Cut (reader.flatten.length + 1) reader.flatten reader :=
    ⟨rfl, fun piece hpiece => (List.sublist_flatten_of_mem hpiece).length_le.trans (Nat.le_succ _)⟩
  obtain ⟨hleast, hmost⟩ := messages_prefix hcut
  rw [hstream, messagesOf_written le_rfl hmsgs] at hleast
  rw [hstream, messagesOf_written (by omega) hmsgs] at hmost
  exact hmost.eq_of_length_le hleast.length_le

/-- **Framing is exact**, in both framings, except for lines that are too long by less than the
size of the read buffer. -/
theorem framing_exact_iff {capacity : ℕ} (hcapacity : 0 < capacity) :
    (∀ msgs reader, (∀ msg ∈ msgs, ValidPri msg ∧ msg.length ≤ maxMessageSize) →
        reader.flatten = msgs.flatMap (fun msg => writeFramed msg .octetCounting) →
          (readOctetCounting reader).1 = msgs) ∧
      (∀ msgs reader,
        (∀ msg ∈ msgs, ValidPri msg ∧ msg.length ≤ maxMessageSize ∧ Transparent msg) →
          reader.flatten = msgs.flatMap (fun msg => writeFramed msg .nonTransparent) →
            (readNonTransparent reader).1 = msgs) ∧
      (∀ stream, CutFree (fun reader => (readOctetCounting reader).1)
        fun reader => reader.flatten = stream) ∧
      ∀ stream, CutFree (fun reader => (readNonTransparent reader).1) (Cut capacity stream) ↔
        SteadyStream capacity stream := by
  refine ⟨fun _ _ => readOctetCounting_written, fun _ _ => readNonTransparent_written,
    fun stream => ⟨fun reader reader' h h' => ?_, fun reader _ msg hmsg => ?_⟩,
    cutFree_iff_steady hcapacity⟩
  · rw [readOctetCounting_same (h.trans h'.symm)]
  · exact length_le_of_mem_octetCounting hmsg

/-- `<0>`. -/
def emptyMessage : Bytes := [60, 48, 62]

theorem framing_exact_iff_line :
    0 < 8192 ∧ ValidPri emptyMessage ∧ Transparent emptyMessage ∧
      (readNonTransparent [[60, 48], [62, 10]]).1 = [emptyMessage] ∧
      CutFree (fun reader => (readNonTransparent reader).1) (Cut 8192 [60, 48, 62, 10]) := by
  have hpri : ValidPri emptyMessage := rfl
  have htransparent : Transparent emptyMessage := ⟨by decide, by decide⟩
  obtain ⟨-, hwritten, -, hiff⟩ := @framing_exact_iff 8192 (by decide)
  refine ⟨by decide, hpri, htransparent, hwritten [emptyMessage] [[60, 48], [62, 10]] ?_ rfl, ?_⟩
  · intro msg hmsg
    rw [List.mem_singleton.mp hmsg]
    exact ⟨hpri, by decide, htransparent⟩
  · refine (hiff [60, 48, 62, 10]).mpr ?_
    show Steady 8192 [emptyMessage] []
    rw [Steady, if_pos (by decide)]
    exact fun _ => trivial

/-- A message as long as the limit. -/
def longest : Bytes := emptyMessage ++ List.replicate (maxMessageSize - 3) 120

/-- One byte more. -/
def oversized : Bytes := longest ++ [120]

theorem length_longest : longest.length = maxMessageSize := by
  rw [longest, List.length_append, List.length_replicate]
  decide

theorem isDelimiter_longest : ∀ b ∈ longest, isDelimiter b = false := by
  intro b hb
  rcases List.mem_append.mp hb with hb | hb
  · exact (by decide : ∀ b ∈ emptyMessage, isDelimiter b = false) b hb
  · rw [List.eq_of_mem_replicate hb]
    decide

theorem transparent_oversized : Transparent oversized := by
  refine ⟨fun b hb => ?_, ?_⟩
  · rcases List.mem_append.mp hb with hb | hb
    · exact isDelimiter_longest b hb
    · rw [List.mem_singleton.mp hb]
      decide
  · rw [oversized, List.getLast?_append]
    decide

theorem validPri_oversized : ValidPri oversized := by
  have hpri : ∀ text, ValidPri (emptyMessage ++ text) := fun _ => rfl
  rw [oversized, longest, List.append_assoc]
  exact hpri _

/-- The line byte by byte, and with its last byte in the piece that ends it. -/
theorem oversized_depends_on_cut :
    maxMessageSize < oversized.length ∧
      Cut 8192 (oversized ++ [newline]) ((oversized ++ [newline]).map ([·])) ∧
      (readNonTransparent ((oversized ++ [newline]).map ([·]))).1 = [] ∧
      Cut 8192 (oversized ++ [newline]) (longest.map ([·]) ++ [[120, newline]]) ∧
      (readNonTransparent (longest.map ([·]) ++ [[120, newline]])).1 = [oversized] := by
  have hlength : oversized.length = maxMessageSize + 1 := by
    rw [oversized, List.length_append, length_longest]
    rfl
  have hbytes := @cut_singletons 8192 (by decide)
  refine ⟨by omega, hbytes _, ?_, ⟨?_, ?_⟩, ?_⟩
  · rw [readNonTransparent_singletons, messagesOf_line transparent_oversized.noDelimiter rfl,
      if_pos (by omega)]
  · rw [List.flatten_append, (hbytes longest).flatten, oversized, List.append_assoc]
    rfl
  · intro piece hpiece
    rcases List.mem_append.mp hpiece with hpiece | hpiece
    · exact (hbytes longest).pieces piece hpiece
    · rw [List.mem_singleton.mp hpiece]
      decide
  · have hlast : ∀ buf, readUntilDelimiter buf [[120, newline]] =
        .ok ((true, buf ++ [120]), [[]]) := fun _ => rfl
    have hread : readUntilDelimiter [] (longest.map ([·]) ++ [[120, newline]]) =
        .ok ((true, oversized), [[]]) := by
      have hshort : ([] : Bytes).length + longest.length ≤ maxMessageSize := by
        rw [List.length_nil, Nat.zero_add, length_longest]
      rw [readUntilDelimiter_singletons isDelimiter_longest hshort, List.nil_append]
      exact hlast longest
    have hend : (readNonTransparent [[]]).1 = [] := by
      rw [@readNonTransparent_of_end [[]] [] [] rfl]
      rfl
    have hstrip := stripCr_of_transparent transparent_oversized
    rw [readNonTransparent_of_line hread, hend,
      sends_of_validPri (hstrip.symm ▸ validPri_oversized), hstrip]

end Limpid.Syslog
