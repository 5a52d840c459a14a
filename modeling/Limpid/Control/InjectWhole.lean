import Limpid.Control.Inject

/-!
# What an inject command delivers

The cap of an inject command lies below the line reader.  Where it falls inside a line, what is
before it is read as a line of its own, and injected cut short; where it falls inside a character,
that line is a read error, and the command ends as if the payload had ended.

`Meets` is what is expected: the events are the lines of a part of the payload that ends with a
line, a payload within the cap is injected as a whole, and nothing is left out without an error.  It
holds exactly when the line into which the cap falls has nothing but line ends on one side of it
(`CutHarmless`).
-/

namespace Limpid.Control

open Lines

/-- What the response and the events are to be for a payload. -/
structure Meets (payload : Bytes) (outcome : InjectOutcome) : Prop where
  lines : ∃ part, (part = payload ∨ part <+: payload ∧ Complete newline part) ∧
    outcome.events = eventsOf part
  whole : payload.length ≤ maxInjectBytes →
    outcome.events = eventsOf payload ∧ outcome.response.error = none
  notSilent : outcome.events ≠ eventsOf payload → outcome.response.error.isSome

/-- The rest of the line after the cap, or the part of it before, is empty but for line ends. -/
def CutHarmless (payload : Bytes) (budget : ℕ) : Prop :=
  trimLineEnd (unterminated newline (payload.take budget)) = [] ∨
    trimLineEnd (takeLine newline (payload.drop budget)) = []

/-! ## Lines and events -/

theorem trimLineEnd_append (first second : Bytes) :
    trimLineEnd (first ++ second) =
      if trimLineEnd second = [] then trimLineEnd first else first ++ trimLineEnd second := by
  unfold trimLineEnd List.rdropWhile
  rw [List.reverse_append, List.dropWhile_append]
  simp only [List.isEmpty_iff, List.reverse_eq_nil_iff]
  split
  · rfl
  · simp

theorem length_trimLineEnd_le (line : Bytes) : (trimLineEnd line).length ≤ line.length :=
  (List.rdropWhile_prefix _ line).length_le

theorem ascii_of_trimLineEnd_eq_nil {line : Bytes} (h : trimLineEnd line = []) :
    ∀ b ∈ line, b < 128 := by
  intro b hb
  have hend := List.rdropWhile_eq_nil_iff.mp h b hb
  rw [Bool.or_eq_true, decide_eq_true_eq, decide_eq_true_eq] at hend
  rcases hend with rfl | rfl
  · decide
  · decide

theorem eventsOf_append {first : Bytes} (h : Complete newline first) (second : Bytes) :
    eventsOf (first ++ second) = eventsOf first ++ eventsOf second := by
  simp [eventsOf, lines_append h]

/-- A line that is not blank is the first event. -/
theorem eventsOf_line {stream line : Bytes} (hline : takeLine newline stream = line)
    (htrim : trimLineEnd line ≠ []) :
    eventsOf stream = trimLineEnd line :: eventsOf (stream.drop line.length) := by
  have hne : stream ≠ [] := by
    rintro rfl
    exact htrim (by rw [← hline]; rfl)
  simp [eventsOf, lines_cons_eq_takeLine hne, hline, htrim]

/-- The last line is an event unless it is blank. -/
theorem eventsOf_of_notMem {stream : Bytes} (h : newline ∉ stream) :
    eventsOf stream = if trimLineEnd stream = [] then [] else [trimLineEnd stream] := by
  by_cases hne : stream = []
  · simp [hne, eventsOf, trimLineEnd]
  · rw [eventsOf, lines_of_notMem hne h]
    by_cases htrim : trimLineEnd stream = []
    · simp [htrim]
    · simp [htrim]

/-! ## Lines of a text -/

theorem validUtf8_of_complete {first second : Bytes} (hfirst : Complete newline first)
    (h : validUtf8 (first ++ second) = true) :
    validUtf8 first = true ∧ validUtf8 second = true := by
  rcases hfirst with rfl | hlast
  · exact ⟨validUtf8_nil, h⟩
  · obtain ⟨before, rfl⟩ := List.getLast?_eq_some_iff.mp hlast
    rw [List.append_assoc, List.singleton_append] at h
    exact (validUtf8_around (by decide) h).2

/-- The lines of a text are texts. -/
theorem validUtf8_of_mem_lines {stream line : Bytes} (h : validUtf8 stream = true)
    (hline : line ∈ lines newline stream) : validUtf8 line = true := by
  induction hlength : stream.length using Nat.strong_induction_on generalizing stream with
  | _ n ih =>
      have hne : stream ≠ [] := by
        rintro rfl
        exact absurd hline List.not_mem_nil
      have happend := takeLine_append_drop (d := newline) stream
      by_cases hlast : (takeLine newline stream).getLast? = some newline
      · rw [← happend] at h
        obtain ⟨hfirst, hrest⟩ := validUtf8_of_complete (.inr hlast) h
        rw [lines_cons_eq_takeLine hne] at hline
        rcases List.mem_cons.mp hline with rfl | hline
        · exact hfirst
        · have hpos : 0 < (takeLine newline stream).length :=
            List.length_pos_of_ne_nil fun hnil => hne (takeLine_eq_nil.mp hnil)
          have hstream := List.length_pos_of_ne_nil hne
          refine ih (stream.drop (takeLine newline stream).length).length ?_ hrest hline rfl
          rw [List.length_drop]
          omega
      · obtain ⟨-, hnot⟩ := takeLine_eq_self_of_incomplete hlast
        rw [lines_of_notMem hne hnot] at hline
        rwa [List.mem_singleton.mp hline]

/-! ## The cut -/

/-- A reader in front of a payload. -/
structure InFront (reader : LimitedReader) (payload : Bytes) : Prop where
  stream : reader.buffer ++ reader.incoming.flatten = payload
  text : validUtf8 payload = true
  /-- The cap is above the whole payloads. -/
  cap : maxInjectBytes < reader.limit

/-- The events up to the cap. -/
theorem eventsOf_stream (reader : LimitedReader) : eventsOf reader.stream =
    eventsOf (completePart newline reader.stream) ++
      if trimLineEnd (unterminated newline reader.stream) = [] then []
      else [trimLineEnd (unterminated newline reader.stream)] := by
  have hsplit := completePart_append_unterminated (d := newline) reader.stream
  rw [← eventsOf_of_notMem (notMem_unterminated reader.stream),
    ← eventsOf_append (complete_completePart _), hsplit]

section Cut

variable {reader : LimitedReader} {payload : Bytes} (h : InFront reader payload)

/-- The bytes that the cap lets through. -/
def LimitedReader.budget (reader : LimitedReader) : ℕ := reader.buffer.length + reader.limit

include h

theorem InFront.stream_eq : reader.stream = payload.take reader.budget := by
  rw [← h.stream, LimitedReader.budget, List.take_length_add_append, LimitedReader.stream]

theorem InFront.overrun_iff : reader.Overrun ↔ reader.budget ≤ payload.length := by
  rw [← h.stream, List.length_append, LimitedReader.budget, LimitedReader.Overrun]
  omega

/-- The payload, cut before the line into which the cap falls, and at the cap. -/
theorem InFront.split : completePart newline reader.stream ++
    (unterminated newline reader.stream ++ payload.drop reader.budget) = payload := by
  rw [← List.append_assoc, completePart_append_unterminated, h.stream_eq, List.take_append_drop]

theorem InFront.injected : injectLoop reader =
    if validUtf8 (unterminated newline reader.stream) = true then
      (eventsOf reader.stream, decide reader.Overrun)
    else (eventsOf (completePart newline reader.stream), false) := by
  refine injectLoop_cases fun line hline => validUtf8_of_mem_lines ?_ hline
  exact (validUtf8_of_complete (complete_completePart _) (h.split.symm ▸ h.text)).1

/-- The line into which the cap falls is an event of whatever goes beyond the cap, with what comes
after the cap. -/
theorem InFront.eventsOf_beyond
    (hafter : trimLineEnd (takeLine newline (payload.drop reader.budget)) ≠ []) {part : Bytes}
    (hpart : part = payload ∨ part <+: payload ∧ Complete newline part)
    (hlong : (completePart newline reader.stream).length < part.length) :
    ∃ more, eventsOf part = eventsOf (completePart newline reader.stream) ++
      (unterminated newline reader.stream ++
        trimLineEnd (takeLine newline (payload.drop reader.budget))) :: more := by
  have hsplit := h.split
  have hprefix : part <+: payload := hpart.elim (fun heq => heq ▸ List.prefix_rfl) And.left
  obtain ⟨beyond, rfl⟩ : completePart newline reader.stream <+: part :=
    List.prefix_of_prefix_length_le ⟨_, hsplit⟩ hprefix hlong.le
  obtain ⟨rest, hrest⟩ := hprefix
  have hbeyond : beyond ++ rest = unterminated newline reader.stream ++
      payload.drop reader.budget := by
    rw [← hsplit, List.append_assoc] at hrest
    exact List.append_cancel_left hrest
  have hne : beyond ≠ [] := by
    rintro rfl
    simp at hlong
  -- what goes beyond has the whole line
  have hwhole : rest = [] ∨ newline ∈ beyond := by
    rcases hpart with heq | ⟨-, hcomplete⟩
    · exact .inl (List.append_right_eq_self.mp (hrest.trans heq.symm))
    · have hlast := (complete_of_complete_append hcomplete).resolve_left hne
      exact .inr (List.mem_of_getLast? hlast)
  have hline : takeLine newline beyond = unterminated newline reader.stream ++
      takeLine newline (payload.drop reader.budget) := by
    rw [← takeLine_append_of_notMem (notMem_unterminated _), ← hbeyond]
    rcases hwhole with rfl | hmem
    · rw [List.append_nil]
    · rw [takeLine_append_of_mem hmem]
  have htrim := trimLineEnd_append (unterminated newline reader.stream)
    (takeLine newline (payload.drop reader.budget))
  rw [if_neg hafter] at htrim
  have hevents := eventsOf_line hline (by rw [htrim]; simp [hafter])
  rw [htrim] at hevents
  exact ⟨_, by rw [eventsOf_append (complete_completePart _), hevents]⟩

/-- Events of the part that is within the cap, and no others, are not events of a part of the
payload when the cap cuts a line. -/
theorem InFront.eventsOf_ne (hbefore : trimLineEnd (unterminated newline reader.stream) ≠ [])
    (hafter : trimLineEnd (takeLine newline (payload.drop reader.budget)) ≠ []) {part : Bytes}
    (hpart : part = payload ∨ part <+: payload ∧ Complete newline part) :
    eventsOf part ≠ eventsOf reader.stream := by
  intro heq
  rw [eventsOf_stream, if_neg hbefore] at heq
  have hsplit := h.split
  by_cases hlong : (completePart newline reader.stream).length < part.length
  · obtain ⟨more, hmore⟩ := h.eventsOf_beyond hafter hpart hlong
    rw [hmore] at heq
    have hhead := (List.cons.inj (List.append_cancel_left heq)).1
    have hlength := congrArg List.length hhead
    have hle := length_trimLineEnd_le (unterminated newline reader.stream)
    have hpos := List.length_pos_of_ne_nil hafter
    rw [List.length_append] at hlength
    omega
  · have hprefix : part <+: payload := hpart.elim (fun heq => heq ▸ List.prefix_rfl) And.left
    obtain ⟨missing, hmissing⟩ : part <+: completePart newline reader.stream :=
      List.prefix_of_prefix_length_le hprefix ⟨_, hsplit⟩ (not_lt.mp hlong)
    have hcomplete : Complete newline part := by
      rcases hpart with rfl | ⟨-, hcomplete⟩
      · have hnil : unterminated newline reader.stream ++ part.drop reader.budget = [] := by
          have hlength := congrArg List.length hsplit
          have hle := congrArg List.length hmissing
          rw [List.length_append] at hlength hle
          exact List.eq_nil_of_length_eq_zero (by omega)
        exact absurd (List.append_eq_nil_iff.mp hnil).1 fun htail => hbefore (by rw [htail]; rfl)
      · exact hcomplete
    rw [← hmissing, eventsOf_append hcomplete, List.append_assoc] at heq
    have hnil := List.append_right_eq_self.mp heq.symm
    simp at hnil

/-- A harmless cut is not inside a character. -/
theorem InFront.validUtf8_of_harmless (hharmless : CutHarmless payload reader.budget) :
    validUtf8 (unterminated newline reader.stream) = true := by
  unfold CutHarmless at hharmless
  rw [← h.stream_eq] at hharmless
  have hrest := (validUtf8_of_complete (complete_completePart reader.stream)
    (h.split.symm ▸ h.text)).2
  rcases hharmless with hbefore | hafter
  · exact validUtf8_of_ascii (ascii_of_trimLineEnd_eq_nil hbefore)
  · cases hdrop : payload.drop reader.budget with
    | nil =>
        rw [hdrop, List.append_nil] at hrest
        exact hrest
    | cons b more =>
        rw [hdrop] at hrest hafter
        have hmem : b ∈ takeLine newline (b :: more) := by
          unfold takeLine
          split <;> exact List.mem_cons_self ..
        exact (validUtf8_around (ascii_of_trimLineEnd_eq_nil hafter b hmem) hrest).1

/-- The events up to a harmless cut are those of a part that ends with a line. -/
theorem InFront.exists_part_of_harmless (hharmless : CutHarmless payload reader.budget) :
    ∃ part, (part = payload ∨ part <+: payload ∧ Complete newline part) ∧
      eventsOf reader.stream = eventsOf part := by
  unfold CutHarmless at hharmless
  rw [← h.stream_eq] at hharmless
  have hsplit := h.split
  have hcomplete := complete_completePart (d := newline) reader.stream
  rw [eventsOf_stream]
  by_cases hbefore : trimLineEnd (unterminated newline reader.stream) = []
  · rw [if_pos hbefore, List.append_nil]
    exact ⟨_, .inr ⟨⟨_, hsplit⟩, hcomplete⟩, rfl⟩
  · rw [if_neg hbefore]
    have hafter := hharmless.resolve_left hbefore
    have hline : takeLine newline (unterminated newline reader.stream ++
        takeLine newline (payload.drop reader.budget)) = _ :=
      takeLine_append_of_notMem (notMem_unterminated _) _
    rw [takeLine_takeLine] at hline
    have htrim := trimLineEnd_append (unterminated newline reader.stream)
      (takeLine newline (payload.drop reader.budget))
    rw [if_pos hafter] at htrim
    refine ⟨completePart newline reader.stream ++ (unterminated newline reader.stream ++
      takeLine newline (payload.drop reader.budget)), ?_, ?_⟩
    · by_cases hlast : (takeLine newline (payload.drop reader.budget)).getLast? = some newline
      · refine .inr ⟨⟨(payload.drop reader.budget).drop
          (takeLine newline (payload.drop reader.budget)).length, ?_⟩, ?_⟩
        · rw [List.append_assoc, List.append_assoc, takeLine_append_drop, hsplit]
        · exact complete_append hcomplete (.inr (by simp [List.getLast?_append, hlast]))
      · rw [(takeLine_eq_self_of_incomplete hlast).1]
        exact .inl hsplit
    · rw [eventsOf_append hcomplete, eventsOf_line hline (by rwa [htrim]), htrim, List.drop_length]
      rfl

/-- **An inject command delivers as expected** exactly when the cap falls into no line, or into one
that has nothing but line ends on one side of it. -/
theorem InFront.meets_iff :
    Meets payload (handleInject reader) ↔ CutHarmless payload reader.budget := by
  have hinjected := h.injected
  have herror := handleInject_error_isSome reader
  have hevents : (handleInject reader).events = (injectLoop reader).1 := rfl
  unfold CutHarmless
  rw [← h.stream_eq]
  constructor
  · intro hmeets
    by_contra hharm
    -- the cut is in the middle of a line
    obtain ⟨hbefore, hafter⟩ := not_or.mp hharm
    by_cases hutf8 : validUtf8 (unterminated newline reader.stream) = true
    · -- the line is injected cut short
      rw [if_pos hutf8] at hinjected
      obtain ⟨part, hpart, heq⟩ := hmeets.lines
      rw [hevents, hinjected] at heq
      exact h.eventsOf_ne hbefore hafter hpart heq.symm
    · -- the line is lost, and there is no error
      rw [if_neg hutf8] at hinjected
      have hsilent := hmeets.notSilent
      rw [hevents, herror, hinjected] at hsilent
      have heq := not_not.mp fun hne => Bool.false_ne_true (hsilent hne)
      have hlong : (completePart newline reader.stream).length < payload.length := by
        have hlength := congrArg List.length h.split
        have hpos := List.length_pos_of_ne_nil fun hnil => hbefore (congrArg trimLineEnd hnil)
        rw [List.length_append, List.length_append] at hlength
        omega
      obtain ⟨more, hmore⟩ := h.eventsOf_beyond hafter (.inl rfl) hlong
      rw [← heq] at hmore
      simpa using List.append_right_eq_self.mp hmore.symm
  · intro hharmless
    have hcut : CutHarmless payload reader.budget := by rwa [CutHarmless, ← h.stream_eq]
    rw [if_pos (h.validUtf8_of_harmless hcut)] at hinjected
    -- without an overrun the stream is the payload
    have hwhole : ¬ reader.Overrun → eventsOf reader.stream = eventsOf payload := by
      intro hnot
      rw [h.overrun_iff, not_le] at hnot
      rw [h.stream_eq, List.take_of_length_le hnot.le]
    refine ⟨?_, fun hle => ?_, fun hne => ?_⟩
    · rw [hevents, hinjected]
      exact h.exists_part_of_harmless hcut
    · have hnot : ¬ reader.Overrun := by
        have hcap := h.cap
        rw [h.overrun_iff, LimitedReader.budget]
        omega
      refine ⟨by rw [hevents, hinjected]; exact hwhole hnot, ?_⟩
      rw [hinjected] at herror
      simpa [hnot] using herror
    · rw [hevents, hinjected] at hne
      rw [herror, hinjected]
      simp only [decide_eq_true_eq]
      by_contra hnot
      exact hne (hwhole hnot)

end Cut

/-! ## The command -/

/-- The line of an inject command. -/
structure IsCommand (accepts : Bytes → Bool) (command : Bytes) : Prop where
  line : takeLine newline command = command
  ended : command.getLast? = some newline
  short : command.length ≤ maxCommandLen
  accepted : accepts command = true

/-- The bytes of the payload that the command lets through: those that were buffered with the
command line, and the raised limit. -/
def injectBudget (incoming : List Bytes) : ℕ :=
  let (line, reader) := readUntil ⟨[], maxCommandLen, incoming⟩
  reader.buffer.length + (maxInjectBytes + line.length)

/-- The reader of the payload. -/
def payloadReader (incoming : List Bytes) : LimitedReader :=
  let (line, reader) := readUntil ⟨[], maxCommandLen, incoming⟩
  { reader with limit := maxInjectBytes + line.length }

theorem handleConnection_eq {accepts : Bytes → Bool} {incoming : List Bytes}
    {command payload : Bytes} (hcommand : IsCommand accepts command)
    (hincoming : incoming.flatten = command ++ payload) (htext : validUtf8 payload = true) :
    handleConnection accepts incoming = some (handleInject (payloadReader incoming)) ∧
      InFront (payloadReader incoming) payload := by
  have hmem : newline ∈ command := List.mem_of_getLast? hcommand.ended
  have hpos := List.length_pos_of_ne_nil (List.ne_nil_of_mem hmem)
  have hline : (readUntil ⟨[], maxCommandLen, incoming⟩).1 = command := by
    rw [(readUntil_spec _).1, LimitedReader.stream, List.nil_append, hincoming,
      List.take_append, List.take_of_length_le hcommand.short, takeLine_append_of_mem hmem,
      hcommand.line]
  have happend := readUntil_append ⟨[], maxCommandLen, incoming⟩
  rw [hline, List.nil_append, hincoming] at happend
  have hpayload := List.append_cancel_left happend
  refine ⟨?_, hpayload, htext, ?_⟩
  · unfold handleConnection payloadReader
    simp only [hline, hcommand.ended, hcommand.accepted, ne_eq, not_true_eq_false, if_false,
      if_true]
  · simp only [payloadReader, hline]
    omega

/-- **The inject command meets its promise exactly when the cap cuts no line**: for every text after
the command line, and every way in which the socket cuts the two into pieces. -/
theorem inject_meets_iff {accepts : Bytes → Bool} {incoming : List Bytes} {command payload : Bytes}
    (hcommand : IsCommand accepts command) (hincoming : incoming.flatten = command ++ payload)
    (htext : validUtf8 payload = true) :
    ∃ outcome, handleConnection accepts incoming = some outcome ∧
      (Meets payload outcome ↔ CutHarmless payload (injectBudget incoming)) := by
  obtain ⟨heq, hfront⟩ := handleConnection_eq hcommand hincoming htext
  exact ⟨_, heq, hfront.meets_iff⟩

/-! ## A line lost in silence -/

/-- `inject input a` -/
def injectInputA : Bytes :=
    [105, 110, 106, 101, 99, 116, 32, 105, 110, 112, 117, 116, 32, 97, newline]

theorem isCommand_injectInputA : IsCommand (fun _ => true) injectInputA where
  line := rfl
  ended := rfl
  short := by decide
  accepted := rfl

theorem inject_meets_iff_a : ∃ outcome,
    handleConnection (fun _ => true) [injectInputA, [97, newline]] = some outcome ∧
      (Meets [97, newline] outcome ↔
        CutHarmless [97, newline] (injectBudget [injectInputA, [97, newline]])) :=
  inject_meets_iff isCommand_injectInputA rfl (validUtf8_of_ascii (by decide))

/-- A line that ends in `é`, with the cap inside it. -/
def cutInCharacter : Bytes :=
  List.replicate (maxInjectBytes + 14) 97 ++ [0xC3, 0xA9, newline]

theorem validUtf8_cutInCharacter : validUtf8 cutInCharacter = true := by
  refine validUtf8_append (validUtf8_of_ascii fun b hb => ?_) (validUtf8_iff.mpr ⟨['é', '\n'], rfl⟩)
  rw [List.eq_of_mem_replicate hb]
  decide

theorem stream_cutInCharacter :
    (payloadReader [injectInputA, cutInCharacter]).stream =
      List.replicate (maxInjectBytes + 14) 97 ++ [0xC3] := by
  have hread := readUntil_piece isCommand_injectInputA.line
    (List.mem_of_getLast? isCommand_injectInputA.ended) isCommand_injectInputA.short (by decide)
    [cutInCharacter]
  have hlength : maxInjectBytes + injectInputA.length =
      (List.replicate (maxInjectBytes + 14) (97 : UInt8)).length + 1 := by
    rw [List.length_replicate]
    rfl
  calc (payloadReader [injectInputA, cutInCharacter]).stream
      = cutInCharacter.take (maxInjectBytes + injectInputA.length) := by
        rw [payloadReader, hread]
        simp [LimitedReader.stream]
    _ = List.replicate (maxInjectBytes + 14) 97 ++ [0xC3] := by
        rw [hlength, cutInCharacter, List.take_length_add_append]
        rfl

/-- The line is lost, and the response has no error. -/
theorem inject_loses_line :
    handleConnection (fun _ => true) [injectInputA, cutInCharacter] = some ⟨[], 0, none⟩ ∧
      ¬ Meets cutInCharacter ⟨[], 0, none⟩ := by
  have hincoming : [injectInputA, cutInCharacter].flatten = injectInputA ++ cutInCharacter := by
    simp
  obtain ⟨heq, hfront⟩ :=
    handleConnection_eq isCommand_injectInputA hincoming validUtf8_cutInCharacter
  have hnot : newline ∉ (payloadReader [injectInputA, cutInCharacter]).stream := by
    rw [stream_cutInCharacter, List.mem_append, List.mem_replicate]
    simp [newline]
  have hinvalid : validUtf8 (payloadReader [injectInputA, cutInCharacter]).stream = false := by
    rw [stream_cutInCharacter, Bool.eq_false_iff]
    intro hvalid
    have hfirst : UInt8.IsUTF8FirstByte 0xC3 := by decide
    exact absurd (validUtf8_of_append hfirst hvalid).2 (by decide +kernel)
  have hcomplete := completePart_eq_nil.mpr hnot
  have htail := completePart_append_unterminated (d := newline)
    (payloadReader [injectInputA, cutInCharacter]).stream
  rw [hcomplete, List.nil_append] at htail
  have hinjected := hfront.injected
  rw [htail, hinvalid, hcomplete] at hinjected
  refine ⟨?_, fun hmeets => ?_⟩
  · rw [heq, handleInject, hinjected]
    rfl
  · have hsilent := not_not.mp fun hne => Bool.false_ne_true (hmeets.notSilent hne)
    have hline : takeLine newline cutInCharacter =
        List.replicate (maxInjectBytes + 14) 97 ++ [0xC3, 0xA9, newline] :=
      takeLine_append_of_notMem (by simp [newline]) _
    have hblank : trimLineEnd (takeLine newline cutInCharacter) ≠ [] := fun hnil =>
      absurd (ascii_of_trimLineEnd_eq_nil hnil 0xC3 (by simp [hline])) (by decide)
    rw [eventsOf_line rfl hblank] at hsilent
    exact nomatch hsilent

end Limpid.Control
