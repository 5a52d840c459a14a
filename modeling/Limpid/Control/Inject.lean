import Limpid.Lines
import Limpid.Utf8

/-!
# The inject command

`handle_connection` and `handle_inject` of `control.rs`.  The command line is read through a
`BufReader` over a `Take` with the limit `MAX_COMMAND_LEN`; for an `inject` command the limit is
then raised to `MAX_INJECT_BYTES` and the length of the command line, and every further line is
injected as one event.

A `LimitedReader` is that reader: what is buffered, what the limit lets through, and the pieces the
socket will deliver.  `readUntil` is what `read_line` reads before it looks at the characters; what
it returns depends on the stream only, not on the pieces (`readUntil_eq`).

The command's words and its target are a parameter: `accepts` says that the line is an inject
command in raw mode for a target that exists.
-/

namespace Limpid.Control

open Lines

/-- `MAX_COMMAND_LEN`. -/
def maxCommandLen : ℕ := 4096

/-- `MAX_INJECT_BYTES`. -/
def maxInjectBytes : ℕ := 16 * 1024 * 1024

/-- The capacity of a `BufReader`. -/
def bufCapacity : ℕ := 8 * 1024

/-- The buffer over the connection, with the bytes it may still give. -/
structure LimitedReader where
  buffer : Bytes
  limit : ℕ
  incoming : List Bytes

/-- One read into the empty buffer.  Empty pieces are waited out, and what does not fit is left for
the next read.  Nothing is read once the limit has been reached, or at the end of the stream. -/
def fill (limit : ℕ) : List Bytes → LimitedReader
  | [] => ⟨[], limit, []⟩
  | piece :: incoming =>
    if limit = 0 then ⟨[], 0, piece :: incoming⟩
    else if piece = [] then fill limit incoming
    else
      let count := min (min limit bufCapacity) piece.length
      ⟨piece.take count, limit - count, piece.drop count :: incoming⟩

/-- The bytes that are still to be read. -/
def LimitedReader.stream (reader : LimitedReader) : Bytes :=
  reader.buffer ++ reader.incoming.flatten.take reader.limit

/-- What one read leaves of the stream and of the limit. -/
theorem fill_spec (limit : ℕ) (incoming : List Bytes) :
    incoming.flatten = (fill limit incoming).buffer ++ (fill limit incoming).incoming.flatten ∧
      limit = (fill limit incoming).buffer.length + (fill limit incoming).limit ∧
      ((fill limit incoming).buffer = [] → limit = 0 ∨ incoming.flatten = []) := by
  induction incoming with
  | nil => simp [fill]
  | cons piece incoming ih =>
      unfold fill
      by_cases hlimit : limit = 0
      · rw [if_pos hlimit]
        exact ⟨rfl, hlimit, fun _ => .inl hlimit⟩
      · rw [if_neg hlimit]
        by_cases hpiece : piece = []
        · rw [if_pos hpiece, hpiece]
          exact ih
        · rw [if_neg hpiece]
          have hpos : 0 < piece.length := List.length_pos_of_ne_nil hpiece
          have hcapacity : 0 < bufCapacity := by decide
          have hcount : min (min limit bufCapacity) piece.length ≤ piece.length := min_le_right ..
          have hlength : (piece.take (min (min limit bufCapacity) piece.length)).length =
            min (min limit bufCapacity) piece.length := List.length_take_of_le hcount
          refine ⟨?_, ?_, fun hempty => ?_⟩
          · simp [← List.append_assoc]
          · simp only
            omega
          · simp only at hempty
            rw [hempty, List.length_nil] at hlength
            omega

/-- The bytes read on one call of `read_until(b'\n')`. -/
def readUntil (reader : LimitedReader) : Bytes × LimitedReader :=
  if newline ∈ reader.buffer then
    let line := takeLine newline reader.buffer
    (line, { reader with buffer := reader.buffer.drop line.length })
  else
    let filled := fill reader.limit reader.incoming
    if _hfilled : filled.buffer = [] then
      (reader.buffer, filled)
    else
      let (line, rest) := readUntil filled
      (reader.buffer ++ line, rest)
termination_by reader.incoming.flatten.length
decreasing_by
  have hspec := congrArg List.length (fill_spec reader.limit reader.incoming).1
  have hpos : 0 < (fill reader.limit reader.incoming).buffer.length :=
    List.length_pos_of_ne_nil _hfilled
  rw [List.length_append] at hspec
  omega

/-- The socket has at least as many bytes as the limit lets through. -/
def LimitedReader.Overrun (reader : LimitedReader) : Prop :=
  reader.limit ≤ reader.incoming.flatten.length

instance (reader : LimitedReader) : Decidable reader.Overrun := inferInstanceAs (Decidable (_ ≤ _))

/-- **Reading a line**: what is returned is the first line of the stream, however it is cut. -/
theorem readUntil_spec (reader : LimitedReader) :
    (readUntil reader).1 = takeLine newline reader.stream ∧
      (readUntil reader).2.stream = reader.stream.drop (takeLine newline reader.stream).length ∧
      ((readUntil reader).2.Overrun ↔ reader.Overrun) := by
  fun_induction readUntil reader with
  | case1 reader hnewline line =>
      have hline : takeLine newline reader.stream = line := takeLine_append_of_mem hnewline _
      have hle : line.length ≤ reader.buffer.length := length_takeLine_le _
      refine ⟨hline.symm, ?_, Iff.rfl⟩
      rw [hline, LimitedReader.stream, LimitedReader.stream, List.drop_append_of_le_length hle]
  | case2 reader hnewline filled hfilled =>
      obtain ⟨hincoming, hlimit, hend⟩ := fill_spec reader.limit reader.incoming
      have hbuffer : (fill reader.limit reader.incoming).buffer = [] := hfilled
      rw [hbuffer, List.nil_append] at hincoming
      rw [hbuffer, List.length_nil, Nat.zero_add] at hlimit
      have hrest : reader.incoming.flatten.take reader.limit = [] := by
        rcases hend hbuffer with hzero | hnil
        · rw [hzero, List.take_zero]
        · rw [hnil, List.take_nil]
      have hstream : reader.stream = reader.buffer := by
        rw [LimitedReader.stream, hrest, List.append_nil]
      have hfilled' : filled.stream = [] := by
        show (fill _ _).buffer ++ (fill _ _).incoming.flatten.take (fill _ _).limit = []
        rw [hbuffer, ← hincoming, ← hlimit, hrest, List.append_nil]
      rw [hstream, takeLine_of_notMem hnewline]
      refine ⟨rfl, by rw [hfilled', List.drop_length], ?_⟩
      show (fill _ _).limit ≤ (fill _ _).incoming.flatten.length ↔ _
      rw [← hlimit, ← hincoming]
      exact Iff.rfl
  | case3 reader hnewline filled hfilled line rest heq ih =>
      obtain ⟨hincoming, hlimit, -⟩ : reader.incoming.flatten =
          filled.buffer ++ filled.incoming.flatten ∧
        reader.limit = filled.buffer.length + filled.limit ∧ _ := fill_spec ..
      rw [heq] at ih
      obtain ⟨hline, hrest, hoverrun⟩ := ih
      -- what was not buffered is now, or is still let through
      have hstream : reader.stream = reader.buffer ++ filled.stream := by
        rw [LimitedReader.stream, LimitedReader.stream, hincoming, hlimit,
          List.take_length_add_append]
      rw [hstream, takeLine_append_of_notMem hnewline]
      refine ⟨congrArg (reader.buffer ++ ·) hline, ?_, hoverrun.trans ?_⟩
      · rw [List.length_append, List.drop_length_add_append]
        exact hrest
      · have hlength := congrArg List.length hincoming
        rw [List.length_append] at hlength
        unfold LimitedReader.Overrun
        omega

/-- No byte is lost. -/
theorem readUntil_append (reader : LimitedReader) :
    (readUntil reader).1 ++ ((readUntil reader).2.buffer ++ (readUntil reader).2.incoming.flatten) =
      reader.buffer ++ reader.incoming.flatten := by
  fun_induction readUntil reader with
  | case1 reader hnewline line =>
      simp only [← List.append_assoc, line, takeLine_append_drop]
  | case2 reader hnewline filled hfilled =>
      obtain ⟨hincoming, -, -⟩ : reader.incoming.flatten =
        filled.buffer ++ filled.incoming.flatten ∧ _ := fill_spec ..
      simp only [hincoming]
  | case3 reader hnewline filled hfilled line rest heq ih =>
      obtain ⟨hincoming, -, -⟩ : reader.incoming.flatten =
        filled.buffer ++ filled.incoming.flatten ∧ _ := fill_spec ..
      rw [heq] at ih
      simp only [List.append_assoc, hincoming, ih]

/-- A line that comes in a piece of its own leaves nothing in the buffer. -/
theorem readUntil_piece {line : Bytes} {limit : ℕ} (hline : takeLine newline line = line)
    (hend : newline ∈ line) (hlimit : line.length ≤ limit) (hcapacity : line.length ≤ bufCapacity)
    (incoming : List Bytes) :
    readUntil ⟨[], limit, line :: incoming⟩ =
      (line, ⟨[], limit - line.length, [] :: incoming⟩) := by
  have hne : line ≠ [] := List.ne_nil_of_mem hend
  have hpos := List.length_pos_of_ne_nil hne
  have hcount : min (min limit bufCapacity) line.length = line.length := by omega
  have hfill : fill limit (line :: incoming) = ⟨line, limit - line.length, [] :: incoming⟩ := by
    rw [fill, if_neg (by omega), if_neg hne]
    simp only [hcount, List.take_length, List.drop_length]
  rw [readUntil, if_neg List.not_mem_nil]
  simp only [hfill]
  rw [dif_neg hne, readUntil, if_pos hend]
  simp [hline]

theorem length_stream_readUntil {reader : LimitedReader} (h : (readUntil reader).1 ≠ []) :
    (readUntil reader).2.stream.length < reader.stream.length := by
  obtain ⟨hline, hrest, -⟩ := readUntil_spec reader
  rw [hline] at h
  have hpos : 0 < (takeLine newline reader.stream).length := List.length_pos_of_ne_nil h
  have hle : (takeLine newline reader.stream).length ≤ reader.stream.length :=
    length_takeLine_le _
  rw [hrest, List.length_drop]
  omega

/-! ## The commands -/

/-- `trim_end_matches(['\n', '\r'])`. -/
def trimLineEnd (line : Bytes) : Bytes :=
  line.rdropWhile fun b => b = newline || b = carriageReturn

/-- The loop of `handle_inject`, for a downstream that stays open: the events injected, and
`limit_exceeded`.  A line that is no text is a read error. -/
def injectLoop (reader : LimitedReader) : List Bytes × Bool :=
  if _hline : (readUntil reader).1 = [] then
    ([], (readUntil reader).2.limit = 0)
  else if validUtf8 (readUntil reader).1 = false then
    ([], false)
  else
    let (events, limitExceeded) := injectLoop (readUntil reader).2
    let trimmed := trimLineEnd (readUntil reader).1
    (if trimmed = [] then events else trimmed :: events, limitExceeded)
termination_by reader.stream.length
decreasing_by exact length_stream_readUntil _hline

/-- The response to `inject`. -/
structure InjectResponse where
  injected : ℕ
  error : Option String

/-- What an inject command comes to: the events, and the response. -/
structure InjectOutcome where
  events : List Bytes
  response : InjectResponse

/-- `handle_inject`: the lines are read and sent until the payload ends. -/
def handleInject (reader : LimitedReader) : InjectOutcome :=
  let (events, limitExceeded) := injectLoop reader
  ⟨events, events.length,
    if limitExceeded then some s!"inject payload exceeded {maxInjectBytes} byte cap" else none⟩

/-- `handle_connection` for an inject command, which gets `none` when the command is refused. -/
def handleConnection (accepts : Bytes → Bool) (incoming : List Bytes) : Option InjectOutcome :=
  let (line, reader) := readUntil ⟨[], maxCommandLen, incoming⟩
  if line.getLast? ≠ some newline then none
  else if accepts line then
    some (handleInject { reader with limit := maxInjectBytes + line.length })
  else none

/-! ## What is injected -/

theorem handleInject_error_isSome (reader : LimitedReader) :
    (handleInject reader).response.error.isSome = (injectLoop reader).2 := by
  unfold handleInject
  rcases injectLoop reader with ⟨events, _ | _⟩ <;> rfl

/-- The events of a stream. -/
def eventsOf (stream : Bytes) : List Bytes :=
  ((lines newline stream).map trimLineEnd).filter (· ≠ [])

/-- The loop over the lines of the stream. -/
def injectLines (overrun : Bool) : List Bytes → List Bytes × Bool
  | [] => ([], overrun)
  | line :: rest =>
    if validUtf8 line = false then ([], false)
    else
      let (events, limitExceeded) := injectLines overrun rest
      (if trimLineEnd line = [] then events else trimLineEnd line :: events, limitExceeded)

/-- At the end of the stream the limit tells whether it has been reached. -/
theorem limit_eq_zero_iff {reader : LimitedReader} (h : reader.stream = []) :
    reader.limit = 0 ↔ reader.Overrun := by
  have htake : reader.incoming.flatten.take reader.limit = [] := (List.append_eq_nil_iff.mp h).2
  unfold LimitedReader.Overrun
  rcases List.take_eq_nil_iff.mp htake with hzero | hnil
  · simp [hzero]
  · simp [hnil]

theorem injectLoop_eq (reader : LimitedReader) :
    injectLoop reader = injectLines reader.Overrun (lines newline reader.stream) := by
  fun_induction injectLoop reader with
  | case1 reader hline =>
      obtain ⟨heq, hrest, hoverrun⟩ := readUntil_spec reader
      have hstream : reader.stream = [] := takeLine_eq_nil.mp (heq ▸ hline)
      have hend : (readUntil reader).2.stream = [] := by rw [hrest, hstream, List.drop_nil]
      rw [hstream, lines_nil, injectLines]
      simp only [limit_eq_zero_iff hend, hoverrun]
  | case2 reader hline hinvalid =>
      obtain ⟨heq, -, -⟩ := readUntil_spec reader
      have hne : reader.stream ≠ [] := fun hnil => hline (by rw [heq, hnil, takeLine_nil])
      rw [lines_cons_eq_takeLine hne, injectLines, ← heq, if_pos hinvalid]
  | case3 reader hline hvalid events limitExceeded hloop trimmed ih =>
      obtain ⟨heq, hrest, hoverrun⟩ := readUntil_spec reader
      have hne : reader.stream ≠ [] := fun hnil => hline (by rw [heq, hnil, takeLine_nil])
      have hrec : injectLines reader.Overrun (lines newline (readUntil reader).2.stream) =
          (events, limitExceeded) := by
        rw [← hloop, ih, decide_eq_decide.mpr hoverrun]
      rw [lines_cons_eq_takeLine hne, injectLines, ← hrest, hrec, ← heq, if_neg hvalid]

theorem injectLines_append {overrun : Bool} {full : List Bytes}
    (hfull : ∀ line ∈ full, validUtf8 line = true) (rest : List Bytes) :
    injectLines overrun (full ++ rest) =
      ((full.map trimLineEnd).filter (· ≠ []) ++ (injectLines overrun rest).1,
        (injectLines overrun rest).2) := by
  induction full with
  | nil => rfl
  | cons line full ih =>
      obtain ⟨hline, hmore⟩ := List.forall_mem_cons.mp hfull
      rw [List.cons_append, injectLines, ih hmore, if_neg (by simp [hline])]
      by_cases htrim : trimLineEnd line = []
      · simp [htrim]
      · simp [htrim]

/-- What is injected of a stream whose whole lines are texts: a last line that is no text stops the
loop without an error. -/
theorem injectLoop_cases {reader : LimitedReader}
    (hvalid : ∀ line ∈ lines newline (completePart newline reader.stream), validUtf8 line = true) :
    injectLoop reader =
      if validUtf8 (unterminated newline reader.stream) = true then
        (eventsOf reader.stream, decide reader.Overrun)
      else (eventsOf (completePart newline reader.stream), false) := by
  rw [injectLoop_eq, lines_eq_completePart, injectLines_append hvalid, eventsOf, eventsOf,
    lines_eq_completePart reader.stream]
  by_cases htail : unterminated newline reader.stream = []
  · simp [htail, injectLines]
  · by_cases hutf8 : validUtf8 (unterminated newline reader.stream) = true
    · simp only [htail, hutf8, injectLines, if_true, if_false, Bool.true_eq_false, List.map_append,
        List.filter_append]
      by_cases htrim : trimLineEnd (unterminated newline reader.stream) = []
      · simp [htrim]
      · simp [htrim]
    · simp [htail, hutf8, injectLines]

end Limpid.Control
