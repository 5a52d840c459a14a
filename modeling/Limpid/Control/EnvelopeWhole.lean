import Limpid.Control.EnvelopeDecode

/-!
# Requests in envelopes arrive whole

The writer and the client only ever put a beginning of blocks and the mark of the end on the pipe
(`Sender.inv_run`, `Caller.inv_run`).  Of such a beginning `decode` gives a beginning of what was
written, and says that the request is done only when the mark has arrived whole
(`decode_prefix`).  Hence a request that was cut off is never taken for a whole one
(`request_exact`, `client_request_exact`), and a whole one is read to its end
(`request_delivered`).
-/

namespace Limpid.Control.Envelope

open Wire (toBe ofBe)

/-! ## Blocks on the pipe -/

/-- A block is not empty, since a length of zero is the mark of the end. -/
def Frame (bytes : Bytes) : Prop := bytes ≠ [] ∧ bytes.length ≤ maxFrame

/-- The blocks of the frames of a request. -/
def blocks (frames : List Bytes) : Bytes := frames.flatMap block

@[simp] theorem blocks_nil : blocks [] = [] := rfl

@[simp] theorem blocks_cons (frame : Bytes) (frames : List Bytes) :
    blocks (frame :: frames) = block frame ++ blocks frames := rfl

theorem blocks_append (frames more : List Bytes) :
    blocks (frames ++ more) = blocks frames ++ blocks more := List.flatMap_append

theorem frame_take {bytes : Bytes} (h : min bytes.length maxFrame ≠ 0) :
    Frame (bytes.take (min bytes.length maxFrame)) := by
  have hlength : (bytes.take (min bytes.length maxFrame)).length = min bytes.length maxFrame := by
    rw [List.length_take]
    omega
  constructor
  · intro hnil
    rw [hnil, List.length_nil] at hlength
    exact h hlength.symm
  · rw [hlength]
    exact min_le_right _ _

theorem decode_short {input : Bytes} (h : input.length < 4) : decode input = ([], .truncated) := by
  rw [decode, if_pos h]

theorem decode_finish : decode finish = ([], .done) := by
  rw [decode, if_neg (by decide), if_neg (by decide), if_pos (by decide)]

theorem decode_frame {frame : Bytes} (h : Frame frame) (rest : Bytes) :
    decode (toBe 4 frame.length ++ rest) = payload frame.length rest := by
  have hfour : (toBe 4 frame.length).length = 4 := Wire.length_toBe _ _
  have htake : (toBe 4 frame.length ++ rest).take 4 = toBe 4 frame.length :=
    List.take_left' hfour
  have hdrop : (toBe 4 frame.length ++ rest).drop 4 = rest := List.drop_left' hfour
  have hvalue : ofBe (toBe 4 frame.length) = frame.length := by
    apply Wire.ofBe_toBe
    calc frame.length ≤ maxFrame := h.2
      _ < 256 ^ 4 := by decide
  rw [decode_eq, htake, hdrop, hvalue]
  · rw [List.length_append, hfour]
    omega
  · rw [htake, hvalue]
    exact h.2
  · rw [htake, hvalue]
    exact mt List.eq_nil_of_length_eq_zero h.1

/-- **A beginning of what was sent** is decoded to a beginning of what was written. -/
theorem decode_prefix {frames : List Bytes} (hframes : ∀ frame ∈ frames, Frame frame)
    {wire : Bytes} (hwire : wire <+: blocks frames ++ finish) :
    (decode wire).1 <+: frames.flatten ∧ (decode wire).2 ≠ .oversized ∧
      ((decode wire).2 = .done →
        wire = blocks frames ++ finish ∧ (decode wire).1 = frames.flatten) := by
  induction frames generalizing wire with
  | nil =>
      rw [blocks_nil, List.nil_append] at hwire
      by_cases hshort : wire.length < 4
      · rw [decode_short hshort]
        exact ⟨List.prefix_refl _, by simp, by simp⟩
      · -- the mark has arrived
        have hwhole : wire = finish := hwire.eq_of_length_le (by simpa [finish] using hshort)
        rw [hwhole, decode_finish]
        exact ⟨List.prefix_refl _, by simp, fun _ => ⟨rfl, rfl⟩⟩
  | cons frame frames ih =>
      obtain ⟨hframe, hframes⟩ := List.forall_mem_cons.mp hframes
      rw [blocks_cons, block, List.append_assoc, List.append_assoc] at hwire
      by_cases hshort : wire.length < 4
      · rw [decode_short hshort]
        exact ⟨List.nil_prefix, by simp, by simp⟩
      · -- the header has arrived, so what follows it is a beginning of the frame and the rest
        obtain ⟨rest, rfl⟩ : toBe 4 frame.length <+: wire :=
          List.prefix_of_prefix_length_le (List.prefix_append _ _) hwire
            (by rw [Wire.length_toBe]; omega)
        have hrest := (List.prefix_append_right_inj _).mp hwire
        rw [decode_frame hframe, payload, blocks_cons, block, List.flatten_cons]
        by_cases hpart : rest.length < frame.length
        · rw [if_pos hpart]
          have hbegin : rest <+: frame :=
            List.prefix_of_prefix_length_le hrest (List.prefix_append _ _) (by omega)
          exact ⟨hbegin.trans (List.prefix_append _ _), by simp, by simp⟩
        · obtain ⟨more, rfl⟩ : frame <+: rest :=
            List.prefix_of_prefix_length_le (List.prefix_append _ _) hrest (by omega)
          have hmore := (List.prefix_append_right_inj _).mp hrest
          obtain ⟨hbegin, hsize, hdone⟩ := ih hframes hmore
          rw [if_neg hpart, List.take_left, List.drop_left]
          refine ⟨(List.prefix_append_right_inj _).mpr hbegin, hsize, ?_⟩
          intro hend
          obtain ⟨hwhole, heq⟩ := hdone hend
          constructor
          · conv_lhs => rw [hwhole]
            simp only [List.append_assoc]
          · change frame ++ (decode more).1 = _
            rw [heq]

theorem decode_whole {frames : List Bytes} (hframes : ∀ frame ∈ frames, Frame frame) :
    decode (blocks frames ++ finish) = (frames.flatten, .done) := by
  induction frames with
  | nil => exact decode_finish
  | cons frame frames ih =>
      obtain ⟨hframe, hframes⟩ := List.forall_mem_cons.mp hframes
      rw [blocks_cons, block, List.append_assoc, List.append_assoc, decode_frame hframe, payload,
        if_neg (by rw [List.length_append]; omega), List.take_left, List.drop_left, ih hframes]
      rfl

/-! ## The writer sends blocks -/

/-- What has been written and what has been sent of it. -/
structure Sender where
  writer : Writer := {}
  wire : Bytes := []
  /-- The bytes of all successful writes. -/
  accepted : Bytes := []
  /-- Some shutdown has succeeded. -/
  finished : Bool := false

/-- An operation on the writer. -/
inductive Sender.Op where
  | write (bytes : Bytes) (answers : List Answer)
  | flush (answers : List Answer) (flush : Poll Unit)
  | shutdown (answers : List Answer) (flush : Poll Unit)

/-- One operation of the sender. -/
def Sender.step (sender : Sender) : Sender.Op → Sender
  | .write bytes answers =>
      match sender.writer.pollWrite sender.wire bytes answers with
      | ⟨.ready (.ok count), writer, wire, _⟩ =>
          { sender with writer, wire, accepted := sender.accepted ++ bytes.take count }
      | ⟨_, writer, wire, _⟩ => { sender with writer, wire }
  | .flush answers flush =>
      match sender.writer.pollFlush sender.wire answers flush with
      | ⟨_, writer, wire, _⟩ => { sender with writer, wire }
  | .shutdown answers flush =>
      match sender.writer.pollShutdown sender.wire answers flush with
      | ⟨.ready (.ok ()), writer, wire, _⟩ => { sender with writer, wire, finished := true }
      | ⟨_, writer, wire, _⟩ => { sender with writer, wire }

/-- The operations of a sender, one after another. -/
def Sender.run (ops : List Sender.Op) : Sender := ops.foldl Sender.step {}

/-- What is on the pipe together with what waits to be sent. -/
def Writer.all (writer : Writer) (wire : Bytes) : Bytes := wire ++ writer.pending.drop writer.offset

/-- What `drain` does, however it ends. -/
structure Drained (writer : Writer) (wire : Bytes) (after : Written Unit) : Prop where
  ended : after.writer.ended = writer.ended
  all : after.writer.all after.wire = writer.all wire
  empty : after.poll = .ready (.ok ()) → after.writer.pending = [] ∧ after.writer.offset = 0
  still : writer.pending = [] → after.writer.pending = []

theorem Writer.drained (writer : Writer) (wire : Bytes) (answers : List Answer) :
    Drained writer wire (writer.drain wire answers) := by
  have hempty : ∀ {writer : Writer} {wire : Bytes} {answers : List Answer},
      ¬writer.offset < writer.pending.length →
      Drained writer wire
        ⟨.ready (.ok ()), { writer with pending := [], offset := 0 }, wire, answers⟩ := by
    intro writer wire answers h
    refine ⟨rfl, ?_, fun _ => ⟨rfl, rfl⟩, fun _ => rfl⟩
    simp [Writer.all, List.drop_eq_nil_of_le (Nat.not_lt.mp h)]
  induction answers generalizing writer wire with
  | nil =>
      unfold Writer.drain
      split
      · exact ⟨rfl, rfl, nofun, id⟩
      · next h => exact hempty h
  | cons answer answers ih =>
      unfold Writer.drain
      split
      · cases answer with
        | pending => exact ⟨rfl, rfl, nofun, id⟩
        | failed => exact ⟨rfl, rfl, nofun, id⟩
        | moved count =>
            dsimp only
            split
            · exact ⟨rfl, rfl, nofun, id⟩
            · -- what has moved to the pipe no longer waits
              have hstep := ih
                { writer with offset := writer.offset +
                    ((writer.pending.drop writer.offset).take count).length }
                (wire ++ (writer.pending.drop writer.offset).take count)
              refine ⟨hstep.ended, hstep.all.trans ?_, hstep.empty, hstep.still⟩
              unfold Writer.all
              dsimp only
              rw [← List.drop_drop, List.append_assoc, List.length_take]
              congr 1
              rcases Nat.le_total count (writer.pending.drop writer.offset).length with h | h
              · rw [Nat.min_eq_left h, List.take_append_drop]
              · rw [Nat.min_eq_right h, List.take_of_length_le h, List.drop_length,
                  List.append_nil]
      · next h => exact hempty h

/-- Blocks of what was accepted are on the pipe or wait, and the mark after them once the request
is at its end; nothing waits after a shutdown. -/
structure Sender.Inv (sender : Sender) : Prop where
  all : ∃ frames : List Bytes, (∀ frame ∈ frames, Frame frame) ∧ frames.flatten = sender.accepted ∧
    sender.writer.all sender.wire = blocks frames ++ (if sender.writer.ended then finish else [])
  finished : sender.finished = true → sender.writer.ended = true ∧ sender.writer.pending = []

theorem Sender.Inv.drained {sender : Sender} (h : sender.Inv) {after : Written Unit}
    (hafter : Drained sender.writer sender.wire after) :
    Sender.Inv { sender with writer := after.writer, wire := after.wire } := by
  refine ⟨?_, ?_⟩
  · rw [hafter.all, hafter.ended]
    exact h.all
  · intro hfinished
    obtain ⟨hended, hempty⟩ := h.finished hfinished
    exact ⟨hafter.ended.trans hended, hafter.still hempty⟩

/-- After what waited has been sent, a block of at most `maxFrame` bytes may wait. -/
theorem Sender.Inv.write {sender : Sender} (h : sender.Inv) (hended : sender.writer.ended = false)
    (hpending : sender.writer.pending = []) (hoffset : sender.writer.offset = 0) {bytes : Bytes}
    (hcount : min bytes.length maxFrame ≠ 0) :
    Sender.Inv { sender with
      writer := { sender.writer with
        pending := sender.writer.pending ++ toBe 4 (min bytes.length maxFrame) ++
          bytes.take (min bytes.length maxFrame) },
      accepted := sender.accepted ++ bytes.take (min bytes.length maxFrame) } := by
  obtain ⟨frames, hframes, haccepted, hall⟩ := h.all
  refine ⟨⟨frames ++ [bytes.take (min bytes.length maxFrame)], ?_, ?_, ?_⟩, ?_⟩
  · intro frame hframe
    rcases List.mem_append.mp hframe with hold | hnew
    · exact hframes frame hold
    · rw [List.mem_singleton.mp hnew]
      exact frame_take hcount
  · rw [List.flatten_append, haccepted]
    simp
  · simp only [Writer.all, hended, hpending, List.drop_nil, List.append_nil] at hall
    have hlength : (bytes.take (min bytes.length maxFrame)).length = min bytes.length maxFrame := by
      rw [List.length_take]
      omega
    simp [Writer.all, hended, hpending, hoffset, hall, blocks_append, block, hlength]
  · intro hfinished
    rw [(h.finished hfinished).1] at hended
    cases hended

theorem Sender.Inv.mark {sender : Sender} (h : sender.Inv) (hended : sender.writer.ended = false)
    (hpending : sender.writer.pending = []) (hoffset : sender.writer.offset = 0) :
    Sender.Inv { sender with
      writer := { sender.writer with
        pending := sender.writer.pending ++ toBe 4 0, ended := true } } := by
  obtain ⟨frames, hframes, haccepted, hall⟩ := h.all
  refine ⟨⟨frames, hframes, haccepted, ?_⟩, ?_⟩
  · simp only [Writer.all, hended, hpending, List.drop_nil, List.append_nil] at hall
    simp [Writer.all, hpending, hoffset, hall, finish]
  · intro hfinished
    rw [(h.finished hfinished).1] at hended
    cases hended

theorem Sender.Inv.step {sender : Sender} (h : sender.Inv) (op : Sender.Op) :
    (sender.step op).Inv := by
  cases op with
  | write bytes answers =>
      unfold Sender.step Writer.pollWrite
      dsimp only
      by_cases hended : sender.writer.ended = true
      · rw [if_pos hended]
        exact h
      · rw [if_neg hended]
        have hd := sender.writer.drained sender.wire answers
        have hnext := h.drained hd
        cases hdrain : sender.writer.drain sender.wire answers with
        | mk poll writer wire answers =>
        rw [hdrain] at hd hnext
        cases poll with
        | pending => exact hnext
        | ready result =>
          cases result with
          | error e => exact hnext
          | ok _ =>
            obtain ⟨hpending, hoffset⟩ := hd.empty rfl
            dsimp only
            by_cases hcount : min bytes.length maxFrame = 0
            · rw [if_neg (not_not.mpr hcount), hcount]
              simpa using hnext
            · rw [if_pos hcount]
              exact hnext.write (hd.ended.trans (Bool.eq_false_of_not_eq_true hended)) hpending
                hoffset hcount
  | flush answers flush =>
      unfold Sender.step Writer.pollFlush
      dsimp only
      have hnext := h.drained (sender.writer.drained sender.wire answers)
      cases hdrain : sender.writer.drain sender.wire answers with
      | mk poll writer wire answers =>
      rw [hdrain] at hnext
      cases poll with
      | pending => exact hnext
      | ready result =>
        cases result with
        | error e => exact hnext
        | ok _ => exact hnext
  | shutdown answers flush =>
      unfold Sender.step Writer.pollShutdown
      dsimp only
      have hd := sender.writer.drained sender.wire answers
      have hnext := h.drained hd
      cases hdrain : sender.writer.drain sender.wire answers with
      | mk poll writer wire answers =>
      rw [hdrain] at hd hnext
      cases poll with
      | pending => exact hnext
      | ready result =>
        cases result with
        | error e => exact hnext
        | ok _ =>
          obtain ⟨hpending, hoffset⟩ := hd.empty rfl
          dsimp only
          -- the mark waits, now or since an earlier shutdown
          obtain ⟨marked, hmarked, hended, hinv⟩ : ∃ marked : Writer,
              (if (!writer.ended) = true then
                { writer with pending := writer.pending ++ toBe 4 0, ended := true } else writer) =
                marked ∧ marked.ended = true ∧
                  Sender.Inv { sender with writer := marked, wire } := by
            by_cases hended : writer.ended = true
            · exact ⟨writer, by simp [hended], hended, hnext⟩
            · exact ⟨_, by rw [if_pos (by simp [hended])], rfl,
                hnext.mark (Bool.eq_false_of_not_eq_true hended) hpending hoffset⟩
          rw [hmarked]
          have hd' := marked.drained wire answers
          have hlast := hinv.drained hd'
          cases hdrain' : marked.drain wire answers with
          | mk poll writer wire answers =>
          rw [hdrain'] at hd' hlast
          cases poll with
          | pending => exact hlast
          | ready result =>
            cases result with
            | error e => exact hlast
            | ok _ =>
              dsimp only
              have hempty := hd'.empty rfl
              cases flush with
              | pending => exact hlast
              | ready result =>
                cases result with
                | error e => exact hlast
                | ok _ => exact ⟨hlast.all, fun _ => ⟨hd'.ended.trans hended, hempty.1⟩⟩

theorem Sender.inv_run (ops : List Sender.Op) : (Sender.run ops).Inv := by
  suffices h : ∀ sender : Sender, sender.Inv → (ops.foldl Sender.step sender).Inv from
    h {} ⟨⟨[], nofun, rfl, rfl⟩, nofun⟩
  induction ops with
  | nil => exact fun _ h => h
  | cons op ops ih => exact fun sender h => ih _ (h.step op)

/-! ## The client sends blocks -/

/-- As `Sender`, with what the write that failed would have sent. -/
structure Caller where
  client : Client := {}
  wire : Bytes := []
  accepted : Bytes := []
  broken : Bytes := []

/-- An operation on the blocking client. -/
inductive Caller.Op where
  | write (bytes : Bytes) (header payload : Option ℕ)
  | shutdown (mark : Option ℕ)

/-- One operation of the caller. -/
def Caller.step (caller : Caller) : Caller.Op → Caller
  | .write bytes header payload =>
      match caller.client.write caller.wire bytes header payload with
      | (.ok count, client, wire) =>
          { caller with client, wire, accepted := caller.accepted ++ bytes.take count }
      | (.error e, client, wire) =>
          let broken := if e = .inner then bytes.take (min bytes.length maxFrame)
            else caller.broken
          { caller with client, wire, broken }
  | .shutdown mark =>
      match caller.client.shutdown caller.wire mark with
      | (_, client, wire) => { caller with client, wire }

/-- The operations of a caller, one after another. -/
def Caller.run (ops : List Caller.Op) : Caller := ops.foldl Caller.step {}

/-- While nothing has failed the pipe holds whole blocks; afterwards it is short of the mark. -/
inductive Caller.Inv (caller : Caller) : Prop where
  | sound (frames : List Bytes) (hframes : ∀ frame ∈ frames, Frame frame)
      (haccepted : frames.flatten = caller.accepted)
      (hpoisoned : caller.client.poisoned = false) (hbroken : caller.broken = [])
      (hwire : caller.wire = blocks frames ++ (if caller.client.ended then finish else []))
  | poisoned (frames : List Bytes) (hframes : ∀ frame ∈ frames, Frame frame)
      (haccepted : frames.flatten = caller.accepted ++ caller.broken)
      (hpoisoned : caller.client.poisoned = true)
      (hwire : caller.wire <+: blocks frames ++ finish)
      (hshort : caller.wire.length < (blocks frames ++ finish).length)

/-- A `write_all` that fails leaves a beginning that is short of what was to be sent. -/
theorem writeAll_short (sent next : Bytes) (hnext : next ≠ []) (rest : Bytes) (count : ℕ) :
    (writeAll sent next (some count)).1 <+: sent ++ (next ++ rest) ∧
      (writeAll sent next (some count)).1.length < (sent ++ (next ++ rest)).length := by
  have hpos := List.length_pos_of_ne_nil hnext
  constructor
  · apply (List.prefix_append_right_inj _).mpr
    exact (List.take_prefix _ _).trans (List.prefix_append _ _)
  · simp only [writeAll, List.length_append, List.length_take]
    omega

theorem Caller.Inv.write {caller : Caller} (h : caller.Inv) (bytes : Bytes)
    (header payload : Option ℕ) : (caller.step (.write bytes header payload)).Inv := by
  unfold Caller.step Client.write
  dsimp only
  cases h with
  | poisoned frames hframes haccepted hpoisoned hwire hshort =>
      rw [if_pos (by simp [hpoisoned])]
      exact .poisoned frames hframes haccepted hpoisoned hwire hshort
  | sound frames hframes haccepted hpoisoned hbroken hwire =>
      by_cases hended : caller.client.ended = true
      · rw [if_pos (by simp [hended])]
        exact .sound frames hframes haccepted hpoisoned hbroken hwire
      · rw [if_neg (by simp [hended, hpoisoned])]
        rw [if_neg hended, List.append_nil] at hwire
        by_cases hcount : min bytes.length maxFrame = 0
        · rw [if_pos hcount]
          refine .sound frames hframes ?_ hpoisoned hbroken ?_
          · simpa using haccepted
          · rw [if_neg hended, List.append_nil]
            exact hwire
        · rw [if_neg hcount]
          have hframe := frame_take hcount
          have hlength : (bytes.take (min bytes.length maxFrame)).length =
              min bytes.length maxFrame := by
            rw [List.length_take]
            omega
          -- the frames that would have been sent
          have hmore : ∀ frame ∈ frames ++ [bytes.take (min bytes.length maxFrame)],
              Frame frame := by
            intro frame hmem
            rcases List.mem_append.mp hmem with hold | hnew
            · exact hframes frame hold
            · rw [List.mem_singleton.mp hnew]
              exact hframe
          have haccepted' : (frames ++ [bytes.take (min bytes.length maxFrame)]).flatten =
              caller.accepted ++ bytes.take (min bytes.length maxFrame) := by
            rw [List.flatten_append, haccepted]
            simp
          have hblocks : blocks (frames ++ [bytes.take (min bytes.length maxFrame)]) =
              caller.wire ++ (toBe 4 (min bytes.length maxFrame) ++
                bytes.take (min bytes.length maxFrame)) := by
            rw [blocks_append, hwire, blocks_cons, block, hlength, blocks_nil, List.append_nil]
          cases header with
          | some count =>
              have hshort := writeAll_short caller.wire (toBe 4 (min bytes.length maxFrame))
                (by simp [toBe]) (bytes.take (min bytes.length maxFrame) ++ finish) count
              refine .poisoned _ hmore haccepted' rfl ?_ ?_ <;>
                rw [hblocks, List.append_assoc, List.append_assoc]
              · exact hshort.1
              · exact hshort.2
          | none =>
            cases payload with
            | some count =>
                have hshort := writeAll_short (caller.wire ++ toBe 4 (min bytes.length maxFrame)) _
                  hframe.1 finish count
                refine .poisoned _ hmore haccepted' rfl ?_ ?_ <;>
                  rw [hblocks, ← List.append_assoc, List.append_assoc]
                · exact hshort.1
                · exact hshort.2
            | none =>
                refine .sound _ hmore haccepted' hpoisoned hbroken ?_
                rw [hblocks]
                simp [writeAll, hended]

theorem Caller.Inv.shutdown {caller : Caller} (h : caller.Inv) (mark : Option ℕ) :
    (caller.step (.shutdown mark)).Inv := by
  unfold Caller.step Client.shutdown
  dsimp only
  cases h with
  | poisoned frames hframes haccepted hpoisoned hwire hshort =>
      rw [if_pos hpoisoned]
      exact .poisoned frames hframes haccepted hpoisoned hwire hshort
  | sound frames hframes haccepted hpoisoned hbroken hwire =>
      rw [if_neg (by simp [hpoisoned])]
      by_cases hended : caller.client.ended = true
      · rw [if_pos hended]
        exact .sound frames hframes haccepted hpoisoned hbroken hwire
      · rw [if_neg hended] at hwire ⊢
        rw [List.append_nil] at hwire
        cases mark with
        | none =>
            refine .sound frames hframes haccepted hpoisoned hbroken ?_
            simp [writeAll, hwire, finish]
        | some count =>
            refine .poisoned frames hframes ?_ rfl ?_ ?_
            · simpa [hbroken] using haccepted
            all_goals
              have hshort := writeAll_short (blocks frames) finish (by decide) [] count
              rw [List.append_nil, ← hwire] at hshort
            · exact hwire ▸ hshort.1
            · exact hwire ▸ hshort.2

theorem Caller.inv_run (ops : List Caller.Op) : (Caller.run ops).Inv := by
  suffices h : ∀ caller : Caller, caller.Inv → (ops.foldl Caller.step caller).Inv from
    h {} (.sound [] nofun rfl rfl rfl rfl)
  induction ops with
  | nil => exact fun _ h => h
  | cons op ops ih =>
      intro caller h
      cases op with
      | write bytes header payload => exact ih _ (h.write bytes header payload)
      | shutdown mark => exact ih _ (h.shutdown mark)

/-! ## What is received -/

/-- What is received of a beginning of what was sent. -/
theorem received {frames : List Bytes} (hframes : ∀ frame ∈ frames, Frame frame) {input : Bytes}
    (hinput : input <+: blocks frames ++ finish) (polls : List Asked) :
    (({ input } : Receiver).run polls).read <+: frames.flatten ∧
      ((({ input } : Receiver).run polls).result = some (.ok ()) →
        input = blocks frames ++ finish ∧
          (({ input } : Receiver).run polls).read = frames.flatten) ∧
      ∀ message, (({ input } : Receiver).run polls).result ≠
        some (.error (.invalidData message)) := by
  obtain ⟨hbegin, hsize, hdone⟩ := decode_prefix hframes hinput
  have hinv := Receiver.inv_run input polls
  generalize ({ input } : Receiver).run polls = receiver at hinv ⊢
  generalize decode input = total at hbegin hsize hdone hinv
  cases hinv with
  | reading hok hended hleft =>
      refine ⟨(List.prefix_append _ _).trans (hleft ▸ hbegin), nofun, nofun⟩
  | done htotal =>
      subst htotal
      obtain ⟨hwhole, hread⟩ := hdone rfl
      exact ⟨hbegin, fun _ => ⟨hwhole, hread⟩, nofun⟩
  | failed hread => exact ⟨hread.trans hbegin, nofun, nofun⟩
  | eof htotal =>
      subst htotal
      exact ⟨hbegin, nofun, nofun⟩
  | oversized htotal =>
      subst htotal
      exact absurd rfl hsize

/-- Blocks without the mark are no whole request. -/
theorem not_whole_of_prefix {frames : List Bytes} {input : Bytes}
    (h : input <+: blocks frames) : input ≠ blocks frames ++ finish := by
  intro hwhole
  have hlength := h.length_le
  rw [hwhole, List.length_append] at hlength
  simp [finish] at hlength

/-- **A request is read as it was written, or not taken for a whole one.**  Whatever the writer is
asked to do and however much of the pipe arrives, the server reads a beginning of what was
accepted; it comes to the end of a request only when the request is at its end, and then it has
read all that was accepted.  It never finds a block too large. -/
theorem request_exact (ops : List Sender.Op) (arrived : ℕ) (polls : List Asked) :
    let sender := Sender.run ops
    let receiver := ({ input := sender.wire.take arrived } : Receiver).run polls
    receiver.read <+: sender.accepted ∧
      (receiver.result = some (.ok ()) →
        sender.writer.ended = true ∧ receiver.read = sender.accepted) ∧
      ∀ message, receiver.result ≠ some (.error (.invalidData message)) := by
  intro sender receiver
  obtain ⟨⟨frames, hframes, haccepted, hall⟩, -⟩ := Sender.inv_run ops
  have harrived : sender.wire.take arrived <+: sender.writer.all sender.wire :=
    (List.take_prefix _ _).trans (List.prefix_append _ _)
  rw [hall] at harrived
  have hinput : sender.wire.take arrived <+: blocks frames ++ finish := by
    apply harrived.trans
    split
    · exact List.prefix_refl _
    · exact (List.prefix_append_right_inj _).mpr List.nil_prefix
  obtain ⟨hread, hdone, hsize⟩ := received hframes hinput polls
  rw [haccepted] at hread hdone
  refine ⟨hread, ?_, hsize⟩
  intro hresult
  obtain ⟨hwhole, heq⟩ := hdone hresult
  refine ⟨?_, heq⟩
  by_contra hended
  rw [if_neg hended, List.append_nil] at harrived
  exact not_whole_of_prefix harrived hwhole

/-- **The same of the blocking client**, whose failed write may have left a part of a block on the
pipe: the server may read some of that block, but does not come to the end of the request. -/
theorem client_request_exact (ops : List Caller.Op) (arrived : ℕ) (polls : List Asked) :
    let caller := Caller.run ops
    let receiver := ({ input := caller.wire.take arrived } : Receiver).run polls
    receiver.read <+: caller.accepted ++ caller.broken ∧
      (receiver.result = some (.ok ()) →
        caller.client.ended = true ∧ caller.client.poisoned = false ∧
          receiver.read = caller.accepted) ∧
      ∀ message, receiver.result ≠ some (.error (.invalidData message)) := by
  intro caller receiver
  have htake : caller.wire.take arrived <+: caller.wire := List.take_prefix _ _
  cases Caller.inv_run ops with
  | sound frames hframes haccepted hpoisoned hbroken hwire =>
      change caller.wire = _ at hwire
      change caller.broken = [] at hbroken
      have hinput : caller.wire.take arrived <+: blocks frames ++ finish := by
        apply htake.trans
        rw [hwire]
        apply (List.prefix_append_right_inj _).mpr
        split
        · exact List.prefix_refl _
        · exact List.nil_prefix
      obtain ⟨hread, hdone, hsize⟩ := received hframes hinput polls
      rw [haccepted] at hread hdone
      refine ⟨by rwa [hbroken, List.append_nil], ?_, hsize⟩
      intro hresult
      obtain ⟨hwhole, heq⟩ := hdone hresult
      refine ⟨?_, hpoisoned, heq⟩
      by_contra hended
      rw [hwire, if_neg hended, List.append_nil] at htake hwhole
      exact not_whole_of_prefix htake hwhole
  | poisoned frames hframes haccepted hpoisoned hwire hshort =>
      obtain ⟨hread, hdone, hsize⟩ := received hframes (htake.trans hwire) polls
      rw [haccepted] at hread
      refine ⟨hread, ?_, hsize⟩
      intro hresult
      have hlength := htake.length_le
      rw [(hdone hresult).1] at hlength
      exact absurd hshort (Nat.not_lt.mpr hlength)

/-- **A request that was shut down is read to its end**, however little each poll moves, as long as
the inner stream does move: one poll for each byte and one for the mark are enough. -/
theorem request_delivered (ops : List Sender.Op) (hfinished : (Sender.run ops).finished = true)
    (polls : List Asked)
    (hpolls : ∀ asked ∈ polls, Moving asked.answers ∧ 5 ≤ asked.answers.length)
    (hmany : (Sender.run ops).accepted.length < polls.length) :
    (({ input := (Sender.run ops).wire } : Receiver).run polls).result = some (.ok ()) ∧
      (({ input := (Sender.run ops).wire } : Receiver).run polls).read =
        (Sender.run ops).accepted := by
  have hinv := Sender.inv_run ops
  obtain ⟨hended, hpending⟩ := hinv.finished hfinished
  obtain ⟨frames, hframes, haccepted, hall⟩ := hinv.all
  have hwire : (Sender.run ops).wire = blocks frames ++ finish := by
    rwa [Writer.all, hpending, List.drop_nil, List.append_nil, if_pos hended] at hall
  have hstart := Receiver.inv_run (Sender.run ops).wire []
  rw [hwire, decode_whole hframes, haccepted] at hstart
  have hend := Receiver.inv_run (Sender.run ops).wire polls
  rw [hwire, decode_whole hframes, haccepted] at hend
  rw [hwire]
  change ({ input := blocks frames ++ finish } : Receiver).Inv _ at hstart
  have hprogress := Receiver.served_run hstart rfl hpolls
  simp only [List.length_nil, Nat.zero_add] at hprogress
  generalize (Sender.run ops).accepted = accepted at hend hmany ⊢
  generalize ({ input := blocks frames ++ finish } : Receiver).run polls = receiver
    at hend hprogress ⊢
  cases hend with
  | done htotal => exact ⟨rfl, (congrArg Prod.fst htotal).symm⟩
  | reading hok hreading hleft =>
      -- more bytes than there are would have been read
      rcases hprogress with h | h
      · cases h
      · have hlength := congrArg (fun total => total.1.length) hleft
        simp only [prepend, List.length_append] at hlength
        dsimp only at h
        omega
  | failed hread =>
      rcases hprogress with h | h
      · cases h
      · have hlength := hread.length_le
        dsimp only at h hlength
        omega
  | eof htotal => cases htotal
  | oversized htotal => cases htotal

/-- The second write is made in two polls. -/
def twoWrites : List Sender.Op :=
  [.write [7, 8] [], .write [9] [.moved 5], .write [9] [.moved 5],
    .shutdown (List.replicate 3 (.moved 9)) (.ready (.ok ()))]

/-- A buffer of one byte, and one byte for each answer. -/
def byteByByte : Asked := ⟨1, by decide, List.replicate 5 (.moved 1)⟩

theorem request_delivered_two :
    (({ input := (Sender.run twoWrites).wire } : Receiver).run
        (List.replicate 4 byteByByte)).result = some (.ok ()) ∧
      (({ input := (Sender.run twoWrites).wire } : Receiver).run
        (List.replicate 4 byteByByte)).read = (Sender.run twoWrites).accepted := by
  apply request_delivered twoWrites (by decide)
  · intro asked hasked
    rw [List.eq_of_mem_replicate hasked]
    exact ⟨fun answer hanswer => ⟨1, List.eq_of_mem_replicate hanswer⟩, by decide⟩
  · decide

end Limpid.Control.Envelope
