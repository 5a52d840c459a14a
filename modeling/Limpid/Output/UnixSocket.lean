import Limpid.Output.Stream
import Limpid.Output.SyslogTcp

/-!
# The Unix socket output

`UnixSocketOutput` holds one connection, cached in a slot, and writes each event as one frame to it.
`write_with_reconnect` and `write_with_reconnect_shutdown_aware` write on the cached connection, and
on a fresh one when that fails or when there is none.

Both drop the cached connection when the write on it fails.  When the write on the fresh connection
fails, only the shutdown-aware one does: in `write_with_reconnect` the `?` on the second
`write_frame` returns with the fresh connection in the slot.  `consume_shutdown` runs the latter
under a timeout that drops the future, and what is in the slot then stays there.
-/

namespace Limpid.Output

/-- `frame_with_newline`. -/
def frameWithNewline (payload : Bytes) : Bytes := payload ++ [newline]

/-- The slot of the connection, and the connections closed so far. -/
structure Slot where
  conn : Option Conn
  closed : List Conn

namespace Slot

/-- A write on the connection in the slot, which stays there. -/
def wrote (slot : Slot) (conn : Conn) (write : FrameWrite) : Slot :=
  { slot with conn := some (conn ++ [write]) }

/-- A write on the connection, which is then dropped. -/
def broke (slot : Slot) (conn : Conn) (write : FrameWrite) : Slot :=
  ⟨none, slot.closed ++ [conn ++ [write]]⟩

/-- The connection is open, or was. -/
def Has (slot : Slot) (conn : Conn) : Prop := conn ∈ slot.conn ∨ conn ∈ slot.closed

end Slot

/-- How a `write_frame` ends.  It has no timeout of its own. -/
inductive FrameResult where
  | written
  | failed (count : ℕ)
  | dropped (count : ℕ)

/-- What a frame leaves on the connection. -/
def FrameResult.writes (frame : Bytes) : FrameResult → FrameWrite
  | .written => .whole frame
  | .failed count | .dropped count => .upTo frame count

/-- The outcomes of one call of `write_with_reconnect`. -/
structure ReconnectEnv where
  cachedWrite : FrameResult
  connect : Connect
  freshWrite : FrameResult

/-- `write_with_reconnect`: the slow path. -/
def reconnectAndWrite (frame : Bytes) (env : ReconnectEnv) (slot : Slot) : Slot × Resolution :=
  match env.connect with
  | .failed => (slot, .failed)
  | .dropped => (slot, .dropped)
  | .connected =>
    let written := slot.wrote [] (env.freshWrite.writes frame)
    match env.freshWrite with
    | .written => (written, .delivered)
    | .failed _ => (written, .failed)
    | .dropped _ => (written, .dropped)

/-- `write_with_reconnect`. -/
def writeWithReconnect (frame : Bytes) (env : ReconnectEnv) (slot : Slot) : Slot × Resolution :=
  match slot.conn with
  | none => reconnectAndWrite frame env slot
  | some conn =>
    let write := env.cachedWrite.writes frame
    match env.cachedWrite with
    | .written => (slot.wrote conn write, .delivered)
    | .dropped _ => (slot.wrote conn write, .dropped)
    | .failed _ => reconnectAndWrite frame env (slot.broke conn write)

/-- The outcomes of one call of `write_with_reconnect_shutdown_aware`.  The connect is none when
shutdown is observed while it runs. -/
structure AwareEnv where
  /-- Shutdown shows before the write on the cached connection. -/
  shutdownFirst : Bool
  cachedWrite : FrameResult
  connect : Option Connect
  /-- Shutdown shows before the write on the fresh connection. -/
  shutdownSecond : Bool
  freshWrite : FrameResult
  /-- What `sleep_or_shutdown` says after the call has failed. -/
  interrupted : Bool

/-- `write_with_reconnect_shutdown_aware`: the slow path. -/
def reconnectAndWriteShutdownAware (frame : Bytes) (env : AwareEnv) (slot : Slot) :
    Slot × Resolution :=
  match env.connect with
  | none => (slot, .preSendShutdown)
  | some .failed => (slot, .failed)
  | some .dropped => (slot, .dropped)
  | some .connected =>
    if env.shutdownSecond then
      ({ slot with conn := some [] }, .preSendShutdown)
    else
      let write := env.freshWrite.writes frame
      match env.freshWrite with
      | .written => (slot.wrote [] write, .delivered)
      | .failed _ => (slot.broke [] write, .failed)
      | .dropped _ => (slot.wrote [] write, .dropped)

/-- `write_with_reconnect_shutdown_aware`. -/
def writeWithReconnectShutdownAware (frame : Bytes) (env : AwareEnv) (slot : Slot) :
    Slot × Resolution :=
  match slot.conn with
  | none => reconnectAndWriteShutdownAware frame env slot
  | some conn =>
    if env.shutdownFirst then
      (slot, .preSendShutdown)
    else
      let write := env.cachedWrite.writes frame
      match env.cachedWrite with
      | .written => (slot.wrote conn write, .delivered)
      | .dropped _ => (slot.wrote conn write, .dropped)
      | .failed _ => reconnectAndWriteShutdownAware frame env (slot.broke conn write)

/-- `UnixSocketOutput`. -/
structure UnixSocketOutput where
  maxAttempts : ℕ
  slot : Slot

namespace UnixSocketOutput

/-- `UnixSocketOutput::new`. -/
def new (maxAttempts : ℕ) : UnixSocketOutput := ⟨maxAttempts, none, []⟩

/-- The loop of `consume`; `left` bounds the attempts that are left. -/
def retry (maxAttempts : ℕ) (frame : Bytes) (env : ℕ → AwareEnv) :
    ℕ → ℕ → Slot → Slot × Resolution
  | 0, _, slot => (slot, .failed)
  | left + 1, attempt, slot =>
    let (next, resolution) := writeWithReconnectShutdownAware frame (env attempt) slot
    match resolution with
    | .failed =>
      if attempt + 1 ≥ maxAttempts then (next, .failed)
      else if (env attempt).interrupted then (next, .failed)
      else retry maxAttempts frame env left (attempt + 1) next
    | other => (next, other)

/-- A call of the output. -/
inductive Op where
  | consume (payload : Bytes) (env : ℕ → AwareEnv)
  | consumeShutdown (payload : Bytes) (env : ReconnectEnv)

/-- `consume`, in which there is one attempt at least, and `consume_shutdown`. -/
def call (output : UnixSocketOutput) : Op → Slot × Resolution
  | .consume payload env =>
      retry output.maxAttempts (frameWithNewline payload) env
        (max output.maxAttempts 1) 0 output.slot
  | .consumeShutdown payload env => writeWithReconnect (frameWithNewline payload) env output.slot

/-- One call. -/
def step (output : UnixSocketOutput) (op : Op) : UnixSocketOutput :=
  { output with slot := (output.call op).1 }

/-- Calls, one after another. -/
def run (output : UnixSocketOutput) (ops : List Op) : UnixSocketOutput := ops.foldl step output

end UnixSocketOutput

/-! ## Connections stay well formed -/

/-- The future is dropped inside the frame. -/
def FrameResult.Cuts (frame : Bytes) : FrameResult → Prop
  | .written | .failed _ => False
  | .dropped count => 0 < count ∧ count < frame.length

/-- The write fails inside the frame. -/
def FrameResult.Breaks (frame : Bytes) : FrameResult → Prop
  | .written | .dropped _ => False
  | .failed count => 0 < count ∧ count < frame.length

theorem not_partial_writes {frame : Bytes} {result : FrameResult} (hcut : ¬ result.Cuts frame)
    (hbreak : ¬ result.Breaks frame) : ¬ (result.writes frame).Partial := by
  cases result with
  | written => exact FrameWrite.not_partial_whole frame
  | failed count => exact fun h => hbreak ((FrameWrite.partial_upTo_iff ..).mp h)
  | dropped count => exact fun h => hcut ((FrameWrite.partial_upTo_iff ..).mp h)

/-- No frame was left incomplete on the cached connection, and every closed one is well formed. -/
structure Slot.Inv (slot : Slot) : Prop where
  cached : ∀ conn ∈ slot.conn, Conn.Settled conn
  closed : ∀ conn ∈ slot.closed, Conn.WellFormed conn

namespace Slot.Inv

variable {slot : Slot} {conn : Conn} {write : FrameWrite}

theorem wellFormed (h : slot.Inv) (hconn : slot.Has conn) : conn.WellFormed := by
  rcases hconn with hmem | hmem
  · exact (h.cached conn hmem).wellFormed
  · exact h.closed conn hmem

theorem wrote (h : slot.Inv) (hconn : conn.Settled) (hwrite : ¬ write.Partial) :
    (slot.wrote conn write).Inv where
  cached := by simpa [Slot.wrote] using hconn.push hwrite
  closed := h.closed

theorem broke (h : slot.Inv) (hconn : conn.Settled) (write : FrameWrite) :
    (slot.broke conn write).Inv where
  cached := by simp [Slot.broke]
  closed other hother := by
    rcases List.mem_append.mp hother with hother | hother
    · exact h.closed other hother
    · rw [List.mem_singleton.mp hother]
      exact hconn.push_wellFormed write

theorem reconnectAndWrite (h : slot.Inv) {frame : Bytes} {env : ReconnectEnv}
    (hcut : ¬ env.freshWrite.Cuts frame) (hbreak : ¬ env.freshWrite.Breaks frame) :
    (reconnectAndWrite frame env slot).1.Inv := by
  have hwrote := h.wrote Conn.settled_nil (not_partial_writes hcut hbreak)
  unfold Output.reconnectAndWrite
  cases env.connect with
  | failed => exact h
  | dropped => exact h
  | connected => simp only; split <;> exact hwrote

theorem writeWithReconnect (h : slot.Inv) {frame : Bytes} {env : ReconnectEnv}
    (hcached : ¬ env.cachedWrite.Cuts frame) (hcut : ¬ env.freshWrite.Cuts frame)
    (hbreak : ¬ env.freshWrite.Breaks frame) : (writeWithReconnect frame env slot).1.Inv := by
  unfold Output.writeWithReconnect
  cases hconn : slot.conn with
  | none => exact h.reconnectAndWrite hcut hbreak
  | some conn =>
      have hsettled := h.cached conn hconn
      cases hwrite : env.cachedWrite with
      | written => exact h.wrote hsettled (FrameWrite.not_partial_whole frame)
      | dropped count =>
          rw [hwrite] at hcached
          exact h.wrote hsettled fun hpartial =>
            hcached ((FrameWrite.partial_upTo_iff ..).mp hpartial)
      | failed count => exact (h.broke hsettled _).reconnectAndWrite hcut hbreak

theorem reconnectAndWriteShutdownAware (h : slot.Inv) {frame : Bytes} {env : AwareEnv}
    (hcut : ¬ env.freshWrite.Cuts frame) :
    (reconnectAndWriteShutdownAware frame env slot).1.Inv := by
  unfold Output.reconnectAndWriteShutdownAware
  rcases env.connect with _ | _ | _ | _
  · exact h
  · simp only
    split_ifs
    · exact ⟨by simp [Conn.settled_nil], h.closed⟩
    · cases hwrite : env.freshWrite with
      | written => exact h.wrote Conn.settled_nil (FrameWrite.not_partial_whole frame)
      | failed count => exact h.broke Conn.settled_nil _
      | dropped count =>
          rw [hwrite] at hcut
          exact h.wrote Conn.settled_nil fun hpartial =>
            hcut ((FrameWrite.partial_upTo_iff ..).mp hpartial)
  · exact h
  · exact h

theorem writeWithReconnectShutdownAware (h : slot.Inv) {frame : Bytes} {env : AwareEnv}
    (hcached : ¬ env.cachedWrite.Cuts frame) (hcut : ¬ env.freshWrite.Cuts frame) :
    (writeWithReconnectShutdownAware frame env slot).1.Inv := by
  unfold Output.writeWithReconnectShutdownAware
  cases hconn : slot.conn with
  | none => exact h.reconnectAndWriteShutdownAware hcut
  | some conn =>
      have hsettled := h.cached conn hconn
      simp only
      split_ifs
      · exact h
      · cases hwrite : env.cachedWrite with
        | written => exact h.wrote hsettled (FrameWrite.not_partial_whole frame)
        | dropped count =>
            rw [hwrite] at hcached
            exact h.wrote hsettled fun hpartial =>
              hcached ((FrameWrite.partial_upTo_iff ..).mp hpartial)
        | failed count => exact (h.broke hsettled _).reconnectAndWriteShutdownAware hcut

end Slot.Inv

namespace UnixSocketOutput

/-- No write of the operation is cut inside its frame by a dropped future, and in `consume_shutdown`
the write on the fresh connection does not fail inside it either. -/
def Op.Uncut : Op → Prop
  | .consume payload env => ∀ attempt,
      ¬ (env attempt).cachedWrite.Cuts (frameWithNewline payload) ∧
        ¬ (env attempt).freshWrite.Cuts (frameWithNewline payload)
  | .consumeShutdown payload env =>
      ¬ env.cachedWrite.Cuts (frameWithNewline payload) ∧
        ¬ env.freshWrite.Cuts (frameWithNewline payload) ∧
        ¬ env.freshWrite.Breaks (frameWithNewline payload)

theorem inv_new (maxAttempts : ℕ) : (new maxAttempts).slot.Inv := by
  constructor <;> simp [new]

theorem inv_retry {maxAttempts : ℕ} {frame : Bytes} {env : ℕ → AwareEnv} {slot : Slot}
    (h : slot.Inv)
    (hcut : ∀ attempt, ¬ (env attempt).cachedWrite.Cuts frame ∧
    ¬ (env attempt).freshWrite.Cuts frame)
    (left attempt : ℕ) : (retry maxAttempts frame env left attempt slot).1.Inv := by
  induction left generalizing attempt slot with
  | zero => exact h
  | succ left ih =>
      have hnext := h.writeWithReconnectShutdownAware (hcut attempt).1 (hcut attempt).2
      unfold retry
      simp only
      split
      · split_ifs
        · exact hnext
        · exact hnext
        · exact ih hnext (attempt + 1)
      · exact hnext

/-- One operation. -/
theorem inv_step {output : UnixSocketOutput} (h : output.slot.Inv) {op : Op} (hcut : op.Uncut) :
    (output.step op).slot.Inv := by
  cases op with
  | consume payload env => exact inv_retry h hcut _ _
  | consumeShutdown payload env => exact h.writeWithReconnect hcut.1 hcut.2.1 hcut.2.2

/-- A run of operations none of which is cut. -/
theorem inv_run {ops : List Op} {output : UnixSocketOutput} (h : output.slot.Inv)
    (hcut : ∀ op ∈ ops, op.Uncut) : (output.run ops).slot.Inv := by
  induction ops generalizing output with
  | nil => exact h
  | cons op ops ih =>
      obtain ⟨hop, hrest⟩ := List.forall_mem_cons.mp hcut
      exact ih (inv_step h hop) hrest

end UnixSocketOutput

/-! ## Both outputs -/

/-- **A broken frame is the last thing written to a connection**, in every run none of whose writes
ends with the frame part-written and the connection kept: by `PEER_WRITE_TIMEOUT`, by the dropped
future, or by an error on the fresh connection of `write_with_reconnect`. -/
theorem connections_wellFormed (maxAttempts : ℕ) :
    (∀ (n : ℕ) (framing : Syslog.SyslogFraming) (tls : Fin n → Bool)
        (ops : List SyslogTcpOutput.Op), (∀ op ∈ ops, op.Uncut framing) →
      ∀ conn, ((SyslogTcpOutput.new framing tls maxAttempts).run ops).Has conn →
        conn.WellFormed ∧ conn.Framed) ∧
    ∀ ops : List UnixSocketOutput.Op, (∀ op ∈ ops, op.Uncut) →
      ∀ conn, ((UnixSocketOutput.new maxAttempts).run ops).slot.Has conn →
        conn.WellFormed ∧ conn.Framed := by
  constructor
  · intro n framing tls ops hcut conn hconn
    have hwell := ((SyslogTcpOutput.Inv.new framing tls maxAttempts).run hcut).wellFormed hconn
    exact ⟨hwell, hwell.framed⟩
  · intro ops hcut conn hconn
    have hinv := UnixSocketOutput.inv_run (UnixSocketOutput.inv_new maxAttempts) hcut
    exact ⟨hinv.wellFormed hconn, (hinv.wellFormed hconn).framed⟩

/-! ## Frames merged on a kept connection -/

/-- One event on the only peer, whose write ends as given. -/
def oneEvent (payload : Bytes) (now : ℕ) (write : WriteResult) : SyslogTcpOutput.Op :=
  .consume payload fun _ => ⟨now, fun _ => ⟨some .connected, some .connected, write, now⟩,
    fun _ => false, false⟩

/-- One event at shutdown, whose writes both end as given. -/
def oneEventAtShutdown (payload : Bytes) (write : FrameResult) : UnixSocketOutput.Op :=
  .consumeShutdown payload ⟨write, .connected, write⟩

theorem connections_wellFormed_oneEvent :
    (∀ conn, ((SyslogTcpOutput.new .nonTransparent (fun _ : Fin 1 => false) 1).run
        [oneEvent [65] 0 (.failed 1), oneEvent [66] peerCooldown .written]).Has conn →
      conn.WellFormed ∧ conn.Framed) ∧
    ∀ conn, ((UnixSocketOutput.new 1).run
        [oneEventAtShutdown [65] (.dropped 0), oneEventAtShutdown [66] .written]).slot.Has conn →
      conn.WellFormed ∧ conn.Framed := by
  constructor
  · refine (connections_wellFormed 1).1 1 .nonTransparent _ _ ?_
    simp [oneEvent, SyslogTcpOutput.Op.Uncut, SyslogTcpOutput.CallEnv.Uncut, WriteResult.Cuts]
  · refine (connections_wellFormed 1).2 _ ?_
    simp [oneEventAtShutdown, UnixSocketOutput.Op.Uncut, FrameResult.Cuts, FrameResult.Breaks]

/-- `A` is cut by the timeout after one byte, or fails there on the fresh connection at shutdown,
and `B` follows on the same connection: the peer reads `AB`. -/
theorem frames_merged :
    (∃ conn, ((SyslogTcpOutput.new .nonTransparent (fun _ : Fin 1 => false) 1).run
        [oneEvent [65] 0 (.timedOut 1), oneEvent [66] peerCooldown .written]).Has conn ∧
      ¬ conn.WellFormed ∧ conn.bytes = [65, 66, newline]) ∧
    ∃ conn, ((UnixSocketOutput.new 1).run
        [oneEventAtShutdown [65] (.failed 1), oneEventAtShutdown [66] .written]).slot.Has conn ∧
      ¬ conn.WellFormed ∧ conn.bytes = [65, 66, newline] := by
  have hbroken : ¬ Conn.WellFormed [.upTo [65, newline] 1, .whole [66, newline]] :=
    fun h => h _ (List.mem_cons_self ..) (by decide)
  exact ⟨⟨_, .inl ⟨0, rfl⟩, hbroken, rfl⟩, ⟨_, .inl rfl, hbroken, rfl⟩⟩

end Limpid.Output
