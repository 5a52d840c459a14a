import Limpid.Output.Peers
import Limpid.Output.Stream

/-!
# The syslog TCP output

`SyslogTcpOutput` writes each event as one frame to one of its peers, through the peer rotation.
`consume` retries; `consume_shutdown` makes one attempt under a timeout that drops the future.

The attempt closure connects when no connection is cached, writes the frame, and is to uncache the
connection when the write fails.  A write that ends by `PEER_WRITE_TIMEOUT` leaves the closure
through the `?` above that, and one whose future is dropped never comes to it: in both cases the
connection stays cached.

Disposition counters and the DLQ are left out; `Resolution` is what they are told.
-/

namespace Limpid.Output

open Syslog (SyslogFraming writeFramed)

/-- The outcomes of one run of the attempt closure: `Result` is how a connect ends. -/
structure AttemptEnv (Result : Type) where
  connect : Result
  handshake : Result
  write : WriteResult
  finished : ℕ

theorem ok_wrote : AttemptOutcome.ok = .preSendShutdown → true = false := by decide

theorem err_wrote : AttemptOutcome.err = .preSendShutdown → true = false := by decide

theorem dropped_wrote : AttemptOutcome.dropped = .preSendShutdown → true = false := by decide

/-- The send phase of both closures. -/
def writePhase (frame : Bytes) (write : WriteResult) (finished : ℕ) (conn : Conn) : Attempt Conn :=
  let conn := conn ++ [write.writes frame]
  match write with
  | .written =>
      { conn := some conn, outcome := .ok, wrote := true, finished, preSend := ok_wrote }
  | .failed _ =>
      { conn := none, closed := some conn, outcome := .err, wrote := true, finished,
        preSend := err_wrote }
  | .timedOut _ =>
      { conn := some conn, outcome := .err, wrote := true, finished, preSend := err_wrote }
  | .dropped _ =>
      { conn := some conn, outcome := .dropped, wrote := true, finished,
        preSend := dropped_wrote }

/-- A step of the pre-send phase; the result is none when shutdown is observed. -/
def preSendPhase (result : Option Connect) (finished : ℕ) (next : Attempt Conn) : Attempt Conn :=
  match result with
  | some .connected => next
  | some .failed =>
      { conn := none, outcome := .err, wrote := false, finished, preSend := nofun }
  | some .dropped =>
      { conn := none, outcome := .dropped, wrote := false, finished, preSend := nofun }
  | none =>
      { conn := none, outcome := .preSendShutdown, wrote := false, finished, preSend :=
        fun _ => rfl }

/-- `SyslogTcpOutput`. -/
structure SyslogTcpOutput (n : ℕ) where
  framing : SyslogFraming
  /-- Whether the peer has a connector. -/
  tls : Fin n → Bool
  maxAttempts : ℕ
  peers : PeerList Conn n
  /-- The connections closed so far. -/
  closed : List Conn

namespace SyslogTcpOutput

variable {n : ℕ}

/-- `SyslogTcpOutput::new`. -/
def new (framing : SyslogFraming) (tls : Fin n → Bool) (maxAttempts : ℕ) : SyslogTcpOutput n :=
  ⟨framing, tls, maxAttempts, PeerList.new Conn n, []⟩

/-- The closure of `write_payload_shutdown_aware`. -/
def attemptShutdownAware (output : SyslogTcpOutput n) (payload : Bytes)
    (env : ℕ → AttemptEnv (Option Connect)) : AttemptFn Conn n := fun offset idx state =>
  let e := env offset
  let write := writePhase (writeFramed payload output.framing) e.write e.finished
  match state.conn with
  | some conn => write conn
  | none =>
      preSendPhase e.connect e.finished <|
        if output.tls idx then preSendPhase e.handshake e.finished (write []) else write []

/-- The closure of `write_payload`. -/
def attempt (output : SyslogTcpOutput n) (payload : Bytes) (env : ℕ → AttemptEnv Connect) :
    AttemptFn Conn n := fun offset idx state =>
  let e := env offset
  let write := writePhase (writeFramed payload output.framing) e.write e.finished
  match state.conn with
  | some conn => write conn
  | none =>
      preSendPhase (some e.connect) e.finished <|
        if output.tls idx then preSendPhase (some e.handshake) e.finished (write []) else write []

/-- The output after a call. -/
def afterCall (output : SyslogTcpOutput n) (rotation : Rotation Conn n) : SyslogTcpOutput n :=
  { output with
    peers := rotation.list
    closed := output.closed ++ rotation.tried.filterMap fun x => x.2.closed }

/-- The environment of one call of `write_payload_shutdown_aware`. -/
structure CallEnv where
  now : ℕ
  attempts : ℕ → AttemptEnv (Option Connect)
  shutdown : ℕ → Bool
  /-- What `sleep_or_shutdown` says after the call has failed. -/
  interrupted : Bool

/-- `write_payload_shutdown_aware`. -/
def writePayloadShutdownAware (output : SyslogTcpOutput n) (payload : Bytes) (env : CallEnv) :
    SyslogTcpOutput n × Resolution :=
  let rotation := output.peers.writeWithRotationShutdownAware env.now
    (output.attemptShutdownAware payload env.attempts) env.shutdown
  (output.afterCall rotation,
    match rotation.result with
    | some (.ok ()) => .delivered
    | some (.error .preSendShutdown) => .preSendShutdown
    | some (.error _) => .failed
    | none => .dropped)

/-- The loop of `consume`; `left` bounds the attempts that are left. -/
def retry (payload : Bytes) (env : ℕ → CallEnv) : ℕ → ℕ → SyslogTcpOutput n →
    SyslogTcpOutput n × Resolution
  | 0, _, output => (output, .failed)
  | left + 1, attempt, output =>
    let (next, resolution) := output.writePayloadShutdownAware payload (env attempt)
    match resolution with
    | .failed =>
      if attempt + 1 ≥ output.maxAttempts then (next, .failed)
      else if (env attempt).interrupted then (next, .failed)
      else retry payload env left (attempt + 1) next
    | other => (next, other)

/-- `consume`.  There is one attempt at least. -/
def consume (output : SyslogTcpOutput n) (payload : Bytes) (env : ℕ → CallEnv) :
    SyslogTcpOutput n × Resolution :=
  retry payload env (max output.maxAttempts 1) 0 output

/-- `consume_shutdown`. -/
def consumeShutdown (output : SyslogTcpOutput n) (payload : Bytes) (now : ℕ)
    (env : ℕ → AttemptEnv Connect) : SyslogTcpOutput n × Resolution :=
  let rotation := output.peers.writeWithRotationAt now (output.attempt payload env)
  (output.afterCall rotation,
    match rotation.result with
    | some (.ok ()) => .delivered
    | some (.error _) => .failed
    | none => .dropped)

/-- A call of the output. -/
inductive Op where
  | consume (payload : Bytes) (env : ℕ → CallEnv)
  | consumeShutdown (payload : Bytes) (now : ℕ) (env : ℕ → AttemptEnv Connect)

/-- One call. -/
def step (output : SyslogTcpOutput n) : Op → SyslogTcpOutput n
  | .consume payload env => (output.consume payload env).1
  | .consumeShutdown payload now env => (output.consumeShutdown payload now env).1

/-- Calls, one after another. -/
def run (output : SyslogTcpOutput n) (ops : List Op) : SyslogTcpOutput n := ops.foldl step output

/-- A connection that the output has, or had. -/
def Has (output : SyslogTcpOutput n) (conn : Conn) : Prop :=
  (∃ idx, conn ∈ (output.peers.state idx).conn) ∨ conn ∈ output.closed

end SyslogTcpOutput

/-! ## Connections stay well formed -/

/-- The write is cut by its timeout or by the dropped future, inside the frame. -/
def WriteResult.Cuts (frame : Bytes) : WriteResult → Prop
  | .written | .failed _ => False
  | .timedOut count | .dropped count => 0 < count ∧ count < frame.length

theorem keeps_writePhase {frame : Bytes} {write : WriteResult} {finished : ℕ} {conn : Conn}
    (hwrite : ¬ write.Cuts frame) (hconn : conn.Settled) :
    (writePhase frame write finished conn).Keeps Conn.Settled Conn.WellFormed := by
  have hcut : ∀ count, ¬ (0 < count ∧ count < frame.length) →
      ¬ (FrameWrite.upTo frame count).Partial :=
    fun count h hpartial => h ((FrameWrite.partial_upTo_iff ..).mp hpartial)
  constructor
  · cases write with
    | written =>
        simpa [writePhase, WriteResult.writes] using hconn.push (FrameWrite.not_partial_whole frame)
    | failed count => simp [writePhase]
    | timedOut count => simpa [writePhase, WriteResult.writes] using hconn.push (hcut count hwrite)
    | dropped count => simpa [writePhase, WriteResult.writes] using hconn.push (hcut count hwrite)
  · cases write with
    | failed count => simpa [writePhase] using hconn.push_wellFormed _
    | _ => simp [writePhase]

theorem keeps_preSendPhase {result : Option Connect} {finished : ℕ} {next : Attempt Conn}
    (hnext : next.Keeps Conn.Settled Conn.WellFormed) :
    (preSendPhase result finished next).Keeps Conn.Settled Conn.WellFormed := by
  rcases result with _ | _ | _ | _
  · exact ⟨by simp [preSendPhase], by simp [preSendPhase]⟩
  · exact hnext
  · exact ⟨by simp [preSendPhase], by simp [preSendPhase]⟩
  · exact ⟨by simp [preSendPhase], by simp [preSendPhase]⟩

namespace SyslogTcpOutput

variable {n : ℕ}

/-- No frame was left incomplete on a cached connection, and every closed one is well formed. -/
structure Inv (output : SyslogTcpOutput n) : Prop where
  cached : output.peers.Caches Conn.Settled
  closed : ∀ conn ∈ output.closed, Conn.WellFormed conn

theorem Inv.new (framing : SyslogFraming) (tls : Fin n → Bool) (maxAttempts : ℕ) :
    (new framing tls maxAttempts).Inv := by
  constructor <;> simp [SyslogTcpOutput.new, PeerList.new, PeerList.Caches]

theorem Inv.wellFormed {output : SyslogTcpOutput n} (h : output.Inv) {conn : Conn}
    (hconn : output.Has conn) : conn.WellFormed := by
  rcases hconn with ⟨idx, hmem⟩ | hmem
  · exact (h.cached idx conn hmem).wellFormed
  · exact h.closed conn hmem

theorem Inv.afterCall {output : SyslogTcpOutput n} (h : output.Inv) {rotation : Rotation Conn n}
    (hkeeps : rotation.Keeps Conn.Settled Conn.WellFormed) : (output.afterCall rotation).Inv where
  cached := hkeeps.cached
  closed conn hconn := by
    rcases List.mem_append.mp hconn with hconn | hconn
    · exact h.closed conn hconn
    · obtain ⟨x, hx, hclosed⟩ := List.mem_filterMap.mp hconn
      exact hkeeps.closed x hx conn hclosed

/-- No write of the call is cut inside its frame. -/
def CallEnv.Uncut (env : CallEnv) (frame : Bytes) : Prop :=
  ∀ offset, ¬ (env.attempts offset).write.Cuts frame

/-- No write of the operation is cut inside its frame. -/
def Op.Uncut (framing : SyslogFraming) : Op → Prop
  | .consume payload env => ∀ attempt, (env attempt).Uncut (writeFramed payload framing)
  | .consumeShutdown payload _ env =>
      ∀ offset, ¬ (env offset).write.Cuts (writeFramed payload framing)

theorem Inv.writePayloadShutdownAware {output : SyslogTcpOutput n} (h : output.Inv)
    {payload : Bytes} {env : CallEnv} (hcut : env.Uncut (writeFramed payload output.framing)) :
    (output.writePayloadShutdownAware payload env).1.Inv := by
  refine h.afterCall (PeerList.keeps_writeWithRotationShutdownAware ?_ h.cached _ _)
  intro offset idx state hstate
  unfold attemptShutdownAware
  cases hconn : state.conn with
  | some conn => exact keeps_writePhase (hcut offset) (hstate conn hconn)
  | none =>
      have hwrite : (writePhase _ _ (env.attempts offset).finished []).Keeps _ _ :=
        keeps_writePhase (hcut offset) Conn.settled_nil
      refine keeps_preSendPhase ?_
      split
      · exact keeps_preSendPhase hwrite
      · exact hwrite

theorem framing_writePayloadShutdownAware (output : SyslogTcpOutput n) (payload : Bytes)
    (env : CallEnv) :
    (output.writePayloadShutdownAware payload env).1.framing = output.framing := rfl

theorem Inv.retry {payload : Bytes} {env : ℕ → CallEnv} {output : SyslogTcpOutput n}
    (h : output.Inv)
    (hcut : ∀ attempt, (env attempt).Uncut (writeFramed payload output.framing))
    (left attempt : ℕ) :
    (retry payload env left attempt output).1.Inv ∧
      (SyslogTcpOutput.retry payload env left attempt output).1.framing = output.framing := by
  induction left generalizing attempt output with
  | zero => exact ⟨h, rfl⟩
  | succ left ih =>
      have hnext := h.writePayloadShutdownAware (hcut attempt)
      unfold SyslogTcpOutput.retry
      simp only
      split
      · split_ifs
        · exact ⟨hnext, rfl⟩
        · exact ⟨hnext, rfl⟩
        · exact ih hnext hcut (attempt + 1)
      · exact ⟨hnext, rfl⟩

theorem Inv.consumeShutdown {output : SyslogTcpOutput n} (h : output.Inv) {payload : Bytes}
    {now : ℕ}
    {env : ℕ → AttemptEnv Connect}
    (hcut : ∀ offset, ¬ (env offset).write.Cuts (writeFramed payload output.framing)) :
    (output.consumeShutdown payload now env).1.Inv := by
  refine h.afterCall (PeerList.keeps_writeWithRotationAt ?_ h.cached _)
  intro offset idx state hstate
  unfold attempt
  cases hconn : state.conn with
  | some conn => exact keeps_writePhase (hcut offset) (hstate conn hconn)
  | none =>
      have hwrite : (writePhase _ _ (env offset).finished []).Keeps _ _ :=
        keeps_writePhase (hcut offset) Conn.settled_nil
      refine keeps_preSendPhase ?_
      split
      · exact keeps_preSendPhase hwrite
      · exact hwrite

/-- One operation. -/
theorem Inv.step {output : SyslogTcpOutput n} (h : output.Inv) {op : Op}
    (hcut : op.Uncut output.framing) :
    (output.step op).Inv ∧ (output.step op).framing = output.framing := by
  cases op with
  | consume payload env => exact h.retry hcut _ _
  | consumeShutdown payload now env => exact ⟨h.consumeShutdown hcut, rfl⟩

/-- A run of operations none of which is cut. -/
theorem Inv.run {ops : List Op} {output : SyslogTcpOutput n} (h : output.Inv)
    (hcut : ∀ op ∈ ops, op.Uncut output.framing) : (output.run ops).Inv := by
  induction ops generalizing output with
  | nil => exact h
  | cons op ops ih =>
      obtain ⟨hop, hrest⟩ := List.forall_mem_cons.mp hcut
      obtain ⟨hnext, hframing⟩ := h.step hop
      exact ih hnext fun other hother => hframing ▸ hrest other hother

end SyslogTcpOutput

end Limpid.Output
