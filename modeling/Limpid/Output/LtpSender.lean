import Limpid.Ltp.Hop
import Limpid.Output.Stream

/-!
# The LTP output

`LtpOutput` sends events to one peer over one connection.  The hello frame goes first on a fresh
connection, and then one frame for each event.

In the steady state the connection stays in its slot while it is written to, and an error empties
the slot.  At shutdown the connection is taken out of the slot for the time of the write and put
back when it has succeeded, so that the future may be dropped at any point.  A fresh connection
comes into the slot only after its first event.  Hence everything but the last write to a connection
is whole (`Slotted`), and nothing is ever written after a part of a frame.

The peer metrics and the counters are left out.
-/

namespace Limpid.Output

open Ltp (FrameError LtpMeta Message WorkingEventMeta eventFrame workingEventMeta)

/-- How a write ends in the steady state, in which no future is dropped. -/
inductive SteadyWrite where
  | written
  | failed (count : ℕ)
  | timedOut (count : ℕ)

/-- The result of a write outside of a shutdown. -/
def SteadyWrite.result : SteadyWrite → WriteResult
  | .written => .written
  | .failed count => .failed count
  | .timedOut count => .timedOut count

/-- How a connect ends in the steady state. -/
inductive SteadyConnect where
  | connected
  | failed
  | shutdown

/-- The outcomes of one `write_attempt`. -/
structure SteadyEnv where
  /-- Shutdown shows when the slot has been locked. -/
  shutdownFirst : Bool
  connect : SteadyConnect
  /-- Shutdown shows when the connection is there. -/
  shutdownConnected : Bool
  hello : SteadyWrite
  /-- The time of departure. -/
  now : UnixNanos
  event : SteadyWrite
  /-- What `sleep_or_shutdown` says after the attempt has failed. -/
  interrupted : Bool

/-- The outcomes of one `write_shutdown_attempt`, under its timeout. -/
structure ShutdownEnv where
  connect : Connect
  hello : WriteResult
  now : UnixNanos
  event : WriteResult

/-- `LtpOutput`, with the connections it had. -/
structure LtpOutput where
  nodeId : String
  helloFrame : Bytes
  maxAttempts : ℕ
  connection : Option Conn
  /-- The connections closed so far. -/
  closed : List Conn

/-- What a write means for the event. -/
def WriteResult.resolution : WriteResult → Resolution
  | .written => .delivered
  | .failed _ | .timedOut _ => .failed
  | .dropped _ => .dropped

section Write

variable {δ : Type} (codec : Message LtpMeta δ) (working : WorkingEventMeta) (payload : Bytes)

/-- `write_event`. -/
def writeEvent (now : UnixNanos) (write : WriteResult) (conn : Conn) : Conn × Resolution :=
  match eventFrame codec working now payload with
  | .error _ => (conn, .failed)
  | .ok frame => (conn ++ [write.writes frame], write.resolution)

/-- `write_hello_and_event`, on a fresh connection. -/
def writeHelloAndEvent (helloFrame : Bytes) (hello : WriteResult) (now : UnixNanos)
    (event : WriteResult) : Conn × Resolution :=
  let conn := [hello.writes helloFrame]
  match hello.resolution with
  | .delivered => writeEvent codec working payload now event conn
  | other => (conn, other)

namespace LtpOutput

/-- The connection is in the slot. -/
def keep (output : LtpOutput) (conn : Conn) : LtpOutput := { output with connection := some conn }

/-- The connection is closed, and the slot empty. -/
def close (output : LtpOutput) (conn : Conn) : LtpOutput :=
  { output with connection := none, closed := output.closed ++ [conn] }

/-- `write_attempt`. -/
def writeAttempt (output : LtpOutput) (env : SteadyEnv) : LtpOutput × Resolution :=
  if env.shutdownFirst then
    (output, .preSendShutdown)
  else
    match output.connection with
    | none =>
      match env.connect with
      | .failed => (output, .failed)
      | .shutdown => (output, .preSendShutdown)
      | .connected =>
        if env.shutdownConnected then
          (output.close [], .preSendShutdown)
        else
          match writeHelloAndEvent codec working payload output.helloFrame env.hello.result env.now
              env.event.result with
          | (conn, .delivered) => (output.keep conn, .delivered)
          | (conn, _) => (output.close conn, .failed)
    | some conn =>
      match writeEvent codec working payload env.now env.event.result conn with
      | (conn, .delivered) => (output.keep conn, .delivered)
      | (conn, _) => (output.close conn, .failed)

/-- `write_shutdown_with_timeout`: the future of `write_shutdown_attempt` may be dropped. -/
def writeShutdown (output : LtpOutput) (env : ShutdownEnv) : LtpOutput × Resolution :=
  match output.connection with
  | some conn =>
    match writeEvent codec working payload env.now env.event conn with
    | (conn, .delivered) => (output.keep conn, .delivered)
    | (conn, other) => (output.close conn, other)
  | none =>
    match env.connect with
    | .failed => (output, .failed)
    | .dropped => (output, .dropped)
    | .connected =>
      match writeHelloAndEvent codec working payload output.helloFrame env.hello env.now
          env.event with
      | (conn, .delivered) => (output.keep conn, .delivered)
      | (conn, other) => (output.close conn, other)

/-- The loop of `consume`; `left` bounds the attempts that are left. -/
def retry (env : ℕ → SteadyEnv) : ℕ → ℕ → LtpOutput → LtpOutput × Resolution
  | 0, _, output => (output, .failed)
  | left + 1, attempt, output =>
    let (next, resolution) := output.writeAttempt codec working payload (env attempt)
    match resolution with
    | .failed =>
      if attempt + 1 ≥ output.maxAttempts then (next, .failed)
      else if (env attempt).interrupted then (next, .failed)
      else retry env left (attempt + 1) next
    | other => (next, other)

end LtpOutput

end Write

namespace LtpOutput

variable {δ : Type} (codec : Message LtpMeta δ)

/-- `LtpOutput::new`. -/
def new (nodeId : String) (helloFrame : Bytes) (maxAttempts : ℕ) : LtpOutput :=
  ⟨nodeId, helloFrame, maxAttempts, none, []⟩

/-- `consume`.  There is one attempt at least. -/
def consume (output : LtpOutput) (event : OwnedEvent) (env : ℕ → SteadyEnv) :
    LtpOutput × Resolution :=
  if event.egress.length > Ltp.maxPayloadLen then
    (output, .failed)
  else
    output.retry codec (workingEventMeta output.nodeId event) event.egress env
      (max output.maxAttempts 1) 0

/-- `consume_shutdown`. -/
def consumeShutdown (output : LtpOutput) (event : OwnedEvent) (env : ShutdownEnv) :
    LtpOutput × Resolution :=
  if event.egress.length > Ltp.maxPayloadLen then
    (output, .failed)
  else
    output.writeShutdown codec (workingEventMeta output.nodeId event) event.egress env

/-- A call of the output. -/
inductive Op where
  | consume (event : OwnedEvent) (env : ℕ → SteadyEnv)
  | consumeShutdown (event : OwnedEvent) (env : ShutdownEnv)

/-- The event of a call. -/
def Op.event : Op → OwnedEvent
  | .consume event _ | .consumeShutdown event _ => event

/-- A call of the output. -/
def call (output : LtpOutput) : Op → LtpOutput × Resolution
  | .consume event env => output.consume codec event env
  | .consumeShutdown event env => output.consumeShutdown codec event env

/-- Calls, one after another. -/
def run (output : LtpOutput) (ops : List Op) : LtpOutput :=
  ops.foldl (fun output op => (output.call codec op).1) output

/-- The connections that the output has, and had. -/
def conns (output : LtpOutput) : List Conn := output.closed ++ output.connection.toList

end LtpOutput

/-! ## What is on a connection -/

/-- The whole frame is written. -/
def FrameWrite.Whole (write : FrameWrite) : Prop := write.count = write.frame.length

theorem FrameWrite.Whole.bytes_eq {write : FrameWrite} (h : write.Whole) :
    write.bytes = write.frame := by
  rw [FrameWrite.bytes, h, List.take_length]

section Speaks

variable {δ : Type} (codec : Message LtpMeta δ) (nodeId : String) (helloFrame : Bytes)

/-- A frame for the event, with some time of departure. -/
def IsFrameOf (event : OwnedEvent) (frame : Bytes) : Prop :=
  ∃ now, eventFrame codec (workingEventMeta nodeId event) now event.egress = .ok frame

/-- The hello frame, then event frames, and everything but the last write whole. -/
structure Speaks (conn : Conn) : Prop where
  hello : ∀ first ∈ conn.head?, first.frame = helloFrame
  events : ∀ write ∈ conn.tail, ∃ event, IsFrameOf codec nodeId event write.frame
  whole : ∀ write ∈ conn.dropLast, write.Whole

/-- A connection in the slot. -/
structure Slotted (conn : Conn) : Prop extends Speaks codec nodeId helloFrame conn where
  begun : conn ≠ []
  all : ∀ write ∈ conn, write.Whole

/-- A part of the hello frame; or the hello frame, event frames, and a part of one more. -/
def SpeaksBytes (bytes : Bytes) : Prop :=
  bytes <+: helloFrame ∨
    ∃ (frames : List Bytes) (rest : Bytes), bytes = helloFrame ++ frames.flatten ++ rest ∧
      (∀ frame ∈ frames, ∃ event, IsFrameOf codec nodeId event frame) ∧
      ∃ frame event, IsFrameOf codec nodeId event frame ∧ rest <+: frame

variable {codec nodeId helloFrame}

theorem Speaks.nil : Speaks codec nodeId helloFrame [] := ⟨by simp, by simp, by simp⟩

/-- The hello frame goes first. -/
theorem Speaks.first {write : FrameWrite} (h : write.frame = helloFrame) :
    Speaks codec nodeId helloFrame [write] :=
  ⟨by simpa using h, by simp, by simp⟩

theorem Slotted.first {write : FrameWrite} (h : write.frame = helloFrame) (hwhole : write.Whole) :
    Slotted codec nodeId helloFrame [write] :=
  { Speaks.first h with begun := by simp, all := by simpa using hwhole }

theorem Slotted.push {conn : Conn} (h : Slotted codec nodeId helloFrame conn) {write : FrameWrite}
    {event : OwnedEvent} (hframe : IsFrameOf codec nodeId event write.frame) :
    Speaks codec nodeId helloFrame (conn ++ [write]) where
  hello := by
    rw [List.head?_append_of_ne_nil _ h.begun]
    exact h.hello
  events other hother := by
    rw [List.tail_append_of_ne_nil h.begun] at hother
    rcases List.mem_append.mp hother with hother | hother
    · exact h.events other hother
    · rw [List.mem_singleton.mp hother]
      exact ⟨event, hframe⟩
  whole := by simpa using h.all

theorem Slotted.push_whole {conn : Conn} (h : Slotted codec nodeId helloFrame conn)
    {write : FrameWrite} {event : OwnedEvent} (hframe : IsFrameOf codec nodeId event write.frame)
    (hwhole : write.Whole) : Slotted codec nodeId helloFrame (conn ++ [write]) :=
  { h.push hframe with
    begun := by simp
    all := fun other hother => by
      rcases List.mem_append.mp hother with hother | hother
      · exact h.all other hother
      · rwa [List.mem_singleton.mp hother] }

/-- The bytes of whole writes are their frames. -/
theorem bytes_of_whole {conn : Conn} (h : ∀ write ∈ conn, write.Whole) :
    Conn.bytes conn = (conn.map FrameWrite.frame).flatten := by
  rw [Conn.bytes, List.flatMap_def]
  exact congrArg List.flatten (List.map_congr_left fun write hmem => (h write hmem).bytes_eq)

/-- **What the peer can have read.** -/
theorem Speaks.bytes {conn : Conn} (h : Speaks codec nodeId helloFrame conn) :
    SpeaksBytes codec nodeId helloFrame (Conn.bytes conn) := by
  rcases conn with _ | ⟨first, later⟩
  · exact .inl List.nil_prefix
  · have hfirst : first.frame = helloFrame := h.hello first rfl
    rcases List.eq_nil_or_concat' later with rfl | ⟨earlier, last, rfl⟩
    · refine .inl ?_
      simp only [Conn.bytes, List.flatMap_cons, List.flatMap_nil, List.append_nil, ← hfirst]
      exact List.take_prefix ..
    · have hwhole : ∀ write ∈ first :: earlier, write.Whole := by
        intro write hmem
        exact h.whole write (by rwa [← List.cons_append, List.dropLast_concat])
      have hevents := h.events
      simp only [List.tail_cons, List.mem_append, List.mem_singleton] at hevents
      obtain ⟨event, hlast⟩ := hevents last (.inr rfl)
      refine .inr ⟨earlier.map FrameWrite.frame, last.bytes, ?_, fun frame hframe => ?_,
        last.frame, event, hlast, List.take_prefix ..⟩
      · calc Conn.bytes (first :: (earlier ++ [last]))
            = Conn.bytes (first :: earlier) ++ last.bytes := by simp [Conn.bytes]
          _ = helloFrame ++ (earlier.map FrameWrite.frame).flatten ++ last.bytes := by
            rw [bytes_of_whole hwhole, List.map_cons, List.flatten_cons, hfirst]
      · obtain ⟨write, hmem, rfl⟩ := List.mem_map.mp hframe
        exact hevents write (.inl hmem)

end Speaks

/-! ## One write -/

/-- The frame of the event is on the connection, as a whole. -/
def Carried {δ : Type} (codec : Message LtpMeta δ) (nodeId : String) (event : OwnedEvent)
    (conn : Conn) : Prop :=
  ∃ write ∈ conn, write.Whole ∧ IsFrameOf codec nodeId event write.frame

/-- What a write of the event leaves. -/
structure Sent {δ : Type} (codec : Message LtpMeta δ) (nodeId : String) (helloFrame : Bytes)
    (event : OwnedEvent) (sent : Conn × Resolution) : Prop where
  speaks : Speaks codec nodeId helloFrame sent.1
  slotted : sent.2 = .delivered → Slotted codec nodeId helloFrame sent.1
  carried : sent.2 = .delivered → Carried codec nodeId event sent.1

section Sent

variable {δ : Type} {codec : Message LtpMeta δ} {nodeId : String} {helloFrame : Bytes}
  {event : OwnedEvent}

theorem whole_of_delivered {write : WriteResult} (h : write.resolution = .delivered)
    (frame : Bytes) :
    (write.writes frame).Whole := by
  cases write <;> first | rfl | exact nomatch h

theorem WriteResult.resolution_ne_preSend (write : WriteResult) :
    write.resolution ≠ .preSendShutdown := by
  cases write <;> simp [WriteResult.resolution]

theorem WriteResult.frame_writes (write : WriteResult) (frame : Bytes) :
    (write.writes frame).frame = frame := by
  cases write <;> rfl

/-- A write that does not deliver. -/
theorem Sent.undelivered {conn : Conn} {resolution : Resolution}
    (hspeaks : Speaks codec nodeId helloFrame conn) (hne : resolution ≠ .delivered) :
    Sent codec nodeId helloFrame event (conn, resolution) where
  speaks := hspeaks
  slotted hdelivered := absurd hdelivered hne
  carried hdelivered := absurd hdelivered hne

theorem sent_writeEvent {conn : Conn} (h : Slotted codec nodeId helloFrame conn) (now : UnixNanos)
    (write : WriteResult) :
    Sent codec nodeId helloFrame event
      (writeEvent codec (workingEventMeta nodeId event) event.egress now write conn) := by
  unfold writeEvent
  cases hframe : eventFrame codec (workingEventMeta nodeId event) now event.egress with
  | error e => exact .undelivered h.toSpeaks nofun
  | ok frame =>
      have hof : IsFrameOf codec nodeId event (write.writes frame).frame :=
        ⟨now, hframe.trans (congrArg Except.ok (write.frame_writes frame).symm)⟩
      refine ⟨h.push hof, fun hdelivered => h.push_whole hof (whole_of_delivered hdelivered frame),
        fun hdelivered => ?_⟩
      exact ⟨_, List.mem_append_right _ (List.mem_singleton_self _),
        whole_of_delivered hdelivered frame, hof⟩

theorem sent_writeHelloAndEvent (hello : WriteResult) (now : UnixNanos) (write : WriteResult) :
    Sent codec nodeId helloFrame event
      (writeHelloAndEvent codec (workingEventMeta nodeId event) event.egress helloFrame hello now
        write) := by
  have hfirst := hello.frame_writes helloFrame
  unfold writeHelloAndEvent
  cases hhello : hello.resolution with
  | delivered =>
      exact sent_writeEvent (.first hfirst (whole_of_delivered hhello helloFrame)) now write
  | preSendShutdown => exact absurd hhello hello.resolution_ne_preSend
  | failed => exact .undelivered (.first hfirst) nofun
  | dropped => exact .undelivered (.first hfirst) nofun

end Sent

/-! ## The output -/

namespace LtpOutput

/-- The connection in the slot is whole, and every closed one is in order. -/
structure Inv {δ : Type} (codec : Message LtpMeta δ) (nodeId : String) (helloFrame : Bytes)
    (output : LtpOutput) : Prop where
  node : output.nodeId = nodeId
  hello : output.helloFrame = helloFrame
  slot : ∀ conn ∈ output.connection, Slotted codec nodeId helloFrame conn
  closed : ∀ conn ∈ output.closed, Speaks codec nodeId helloFrame conn

/-- What a call for the event leaves. -/
structure Called {δ : Type} (codec : Message LtpMeta δ) (nodeId : String) (helloFrame : Bytes)
    (event : OwnedEvent) (called : LtpOutput × Resolution) : Prop where
  inv : Inv codec nodeId helloFrame called.1
  carried : called.2 = .delivered → ∃ conn ∈ called.1.conns, Carried codec nodeId event conn

section Called

variable {δ : Type} {codec : Message LtpMeta δ} {nodeId : String} {helloFrame : Bytes}
  {event : OwnedEvent} {output : LtpOutput}

theorem Inv.new (codec : Message LtpMeta δ) (nodeId : String) (helloFrame : Bytes)
    (maxAttempts : ℕ) : Inv codec nodeId helloFrame (new nodeId helloFrame maxAttempts) :=
  ⟨rfl, rfl, by simp [LtpOutput.new], by simp [LtpOutput.new]⟩

theorem Inv.conns (h : Inv codec nodeId helloFrame output) {conn : Conn}
    (hconn : conn ∈ output.conns) :
    Speaks codec nodeId helloFrame conn := by
  rcases List.mem_append.mp hconn with hmem | hmem
  · exact h.closed conn hmem
  · exact (h.slot conn (by simpa using hmem)).toSpeaks

theorem Inv.close (h : Inv codec nodeId helloFrame output) {conn : Conn}
    (hconn : Speaks codec nodeId helloFrame conn) :
    Inv codec nodeId helloFrame (output.close conn) where
  node := h.node
  hello := h.hello
  slot := by simp [LtpOutput.close]
  closed other hother := by
    rcases List.mem_append.mp hother with hother | hother
    · exact h.closed other hother
    · rwa [List.mem_singleton.mp hother]

/-- A call that does not deliver. -/
theorem Inv.called (h : Inv codec nodeId helloFrame output) {resolution : Resolution}
    (hne : resolution ≠ .delivered) : Called codec nodeId helloFrame event (output, resolution) :=
  ⟨h, fun hdelivered => absurd hdelivered hne⟩

/-- The connection is kept. -/
theorem Inv.kept (h : Inv codec nodeId helloFrame output) {conn : Conn}
    (hsent : Sent codec nodeId helloFrame event (conn, .delivered)) :
    Called codec nodeId helloFrame event (output.keep conn, .delivered) where
  inv :=
    { node := h.node
      hello := h.hello
      slot := by simpa [LtpOutput.keep] using hsent.slotted rfl
      closed := h.closed }
  carried _ := ⟨conn, by simp [LtpOutput.conns, LtpOutput.keep], hsent.carried rfl⟩

theorem Called.writeAttempt (h : Inv codec nodeId helloFrame output) (env : SteadyEnv) :
    Called codec nodeId helloFrame event
      (output.writeAttempt codec (workingEventMeta nodeId event) event.egress env) := by
  unfold LtpOutput.writeAttempt
  rw [h.hello]
  split
  case isTrue => exact h.called nofun
  case isFalse =>
    cases hconn : output.connection with
    | none =>
        cases env.connect with
        | failed => exact h.called nofun
        | shutdown => exact h.called nofun
        | connected =>
            simp only
            split
            case isTrue => exact (h.close .nil).called nofun
            case isFalse =>
              have hsent : Sent codec nodeId helloFrame event (writeHelloAndEvent _ _ _ helloFrame
                env.hello.result env.now env.event.result) := sent_writeHelloAndEvent ..
              split
              case h_1 conn heq => exact h.kept (heq ▸ hsent)
              case h_2 conn _ _ heq => exact (h.close (heq ▸ hsent).speaks).called nofun
    | some conn =>
        have hsent : Sent codec nodeId helloFrame event (writeEvent _ _ _ env.now
          env.event.result conn) := sent_writeEvent (h.slot conn hconn) ..
        simp only
        split
        case h_1 conn heq => exact h.kept (heq ▸ hsent)
        case h_2 conn _ _ heq => exact (h.close (heq ▸ hsent).speaks).called nofun

theorem Called.writeShutdown (h : Inv codec nodeId helloFrame output) (env : ShutdownEnv) :
    Called codec nodeId helloFrame event
      (output.writeShutdown codec (workingEventMeta nodeId event) event.egress env) := by
  unfold LtpOutput.writeShutdown
  rw [h.hello]
  cases hconn : output.connection with
  | none =>
      cases env.connect with
      | failed => exact h.called nofun
      | dropped => exact h.called nofun
      | connected =>
          have hsent : Sent codec nodeId helloFrame event (writeHelloAndEvent _ _ _ helloFrame
            env.hello env.now env.event) := sent_writeHelloAndEvent ..
          simp only
          split
          case h_1 conn heq => exact h.kept (heq ▸ hsent)
          case h_2 conn other hne heq =>
            exact (h.close (heq ▸ hsent).speaks).called (by simpa using hne)
  | some conn =>
      have hsent : Sent codec nodeId helloFrame event (writeEvent _ _ _ env.now env.event conn) :=
        sent_writeEvent (h.slot conn hconn) ..
      simp only
      split
      case h_1 conn heq => exact h.kept (heq ▸ hsent)
      case h_2 conn other hne heq =>
        exact (h.close (heq ▸ hsent).speaks).called (by simpa using hne)

theorem Called.retry (h : Inv codec nodeId helloFrame output) (env : ℕ → SteadyEnv)
    (left attempt : ℕ) :
    Called codec nodeId helloFrame event
      (output.retry codec (workingEventMeta nodeId event) event.egress env left attempt) := by
  induction left generalizing attempt output with
  | zero => exact h.called nofun
  | succ left ih =>
      have hnext : Called codec nodeId helloFrame event
        (output.writeAttempt codec _ _ (env attempt)) := Called.writeAttempt h _
      unfold LtpOutput.retry
      simp only
      split
      case h_1 =>
        split_ifs
        · exact hnext.inv.called nofun
        · exact hnext.inv.called nofun
        · exact ih hnext.inv (attempt + 1)
      case h_2 => exact hnext

/-- One call. -/
theorem Called.call (h : Inv codec nodeId helloFrame output) (op : Op) :
    Called codec nodeId helloFrame op.event (output.call codec op) := by
  cases op with
  | consume event env =>
      simp only [LtpOutput.call, LtpOutput.consume, h.node]
      split
      · exact h.called nofun
      · exact Called.retry h env _ _
  | consumeShutdown event env =>
      simp only [LtpOutput.call, LtpOutput.consumeShutdown, h.node]
      split
      · exact h.called nofun
      · exact Called.writeShutdown h env

/-- A run of calls. -/
theorem Inv.run (h : Inv codec nodeId helloFrame output) (ops : List Op) :
    Inv codec nodeId helloFrame (output.run codec ops) := by
  induction ops generalizing output with
  | nil => exact h
  | cons op ops ih => exact ih (Called.call h op).inv

end Called

/-- An attempt given up as pre-send has written nothing. -/
theorem writeAttempt_preSend {δ : Type} {codec : Message LtpMeta δ} {working : WorkingEventMeta}
    {payload : Bytes} {output : LtpOutput} {env : SteadyEnv}
    (h : (output.writeAttempt codec working payload env).2 = .preSendShutdown) :
    (output.writeAttempt codec working payload env).1.conns.flatten = output.conns.flatten := by
  revert h
  unfold writeAttempt
  split
  case isTrue => exact fun _ => rfl
  case isFalse =>
    cases hconn : output.connection with
    | none =>
        cases env.connect with
        | failed => exact nofun
        | shutdown => exact fun _ => rfl
        | connected =>
            simp only
            split
            case isTrue => simp [conns, close, hconn]
            case isFalse => split <;> exact nofun
    | some conn =>
        simp only
        split <;> exact nofun

theorem writeEvent_ne_preSend {δ : Type} (codec : Message LtpMeta δ) (working : WorkingEventMeta)
    (payload : Bytes) (now : UnixNanos) (write : WriteResult) (conn : Conn) :
    (writeEvent codec working payload now write conn).2 ≠ .preSendShutdown := by
  unfold writeEvent
  split
  · exact nofun
  · exact write.resolution_ne_preSend

theorem writeHelloAndEvent_ne_preSend {δ : Type} (codec : Message LtpMeta δ)
    (working : WorkingEventMeta) (payload helloFrame : Bytes) (hello : WriteResult)
    (now : UnixNanos)
    (write : WriteResult) :
    (writeHelloAndEvent codec working payload helloFrame hello now write).2 ≠ .preSendShutdown := by
  unfold writeHelloAndEvent
  have hne := hello.resolution_ne_preSend
  simp only
  split
  · exact writeEvent_ne_preSend codec working payload now write _
  · exact hne

/-- At shutdown nothing is given up as pre-send. -/
theorem writeShutdown_ne_preSend {δ : Type} (codec : Message LtpMeta δ) (working : WorkingEventMeta)
    (payload : Bytes) (output : LtpOutput) (env : ShutdownEnv) :
    (output.writeShutdown codec working payload env).2 ≠ .preSendShutdown := by
  unfold writeShutdown
  cases output.connection with
  | none =>
      cases env.connect with
      | failed => exact nofun
      | dropped => exact nofun
      | connected =>
          have hne :=
              writeHelloAndEvent_ne_preSend codec working payload output.helloFrame env.hello
            env.now env.event
          simp only
          split
          · exact nofun
          · rename_i heq
            rw [heq] at hne
            exact hne
  | some conn =>
      have hne := writeEvent_ne_preSend codec working payload env.now env.event conn
      simp only
      split
      · exact nofun
      · rename_i heq
        rw [heq] at hne
        exact hne

/-- The output before an attempt of `consume`: the attempts before it have failed. -/
inductive Attempting {δ : Type} (codec : Message LtpMeta δ) (working : WorkingEventMeta)
    (payload : Bytes) (env : ℕ → SteadyEnv) (output : LtpOutput) : ℕ → LtpOutput → Prop where
  | first : Attempting codec working payload env output 0 output
  | again {attempt : ℕ} {before : LtpOutput}
      (h : Attempting codec working payload env output attempt before)
      (hfailed : (before.writeAttempt codec working payload (env attempt)).2 = .failed) :
      Attempting codec working payload env output (attempt + 1)
        (before.writeAttempt codec working payload (env attempt)).1

/-- A call that is given up as pre-send ends with an attempt that is. -/
theorem exists_attempt_of_retry {δ : Type} {codec : Message LtpMeta δ} {working : WorkingEventMeta}
    {payload : Bytes} {start output : LtpOutput} {env : ℕ → SteadyEnv} {left attempt : ℕ}
    (houtput : Attempting codec working payload env start attempt output)
    (h : (output.retry codec working payload env left attempt).2 = .preSendShutdown) :
    ∃ (last : ℕ) (before : LtpOutput), Attempting codec working payload env start last before ∧
      output.retry codec working payload env left attempt =
        before.writeAttempt codec working payload (env last) := by
  induction left generalizing attempt output with
  | zero => exact nomatch h
  | succ left ih =>
      unfold retry at h ⊢
      simp only at h ⊢
      split
      case h_1 hfailed =>
        simp only [hfailed] at h ⊢
        split_ifs at h ⊢
        exact ih (houtput.again hfailed) h
      case h_2 => exact ⟨attempt, output, houtput, rfl⟩

theorem exists_attempt {δ : Type} {codec : Message LtpMeta δ} {output : LtpOutput} {op : Op}
    (h : (output.call codec op).2 = .preSendShutdown) :
    ∃ event env, op = .consume event env ∧ ∃ (last : ℕ) (before : LtpOutput),
      Attempting codec (workingEventMeta output.nodeId event) event.egress env output last before ∧
        output.call codec op = before.writeAttempt codec (workingEventMeta output.nodeId event)
          event.egress (env last) := by
  cases op with
  | consume event env =>
      refine ⟨event, env, rfl, ?_⟩
      simp only [call, consume] at h ⊢
      split_ifs at h ⊢
      exact exists_attempt_of_retry .first h
  | consumeShutdown event env =>
      simp only [call, consumeShutdown] at h
      split_ifs at h
      exact absurd h (writeShutdown_ne_preSend codec _ event.egress output env)

end LtpOutput

/-- **The LTP sender keeps every connection well formed**, after any sequence of calls: each carries
the hello frame and then event frames, of which only the last may be incomplete.  An event that is
delivered is on some connection as a whole frame.  A call that is given up as pre-send ends with an
attempt that is, after attempts that failed, and such an attempt writes nothing. -/
theorem ltpSender_wellFormed {δ : Type} (codec : Message LtpMeta δ) (nodeId : String)
    (helloFrame : Bytes) (maxAttempts : ℕ) (ops : List LtpOutput.Op) :
    let output := (LtpOutput.new nodeId helloFrame maxAttempts).run codec ops
    (∀ conn ∈ output.conns, Speaks codec nodeId helloFrame conn ∧
      SpeaksBytes codec nodeId helloFrame (Conn.bytes conn)) ∧
    (∀ op, (output.call codec op).2 = .delivered →
      ∃ conn ∈ (output.call codec op).1.conns, Carried codec nodeId op.event conn) ∧
    (∀ op, (output.call codec op).2 = .preSendShutdown →
      ∃ event env, op = .consume event env ∧ ∃ (last : ℕ) (before : LtpOutput),
        LtpOutput.Attempting codec (workingEventMeta nodeId event) event.egress env output last
            before ∧
          output.call codec op = before.writeAttempt codec (workingEventMeta nodeId event)
            event.egress (env last)) ∧
    ∀ (before : LtpOutput) working payload env,
      (before.writeAttempt codec working payload env).2 = .preSendShutdown →
      (before.writeAttempt codec working payload env).1.conns.flatten = before.conns.flatten := by
  have hinv := (LtpOutput.Inv.new codec nodeId helloFrame maxAttempts).run ops
  refine ⟨fun conn hconn => ?_, fun op hdelivered => ?_, fun op hpreSend => ?_,
    fun before working payload env hpreSend => ?_⟩
  · exact ⟨hinv.conns hconn, (hinv.conns hconn).bytes⟩
  · exact (LtpOutput.Called.call hinv op).carried hdelivered
  · have hattempt := LtpOutput.exists_attempt hpreSend
    rwa [hinv.node] at hattempt
  · exact LtpOutput.writeAttempt_preSend hpreSend

end Limpid.Output
