import Limpid.Dsl.ReadBack

/-!
# The queue and retry blocks of an output

`QueueConfig`, `RetryConfig` and the schemas of their blocks (`queue/mod.rs`).  Each output declares
`queue` and `retry` next to its own keys, and the runtime reads both for every output.
-/

namespace Limpid.Queue

open Dsl (Runtime)
open Dsl.Props (Duration Formats getBlock getIdent getPositiveInt getString parseDuration parseSize)
open Dsl.Schema (PropertySpec PropertyValueKind)

/-! ## Schemas -/

/-- A key that is neither required nor repeatable nor in a group. -/
def optionalKey (name : String) (kind : PropertyValueKind) : PropertySpec where
  name := name
  required := false
  repeatable := false
  exclusiveGroup := none
  kind := kind

/-- `QUEUE_BLOCK_PROPERTIES`. -/
def queueBlockProperties : List PropertySpec :=
  [optionalKey "type" (.enum ["memory", "disk"]),
    optionalKey "path" .string,
    optionalKey "max_size" .size,
    optionalKey "capacity" .int]

/-- `QUEUE_PROPERTY_SPEC`. -/
def queuePropertySpec : PropertySpec := optionalKey "queue" (.block queueBlockProperties)

/-- `RETRY_BLOCK_PROPERTIES`. -/
def retryBlockProperties : List PropertySpec :=
  [optionalKey "max_attempts" .int,
    optionalKey "initial_wait" .duration,
    optionalKey "max_wait" .duration,
    optionalKey "backoff" (.enum ["fixed", "exponential"])]

/-- `RETRY_PROPERTY_SPEC`. -/
def retryPropertySpec : PropertySpec := optionalKey "retry" (.block retryBlockProperties)

/-! ## Readers -/

/-- `QueueType`. -/
inductive QueueType where
  | memory
  | disk (path : String) (maxSize : ℕ)
deriving DecidableEq

/-- `QueueConfig`. -/
structure QueueConfig where
  queueType : QueueType
  capacity : ℕ
deriving DecidableEq

/-- `QueueConfig::default`. -/
def QueueConfig.default : QueueConfig where
  queueType := .memory
  capacity := 65536

/-- `BackoffStrategy`. -/
inductive BackoffStrategy where
  | exponential
  | fixed
deriving DecidableEq

/-- `RetryConfig`. -/
structure RetryConfig where
  maxAttempts : ℕ
  initialWait : Duration
  maxWait : Duration
  backoff : BackoffStrategy
deriving DecidableEq

/-- `RetryConfig::default`. -/
def RetryConfig.default : RetryConfig where
  maxAttempts := 5
  initialWait := .fromSecs 1
  maxWait := .fromSecs 60
  backoff := .exponential

section Readers

variable (upper : Char → List Char) (rt : Runtime) (formats : Formats)

/-- The `max_size` of a disk queue; 0 is no limit. -/
def readMaxSize (block : List Dsl.Property) : Except String ℕ :=
  match getString rt formats block "max_size" with
  | some s => parseSize upper s
  | none => .ok 0

/-- The `type` of a queue. -/
def readQueueType (outputName : String) (block : List Dsl.Property) : Except String QueueType :=
  if getIdent block "type" = some "disk" then do
    let path := (getString rt formats block "path").getD s!"/var/lib/limpid/queues/{outputName}"
    let maxSize ← readMaxSize upper rt formats block
    pure (.disk path maxSize)
  else pure .memory

/-- `QueueConfig::from_output_properties`. -/
def QueueConfig.fromOutputProperties (outputName : String) (outputProps : List Dsl.Property) :
    Except String QueueConfig :=
  match getBlock outputProps "queue" with
  | none => .ok .default
  | some block => do
      let queueType ← readQueueType upper rt formats outputName block
      let capacity ← getPositiveInt block "capacity"
      pure ⟨queueType, capacity.getD 65536⟩

/-- A duration of the retry block. -/
def readWait (block : List Dsl.Property) (key : String) (default : Duration) :
    Except String Duration :=
  match getString rt formats block key with
  | some s => parseDuration s
  | none => .ok default

/-- `RetryConfig::from_output_properties`. -/
def RetryConfig.fromOutputProperties (outputProps : List Dsl.Property) :
    Except String RetryConfig :=
  match getBlock outputProps "retry" with
  | none => .ok .default
  | some block => do
      let maxAttempts :=
        match ← getPositiveInt block "max_attempts" with
        | some n => min n (2 ^ 32 - 1)
        | none => default.maxAttempts
      let initialWait ← readWait rt formats block "initial_wait" default.initialWait
      let maxWait ← readWait rt formats block "max_wait" default.maxWait
      let backoff := if getIdent block "backoff" = some "fixed" then .fixed else .exponential
      pure { maxAttempts, initialWait, maxWait, backoff }

end Readers

/-! ## What is read is what is written -/

open Dsl.Schema (Absent Conforms Setting Takes Written lookup readAll)

section Written

variable (upper : Char → List Char) (rt : Runtime) (formats : Formats)

/-- A number that may not be negative, put to use by `f`. -/
def Count (f : ℕ → ℕ) (setting : Setting) (value : ℕ) : Prop :=
  ∃ n : Int64, setting = .number n ∧ 0 ≤ n ∧ value = f n.toInt.toNat

/-- A setting and the duration it says. -/
def Wait (setting : Setting) (duration : Duration) : Prop :=
  ∃ text, setting = .text text ∧ parseDuration text = .ok duration

/-- The retry settings are those of the block. -/
structure RetryConfig.Written (block : List Dsl.Schema.Property) (config : RetryConfig) : Prop where
  maxAttempts : Takes upper rt formats .int block "max_attempts" (Count (min · (2 ^ 32 - 1)))
    RetryConfig.default.maxAttempts config.maxAttempts
  initialWait : Takes upper rt formats .duration block "initial_wait" Wait
    RetryConfig.default.initialWait config.initialWait
  maxWait : Takes upper rt formats .duration block "max_wait" Wait
    RetryConfig.default.maxWait config.maxWait
  backoff : Takes upper rt formats (.enum ["fixed", "exponential"]) block "backoff"
    (fun setting backoff => (setting = .word "fixed" ∧ backoff = .fixed) ∨
      (setting = .word "exponential" ∧ backoff = .exponential))
    RetryConfig.default.backoff config.backoff

/-- The queue settings are those of the block; a memory queue has no path and no size. -/
structure QueueConfig.Written (outputName : String) (block : List Dsl.Schema.Property)
    (config : QueueConfig) : Prop where
  capacity : Takes upper rt formats .int block "capacity" (Count id) 65536 config.capacity
  memory : config.queueType = .memory ↔ Absent block "type" ∨
    Dsl.Schema.Written upper rt formats (.enum ["memory", "disk"]) block "type" (.word "memory")
  disk : ∀ path maxSize, config.queueType = .disk path maxSize →
    Takes upper rt formats .string block "path" (fun setting text => setting = .text text)
      s!"/var/lib/limpid/queues/{outputName}" path ∧
    Takes upper rt formats .size block "max_size"
      (fun setting size => ∃ text, setting = .text text ∧ parseSize upper text = .ok size) 0 maxSize

end Written

variable {upper : Char → List Char} {rt : Runtime} {formats : Formats}
  {spec : List PropertySpec} {props : List Dsl.Schema.Property}

variable (rt formats) in
theorem readWait_takes (h : Conforms upper spec props) {key : String}
    (hs : lookup spec key = some (optionalKey key .duration)) (default : Duration) :
    ∃ duration, readWait rt formats (readAll props) key default = .ok duration ∧
      Takes upper rt formats .duration props key Wait default duration := by
  rcases Dsl.Schema.getString_duration h hs rfl rfl with
    ⟨hnone, hread⟩ | ⟨text, duration, hwritten, hparse, hread⟩
  · exact ⟨default, by rw [readWait, hread], .inl ⟨hnone, rfl⟩⟩
  · refine ⟨duration, ?_, .inr ⟨_, hwritten, text, rfl, hparse⟩⟩
    rw [readWait, hread]
    exact hparse

/-- On an accepted list the retry settings are what the `retry` block says, or their defaults.  The
only error left is that of a negative `max_attempts`. -/
theorem RetryConfig.fromOutputProperties_written (hconforms : Conforms upper spec props)
    (hspec : lookup spec "retry" = some retryPropertySpec) :
    (Absent props "retry" ∧ fromOutputProperties rt formats (readAll props) = .ok .default) ∨
      ∃ k q block, props.filter (·.key = "retry") = [.block k q block] ∧
        ((∃ config, fromOutputProperties rt formats (readAll props) = .ok config ∧
            RetryConfig.Written upper rt formats block config) ∨
          ∃ n, n < 0 ∧ Dsl.Schema.Written upper rt formats .int block "max_attempts" (.number n) ∧
            fromOutputProperties rt formats (readAll props) =
              .error s!"'max_attempts' must be non-negative, got {n.toInt}") := by
  rcases Dsl.Schema.getBlock_cases hconforms hspec rfl rfl with
    ⟨hnone, hread⟩ | ⟨k, q, block, honly, hblock, hread⟩
  · exact .inl ⟨hnone, by rw [fromOutputProperties, hread]⟩
  refine .inr ⟨k, q, block, honly, ?_⟩
  obtain ⟨initialWait, hinitial, hinitialTakes⟩ :=
    readWait_takes rt formats hblock
      (show lookup retryBlockProperties "initial_wait" = some _ from rfl)
      RetryConfig.default.initialWait
  obtain ⟨maxWait, hmax, hmaxTakes⟩ :=
    readWait_takes rt formats hblock
      (show lookup retryBlockProperties "max_wait" = some _ from rfl) RetryConfig.default.maxWait
  have hbackoff : Takes upper rt formats (.enum ["fixed", "exponential"]) block "backoff"
      (fun setting backoff => (setting = .word "fixed" ∧ backoff = .fixed) ∨
        (setting = .word "exponential" ∧ backoff = .exponential)) RetryConfig.default.backoff
      (if getIdent (readAll block) "backoff" = some "fixed" then BackoffStrategy.fixed
        else .exponential) := by
    rcases Dsl.Schema.getIdent_enum rt formats hblock
      (show lookup retryBlockProperties "backoff" = some _ from rfl) rfl rfl with
      ⟨hnone, hread⟩ | ⟨word, hmem, hwritten, hread⟩
    · exact .inl ⟨hnone, by rw [hread, if_neg (by simp)]; rfl⟩
    · refine .inr ⟨_, hwritten, ?_⟩
      rw [hread]
      simp only [List.mem_cons, List.not_mem_nil, or_false] at hmem
      rcases hmem with rfl | rfl
      · exact .inl ⟨rfl, if_pos rfl⟩
      · exact .inr ⟨rfl, if_neg (by decide)⟩
  rw [fromOutputProperties, hread]
  rcases Dsl.Schema.getPositiveInt_cases rt formats hblock
    (show lookup retryBlockProperties "max_attempts" = some _ from rfl) rfl rfl with
    ⟨hnone, hcount⟩ | ⟨n, hwritten, hcount⟩
  · refine .inl ⟨⟨_, initialWait, maxWait, _⟩, ?_, ⟨.inl ⟨hnone, rfl⟩, hinitialTakes, hmaxTakes,
      hbackoff⟩⟩
    simp only [hcount, hinitial, hmax]
    rfl
  · -- a negative number of attempts is refused
    by_cases hn : 0 ≤ n
    · rw [if_pos hn] at hcount
      refine .inl ⟨⟨_, initialWait, maxWait, _⟩, ?_, ⟨.inr ⟨_, hwritten, n, rfl, hn, rfl⟩,
        hinitialTakes, hmaxTakes, hbackoff⟩⟩
      simp only [hcount, hinitial, hmax]
      rfl
    · rw [if_neg hn] at hcount
      refine .inr ⟨n, by simpa using hn, hwritten, ?_⟩
      simp only [hcount]
      rfl

variable (rt formats) in
theorem readMaxSize_takes {block : List Dsl.Schema.Property}
    (h : Conforms upper queueBlockProperties block) :
    ∃ size, readMaxSize upper rt formats (readAll block) = .ok size ∧
      Takes upper rt formats .size block "max_size"
        (fun setting size => ∃ text, setting = .text text ∧ parseSize upper text = .ok size)
        0 size := by
  rcases Dsl.Schema.getString_size h
    (show lookup queueBlockProperties "max_size" = some _ from rfl) rfl rfl with
    ⟨hnone, hread⟩ | ⟨text, size, hwritten, hparse, hread⟩
  · exact ⟨0, by rw [readMaxSize, hread], .inl ⟨hnone, rfl⟩⟩
  · refine ⟨size, ?_, .inr ⟨_, hwritten, text, rfl, hparse⟩⟩
    rw [readMaxSize, hread]
    exact hparse

variable (rt formats) in
/-- A queue is in memory unless its type is written as `disk`. -/
theorem queueType_memory_iff {block : List Dsl.Schema.Property}
    (h : Conforms upper queueBlockProperties block) :
    getIdent (readAll block) "type" ≠ some "disk" ↔ Absent block "type" ∨
      Dsl.Schema.Written upper rt formats (.enum ["memory", "disk"]) block "type"
        (.word "memory") := by
  constructor
  · intro htype
    rcases Dsl.Schema.getIdent_enum rt formats h
      (show lookup queueBlockProperties "type" = some _ from rfl) rfl rfl with
      ⟨hnone, -⟩ | ⟨word, hmem, hwritten, hread⟩
    · exact .inl hnone
    · simp only [List.mem_cons, List.not_mem_nil, or_false] at hmem
      rcases hmem with rfl | rfl
      · exact .inr hwritten
      · exact absurd hread htype
  · rintro (hnone | hwritten) htype
    · rw [Dsl.Schema.getIdent_none hnone] at htype
      cases htype
    · have haccess := hwritten.access
      rw [Dsl.Schema.access, htype] at haccess
      exact absurd haccess (by simp)

variable (rt formats) in
theorem readQueueType_written (outputName : String) {block : List Dsl.Schema.Property}
    (h : Conforms upper queueBlockProperties block) :
    ∃ queueType, readQueueType upper rt formats outputName (readAll block) = .ok queueType ∧
      (queueType = .memory ↔ Absent block "type" ∨
        Dsl.Schema.Written upper rt formats (.enum ["memory", "disk"]) block "type"
          (.word "memory")) ∧
      ∀ path maxSize, queueType = .disk path maxSize →
        Takes upper rt formats .string block "path" (fun setting text => setting = .text text)
          s!"/var/lib/limpid/queues/{outputName}" path ∧
        Takes upper rt formats .size block "max_size"
          (fun setting size => ∃ text, setting = .text text ∧ parseSize upper text = .ok size)
          0 maxSize := by
  have hmemory := queueType_memory_iff rt formats h
  unfold readQueueType
  by_cases htype : getIdent (readAll block) "type" = some "disk"
  · obtain ⟨size, hsize, hsizeTakes⟩ := readMaxSize_takes rt formats h
    simp only [if_pos htype, hsize]
    refine ⟨_, rfl, iff_of_false (by simp) fun hwritten => hmemory.mpr hwritten htype, ?_⟩
    intro path maxSize heq
    cases heq
    exact ⟨Dsl.Schema.takes_string h (show lookup queueBlockProperties "path" = some _ from rfl)
      rfl rfl _, hsizeTakes⟩
  · simp only [if_neg htype]
    refine ⟨.memory, rfl, iff_of_true rfl (hmemory.mp htype), ?_⟩
    intro path maxSize heq
    cases heq

/-- The same for the queue settings: a negative `capacity` is the only error left. -/
theorem QueueConfig.fromOutputProperties_written (outputName : String)
    (hconforms : Conforms upper spec props)
    (hspec : lookup spec "queue" = some queuePropertySpec) :
    (Absent props "queue" ∧
        fromOutputProperties upper rt formats outputName (readAll props) = .ok .default) ∨
      ∃ k q block, props.filter (·.key = "queue") = [.block k q block] ∧
        ((∃ config,
            fromOutputProperties upper rt formats outputName (readAll props) = .ok config ∧
            QueueConfig.Written upper rt formats outputName block config) ∨
          ∃ n, n < 0 ∧ Dsl.Schema.Written upper rt formats .int block "capacity" (.number n) ∧
            fromOutputProperties upper rt formats outputName (readAll props) =
              .error s!"'capacity' must be non-negative, got {n.toInt}") := by
  rcases Dsl.Schema.getBlock_cases hconforms hspec rfl rfl with
    ⟨hnone, hread⟩ | ⟨k, q, block, honly, hblock, hread⟩
  · exact .inl ⟨hnone, by rw [fromOutputProperties, hread]⟩
  refine .inr ⟨k, q, block, honly, ?_⟩
  rw [fromOutputProperties, hread]
  obtain ⟨queueType, hqueueType, hmemory, hdisk⟩ :=
    readQueueType_written rt formats outputName hblock
  rcases Dsl.Schema.getPositiveInt_cases rt formats hblock
    (show lookup queueBlockProperties "capacity" = some _ from rfl) rfl rfl with
    ⟨hnone, hcount⟩ | ⟨n, hwritten, hcount⟩
  · refine .inl ⟨⟨queueType, _⟩, ?_, ⟨.inl ⟨hnone, rfl⟩, hmemory, hdisk⟩⟩
    simp only [hqueueType, hcount]
    rfl
  · by_cases hn : 0 ≤ n
    · rw [if_pos hn] at hcount
      refine .inl ⟨⟨queueType, _⟩, ?_, ⟨.inr ⟨_, hwritten, n, rfl, hn, rfl⟩, hmemory, hdisk⟩⟩
      simp only [hqueueType, hcount]
      rfl
    · rw [if_neg hn] at hcount
      refine .inr ⟨n, by simpa using hn, hwritten, ?_⟩
      simp only [hqueueType, hcount]
      rfl

end Limpid.Queue
