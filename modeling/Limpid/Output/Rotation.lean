import Limpid.Output.Peers

/-!
# Sequences of peer-rotation calls

The calls on one `PeerList`, one after another.  `runCalls` keeps of each call the peers it found
and what it did; `Call.Meets` is what one call promises, and `RespectsCooldown` what a call promises
about those after it.

The calls read the monotonic clock, so `now` does not go back from one call to the next.  One
promise is not kept: `PreSendShutdown` is documented as "no peer's write phase had begun", but the
call only looks at the peer it stands at.  An attempt that fails in its write phase is followed by
the next peer, and if shutdown is observed there the call still says that nothing was sent
(`rotations_meet_iff`).
-/

namespace Limpid.Output

variable {C : Type*} {n : ℕ}

/-- A call, of `write_with_rotation_at` when there is no shutdown receiver. -/
structure Call (C : Type*) (n : ℕ) where
  now : ℕ
  attempt : AttemptFn C n
  shutdown : Option (ℕ → Bool)

namespace Call

/-- The call is made. -/
def run (call : Call C n) (list : PeerList C n) : Rotation C n :=
  match call.shutdown with
  | none => list.writeWithRotationAt call.now call.attempt
  | some shutdown => list.writeWithRotationShutdownAware call.now call.attempt shutdown

/-- Whether shutdown shows before the peer at the offset is selected. -/
def shows (call : Call C n) : ℕ → Bool := call.shutdown.getD fun _ => false

/-- The call takes the attempt for a failure of the peer. -/
def fails (call : Call C n) (attempt : Attempt C) : Prop :=
  attempt.outcome = .err ∨ call.shutdown = none ∧ attempt.outcome = .preSendShutdown

end Call

/-- A call of a run, with the peers it found. -/
structure CallEntry (C : Type*) (n : ℕ) where
  list : PeerList C n
  call : Call C n

/-- What a call of a run did. -/
def CallEntry.rotation (entry : CallEntry C n) : Rotation C n := entry.call.run entry.list

/-- The calls of a run, made one after another. -/
def runCalls : PeerList C n → List (Call C n) → List (CallEntry C n)
  | _, [] => []
  | list, call :: calls => ⟨list, call⟩ :: runCalls (call.run list).list calls

theorem call_mem_of_mem_runCalls {calls : List (Call C n)} {list : PeerList C n}
    {entry : CallEntry C n} (h : entry ∈ runCalls list calls) : entry.call ∈ calls := by
  induction calls generalizing list with
  | nil => simp [runCalls] at h
  | cons call calls ih =>
      rcases List.mem_cons.mp h with rfl | h
      · exact List.mem_cons_self ..
      · exact List.mem_cons_of_mem _ (ih h)

section Promises

variable [NeZero n]

/-- What one call promises. -/
structure CallEntry.Meets (entry : CallEntry C n) : Prop where
  /-- No peer is attempted twice. -/
  once : (entry.rotation.tried.map Prod.fst).Nodup
  /-- The peers attempted are the first ones not cooling, in cyclic order from the start index. -/
  inOrder : entry.rotation.tried.map Prod.fst <+:
    ((List.range n).map (peerAt n entry.list.start)).filter fun idx =>
      !(entry.list.state idx).cooling entry.call.now
  /-- Nothing follows a success. -/
  stops : ∀ x ∈ entry.rotation.tried.dropLast, x.2.outcome ≠ .ok
  okIff : entry.rotation.result = some (.ok ()) ↔ ∃ x ∈ entry.rotation.tried, x.2.outcome = .ok
  /-- When shutdown is never observed, the two functions do the same. -/
  same : (∀ offset idx state, (entry.call.attempt offset idx state).outcome ≠ .preSendShutdown) →
    entry.list.writeWithRotationAt entry.call.now entry.call.attempt =
      entry.list.writeWithRotationShutdownAware entry.call.now entry.call.attempt fun _ => false
  /-- `PreSendShutdown` means that no write phase had begun. -/
  honest : entry.rotation.result = some (.error .preSendShutdown) →
    ∀ x ∈ entry.rotation.tried, x.2.wrote = false
  /-- The peers not attempted keep their cooldown. -/
  untouched : ∀ idx ∉ entry.rotation.tried.map Prod.fst,
    (entry.rotation.list.state idx).cooldownUntil = (entry.list.state idx).cooldownUntil

/-- What a call promises about a later one: a peer that failed is not attempted within
`PEER_COOLDOWN` of its failure. -/
def RespectsCooldown (entry later : CallEntry C n) : Prop :=
  ∀ idx a, (idx, a) ∈ entry.rotation.tried → entry.call.fails a →
    later.call.now < a.finished + peerCooldown → idx ∉ later.rotation.tried.map Prod.fst

/-- The call is shutdown-aware, and comes to an offset where shutdown is observed past an attempt
that failed in its write phase. -/
def CallEntry.ObservedAfterWrite (entry : CallEntry C n) : Prop :=
  entry.call.shutdown.isSome ∧
    Output.ObservedAfterWrite entry.call.now entry.call.attempt entry.call.shows entry.list.start
      entry.list

end Promises

/-! ## One call -/

section OneCall

variable [NeZero n]

theorem CallEntry.rotation_eq (entry : CallEntry C n) :
    entry.rotation = rotate entry.call.shutdown.isSome entry.call.now entry.call.attempt
      entry.call.shows entry.list.start (List.range n) entry.list.advance := by
  unfold rotation Call.run Call.shows
  cases entry.call.shutdown with
  | none => exact entry.list.writeWithRotationAt_eq ..
  | some shutdown => exact entry.list.writeWithRotationShutdownAware_eq ..

theorem CallEntry.pass (entry : CallEntry C n) :
    Pass entry.call.shutdown.isSome entry.call.now entry.call.attempt entry.call.shows
      entry.list.start entry.list (List.range n) entry.list.advance entry.rotation :=
  entry.rotation_eq ▸ rotate_pass (nodup_peerAt _) fun _ _ => rfl

/-- The marker makes no difference to a closure that never returns it. -/
theorem rotate_aware_eq {now start : ℕ} {attempt : AttemptFn C n} {shutdown : ℕ → Bool}
    (hattempt : ∀ offset idx state, (attempt offset idx state).outcome ≠ .preSendShutdown)
    (offsets : List ℕ) (list : PeerList C n) :
    rotate false now attempt shutdown start offsets list =
      rotate true now attempt shutdown start offsets list := by
  have hverdict : ∀ offset idx state, (attempt offset idx state).outcome.verdict false =
      (attempt offset idx state).outcome.verdict true := by
    intro offset idx state
    have hne := hattempt offset idx state
    cases houtcome : (attempt offset idx state).outcome <;>
      simp_all [AttemptOutcome.verdict]
  induction offsets generalizing list with
  | nil => rfl
  | cons offset offsets ih => simp only [rotate, ih, hverdict]

/-- `write_with_rotation_at` never returns `PreSendShutdown`. -/
theorem Pass.result_ne {now start : ℕ} {attempt : AttemptFn C n} {first list : PeerList C n}
    {offsets : List ℕ} {rotation : Rotation C n}
    (h : Pass false now attempt (fun _ => false) start first offsets list rotation) :
    rotation.result ≠ some (.error .preSendShutdown) := by
  induction h with
  | exhausted => simp
  | observed hobserved => exact nomatch hobserved
  | cooling _ _ _ ih => exact ih
  | accepted => simp
  | stopped _ _ hverdict => exact fun hresult =>
    nomatch ((result_of_stop hverdict).2.2.mp hresult).1
  | cooled _ _ _ _ ih => exact ih

omit [NeZero n] in
theorem Call.fails_iff (call : Call C n) (a : Attempt C) :
    call.fails a ↔ a.outcome.verdict call.shutdown.isSome = .cool := by
  unfold fails
  cases call.shutdown <;> cases a.outcome <;> simp [AttemptOutcome.verdict]

namespace CallEntry

variable (entry : CallEntry C n)

theorem tried_prefix : entry.rotation.tried.map Prod.fst <+:
    ((List.range n).map (peerAt n entry.list.start)).filter fun idx =>
      !(entry.list.state idx).cooling entry.call.now := by
  rw [List.filter_map]
  exact entry.pass.tried_prefix

/-- When the promise about `PreSendShutdown` is broken. -/
theorem hidden_write_iff :
    (entry.rotation.result = some (.error .preSendShutdown) ∧
      ∃ x ∈ entry.rotation.tried, x.2.wrote = true) ↔ entry.ObservedAfterWrite := by
  have hpass := entry.pass
  unfold ObservedAfterWrite
  cases hshutdown : entry.call.shutdown with
  | none =>
      simp only [hshutdown, Call.shows, Option.isSome_none, Option.getD_none] at hpass
      simp [hpass.result_ne]
  | some shutdown =>
      simp only [hshutdown, Option.isSome_some] at hpass
      simpa using hpass.hidden_write_iff

/-- A call that does not come to an offset of the kind is as promised. -/
theorem meets (h : ¬ entry.ObservedAfterWrite) : entry.Meets where
  once := entry.tried_prefix.sublist.nodup ((nodup_peerAt _).filter _)
  inOrder := entry.tried_prefix
  stops x hx := Pass.outcome_ne_ok (entry.pass.cools_of_mem_dropLast hx)
  okIff := entry.pass.result_ok_iff
  same hattempt := by
    rw [entry.list.writeWithRotationAt_eq, entry.list.writeWithRotationShutdownAware_eq,
      rotate_aware_eq hattempt]
  honest hresult x hx := by
    by_contra hwrote
    exact h (entry.hidden_write_iff.mp ⟨hresult, x, hx, by simpa using hwrote⟩)
  untouched idx hidx := by rw [entry.pass.state_of_not_tried hidx]; rfl

theorem Meets.not_observedAfterWrite {entry : CallEntry C n} (h : entry.Meets) :
    ¬ entry.ObservedAfterWrite := by
  intro hobserved
  obtain ⟨hresult, x, hx, hwrote⟩ := entry.hidden_write_iff.mpr hobserved
  exact nomatch hwrote.symm.trans (h.honest hresult x hx)

/-- A peer cooling beyond `now` is not attempted, and goes on cooling. -/
theorem not_tried_of_cooling {idx : Fin n} {expiry : ℕ}
    (hexpiry : (entry.list.state idx).cooldownUntil = some expiry)
    (hnow : entry.call.now < expiry) :
    idx ∉ entry.rotation.tried.map Prod.fst ∧
      (entry.rotation.list.state idx).cooldownUntil = some expiry := by
  have hnot : idx ∉ entry.rotation.tried.map Prod.fst := by
    intro hmem
    have hready := (List.mem_filter.mp (entry.tried_prefix.subset hmem)).2
    simp [PeerState.cooling, hexpiry, hnow] at hready
  refine ⟨hnot, ?_⟩
  rw [entry.pass.state_of_not_tried hnot]
  exact hexpiry

end CallEntry

end OneCall

/-! ## Runs -/

section Runs

variable [NeZero n]

/-- No call of a run attempts a peer before the end of its cooldown. -/
theorem not_tried_of_cooling_run {calls : List (Call C n)} {list : PeerList C n} {idx : Fin n}
    {expiry : ℕ} (hordered : calls.Pairwise fun x y => x.now ≤ y.now)
    (hexpiry : (list.state idx).cooldownUntil = some expiry) :
    ∀ entry ∈ runCalls list calls, entry.call.now < expiry →
      idx ∉ entry.rotation.tried.map Prod.fst := by
  induction calls generalizing list with
  | nil => intro entry hentry; simp [runCalls] at hentry
  | cons call calls ih =>
      obtain ⟨hfirst, hrest⟩ := List.pairwise_cons.mp hordered
      intro entry hentry hnow
      rcases List.mem_cons.mp hentry with rfl | hentry
      · exact (CallEntry.not_tried_of_cooling ⟨list, call⟩ hexpiry hnow).1
      · have hcall : entry.call ∈ calls := call_mem_of_mem_runCalls hentry
        have hearly : call.now < expiry := (hfirst _ hcall).trans_lt hnow
        have hkept := (CallEntry.not_tried_of_cooling ⟨list, call⟩ hexpiry hearly).2
        exact ih hrest hkept entry hentry hnow

/-- **Cooldowns are respected along a run.** -/
theorem pairwise_respectsCooldown {calls : List (Call C n)}
    (hordered : calls.Pairwise fun x y => x.now ≤ y.now) (list : PeerList C n) :
    (runCalls list calls).Pairwise RespectsCooldown := by
  induction calls generalizing list with
  | nil => exact .nil
  | cons call calls ih =>
      obtain ⟨-, hrest⟩ := List.pairwise_cons.mp hordered
      refine .cons (fun later hlater idx a hmem hfails hnow => ?_) (ih hrest _)
      have hcool := (call.fails_iff a).mp hfails
      have hexpiry := (CallEntry.pass ⟨list, call⟩).cooldown_of_failed (nodup_peerAt _) hmem hcool
      exact not_tried_of_cooling_run hrest hexpiry later hlater hnow

/-- **Peer rotation keeps its promises exactly when** no shutdown-aware call comes to an offset
where shutdown is observed past an attempt that failed in its write phase. -/
theorem rotations_meet_iff (list : PeerList C n) (calls : List (Call C n))
    (hordered : calls.Pairwise fun x y => x.now ≤ y.now) :
    ((∀ entry ∈ runCalls list calls, entry.Meets) ∧
      (runCalls list calls).Pairwise RespectsCooldown) ↔
      ∀ entry ∈ runCalls list calls, ¬ entry.ObservedAfterWrite :=
  ⟨fun h entry hentry => (h.1 entry hentry).not_observedAfterWrite,
    fun h => ⟨fun entry hentry => entry.meets (h entry hentry),
      pairwise_respectsCooldown hordered list⟩⟩

end Runs

/-! ## A write hidden by a shutdown -/

section Example

/-- The attempt on the first peer fails in its write phase. -/
def failsInWrite : AttemptFn Unit 2 := fun _ _ _ =>
  { conn := none, closed := some (), outcome := .err, wrote := true, finished := 0,
    preSend := nofun }

/-- Shutdown is signalled while the first peer is being written to. -/
def shutdownInWrite : Call Unit 2 := ⟨0, failsInWrite, some fun offset => offset == 1⟩

/-- A call made later, without a shutdown receiver. -/
def afterwards : Call Unit 2 := ⟨1, failsInWrite, none⟩

end Example

theorem rotations_meet_iff_shutdownInWrite :
    ((∀ entry ∈ runCalls (PeerList.new Unit 2) [shutdownInWrite, afterwards], entry.Meets) ∧
      (runCalls (PeerList.new Unit 2) [shutdownInWrite, afterwards]).Pairwise RespectsCooldown) ↔
      ∀ entry ∈ runCalls (PeerList.new Unit 2) [shutdownInWrite, afterwards],
        ¬ entry.ObservedAfterWrite :=
  rotations_meet_iff _ _ (List.pairwise_pair.mpr (Nat.zero_le 1))

/-- The call reports that no peer's write phase had begun, after one that failed in it. -/
theorem shutdownInWrite_hides_write :
    (shutdownInWrite.run (PeerList.new Unit 2)).result = some (.error .preSendShutdown) ∧
      (shutdownInWrite.run (PeerList.new Unit 2)).tried.map (fun x => x.2.wrote) = [true] ∧
      ¬ CallEntry.Meets ⟨PeerList.new Unit 2, shutdownInWrite⟩ := by
  refine ⟨by decide, by decide, fun h => ?_⟩
  have hwrote := h.honest (by decide)
  revert hwrote
  decide

end Limpid.Output
