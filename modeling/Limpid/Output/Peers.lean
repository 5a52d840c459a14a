import Mathlib.Data.Fin.Basic
import Mathlib.Data.List.Nodup
import Mathlib.Data.List.Range
import Mathlib.Data.Nat.ModEq
import Mathlib.Logic.Function.Basic

/-!
# Peer rotation

`PeerList` of `modules/output/syslog_peers.rs`: the peers of one output, each with its connection,
its cooldown and its counters.  A call runs the attempt closure of the caller on one peer after
another, from the cursor on and around, until an attempt succeeds.  A peer whose attempt fails is
cooled down and passed over for `PEER_COOLDOWN`.

The closure is a parameter.  `Attempt` is what one run of it leaves: the connection it caches, the
one it gave up, how it ended, and when.  The peer handed to it is the one at the index, which never
changes, so the index stands for it.

* `write_with_rotation_at` and `write_with_rotation_shutdown_aware` have their own bodies.  Both are
  instances of `rotate` (`rotateAt_eq`, `rotateShutdownAware_eq`), for which the facts are proved.
* `Visits` says which peers a pass attempts: the ones not cooling, in order, up to the one that
  ends it.
* `ObservedAfterWrite` is the one way in which `PreSendShutdown` is wrong.
-/

namespace Limpid.Output

/-- `PEER_COOLDOWN`, in nanoseconds. -/
def peerCooldown : ℕ := 5 * 1000000000

/-- `PeerState`. -/
structure PeerState (C : Type*) where
  conn : Option C := none
  cooldownUntil : Option ℕ := none

/-- The peer is passed over by a call made at `now`. -/
def PeerState.cooling {C : Type*} (state : PeerState C) (now : ℕ) : Bool :=
  state.cooldownUntil.any fun expiry => now < expiry

/-- The counters of a peer. -/
structure PeerMetrics where
  eventsWritten : ℕ := 0
  connectFailures : ℕ := 0
  cooldownsEntered : ℕ := 0

/-- `PeerList`. -/
structure PeerList (C : Type*) (n : ℕ) where
  cursor : UInt64
  state : Fin n → PeerState C
  metrics : Fin n → PeerMetrics

/-- `PeerList::new`. -/
def PeerList.new (C : Type*) (n : ℕ) : PeerList C n := ⟨0, fun _ => {}, fun _ => {}⟩

/-- `PeerSendError`. -/
inductive PeerSendError where
  | empty
  | allPeersUnavailable (n : ℕ)
  | preSendShutdown
deriving DecidableEq

/-- How a run of the attempt closure ends. -/
inductive AttemptOutcome where
  | ok
  | err
  /-- The error is the `PreSendShutdownMarker`. -/
  | preSendShutdown
  /-- The caller dropped the future. -/
  | dropped
deriving DecidableEq

/-- What a run of the attempt closure leaves. -/
structure Attempt (C : Type*) where
  /-- The connection it leaves cached. -/
  conn : Option C
  /-- The connection it closed, if any. -/
  closed : Option C := none
  outcome : AttemptOutcome
  /-- Whether its write phase had begun. -/
  wrote : Bool
  /-- `Instant::now()` when it had ended. -/
  finished : ℕ
  /-- The marker is for the pre-send phase. -/
  preSend : outcome = .preSendShutdown → wrote = false

/-- The closure at each offset of the pass. -/
abbrev AttemptFn (C : Type*) (n : ℕ) := ℕ → Fin n → PeerState C → Attempt C

/-- A call: the peers it leaves, its result (none when the future was dropped), and the attempts
it made. -/
structure Rotation (C : Type*) (n : ℕ) where
  list : PeerList C n
  result : Option (Except PeerSendError Unit)
  tried : List (Fin n × Attempt C) := []

namespace PeerList

variable {C : Type*} {n : ℕ}

/-- An attempt that succeeded. -/
def succeeded (list : PeerList C n) (idx : Fin n) (attempt : Attempt C) : PeerList C n :=
  { list with
    state := Function.update list.state idx ⟨attempt.conn, none⟩
    metrics := Function.update list.metrics idx
      { list.metrics idx with eventsWritten := (list.metrics idx).eventsWritten + 1 } }

/-- An attempt that failed: the cooldown counts from its end. -/
def failed (list : PeerList C n) (idx : Fin n) (attempt : Attempt C) : PeerList C n :=
  { list with
    state := Function.update list.state idx ⟨attempt.conn, some (attempt.finished + peerCooldown)⟩
    metrics := Function.update list.metrics idx
      { list.metrics idx with
        connectFailures := (list.metrics idx).connectFailures + 1
        cooldownsEntered := (list.metrics idx).cooldownsEntered + 1 } }

/-- An attempt that ends the pass without a verdict on the peer. -/
def abandoned (list : PeerList C n) (idx : Fin n) (attempt : Attempt C) : PeerList C n :=
  { list with
    state := Function.update list.state idx { list.state idx with conn := attempt.conn } }

end PeerList

/-- The attempt comes before those of the rest of the pass. -/
def Rotation.after {C : Type*} {n : ℕ} (idx : Fin n) (attempt : Attempt C) (rest : Rotation C n) :
    Rotation C n :=
  { rest with tried := (idx, attempt) :: rest.tried }

section Source

variable {C : Type*} {n : ℕ} [NeZero n]

/-- `(start + offset) % n` -/
def peerAt (n : ℕ) [NeZero n] (start offset : ℕ) : Fin n := Fin.ofNat n (start + offset)

/-- The loop of `write_with_rotation_at`. -/
def rotateAt (now : ℕ) (attempt : AttemptFn C n) (start : ℕ) :
    List ℕ → PeerList C n → Rotation C n
  | [], list => ⟨list, some (.error (.allPeersUnavailable n)), []⟩
  | offset :: offsets, list =>
    let idx := peerAt n start offset
    if (list.state idx).cooling now then
      rotateAt now attempt start offsets list
    else
      let a := attempt offset idx (list.state idx)
      match a.outcome with
      | .ok => ⟨list.succeeded idx a, some (.ok ()), [(idx, a)]⟩
      | .dropped => ⟨list.abandoned idx a, none, [(idx, a)]⟩
      | .err | .preSendShutdown =>
        (rotateAt now attempt start offsets (list.failed idx a)).after idx a

/-- The loop of `write_with_rotation_shutdown_aware`.  `shutdown offset` is what the receiver shows
before the peer at that offset is selected. -/
def rotateShutdownAware (now : ℕ) (attempt : AttemptFn C n) (shutdown : ℕ → Bool) (start : ℕ) :
    List ℕ → PeerList C n → Rotation C n
  | [], list => ⟨list, some (.error (.allPeersUnavailable n)), []⟩
  | offset :: offsets, list =>
    if shutdown offset then
      ⟨list, some (.error .preSendShutdown), []⟩
    else
      let idx := peerAt n start offset
      if (list.state idx).cooling now then
        rotateShutdownAware now attempt shutdown start offsets list
      else
        let a := attempt offset idx (list.state idx)
        match a.outcome with
        | .ok => ⟨list.succeeded idx a, some (.ok ()), [(idx, a)]⟩
        | .dropped => ⟨list.abandoned idx a, none, [(idx, a)]⟩
        | .preSendShutdown =>
          ⟨list.abandoned idx a, some (.error .preSendShutdown), [(idx, a)]⟩
        | .err =>
          (rotateShutdownAware now attempt shutdown start offsets (list.failed idx a)).after idx a

end Source

namespace PeerList

variable {C : Type*} {n : ℕ}

/-- `self.cursor.fetch_add(1, Ordering::Relaxed)`, which wraps. -/
def advance (list : PeerList C n) : PeerList C n := { list with cursor := list.cursor + 1 }

/-- The peer at which a pass starts. -/
def start (list : PeerList C n) : ℕ := list.cursor.toNat % n

/-- `write_with_rotation_at`. -/
def writeWithRotationAt (list : PeerList C n) (now : ℕ) (attempt : AttemptFn C n) :
    Rotation C n :=
  if h : n = 0 then
    ⟨list, some (.error .empty), []⟩
  else
    have : NeZero n := ⟨h⟩
    rotateAt now attempt list.start (List.range n) list.advance

/-- `write_with_rotation_shutdown_aware`. -/
def writeWithRotationShutdownAware (list : PeerList C n) (now : ℕ) (attempt : AttemptFn C n)
    (shutdown : ℕ → Bool) : Rotation C n :=
  if h : n = 0 then
    ⟨list, some (.error .empty), []⟩
  else
    have : NeZero n := ⟨h⟩
    rotateShutdownAware now attempt shutdown list.start (List.range n) list.advance

end PeerList

/-! ## One loop for both -/

/-- What the loop does with an attempt. -/
inductive Verdict where
  | accept
  | cool
  | stop (result : Option (Except PeerSendError Unit))

/-- Only the shutdown-aware call looks for the marker. -/
def AttemptOutcome.verdict (aware : Bool) : AttemptOutcome → Verdict
  | .ok => .accept
  | .err => .cool
  | .dropped => .stop none
  | .preSendShutdown => if aware then .stop (some (.error .preSendShutdown)) else .cool

section Rotate

variable {C : Type*} {n : ℕ} [NeZero n] (aware : Bool) (now : ℕ) (attempt : AttemptFn C n)
  (shutdown : ℕ → Bool) (start : ℕ)

/-- The loop over the offsets. -/
def rotate : List ℕ → PeerList C n → Rotation C n
  | [], list => ⟨list, some (.error (.allPeersUnavailable n)), []⟩
  | offset :: offsets, list =>
    if shutdown offset then
      ⟨list, some (.error .preSendShutdown), []⟩
    else
      let idx := peerAt n start offset
      if (list.state idx).cooling now then
        rotate offsets list
      else
        let a := attempt offset idx (list.state idx)
        match a.outcome.verdict aware with
        | .accept => ⟨list.succeeded idx a, some (.ok ()), [(idx, a)]⟩
        | .stop result => ⟨list.abandoned idx a, result, [(idx, a)]⟩
        | .cool => (rotate offsets (list.failed idx a)).after idx a

theorem rotateShutdownAware_eq (offsets : List ℕ) (list : PeerList C n) :
    rotateShutdownAware now attempt shutdown start offsets list =
      rotate true now attempt shutdown start offsets list := by
  induction offsets generalizing list with
  | nil => rfl
  | cons offset offsets ih =>
      simp only [rotateShutdownAware, rotate, ih]
      cases (attempt offset (peerAt n start offset)
        (list.state (peerAt n start offset))).outcome <;> rfl

theorem rotateAt_eq (offsets : List ℕ) (list : PeerList C n) :
    rotateAt now attempt start offsets list =
      rotate false now attempt (fun _ => false) start offsets list := by
  induction offsets generalizing list with
  | nil => rfl
  | cons offset offsets ih =>
      simp only [rotateAt, rotate, ih, Bool.false_eq_true, if_false]
      cases (attempt offset (peerAt n start offset)
        (list.state (peerAt n start offset))).outcome <;> rfl

end Rotate

/-! ## What a pass does -/

@[simp] theorem PeerList.failed_state_self {C : Type*} {n : ℕ} (list : PeerList C n) (idx : Fin n)
    (a : Attempt C) :
    (list.failed idx a).state idx = ⟨a.conn, some (a.finished + peerCooldown)⟩ := by
  simp [PeerList.failed]

theorem PeerList.failed_state_of_ne {C : Type*} {n : ℕ} {list : PeerList C n} {idx other : Fin n}
    (a : Attempt C) (h : other ≠ idx) : (list.failed idx a).state other = list.state other :=
  Function.update_of_ne h ..

theorem PeerList.succeeded_state_of_ne {C : Type*} {n : ℕ} {list : PeerList C n}
    {idx other : Fin n} (a : Attempt C) (h : other ≠ idx) :
    (list.succeeded idx a).state other = list.state other :=
  Function.update_of_ne h ..

theorem PeerList.abandoned_state_of_ne {C : Type*} {n : ℕ} {list : PeerList C n}
    {idx other : Fin n} (a : Attempt C) (h : other ≠ idx) :
    (list.abandoned idx a).state other = list.state other :=
  Function.update_of_ne h ..

/-- Giving up on a peer leaves the cooldowns as they were. -/
@[simp] theorem PeerList.abandoned_cooldownUntil {C : Type*} {n : ℕ} (list : PeerList C n)
    (idx other : Fin n) (a : Attempt C) :
    ((list.abandoned idx a).state other).cooldownUntil = (list.state other).cooldownUntil := by
  by_cases h : other = idx
  · subst h
    simp [PeerList.abandoned]
  · rw [PeerList.abandoned_state_of_ne a h]

section Keeps

variable {C : Type*} {n : ℕ} (cached closed : C → Prop)

/-- The attempt leaves connections of the one kind and closes connections of the other. -/
structure Attempt.Keeps (attempt : Attempt C) : Prop where
  cached : ∀ c ∈ attempt.conn, cached c
  closed : ∀ c ∈ attempt.closed, closed c

/-- An attempt on a cached connection leaves a cached one. -/
def AttemptFn.Keeps (attempt : AttemptFn C n) : Prop :=
  ∀ offset idx (state : PeerState C), (∀ c ∈ state.conn, cached c) →
    (attempt offset idx state).Keeps cached closed

/-- Every connection in the list is cached. -/
def PeerList.Caches (list : PeerList C n) : Prop := ∀ idx, ∀ c ∈ (list.state idx).conn, cached c

/-- The connections are cached after the pass as well. -/
structure Rotation.Keeps (rotation : Rotation C n) : Prop where
  cached : rotation.list.Caches cached
  closed : ∀ x ∈ rotation.tried, ∀ c ∈ x.2.closed, closed c

end Keeps

section Pass

variable {C : Type*} {n : ℕ} [NeZero n] (aware : Bool) (now : ℕ) (attempt : AttemptFn C n)
  (shutdown : ℕ → Bool) (start : ℕ) (first : PeerList C n)

/-- The peer at the offset is not cooling when the call is made. -/
def ready (offset : ℕ) : Bool := !(first.state (peerAt n start offset)).cooling now

/-- The attempt on the peer at the offset.  The call comes to a peer once, so it finds the state
from before the call. -/
def attemptAt (offset : ℕ) : Attempt C :=
  attempt offset (peerAt n start offset) (first.state (peerAt n start offset))

/-- The course of a call over the offsets that are left, said with the state `first` from before
the call. -/
inductive Pass : List ℕ → PeerList C n → Rotation C n → Prop where
  | exhausted {list} : Pass [] list ⟨list, some (.error (.allPeersUnavailable n)), []⟩
  | observed {offset offsets list} (hobserved : shutdown offset = true) :
      Pass (offset :: offsets) list ⟨list, some (.error .preSendShutdown), []⟩
  | cooling {offset offsets list rest} (hshutdown : shutdown offset = false)
      (hready : ready now start first offset = false) (hrest : Pass offsets list rest) :
      Pass (offset :: offsets) list rest
  | accepted {offset offsets list} (hshutdown : shutdown offset = false)
      (hready : ready now start first offset = true)
      (hverdict : (attemptAt attempt start first offset).outcome.verdict aware = .accept) :
      Pass (offset :: offsets) list
        ⟨list.succeeded (peerAt n start offset) (attemptAt attempt start first offset),
          some (.ok ()), [(peerAt n start offset, attemptAt attempt start first offset)]⟩
  | stopped {offset offsets list result} (hshutdown : shutdown offset = false)
      (hready : ready now start first offset = true)
      (hverdict : (attemptAt attempt start first offset).outcome.verdict aware = .stop result) :
      Pass (offset :: offsets) list
        ⟨list.abandoned (peerAt n start offset) (attemptAt attempt start first offset),
          result, [(peerAt n start offset, attemptAt attempt start first offset)]⟩
  | cooled {offset offsets list rest} (hshutdown : shutdown offset = false)
      (hready : ready now start first offset = true)
      (hverdict : (attemptAt attempt start first offset).outcome.verdict aware = .cool)
      (hrest : Pass offsets
        (list.failed (peerAt n start offset) (attemptAt attempt start first offset)) rest) :
      Pass (offset :: offsets) list
        (rest.after (peerAt n start offset) (attemptAt attempt start first offset))

variable {aware now attempt shutdown start first}

/-- **A call follows a pass**, when it comes to no peer twice. -/
theorem rotate_pass {offsets : List ℕ} {list : PeerList C n}
    (hnodup : (offsets.map (peerAt n start)).Nodup)
    (hsame : ∀ offset ∈ offsets,
      list.state (peerAt n start offset) = first.state (peerAt n start offset)) :
    Pass aware now attempt shutdown start first offsets list
      (rotate aware now attempt shutdown start offsets list) := by
  induction offsets generalizing list with
  | nil => exact .exhausted
  | cons offset offsets ih =>
      obtain ⟨hfresh, hrest⟩ := List.nodup_cons.mp hnodup
      obtain ⟨hhere, hlater⟩ := List.forall_mem_cons.mp hsame
      simp only [rotate, hhere]
      cases hshutdown : shutdown offset with
      | true => exact .observed hshutdown
      | false =>
          simp only [Bool.false_eq_true, if_false]
          split
          case isTrue hcooling =>
              exact .cooling hshutdown (by simp [ready, hcooling]) (ih hrest hlater)
          case isFalse hcooling =>
              have hready : ready now start first offset = true := by simp [ready, hcooling]
              split
              case h_1 hverdict => exact .accepted hshutdown hready hverdict
              case h_2 result hverdict => exact .stopped hshutdown hready hverdict
              case h_3 hverdict =>
                  refine .cooled hshutdown hready hverdict (ih hrest fun later hmem => ?_)
                  have hne : peerAt n start later ≠ peerAt n start offset :=
                    fun heq => hfresh (heq ▸ List.mem_map_of_mem hmem)
                  rw [PeerList.failed_state_of_ne _ hne]
                  exact hlater later hmem

theorem nodup_peerAt (start : ℕ) : ((List.range n).map (peerAt n start)).Nodup := by
  refine List.Nodup.map_on ?_ List.nodup_range
  intro i hi j hj heq
  have hmod : (start + i) % n = (start + j) % n := by simpa [peerAt] using congrArg Fin.val heq
  have hcancel : i % n = j % n := Nat.ModEq.add_left_cancel' start hmod
  rwa [Nat.mod_eq_of_lt (List.mem_range.mp hi), Nat.mod_eq_of_lt (List.mem_range.mp hj)] at hcancel

namespace Pass

variable {offsets : List ℕ} {list : PeerList C n} {rotation : Rotation C n}

/-- The peers attempted are the first of those that are not cooling. -/
theorem tried_prefix (h : Pass aware now attempt shutdown start first offsets list rotation) :
    rotation.tried.map Prod.fst <+:
      (offsets.filter (ready now start first)).map (peerAt n start) := by
  induction h with
  | exhausted => exact List.nil_prefix
  | observed => exact List.nil_prefix
  | cooling _ hready _ ih => simpa [List.filter_cons, hready] using ih
  | accepted _ hready _ => simp [hready]
  | stopped _ hready _ => simp [hready]
  | cooled _ hready _ _ ih => simpa [List.filter_cons, hready, Rotation.after] using ih

/-- Only the last attempt can have ended the pass. -/
theorem cools_of_mem_dropLast
    (h : Pass aware now attempt shutdown start first offsets list rotation)
    {x : Fin n × Attempt C} (hx : x ∈ rotation.tried.dropLast) :
    x.2.outcome.verdict aware = .cool := by
  induction h with
  | exhausted => simp at hx
  | observed => simp at hx
  | cooling _ _ _ ih => exact ih hx
  | accepted => simp at hx
  | stopped => simp at hx
  | @cooled _ _ _ rest _ _ hverdict _ ih =>
      simp only [Rotation.after] at hx
      cases htried : rest.tried with
      | nil => simp [htried] at hx
      | cons next later =>
          rw [htried, List.dropLast_cons_cons, List.mem_cons] at hx
          obtain rfl | hx := hx
          · exact hverdict
          · exact ih (htried ▸ hx)

theorem outcome_eq_ok {outcome : AttemptOutcome} (h : outcome.verdict aware = .accept) :
    outcome = .ok := by
  cases outcome <;> cases aware <;> simp [AttemptOutcome.verdict] at h ⊢

/-- What a stopped pass returns. -/
theorem result_of_stop {outcome : AttemptOutcome} {result : Option (Except PeerSendError Unit)}
    (h : outcome.verdict aware = .stop result) :
    outcome ≠ .ok ∧ result ≠ some (.ok ()) ∧
      (result = some (.error .preSendShutdown) ↔ aware = true ∧ outcome = .preSendShutdown) := by
  cases outcome <;> cases aware <;> simp [AttemptOutcome.verdict] at h ⊢ <;> simp [← h]

theorem outcome_ne_ok {outcome : AttemptOutcome} (h : outcome.verdict aware = .cool) :
    outcome ≠ .ok := by
  rintro rfl
  exact nomatch h

theorem result_ok_iff (h : Pass aware now attempt shutdown start first offsets list rotation) :
    rotation.result = some (.ok ()) ↔ ∃ x ∈ rotation.tried, x.2.outcome = .ok := by
  induction h with
  | exhausted => simp
  | observed => simp
  | cooling _ _ _ ih => exact ih
  | accepted _ _ hverdict => simp [outcome_eq_ok hverdict]
  | stopped _ _ hverdict =>
      obtain ⟨hok, hresult, -⟩ := result_of_stop hverdict
      simp [hok, hresult]
  | cooled _ _ hverdict _ ih => simpa [Rotation.after, outcome_ne_ok hverdict] using ih

/-- A peer that is not attempted is left alone. -/
theorem state_of_not_tried
    (h : Pass aware now attempt shutdown start first offsets list rotation) {idx : Fin n}
    (hidx : idx ∉ rotation.tried.map Prod.fst) : rotation.list.state idx = list.state idx := by
  induction h with
  | exhausted => rfl
  | observed => rfl
  | cooling _ _ _ ih => exact ih hidx
  | accepted => exact PeerList.succeeded_state_of_ne _ (by simpa using hidx)
  | stopped => exact PeerList.abandoned_state_of_ne _ (by simpa using hidx)
  | cooled _ _ _ _ ih =>
      simp only [Rotation.after, List.map_cons, List.mem_cons, not_or] at hidx
      exact (ih hidx.2).trans (PeerList.failed_state_of_ne _ hidx.1)

/-- A peer whose attempt failed is cooling for `PEER_COOLDOWN` from the end of the attempt. -/
theorem cooldown_of_failed
    (h : Pass aware now attempt shutdown start first offsets list rotation)
    (hnodup : (offsets.map (peerAt n start)).Nodup) {idx : Fin n} {a : Attempt C}
    (hmem : (idx, a) ∈ rotation.tried) (hcool : a.outcome.verdict aware = .cool) :
    (rotation.list.state idx).cooldownUntil = some (a.finished + peerCooldown) := by
  induction h with
  | exhausted => simp at hmem
  | observed => simp at hmem
  | cooling _ _ _ ih => exact ih (List.nodup_cons.mp hnodup).2 hmem
  | accepted _ _ hverdict =>
      obtain ⟨rfl, rfl⟩ := Prod.mk.inj (List.mem_singleton.mp hmem)
      exact nomatch hverdict.symm.trans hcool
  | stopped _ _ hverdict =>
      obtain ⟨rfl, rfl⟩ := Prod.mk.inj (List.mem_singleton.mp hmem)
      exact nomatch hverdict.symm.trans hcool
  | cooled _ _ _ hrest ih =>
      obtain ⟨hfresh, hlater⟩ := List.nodup_cons.mp hnodup
      rcases List.mem_cons.mp hmem with heq | hmem
      · obtain ⟨rfl, rfl⟩ := Prod.mk.inj heq
        -- later attempts are on other peers
        have hnot : peerAt n start _ ∉ _ := fun hin =>
          hfresh ((List.Sublist.map _ List.filter_sublist).subset (hrest.tried_prefix.subset hin))
        simp [Rotation.after, hrest.state_of_not_tried hnot]
      · exact ih hlater hmem

/-- What every attempt keeps of the connections, a call keeps. -/
theorem keeps (h : Pass aware now attempt shutdown start first offsets list rotation)
    {cached closed : C → Prop} (hattempt : AttemptFn.Keeps cached closed attempt)
    (hfirst : first.Caches cached) (hlist : list.Caches cached) : rotation.Keeps cached closed := by
  have hattemptAt : ∀ offset, (attemptAt attempt start first offset).Keeps cached closed :=
    fun offset => hattempt offset _ _ (hfirst _)
  -- the peer of the attempt has what the attempt leaves, the others what they had
  have hupdate : ∀ (offset : ℕ) {list list' : PeerList C n}, list.Caches cached →
      (list'.state (peerAt n start offset)).conn = (attemptAt attempt start first offset).conn →
      (∀ other ≠ peerAt n start offset, list'.state other = list.state other) →
      list'.Caches cached := by
    intro offset list list' hlist hhere hothers idx c hc
    by_cases hidx : idx = peerAt n start offset
    · subst hidx
      exact (hattemptAt offset).cached c (hhere ▸ hc)
    · exact hlist idx c (hothers idx hidx ▸ hc)
  induction h with
  | exhausted => exact ⟨hlist, by simp⟩
  | observed => exact ⟨hlist, by simp⟩
  | cooling _ _ _ ih => exact ih hlist
  | @accepted offset =>
      refine ⟨hupdate offset hlist (by simp [PeerList.succeeded])
        fun other hne => PeerList.succeeded_state_of_ne _ hne, fun x hx => ?_⟩
      obtain rfl := List.mem_singleton.mp hx
      exact (hattemptAt offset).closed
  | @stopped offset =>
      refine ⟨hupdate offset hlist (by simp [PeerList.abandoned])
        fun other hne => PeerList.abandoned_state_of_ne _ hne, fun x hx => ?_⟩
      obtain rfl := List.mem_singleton.mp hx
      exact (hattemptAt offset).closed
  | @cooled offset _ _ _ _ _ _ _ ih =>
      obtain ⟨hcached, htried⟩ := ih (hupdate offset hlist (by simp)
        fun other hne => PeerList.failed_state_of_ne _ hne)
      exact ⟨hcached, List.forall_mem_cons.mpr ⟨(hattemptAt offset).closed, htried⟩⟩

end Pass

variable (now attempt shutdown start first)

/-- Shutdown is observed at the offset: before the peer is selected, or by the attempt on it. -/
def ObservedAt (offset : ℕ) : Prop :=
  shutdown offset = true ∨ ready now start first offset = true ∧
    (attemptAt attempt start first offset).outcome = .preSendShutdown

/-- The pass goes on after the offset: the peer is cooling, or the attempt on it fails. -/
def GoesOn (offset : ℕ) : Prop :=
  shutdown offset = false ∧
    (ready now start first offset = true → (attemptAt attempt start first offset).outcome = .err)

/-- There is an attempt at the offset, and its write phase begins. -/
def WritesAt (offset : ℕ) : Prop :=
  ready now start first offset = true ∧ (attemptAt attempt start first offset).wrote = true

/-- The pass comes to an offset where shutdown is observed, past an attempt that failed in its write
phase. -/
def ObservedAfterWrite : Prop :=
  ∃ late < n, ObservedAt now attempt shutdown start first late ∧
    (∀ offset < late, GoesOn now attempt shutdown start first offset) ∧
    ∃ early < late, WritesAt now attempt start first early

variable {now attempt shutdown start first}

namespace Pass

variable {offsets : List ℕ} {list : PeerList C n} {rotation : Rotation C n}

theorem outcome_eq_err {outcome : AttemptOutcome} (h : outcome.verdict true = .cool) :
    outcome = .err := by
  cases outcome <;> first | rfl | exact nomatch h

/-- `PreSendShutdown` is returned where shutdown is observed, and what was attempted before it
failed. -/
theorem exists_observed
    (h : Pass true now attempt shutdown start first offsets list rotation)
    (hresult : rotation.result = some (.error .preSendShutdown)) :
    ∃ before late after, offsets = before ++ late :: after ∧
      ObservedAt now attempt shutdown start first late ∧
      (∀ offset ∈ before, GoesOn now attempt shutdown start first offset) ∧
      ∀ x ∈ rotation.tried, x.2.wrote = true →
        ∃ early ∈ before, WritesAt now attempt start first early := by
  induction h with
  | exhausted => simp at hresult
  | @observed offset offsets _ hobserved =>
      exact ⟨[], offset, offsets, rfl, .inl hobserved, by simp, by simp⟩
  | cooling hshutdown hready _ ih =>
      obtain ⟨before, late, after, rfl, hlate, hbefore, htried⟩ := ih hresult
      refine ⟨_ :: before, late, after, rfl, hlate,
        List.forall_mem_cons.mpr ⟨⟨hshutdown, by simp [hready]⟩, hbefore⟩, fun x hx hwrote => ?_⟩
      obtain ⟨early, hearly, hwrites⟩ := htried x hx hwrote
      exact ⟨early, List.mem_cons_of_mem _ hearly, hwrites⟩
  | accepted => simp at hresult
  | @stopped offset offsets _ result hshutdown hready hverdict =>
      have houtcome := ((result_of_stop hverdict).2.2.mp hresult).2
      refine ⟨[], offset, offsets, rfl, .inr ⟨hready, houtcome⟩, by simp, fun x hx hwrote => ?_⟩
      obtain rfl := List.mem_singleton.mp hx
      exact nomatch hwrote.symm.trans ((attemptAt attempt start first offset).preSend houtcome)
  | cooled hshutdown hready hverdict _ ih =>
      obtain ⟨before, late, after, rfl, hlate, hbefore, htried⟩ := ih hresult
      refine ⟨_ :: before, late, after, rfl, hlate,
        List.forall_mem_cons.mpr ⟨⟨hshutdown, fun _ => outcome_eq_err hverdict⟩, hbefore⟩,
        fun x hx hwrote => ?_⟩
      rcases List.mem_cons.mp hx with rfl | hx
      · exact ⟨_, List.mem_cons_self .., hready, hwrote⟩
      · obtain ⟨early, hearly, hwrites⟩ := htried x hx hwrote
        exact ⟨early, List.mem_cons_of_mem _ hearly, hwrites⟩

/-- Where shutdown is observed, `PreSendShutdown` is returned, and every attempt up to there has
been made. -/
theorem preSendShutdown_of_observed
    (h : Pass true now attempt shutdown start first offsets list rotation) {before after : List ℕ}
    {late : ℕ} (hoffsets : offsets = before ++ late :: after)
    (hlate : ObservedAt now attempt shutdown start first late)
    (hbefore : ∀ offset ∈ before, GoesOn now attempt shutdown start first offset) :
    rotation.result = some (.error .preSendShutdown) ∧
      ∀ early ∈ before, WritesAt now attempt start first early →
        ∃ x ∈ rotation.tried, x.2.wrote = true := by
  induction h generalizing before with
  -- the induction is on the pass; `late` cannot lie beyond its end
  | exhausted => simp at hoffsets
  | observed hobserved =>
      cases before with
      | nil => exact ⟨rfl, by simp⟩
      | cons offset before =>
          obtain ⟨rfl, -⟩ := List.cons.inj hoffsets
          exact nomatch hobserved.symm.trans (hbefore _ (List.mem_cons_self ..)).1
  | cooling hshutdown hready _ ih =>
      cases before with
      | nil =>
          obtain ⟨rfl, -⟩ := List.cons.inj hoffsets
          rcases hlate with hobserved | ⟨hready', -⟩
          · exact nomatch hshutdown.symm.trans hobserved
          · exact nomatch hready.symm.trans hready'
      | cons offset before =>
          obtain ⟨rfl, hrest⟩ := List.cons.inj hoffsets
          obtain ⟨hresult, htried⟩ := ih hrest (List.forall_mem_cons.mp hbefore).2
          refine ⟨hresult, List.forall_mem_cons.mpr ⟨fun hwrites => ?_, htried⟩⟩
          exact nomatch hready.symm.trans hwrites.1
  | accepted hshutdown hready hverdict =>
      have houtcome := outcome_eq_ok hverdict
      cases before with
      | nil =>
          obtain ⟨rfl, -⟩ := List.cons.inj hoffsets
          rcases hlate with hobserved | ⟨-, hmarker⟩
          · exact nomatch hshutdown.symm.trans hobserved
          · exact nomatch houtcome.symm.trans hmarker
      | cons offset before =>
          obtain ⟨rfl, -⟩ := List.cons.inj hoffsets
          exact nomatch houtcome.symm.trans ((hbefore _ (List.mem_cons_self ..)).2 hready)
  | stopped hshutdown hready hverdict =>
      cases before with
      | nil =>
          obtain ⟨rfl, -⟩ := List.cons.inj hoffsets
          rcases hlate with hobserved | ⟨-, hmarker⟩
          · exact nomatch hshutdown.symm.trans hobserved
          · exact ⟨(result_of_stop hverdict).2.2.mpr ⟨rfl, hmarker⟩, by simp⟩
      | cons offset before =>
          obtain ⟨rfl, -⟩ := List.cons.inj hoffsets
          rw [(hbefore _ (List.mem_cons_self ..)).2 hready] at hverdict
          exact nomatch hverdict
  | cooled hshutdown hready hverdict _ ih =>
      -- an attempt that failed: it is the one that may have written
      cases before with
      | nil =>
          obtain ⟨rfl, -⟩ := List.cons.inj hoffsets
          rcases hlate with hobserved | ⟨-, hmarker⟩
          · exact nomatch hshutdown.symm.trans hobserved
          · exact nomatch (outcome_eq_err hverdict).symm.trans hmarker
      | cons offset before =>
          obtain ⟨rfl, hrest⟩ := List.cons.inj hoffsets
          obtain ⟨hresult, htried⟩ := ih hrest (List.forall_mem_cons.mp hbefore).2
          refine ⟨hresult, List.forall_mem_cons.mpr
            ⟨fun hwrites => ?_, fun early hearly hwrites => ?_⟩⟩
          · exact ⟨_, List.mem_cons_self .., hwrites.2⟩
          · obtain ⟨x, hx, hwrote⟩ := htried early hearly hwrites
            exact ⟨x, List.mem_cons_of_mem _ hx, hwrote⟩

/-- **When `PreSendShutdown` hides a write.** -/
theorem hidden_write_iff
    (h : Pass true now attempt shutdown start first (List.range n) list rotation) :
    (rotation.result = some (.error .preSendShutdown) ∧ ∃ x ∈ rotation.tried, x.2.wrote = true) ↔
      ObservedAfterWrite now attempt shutdown start first := by
  constructor
  · rintro ⟨hresult, x, hx, hwrote⟩
    obtain ⟨before, late, after, hsplit, hlate, hbefore, htried⟩ := h.exists_observed hresult
    rw [List.range_eq_range', List.range'_eq_append_iff] at hsplit
    obtain ⟨k, hk, rfl, hrest⟩ := hsplit
    rw [eq_comm, List.range'_eq_cons_iff] at hrest
    obtain ⟨rfl, hpos, -⟩ := hrest
    obtain ⟨early, hearly, hwrites⟩ := htried x hx hwrote
    simp only [Nat.zero_add, Nat.mul_one, List.mem_range'_1, Nat.zero_le, true_and] at *
    exact ⟨k, by omega, hlate, hbefore, early, hearly, hwrites⟩
  · rintro ⟨late, hlt, hlate, hbefore, early, hearly, hwrites⟩
    have hsplit : List.range n =
        List.range late ++ late :: List.range' (late + 1) (n - late - 1) := by
      rw [List.range_eq_range', List.range_eq_range', List.range'_eq_append_iff]
      refine ⟨late, hlt.le, rfl, ?_⟩
      rw [eq_comm, List.range'_eq_cons_iff]
      simp
      omega
    obtain ⟨hresult, htried⟩ := h.preSendShutdown_of_observed hsplit hlate
      fun offset hmem => hbefore offset (List.mem_range.mp hmem)
    exact ⟨hresult, htried early (List.mem_range.mpr hearly) hwrites⟩

end Pass

end Pass

/-! ## Calls -/

namespace PeerList

variable {C : Type*} {n : ℕ}

theorem writeWithRotationAt_eq [NeZero n] (list : PeerList C n) (now : ℕ)
    (attempt : AttemptFn C n) :
    list.writeWithRotationAt now attempt =
      rotate false now attempt (fun _ => false) list.start (List.range n) list.advance := by
  rw [writeWithRotationAt, dif_neg (NeZero.ne n), rotateAt_eq]

theorem writeWithRotationShutdownAware_eq [NeZero n] (list : PeerList C n) (now : ℕ)
    (attempt : AttemptFn C n) (shutdown : ℕ → Bool) :
    list.writeWithRotationShutdownAware now attempt shutdown =
      rotate true now attempt shutdown list.start (List.range n) list.advance := by
  rw [writeWithRotationShutdownAware, dif_neg (NeZero.ne n), rotateShutdownAware_eq]

section Keeps

variable {cached closed : C → Prop} {list : PeerList C n} {attempt : AttemptFn C n}
  (hattempt : AttemptFn.Keeps cached closed attempt) (hlist : list.Caches cached)
include hattempt hlist

theorem keeps_writeWithRotationAt (now : ℕ) :
    (list.writeWithRotationAt now attempt).Keeps cached closed := by
  by_cases hn : n = 0
  · rw [writeWithRotationAt, dif_pos hn]
    exact ⟨hlist, by simp⟩
  · have : NeZero n := ⟨hn⟩
    rw [writeWithRotationAt_eq]
    exact (rotate_pass (nodup_peerAt _) fun _ _ => rfl).keeps hattempt hlist hlist

theorem keeps_writeWithRotationShutdownAware (now : ℕ) (shutdown : ℕ → Bool) :
    (list.writeWithRotationShutdownAware now attempt shutdown).Keeps cached closed := by
  by_cases hn : n = 0
  · rw [writeWithRotationShutdownAware, dif_pos hn]
    exact ⟨hlist, by simp⟩
  · have : NeZero n := ⟨hn⟩
    rw [writeWithRotationShutdownAware_eq]
    exact (rotate_pass (nodup_peerAt _) fun _ _ => rfl).keeps hattempt hlist hlist

end Keeps

end PeerList

end Limpid.Output
