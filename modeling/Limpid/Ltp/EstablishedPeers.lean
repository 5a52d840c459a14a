import Mathlib.Algebra.GroupWithZero.Nat
import Mathlib.Data.List.AList
import Mathlib.Data.List.Nodup
import Limpid.Bytes
import Limpid.Runs

/-!
# Established peer connections

`EstablishedPeerConnections` of `modules/input/ltp.rs`: for each peer key the connections that have
said hello, the oldest first.  A third one evicts the oldest, and a connection that ends releases
its place.  Both happen under one lock, so the calls of all connections come one after another, in
any order.

`System` is the registry with a ledger of what has happened to the connections, by the order of
their activation.  A generation is a `u64` and comes again after `2 ^ 64` activations; up to then
the registry lists the connections that the ledger does (`listed_faithful`), and then a peer can
have two of one generation (`generation_comes_again`).
-/

namespace Limpid.Ltp

section Registry

variable {Abort : Type}

/-- `EstablishedPeerConnection`. -/
structure EstablishedPeerConnection (Abort : Type) where
  generation : ℕ
  abort : Abort
deriving DecidableEq

/-- `EstablishedPeerConnections`: one connection for each key. -/
structure EstablishedPeerConnections (Abort : Type) where
  nextGeneration : ℕ
  bySpki : AList fun _ : Bytes => List (EstablishedPeerConnection Abort)

/-- `EstablishedPeerLease`. -/
structure EstablishedPeerLease where
  spki : Bytes
  generation : ℕ

/-- `EstablishedPeerActivation`. -/
structure EstablishedPeerActivation (Abort : Type) where
  lease : EstablishedPeerLease
  evicted : Option (EstablishedPeerConnection Abort)

namespace EstablishedPeerConnections

/-- `EstablishedPeerConnections::default`. -/
def empty : EstablishedPeerConnections Abort := ⟨0, ∅⟩

/-- The connections of a peer; one without an entry has none. -/
def listed (registry : EstablishedPeerConnections Abort) (spki : Bytes) :
    List (EstablishedPeerConnection Abort) :=
  (registry.bySpki.lookup spki).getD []

/-- `activate`: a connection that was there is to be aborted. -/
def activate (spki : Bytes) (abort : Abort) (registry : EstablishedPeerConnections Abort) :
    EstablishedPeerActivation Abort × EstablishedPeerConnections Abort :=
  let generation := registry.nextGeneration
  let established := registry.listed spki
  let (evicted, kept) :=
    if established.length = 2 then (established.head?, established.tail) else (none, established)
  (⟨⟨spki, generation⟩, evicted⟩,
    ⟨(generation + 1) % 2 ^ 64, registry.bySpki.insert spki (kept ++ [⟨generation, abort⟩])⟩)

/-- The entry without the first connection of a generation. -/
def removeGeneration (spki : Bytes) (generation : ℕ)
    (bySpki : AList fun _ : Bytes => List (EstablishedPeerConnection Abort)) :
    AList fun _ : Bytes => List (EstablishedPeerConnection Abort) :=
  match bySpki.lookup spki with
  | some established =>
      match established.findIdx? (·.generation = generation) with
      | some index => bySpki.insert spki (established.eraseIdx index)
      | none => bySpki
  | none => bySpki

/-- The drop of a lease: its connection goes, if it is still the one that is listed. -/
def release (spki : Bytes) (generation : ℕ) (registry : EstablishedPeerConnections Abort) :
    EstablishedPeerConnections Abort :=
  let bySpki := removeGeneration spki generation registry.bySpki
  { registry with
    bySpki := if (bySpki.lookup spki).any List.isEmpty then bySpki.erase spki else bySpki }

end EstablishedPeerConnections

/-- `Drop for EstablishedPeerLease`. -/
def EstablishedPeerLease.drop (lease : EstablishedPeerLease)
    (registry : EstablishedPeerConnections Abort) : EstablishedPeerConnections Abort :=
  registry.release lease.spki lease.generation

/-! ## What a call changes -/

namespace EstablishedPeerConnections

variable {registry : EstablishedPeerConnections Abort} {spki other : Bytes}

/-- No peer has an entry without a connection. -/
def NonEmpty (registry : EstablishedPeerConnections Abort) : Prop :=
  ∀ spki, registry.bySpki.lookup spki ≠ some []

theorem listed_eq_nil_iff (h : registry.NonEmpty) :
    registry.listed spki = [] ↔ registry.bySpki.lookup spki = none := by
  rw [listed]
  cases hlookup : registry.bySpki.lookup spki with
  | none => simp
  | some established =>
      have hne := h spki
      rw [hlookup] at hne
      simpa using hne

/-- The connections that an activation leaves in place. -/
def kept (established : List (EstablishedPeerConnection Abort)) :
    List (EstablishedPeerConnection Abort) :=
  if established.length = 2 then established.tail else established

theorem activate_eq (registry : EstablishedPeerConnections Abort) (spki : Bytes) (abort : Abort) :
    registry.activate spki abort =
      (⟨⟨spki, registry.nextGeneration⟩,
          if (registry.listed spki).length = 2 then (registry.listed spki).head? else none⟩,
        ⟨(registry.nextGeneration + 1) % 2 ^ 64, registry.bySpki.insert spki
          (kept (registry.listed spki) ++ [⟨registry.nextGeneration, abort⟩])⟩) := by
  by_cases htwo : (registry.listed spki).length = 2
  · simp only [activate, kept, if_pos htwo]
  · simp only [activate, kept, if_neg htwo]

theorem listed_activate (registry : EstablishedPeerConnections Abort) (spki other : Bytes)
    (abort : Abort) : (registry.activate spki abort).2.listed other =
      if other = spki then
        kept (registry.listed spki) ++ [⟨registry.nextGeneration, abort⟩]
      else registry.listed other := by
  rw [activate_eq, listed]
  dsimp only
  split
  · next heq => rw [heq, AList.lookup_insert, Option.getD_some]
  · next hne => rw [AList.lookup_insert_ne hne, listed]

theorem nonEmpty_activate (h : registry.NonEmpty) (spki : Bytes) (abort : Abort) :
    (registry.activate spki abort).2.NonEmpty := by
  intro other
  rw [activate_eq]
  dsimp only
  by_cases heq : other = spki
  · rw [heq, AList.lookup_insert]
    simp
  · rw [AList.lookup_insert_ne heq]
    exact h other

theorem lookup_removeGeneration (generation : ℕ)
    (bySpki : AList fun _ : Bytes => List (EstablishedPeerConnection Abort)) :
    (removeGeneration spki generation bySpki).lookup other =
      if other = spki then (bySpki.lookup spki).map (·.eraseP (·.generation = generation))
      else bySpki.lookup other := by
  unfold removeGeneration
  cases hlookup : bySpki.lookup spki with
  | none =>
      dsimp only
      split
      · next heq => rw [heq, hlookup]; rfl
      · rfl
  | some established =>
      rw [Option.map_some, List.eraseP_eq_eraseIdx]
      dsimp only
      cases established.findIdx? (·.generation = generation) with
      | none =>
          dsimp only
          split
          · next heq => rw [heq, hlookup]
          · rfl
      | some index =>
          dsimp only
          split
          · next heq => rw [heq, AList.lookup_insert]
          · next hne => rw [AList.lookup_insert_ne hne]

theorem lookup_release (registry : EstablishedPeerConnections Abort) (generation : ℕ) :
    (registry.release spki generation).bySpki.lookup other =
      if other = spki then
        ((registry.bySpki.lookup spki).map (·.eraseP (·.generation = generation))).filter
          (!List.isEmpty ·)
      else registry.bySpki.lookup other := by
  unfold release
  dsimp only
  have hspki := @lookup_removeGeneration _ spki spki generation registry.bySpki
  have hother := @lookup_removeGeneration _ spki other generation registry.bySpki
  rw [if_pos rfl] at hspki
  rw [hspki]
  cases hlookup : registry.bySpki.lookup spki with
  | none =>
      rw [hlookup] at hspki hother
      simpa using hother
  | some established =>
      rw [hlookup] at hspki hother
      rw [Option.map_some] at hspki hother ⊢
      rw [Option.any_some, Option.filter_some]
      split
      · next hempty =>
        split
        · next heq => rw [heq, AList.lookup_erase]; simp [hempty]
        · next hne =>
          rw [AList.lookup_erase_ne hne, hother, if_neg hne]
      · next hempty =>
        rw [hother]
        simp [hempty]

theorem listed_release (registry : EstablishedPeerConnections Abort) (generation : ℕ) :
    (registry.release spki generation).listed other =
      if other = spki then (registry.listed spki).eraseP (·.generation = generation)
      else registry.listed other := by
  rw [listed, lookup_release, listed]
  split
  · cases registry.bySpki.lookup spki with
    | none => rfl
    | some established =>
        rw [Option.map_some, Option.filter_some, Option.getD_some]
        split
        · rfl
        · next hempty =>
          simp only [Bool.not_eq_true', Bool.not_eq_false, List.isEmpty_iff] at hempty
          rw [hempty]
          rfl
  · rfl

theorem nonEmpty_release (h : registry.NonEmpty) (spki : Bytes) (generation : ℕ) :
    (registry.release spki generation).NonEmpty := by
  intro other
  rw [lookup_release]
  split
  · intro hnil
    exact absurd (Option.filter_eq_some_iff.mp hnil).2 (by simp)
  · exact h other

/-- A generation that is not listed is released without any effect. -/
theorem release_eq_self (h : registry.NonEmpty) {generation : ℕ}
    (hnone : ∀ connection ∈ registry.listed spki, connection.generation ≠ generation) :
    registry.release spki generation = registry := by
  have hremove : removeGeneration spki generation registry.bySpki = registry.bySpki := by
    unfold removeGeneration
    cases hlookup : registry.bySpki.lookup spki with
    | none => rfl
    | some established =>
        rw [listed, hlookup, Option.getD_some] at hnone
        have hindex : established.findIdx? (·.generation = generation) = none :=
          List.findIdx?_eq_none_iff.mpr fun connection hmem =>
            decide_eq_false (hnone connection hmem)
        dsimp only
        rw [hindex]
  have hkept : ((registry.bySpki.lookup spki).any List.isEmpty) = false := by
    have hne := h spki
    cases hlookup : registry.bySpki.lookup spki with
    | none => rfl
    | some established =>
        rw [hlookup] at hne
        simpa using hne
  rw [release, hremove, hkept]
  rfl

end EstablishedPeerConnections

end Registry

/-! ## Runs -/

open EstablishedPeerConnections (listed kept)

/-- The registry, and of the connections in the order of their activation their leases, which of
them have been evicted and which leases have been dropped.  The abort handle of a connection is its
number. -/
structure System where
  registry : EstablishedPeerConnections ℕ
  leases : List EstablishedPeerLease
  evicted : List ℕ
  dropped : List ℕ

/-- A connection is activated, or a lease dropped. -/
inductive Move where
  | activate (spki : Bytes)
  | drop (number : ℕ)

namespace System

/-- Nothing is connected. -/
def start : System := ⟨.empty, [], [], []⟩

/-- One call; a lease is dropped once. -/
def step (system : System) : Move → Option System
  | .activate spki =>
      let (activation, registry) := system.registry.activate spki system.leases.length
      some ⟨registry, system.leases ++ [activation.lease],
        system.evicted ++ (activation.evicted.map (·.abort)).toList, system.dropped⟩
  | .drop number =>
      match system.leases[number]? with
      | some lease =>
          if number ∈ system.dropped then none
          else some { system with
            registry := lease.drop system.registry
            dropped := number :: system.dropped }
      | none => none

/-- The generations have not come round. -/
def Fresh (system : System) : Move → Prop
  | .activate _ => system.leases.length < 2 ^ 64
  | .drop _ => True

/-- The connections of a peer that have been activated, not evicted and not released, in the order
of their activation. -/
def live (system : System) (spki : Bytes) : List ℕ :=
  (List.range system.leases.length).filter fun number =>
    (system.leases[number]?).map (·.spki) = some spki ∧ number ∉ system.evicted ∧
      number ∉ system.dropped

/-- The invariant of every run in which no generation has come again. -/
structure Inv (system : System) : Prop where
  count : system.leases.length ≤ 2 ^ 64
  next : system.registry.nextGeneration = system.leases.length % 2 ^ 64
  numbered : ∀ (number : ℕ) lease, system.leases[number]? = some lease → lease.generation = number
  listed : ∀ spki, system.registry.listed spki =
    (system.live spki).map fun number => ⟨number, number⟩
  few : ∀ spki, (system.live spki).length ≤ 2
  nonEmpty : system.registry.NonEmpty
  evicted : ∀ number ∈ system.evicted, number < system.leases.length
  dropped : ∀ number ∈ system.dropped, number < system.leases.length

theorem inv_start : start.Inv where
  count := Nat.zero_le _
  next := rfl
  numbered := fun _ _ h => nomatch h
  listed := fun _ => rfl
  few := fun _ => Nat.zero_le _
  nonEmpty := fun _ h => nomatch h
  evicted := fun _ h => absurd h List.not_mem_nil
  dropped := fun _ h => absurd h List.not_mem_nil

section Live

variable {system : System} {spki : Bytes} {number : ℕ}

theorem mem_live : number ∈ system.live spki ↔
    (∃ lease, system.leases[number]? = some lease ∧ lease.spki = spki) ∧
      number ∉ system.evicted ∧ number ∉ system.dropped := by
  rw [live, List.mem_filter, List.mem_range, decide_eq_true_iff, Option.map_eq_some_iff]
  constructor
  · exact fun h => h.2
  · intro h
    obtain ⟨lease, hlease, -⟩ := h.1
    exact ⟨(List.getElem?_eq_some_iff.mp hlease).1, h⟩

theorem pairwise_live (system : System) (spki : Bytes) :
    (system.live spki).Pairwise (· < ·) :=
  List.pairwise_lt_range.filter _

theorem nodup_live (system : System) (spki : Bytes) : (system.live spki).Nodup :=
  (system.pairwise_live spki).imp Nat.ne_of_lt

/-- A connection has one peer. -/
theorem eq_of_mem_live {other : Bytes} (h : number ∈ system.live spki)
    (hother : number ∈ system.live other) : other = spki := by
  obtain ⟨⟨lease, hlease, rfl⟩, -⟩ := mem_live.mp h
  obtain ⟨⟨lease', hlease', rfl⟩, -⟩ := mem_live.mp hother
  rw [Option.some.inj (hlease.symm.trans hlease')]

/-- A dropped lease is that of a connection less. -/
theorem live_drop (system : System) (registry : EstablishedPeerConnections ℕ) (number : ℕ)
    (spki : Bytes) :
    live { system with registry := registry, dropped := number :: system.dropped } spki =
      (system.live spki).filter (· ≠ number) := by
  rw [live, live, List.filter_filter]
  refine List.filter_congr fun other _ => ?_
  rw [Bool.eq_iff_iff, Bool.and_eq_true, decide_eq_true_iff, decide_eq_true_iff,
    decide_eq_true_iff, List.mem_cons, not_or]
  exact ⟨fun h => ⟨h.2.2.1, h.1, h.2.1, h.2.2.2⟩, fun h => ⟨h.2.1, h.2.2.1, h.1, h.2.2.2⟩⟩

/-- An activation evicts some connections and adds the last one. -/
theorem live_activate (h : system.Inv) (registry : EstablishedPeerConnections ℕ)
    (lease : EstablishedPeerLease) {evicted : List ℕ}
    (hevicted : ∀ number ∈ evicted, number < system.leases.length) (spki : Bytes) :
    live ⟨registry, system.leases ++ [lease], system.evicted ++ evicted, system.dropped⟩ spki =
      (system.live spki).filter (· ∉ evicted) ++
        if spki = lease.spki then [system.leases.length] else [] := by
  rw [live, List.length_append, List.length_singleton, List.range_succ, List.filter_append, live,
    List.filter_filter]
  congr 1
  · refine List.filter_congr fun number hnumber => ?_
    rw [Bool.eq_iff_iff, Bool.and_eq_true, decide_eq_true_iff, decide_eq_true_iff,
      decide_eq_true_iff, List.getElem?_append_left (List.mem_range.mp hnumber), List.mem_append,
      not_or]
    exact ⟨fun h => ⟨h.2.1.2, h.1, h.2.1.1, h.2.2⟩, fun h => ⟨h.2.1, ⟨h.2.2.1, h.1⟩, h.2.2.2⟩⟩
  · have hnot : system.leases.length ∉ system.evicted ++ evicted := by
      intro hmem
      rcases List.mem_append.mp hmem with hmem | hmem
      · exact absurd (h.evicted _ hmem) (lt_irrefl _)
      · exact absurd (hevicted _ hmem) (lt_irrefl _)
    have hnot' : system.leases.length ∉ system.dropped := fun hmem =>
      absurd (h.dropped _ hmem) (lt_irrefl _)
    rw [List.filter_cons, List.filter_nil]
    simp only [List.getElem?_concat_length, Option.map_some, Option.some_inj, hnot, hnot',
      not_false_eq_true, and_true, decide_eq_true_iff, @eq_comm _ lease.spki]

/-- The number of the oldest of two connections. -/
def oldestOfTwo (numbers : List ℕ) : List ℕ :=
  if numbers.length = 2 then numbers.head?.toList else []

theorem mem_of_mem_oldestOfTwo {numbers : List ℕ} (h : number ∈ oldestOfTwo numbers) :
    number ∈ numbers := by
  unfold oldestOfTwo at h
  split at h
  · exact List.mem_of_mem_head? (Option.mem_toList.mp h)
  · exact absurd h List.not_mem_nil

theorem filter_oldestOfTwo {numbers : List ℕ} (h : numbers.Nodup) :
    numbers.filter (· ∉ oldestOfTwo numbers) =
      if numbers.length = 2 then numbers.tail else numbers := by
  unfold oldestOfTwo
  split
  · next htwo =>
    obtain ⟨a, b, rfl⟩ := List.length_eq_two.mp htwo
    have hne : b ≠ a := fun heq => by simp [heq] at h
    simp [hne]
  · simp

theorem kept_map {f : ℕ → EstablishedPeerConnection ℕ} (numbers : List ℕ) :
    kept (numbers.map f) = (if numbers.length = 2 then numbers.tail else numbers).map f := by
  rw [kept, List.length_map]
  split
  · rw [List.map_tail]
  · rfl

end Live

/-! ### Steps -/

section Steps

variable {system next : System}

/-- What an activation evicts. -/
theorem Inv.evicted_eq (h : system.Inv) (spki : Bytes) (number : ℕ) :
    ((system.registry.activate spki number).1.evicted.map (·.abort)).toList =
      oldestOfTwo (system.live spki) := by
  rw [EstablishedPeerConnections.activate_eq, h.listed, List.length_map, List.head?_map,
    oldestOfTwo]
  dsimp only
  split
  · rw [Option.map_map]
    cases (system.live spki).head? <;> rfl
  · rfl

theorem inv_activate (h : system.Inv) {spki : Bytes} (hfresh : system.leases.length < 2 ^ 64)
    (hstep : system.step (.activate spki) = some next) : next.Inv := by
  have hnext : system.registry.nextGeneration = system.leases.length := by
    rw [h.next, Nat.mod_eq_of_lt hfresh]
  have hold : ∀ number ∈ oldestOfTwo (system.live spki), number < system.leases.length := by
    intro number hmem
    obtain ⟨⟨lease, hlease, -⟩, -⟩ := mem_live.mp (mem_of_mem_oldestOfTwo hmem)
    exact (List.getElem?_eq_some_iff.mp hlease).1
  have hlive := live_activate h (system.registry.activate spki system.leases.length).2
    ⟨spki, system.registry.nextGeneration⟩ hold
  obtain rfl : ⟨(system.registry.activate spki system.leases.length).2,
      system.leases ++ [⟨spki, system.registry.nextGeneration⟩],
      system.evicted ++ oldestOfTwo (system.live spki), system.dropped⟩ = next := by
    rw [← h.evicted_eq spki system.leases.length]
    exact Option.some.inj hstep
  -- of the peers only this one has other connections than before
  have hself : (system.live spki).filter (· ∉ oldestOfTwo (system.live spki)) =
      if (system.live spki).length = 2 then (system.live spki).tail else system.live spki :=
    filter_oldestOfTwo (system.nodup_live spki)
  have hothers : ∀ other, other ≠ spki →
      (system.live other).filter (· ∉ oldestOfTwo (system.live spki)) = system.live other := by
    intro other hne
    refine List.filter_eq_self.mpr fun number hmem => decide_eq_true fun hmem' => ?_
    exact hne (eq_of_mem_live (mem_of_mem_oldestOfTwo hmem') hmem)
  exact {
    count := by
      rw [List.length_append, List.length_singleton]
      omega
    next := by
      rw [List.length_append, List.length_singleton, EstablishedPeerConnections.activate_eq, hnext]
    numbered := fun number lease hlease => by
      rcases Nat.lt_or_ge number system.leases.length with hlt | hge
      · rw [List.getElem?_append_left hlt] at hlease
        exact h.numbered number lease hlease
      · rw [List.getElem?_append_right hge] at hlease
        obtain ⟨hindex, hlease⟩ := List.getElem?_eq_some_iff.mp hlease
        rw [List.length_singleton] at hindex
        rw [← hlease, List.getElem_singleton]
        show system.registry.nextGeneration = number
        omega
    listed := fun other => by
      rw [hlive, EstablishedPeerConnections.listed_activate]
      by_cases heq : other = spki
      · rw [if_pos heq, if_pos heq, heq, hself, h.listed, kept_map, hnext, List.map_append,
          List.map_singleton]
      · rw [if_neg heq, if_neg heq, hothers other heq, List.append_nil, h.listed]
    few := fun other => by
      rw [hlive]
      by_cases heq : other = spki
      · have hfew := h.few spki
        rw [if_pos heq, heq, hself, List.length_append, List.length_singleton]
        split
        · rw [List.length_tail]
          omega
        · omega
      · rw [if_neg heq, hothers other heq, List.append_nil]
        exact h.few other
    nonEmpty := EstablishedPeerConnections.nonEmpty_activate h.nonEmpty spki _
    evicted := fun number hmem => by
      rw [List.length_append, List.length_singleton]
      rcases List.mem_append.mp hmem with hmem | hmem
      · exact Nat.lt_succ_of_lt (h.evicted number hmem)
      · exact Nat.lt_succ_of_lt (hold number hmem)
    dropped := fun number hmem => by
      rw [List.length_append, List.length_singleton]
      exact Nat.lt_succ_of_lt (h.dropped number hmem) }

/-- Of numbers that occur once, the first one that is a number is all of them. -/
theorem eraseP_map {numbers : List ℕ} (h : numbers.Nodup) (number : ℕ) :
    (numbers.map fun n => (⟨n, n⟩ : EstablishedPeerConnection ℕ)).eraseP
        (·.generation = number) =
      (numbers.filter (· ≠ number)).map fun n => ⟨n, n⟩ := by
  rw [List.eraseP_map]
  congr 1
  have herase : numbers.eraseP
      ((fun c : EstablishedPeerConnection ℕ => decide (c.generation = number)) ∘ fun n => ⟨n, n⟩) =
        numbers.erase number := by
    rw [List.erase_eq_eraseP']
    rfl
  rw [herase, h.erase_eq_filter]
  exact List.filter_congr fun n _ => by rw [bne, beq_eq_decide, decide_not]

theorem inv_drop (h : system.Inv) {number : ℕ} (hstep : system.step (.drop number) = some next) :
    next.Inv := by
  simp only [step] at hstep
  split at hstep
  · next lease hlease =>
    split at hstep
    · exact nomatch hstep
    · next hnot =>
      obtain rfl := Option.some.inj hstep
      have hgeneration := h.numbered number lease hlease
      have hothers : ∀ other, other ≠ lease.spki →
          (system.live other).filter (· ≠ number) = system.live other := by
        intro other hne
        refine List.filter_eq_self.mpr fun n hmem => decide_eq_true fun heq => ?_
        obtain ⟨⟨lease', hlease', hspki⟩, -⟩ := mem_live.mp hmem
        rw [heq, hlease, Option.some_inj] at hlease'
        exact hne (hspki ▸ hlease' ▸ rfl)
      exact {
        count := h.count
        next := h.next
        numbered := h.numbered
        listed := fun other => by
          rw [live_drop, EstablishedPeerLease.drop, EstablishedPeerConnections.listed_release,
            h.listed, h.listed, hgeneration]
          by_cases heq : other = lease.spki
          · rw [if_pos heq, heq, eraseP_map (system.nodup_live lease.spki)]
          · rw [if_neg heq, hothers other heq]
        few := fun other => by
          rw [live_drop]
          exact le_trans (List.length_filter_le ..) (h.few other)
        nonEmpty := EstablishedPeerConnections.nonEmpty_release h.nonEmpty _ _
        evicted := h.evicted
        dropped := List.forall_mem_cons.mpr
          ⟨(List.getElem?_eq_some_iff.mp hlease).1, h.dropped⟩ }
  · exact nomatch hstep

theorem inv_step (h : system.Inv) {move : Move} (hfresh : system.Fresh move)
    (hstep : system.step move = some next) : next.Inv := by
  cases move with
  | activate spki => exact inv_activate h hfresh hstep
  | drop number => exact inv_drop h hstep

/-- The connection that an activation evicts is the older one of two. -/
theorem evicted_eq_some_iff {spki : Bytes} {abort : ℕ}
    {connection : EstablishedPeerConnection ℕ} :
    (system.registry.activate spki abort).1.evicted = some connection ↔
      ∃ newer, system.registry.listed spki = [connection, newer] := by
  rw [EstablishedPeerConnections.activate_eq]
  dsimp only
  constructor
  · intro hevicted
    split at hevicted
    · next htwo =>
      obtain ⟨older, newer, hlisted⟩ := List.length_eq_two.mp htwo
      rw [hlisted, List.head?_cons, Option.some_inj] at hevicted
      exact ⟨newer, hevicted ▸ hlisted⟩
    · exact nomatch hevicted
  · rintro ⟨newer, hlisted⟩
    rw [hlisted]
    rfl

/-- The lease of a connection that is not live releases nothing. -/
theorem Inv.drop_eq_self (h : system.Inv) {number : ℕ} {lease : EstablishedPeerLease}
    (hlease : system.leases[number]? = some lease) (hnot : number ∉ system.live lease.spki) :
    lease.drop system.registry = system.registry := by
  refine EstablishedPeerConnections.release_eq_self h.nonEmpty fun connection hmem heq => ?_
  rw [h.listed] at hmem
  obtain ⟨n, hn, rfl⟩ := List.mem_map.mp hmem
  rw [h.numbered number lease hlease] at heq
  exact hnot (heq ▸ hn)

end Steps

/-- **The registry lists the live connections** of each peer in every run of at most `2 ^ 64`
activations: the oldest first, with increasing generations, at most two, and without an entry for a
peer that has none.  An activation evicts the older of two and nothing else, and the lease of a
connection that has been evicted releases nothing. -/
theorem listed_faithful {system : System}
    (h : Reached (fun s m t => s.step m = some t) Fresh start system) :
    (∀ spki, system.registry.listed spki =
        (system.live spki).map fun number => ⟨number, number⟩) ∧
    (∀ spki, ((system.registry.listed spki).map (·.generation)).Pairwise (· < ·) ∧
      (system.registry.listed spki).length ≤ 2) ∧
    (∀ spki, system.live spki = [] ↔ system.registry.bySpki.lookup spki = none) ∧
    (∀ spki abort connection,
      (system.registry.activate spki abort).1.evicted = some connection ↔
        ∃ newer, system.registry.listed spki = [connection, newer]) ∧
    ∀ number ∈ system.evicted, ∀ lease, system.leases[number]? = some lease →
      lease.drop system.registry = system.registry := by
  have hinv : system.Inv := h.invariant Inv inv_start fun s m t hs hfresh hstep =>
    inv_step hs hfresh hstep
  refine ⟨hinv.listed, fun spki => ⟨?_, ?_⟩, fun spki => ?_, fun spki abort connection =>
    evicted_eq_some_iff, fun number hmem lease hlease => ?_⟩
  · rw [hinv.listed, List.map_map]
    exact List.pairwise_map.mpr (system.pairwise_live spki)
  · rw [hinv.listed, List.length_map]
    exact hinv.few spki
  · rw [← EstablishedPeerConnections.listed_eq_nil_iff hinv.nonEmpty, hinv.listed,
      List.map_eq_nil_iff]
  · exact hinv.drop_eq_self hlease fun hlive => (mem_live.mp hlive).2.1 hmem

/-- The third connection of a peer evicts the first one. -/
theorem listed_faithful_third : ∃ first second third : System,
    start.step (.activate [65]) = some first ∧ first.step (.activate [65]) = some second ∧
      second.step (.activate [65]) = some third ∧
      third.registry.listed [65] = [⟨1, 1⟩, ⟨2, 2⟩] ∧
        (⟨[65], 0⟩ : EstablishedPeerLease).drop third.registry = third.registry := by
  refine ⟨_, _, _, rfl, rfl, rfl, ?_⟩
  have hfirst : Reached (fun s m t => s.step m = some t) Fresh start _ :=
    Reached.start.next (m := .activate [65]) (by decide : 0 < 2 ^ 64) rfl
  have hsecond : Reached (fun s m t => s.step m = some t) Fresh start _ :=
    hfirst.next (m := .activate [65]) (by decide : 1 < 2 ^ 64) rfl
  have hthird : Reached (fun s m t => s.step m = some t) Fresh start _ :=
    hsecond.next (m := .activate [65]) (by decide : 2 < 2 ^ 64) rfl
  obtain ⟨hlisted, -, -, -, hdrop⟩ := listed_faithful hthird
  exact ⟨hlisted [65], hdrop 0 (by decide) ⟨[65], 0⟩ rfl⟩

/-! ## Generations come again -/

section Wrap

/-- The peer `[65]` has its first connection, and `rounds` connections of the peer `[66]` have come
and gone. -/
structure Idle (rounds : ℕ) (system : System) : Prop where
  next : system.registry.nextGeneration = (rounds + 1) % 2 ^ 64
  count : system.leases.length = rounds + 1
  first : system.registry.listed [65] = [⟨0, 0⟩]
  second : system.registry.listed [66] = []
  dropped : ∀ number ∈ system.dropped, number < rounds + 1

/-- A connection comes and goes. -/
theorem idle_succ {rounds : ℕ} {system : System} (h : Idle rounds system) :
    ∃ next, Reached (fun s m t => s.step m = some t) (fun _ _ => True) system next ∧
      Idle (rounds + 1) next := by
  have hne : ([65] : Bytes) ≠ [66] := by decide
  have hactive : system.step (.activate [66]) = some
      ⟨(system.registry.activate [66] system.leases.length).2,
        system.leases ++ [⟨[66], system.registry.nextGeneration⟩], system.evicted,
        system.dropped⟩ := by
    rw [step, EstablishedPeerConnections.activate_eq, h.second]
    simp
  have hlisted := fun other =>
    EstablishedPeerConnections.listed_activate system.registry [66] other system.leases.length
  have hlast : (system.leases ++ [⟨[66], system.registry.nextGeneration⟩])[rounds + 1]? =
      some ⟨[66], system.registry.nextGeneration⟩ := by
    rw [← h.count, List.getElem?_concat_length]
  have hnot : rounds + 1 ∉ system.dropped := fun hmem => absurd (h.dropped _ hmem) (lt_irrefl _)
  refine ⟨_, (Reached.start.next (m := .activate [66]) trivial hactive).next
    (m := .drop (rounds + 1)) trivial (by rw [step]; dsimp only; rw [hlast]; exact if_neg hnot), ?_⟩
  exact {
    next := by
      show (system.registry.activate [66] system.leases.length).2.nextGeneration = _
      rw [EstablishedPeerConnections.activate_eq, h.next, Nat.mod_add_mod]
    count := by rw [List.length_append, List.length_singleton, h.count]
    first := by
      rw [EstablishedPeerLease.drop, EstablishedPeerConnections.listed_release, if_neg hne, hlisted,
        if_neg hne, h.first]
    second := by
      rw [EstablishedPeerLease.drop, EstablishedPeerConnections.listed_release, if_pos rfl, hlisted,
        if_pos rfl, h.second]
      simp [kept]
    dropped := fun number hmem => by
      rcases List.mem_cons.mp hmem with rfl | hmem
      · exact Nat.lt_succ_self _
      · exact Nat.lt_succ_of_lt (h.dropped number hmem) }

theorem exists_idle (rounds : ℕ) : ∃ system,
    Reached (fun s m t => s.step m = some t) (fun _ _ => True) start system ∧
      Idle rounds system := by
  induction rounds with
  | zero =>
      refine ⟨_, Reached.start.next (m := .activate [65]) trivial rfl, ?_⟩
      exact ⟨rfl, rfl, rfl, rfl, fun _ hmem => absurd hmem List.not_mem_nil⟩
  | succ rounds ih =>
      obtain ⟨system, hreached, hidle⟩ := ih
      obtain ⟨next, hnext, hidle'⟩ := idle_succ hidle
      exact ⟨next, hreached.trans hnext, hidle'⟩

/-- After `2 ^ 64` activations a peer has two connections of one generation, and the lease of the
newer one releases the older one. -/
theorem generation_comes_again : ∃ system,
    Reached (fun s m t => s.step m = some t) (fun _ _ => True) start system ∧
      system.registry.listed [65] = [⟨0, 0⟩, ⟨0, 2 ^ 64⟩] ∧
      ¬((system.registry.listed [65]).map (·.generation)).Pairwise (· < ·) ∧
      ∃ lease, system.leases[2 ^ 64]? = some lease ∧
        (lease.drop system.registry).listed [65] = [⟨0, 2 ^ 64⟩] := by
  obtain ⟨system, hreached, hidle⟩ := exists_idle (2 ^ 64 - 1)
  have hnext : system.registry.nextGeneration = 0 := hidle.next
  have hcount : system.leases.length = 2 ^ 64 := hidle.count
  have hactive : system.step (.activate [65]) = some
      ⟨(system.registry.activate [65] system.leases.length).2, system.leases ++ [⟨[65], 0⟩],
        system.evicted, system.dropped⟩ := by
    rw [step, EstablishedPeerConnections.activate_eq, hidle.first, hnext]
    simp
  have hlisted : (system.registry.activate [65] system.leases.length).2.listed [65] =
      [⟨0, 0⟩, ⟨0, 2 ^ 64⟩] := by
    rw [EstablishedPeerConnections.listed_activate, if_pos rfl, hidle.first, hnext, hcount]
    rfl
  refine ⟨_, hreached.next (m := .activate [65]) trivial hactive, hlisted, ?_, ⟨[65], 0⟩, ?_, ?_⟩
  · rw [hlisted]
    decide
  · rw [← hcount, List.getElem?_concat_length]
  · rw [EstablishedPeerLease.drop, EstablishedPeerConnections.listed_release, if_pos rfl, hlisted]
    rfl

end Wrap

end System

end Limpid.Ltp
