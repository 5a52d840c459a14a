import Limpid.Output.Settlement

/-!
# The accounts of a batched sink

What a batched sink keeps, in two parts that do not mention its state.

* `Accounts`: the events held and the resolutions sent are together the events handed in, each
  once; the counters are the numbers of the dispositions, where a `Dropped` counts when the
  consumer receives it.  `Accounts.settle` is the one step that moves events from the one side to
  the other.
* `Ordered`: every send is a batch of events in the order they came, within the cap, rendered and
  prepared; the sends follow one another in that order, a retry aside; and all of them came before
  what is still to be sent.
-/

namespace Limpid.Output

open Queue (AckPosition AckResolution OutputMetrics QueueAckHandle handleAckDisposition)
open Disk (AckDisposition)
open scoped List

/-! ## The accounts -/

/-- The accounts of a sink that holds the events `held`. -/
structure Accounts (held : List ParkedEvent) (ledger : Ledger)
    (received : List (ℕ × AckResolution)) (arrivals : List (OwnedEvent × AckPosition))
    (ambiguous : List ℕ) : Prop where
  armed : ∀ parked ∈ held, parked.ack.tx = true
  known : ∀ parked ∈ held, arrivals[parked.id]? = some (parked.event, parked.ack.position)
  sorted : (held.map ParkedEvent.id).Pairwise (· < ·)
  resolved_known : ∀ entry ∈ ledger.resolved,
    ∃ event, arrivals[entry.1]? = some (event, entry.2.position)
  once : (held.map ParkedEvent.id ++ ledger.resolved.map Prod.fst).Perm
    (List.range arrivals.length)
  flow : ledger.resolved = received ++ ledger.channel
  written : ledger.metrics.eventsWritten =
    ledger.resolved.countP (fun entry => entry.2.disposition = .delivered)
  failed : ledger.metrics.eventsFailed =
    ledger.resolved.countP (fun entry => entry.2.disposition = .recovered) +
      received.countP (fun entry => entry.2.disposition = .dropped)
  ambiguous : ∀ id ∈ ambiguous, ∃ resolution, (id, resolution) ∈ ledger.resolved ∧
    HoldsCursor resolution

section Accounts

variable {held gone rest : List ParkedEvent} {ledger after : Ledger}
  {received : List (ℕ × AckResolution)} {arrivals : List (OwnedEvent × AckPosition)}
  {ambiguous : List ℕ} {allowed : AckResolution → Prop}

/-- The numbers of what is held are those of events that have arrived. -/
theorem Accounts.lt_length (h : Accounts held ledger received arrivals ambiguous)
    {parked : ParkedEvent} (hparked : parked ∈ held) : parked.id < arrivals.length :=
  (List.getElem?_eq_some_iff.mp (h.known parked hparked)).1

/-- **Settling moves events from those held to those resolved.** -/
theorem Accounts.settle (h : Accounts held ledger received arrivals ambiguous)
    (hs : Settles allowed gone ledger after) (hperm : held.Perm (gone ++ rest))
    (hsub : rest.Sublist held) : Accounts rest after received arrivals ambiguous := by
  obtain ⟨new, hresolved, hchannel, hnew, -, hwritten, hfailed⟩ := hs.sent
  have hmem : ∀ parked ∈ rest, parked ∈ held := fun parked hparked => hsub.subset hparked
  exact {
    armed := fun parked hparked => h.armed parked (hmem parked hparked)
    known := fun parked hparked => h.known parked (hmem parked hparked)
    sorted := h.sorted.sublist (hsub.map _)
    resolved_known := by
      intro entry hentry
      rw [hresolved] at hentry
      rcases List.mem_append.mp hentry with hentry | hentry
      · exact h.resolved_known entry hentry
      · have hmapped := hnew.mem_iff.mp (List.mem_map_of_mem
          (f := fun entry : ℕ × AckResolution => (entry.1, entry.2.position)) hentry)
        obtain ⟨parked, hparked, heq⟩ := List.mem_map.mp hmapped
        obtain ⟨hid, hposition⟩ := Prod.mk.inj heq
        refine ⟨parked.event, ?_⟩
        rw [← hid, ← hposition]
        exact h.known parked (hperm.mem_iff.mpr (List.mem_append_left _ hparked))
    once := by
      have hids : (new.map Prod.fst).Perm (gone.map ParkedEvent.id) := by
        have hfst := hnew.map Prod.fst
        rwa [List.map_map, List.map_map] at hfst
      rw [hresolved, List.map_append]
      calc rest.map ParkedEvent.id ++ (ledger.resolved.map Prod.fst ++ new.map Prod.fst)
          ~ rest.map ParkedEvent.id ++
              (gone.map ParkedEvent.id ++ ledger.resolved.map Prod.fst) :=
            (List.perm_append_comm.trans (hids.append_right _)).append_left _
        _ ~ (gone.map ParkedEvent.id ++ rest.map ParkedEvent.id) ++
              ledger.resolved.map Prod.fst := by
            rw [← List.append_assoc]
            exact List.perm_append_comm.append_right _
        _ ~ held.map ParkedEvent.id ++ ledger.resolved.map Prod.fst := by
            rw [← List.map_append]
            exact (hperm.map _).symm.append_right _
        _ ~ List.range arrivals.length := h.once
    flow := by rw [hresolved, hchannel, h.flow, List.append_assoc]
    written := by rw [hwritten, h.written, hresolved, List.countP_append]
    failed := by
      rw [hfailed, h.failed, hresolved, List.countP_append]
      omega
    ambiguous := by
      intro id hid
      obtain ⟨resolution, hresolution, hholds⟩ := h.ambiguous id hid
      exact ⟨resolution, hresolved ▸ List.mem_append_left _ hresolution, hholds⟩ }

/-- Events that have just been settled so may be listed as ambiguous. -/
theorem Accounts.addAmbiguous (h : Accounts held ledger received arrivals ambiguous)
    {more : List ℕ} (hmore : ∀ id ∈ more, ∃ resolution, (id, resolution) ∈ ledger.resolved ∧
      HoldsCursor resolution) :
    Accounts held ledger received arrivals (ambiguous ++ more) :=
  { h with
    ambiguous := fun id hid => (List.mem_append.mp hid).elim (h.ambiguous id) (hmore id) }

/-- An event is handed in. -/
theorem Accounts.park (h : Accounts held ledger received arrivals ambiguous) (event : OwnedEvent)
    (position : AckPosition) :
    Accounts (held ++ [⟨arrivals.length, event, QueueAckHandle.new position⟩]) ledger received
      (arrivals ++ [(event, position)]) ambiguous where
  armed := by
    intro parked hparked
    rcases List.mem_append.mp hparked with hparked | hparked
    · exact h.armed parked hparked
    · rw [List.mem_singleton.mp hparked]
      rfl
  known := by
    intro parked hparked
    rcases List.mem_append.mp hparked with hparked | hparked
    · rw [List.getElem?_append_left (h.lt_length hparked)]
      exact h.known parked hparked
    · rw [List.mem_singleton.mp hparked]
      simp [QueueAckHandle.new]
  sorted := by
    rw [List.map_append]
    refine List.pairwise_append.mpr ⟨h.sorted, List.pairwise_singleton _ _, ?_⟩
    intro id hid last hlast
    obtain ⟨parked, hparked, rfl⟩ := List.mem_map.mp hid
    rw [List.mem_singleton.mp hlast]
    exact h.lt_length hparked
  resolved_known := by
    intro entry hentry
    obtain ⟨event', hknown⟩ := h.resolved_known entry hentry
    refine ⟨event', ?_⟩
    rw [List.getElem?_append_left (List.getElem?_eq_some_iff.mp hknown).1]
    exact hknown
  once := by
    rw [List.map_append, List.length_append, List.length_singleton, List.range_succ,
      List.append_assoc]
    calc held.map ParkedEvent.id ++ ([arrivals.length] ++ ledger.resolved.map Prod.fst)
        ~ held.map ParkedEvent.id ++ (ledger.resolved.map Prod.fst ++ [arrivals.length]) :=
          List.perm_append_comm.append_left _
      _ ~ List.range arrivals.length ++ [arrivals.length] := by
          rw [← List.append_assoc]
          exact h.once.append_right _
  flow := h.flow
  written := h.written
  failed := h.failed
  ambiguous := h.ambiguous

/-- The consumer works off a resolution. -/
theorem Accounts.receive (h : Accounts held ledger received arrivals ambiguous) {id : ℕ}
    {resolution : AckResolution} {channel : List (ℕ × AckResolution)}
    (hchannel : ledger.channel = (id, resolution) :: channel) :
    Accounts held
      { ledger with
        channel := channel
        metrics := handleAckDisposition resolution.disposition ledger.metrics }
      (received ++ [(id, resolution)]) arrivals ambiguous :=
  { h with
    flow := by rw [h.flow, hchannel, List.append_assoc]; rfl
    written := by
      have hwritten := h.written
      cases hdisposition : resolution.disposition <;> exact hwritten
    failed := by
      have hfailed := h.failed
      cases hdisposition : resolution.disposition <;>
        simp [handleAckDisposition, hdisposition, hfailed, Nat.add_assoc] }

theorem countP_not_delivered (entries : List (ℕ × AckResolution)) :
    entries.countP (fun entry => entry.2.disposition = .recovered) +
        entries.countP (fun entry => entry.2.disposition = .dropped) =
      entries.countP (fun entry => entry.2.disposition ≠ .delivered) := by
  induction entries with
  | nil => rfl
  | cons entry rest ih =>
      simp only [List.countP_cons, ← ih]
      cases entry.2.disposition <;> simp only [reduceCtorEq, decide_false, decide_true, ne_eq,
        not_true, not_false_eq_true, if_true, if_false] <;> omega

end Accounts

/-! ## The order of the sends -/

/-- A send comes before another, or repeats it. -/
def Precedes (a b : List ℕ) : Prop :=
  a = b ∨ ∀ x ∈ a, ∀ y ∈ b, x < y

section Sink

variable {Payload Prepared : Type*} (shared : SinkShared Payload Prepared)

/-- A send takes events in the order they came, at most a batch of them, and sends what was
prepared from their payloads. -/
structure SendOk (arrivals : List (OwnedEvent × AckPosition)) (send : Send Prepared) : Prop where
  sorted : send.ids.Pairwise (· < ·)
  capped : send.ids.length ≤ max shared.batchSize 1
  prepares : ∃ payloads, shared.policy.prepare payloads = .ok send.prepared ∧
    List.Forall₂ (fun id payload => ∃ event position,
      arrivals[id]? = some (event, position) ∧ shared.policy.render event = .ok payload)
      send.ids payloads

/-- The sends made so far, with what is under send and what waits. -/
structure Ordered (arrivals : List (OwnedEvent × AckPosition)) (sends : List (Send Prepared))
    (current waiting : List ParkedEvent) : Prop where
  each : ∀ send ∈ sends, SendOk shared arrivals send
  order : (sends.map Send.ids).Pairwise Precedes
  current : ∀ send ∈ sends, Precedes send.ids (current.map ParkedEvent.id)
  waiting : ∀ send ∈ sends, ∀ id ∈ send.ids, ∀ parked ∈ waiting, id < parked.id

section Ordered

variable {shared} {arrivals : List (OwnedEvent × AckPosition)} {sends : List (Send Prepared)}
  {now later : List ParkedEvent}

theorem SendOk.append {send : Send Prepared} (h : SendOk shared arrivals send)
    (more : List (OwnedEvent × AckPosition)) : SendOk shared (arrivals ++ more) send where
  sorted := h.sorted
  capped := h.capped
  prepares := by
    obtain ⟨payloads, hprepare, hrender⟩ := h.prepares
    refine ⟨payloads, hprepare, hrender.imp fun id payload hid => ?_⟩
    obtain ⟨event, position, hknown, hok⟩ := hid
    refine ⟨event, position, ?_, hok⟩
    rw [List.getElem?_append_left (List.getElem?_eq_some_iff.mp hknown).1]
    exact hknown

theorem SendOk.lt_length {send : Send Prepared} (h : SendOk shared arrivals send) {id : ℕ}
    (hid : id ∈ send.ids) : id < arrivals.length := by
  obtain ⟨payloads, -, hrender⟩ := h.prepares
  obtain ⟨i, hi, rfl⟩ := List.getElem_of_mem hid
  obtain ⟨event, position, hknown, -⟩ := hrender.get hi (hrender.length_eq ▸ hi)
  exact (List.getElem?_eq_some_iff.mp hknown).1

/-- A batch of events held can be sent once it is prepared. -/
theorem sendOk_of_prepares {events : List ParkedEvent} {prepared : Prepared}
    (hprepares : Prepares shared events prepared)
    (hsorted : (events.map ParkedEvent.id).Pairwise (· < ·))
    (hcapped : events.length ≤ max shared.batchSize 1)
    (hknown : ∀ parked ∈ events, arrivals[parked.id]? = some (parked.event, parked.ack.position)) :
    SendOk shared arrivals ⟨events.map ParkedEvent.id, prepared⟩ where
  sorted := hsorted
  capped := by rwa [List.length_map]
  prepares := by
    obtain ⟨payloads, hprepare, hrender⟩ := hprepares
    refine ⟨payloads, hprepare, List.forall₂_map_left_iff.mpr ?_⟩
    refine ((List.forall₂_and_left _ _).mpr ⟨hknown, hrender⟩).imp fun parked payload h => ?_
    exact ⟨parked.event, parked.ack.position, h.1, h.2⟩

theorem Ordered.append (h : Ordered shared arrivals sends now later) (event : OwnedEvent)
    (position : AckPosition) :
    Ordered shared (arrivals ++ [(event, position)]) sends now
      (later ++ [⟨arrivals.length, event, QueueAckHandle.new position⟩]) where
  each := fun send hsend => (h.each send hsend).append _
  order := h.order
  current := h.current
  waiting := by
    intro send hsend id hid parked hparked
    rcases List.mem_append.mp hparked with hparked | hparked
    · exact h.waiting send hsend id hid parked hparked
    · rw [List.mem_singleton.mp hparked]
      exact (h.each send hsend).lt_length hid

/-- What waited is taken under send. -/
theorem Ordered.promote (h : Ordered shared arrivals sends now later)
    {next rest : List ParkedEvent} (hnext : ∀ parked ∈ next, parked ∈ later)
    (hrest : ∀ parked ∈ rest, parked ∈ later) :
    Ordered shared arrivals sends next rest where
  each := h.each
  order := h.order
  current := by
    intro send hsend
    refine .inr fun id hid y hy => ?_
    obtain ⟨parked, hparked, rfl⟩ := List.mem_map.mp hy
    exact h.waiting send hsend id hid parked (hnext parked hparked)
  waiting := fun send hsend id hid parked hparked =>
    h.waiting send hsend id hid parked (hrest parked hparked)

/-- What is under send is sent. -/
theorem Ordered.send (h : Ordered shared arrivals sends now later) {prepared : Prepared}
    (hok : SendOk shared arrivals ⟨now.map ParkedEvent.id, prepared⟩)
    (hsorted : ((now ++ later).map ParkedEvent.id).Pairwise (· < ·)) :
    Ordered shared arrivals (sends ++ [⟨now.map ParkedEvent.id, prepared⟩]) now
      later where
  each := by
    intro send hsend
    rcases List.mem_append.mp hsend with hsend | hsend
    · exact h.each send hsend
    · exact List.mem_singleton.mp hsend ▸ hok
  order := by
    rw [List.map_append]
    refine List.pairwise_append.mpr ⟨h.order, List.pairwise_singleton _ _, ?_⟩
    intro ids hids last hlast
    obtain ⟨send, hsend, rfl⟩ := List.mem_map.mp hids
    rw [List.mem_singleton.mp hlast]
    exact h.current send hsend
  current := by
    intro send hsend
    rcases List.mem_append.mp hsend with hsend | hsend
    · exact h.current send hsend
    · rw [List.mem_singleton.mp hsend]
      exact .inl rfl
  waiting := by
    intro send hsend id hid parked hparked
    rcases List.mem_append.mp hsend with hsend | hsend
    · exact h.waiting send hsend id hid parked hparked
    · rw [List.mem_singleton.mp hsend] at hid
      rw [List.map_append] at hsorted
      exact (List.pairwise_append.mp hsorted).2.2 id hid parked.id
        (List.mem_map_of_mem hparked)

end Ordered

end Sink

end Limpid.Output
