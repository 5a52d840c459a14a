import Mathlib.Data.List.AList
import Mathlib.Data.List.Dedup
import Mathlib.Order.Basic
import Limpid.Runs

/-!
# Tables

The key-value tables of `functions/table.rs`: a bounded map with expiry.  `entries` holds the
stored entries and `insertion_order` is a queue of keys from which the oldest is evicted.

The two are kept in step lazily.  A key goes to the back of the queue when it is inserted, but
deletion and expiry take it out of `entries` only, and its old place in the queue stays behind.
Eviction steps over such places (`evictOldest`) as long as the key is absent.  If it has been
inserted again by then, the old place stands for the new incarnation, which is evicted before
keys inserted earlier (`evicts_later_key`).

What holds in every run is `Tracked.Inv`: a lookup answers with the latest upsert unless it has
expired, been deleted or been evicted, and the size stays within `max`.  What needs that no key
is inserted again while an old place of it is queued (`Requeued`) is `Tracked.Ordered`:
eviction in the order of insertion, and a queue with no more than one place for a key.

`Instant` and `Duration` are numbers here, and each operation reads the clock once.
-/

namespace Limpid.Tables

variable {Value : Type*}

/-- `TableEntry`. -/
structure TableEntry (Value : Type*) where
  value : Value
  expiresAt : Option ℕ

/-- Whether the entry has expired at `now`. -/
def TableEntry.expired (entry : TableEntry Value) (now : ℕ) : Prop :=
  ∃ expiry ∈ entry.expiresAt, expiry ≤ now

instance (entry : TableEntry Value) (now : ℕ) : Decidable (entry.expired now) :=
  match h : entry.expiresAt with
  | none => isFalse (by simp [TableEntry.expired, h])
  | some expiry => decidable_of_iff (expiry ≤ now) (by simp [TableEntry.expired, h])

/-- What has expired stays expired. -/
theorem TableEntry.expired.mono {entry : TableEntry Value} {now later : ℕ}
    (h : entry.expired now) (hle : now ≤ later) : entry.expired later := by
  obtain ⟨expiry, hmem, hexpiry⟩ := h
  exact ⟨expiry, hmem, hexpiry.trans hle⟩

abbrev Entries (Value : Type*) := AList fun _ : String => TableEntry Value

/-- `Table`: the entries, and the order in which they came. -/
structure Table (Value : Type*) where
  entries : Entries Value
  insertionOrder : List String
  max : Option ℕ
  defaultTtl : Option ℕ

/-- `Table::new`. -/
def Table.new (max defaultTtl : Option ℕ) : Table Value := ⟨∅, [], max, defaultTtl⟩

/-! ## Operations -/

/-- `LookupResult`. -/
inductive LookupResult (Value : Type*) where
  | found (value : Value)
  | notFound
  | expired

/-- `lookup_read`. -/
def lookupRead (now : ℕ) (key : String) (table : Table Value) : LookupResult Value :=
  match table.entries.lookup key with
  | some entry => if entry.expired now then .expired else .found entry.value
  | none => .notFound

/-- `evict_expired`: the queue keeps its place for the key. -/
def evictExpired (key : String) (table : Table Value) : Table Value :=
  { table with entries := table.entries.erase key }

/-- `TableStore::lookup` on its table; `null` is the answer for no value. -/
def lookup (null : Value) (now : ℕ) (key : String) (table : Table Value) : Value × Table Value :=
  match lookupRead now key table with
  | .found value => (value, table)
  | .notFound => (null, table)
  | .expired => (null, evictExpired key table)

/-- `evict_oldest`: drop places from the front of the queue until one is of a stored key, and
remove that key. -/
def evictOldest (entries : Entries Value) : List String → Entries Value × List String
  | [] => (entries, [])
  | key :: rest => if key ∈ entries then (entries.erase key, rest) else evictOldest entries rest

theorem evictOldest_length_lt (entries : Entries Value) {queue : List String} (h : queue ≠ []) :
    (evictOldest entries queue).2.length < queue.length := by
  induction queue with
  | nil => exact absurd rfl h
  | cons key rest ih =>
      rw [evictOldest]
      split
      · exact Nat.lt_succ_self _
      · by_cases hrest : rest = []
        · simp [hrest, evictOldest]
        · exact (ih hrest).trans (Nat.lt_succ_self _)

/-- The eviction loop of `upsert`: while the table is full and the queue is not empty. -/
def evictWhileFull (max : ℕ) (entries : Entries Value) (queue : List String) :
    Entries Value × List String :=
  if _h : max ≤ entries.keys.length ∧ queue ≠ [] then
    let evicted := evictOldest entries queue
    evictWhileFull max evicted.1 evicted.2
  else (entries, queue)
termination_by queue.length
decreasing_by exact evictOldest_length_lt entries _h.2

/-- `Table::upsert`. -/
def upsert (now : ℕ) (key : String) (value : Value) (expire : Option ℕ) (table : Table Value) :
    Table Value :=
  let entry := ⟨value, expire.map (now + ·)⟩
  if key ∈ table.entries then { table with entries := table.entries.insert key entry }
  else
    let (entries, queue) := match table.max with
      | some max => evictWhileFull max table.entries table.insertionOrder
      | none => (table.entries, table.insertionOrder)
    { table with entries := entries.insert key entry, insertionOrder := queue ++ [key] }

/-- `upsert_with_default`. -/
def upsertWithDefault (now : ℕ) (key : String) (value : Value) (table : Table Value) :
    Table Value :=
  upsert now key value table.defaultTtl table

/-- `Table::delete`: the queue keeps its place for the key. -/
def delete (key : String) (table : Table Value) : Table Value :=
  { table with entries := table.entries.erase key }

/-! ## Eviction -/

/-- One `evict_oldest` at the head of the loop takes one place at a time: a stale place leaves
the table as full as it was. -/
theorem evictWhileFull_cons (max : ℕ) (entries : Entries Value) (key : String)
    (rest : List String) :
    evictWhileFull max entries (key :: rest) =
      if max ≤ entries.keys.length then
        evictWhileFull max (if key ∈ entries then entries.erase key else entries) rest
      else (entries, key :: rest) := by
  rw [evictWhileFull]
  by_cases hfull : max ≤ entries.keys.length
  · rw [dif_pos ⟨hfull, List.cons_ne_nil _ _⟩, if_pos hfull, evictOldest]
    by_cases hkey : key ∈ entries
    · rw [if_pos hkey, if_pos hkey]
    · rw [if_neg hkey, if_neg hkey]
      -- the place is stale: `evict_oldest` goes on by itself
      cases rest with
      | nil => rw [evictOldest, evictWhileFull]
      | cons next rest =>
          conv_rhs => rw [evictWhileFull, dif_pos ⟨hfull, List.cons_ne_nil _ _⟩]
  · rw [dif_neg (fun h => hfull h.1), if_neg hfull]

theorem evictWhileFull_nil (max : ℕ) (entries : Entries Value) :
    evictWhileFull max entries [] = (entries, []) := by
  rw [evictWhileFull, dif_neg (fun h => h.2 rfl)]

/-- What the eviction loop does: it takes `popped` off the front of the queue and those keys out
of the table, and stops when there is room or nothing is queued. -/
structure Evicted (max : ℕ) (entries : Entries Value) (queue : List String)
    (later : Entries Value) (left popped : List String) : Prop where
  queue_eq : queue = popped ++ left
  lookup_eq : ∀ key, later.lookup key = if key ∈ popped then none else entries.lookup key
  stops : later.keys.length < max ∨ left = []

theorem evictWhileFull_spec (max : ℕ) (queue : List String) (entries : Entries Value) :
    ∃ popped, Evicted max entries queue (evictWhileFull max entries queue).1
      (evictWhileFull max entries queue).2 popped := by
  induction queue generalizing entries with
  | nil =>
      rw [evictWhileFull_nil]
      exact ⟨[], rfl, fun _ => by simp, Or.inr rfl⟩
  | cons key rest ih =>
      rw [evictWhileFull_cons]
      split
      · obtain ⟨popped, hqueue, hlookup, hstops⟩ :=
          ih (if key ∈ entries then entries.erase key else entries)
        refine ⟨key :: popped, congrArg (key :: ·) hqueue, fun other => ?_, hstops⟩
        rw [hlookup]
        by_cases hother : other = key
        · subst hother
          have hgone : (if other ∈ entries then entries.erase other else entries).lookup other =
              none := by
            split
            · exact AList.lookup_erase ..
            · rename_i hkey
              exact AList.lookup_eq_none.mpr hkey
          simp [hgone]
        · have hsame : (if key ∈ entries then entries.erase key else entries).lookup other =
              entries.lookup other := by
            split
            · exact AList.lookup_erase_ne hother
            · rfl
          simp [hother, hsame]
      · rename_i hfull
        exact ⟨[], rfl, fun _ => by simp, Or.inl (Nat.lt_of_not_le hfull)⟩

/-! ## Upserts -/

/-- **What an upsert does**: the key gets its entry, `popped` is evicted, and a key that was not
stored goes to the back of the queue. -/
structure Upserted (key : String) (entry : TableEntry Value) (table next : Table Value)
    (popped left : List String) : Prop where
  max_eq : next.max = table.max
  ttl_eq : next.defaultTtl = table.defaultTtl
  queue_eq : table.insertionOrder = popped ++ left
  popped_eq : key ∈ table.entries → popped = []
  next_eq : next.insertionOrder = if key ∈ table.entries then left else left ++ [key]
  lookup_key : next.entries.lookup key = some entry
  lookup_other : ∀ other, other ≠ key → next.entries.lookup other =
    if other ∈ popped then none else table.entries.lookup other

theorem keys_length_insert (entries : Entries Value) (key : String) (entry : TableEntry Value) :
    (entries.insert key entry).keys.length =
      if key ∈ entries then entries.keys.length else entries.keys.length + 1 := by
  rw [AList.keys_insert, List.length_cons]
  split
  · rename_i hkey
    have hpos : 0 < entries.keys.length := List.length_pos_of_mem hkey
    rw [List.length_erase_of_mem hkey]
    omega
  · rename_i hkey
    rw [List.erase_of_not_mem hkey]

theorem upsert_spec {m : ℕ} (hm : 1 ≤ m) {table : Table Value} (hmax : table.max = some m)
    (hqueued : ∀ key ∈ table.entries, key ∈ table.insertionOrder)
    (hsize : table.entries.keys.length ≤ m) (now : ℕ) (key : String) (value : Value)
    (expire : Option ℕ) :
    (∃ popped left, Upserted key ⟨value, expire.map (now + ·)⟩ table
      (upsert now key value expire table) popped left) ∧
      (upsert now key value expire table).entries.keys.length ≤ m := by
  unfold upsert
  dsimp only
  by_cases hkey : key ∈ table.entries
  · rw [if_pos hkey]
    refine ⟨⟨[], table.insertionOrder, rfl, rfl, rfl, fun _ => rfl, (if_pos hkey).symm,
      AList.lookup_insert _, fun other hother => ?_⟩, ?_⟩
    · simp [AList.lookup_insert_ne hother]
    · rw [keys_length_insert, if_pos hkey]
      exact hsize
  · rw [if_neg hkey, hmax]
    dsimp only
    obtain ⟨popped, hqueue, hlookup, hstops⟩ :=
      evictWhileFull_spec m table.insertionOrder table.entries
    have hmem : ∀ other ∈ (evictWhileFull m table.entries table.insertionOrder).1,
        other ∉ popped ∧ other ∈ table.entries := by
      intro other hother
      rw [← AList.lookup_isSome, hlookup] at hother
      split at hother
      · cases hother
      · exact ⟨by assumption, AList.lookup_isSome.mp hother⟩
    have hnew : key ∉ (evictWhileFull m table.entries table.insertionOrder).1 :=
      fun h => hkey (hmem key h).2
    refine ⟨⟨popped, (evictWhileFull m table.entries table.insertionOrder).2, hmax.symm, rfl,
      hqueue, fun h => absurd h hkey, (if_neg hkey).symm, AList.lookup_insert _,
      fun other hother => ?_⟩, ?_⟩
    · rw [AList.lookup_insert_ne hother, hlookup]
    · rw [keys_length_insert, if_neg hnew]
      rcases hstops with hroom | hempty
      · omega
      · -- nothing is queued any more, so nothing is stored
        have hnone : (evictWhileFull m table.entries table.insertionOrder).1.keys = [] := by
          refine List.eq_nil_iff_forall_not_mem.mpr fun other hother => ?_
          obtain ⟨hpopped, hstored⟩ := hmem other hother
          have hplace := hqueued other hstored
          rw [hqueue, hempty, List.append_nil] at hplace
          exact hpopped hplace
        rw [hnone]
        exact hm

/-! ## Runs -/

/-- Whether a key is stored and has not expired. -/
def Table.live (table : Table Value) (now : ℕ) (key : String) : Prop :=
  ∃ entry ∈ table.entries.lookup key, ¬entry.expired now

instance (table : Table Value) (now : ℕ) (key : String) : Decidable (table.live now key) :=
  match h : table.entries.lookup key with
  | none => isFalse (by simp [Table.live, h])
  | some entry => decidable_of_iff (¬entry.expired now) (by simp [Table.live, h])

/-- An operation on a table, at a time. -/
inductive TableOp (Value : Type*) where
  | upsert (now : ℕ) (key : String) (value : Value) (expire : Option ℕ)
  | upsertWithDefault (now : ℕ) (key : String) (value : Value)
  | delete (key : String)
  | lookup (now : ℕ) (key : String)

/-- A table and what has happened to it: the clock, the latest upsert of each key that has not
been deleted or evicted since, and when its current incarnation was inserted. -/
structure Tracked (Value : Type*) where
  table : Table Value
  now : ℕ
  /-- The number of operations so far. -/
  count : ℕ
  latest : String → Option (TableEntry Value)
  born : String → ℕ

namespace Tracked

/-- A new table, and nothing upserted yet. -/
def start (m : ℕ) (ttl : Option ℕ) : Tracked Value :=
  ⟨Table.new (some m) ttl, 0, 0, fun _ => none, fun _ => 0⟩

/-- The records of an upsert that made `next` of the table. -/
def put (now : ℕ) (key : String) (entry : TableEntry Value) (next : Table Value)
    (tracked : Tracked Value) : Tracked Value where
  table := next
  now := now
  count := tracked.count + 1
  latest other :=
    if other = key then some entry
    else if other ∈ tracked.table.entries ∧ other ∉ next.entries then none
    else tracked.latest other
  born := if tracked.table.live now key then tracked.born
    else Function.update tracked.born key tracked.count

/-- One operation; the clock does not go back. -/
def step (null : Value) (tracked : Tracked Value) : TableOp Value → Option (Tracked Value)
  | .upsert now key value expire =>
      if tracked.now ≤ now then
        some (tracked.put now key ⟨value, expire.map (now + ·)⟩
          (upsert now key value expire tracked.table))
      else none
  | .upsertWithDefault now key value =>
      if tracked.now ≤ now then
        some (tracked.put now key ⟨value, tracked.table.defaultTtl.map (now + ·)⟩
          (upsertWithDefault now key value tracked.table))
      else none
  | .delete key =>
      some { tracked with
        table := delete key tracked.table
        count := tracked.count + 1
        latest := Function.update tracked.latest key none }
  | .lookup now key =>
      if tracked.now ≤ now then
        some { tracked with
          table := (lookup null now key tracked.table).2
          now := now
          count := tracked.count + 1 }
      else none

/-- The key of an upsert is live, or it has no place in the queue from an earlier incarnation. -/
def Unqueued (tracked : Tracked Value) : TableOp Value → Prop
  | .upsert now key _ _ | .upsertWithDefault now key _ =>
      tracked.table.live now key ∨ key ∉ tracked.table.insertionOrder
  | _ => True

/-- The invariant of every run. -/
structure Inv (m : ℕ) (tracked : Tracked Value) : Prop where
  max_eq : tracked.table.max = some m
  stored_latest : ∀ {key entry}, tracked.table.entries.lookup key = some entry →
    tracked.latest key = some entry
  latest_stored : ∀ {key entry}, tracked.latest key = some entry →
    tracked.table.entries.lookup key = some entry ∨ entry.expired tracked.now
  stored_queued : ∀ key ∈ tracked.table.entries, key ∈ tracked.table.insertionOrder
  size_le : tracked.table.entries.keys.length ≤ m

/-- The queue is in the order in which the current incarnations were inserted. -/
structure Ordered (tracked : Tracked Value) : Prop where
  born_lt : ∀ key ∈ tracked.table.insertionOrder, tracked.born key < tracked.count
  increasing : tracked.table.insertionOrder.Pairwise fun a b => tracked.born a < tracked.born b

theorem inv_start (m : ℕ) (ttl : Option ℕ) : (start m ttl : Tracked Value).Inv m where
  max_eq := rfl
  stored_latest := fun h => by simp [start, Table.new] at h
  latest_stored := fun h => by simp [start] at h
  stored_queued := fun _ h => absurd h (AList.notMem_empty _)
  size_le := Nat.zero_le m

theorem ordered_start (m : ℕ) (ttl : Option ℕ) : (start m ttl : Tracked Value).Ordered where
  born_lt := fun _ h => absurd h List.not_mem_nil
  increasing := List.Pairwise.nil

variable {m : ℕ} {tracked : Tracked Value}

theorem inv_put (h : tracked.Inv m) {now : ℕ} (hnow : tracked.now ≤ now) {key : String}
    {entry : TableEntry Value} {next : Table Value} {popped left : List String}
    (hnext : Upserted key entry tracked.table next popped left)
    (hsize : next.entries.keys.length ≤ m) : (tracked.put now key entry next).Inv m where
  max_eq := hnext.max_eq.trans h.max_eq
  stored_latest := by
    intro other stored hstored
    simp only [put] at hstored ⊢
    by_cases hother : other = key
    · subst hother
      rw [hnext.lookup_key] at hstored
      rw [if_pos rfl, hstored]
    · have hin : other ∈ next.entries := by
        rw [← AList.lookup_isSome, hstored]
        rfl
      rw [if_neg hother, if_neg fun hgone => hgone.2 hin]
      rw [hnext.lookup_other other hother] at hstored
      -- a key that was there keeps its place in the order, a new one comes last
      split at hstored
      · cases hstored
      · exact h.stored_latest hstored
  latest_stored := by
    intro other latest hlatest
    simp only [put] at hlatest ⊢
    by_cases hother : other = key
    · subst hother
      rw [if_pos rfl] at hlatest
      exact Or.inl (hnext.lookup_key.trans hlatest)
    · rw [if_neg hother] at hlatest
      split at hlatest
      · cases hlatest
      · rename_i hstays
        -- the latest value is stored, or has expired, which stays so as time goes on
        rcases h.latest_stored hlatest with hstored | hexpired
        · refine Or.inl ?_
          have hin : other ∈ next.entries := by
            by_contra hnot
            refine hstays ⟨?_, hnot⟩
            rw [← AList.lookup_isSome, hstored]
            rfl
          have hlookup := hnext.lookup_other other hother
          split at hlookup
          · rw [← AList.lookup_isSome, hlookup] at hin
            cases hin
          · rw [hlookup, hstored]
        · exact Or.inr (hexpired.mono hnow)
  stored_queued := by
    intro other hother
    simp only [put] at hother ⊢
    rw [hnext.next_eq]
    by_cases heq : other = key
    · subst heq
      split
      · rename_i hkey
        have hplace := h.stored_queued other hkey
        rwa [hnext.queue_eq, hnext.popped_eq hkey] at hplace
      · exact List.mem_append_right _ (List.mem_singleton_self other)
    · rw [← AList.lookup_isSome, hnext.lookup_other other heq] at hother
      split at hother
      · cases hother
      · rename_i hpopped
        have hplace := h.stored_queued other (AList.lookup_isSome.mp hother)
        rw [hnext.queue_eq] at hplace
        have hleft := (List.mem_append.mp hplace).resolve_left hpopped
        split
        · exact hleft
        · exact List.mem_append_left _ hleft
  size_le := hsize

/-- Upserting a live key leaves the queue alone; any other key goes to the back of a queue that
does not hold it, with the latest birth. -/
theorem ordered_put (h : tracked.Ordered) {now : ℕ} {key : String} {entry : TableEntry Value}
    {next : Table Value} {popped left : List String}
    (hnext : Upserted key entry tracked.table next popped left)
    (hqueued : ∀ key ∈ tracked.table.entries, key ∈ tracked.table.insertionOrder)
    (hguard : tracked.table.live now key ∨ key ∉ tracked.table.insertionOrder) :
    (tracked.put now key entry next).Ordered := by
  have hleft : left.Sublist tracked.table.insertionOrder := by
    rw [hnext.queue_eq]
    exact List.sublist_append_right popped left
  by_cases hlive : tracked.table.live now key
  · have hkey : key ∈ tracked.table.entries := by
      obtain ⟨stored, hstored, -⟩ := hlive
      rw [← AList.lookup_isSome, hstored]
      rfl
    refine ⟨fun other hother => ?_, ?_⟩
    · simp only [put, if_pos hlive, hnext.next_eq, if_pos hkey] at hother ⊢
      exact Nat.lt_succ_of_lt (h.born_lt other (hleft.subset hother))
    · simp only [put, if_pos hlive, hnext.next_eq, if_pos hkey]
      exact h.increasing.sublist hleft
  · have hnew := hguard.resolve_left hlive
    have hkey : key ∉ tracked.table.entries := fun hkey => hnew (hqueued key hkey)
    have hborn : ∀ other ∈ left, Function.update tracked.born key tracked.count other =
        tracked.born other := by
      intro other hother
      refine Function.update_of_ne ?_ _ _
      rintro rfl
      exact hnew (hleft.subset hother)
    refine ⟨fun other hother => ?_, ?_⟩
    · simp only [put, if_neg hlive, hnext.next_eq, if_neg hkey] at hother ⊢
      rcases List.mem_append.mp hother with hother | hother
      · rw [hborn other hother]
        exact Nat.lt_succ_of_lt (h.born_lt other (hleft.subset hother))
      · rw [List.mem_singleton.mp hother, Function.update_self]
        exact Nat.lt_succ_self _
    · simp only [put, if_neg hlive, hnext.next_eq, if_neg hkey]
      refine List.pairwise_append.mpr ⟨?_, List.pairwise_singleton _ _, ?_⟩
      · refine (h.increasing.sublist hleft).imp_of_mem fun ha hb hlt => ?_
        rwa [hborn _ ha, hborn _ hb]
      · intro other hother last hlast
        rw [List.mem_singleton.mp hlast, hborn other hother, Function.update_self]
        exact h.born_lt other (hleft.subset hother)

/-- Taking a key out of the table, by deletion or because it has expired. -/
theorem inv_erase (h : tracked.Inv m) (key : String) {now : ℕ} (hnow : tracked.now ≤ now)
    (latest : String → Option (TableEntry Value))
    (hlatest : ∀ other, other ≠ key → latest other = tracked.latest other)
    (hkey : ∀ entry, latest key = some entry → entry.expired now) :
    Inv m { tracked with
      table := { tracked.table with entries := tracked.table.entries.erase key }
      now := now
      count := tracked.count + 1
      latest := latest } where
  max_eq := h.max_eq
  stored_latest := by
    intro other entry hstored
    by_cases hother : other = key
    · subst hother
      simp at hstored
    · rw [AList.lookup_erase_ne hother] at hstored
      exact (hlatest other hother).trans (h.stored_latest hstored)
  latest_stored := by
    intro other entry hentry
    by_cases hother : other = key
    · subst hother
      exact Or.inr (hkey entry hentry)
    · dsimp only at hentry ⊢
      rw [hlatest other hother] at hentry
      rw [AList.lookup_erase_ne hother]
      exact (h.latest_stored hentry).imp_right fun hexpired => hexpired.mono hnow
  stored_queued := fun other hother => h.stored_queued other (AList.mem_erase.mp hother).2
  size_le := by
    dsimp only
    rw [AList.keys_erase]
    exact (List.length_erase_le).trans h.size_le

theorem step_inv (hm : 1 ≤ m) {null : Value} (h : tracked.Inv m) {op : TableOp Value}
    {next : Tracked Value} (hstep : tracked.step null op = some next) : next.Inv m := by
  cases op with
  | upsert now key value expire =>
      rw [step] at hstep
      split at hstep
      · rename_i hnow
        injection hstep with hstep
        subst hstep
        obtain ⟨⟨popped, left, hnext⟩, hsize⟩ :=
          upsert_spec hm h.max_eq h.stored_queued h.size_le now key value expire
        exact inv_put h hnow hnext hsize
      · cases hstep
  | upsertWithDefault now key value =>
      rw [step] at hstep
      split at hstep
      · rename_i hnow
        injection hstep with hstep
        subst hstep
        obtain ⟨⟨popped, left, hnext⟩, hsize⟩ :=
          upsert_spec hm h.max_eq h.stored_queued h.size_le now key value tracked.table.defaultTtl
        exact inv_put h hnow hnext hsize
      · cases hstep
  | delete key =>
      injection hstep with hstep
      subst hstep
      refine inv_erase h key le_rfl _ (fun other hother => Function.update_of_ne hother _ _) ?_
      intro entry hentry
      rw [Function.update_self] at hentry
      cases hentry
  | lookup now key =>
      rw [step] at hstep
      split at hstep
      · rename_i hnow
        injection hstep with hstep
        subst hstep
        have hlater : ∀ {key entry}, tracked.latest key = some entry →
            tracked.table.entries.lookup key = some entry ∨ entry.expired now :=
          fun hlatest => (h.latest_stored hlatest).imp_right fun hexpired => hexpired.mono hnow
        unfold lookup lookupRead
        -- a lookup may find that the entry has expired, and removes it
        cases hstored : tracked.table.entries.lookup key with
        | none => exact { h with latest_stored := hlater }
        | some entry =>
            dsimp only
            by_cases hexpired : entry.expired now
            · rw [if_pos hexpired]
              refine inv_erase h key hnow _ (fun _ _ => rfl) fun latest hlatest => ?_
              rw [h.stored_latest hstored] at hlatest
              injection hlatest with hlatest
              exact hlatest ▸ hexpired
            · rw [if_neg hexpired]
              exact { h with latest_stored := hlater }
      · cases hstep

/-- Operations that leave queue and births alone keep the order. -/
theorem Ordered.of_same (h : tracked.Ordered) {next : Tracked Value}
    (hqueue : next.table.insertionOrder = tracked.table.insertionOrder)
    (hborn : next.born = tracked.born) (hcount : tracked.count ≤ next.count) : next.Ordered where
  born_lt := by
    rw [hqueue, hborn]
    exact fun key hkey => (h.born_lt key hkey).trans_le hcount
  increasing := by
    rw [hqueue, hborn]
    exact h.increasing

theorem insertionOrder_lookup (null : Value) (now : ℕ) (key : String) (table : Table Value) :
    (lookup null now key table).2.insertionOrder = table.insertionOrder := by
  unfold lookup
  cases lookupRead now key table <;> rfl

theorem step_ordered (hm : 1 ≤ m) {null : Value} (hinv : tracked.Inv m) (h : tracked.Ordered)
    {op : TableOp Value} {next : Tracked Value} (hguard : tracked.Unqueued op)
    (hstep : tracked.step null op = some next) : next.Ordered := by
  cases op with
  | upsert now key value expire =>
      rw [step] at hstep
      split at hstep
      · injection hstep with hstep
        subst hstep
        obtain ⟨⟨popped, left, hnext⟩, -⟩ :=
          upsert_spec hm hinv.max_eq hinv.stored_queued hinv.size_le now key value expire
        exact ordered_put h hnext hinv.stored_queued hguard
      · cases hstep
  | upsertWithDefault now key value =>
      rw [step] at hstep
      split at hstep
      · injection hstep with hstep
        subst hstep
        obtain ⟨⟨popped, left, hnext⟩, -⟩ := upsert_spec hm hinv.max_eq hinv.stored_queued
          hinv.size_le now key value tracked.table.defaultTtl
        exact ordered_put h hnext hinv.stored_queued hguard
      · cases hstep
  | delete key =>
      injection hstep with hstep
      subst hstep
      exact h.of_same rfl rfl (Nat.le_succ _)
  | lookup now key =>
      rw [step] at hstep
      split at hstep
      · injection hstep with hstep
        subst hstep
        exact h.of_same (insertionOrder_lookup null now key tracked.table) rfl (Nat.le_succ _)
      · cases hstep

/-! ## What a run guarantees -/

/-- The answer of a lookup: the latest upsert, unless it has expired. -/
theorem Inv.lookup_eq (h : tracked.Inv m) (null : Value) {now : ℕ} (hnow : tracked.now ≤ now)
    (key : String) : (lookup null now key tracked.table).1 =
      match tracked.latest key with
      | some entry => if entry.expired now then null else entry.value
      | none => null := by
  unfold lookup lookupRead
  cases hstored : tracked.table.entries.lookup key with
  | some entry =>
      rw [h.stored_latest hstored]
      dsimp only
      by_cases hexpired : entry.expired now
      · rw [if_pos hexpired, if_pos hexpired]
      · rw [if_neg hexpired, if_neg hexpired]
  | none =>
      cases hlatest : tracked.latest key with
      | none => rfl
      | some entry =>
          rcases h.latest_stored hlatest with hsome | hexpired
          · rw [hstored] at hsome
            cases hsome
          · exact (if_pos (hexpired.mono hnow)).symm

/-- Eviction is in the order of insertion, and only a new key evicts. -/
theorem Ordered.evicts_oldest (hm : 1 ≤ m) (hinv : tracked.Inv m) (h : tracked.Ordered)
    (now : ℕ) (key : String) (value : Value) (expire : Option ℕ) {old : String}
    (hold : old ∈ tracked.table.entries)
    (hgone : old ∉ (upsert now key value expire tracked.table).entries) :
    key ∉ tracked.table.entries ∧
      ∀ kept ∈ (upsert now key value expire tracked.table).entries, kept ≠ key →
        tracked.born old < tracked.born kept := by
  obtain ⟨⟨popped, left, hnext⟩, -⟩ :=
    upsert_spec hm hinv.max_eq hinv.stored_queued hinv.size_le now key value expire
  have hstored : ∀ other, other ≠ key →
      (other ∈ (upsert now key value expire tracked.table).entries ↔
        other ∉ popped ∧ other ∈ tracked.table.entries) := by
    intro other hother
    rw [← AList.lookup_isSome, hnext.lookup_other other hother, ← AList.lookup_isSome]
    by_cases hpopped : other ∈ popped <;> simp [hpopped]
  have holdKey : old ≠ key := by
    rintro rfl
    refine hgone ?_
    rw [← AList.lookup_isSome, hnext.lookup_key]
    rfl
  have hpopped : old ∈ popped := by
    by_contra hnot
    exact hgone ((hstored old holdKey).mpr ⟨hnot, hold⟩)
  refine ⟨fun hkey => ?_, fun kept hkept hne => ?_⟩
  · rw [hnext.popped_eq hkey] at hpopped
    cases hpopped
  · obtain ⟨hleft, hin⟩ := (hstored kept hne).mp hkept
    have hplace := hinv.stored_queued kept hin
    have hincreasing := h.increasing
    rw [hnext.queue_eq] at hplace hincreasing
    exact (List.pairwise_append.mp hincreasing).2.2 old hpopped kept
      ((List.mem_append.mp hplace).resolve_left hleft)

/-- A queue in order has one place for a key. -/
theorem Ordered.queue_length_le (h : tracked.Ordered) :
    tracked.table.insertionOrder.length ≤ tracked.table.entries.keys.length +
      (tracked.table.insertionOrder.filter (· ∉ tracked.table.entries)).dedup.length := by
  have hnodup : tracked.table.insertionOrder.Nodup :=
    h.increasing.imp fun hlt heq => absurd (heq ▸ hlt) (Nat.lt_irrefl _)
  have hstored : (tracked.table.insertionOrder.filter (· ∈ tracked.table.entries)).length ≤
      tracked.table.entries.keys.length := by
    refine (hnodup.filter _).length_le_of_subset fun key hkey => ?_
    have hin := (List.mem_filter.mp hkey).2
    rw [decide_eq_true_eq] at hin
    exact hin
  rw [(hnodup.filter _).dedup]
  have hsplit := List.length_eq_length_filter_add (l := tracked.table.insertionOrder)
    (· ∈ tracked.table.entries)
  simp only [decide_not] at hsplit ⊢
  omega

/-- **A table is an ordered bounded map** in every run that inserts no key while an old place of
it is queued: a lookup answers with the latest upsert unless it has expired, been deleted or
been evicted; an upsert evicts the entries inserted earliest, and only for a new key; there are
never more than `m` entries; and the queue holds at most one place for each stored key and one
for each removed key. -/
theorem ordered_bounded_map (hm : 1 ≤ m) (ttl : Option ℕ) (null : Value)
    (h : Reached (fun s op s' => s.step null op = some s') Unqueued (start m ttl) tracked) :
    (∀ key now, tracked.now ≤ now → (lookup null now key tracked.table).1 =
      match tracked.latest key with
      | some entry => if entry.expired now then null else entry.value
      | none => null) ∧
    (∀ now key value expire, ∀ old ∈ tracked.table.entries,
      old ∉ (upsert now key value expire tracked.table).entries →
      key ∉ tracked.table.entries ∧
        ∀ kept ∈ (upsert now key value expire tracked.table).entries, kept ≠ key →
          tracked.born old < tracked.born kept) ∧
    tracked.table.entries.keys.length ≤ m ∧
    tracked.table.insertionOrder.length ≤ tracked.table.entries.keys.length +
      (tracked.table.insertionOrder.filter (· ∉ tracked.table.entries)).dedup.length := by
  obtain ⟨hinv, hordered⟩ := h.invariant (fun s => s.Inv m ∧ s.Ordered)
    ⟨inv_start m ttl, ordered_start m ttl⟩ fun s op s' hs hguard hstep =>
      ⟨step_inv hm hs.1 hstep, step_ordered hm hs.1 hs.2 hguard hstep⟩
  exact ⟨fun key now hnow => hinv.lookup_eq null hnow key,
    fun now key value expire old hold hgone =>
      hordered.evicts_oldest hm hinv now key value expire hold hgone,
    hinv.size_le, hordered.queue_length_le⟩

/-! ## A stale place in the queue -/

section Stale

/-- With room for one more entry nothing is evicted. -/
theorem upsert_of_room {m : ℕ} {table : Table Value} (hmax : table.max = some m)
    (hroom : table.entries.keys.length < m) {key : String} (hkey : key ∉ table.entries) (now : ℕ)
    (value : Value) (expire : Option ℕ) :
    upsert now key value expire table = { table with
      entries := table.entries.insert key ⟨value, expire.map (now + ·)⟩
      insertionOrder := table.insertionOrder ++ [key] } := by
  have hstop : evictWhileFull m table.entries table.insertionOrder =
      (table.entries, table.insertionOrder) := by
    rw [evictWhileFull, dif_neg fun h => absurd h.1 (Nat.not_le_of_lt hroom)]
  unfold upsert
  simp only [hmax, if_neg hkey, hstop]

theorem step_upsert {null : Value} {now : ℕ} {key : String} {value : Value} {expire : Option ℕ}
    {next : Table Value} (hnow : tracked.now ≤ now)
    (hnext : upsert now key value expire tracked.table = next) :
    tracked.step null (.upsert now key value expire) =
      some (tracked.put now key ⟨value, expire.map (now + ·)⟩ next) := by
  rw [step, if_pos hnow, hnext]

/-- A table with room for two: with `a`, with `a` and `b`, and after `a` has been deleted and
inserted again. -/
def oneKey : Table ℕ :=
  ⟨AList.insert "a" ⟨1, none⟩ ∅, ["a"], some 2, none⟩

/-- The table after a second key. -/
def twoKeys : Table ℕ :=
  ⟨oneKey.entries.insert "b" ⟨2, none⟩, ["a", "b"], some 2, none⟩

/-- A key is deleted and comes again, its old place still in the order. -/
def reinserted : Table ℕ :=
  ⟨(twoKeys.entries.erase "a").insert "a" ⟨3, none⟩, ["a", "b", "a"], some 2, none⟩

/-- The run that leads to `twoKeys`. -/
def twoKeysRun : Tracked ℕ :=
  ((start 2 none).put 0 "a" ⟨1, none⟩ oneKey).put 0 "b" ⟨2, none⟩ twoKeys

theorem reached_twoKeysRun {guard : Tracked ℕ → TableOp ℕ → Prop}
    (hguard : ∀ tracked op, tracked.Unqueued op → guard tracked op) :
    Reached (fun s op s' => s.step 0 op = some s') guard (start 2 none) twoKeysRun := by
  have h₁ : upsert 0 "a" 1 none (Table.new (some 2) none) = oneKey :=
    upsert_of_room rfl (by decide) (AList.notMem_empty _) 0 1 none
  have h₂ : upsert 0 "b" 2 none oneKey = twoKeys :=
    upsert_of_room rfl (by decide) (by decide) 0 2 none
  have hstart : Reached (fun s op s' => Tracked.step 0 s op = some s') guard
      (start 2 none) (start 2 none) := .start
  have hfirst := hstart.next (hguard (start 2 none) (.upsert 0 "a" 1 none)
    (Or.inr List.not_mem_nil)) (step_upsert le_rfl h₁)
  exact hfirst.next (hguard _ (.upsert 0 "b" 2 none) (Or.inr (by decide)))
    (step_upsert le_rfl h₂)

theorem ordered_bounded_map_twoKeys :
    (lookup 0 0 "a" twoKeysRun.table).1 = 1 ∧ twoKeysRun.table.entries.keys.length ≤ 2 := by
  obtain ⟨hlookup, -, hsize, -⟩ := ordered_bounded_map (m := 2) (by decide) none 0
    (reached_twoKeysRun fun _ _ hguard => hguard)
  exact ⟨(hlookup "a" 0 le_rfl).trans (by decide), hsize⟩

/-- `a`, `b`, delete `a`, `a` again: the next new key evicts `a`, although `b` was inserted
earlier. -/
theorem evicts_later_key :
    ∃ tracked : Tracked ℕ,
      Reached (fun s op s' => s.step 0 op = some s') (fun _ _ => True) (start 2 none) tracked ∧
      ∃ old ∈ tracked.table.entries, old ∉ (upsert 0 "c" 4 none tracked.table).entries ∧
        ∃ kept ∈ (upsert 0 "c" 4 none tracked.table).entries, kept ≠ "c" ∧
          ¬tracked.born old < tracked.born kept := by
  have h₁ : upsert 0 "a" 3 none (delete "a" twoKeys) = reinserted :=
    upsert_of_room rfl (by decide) (by decide) 0 3 none
  have hevict : evictWhileFull 2 reinserted.entries reinserted.insertionOrder =
      (reinserted.entries.erase "a", ["b", "a"]) := by
    rw [reinserted, evictWhileFull_cons, if_pos (by decide), if_pos (by decide),
      evictWhileFull_cons, if_neg (by decide)]
  have h₂ : (upsert 0 "c" 4 none reinserted).entries =
      (reinserted.entries.erase "a").insert "c" ⟨4, none⟩ := by
    have hnew : "c" ∉ reinserted.entries := by decide
    have hmax : reinserted.max = some 2 := rfl
    unfold upsert
    simp only [if_neg hnew, hmax, hevict]
    rfl
  have htwo : Reached (fun s op s' => Tracked.step 0 s op = some s') (fun _ _ => True)
      (start 2 none) twoKeysRun := reached_twoKeysRun fun _ _ _ => trivial
  have hdeleted := htwo.next (m := .delete "a") trivial rfl
  have hreached := hdeleted.next trivial (step_upsert le_rfl h₁)
  refine ⟨_, hreached, "a", by decide, ?_, "b", ?_, by decide, by decide⟩
  · show "a" ∉ (upsert 0 "c" 4 none reinserted).entries
    rw [h₂]
    decide
  · show "b" ∈ (upsert 0 "c" 4 none reinserted).entries
    rw [h₂]
    decide

/-- Inserting and deleting one key over and over makes the queue as long as one likes. -/
theorem queue_unbounded (n : ℕ) :
    ∃ tracked : Tracked ℕ,
      Reached (fun s op s' => s.step 0 op = some s') (fun _ _ => True) (start 2 none) tracked ∧
      tracked.table = ⟨∅, List.replicate n "a", some 2, none⟩ ∧ tracked.now = 0 := by
  induction n with
  | zero => exact ⟨start 2 none, .start, rfl, rfl⟩
  | succ n ih =>
      obtain ⟨tracked, hreached, htable, hnow⟩ := ih
      have hupsert : upsert 0 "a" 1 none tracked.table =
          ⟨AList.insert "a" ⟨1, none⟩ ∅, List.replicate n "a" ++ ["a"], some 2, none⟩ := by
        rw [htable]
        exact upsert_of_room rfl (Nat.zero_lt_two) (AList.notMem_empty _) 0 1 none
      have hinserted := hreached.next trivial (step_upsert hnow.le hupsert)
      refine ⟨_, hinserted.next (m := .delete "a") trivial rfl, ?_, rfl⟩
      rw [List.replicate_succ']
      rfl

end Stale

end Tracked

end Limpid.Tables
