import Mathlib.Data.List.Dedup
import Limpid.Entries

/-!
# Tables that give out slots

A table of entries that is built while the names of its entries come in, as often as they like:
the first time a name comes its entry goes to the end of the table, and the name keeps the slot it
got.  A map from names to slots stands beside the entries so that they are not searched.

That the map and the entries agree is a field of `SlotTable`, so a table is determined by its
names.  `firstUses` are the names that a list of uses leaves in an empty table: each one that
occurs, once, in the order of its first use.
-/

namespace Limpid

/-! ## Computations that may fail -/

section Failing

variable {σ ε α β : Type} {x : StateT σ (Except ε) α} {f : α → StateT σ (Except ε) β} {s : σ}

/-- A sequence that succeeds has succeeded in both parts. -/
theorem exists_of_bind_eq_ok {r : β × σ} (h : (x >>= f) s = .ok r) :
    ∃ a t, x s = .ok (a, t) ∧ f a t = .ok r := by
  cases hx : x s with
  | error e =>
      have hbind : (x >>= f) s = .error e := by
        change (x s >>= fun p => f p.1 p.2) = _
        rw [hx]
        rfl
      rw [hbind] at h
      exact absurd h (by simp)
  | ok p =>
      have hbind : (x >>= f) s = f p.1 p.2 := by
        change (x s >>= fun p => f p.1 p.2) = _
        rw [hx]
        rfl
      exact ⟨p.1, p.2, rfl, hbind ▸ h⟩

theorem bind_eq_of_ok {t : σ} {a : α} (h : x s = .ok (a, t)) : (x >>= f) s = f a t := by
  change (x s >>= fun p => f p.1 p.2) = _
  rw [h]
  rfl

/-- A sequence succeeds when its parts do. -/
theorem exists_bind_eq_ok (hx : ∃ r, x s = .ok r)
    (hf : ∀ a t, x s = .ok (a, t) → ∃ r, f a t = .ok r) : ∃ r, (x >>= f) s = .ok r := by
  obtain ⟨⟨a, t⟩, hr⟩ := hx
  rw [bind_eq_of_ok hr]
  exact hf a t hr

/-- The results of a step for each element, in order. -/
def mapInOrder (step : α → StateT σ (Except ε) β) : List α → StateT σ (Except ε) (List β)
  | [] => pure []
  | a :: rest => do
      let b ← step a
      let bs ← mapInOrder step rest
      return b :: bs

/-- A check of every element: the first failure is the result. -/
def checkAll (check : α → Except ε Unit) : List α → Except ε Unit
  | [] => .ok ()
  | a :: rest => do
      check a
      checkAll check rest

theorem Except.bind_eq_ok_iff {x : Except ε Unit} {y : Except ε β} {b : β} :
    (x >>= fun _ => y) = .ok b ↔ x = .ok () ∧ y = .ok b := by
  cases x with
  | error e => exact ⟨fun h => absurd h (by rintro ⟨⟩), fun h => absurd h.1 (by rintro ⟨⟩)⟩
  | ok u => exact ⟨fun h => ⟨rfl, h⟩, fun h => h.2⟩

theorem checkAll_eq_ok_iff {check : α → Except ε Unit} {items : List α} :
    checkAll check items = .ok () ↔ ∀ a ∈ items, check a = .ok () := by
  induction items with
  | nil => exact ⟨fun _ a ha => absurd ha List.not_mem_nil, fun _ => rfl⟩
  | cons a rest ih => rw [checkAll, Except.bind_eq_ok_iff, ih, List.forall_mem_cons]

/-- A check of one condition. -/
def ensure (condition : Prop) [Decidable condition] (e : ε) : Except ε Unit :=
  if condition then .ok () else .error e

theorem ensure_eq_ok_iff {condition : Prop} [Decidable condition] {e : ε} :
    ensure condition e = .ok () ↔ condition := by
  unfold ensure
  split
  · next h => exact ⟨fun _ => h, fun _ => rfl⟩
  · next h => exact ⟨fun hok => absurd hok (by rintro ⟨⟩), fun hc => absurd hc h⟩

end Failing

/-! ## Names in the order of their first use -/

variable {K E : Type*} [DecidableEq K]

/-- A name that is new comes last. -/
def addName (names : List K) (name : K) : List K :=
  if name ∈ names then names else names ++ [name]

/-- Names that are used, each once. -/
def addNames (names uses : List K) : List K := uses.foldl addName names

/-- The names in the order of their first use. -/
def firstUses (uses : List K) : List K := addNames [] uses

@[simp] theorem addNames_nil (names : List K) : addNames names [] = names := rfl

@[simp] theorem addNames_cons (names : List K) (name : K) (uses : List K) :
    addNames names (name :: uses) = addNames (addName names name) uses := rfl

theorem addNames_append (names first second : List K) :
    addNames names (first ++ second) = addNames (addNames names first) second :=
  List.foldl_append

theorem prefix_addName (names : List K) (name : K) : names <+: addName names name := by
  unfold addName
  split
  · exact List.prefix_rfl
  · exact List.prefix_append names [name]

theorem prefix_addNames (names uses : List K) : names <+: addNames names uses := by
  induction uses generalizing names with
  | nil => exact List.prefix_rfl
  | cons name rest ih => exact (prefix_addName names name).trans (ih _)

theorem mem_addName {names : List K} {name other : K} :
    other ∈ addName names name ↔ other ∈ names ∨ other = name := by
  unfold addName
  split
  · next h => exact ⟨Or.inl, fun hor => hor.elim id fun heq => heq ▸ h⟩
  · simp

theorem mem_addNames {names uses : List K} {name : K} :
    name ∈ addNames names uses ↔ name ∈ names ∨ name ∈ uses := by
  induction uses generalizing names with
  | nil => simp
  | cons first rest ih => rw [addNames_cons, ih, mem_addName, List.mem_cons, or_assoc]

theorem nodup_addName {names : List K} (h : names.Nodup) (name : K) :
    (addName names name).Nodup := by
  unfold addName
  split
  · exact h
  · next hnew =>
    refine List.nodup_append.mpr ⟨h, List.nodup_singleton name, ?_⟩
    rintro a ha b hb rfl
    exact hnew (List.mem_singleton.mp hb ▸ ha)

theorem nodup_addNames {names : List K} (h : names.Nodup) (uses : List K) :
    (addNames names uses).Nodup := by
  induction uses generalizing names with
  | nil => exact h
  | cons name rest ih => exact ih (nodup_addName h name)

theorem mem_firstUses {uses : List K} {name : K} : name ∈ firstUses uses ↔ name ∈ uses := by
  rw [firstUses, mem_addNames]
  simp

theorem nodup_firstUses (uses : List K) : (firstUses uses).Nodup :=
  nodup_addNames List.nodup_nil uses

/-- As many as there are distinct names. -/
theorem length_firstUses (uses : List K) : (firstUses uses).length = uses.dedup.length := by
  have hperm : (firstUses uses).Perm uses.dedup := by
    rw [List.perm_ext_iff_of_nodup (nodup_firstUses uses) (List.nodup_dedup uses)]
    intro name
    rw [mem_firstUses, List.mem_dedup]
  exact hperm.length_eq

/-- What a longer table holds at a slot of a shorter one. -/
theorem getElem?_of_isPrefix {α : Type*} {first second : List α} (h : first <+: second) {i : ℕ}
    {a : α} (hi : first[i]? = some a) : second[i]? = some a := by
  obtain ⟨rest, rfl⟩ := h
  rw [List.getElem?_append_left (List.getElem?_eq_some_iff.mp hi).1, hi]

/-! ## Numbered names -/

/-- The number of a name is its place. -/
theorem lookup_zipIdx {names : List K} (h : names.Nodup) {name : K} {i : ℕ} :
    names.zipIdx.lookup name = some i ↔ names[i]? = some name := by
  have hkeys : Entries.keys names.zipIdx = names := List.zipIdx_map_fst 0 names
  have hnodup : (Entries.keys names.zipIdx).Nodup := hkeys.symm ▸ h
  rw [← List.mk_mem_zipIdx_iff_getElem?]
  constructor
  · intro hlookup
    rw [← Entries.last_of_nodup hnodup] at hlookup
    exact Entries.mem_of_last hlookup
  · intro hmem
    cases hlookup : names.zipIdx.lookup name with
    | none =>
        rw [Entries.lookup_eq_none_iff] at hlookup
        exact absurd (List.mem_map_of_mem (f := Prod.fst) hmem) hlookup
    | some j =>
        rw [← Entries.last_of_nodup hnodup] at hlookup
        have hj := List.mk_mem_zipIdx_iff_getElem?.mp (Entries.mem_of_last hlookup)
        have hi := List.mk_mem_zipIdx_iff_getElem?.mp hmem
        have hlt := (List.getElem?_eq_some_iff.mp hj).1
        exact congrArg some ((List.getElem?_inj hlt h).mp (hj.trans hi.symm))

/-! ## Tables -/

/-- The entry of a name is `make name`. -/
structure SlotTable (make : K → E) where
  entries : List E
  slots : List (K × ℕ)
  entries_eq : entries = (Entries.keys slots).map make
  slots_eq : slots = (Entries.keys slots).zipIdx
  nodup : (Entries.keys slots).Nodup

namespace SlotTable

variable {make : K → E}

/-- A table without slots. -/
def empty : SlotTable make := ⟨[], [], rfl, rfl, List.nodup_nil⟩

/-- The names that have a slot. -/
def names (table : SlotTable make) : List K := Entries.keys table.slots

omit [DecidableEq K] in
theorem length_entries (table : SlotTable make) : table.entries.length = table.names.length := by
  rw [table.entries_eq, List.length_map, names]

/-- A new name, with the next slot. -/
def push (table : SlotTable make) (name : K) (h : name ∉ table.names) : SlotTable make where
  entries := table.entries ++ [make name]
  slots := table.slots ++ [(name, table.entries.length)]
  entries_eq := by
    rw [Entries.keys_append, List.map_append, ← table.entries_eq]
    rfl
  slots_eq := by
    rw [Entries.keys_append, List.zipIdx_append, ← table.slots_eq, table.length_entries]
    simp [names, Entries.keys]
  nodup := by
    rw [Entries.keys_append]
    refine List.nodup_append.mpr ⟨table.nodup, List.nodup_singleton name, ?_⟩
    rintro a ha b hb rfl
    obtain rfl : a = name := List.mem_singleton.mp hb
    exact h ha

/-- The slot of a name, which is given out if it has none; there are `limit` slots. -/
def slot {ε : Type*} (limit : ℕ) (full : ε) (name : K) (table : SlotTable make) :
    Except ε (ℕ × SlotTable make) :=
  match h : table.slots.lookup name with
  | some slot => .ok (slot, table)
  | none =>
      if table.entries.length < limit then
        .ok (table.entries.length, table.push name (Entries.lookup_eq_none_iff.mp h))
      else .error full

variable {ε : Type*} {limit : ℕ} {full : ε} {name : K} {table : SlotTable make}

/-- The slots of a table are the places of the names. -/
theorem lookup_eq_some_iff {i : ℕ} :
    table.slots.lookup name = some i ↔ table.names[i]? = some name := by
  have hslots : table.slots = table.names.zipIdx := table.slots_eq
  rw [hslots]
  exact lookup_zipIdx table.nodup

/-- **What giving out a slot does**: the name is added, and its slot is its place. -/
theorem slot_spec {result : ℕ × SlotTable make}
    (h : table.slot limit full name = .ok result) :
    result.2.names = addName table.names name ∧ result.2.names[result.1]? = some name ∧
      (table.names.length ≤ limit → result.2.names.length ≤ limit) := by
  unfold slot at h
  split at h
  · next i hlookup =>
    obtain rfl := Except.ok.inj h
    have hi := lookup_eq_some_iff.mp hlookup
    exact ⟨(if_pos (List.mem_of_getElem? hi)).symm, hi, id⟩
  · next hlookup =>
    split at h
    · next hroom =>
      obtain rfl := Except.ok.inj h
      have hnew : name ∉ table.names := Entries.lookup_eq_none_iff.mp hlookup
      have hnames : (table.push name hnew).names = table.names ++ [name] :=
        Entries.keys_append _ _
      rw [length_entries] at hroom
      refine ⟨hnames.trans (if_neg hnew).symm, ?_, fun _ => ?_⟩
      · rw [hnames, length_entries]
        exact List.getElem?_concat_length
      · rw [hnames, List.length_append]
        exact hroom
    · exact absurd h (by simp)

/-- A slot is given out when there is room for the names. -/
theorem exists_slot (h : (addName table.names name).length ≤ limit) :
    ∃ result, table.slot limit full name = .ok result := by
  unfold slot
  split
  · exact ⟨_, rfl⟩
  · next hlookup =>
    have hnew : name ∉ table.names := Entries.lookup_eq_none_iff.mp hlookup
    rw [addName, if_neg hnew, List.length_append, List.length_singleton] at h
    have hroom : table.entries.length < limit := by
      rw [length_entries]
      exact h
    rw [if_pos hroom]
    exact ⟨_, rfl⟩

/-- What a table of at most `limit` slots becomes when names come in and slots are given out for
them. -/
structure Grows (limit : ℕ) (table next : SlotTable make) (uses : List K)
    (given : List (K × ℕ)) : Prop where
  names : next.names = addNames table.names uses
  room : table.names.length ≤ limit → next.names.length ≤ limit
  uses : given.map Prod.fst = uses
  slots : ∀ pair ∈ given, next.names[pair.2]? = some pair.1

namespace Grows

variable {next last : SlotTable make} {uses more : List K} {given others : List (K × ℕ)}

theorem refl (table : SlotTable make) : Grows limit table table [] [] where
  names := rfl
  room := id
  uses := rfl
  slots _ h := absurd h List.not_mem_nil

theorem trans (h : Grows limit table next uses given) (hnext : Grows limit next last more others) :
    Grows limit table last (uses ++ more) (given ++ others) where
  names := by rw [addNames_append, ← h.names, hnext.names]
  room htable := hnext.room (h.room htable)
  uses := by rw [List.map_append, h.uses, hnext.uses]
  slots pair hpair := by
    rcases List.mem_append.mp hpair with hpair | hpair
    · -- a slot given out before stays the same
      rw [hnext.names]
      exact getElem?_of_isPrefix (prefix_addNames _ _) (h.slots pair hpair)
    · exact hnext.slots pair hpair

theorem of_slot {result : ℕ × SlotTable make} (h : table.slot limit full name = .ok result) :
    Grows limit table result.2 [name] [(name, result.1)] where
  names := (slot_spec h).1
  room := (slot_spec h).2.2
  uses := rfl
  slots pair hpair := by
    rw [List.mem_singleton.mp hpair]
    exact (slot_spec h).2.1

end Grows

/-- There are slots for the names that come in. -/
def HasRoom (limit : ℕ) (table : SlotTable make) (uses : List K) : Prop :=
  (addNames table.names uses).length ≤ limit

namespace HasRoom

variable {next : SlotTable make} {uses more : List K} {given : List (K × ℕ)}

theorem left (h : HasRoom limit table (uses ++ more)) : HasRoom limit table uses := by
  unfold HasRoom at h ⊢
  rw [addNames_append] at h
  exact Nat.le_trans (prefix_addNames _ _).length_le h

theorem right (h : HasRoom limit table (uses ++ more))
    (hgrows : Grows limit table next uses given) :
    HasRoom limit next more := by
  unfold HasRoom at h ⊢
  rwa [hgrows.names, ← addNames_append]

end HasRoom

end SlotTable

end Limpid
