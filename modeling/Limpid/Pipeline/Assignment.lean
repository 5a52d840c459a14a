import Limpid.Dsl.Negation
import Limpid.Entries
import Limpid.Pipeline.Process
import Limpid.Trie

/-!
# Assignments to a path of the workspace

`set_workspace_path` and `set_object_path` against the way a path is read.  An assignment never
fails; what is read at the path afterwards is the value, a second assignment leaves nothing of the
first, and other paths are read as before, with one exception: a path that shares with the assigned
one a prefix that holds bytes was an error, and is null once the bytes have made room for an object
(`assignment_lens`).
-/

namespace Limpid.Pipeline

open Dsl Eval

/-! ## Entries under a key -/

section Entries

variable {V : Type} {key other : String} {update : Option V → V} {entries : List (String × V)}

/-- The entries of the key are updated. -/
def updateKey (key : String) (update : V → V) (entries : List (String × V)) : List (String × V) :=
  entries.map fun entry => if entry.1 = key then (entry.1, update entry.2) else entry

/-- The entries of the key are updated, or a new entry comes last. -/
def updateEntries (key : String) (update : Option V → V) (entries : List (String × V)) :
    List (String × V) :=
  let updated := updateKey key (fun old => update (some old)) entries
  if entries.any fun entry => entry.1 = key then updated else updated ++ [(key, update none)]

theorem lookup_updateKey (change : V → V) : (updateKey key change entries).lookup other =
    if other = key then (entries.lookup key).map change else entries.lookup other := by
  induction entries with
  | nil => simp [updateKey]
  | cons entry rest ih =>
      rw [updateKey, List.map_cons, Entries.lookup_cons, ← updateKey, ih, Entries.lookup_cons,
        Entries.lookup_cons]
      by_cases hentry : entry.1 = key
      · by_cases hother : other = key <;> simp [hentry, hother]
      · by_cases hother : other = key
        · simp [hentry, hother, Ne.symm hentry]
        · simp [hentry, hother]

theorem any_key_iff : (entries.any fun entry => entry.1 = key) = true ↔
    ∃ old, entries.lookup key = some old := by
  rw [← Option.isSome_iff_exists, ← Option.ne_none_iff_isSome, ne_eq, Entries.lookup_eq_none_iff,
    not_not, Entries.keys, List.mem_map, List.any_eq_true]
  simp

theorem any_updateKey (change : V → V) :
    ((updateKey key change entries).any fun entry => entry.1 = key) =
      entries.any fun entry => entry.1 = key := by
  rw [updateKey, List.any_map]
  congr 1
  funext entry
  by_cases hentry : entry.1 = key <;> simp [hentry]

theorem updateKey_updateKey (first second : V → V) :
    updateKey key second (updateKey key first entries) =
      updateKey key (second ∘ first) entries := by
  rw [updateKey, updateKey, updateKey, List.map_map]
  refine List.map_congr_left fun entry _ => ?_
  by_cases hentry : entry.1 = key <;> simp [hentry]

theorem updateKey_append (change : V → V) (first second : List (String × V)) :
    updateKey key change (first ++ second) =
      updateKey key change first ++ updateKey key change second := List.map_append

theorem lookup_updateEntries_self :
    (updateEntries key update entries).lookup key = some (update (entries.lookup key)) := by
  by_cases hany : (entries.any fun entry => entry.1 = key) = true
  · obtain ⟨old, hold⟩ := any_key_iff.mp hany
    rw [updateEntries, if_pos hany, lookup_updateKey, if_pos rfl, hold]
    rfl
  · have hnone : entries.lookup key = none := by
      rw [← Option.not_isSome_iff_eq_none, Option.isSome_iff_exists]
      exact mt any_key_iff.mpr hany
    rw [updateEntries, if_neg hany, List.lookup_append, lookup_updateKey, if_pos rfl, hnone]
    simp

theorem lookup_updateEntries_ne (h : other ≠ key) :
    (updateEntries key update entries).lookup other = entries.lookup other := by
  rw [updateEntries]
  split
  · rw [lookup_updateKey, if_neg h]
  · rw [List.lookup_append, lookup_updateKey, if_neg h, Entries.lookup_cons, if_neg h,
      List.lookup_nil, Option.or_none]

/-- A second update of the key is an update of what the first has left. -/
theorem updateEntries_updateEntries (second : Option V → V) :
    updateEntries key second (updateEntries key update entries) =
      updateEntries key (fun old => second (some (update old))) entries := by
  by_cases hany : (entries.any fun entry => entry.1 = key) = true
  · have hfirst : updateEntries key update entries =
        updateKey key (fun old => update (some old)) entries := if_pos hany
    rw [hfirst, updateEntries, updateEntries, if_pos hany, any_updateKey, if_pos hany,
      updateKey_updateKey]
    rfl
  · have hfirst : updateEntries key update entries =
        updateKey key (fun old => update (some old)) entries ++ [(key, update none)] :=
      if_neg hany
    have hlast : ((updateKey key (fun old => update (some old)) entries ++
        [(key, update none)]).any fun entry => entry.1 = key) = true := by simp
    have hsecond : updateEntries key (fun old => second (some (update old))) entries =
        updateKey key (fun old => second (some (update (some old)))) entries ++
          [(key, second (some (update none)))] := if_neg hany
    rw [hfirst, hsecond, updateEntries, if_pos hlast, updateKey_append, updateKey_updateKey]
    simp only [updateKey, List.map_cons, List.map_nil, if_pos, Function.comp_def]

end Entries

/-! ## Values -/

section Values

variable {current : Option Value} {v v' : Value} {path : List String}

/-- What is not an object has no entries. -/
def entriesOf : Option Value → List (String × Value)
  | some (.object entries) => entries
  | _ => []

theorem setObjectPath_cons (current : Option Value) (v : Value) (head : String)
    (rest : List String) : setObjectPath current v (head :: rest) =
      .object (updateEntries head (fun old => setObjectPath old v rest) (entriesOf current)) := by
  rw [updateEntries, apply_ite Value.object]
  cases current with
  | none => rfl
  | some value => cases value <;> rfl

theorem resolve_null (path : List String) : resolveWorkspacePath path .null = .ok .null := by
  cases path <;> rfl

/-- **What is assigned is read.** -/
theorem resolve_setObjectPath :
    resolveWorkspacePath path (setObjectPath current v path) = .ok v := by
  induction path generalizing current with
  | nil => rw [setObjectPath, resolveWorkspacePath]
  | cons head rest ih =>
      rw [setObjectPath_cons, resolveWorkspacePath, entry, lookup_updateEntries_self]
      exact ih

/-- **The second assignment is the one that is left.** -/
theorem setObjectPath_setObjectPath :
    setObjectPath (some (setObjectPath current v path)) v' path =
      setObjectPath current v' path := by
  induction path generalizing current with
  | nil => rw [setObjectPath, setObjectPath]
  | cons head rest ih =>
      rw [setObjectPath_cons, setObjectPath_cons, setObjectPath_cons, entriesOf,
        updateEntries_updateEntries]
      simp only [ih]

/-- A prefix that the two paths share holds bytes. -/
def MeetsBytes (path other : List String) (value : Value) : Prop :=
  ∃ shared data, shared <+: path ∧ shared <+: other ∧
    resolveWorkspacePath shared value = .ok (.bytes data)

/-- Where there was nothing, there is nothing but the path. -/
theorem resolve_setObjectPath_none {other : List String} (hapart : Trie.Apart path other) :
    resolveWorkspacePath other (setObjectPath none v path) = .ok .null := by
  induction path generalizing other with
  | nil => exact (Trie.not_apart_nil other hapart).elim
  | cons head rest ih =>
      cases other with
      | nil => exact (Trie.not_apart_nil _ hapart.symm).elim
      | cons k ks =>
          rw [setObjectPath_cons, resolveWorkspacePath, entry]
          by_cases hk : k = head
          · subst hk
            rw [lookup_updateEntries_self]
            exact ih (Trie.apart_cons_cons_iff.mp hapart rfl)
          · rw [lookup_updateEntries_ne hk]
            exact resolve_null ks

theorem setObjectPath_of_entriesOf {head : String} {rest : List String}
    (h : entriesOf current = []) :
    setObjectPath current v (head :: rest) = setObjectPath none v (head :: rest) := by
  rw [setObjectPath_cons, setObjectPath_cons, h]
  rfl

theorem meetsBytes_object_iff {head k : String} {rest ks : List String}
    {entries : List (String × Value)} :
    MeetsBytes (head :: rest) (k :: ks) (.object entries) ↔
      head = k ∧ MeetsBytes rest ks (entry head entries) := by
  constructor
  · rintro ⟨shared, data, hpath, hother, hbytes⟩
    cases shared with
    | nil => exact nomatch hbytes
    | cons first shared =>
        obtain ⟨rfl, hrest⟩ := List.cons_prefix_cons.mp hpath
        obtain ⟨rfl, hks⟩ := List.cons_prefix_cons.mp hother
        exact ⟨rfl, shared, data, hrest, hks, hbytes⟩
  · rintro ⟨rfl, shared, data, hpath, hother, hbytes⟩
    exact ⟨head :: shared, data, List.cons_prefix_cons.mpr ⟨rfl, hpath⟩,
      List.cons_prefix_cons.mpr ⟨rfl, hother⟩, hbytes⟩

/-- Another path is read after an assignment as before, but for bytes that were in the way. -/
structure ReadAfter (path other : List String) (value after : Value) : Prop where
  same : ¬MeetsBytes path other value →
    resolveWorkspacePath other after = resolveWorkspacePath other value
  bytes : MeetsBytes path other value →
    (∃ message, resolveWorkspacePath other value = .error message) ∧
      resolveWorkspacePath other after = .ok .null

theorem readAfter_bytes {data : Bytes} {after : Value} {k : String} {ks : List String}
    (hafter : resolveWorkspacePath (k :: ks) after = .ok .null) :
    ReadAfter path (k :: ks) (.bytes data) after where
  same h := (h ⟨[], data, List.nil_prefix, List.nil_prefix, rfl⟩).elim
  bytes _ := ⟨⟨_, rfl⟩, hafter⟩

theorem readAfter_null {value after : Value} {k : String} {ks : List String}
    (hvalue : ∀ first rest, resolveWorkspacePath (first :: rest) value = .ok .null)
    (hbytes : ∀ data, value ≠ .bytes data)
    (hafter : resolveWorkspacePath (k :: ks) after = .ok .null) :
    ReadAfter path (k :: ks) value after where
  same _ := by rw [hafter, hvalue]
  bytes := by
    rintro ⟨shared, data, -, -, hread⟩
    cases shared with
    | nil => exact (hbytes data (Except.ok.inj hread)).elim
    | cons first rest =>
        rw [hvalue] at hread
        exact nomatch hread

/-- One level of an object: the entry of the key is what is assigned, the others are as before. -/
theorem readAfter_object {head k : String} {rest ks : List String}
    {entries after : List (String × Value)} {updated : Value}
    (hself : after.lookup head = some updated)
    (hother : ∀ k, k ≠ head → after.lookup k = entries.lookup k)
    (hrest : head = k → ReadAfter rest ks ((entries.lookup head).getD .null) updated) :
    ReadAfter (head :: rest) (k :: ks) (.object entries) (.object after) := by
  by_cases hk : head = k
  · subst hk
    have hentry : resolveWorkspacePath (head :: ks) (.object after) =
        resolveWorkspacePath ks updated := by
      rw [resolveWorkspacePath, entry, hself, Option.getD_some]
    refine ⟨fun h => ?_, fun h => ?_⟩
    · rw [hentry]
      exact (hrest rfl).same fun hmeets => h (meetsBytes_object_iff.mpr ⟨rfl, hmeets⟩)
    · rw [hentry]
      exact (hrest rfl).bytes (meetsBytes_object_iff.mp h).2
  · refine ⟨fun _ => ?_, fun h => (hk (meetsBytes_object_iff.mp h).1).elim⟩
    rw [resolveWorkspacePath, resolveWorkspacePath, entry, entry, hother k (Ne.symm hk)]

theorem readAfter_setObjectPath {other : List String} (hapart : Trie.Apart path other) :
    ReadAfter path other (current.getD .null) (setObjectPath current v path) := by
  induction path generalizing other current with
  | nil => exact (Trie.not_apart_nil other hapart).elim
  | cons head rest ih =>
    cases other with
    | nil => exact (Trie.not_apart_nil _ hapart.symm).elim
    | cons k ks =>
      have hnone := resolve_setObjectPath_none (v := v) hapart
      have hempty : entriesOf current = [] →
          resolveWorkspacePath (k :: ks) (setObjectPath current v (head :: rest)) = .ok .null :=
        fun h => by rw [setObjectPath_of_entriesOf h, hnone]
      cases current with
      | none => exact readAfter_null (fun _ _ => rfl) (fun _ h => nomatch h) hnone
      | some value =>
        cases value with
        | object entries =>
            rw [Option.getD_some, setObjectPath_cons]
            exact readAfter_object lookup_updateEntries_self
              (fun _ hne => lookup_updateEntries_ne hne)
              fun hk => ih (Trie.apart_cons_cons_iff.mp hapart hk)
        | bytes data => exact readAfter_bytes (hempty rfl)
        | _ => exact readAfter_null (fun _ _ => rfl) (fun _ h => nomatch h) (hempty rfl)

end Values

/-! ## Workspaces -/

section Workspaces

variable {event : BorrowedEvent} {path other : List String} {v v' : Value}

/-- `resolve_workspace_direct`. -/
def readWorkspace (path : List String) (event : BorrowedEvent) : Except String Value :=
  resolveWorkspacePath path (.object event.workspace)

/-- What an expression reads. -/
theorem resolveIdent_workspace {scope : LocalScope} (hscope : scope.get "workspace" = none) :
    resolveIdent ("workspace" :: path) event scope = readWorkspace path event := by
  cases path with
  | nil => simp only [resolveIdent, hscope]; rfl
  | cons head rest => simp only [resolveIdent, hscope]; rfl

theorem setEntry_eq_insert (key : String) (value : Value) (entries : List (String × Value)) :
    BorrowedEvent.setEntry key value entries = Entries.insert key value entries := by
  induction entries with
  | nil => rfl
  | cons first rest ih => rw [BorrowedEvent.setEntry, Entries.insert, ih]

theorem setWorkspacePath_cons (event : BorrowedEvent) (head : String) (rest : List String)
    (v : Value) : setWorkspacePath event (head :: rest) v =
      event.workspaceSet head (setObjectPath (event.workspaceGet head) v rest) := by
  cases rest <;> rfl

theorem workspaceGet_set (event : BorrowedEvent) (head k : String) (v : Value) :
    (event.workspaceSet head v).workspace.lookup k =
      if k = head then some v else event.workspace.lookup k := by
  rw [BorrowedEvent.workspaceSet, setEntry_eq_insert, Entries.lookup_insert]

theorem workspaceSet_workspaceSet (event : BorrowedEvent) (head : String) :
    (event.workspaceSet head v).workspaceSet head v' = event.workspaceSet head v' := by
  have hentries : ∀ entries : List (String × Value),
      BorrowedEvent.setEntry head v' (BorrowedEvent.setEntry head v entries) =
        BorrowedEvent.setEntry head v' entries := by
    intro entries
    induction entries with
    | nil => simp [BorrowedEvent.setEntry]
    | cons first rest ih =>
        obtain ⟨k, old⟩ := first
        by_cases hk : k = head <;> simp [BorrowedEvent.setEntry, hk, ih]
  simp only [BorrowedEvent.workspaceSet, hentries]

theorem readWorkspace_assigned (event : BorrowedEvent) (hpath : path ≠ []) (v : Value) :
    readWorkspace path (setWorkspacePath event path v) = .ok v := by
  obtain ⟨head, rest, rfl⟩ := List.exists_cons_of_ne_nil hpath
  rw [setWorkspacePath_cons, readWorkspace, resolveWorkspacePath, entry, workspaceGet_set,
    if_pos rfl]
  exact resolve_setObjectPath

theorem setWorkspacePath_twice (event : BorrowedEvent) (path : List String) (v v' : Value) :
    setWorkspacePath (setWorkspacePath event path v) path v' = setWorkspacePath event path v' := by
  cases path with
  | nil => rfl
  | cons head rest =>
      have hget : ∀ value, (event.workspaceSet head value).workspaceGet head = some value :=
        fun value => by rw [BorrowedEvent.workspaceGet, workspaceGet_set, if_pos rfl]
      rw [setWorkspacePath_cons, setWorkspacePath_cons, setWorkspacePath_cons, hget,
        setObjectPath_setObjectPath, workspaceSet_workspaceSet]

theorem readAfter_setWorkspacePath (event : BorrowedEvent) (hapart : Trie.Apart path other) (v : Value) :
    ReadAfter path other (.object event.workspace)
      (.object (setWorkspacePath event path v).workspace) := by
  cases path with
  | nil => exact (Trie.not_apart_nil other hapart).elim
  | cons head rest =>
    cases other with
    | nil => exact (Trie.not_apart_nil _ hapart.symm).elim
    | cons k ks =>
      rw [setWorkspacePath_cons]
      refine readAfter_object ?_ (fun k hk => ?_) fun hk =>
        readAfter_setObjectPath (v := v) (Trie.apart_cons_cons_iff.mp hapart hk)
      · rw [workspaceGet_set, if_pos rfl]
        rfl
      · rw [workspaceGet_set, if_neg hk]

theorem read_eq_iff (event : BorrowedEvent) (hapart : Trie.Apart path other) (v : Value) :
    readWorkspace other (setWorkspacePath event path v) = readWorkspace other event ↔
      ¬MeetsBytes path other (.object event.workspace) := by
  have hafter := readAfter_setWorkspacePath event hapart v
  constructor
  · intro hsame hmeets
    obtain ⟨⟨message, hbefore⟩, hnull⟩ := hafter.bytes hmeets
    have heq := hbefore.symm.trans (hsame.symm.trans hnull)
    exact nomatch heq
  · exact hafter.same

variable {World : Type} {rt : Runtime} {evalIn : Evaluator World}
  {callProcess : String → EdgeSlot → BorrowedEvent → Eval (Machine World) (Option BorrowedEvent)}

/-- A value can always be assigned: the statement fails as its expression does. -/
theorem exec_assign {scope : LocalScope} {e : Expr} {state state' : Machine World}
    {outcome : Except String Value}
    (h : onFst (evalIn event scope e) state = some (outcome, state')) :
    execProcessStatement rt evalIn callProcess event scope (.assign (.workspace path) e) state =
      some (outcome.map fun v => (.continue (setWorkspacePath event path v), scope), state') := by
  rw [execProcessStatement]
  show Eval.bind (onFst (evalIn event scope e)) _ state = _
  rw [Eval.bind, h]
  cases outcome <;> rfl

/-- **Assignments are lenses**, but for bytes that are in the way of another path. -/
theorem assignment_lens (event : BorrowedEvent) {path : List String} (hpath : path ≠ [])
    (v : Value) :
    (∀ scope e (state state' : Machine World) outcome,
      onFst (evalIn event scope e) state = some (outcome, state') →
        execProcessStatement rt evalIn callProcess event scope (.assign (.workspace path) e) state =
          some (outcome.map fun v => (.continue (setWorkspacePath event path v), scope), state')) ∧
    readWorkspace path (setWorkspacePath event path v) = .ok v ∧
    (∀ other, Trie.Apart path other →
      (readWorkspace other (setWorkspacePath event path v) = readWorkspace other event ↔
        ¬MeetsBytes path other (.object event.workspace)) ∧
      (MeetsBytes path other (.object event.workspace) →
        (∃ message, readWorkspace other event = .error message) ∧
          readWorkspace other (setWorkspacePath event path v) = .ok .null)) ∧
    ∀ v', setWorkspacePath (setWorkspacePath event path v) path v' =
      setWorkspacePath event path v' :=
  ⟨fun _ _ _ _ _ h => exec_assign h, readWorkspace_assigned event hpath v,
    fun _ hapart => ⟨read_eq_iff event hapart v, (readAfter_setWorkspacePath event hapart v).bytes⟩,
    setWorkspacePath_twice event path v⟩

/-- A workspace with bytes under a key. -/
def bytesEvent : BorrowedEvent :=
  ⟨1, 0, .v4 .localhost 514, [], [], [("a", .bytes [1])], none⟩

theorem assignment_lens_nested :
    readWorkspace ["a", "b"] (setWorkspacePath bytesEvent ["a", "b"] (.int 5)) = .ok (.int 5) :=
  (@assignment_lens Unit Dsl.binary64 (fun _ _ _ => .bail "") (fun _ _ _ => .bail "") bytesEvent
    ["a", "b"] (List.cons_ne_nil _ _) (.int 5)).2.1

/-- Beside the path, an error has become null. -/
theorem bytes_in_the_way : Trie.Apart ["a", "b"] ["a", "c"] ∧
    ¬readWorkspace ["a", "c"] (setWorkspacePath bytesEvent ["a", "b"] (.int 5)) =
      readWorkspace ["a", "c"] bytesEvent := by
  have hapart : Trie.Apart ["a", "b"] ["a", "c"] := by
    unfold Trie.Apart
    decide
  refine ⟨hapart, fun hsame => (read_eq_iff bytesEvent hapart (.int 5)).mp hsame ?_⟩
  exact ⟨["a"], [1], ⟨["b"], rfl⟩, ⟨["c"], rfl⟩, rfl⟩

end Workspaces

end Limpid.Pipeline
