import Limpid.Dsl.Serialize
import Limpid.Graph
import Limpid.Include.Load
import Limpid.Runs

/-!
# What a loaded configuration contains

A path *matches* what its include patterns resolve to.  The files are the canonical paths, and a
file includes what one of its names matches, among the names that the main path leads to.

`loadRecursive` goes through this graph depth first.  What it adds to the state is described by
`Grown`: new files, each parsed once and reached over a chain that the depth limit allows.  The
files done are `Closed`: whatever such a file includes is done, and accessible, so no cycle goes
through it.  That needs a file to include the same files under each of its names, for the loader
reads a file under one of them only.
-/

namespace Limpid.Include

open Dsl Relation

variable {P D B : Type}

/-! ## One file -/

namespace TopLevelItem

/-- The item is a `node_id`. -/
def isNodeId : TopLevelItem P → Bool
  | nodeIdDirective _ => true
  | _ => false

/-- The item is a `node_key`. -/
def isNodeKey : TopLevelItem P → Bool
  | nodeKeyDirective _ => true
  | _ => false

end TopLevelItem

namespace Parser

variable (parser : Parser P D B)

/-- The items of a text, none when it is not in the grammar. -/
def items (text : Bytes) : List (TopLevelItem P) := (parser.grammar text).toOption.getD []

/-- The includes of a file. -/
def includePatterns (items : List (TopLevelItem P)) : List Bytes :=
  items.filterMap fun
    | .includeDirective path => some (parser.stringLit path)
    | _ => none

/-- What items add to the parts of a configuration that the loader looks at. -/
structure Reads (items : List (TopLevelItem P)) (before after : Config D B) : Prop where
  includes : after.includes = before.includes ++ parser.includePatterns items
  nodeIds : after.nodeId.toList.length =
    before.nodeId.toList.length + items.countP TopLevelItem.isNodeId
  nodeKeys : after.nodeKey.toList.length =
    before.nodeKey.toList.length + items.countP TopLevelItem.isNodeKey

variable {parser}

theorem Reads.trans {items items' : List (TopLevelItem P)} {a b c : Config D B}
    (h : Reads parser items a b) (h' : Reads parser items' b c) :
    Reads parser (items ++ items') a c where
  includes := by
    rw [h'.includes, h.includes, includePatterns, includePatterns, includePatterns,
      List.filterMap_append, List.append_assoc]
  nodeIds := by rw [h'.nodeIds, h.nodeIds, List.countP_append, Nat.add_assoc]
  nodeKeys := by rw [h'.nodeKeys, h.nodeKeys, List.countP_append, Nat.add_assoc]

theorem identityDirective_ok {keyword : String} {current next : Option String} {value : Expr}
    (h : identityDirective keyword current value = .ok next) :
    next.toList.length = current.toList.length + 1 := by
  unfold identityDirective at h
  split at h
  · split at h
    · exact nomatch h
    · split at h
      · exact nomatch h
      · next hcurrent =>
        obtain rfl := Except.ok.inj h
        obtain rfl := Option.not_isSome_iff_eq_none.mp hcurrent
        rfl
  · exact nomatch h

theorem addItem_reads {fileId : UInt32} {config next : Config D B} {item : TopLevelItem P}
    (h : parser.addItem fileId config item = .ok next) : Reads parser [item] config next := by
  cases item with
  | definition pair =>
      obtain ⟨definition, -, h⟩ := Except.exists_of_bind_eq_ok h
      obtain rfl := Except.ok.inj h
      exact ⟨(List.append_nil _).symm, rfl, rfl⟩
  | includeDirective path =>
      obtain rfl := Except.ok.inj h
      exact ⟨rfl, rfl, rfl⟩
  | nodeIdDirective value =>
      obtain ⟨value, -, h⟩ := Except.exists_of_bind_eq_ok h
      obtain ⟨nodeId, hnodeId, h⟩ := Except.exists_of_bind_eq_ok h
      obtain rfl := Except.ok.inj h
      exact ⟨(List.append_nil _).symm, identityDirective_ok hnodeId, rfl⟩
  | nodeKeyDirective value =>
      obtain ⟨value, -, h⟩ := Except.exists_of_bind_eq_ok h
      obtain ⟨nodeKey, hnodeKey, h⟩ := Except.exists_of_bind_eq_ok h
      obtain rfl := Except.ok.inj h
      exact ⟨(List.append_nil _).symm, rfl, identityDirective_ok hnodeKey⟩
  | globalBlock pair =>
      obtain ⟨block, -, h⟩ := Except.exists_of_bind_eq_ok h
      obtain rfl := Except.ok.inj h
      exact ⟨(List.append_nil _).symm, rfl, rfl⟩

theorem foldlM_reads {fileId : UInt32} {items : List (TopLevelItem P)} {config next : Config D B}
    (h : items.foldlM (parser.addItem fileId) config = .ok next) :
    Reads parser items config next := by
  induction items generalizing config with
  | nil =>
      obtain rfl := Except.ok.inj h
      exact ⟨(List.append_nil _).symm, rfl, rfl⟩
  | cons item items ih =>
      rw [List.foldlM_cons] at h
      obtain ⟨middle, hmiddle, h⟩ := Except.exists_of_bind_eq_ok h
      exact (addItem_reads hmiddle).trans (ih h)

theorem parseConfig_reads {text : Bytes} {fileId : UInt32} {config : Config D B}
    (h : parser.parseConfig text fileId = .ok config) :
    Reads parser (parser.items text) Config.empty config := by
  obtain ⟨items, hitems, h⟩ := Except.exists_of_bind_eq_ok h
  have heq : parser.items text = items := by
    rw [Parser.items, hitems]
    rfl
  exact heq ▸ foldlM_reads h

end Parser

/-! ## The graph of includes -/

section Graph

variable (fs : FileSystem) (parser : Parser P D B)

/-- A pattern of the file at `path` resolves to `matched`. -/
def Matches (path matched : Path) : Prop :=
  ∃ text pattern paths, fs.readToString path = .ok text ∧
    pattern ∈ parser.includePatterns (parser.items text) ∧
    resolveInclude fs (path.parent.getD (literal ".")) pattern = .ok paths ∧ matched ∈ paths

/-- The paths that the main path leads to. -/
def Reachable (main path : Path) : Prop := ReflTransGen (Matches fs parser) main path

/-- A file includes another one, under one of the names that the main path leads to. -/
def Includes (main : Path) (file target : Canonical) : Prop :=
  ∃ path matched, Reachable fs parser main path ∧ Matches fs parser path matched ∧
    fs.canonicalize path = .ok file ∧ fs.canonicalize matched = .ok target

/-- A file includes the same files under each of its names. -/
def SameIncludes (main : Path) : Prop :=
  ∀ path other file matched target, Reachable fs parser main path →
    Reachable fs parser main other → fs.canonicalize path = .ok file →
    fs.canonicalize other = .ok file → Matches fs parser other matched →
    fs.canonicalize matched = .ok target →
    ∃ matched', Matches fs parser path matched' ∧ fs.canonicalize matched' = .ok target

/-- Source files with their canonical paths and what they are parsed to, numbered from `index`. -/
inductive Parsed :
    ℕ → List SourceFile → List Canonical → List (Config D B) → Prop where
  | nil {index : ℕ} : Parsed index [] [] []
  | cons {index : ℕ} {file : SourceFile} {files : List SourceFile} {name : Canonical}
      {names : List Canonical} {part : Config D B} {parts : List (Config D B)} :
      fs.canonicalize file.path = .ok name → fs.readToString file.path = .ok file.text →
      parser.parseConfig file.text (fileId index) = .ok part →
      Parsed (index + 1) files names parts →
      Parsed index (file :: files) (name :: names) (part :: parts)

/-- Whatever a file of the set includes is in the set, and no path from it is infinite. -/
def Closed (main : Path) (files : Finset Canonical) : Prop :=
  ∀ file ∈ files, (∀ target, Includes fs parser main file target → target ∈ files) ∧
    Acc (fun target file => Includes fs parser main file target) file

end Graph

/-- What a configuration is merged from. -/
structure Contents (config : Config D B) (parts : List (Config D B)) : Prop where
  definitions : config.definitions = parts.flatMap (·.definitions)
  globalBlocks : config.globalBlocks = parts.flatMap (·.globalBlocks)
  nodeIds : config.nodeId.toList = parts.filterMap (·.nodeId)
  nodeKeys : config.nodeKey.toList = parts.filterMap (·.nodeKey)

namespace Contents

variable {config included merged : Config D B} {parts others : List (Config D B)}

theorem empty : Contents (Config.empty : Config D B) [] := ⟨rfl, rfl, rfl, rfl⟩

theorem single (config : Config D B) : Contents { config with includes := [] } [config] where
  definitions := (List.append_nil _).symm
  globalBlocks := (List.append_nil _).symm
  nodeIds := by cases h : config.nodeId <;> simp [h]
  nodeKeys := by cases h : config.nodeKey <;> simp [h]

theorem merge_toList {α : Type} {duplicate : LoadError} {own included next : Option α}
    (h : Include.merge duplicate own included = .ok next) :
    next.toList = own.toList ++ included.toList := by
  cases included with
  | none =>
      obtain rfl : own = next := by cases own <;> exact Except.ok.inj h
      exact (List.append_nil _).symm
  | some included =>
      cases own with
      | none => exact Except.ok.inj h ▸ rfl
      | some _ => exact nomatch h

theorem merge (hown : Contents config parts) (hincluded : Contents included others)
    (h : config.merge included = .ok merged) : Contents merged (parts ++ others) := by
  obtain ⟨nodeId, hnodeId, h⟩ := Except.exists_of_bind_eq_ok h
  obtain ⟨nodeKey, hnodeKey, h⟩ := Except.exists_of_bind_eq_ok h
  obtain rfl := Except.ok.inj h
  constructor
  · exact (congrArg₂ _ hown.definitions hincluded.definitions).trans List.flatMap_append.symm
  · exact (congrArg₂ _ hown.globalBlocks hincluded.globalBlocks).trans List.flatMap_append.symm
  · rw [merge_toList hnodeId, hown.nodeIds, hincluded.nodeIds, List.filterMap_append]
  · rw [merge_toList hnodeKey, hown.nodeKeys, hincluded.nodeKeys, List.filterMap_append]

end Contents

variable {fs : FileSystem} {parser : Parser P D B}

namespace Parsed

variable {index : ℕ} {files files' : List SourceFile} {names names' : List Canonical}
  {parts parts' : List (Config D B)}

theorem append (h : Parsed fs parser index files names parts)
    (h' : Parsed fs parser (index + files.length) files' names' parts') :
    Parsed fs parser index (files ++ files') (names ++ names') (parts ++ parts') := by
  induction h with
  | nil => exact h'
  | cons hname htext hpart _ ih =>
      refine cons hname htext hpart (ih ?_)
      rwa [List.length_cons, Nat.add_comm _ 1, ← Nat.add_assoc] at h'

theorem length_filterMap_cons {α β : Type} (f : α → Option β) (a : α) (rest : List α) :
    ((a :: rest).filterMap f).length = (f a).toList.length + (rest.filterMap f).length := by
  cases h : f a with
  | none => rw [List.filterMap_cons_none h, Option.toList_none, List.length_nil, Nat.zero_add]
  | some b =>
      rw [List.filterMap_cons_some h, Option.toList_some, List.length_cons, Nat.add_comm]
      rfl

/-- The directives of the files are those that the configurations hold. -/
theorem countP_items (h : Parsed fs parser index files names parts) :
    (files.flatMap fun file => parser.items file.text).countP TopLevelItem.isNodeId =
        (parts.filterMap (·.nodeId)).length ∧
      (files.flatMap fun file => parser.items file.text).countP TopLevelItem.isNodeKey =
        (parts.filterMap (·.nodeKey)).length := by
  induction h with
  | nil => exact ⟨rfl, rfl⟩
  | cons _ _ hpart _ ih =>
      have hreads := Parser.parseConfig_reads hpart
      rw [List.flatMap_cons, List.countP_append, List.countP_append, ih.1, ih.2,
        length_filterMap_cons, length_filterMap_cons, hreads.nodeIds, hreads.nodeKeys]
      simp [Config.empty]

end Parsed

/-! ## The loader -/

theorem withContext_eq_ok_iff {α : Type} {context : String → LoadError} {x : Except String α}
    {a : α} : withContext context x = .ok a ↔ x = .ok a := by
  cases x with
  | error cause => simp [withContext]
  | ok b => simp [withContext]

/-- What a file's load does when it succeeds. -/
theorem loadRecursive_cases {root : Canonical} {depth : ℕ} {path : Path} {state : State}
    {result : Config D B × State}
    (h : loadRecursive fs parser root depth path state = .ok result) :
    depth ≤ maxIncludeDepth ∧ ∃ file, fs.canonicalize path = .ok file ∧ file ∉ state.loading ∧
      ((file ∈ state.loaded ∧ result = (Config.empty, state)) ∨
        (file ∉ state.loaded ∧ ∃ text config inner, fs.readToString path = .ok text ∧
          parser.parseConfig text (fileId state.sourceMap.length) = .ok config ∧
          config.includes.foldlM
            (includePattern fs (loadRecursive fs parser root (depth + 1)) root
              (path.parent.getD (literal ".")))
            ({ config with includes := [] }, state.enter file ⟨path, text⟩) = .ok inner ∧
          result = (inner.1, inner.2.leave file))) := by
  rw [loadRecursive] at h
  split at h
  · exact nomatch h
  · next hdepth =>
    obtain ⟨file, hfile, h⟩ := Except.exists_of_bind_eq_ok h
    rw [withContext_eq_ok_iff] at hfile
    refine ⟨Nat.le_of_not_lt hdepth, file, hfile, ?_⟩
    split at h
    · exact nomatch h
    · next hloading =>
      refine ⟨hloading, ?_⟩
      split at h
      · next hloaded => exact Or.inl ⟨hloaded, (Except.ok.inj h).symm⟩
      · next hloaded =>
        obtain ⟨text, htext, h⟩ := Except.exists_of_bind_eq_ok h
        obtain ⟨config, hconfig, h⟩ := Except.exists_of_bind_eq_ok h
        obtain ⟨inner, hinner, h⟩ := Except.exists_of_bind_eq_ok h
        rw [withContext_eq_ok_iff] at htext hconfig
        exact Or.inr ⟨hloaded, text, config, inner, htext, hconfig, hinner,
          (Except.ok.inj h).symm⟩

theorem includePath_cases {load : Loader D B} {root : Canonical} {pattern : Bytes}
    {progress next : Config D B × State} {path : Path}
    (h : includePath fs load root pattern progress path = .ok next) :
    ∃ file, fs.canonicalize path = .ok file ∧ permitted root file = true ∧
      ∃ included, load path progress.2 = .ok (included, next.2) ∧
        progress.1.merge included = .ok next.1 := by
  obtain ⟨file, hfile, h⟩ := Except.exists_of_bind_eq_ok h
  obtain ⟨⟨⟩, hpermitted, h⟩ := Except.exists_of_bind_eq_ok h
  obtain ⟨⟨included, state⟩, hload, h⟩ := Except.exists_of_bind_eq_ok h
  obtain ⟨config, hmerge, h⟩ := Except.exists_of_bind_eq_ok h
  obtain rfl := Except.ok.inj h
  refine ⟨file, withContext_eq_ok_iff.mp hfile, ?_, included, hload, hmerge⟩
  unfold ensurePermittedLocation at hpermitted
  split at hpermitted
  · next hroot => exact hroot
  · exact nomatch hpermitted

theorem includePattern_cases {load : Loader D B} {root : Canonical} {base : Path}
    {pattern : Bytes} {progress next : Config D B × State}
    (h : includePattern fs load root base progress pattern = .ok next) :
    ∃ paths, resolveInclude fs base pattern = .ok paths ∧
      paths.foldlM (includePath fs load root pattern) progress = .ok next :=
  Except.exists_of_bind_eq_ok h
/-- Between two states the files `names` were loaded, with the configurations `parts`. -/
structure Grown (fs : FileSystem) (parser : Parser P D B) (names : List Canonical)
    (parts : List (Config D B)) (state next : State) : Prop where
  loading : next.loading = state.loading
  loaded : ∀ file, file ∈ next.loaded ↔ file ∈ state.loaded ∨ file ∈ names
  nodup : names.Nodup
  fresh : ∀ file ∈ names, file ∉ state.loaded ∧ file ∉ state.loading
  sourceMap : ∃ files, next.sourceMap = state.sourceMap ++ files ∧
    Parsed fs parser state.sourceMap.length files names parts

namespace Grown

variable {names names' : List Canonical} {parts parts' : List (Config D B)}
  {a b c : State} {file : Canonical}

theorem refl (state : State) : Grown fs parser [] [] state state where
  loading := rfl
  loaded file := by rw [List.mem_nil_iff, or_false]
  nodup := List.nodup_nil
  fresh file h := absurd h List.not_mem_nil
  sourceMap := ⟨[], (List.append_nil _).symm, .nil⟩

theorem trans (h : Grown fs parser names parts a b) (h' : Grown fs parser names' parts' b c) :
    Grown fs parser (names ++ names') (parts ++ parts') a c where
  loading := h'.loading.trans h.loading
  loaded file := by rw [h'.loaded, h.loaded, List.mem_append, or_assoc]
  nodup := by
    refine List.nodup_append'.mpr ⟨h.nodup, h'.nodup, fun file hfile hfile' => ?_⟩
    exact (h'.fresh file hfile').1 ((h.loaded file).mpr (Or.inr hfile))
  fresh file hfile := by
    rcases List.mem_append.mp hfile with hfile | hfile
    · exact h.fresh file hfile
    · obtain ⟨hloaded, hloading⟩ := h'.fresh file hfile
      exact ⟨fun hmem => hloaded ((h.loaded file).mpr (Or.inl hmem)), h.loading ▸ hloading⟩
  sourceMap := by
    obtain ⟨files, hfiles, hparsed⟩ := h.sourceMap
    obtain ⟨files', hfiles', hparsed'⟩ := h'.sourceMap
    refine ⟨files ++ files', by rw [hfiles', hfiles, List.append_assoc], hparsed.append ?_⟩
    rwa [hfiles, List.length_append] at hparsed'

theorem subset (h : Grown fs parser names parts a b) {file : Canonical} (hfile : file ∈ a.loaded) :
    file ∈ b.loaded := (h.loaded file).mpr (Or.inl hfile)

/-- A file is loaded with what its includes add while it is on the stack. -/
theorem leave {path : Path} {text : Bytes} {part : Config D B}
    (hloading : file ∉ a.loading) (hloaded : file ∉ a.loaded)
    (hfile : fs.canonicalize path = .ok file) (htext : fs.readToString path = .ok text)
    (hpart : parser.parseConfig text (fileId a.sourceMap.length) = .ok part)
    (h : Grown fs parser names parts (a.enter file ⟨path, text⟩) b) :
    Grown fs parser (file :: names) (part :: parts) a (b.leave file) where
  loading := by
    rw [State.leave, h.loading, State.enter, Finset.erase_insert hloading]
  loaded other := by
    rw [State.leave, Finset.mem_insert, h.loaded, State.enter, List.mem_cons, or_left_comm]
  nodup := by
    refine List.nodup_cons.mpr ⟨fun hmem => ?_, h.nodup⟩
    exact (h.fresh file hmem).2 (Finset.mem_insert_self file a.loading)
  fresh other hother := by
    rcases List.mem_cons.mp hother with rfl | hother
    · exact ⟨hloaded, hloading⟩
    · obtain ⟨hother, hstack⟩ := h.fresh other hother
      exact ⟨hother, fun hmem => hstack (Finset.mem_insert_of_mem hmem)⟩
  sourceMap := by
    obtain ⟨files, hfiles, hparsed⟩ := h.sourceMap
    refine ⟨⟨path, text⟩ :: files, ?_, .cons hfile htext hpart ?_⟩
    · rw [State.leave, hfiles, State.enter, List.append_assoc, List.singleton_append]
    · rwa [State.enter, List.length_append] at hparsed

end Grown

section Run

variable (fs parser) (main : Path) (root : Canonical)

/-- What the load of `file` at `depth` leaves. -/
structure FileLoaded (depth : ℕ) (file : Canonical) (state : State)
    (result : Config D B × State) : Prop where
  grown : ∃ names parts, Grown fs parser names parts state result.2 ∧ Contents result.1 parts ∧
    ∀ name ∈ names, (name = file ∨ permitted root name = true) ∧
      ∃ n, depth + n ≤ maxIncludeDepth ∧ Chain (Includes fs parser main) n file name
  mem : file ∈ result.2.loaded
  closed : SameIncludes fs parser main → Closed fs parser main state.loaded →
    Closed fs parser main result.2.loaded

/-- What a part of the includes of `file` adds while `file` is loaded at `depth`. -/
structure Progress (depth : ℕ) (file : Canonical) (before after : Config D B × State) :
    Prop where
  grown : ∃ names parts, Grown fs parser names parts before.2 after.2 ∧
    (∀ own, Contents before.1 own → Contents after.1 (own ++ parts)) ∧
    ∀ name ∈ names, permitted root name = true ∧
      ∃ n, depth + n ≤ maxIncludeDepth ∧ Chain (Includes fs parser main) n file name
  closed : SameIncludes fs parser main → Closed fs parser main before.2.loaded →
    Closed fs parser main after.2.loaded

/-- The file under this path is loaded. -/
def Done (path : Path) (progress : Config D B × State) : Prop :=
  ∃ file, fs.canonicalize path = .ok file ∧ file ∈ progress.2.loaded

/-- The load of every path that is reached leaves what `FileLoaded` says. -/
def Loads (load : Loader D B) (depth : ℕ) : Prop :=
  ∀ path state result, Reachable fs parser main path → load path state = .ok result →
    ∃ file, fs.canonicalize path = .ok file ∧
      FileLoaded fs parser main root depth file state result

variable {fs parser main root}

namespace Progress

variable {depth : ℕ} {file : Canonical} {a b c : Config D B × State}

theorem refl (progress : Config D B × State) :
    Progress fs parser main root depth file progress progress where
  grown := by
    refine ⟨[], [], Grown.refl _, fun own hown => ?_, fun name h => absurd h List.not_mem_nil⟩
    rwa [List.append_nil]
  closed _ h := h

theorem trans (h : Progress fs parser main root depth file a b)
    (h' : Progress fs parser main root depth file b c) :
    Progress fs parser main root depth file a c where
  grown := by
    obtain ⟨names, parts, hgrown, hcontents, hnames⟩ := h.grown
    obtain ⟨names', parts', hgrown', hcontents', hnames'⟩ := h'.grown
    refine ⟨names ++ names', parts ++ parts', hgrown.trans hgrown', fun own hown => ?_, ?_⟩
    · rw [← List.append_assoc]
      exact hcontents' _ (hcontents own hown)
    · exact List.forall_mem_append.mpr ⟨hnames, hnames'⟩
  closed hsame ha := h'.closed hsame (h.closed hsame ha)

theorem done {path : Path} (hdone : Done fs path a)
    (h : Progress fs parser main root depth file a b) : Done fs path b := by
  obtain ⟨target, htarget, hmem⟩ := hdone
  obtain ⟨names, parts, hgrown, -⟩ := h.grown
  exact ⟨target, htarget, hgrown.subset hmem⟩

end Progress

variable {load : Loader D B} {depth : ℕ} {path : Path} {file : Canonical}

theorem includePath_progress (hload : Loads fs parser main root load (depth + 1))
    (hpath : Reachable fs parser main path) (hfile : fs.canonicalize path = .ok file)
    {matched : Path} (hmatched : Matches fs parser path matched) {pattern : Bytes}
    {progress next : Config D B × State}
    (h : includePath fs load root pattern progress matched = .ok next) :
    Progress fs parser main root depth file progress next ∧ Done fs matched next := by
  obtain ⟨target, htarget, hpermitted, included, hincluded, hmerge⟩ := includePath_cases h
  obtain ⟨_, htarget', hloaded⟩ := hload matched _ _ (hpath.tail hmatched) hincluded
  obtain rfl := Except.ok.inj (htarget.symm.trans htarget')
  refine ⟨⟨?_, hloaded.closed⟩, target, htarget, hloaded.mem⟩
  obtain ⟨names, parts, hgrown, hcontents, hnames⟩ := hloaded.grown
  refine ⟨names, parts, hgrown, fun own hown => hown.merge hcontents hmerge, ?_⟩
  intro name hname
  obtain ⟨hplace, n, hn, hchain⟩ := hnames name hname
  refine ⟨?_, n + 1, by omega, .head ⟨path, matched, hpath, hmatched, hfile, htarget⟩ hchain⟩
  rcases hplace with rfl | hplace
  · exact hpermitted
  · exact hplace

theorem includePattern_progress (hload : Loads fs parser main root load (depth + 1))
    (hpath : Reachable fs parser main path) (hfile : fs.canonicalize path = .ok file)
    {pattern : Bytes} {base : Path} {progress next : Config D B × State}
    (hmatches : ∀ paths, resolveInclude fs base pattern = .ok paths →
      ∀ matched ∈ paths, Matches fs parser path matched)
    (h : includePattern fs load root base progress pattern = .ok next) :
    Progress fs parser main root depth file progress next ∧
      ∀ paths, resolveInclude fs base pattern = .ok paths →
        ∀ matched ∈ paths, Done fs matched next := by
  obtain ⟨paths, hpaths, h⟩ := includePattern_cases h
  obtain ⟨hprogress, hdone⟩ := foldlM_ok (Progress fs parser main root depth file) (Done fs)
    Progress.refl Progress.trans (fun hdone hnext => hnext.done hdone)
    (fun matched hmatched _ _ hround =>
      includePath_progress hload hpath hfile (hmatches paths hpaths matched hmatched) hround) h
  refine ⟨hprogress, fun paths' hpaths' => ?_⟩
  obtain rfl := Except.ok.inj (hpaths.symm.trans hpaths')
  exact hdone

/-- The includes of a file, loaded one after another. -/
theorem includes_progress (hload : Loads fs parser main root load (depth + 1))
    (hpath : Reachable fs parser main path) (hfile : fs.canonicalize path = .ok file)
    {text : Bytes} (htext : fs.readToString path = .ok text) {progress next : Config D B × State}
    (h : (parser.includePatterns (parser.items text)).foldlM
      (includePattern fs load root (path.parent.getD (literal "."))) progress = .ok next) :
    Progress fs parser main root depth file progress next ∧
      ∀ matched, Matches fs parser path matched → Done fs matched next := by
  obtain ⟨hprogress, hdone⟩ := foldlM_ok (Progress fs parser main root depth file)
    (fun pattern progress => ∀ paths,
      resolveInclude fs (path.parent.getD (literal ".")) pattern = .ok paths →
      ∀ matched ∈ paths, Done fs matched progress)
    Progress.refl Progress.trans
    (fun hdone hnext paths hpaths matched hmatched =>
    hnext.done (hdone paths hpaths matched hmatched))
    (fun pattern hpattern _ _ hround =>
      includePattern_progress hload hpath hfile
        (fun paths hpaths matched hmatched =>
          ⟨text, pattern, paths, htext, hpattern, hpaths, hmatched⟩) hround) h
  refine ⟨hprogress, ?_⟩
  rintro matched ⟨text', pattern, paths, htext', hpattern, hpaths, hmatched⟩
  obtain rfl := Except.ok.inj (htext.symm.trans htext')
  exact hdone pattern hpattern paths hpaths matched hmatched

/-- The file that leaves the stack: what it includes was loaded before it. -/
theorem Closed.leave {state : State} (hsame : SameIncludes fs parser main)
    (hpath : Reachable fs parser main path) (hfile : fs.canonicalize path = .ok file)
    (hdone : ∀ matched, Matches fs parser path matched →
      ∃ target, fs.canonicalize matched = .ok target ∧ target ∈ state.loaded)
    (hclosed : Closed fs parser main state.loaded) :
    Closed fs parser main (state.leave file).loaded := by
  have htargets : ∀ target, Includes fs parser main file target → target ∈ state.loaded := by
    rintro target ⟨other, matched, hother, hmatched, hname, htarget⟩
    obtain ⟨matched', hmatched', htarget'⟩ :=
      hsame path other file matched target hpath hother hfile hname hmatched htarget
    obtain ⟨_, heq, hmem⟩ := hdone matched' hmatched'
    obtain rfl := Except.ok.inj (htarget'.symm.trans heq)
    exact hmem
  intro other hother
  rcases Finset.mem_insert.mp hother with rfl | hother
  · refine ⟨fun target htarget => Finset.mem_insert_of_mem (htargets target htarget), ?_⟩
    exact Acc.intro _ fun target htarget => (hclosed target (htargets target htarget)).2
  · obtain ⟨hincluded, hacc⟩ := hclosed other hother
    exact ⟨fun target htarget => Finset.mem_insert_of_mem (hincluded target htarget), hacc⟩

/-- **The load of one file.**  By induction on what is left of the depth. -/
theorem loadRecursive_loads (root : Canonical) :
    ∀ left depth, maxIncludeDepth + 1 ≤ left + depth →
      Loads fs parser main root (loadRecursive fs parser root depth) depth := by
  intro left
  induction left with
  | zero =>
      intro depth hdepth path state result _ h
      have hlimit := (loadRecursive_cases h).1
      exact absurd hlimit (by omega)
  | succ left ih =>
      intro depth hleft path state result hpath h
      obtain ⟨hdepth, file, hfile, hloading, hcases⟩ := loadRecursive_cases h
      refine ⟨file, hfile, ?_⟩
      rcases hcases with ⟨hloaded, rfl⟩ |
        ⟨hloaded, text, config, inner, htext, hconfig, hinner, rfl⟩
      · refine ⟨⟨[], [], Grown.refl _, Contents.empty, ?_⟩, hloaded, fun _ hclosed => hclosed⟩
        exact fun name hname => absurd hname List.not_mem_nil
      · have hincludes : config.includes = parser.includePatterns (parser.items text) :=
          (Parser.parseConfig_reads hconfig).includes
        rw [hincludes] at hinner
        obtain ⟨⟨⟨names, parts, hgrown, hcontents, hnames⟩, hclosed⟩, hdone⟩ :=
          includes_progress (ih (depth + 1) (by omega)) hpath hfile htext hinner
        refine ⟨⟨file :: names, config :: parts, ?_, ?_, ?_⟩, ?_, ?_⟩
        · exact hgrown.leave hloading hloaded hfile htext hconfig
        · exact hcontents [config] (Contents.single config)
        · refine List.forall_mem_cons.mpr ⟨⟨Or.inl rfl, 0, hdepth, .refl file⟩, ?_⟩
          intro name hname
          obtain ⟨hpermitted, hchain⟩ := hnames name hname
          exact ⟨Or.inr hpermitted, hchain⟩
        · exact Finset.mem_insert_self file _
        · intro hsame hbefore
          exact (hclosed hsame hbefore).leave hsame hpath hfile hdone

end Run

end Limpid.Include
