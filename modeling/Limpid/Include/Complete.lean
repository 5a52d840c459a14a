import Limpid.Include.Loaded

/-!
# Include loading

`load_sound_complete` says what a loaded configuration is: the files that are reachable, each
parsed once, without a cycle.  The three trees after it show what it does not say.  The depth
limit is about the chain on the load stack, not about every chain of the graph: a file that is
loaded already is skipped at any depth.  A file with two names has its relative includes resolved
under the first one only.  And the place of the main file is not checked.
-/

namespace Limpid.Include

open Dsl Relation

variable {P D B : Type} {fs : FileSystem} {parser : Parser P D B}

section Whole

variable (fs parser)

/-- What a configuration that was loaded from `main` is: merged from `files`, which are the files
`names` with the parsed `parts`.  The last two facts need `SameIncludes`. -/
structure Loaded (main : Path) (root file : Canonical) (config : Config D B)
    (files : List SourceFile) (names : List Canonical) (parts : List (Config D B)) : Prop where
  root_eq : canonicalRoot fs main = .ok root
  main_eq : fs.canonicalize main = .ok file
  parsed : Parsed fs parser 0 files names parts
  contents : Contents config parts
  once : names.Nodup
  reached : ∀ name ∈ names, ∃ n ≤ maxIncludeDepth, Chain (Includes fs parser main) n file name
  permitted : ∀ name ∈ names, name = file ∨ permitted root name = true
  nodeId : (files.flatMap fun source => parser.items source.text).countP
    TopLevelItem.isNodeId ≤ 1
  nodeKey : (files.flatMap fun source => parser.items source.text).countP
    TopLevelItem.isNodeKey ≤ 1
  complete : SameIncludes fs parser main →
    ∀ target, ReflTransGen (Includes fs parser main) file target → target ∈ names
  acyclic : SameIncludes fs parser main →
    ∀ target, ReflTransGen (Includes fs parser main) file target →
      ¬ TransGen (Includes fs parser main) target target

variable {fs parser} {main : Path} {config : Config D B} {files : List SourceFile}

theorem Closed.reachable {done : Finset Canonical} {file target : Canonical}
    (h : Closed fs parser main done) (hfile : file ∈ done)
    (hpath : ReflTransGen (Includes fs parser main) file target) : target ∈ done := by
  induction hpath with
  | refl => exact hfile
  | tail _ hstep ih => exact (h _ ih).1 _ hstep

theorem loaded_of_load (h : loadConfigWithSourceMap fs parser main = .ok (config, files)) :
    ∃ root file names parts, Loaded fs parser main root file config files names parts := by
  obtain ⟨root, hroot, h⟩ := Except.exists_of_bind_eq_ok h
  obtain ⟨⟨merged, state⟩, hload, h⟩ := Except.exists_of_bind_eq_ok h
  obtain ⟨rfl, rfl⟩ := Prod.mk.inj (Except.ok.inj h)
  obtain ⟨file, hfile, ⟨names, parts, hgrown, hcontents, hnames⟩, hmem, hclosed⟩ :=
    loadRecursive_loads root (maxIncludeDepth + 1) 0 (Nat.le_refl _) main _ _ .refl hload
  obtain ⟨sources, hsources, hparsed⟩ := hgrown.sourceMap
  obtain rfl : state.sourceMap = sources := hsources.trans (List.nil_append _)
  have hdone : ∀ name, name ∈ state.loaded ↔ name ∈ names := fun name =>
    (hgrown.loaded name).trans (or_iff_right (Finset.notMem_empty name))
  have hclosed : SameIncludes fs parser main → Closed fs parser main state.loaded :=
    fun hsame => hclosed hsame fun other hother => absurd hother (Finset.notMem_empty other)
  obtain ⟨hnodeIds, hnodeKeys⟩ := hparsed.countP_items
  refine ⟨root, file, names, parts, hroot, hfile, hparsed, hcontents, hgrown.nodup, ?_, ?_, ?_,
    ?_, ?_, ?_⟩
  · intro name hname
    obtain ⟨-, n, hn, hchain⟩ := hnames name hname
    exact ⟨n, Nat.zero_add n ▸ hn, hchain⟩
  · exact fun name hname => (hnames name hname).1
  · rw [hnodeIds, ← hcontents.nodeIds]
    exact Option.length_toList_le
  · rw [hnodeKeys, ← hcontents.nodeKeys]
    exact Option.length_toList_le
  · exact fun hsame target hpath => (hdone target).mp ((hclosed hsame).reachable hmem hpath)
  · intro hsame target hpath
    exact not_transGen_of_acc (hclosed hsame target ((hclosed hsame).reachable hmem hpath)).2

theorem loadConfig_eq : loadConfig fs parser main =
    Prod.fst <$> loadConfigWithSourceMap fs parser main := by
  rw [loadConfig, loadConfigWithSourceMap]
  cases canonicalRoot fs main with
  | error e => rfl
  | ok root =>
      cases h : loadRecursive fs parser root 0 main State.initial with
      | error e => simp [bind, Except.bind, h, Functor.map, Except.map]
      | ok result => simp [bind, Except.bind, h, Functor.map, Except.map, pure, Except.pure]

/-- **Includes are loaded soundly and completely.**  A file is parsed once, at the end of a chain
that the limit allows, in a place that is permitted unless it is the main file; and where a file
includes the same files under each of its names, every reachable file is parsed and a reachable
cycle is an error.  The loader is total: its recursion ends with the depth. -/
theorem load_sound_complete (fs : FileSystem) (parser : Parser P D B) (main : Path) :
    (∀ config files, loadConfigWithSourceMap fs parser main = .ok (config, files) →
      ∃ root file names parts, Loaded fs parser main root file config files names parts) ∧
    (SameIncludes fs parser main → ∀ file target, fs.canonicalize main = .ok file →
      ReflTransGen (Includes fs parser main) file target →
      TransGen (Includes fs parser main) target target →
      ∃ e, loadConfigWithSourceMap fs parser main = .error e) ∧
    loadConfig fs parser main = Prod.fst <$> loadConfigWithSourceMap fs parser main := by
  refine ⟨fun config files h => loaded_of_load h, ?_, loadConfig_eq⟩
  intro hsame file target hfile hpath hcycle
  cases h : loadConfigWithSourceMap fs parser main with
  | error e => exact ⟨e, rfl⟩
  | ok result =>
      obtain ⟨root, file', names, parts, hloaded⟩ := loaded_of_load h
      obtain rfl := Except.ok.inj (hfile.symm.trans hloaded.main_eq)
      exact absurd hcycle (hloaded.acyclic hsame target hpath)

end Whole

/-! ## Small trees -/

/-- A file of a tree: a name, the path of the file that the name stands for, and its text. -/
structure Entry where
  path : Path
  file : Path
  text : Bytes

/-- A path, the file it is, and its text. -/
def entry (path file text : String) : Entry := ⟨literal path, literal file, literal text⟩

/-- What reading a file that is not there gives. -/
def missing {α : Type} : Except String α := .error "No such file or directory (os error 2)"

/-- The canonical paths of a tree's files and directories. -/
def canonicals (entries : List Entry) (directories : List Path) : List (Path × Canonical) :=
  entries.map (fun entry => (entry.path, entry.file.names)) ++
    directories.map fun directory => (directory, directory.names)

/-- The files of a tree and its directories; a pattern has no wildcards. -/
def tree (entries : List Entry) (directories : List Path) : FileSystem where
  canonicalize path :=
    match (canonicals entries directories).lookup path with
    | some canonical => .ok canonical
    | none => missing
  readToString path :=
    match entries.find? (·.path == path) with
    | some entry => .ok entry.text
    | none => missing
  glob pattern := .ok ((entries.filter (·.path == pattern)).map fun entry => .ok entry.path)

/-- A language of include directives, one on each line. -/
def lineParser : Parser Bytes Unit Unit where
  grammar text := .ok (((text.splitOn newline).filter (· ≠ [])).map .includeDirective)
  stringLit := id
  expr _ _ := .ok .null
  definition _ _ := .ok ()
  globalBlock _ _ := .ok ()

section Trail

variable (fs parser)

/-- The paths that the patterns of a file resolve to. -/
def matched (path : Path) : List Path :=
  match fs.readToString path with
  | .error _ => []
  | .ok text => (parser.includePatterns (parser.items text)).flatMap fun pattern =>
      (resolveInclude fs (path.parent.getD (literal ".")) pattern).toOption.getD []

/-- Whether each path of the list matches the next one, and is a file under the canonical path
beside it. -/
def trail : Path → List (Path × Canonical) → Bool
  | _, [] => true
  | path, (next, file) :: rest =>
      (matched fs parser path).contains next &&
        ((fs.canonicalize next).toOption == some file && trail next rest)

variable {fs parser}

theorem toOption_eq_some_iff {ε α : Type} {x : Except ε α} {a : α} :
    x.toOption = some a ↔ x = .ok a := by
  cases x with
  | error e => exact ⟨(fun h => nomatch h), (fun h => nomatch h)⟩
  | ok b => exact Option.some_inj.trans (Except.ok.injEq b a ▸ Iff.rfl)

theorem matches_of_mem {path next : Path} (h : next ∈ matched fs parser path) :
    Matches fs parser path next := by
  unfold matched at h
  split at h
  · exact absurd h List.not_mem_nil
  · next text htext =>
    obtain ⟨pattern, hpattern, hnext⟩ := List.mem_flatMap.mp h
    cases hpaths : resolveInclude fs (path.parent.getD (literal ".")) pattern with
    | error e =>
        rw [hpaths] at hnext
        exact absurd hnext List.not_mem_nil
    | ok paths =>
        rw [hpaths] at hnext
        exact ⟨text, pattern, paths, htext, hpattern, hpaths, hnext⟩

/-- A trail is a chain of includes. -/
theorem chain_of_trail (rest : List (Path × Canonical)) {main path : Path}
    {file : Canonical} (hpath : Reachable fs parser main path)
    (hfile : fs.canonicalize path = .ok file) (h : trail fs parser path rest = true) :
    Chain (Includes fs parser main) rest.length file ((rest.getLast?.map Prod.snd).getD file) := by
  induction rest generalizing path file with
  | nil => exact .refl file
  | cons step rest ih =>
      obtain ⟨next, target⟩ := step
      rw [trail, Bool.and_eq_true, Bool.and_eq_true, List.contains_iff_mem, beq_iff_eq,
        toOption_eq_some_iff] at h
      obtain ⟨hnext, htarget, hrest⟩ := h
      have hmatches := matches_of_mem hnext
      refine .head ⟨path, next, hpath, hmatches, hfile, htarget⟩ ?_
      have hchain := ih (hpath.tail hmatches) htarget hrest
      cases rest with
      | nil => exact hchain
      | cons _ _ => exact hchain

end Trail

theorem sameIncludes_of_injective {main : Path}
    (h : ∀ path other file, fs.canonicalize path = .ok file → fs.canonicalize other = .ok file →
      path = other) : SameIncludes fs parser main := by
  intro path other file matched target _ _ hpath hother hmatched htarget
  obtain rfl := h path other file hpath hother
  exact ⟨matched, hmatched, htarget⟩

/-- A tree without links. -/
theorem sameIncludes_tree {entries : List Entry} {directories : List Path} {main : Path}
    (hnodup : ((canonicals entries directories).map Prod.snd).Nodup) :
    SameIncludes (tree entries directories) parser main := by
  have hmem : ∀ path file, (tree entries directories).canonicalize path = .ok file →
      (path, file) ∈ canonicals entries directories := by
    intro path file h
    simp only [tree] at h
    split at h
    · next hlookup =>
      obtain rfl := Except.ok.inj h
      obtain ⟨front, back, heq, -⟩ := List.lookup_eq_some_iff.mp hlookup
      exact heq ▸ List.mem_append_right front (List.mem_cons_self ..)
    · exact nomatch h
  refine sameIncludes_of_injective fun path other file hpath hother => ?_
  have heq := List.inj_on_of_nodup_map hnodup (hmem path file hpath) (hmem other file hother) rfl
  exact congrArg Prod.fst heq

/-- The file that is loaded. -/
def mainPath : Path := literal "/c/m"

/-- A file of the directory of `mainPath`. -/
def inDirectory (name : String) : Path × Canonical :=
  (literal ("/c/" ++ name), [literal "c", literal name])

/-- A file reached on two ways. -/
def diamondTree : FileSystem :=
  tree [entry "/c/m" "/c/m" "a\nb", entry "/c/a" "/c/a" "x", entry "/c/b" "/c/b" "x",
    entry "/c/x" "/c/x" ""] [literal "/c"]

/-- Two files that include each other. -/
def cyclicTree : FileSystem :=
  tree [entry "/c/m" "/c/m" "a", entry "/c/a" "/c/a" "m"] [literal "/c"]

/-- The main file includes a tree of depth five, then a chain that leads into it. -/
def deepTree : FileSystem :=
  tree [entry "/c/m" "/c/m" "a\nf", entry "/c/a" "/c/a" "b", entry "/c/b" "/c/b" "c",
    entry "/c/c" "/c/c" "d", entry "/c/d" "/c/d" "e", entry "/c/e" "/c/e" "",
    entry "/c/f" "/c/f" "g", entry "/c/g" "/c/g" "h", entry "/c/h" "/c/h" "i",
    entry "/c/i" "/c/i" "j", entry "/c/j" "/c/j" "a"] [literal "/c"]

/-- A file with a second name in another directory, where its include names a third file, which
includes it again. -/
def linkTree : FileSystem :=
  tree [entry "/c/m" "/c/m" "a\nd/a", entry "/c/a" "/c/a" "x", entry "/c/d/a" "/c/a" "x",
    entry "/c/x" "/c/x" "", entry "/c/d/x" "/c/d/x" "a"] [literal "/c", literal "/c/d"]

/-- A main file that is a link out of its directory. -/
def outsideTree : FileSystem := tree [entry "/c/m" "/e/m" ""] [literal "/c"]

theorem load_sound_complete_trees :
    (∃ config files, loadConfigWithSourceMap diamondTree lineParser mainPath = .ok (config, files) ∧
      files.length = 4 ∧ SameIncludes diamondTree lineParser mainPath ∧
      ∃ root file names parts,
        Loaded diamondTree lineParser mainPath root file config files names parts) ∧
    SameIncludes cyclicTree lineParser mainPath ∧
      ∃ e, loadConfigWithSourceMap cyclicTree lineParser mainPath = .error e := by
  refine ⟨?_, ?_, ?_⟩
  · have hok : ((loadConfigWithSourceMap diamondTree lineParser mainPath).toOption.map
        fun result => result.2.length) = some 4 := by decide +kernel
    obtain ⟨⟨config, files⟩, hresult, hlength⟩ := Option.map_eq_some_iff.mp hok
    have hload := toOption_eq_some_iff.mp hresult
    exact ⟨config, files, hload, hlength, sameIncludes_tree (by decide +kernel),
      (load_sound_complete diamondTree lineParser mainPath).1 config files hload⟩
  · exact sameIncludes_tree (by decide +kernel)
  · have hmain : cyclicTree.canonicalize mainPath = .ok (inDirectory "m").2 := by decide +kernel
    have hchain := chain_of_trail [inDirectory "a", inDirectory "m"] .refl hmain
      (by decide +kernel : trail cyclicTree lineParser mainPath _ = true)
    exact (load_sound_complete cyclicTree lineParser mainPath).2.1
      (sameIncludes_tree (by decide +kernel)) _ _ hmain .refl hchain.transGen

theorem includes_deep_linked_outside :
    ((loadConfig deepTree lineParser mainPath).isOk ∧ maxIncludeDepth < 10 ∧
      ∃ file target, deepTree.canonicalize mainPath = .ok file ∧
        Chain (Includes deepTree lineParser mainPath) 10 file target) ∧
    ((loadConfigWithSourceMap linkTree lineParser mainPath).toOption.map
        (fun result => result.2.map (·.path)) = some [mainPath, literal "/c/a", literal "/c/x"] ∧
      ∃ file target, linkTree.canonicalize mainPath = .ok file ∧
        ReflTransGen (Includes linkTree lineParser mainPath) file target ∧
        TransGen (Includes linkTree lineParser mainPath) target target) ∧
    ((loadConfig outsideTree lineParser mainPath).isOk ∧
      ∃ root file, canonicalRoot outsideTree mainPath = .ok root ∧
        outsideTree.canonicalize mainPath = .ok file ∧ permitted root file = false) := by
  have hdeep : deepTree.canonicalize mainPath = .ok (inDirectory "m").2 := by decide +kernel
  have hlink : linkTree.canonicalize mainPath = .ok (inDirectory "m").2 := by decide +kernel
  have hlinked : linkTree.canonicalize (literal "/c/d/a") = .ok (inDirectory "a").2 := by
    decide +kernel
  refine ⟨⟨by decide +kernel, by decide, _, (inDirectory "e").2, hdeep, ?_⟩,
    ⟨by decide +kernel, _, (inDirectory "a").2, hlink, ?_, ?_⟩, by decide +kernel,
    [literal "c"], [literal "e", literal "m"], by decide +kernel, by decide +kernel,
    by decide +kernel⟩
  · exact chain_of_trail (["f", "g", "h", "i", "j", "a", "b", "c", "d", "e"].map inDirectory)
      .refl hdeep (by decide +kernel)
  · exact (chain_of_trail [inDirectory "a"] .refl hlink
      (by decide +kernel : trail linkTree lineParser mainPath _ = true)).reflTransGen
  · have hpath : Reachable linkTree lineParser mainPath (literal "/c/d/a") :=
      .tail .refl (matches_of_mem (by decide +kernel))
    exact (chain_of_trail [(literal "/c/d/x", (literal "/c/d/x").names),
      (literal "/c/d/a", (inDirectory "a").2)] hpath hlinked (by decide +kernel)).transGen

end Limpid.Include
