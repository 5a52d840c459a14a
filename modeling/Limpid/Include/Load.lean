import Limpid.Include.Path
import Limpid.Dsl.Ast
import Mathlib.Data.Finset.Basic

/-!
# Loading a configuration

`load_config` of `config.rs`: a main file and, recursively, what its `include` directives match.
`loaded` are the files whose definitions are merged already, `loading` those on the load stack.

The operating system and the `glob` crate are a `FileSystem`, and the grammar with the parsers of
the single items is a `Parser`; what a file is taken apart into is read here as
`parse_config_with_file_id` reads it.  A definition and a global block carry spans, so their
parsers get the file's number.
-/

namespace Limpid.Include

open Dsl (Expr)

/-- `SYSTEM_SNIPPET_DIR`. -/
def systemSnippetDir : Path := literal "/usr/share/limpid/snippets"

/-- The limit is a guard for runaway trees. -/
def maxIncludeDepth : ℕ := 8

/-- What the loader asks of the file system. -/
structure FileSystem where
  canonicalize : Path → Except String Canonical
  readToString : Path → Except String Bytes
  /-- A pattern is refused as a whole, or its matches are reported one by one. -/
  glob : Bytes → Except String (List (Except String Path))

/-! ## The parser of one file -/

variable {P D B : Type}

/-- What stands at the top of a file. -/
inductive TopLevelItem (P : Type) where
  | definition (pair : P)
  | includeDirective (path : P)
  | nodeIdDirective (value : P)
  | nodeKeyDirective (value : P)
  | globalBlock (pair : P)

/-- The grammar and the parsers of an item's parts. -/
structure Parser (P D B : Type) where
  grammar : Bytes → Except String (List (TopLevelItem P))
  stringLit : P → Bytes
  expr : P → UInt32 → Except String Expr
  definition : P → UInt32 → Except String D
  globalBlock : P → UInt32 → Except String B

/-- `Config`: the definitions and directives of the files read so far. -/
structure Config (D B : Type) where
  nodeId : Option String
  nodeKey : Option String
  definitions : List D
  globalBlocks : List B
  includes : List Bytes

/-- A configuration of no files. -/
def Config.empty : Config D B := ⟨none, none, [], [], []⟩

/-- `node_id` and `node_key` take one non-empty string. -/
def identityDirective (keyword : String) (current : Option String) :
    Expr → Except String (Option String)
  | .stringLit value =>
      if value.isEmpty then .error (keyword ++ " must be non-empty")
      else if current.isSome then .error ("duplicate " ++ keyword)
      else .ok (some value)
  | _ => .error (keyword ++ " requires a string value")

namespace Parser

variable (parser : Parser P D B)

/-- An item is taken into the configuration. -/
def addItem (fileId : UInt32) (config : Config D B) :
    TopLevelItem P → Except String (Config D B)
  | .definition pair => do
      let definition ← parser.definition pair fileId
      return { config with definitions := config.definitions ++ [definition] }
  | .includeDirective path =>
      .ok { config with includes := config.includes ++ [parser.stringLit path] }
  | .nodeIdDirective value => do
      let value ← parser.expr value fileId
      let nodeId ← identityDirective "node_id" config.nodeId value
      return { config with nodeId }
  | .nodeKeyDirective value => do
      let value ← parser.expr value fileId
      let nodeKey ← identityDirective "node_key" config.nodeKey value
      return { config with nodeKey }
  | .globalBlock pair => do
      let block ← parser.globalBlock pair fileId
      return { config with globalBlocks := config.globalBlocks ++ [block] }

/-- `parse_config_with_file_id`. -/
def parseConfig (input : Bytes) (fileId : UInt32) : Except String (Config D B) := do
  let items ← parser.grammar input
  items.foldlM (parser.addItem fileId) Config.empty

end Parser

/-! ## Errors -/

/-- Why a configuration is not loaded. -/
inductive LoadError where
  | depth (path : Path)
  | canonicalize (path : Path) (cause : String)
  | cycle (canonical : Canonical)
  | read (path : Path) (cause : String)
  | parse (path : Path) (cause : String)
  | absolute (pattern : Bytes)
  | notUtf8 (pattern : Bytes)
  | invalidPattern (pattern : Bytes) (cause : String)
  | readingPattern (pattern : Bytes) (cause : String)
  | noFiles (pattern full : Bytes)
  | outside (pattern : Bytes) (canonical root : Canonical)
  | duplicateNodeId
  | duplicateNodeKey
  | configDirectory (directory : Path) (cause : String)
deriving DecidableEq, Repr

/-- The text of an error, its cause apart. -/
def LoadError.message (display : Path → String) : LoadError → String
  | depth path => "include depth exceeds limit (" ++ toString maxIncludeDepth ++
      "); likely a deep cycle or runaway include tree at " ++ display path
  | canonicalize path _ => "failed to canonicalize " ++ display path
  | cycle canonical => "include cycle detected: " ++ display canonical.path ++
      " is already being loaded"
  | read path _ => "failed to read " ++ display path
  | parse path _ => "failed to parse " ++ display path
  | absolute pattern => "include path '" ++ display pattern ++
      "' must be relative to the including file's directory " ++
      "(absolute paths are allowed only under " ++ display systemSnippetDir ++ ")"
  | notUtf8 pattern => "include path is not valid UTF-8: " ++ display pattern
  | invalidPattern pattern _ => "invalid include pattern: " ++ display pattern
  | readingPattern pattern _ => "error reading include pattern: " ++ display pattern
  | noFiles pattern full => "include path '" ++ display pattern ++ "' (resolved to '" ++
      display full ++ "') matched no files"
  | outside pattern canonical root => "include path '" ++ display pattern ++ "' (" ++
      display canonical.path ++ ") is outside the config directory (" ++ display root.path ++
      ") and the system snippet tree (" ++ display systemSnippetDir ++ ")"
  | duplicateNodeId => "duplicate node_id"
  | duplicateNodeKey => "duplicate node_key"
  | configDirectory directory _ => "failed to canonicalize config directory " ++ display directory

/-- A result under the context that an error gets here. -/
def withContext {α : Type} (context : String → LoadError) :
    Except String α → Except LoadError α
  | .ok a => .ok a
  | .error cause => .error (context cause)

/-! ## The loader -/

/-- A file of the source map. -/
structure SourceFile where
  path : Path
  text : Bytes
deriving DecidableEq, Repr

/-- What one load hands on: the files on the way and the ones read. -/
structure State where
  loaded : Finset Canonical
  loading : Finset Canonical
  sourceMap : List SourceFile

/-- No file is read yet. -/
def State.initial : State := ⟨∅, ∅, []⟩

/-- The number that `add_file` gives to the next file. -/
def fileId (index : ℕ) : UInt32 := UInt32.ofNat index

/-- A file is begun. -/
def State.enter (state : State) (canonical : Canonical) (file : SourceFile) : State :=
  { state with
    loading := insert canonical state.loading
    sourceMap := state.sourceMap ++ [file] }

/-- A file is done. -/
def State.leave (state : State) (canonical : Canonical) : State :=
  { state with
    loading := state.loading.erase canonical
    loaded := insert canonical state.loaded }

/-- The file is under the root or in the snippet directory. -/
def permitted (root canonical : Canonical) : Bool :=
  canonical.startsWith root || canonical.startsWith systemSnippetDir.names

/-- `ensure_permitted_location`. -/
def ensurePermittedLocation (canonical root : Canonical) (pattern : Bytes) :
    Except LoadError Unit :=
  if permitted root canonical then .ok () else .error (.outside pattern canonical root)

/-- `validate_include_pattern`. -/
def validateIncludePattern (pattern : Bytes) : Except LoadError Unit :=
  if Path.isAbsolute pattern && !systemSnippetDir.isPrefixOf pattern then
    .error (.absolute pattern)
  else .ok ()

/-- The directory of a file, as an argument of `canonicalize`. -/
def directory (path : Path) : Path :=
  match path.parent with
  | none => literal "."
  | some base => if base.isEmpty then literal "." else base

/-- Of two directives, at most one may be there. -/
def merge {α : Type} (duplicate : LoadError) :
    Option α → Option α → Except LoadError (Option α)
  | own, none => .ok own
  | none, some included => .ok (some included)
  | some _, some _ => .error duplicate

/-- The included file comes after what is there. -/
def Config.merge (config included : Config D B) : Except LoadError (Config D B) := do
  let nodeId ← Include.merge .duplicateNodeId config.nodeId included.nodeId
  let nodeKey ← Include.merge .duplicateNodeKey config.nodeKey included.nodeKey
  return { config with
    nodeId, nodeKey
    definitions := config.definitions ++ included.definitions
    globalBlocks := config.globalBlocks ++ included.globalBlocks }

section Load

variable (fs : FileSystem) (parser : Parser P D B)

/-- The directory of the file that is loaded. -/
def canonicalRoot (configFile : Path) : Except LoadError Canonical :=
  withContext (.configDirectory (configFile.parent.getD (literal ".")))
    (fs.canonicalize (directory configFile))

/-- The files that a pattern matches, in the order in which they are loaded. -/
def resolveInclude (base : Path) (pattern : Bytes) : Except LoadError (List Path) := do
  validateIncludePattern pattern
  let full := if Path.isAbsolute pattern then pattern else base.join pattern
  if validUtf8 full then
    let entries ← withContext (.invalidPattern pattern) (fs.glob full)
    let paths ← withContext (.readingPattern pattern) (entries.mapM id)
    let paths := paths.mergeSort Path.le
    -- A pattern that matches nothing is taken for a typing error.
    if paths.isEmpty then .error (.noFiles pattern full) else .ok paths
  else .error (.notUtf8 pattern)

/-- The loader of one file, at a depth that is fixed. -/
abbrev Loader (D B : Type) := Path → State → Except LoadError (Config D B × State)

/-- A file that an include matches. -/
def includePath (load : Loader D B) (root : Canonical) (pattern : Bytes)
    (progress : Config D B × State) (path : Path) : Except LoadError (Config D B × State) := do
  let canonical ← withContext (.canonicalize path) (fs.canonicalize path)
  ensurePermittedLocation canonical root pattern
  let (included, state) ← load path progress.2
  let config ← progress.1.merge included
  return (config, state)

/-- The files that an include matches, in order. -/
def includePattern (load : Loader D B) (root : Canonical) (base : Path)
    (progress : Config D B × State) (pattern : Bytes) :
    Except LoadError (Config D B × State) := do
  let paths ← resolveInclude fs base pattern
  paths.foldlM (includePath fs load root pattern) progress

/-- A file at `depth`: parsed with everything it includes, or skipped when that is done. -/
def loadRecursive (root : Canonical) (depth : ℕ) (path : Path) (state : State) :
    Except LoadError (Config D B × State) :=
  if _ : maxIncludeDepth < depth then .error (.depth path)
  else do
    let canonical ← withContext (.canonicalize path) (fs.canonicalize path)
    if canonical ∈ state.loading then .error (.cycle canonical)
    else if canonical ∈ state.loaded then .ok (Config.empty, state)
    else
      let content ← withContext (.read path) (fs.readToString path)
      let entered := state.enter canonical ⟨path, content⟩
      let config ← withContext (.parse path)
        (parser.parseConfig content (fileId state.sourceMap.length))
      let base := path.parent.getD (literal ".")
      let (config, state) ← config.includes.foldlM
        (includePattern fs (loadRecursive root (depth + 1)) root base)
        ({ config with includes := [] }, entered)
      return (config, state.leave canonical)
termination_by maxIncludeDepth + 1 - depth

/-- `load_config_with_source_map`. -/
def loadConfigWithSourceMap (configFile : Path) :
    Except LoadError (Config D B × List SourceFile) := do
  let root ← canonicalRoot fs configFile
  let (config, state) ← loadRecursive fs parser root 0 configFile State.initial
  return (config, state.sourceMap)

/-- `load_config`. -/
def loadConfig (configFile : Path) : Except LoadError (Config D B) := do
  let root ← canonicalRoot fs configFile
  let (config, _) ← loadRecursive fs parser root 0 configFile State.initial
  return config

end Load

end Limpid.Include
