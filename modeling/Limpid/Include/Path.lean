import Limpid.Bytes
import Mathlib.Data.List.DropRight

/-!
# Paths

A `std::path::Path` on Unix is a byte string.  `components`, `parent` and `join` follow the
standard library byte for byte: repeated separators and `.` are skipped, except for a leading `.`.

A canonical path, the result of `canonicalize`, is the list of the names below the root directory.
-/

namespace Limpid.Include

/-- `PathBuf`, as its bytes. -/
abbrev Path := Bytes

/-- `/`. -/
def separator : UInt8 := 47

/-- `.`. -/
def dot : UInt8 := 46

/-- `std::path::Component`. -/
inductive Component where
  | rootDir
  | curDir
  | parentDir
  | normal (name : Bytes)
deriving DecidableEq, Repr

namespace Component

/-- The position of the variant in the derived order of `std::path::Component`. -/
def rank : Component → ℕ
  | rootDir => 0
  | curDir => 1
  | parentDir => 2
  | normal _ => 3

/-- The bytes of a component. -/
def name : Component → Bytes
  | normal name => name
  | _ => []

/-- The order of components. -/
def lt (a b : Component) : Bool :=
  decide (a.rank < b.rank) || (a.rank == b.rank && a.name.lex b.name)

end Component

namespace Path

/-- `is_absolute`. -/
def isAbsolute (path : Path) : Bool := path.head? == some separator

/-- A leading `.` that is a component of its own. -/
def includeCurDir (path : Path) : Bool :=
  match path with
  | [first] => first == dot
  | first :: second :: _ => first == dot && second == separator
  | [] => false

/-- The root or the leading `.`, which come before the body of the path. -/
def lenBeforeBody (path : Path) : ℕ :=
  if path.isAbsolute || path.includeCurDir then 1 else 0

/-- A segment that makes no component. -/
def skipped (segment : Bytes) : Bool := segment == [] || segment == [dot]

/-- The parts of the body between separators. -/
def segments (path : Path) : List Bytes := (path.drop path.lenBeforeBody).splitOn separator

/-- The component of a segment. -/
def component (segment : Bytes) : Option Component :=
  if skipped segment then none
  else if segment == [dot, dot] then some .parentDir
  else some (.normal segment)

/-- `components`. -/
def components (path : Path) : List Component :=
  (if path.isAbsolute then [.rootDir] else if path.includeCurDir then [.curDir] else []) ++
    path.segments.filterMap component

/-- `Path::parent`. -/
def parent (path : Path) : Option Path :=
  match path.segments.rdropWhile skipped with
  | [] => if path.isAbsolute then none else if path.includeCurDir then some [] else none
  | segments =>
      some (path.take path.lenBeforeBody ++
        List.intercalate [separator] (segments.dropLast.rdropWhile skipped))

/-- `Path::join`. -/
def join (path suffix : Path) : Path :=
  if suffix.isAbsolute then suffix
  else match path.getLast? with
    | none => suffix
    | some last => if last == separator then path ++ suffix else path ++ separator :: suffix

/-- The order of `PathBuf`, by components. -/
def le (p q : Path) : Bool := !(q.components.lex p.components Component.lt)

end Path

/-- The names below the root directory that lead to a file, as `canonicalize` finds them. -/
abbrev Canonical := List Bytes

/-- `Path::starts_with`, component by component. -/
def Canonical.startsWith (path pre : Canonical) : Bool := pre.isPrefixOf path

/-- A path text below the root, read as a canonical path. -/
def Path.names (path : Path) : Canonical :=
  path.components.filterMap fun
    | .normal name => some name
    | _ => none

/-- A canonical path as bytes. -/
def Canonical.path (canonical : Canonical) : Path :=
  separator :: List.intercalate [separator] canonical

/-- A path literal. -/
def literal (text : String) : Path := text.toUTF8.toList

example : (literal "etc//limpid/./limpid.conf/").parent = some (literal "etc//limpid") := by
  decide +kernel

end Limpid.Include
