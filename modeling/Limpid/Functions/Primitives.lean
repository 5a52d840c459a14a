import Limpid.Functions.SyslogParse

/-!
# What the functions share

`val_to_str` of `functions/primitives/mod.rs` and `apply_defaults` of
`functions/primitives/parse_json.rs`.
-/

namespace Limpid.Functions

open Dsl (Runtime Value)

/-- The text of an argument. -/
def valToStr (rt : Runtime) : Value → Except String String
  | .bytes _ => .error "expected text value, got bytes"
  | value => .ok (Dsl.valueToString rt value)

@[simp] theorem valToStr_string (rt : Runtime) (s : String) : valToStr rt (.string s) = .ok s := rfl

/-- The entries that are missing come from the defaults. -/
def applyDefaults (name : String) (defaults : Option Value) (value : Value) : Except String Value :=
  match value with
  | .object entries =>
    match defaults with
    | none | some .null => .ok (.object entries)
    | some (.object given) => .ok (.object (Syslog.applyDefaults given entries))
    | some other =>
      .error (name ++ "(): second argument must be a hash literal, got " ++ other.typeName)
  | other =>
    .error (name ++ "(): internal error — apply_defaults expected Object, got " ++ other.typeName)

@[simp] theorem applyDefaults_none (name : String) (entries : List (String × Value)) :
    applyDefaults name none (.object entries) = .ok (.object entries) := rfl

end Limpid.Functions
