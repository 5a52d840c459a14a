import Limpid.Dsl.Nearest
import Limpid.Dsl.Props
import Limpid.Dsl.Units
import Limpid.Entries

/-!
# Property schemas

The schema of a property surface and the validator (`dsl/schema.rs`), without source spans.  Each
module declares one; the analyzer and the registry both run `validate` with it, before a factory
reads the properties.

The validator goes down the schema, not the properties: a `oneOf` tries its variants on one and the
same property.  So a declared key is met together with the check of its kind (`declare`).
-/

namespace Limpid.Dsl.Schema

/-- A property as it is parsed, with whether its key was quoted. -/
inductive Property where
  | keyValue (key : String) (keyQuoted : Bool) (value : Expr)
  | block (key : String) (keyQuoted : Bool) (properties : List Property)

mutual

/-- `PropertyValueKind`: what a schema says about a value. -/
inductive PropertyValueKind where
  | string | int | bool | duration | size
  | enum (allowed : List String)
  | block (inner : List PropertySpec)
  | blockMap (inner : List PropertySpec)
  | stringMap
  | oneOf (variants : List PropertyValueKind)

/-- `PropertySpec`. -/
structure PropertySpec where
  name : String
  required : Bool
  repeatable : Bool
  exclusiveGroup : Option String
  kind : PropertyValueKind

end

/-- `SchemaErrorKind`. -/
inductive SchemaErrorKind where
  | quotedKeyOutsideStringMap
  | unknownKey
  | missingRequired
  | duplicateKey
  | exclusiveGroupViolation (group : String) (conflicting : List String)
  | expectedBlock
  | expectedValue
  | typeMismatch (expected : String)
  | oneOfMismatch (expected : List String) (actual : String)
  | unknownEnumValue (allowed : List String)
deriving DecidableEq

/-- `SchemaError`, without spans. -/
structure SchemaError where
  kind : SchemaErrorKind
  key : String
  didYouMean : Option String
deriving DecidableEq

namespace Property

/-- The key of a property. -/
def key : Property → String
  | keyValue key _ _ => key
  | block key _ _ => key

/-- The key is in quotes. -/
def keyQuoted : Property → Bool
  | keyValue _ quoted _ => quoted
  | block _ quoted _ => quoted

/-- The property is a block. -/
def isBlock : Property → Bool
  | keyValue _ _ _ => false
  | block _ _ _ => true

end Property

/-- How an error names an expression. -/
def exprLabel : Expr → String
  | .stringLit _ => "String"
  | .template _ => "Template"
  | .intLit _ => "Int"
  | .floatLit _ => "Float"
  | .boolLit _ => "Bool"
  | .null => "Null"
  | .ident _ => "Ident"
  | .funcCall _ _ _ _ => "FuncCall"
  | .binOp _ _ _ => "BinOp"
  | .unaryOp _ _ => "UnaryOp"
  | .hashLit _ => "Hash"
  | .arrayLit _ => "Array"
  | .propertyAccess _ _ => "PropertyAccess"
  | .switchExpr _ _ => "Switch"

/-- How an error names a property. -/
def Property.label : Property → String
  | keyValue _ _ value => exprLabel value
  | block _ _ _ => "Block"

namespace PropertyValueKind

/-- `expects_block_outer_shape`. -/
def expectsBlockOuterShape : PropertyValueKind → Bool
  | block _ => true
  | blockMap _ => true
  | _ => false

/-- How an error names a kind. -/
def label : PropertyValueKind → String
  | string => "String"
  | int => "Int"
  | bool => "Bool"
  | duration => "Duration"
  | size => "Size"
  | enum _ => "Ident"
  | block _ => "Block"
  | blockMap _ => "BlockMap"
  | stringMap => "StringMap"
  | oneOf _ => "OneOf"

end PropertyValueKind

/-- A key in quotes outside of a map of strings. -/
def quotedKeyError (prop : Property) : Option SchemaError :=
  if prop.keyQuoted then some ⟨.quotedKeyOutsideStringMap, prop.key, none⟩ else none

section Validate

-- the upper case letters of a character, for `parse_size`
variable (upper : Char → List Char)

/-- `check_value`: what is wrong with a value, if anything is. -/
def checkValue (key : String) (kind : PropertyValueKind) (value : Expr) : Option SchemaError :=
  let mismatch (expected : String) := some (SchemaError.mk (.typeMismatch expected) key none)
  match kind with
  | .string =>
      match value with
      | .stringLit _ => none
      | .template _ => none
      | .ident _ => none
      | .intLit _ => none
      | _ => mismatch "a string"
  | .int =>
      match value with
      | .intLit _ => none
      | _ => mismatch "an integer"
  | .bool =>
      match value with
      | .boolLit _ => none
      | .ident [word] =>
          if word = "true" ∨ word = "false" then none else mismatch "a boolean (true | false)"
      | _ => mismatch "a boolean (true | false)"
  | .duration =>
      match value with
      | .stringLit s =>
          match Props.parseDuration s with
          | .ok _ => none
          | .error _ => mismatch "a duration string like \"5s\" or \"100ms\""
      | _ => mismatch "a duration string"
  | .size =>
      match value with
      | .stringLit s =>
          match Props.parseSize upper s with
          | .ok _ => none
          | .error _ => mismatch "a size string like \"100MB\" or \"1GB\""
      | _ => mismatch "a size string"
  | .enum allowed =>
      match value with
      | .ident [candidate] =>
          if candidate ∈ allowed then none
          else some ⟨.unknownEnumValue allowed, key, nearest candidate allowed⟩
      | _ => mismatch "an identifier"
  | _ => none

/-- `validate_string_map`: every value of the map is a string. -/
def validateStringMap (key : String) : Expr → List SchemaError
  | .hashLit entries =>
      entries.filterMap fun entry =>
        match entry.2 with
        | .stringLit _ => none
        | _ => some ⟨.typeMismatch "a static string", entry.1, none⟩
  | _ => [⟨.typeMismatch "a static string object", key, none⟩]

/-- The last arm of `check_property`. -/
def checkScalar (kind : PropertyValueKind) (key : String) : Property → List SchemaError
  | .block _ _ _ => [⟨.expectedValue, key, none⟩]
  | .keyValue _ _ value => (checkValue upper key kind value).toList

/-- A declared key with the check of its values. -/
abbrev Declared := PropertySpec × (String → Property → List SchemaError)

/-- The state of the loop of `validate`. -/
structure Scan where
  errs : List SchemaError
  seen : List String
  exclusiveGroups : List (String × List String)

/-- `exclusive_groups.entry(group).or_default().push(name)`. -/
def pushGroup (group name : String) (groups : List (String × List String)) :
    List (String × List String) :=
  Entries.insert group ((groups.lookup group).getD [] ++ [name]) groups

/-- One property of the loop.  A duplicate is reported and still checked. -/
def validateStep (declared : List Declared) (scan : Scan) (prop : Property) : Scan :=
  match quotedKeyError prop with
  | some error => { scan with errs := scan.errs ++ [error] }
  | none =>
      match declared.find? (·.1.name = prop.key) with
      | none =>
          let dym := nearest prop.key (declared.map (·.1.name))
          { scan with errs := scan.errs ++ [⟨.unknownKey, prop.key, dym⟩] }
      | some (s, check) =>
          let duplicate : List SchemaError :=
            if prop.key ∈ scan.seen ∧ s.repeatable = false then [⟨.duplicateKey, prop.key, none⟩]
            else []
          { errs := scan.errs ++ duplicate ++ check prop.key prop
            seen := prop.key :: scan.seen
            exclusiveGroups :=
              match s.exclusiveGroup with
              | some group => pushGroup group prop.key scan.exclusiveGroups
              | none => scan.exclusiveGroups }

/-- The required properties that are not there. -/
def missingRequired (declared : List Declared) (seen : List String) : List SchemaError :=
  declared.filterMap fun d =>
    if d.1.required ∧ d.1.name ∉ seen then some ⟨.missingRequired, d.1.name, none⟩ else none

/-- The names are sorted and each is kept once. -/
def groupViolations (groups : List (String × List String)) : List SchemaError :=
  groups.filterMap fun entry =>
    let conflicting := (entry.2.mergeSort fun a b => decide (a ≤ b)).dedup
    if 1 < conflicting.length then
      some ⟨.exclusiveGroupViolation entry.1 conflicting, entry.1, none⟩
    else none

/-- The body of `validate`; the groups are in the order of their first property. -/
def validateWith (declared : List Declared) (props : List Property) : List SchemaError :=
  let scan := props.foldl (validateStep declared) ⟨[], [], []⟩
  scan.errs ++ missingRequired declared scan.seen ++ groupViolations scan.exclusiveGroups

/-- The body of `validate_block_map`. -/
def validateBlockMapWith (declared : List Declared) (properties : List Property) :
    List SchemaError :=
  properties.flatMap fun prop =>
    match quotedKeyError prop with
    | some error => [error]
    | none =>
        match prop with
        | .block _ _ inner => validateWith declared inner
        | .keyValue key _ _ => [⟨.expectedBlock, key, none⟩]

/-- The body of `check_one_of`, from the errors of each variant on. -/
def oneOfErrors (key : String) (variants : List PropertyValueKind) (prop : Property)
    (perVariant : List (List SchemaError)) : List SchemaError :=
  if perVariant.any List.isEmpty then []
  else
    let structuralMatches := ((variants.zip perVariant).filter fun entry =>
      entry.1.expectsBlockOuterShape == prop.isBlock).map Prod.snd
    match structuralMatches with
    | [only] => only
    | _ => [⟨.oneOfMismatch (variants.map (·.label)) prop.label, key, none⟩]

mutual

/-- `check_property`: a value or a block against the kind of its key. -/
def checkProperty : PropertyValueKind → String → Property → List SchemaError
  | .block inner, key, prop =>
      match prop with
      | .block _ _ properties => validateWith (declare inner) properties
      | .keyValue _ _ _ => [⟨.expectedBlock, key, none⟩]
  | .blockMap inner, key, prop =>
      match prop with
      | .block _ _ properties => validateBlockMapWith (declare inner) properties
      | .keyValue _ _ _ => [⟨.expectedBlock, key, none⟩]
  | .stringMap, key, prop =>
      match prop with
      | .block _ _ [] => []
      | .keyValue _ _ value => validateStringMap key value
      | .block _ _ _ => [⟨.typeMismatch "a static string object", key, none⟩]
  | .oneOf variants, key, prop => oneOfErrors key variants prop (checkVariants variants key prop)
  | .string, key, prop => checkScalar upper .string key prop
  | .int, key, prop => checkScalar upper .int key prop
  | .bool, key, prop => checkScalar upper .bool key prop
  | .duration, key, prop => checkScalar upper .duration key prop
  | .size, key, prop => checkScalar upper .size key prop
  | .enum allowed, key, prop => checkScalar upper (.enum allowed) key prop

/-- The errors of each variant. -/
def checkVariants : List PropertyValueKind → String → Property → List (List SchemaError)
  | [], _, _ => []
  | kind :: rest, key, prop => checkProperty kind key prop :: checkVariants rest key prop

/-- The keys of a schema, each with its check. -/
def declare : List PropertySpec → List Declared
  | [] => []
  | ⟨name, required, repeatable, group, kind⟩ :: rest =>
      (⟨name, required, repeatable, group, kind⟩, checkProperty kind) :: declare rest

end

/-- `validate`: the properties against their declarations. -/
def validate (props : List Property) (spec : List PropertySpec) : List SchemaError :=
  validateWith (declare upper spec) props

/-- `validate_block_map`: each block against the declarations inside. -/
def validateBlockMap (properties : List Property) (inner : List PropertySpec) : List SchemaError :=
  validateBlockMapWith (declare upper inner) properties

end Validate

theorem declare_eq (upper : Char → List Char) (spec : List PropertySpec) :
    declare upper spec = spec.map fun s => (s, checkProperty upper s.kind) := by
  induction spec with
  | nil => rw [declare, List.map_nil]
  | cons s spec ih =>
      obtain ⟨name, required, repeatable, group, kind⟩ := s
      rw [declare, List.map_cons, ih]

theorem checkVariants_eq (upper : Char → List Char) (variants : List PropertyValueKind)
    (key : String) (prop : Property) :
    checkVariants upper variants key prop =
      variants.map fun kind => checkProperty upper kind key prop := by
  induction variants with
  | nil => rw [checkVariants, List.map_nil]
  | cons kind variants ih => rw [checkVariants, List.map_cons, ih]

/-- The declaration of a key. -/
def lookup (spec : List PropertySpec) (key : String) : Option PropertySpec :=
  spec.find? fun s => s.name = key

theorem find?_declare (upper : Char → List Char) (spec : List PropertySpec) (key : String) :
    (declare upper spec).find? (·.1.name = key) =
      (lookup spec key).map fun s => (s, checkProperty upper s.kind) := by
  rw [declare_eq, List.find?_map]
  rfl

theorem mem_of_lookup {spec : List PropertySpec} {key : String} {s : PropertySpec}
    (h : lookup spec key = some s) : s ∈ spec ∧ s.name = key :=
  ⟨List.mem_of_find?_eq_some h, by simpa using List.find?_some h⟩

end Limpid.Dsl.Schema
