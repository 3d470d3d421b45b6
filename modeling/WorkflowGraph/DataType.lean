/-
The types of values that flow between ports, and how a value of one type flows into a port of
another.

Equal types and `any` on either side match. Objects of two differently named shapes flow with a
coercion in every mode. All other pairs flow with a coercion, and are rejected when types are
strict.
-/

namespace WorkflowGraph

/-- The type of a value. -/
inductive DataType where
  /-- A value of any type. -/
  | any
  /-- A text. -/
  | string
  /-- A number. -/
  | number
  /-- A truth value. -/
  | boolean
  /-- A structured object, whose shape may be named. -/
  | object (shape : Option String)
  /-- An ordered collection. -/
  | array
  /-- A value that can be called. -/
  | function
  /-- A type with a name of its own. -/
  | custom (name : String)
deriving DecidableEq

/-- The text of a type. -/
def DataType.toText : DataType → String
  | any => "any"
  | string => "string"
  | number => "number"
  | boolean => "boolean"
  | object none => "object"
  | object (some shape) => "object<" ++ shape ++ ">"
  | array => "array"
  | function => "function"
  | custom name => name

/-- What happens to a value that flows into a port of another type. -/
inductive Coercion where
  /-- A primitive value becomes text. -/
  | widening
  /-- Text becomes a primitive value, which may fail. -/
  | lossy
  /-- The value is converted in a way that surprises. -/
  | unusual
  /-- The value is an object of another shape. -/
  | shapeMismatch
  /-- The value has nothing in common with the port's type. -/
  | mismatch
deriving DecidableEq

/-- What a coercion means, in words. -/
def Coercion.describe : Coercion → String
  | widening => "value is converted to text"
  | lossy => "text must be parsed and may not convert"
  | unusual => "conversion is unusual and probably unintended"
  | shapeMismatch => "object shapes differ"
  | mismatch => "types are unrelated"

/-- Whether and how a value may flow. -/
inductive Compatibility where
  /-- The types match. -/
  | matched
  /-- The value flows with a coercion. -/
  | coerced (coercion : Coercion)
  /-- The value may not flow. -/
  | rejected (coercion : Coercion)
deriving DecidableEq

namespace DataType

/-- The coercion between two types that do not match and are not both objects. -/
def coercionTo : DataType → DataType → Coercion
  | number, string | boolean, string => .widening
  | object _, string | array, string => .unusual
  | string, number | string, boolean => .lossy
  | number, boolean | boolean, number => .unusual
  | _, _ => .mismatch

/-- How a value of type `source` flows into a port of type `target`. -/
def flowInto (source target : DataType) (strict : Bool) : Compatibility :=
  if source = target ∨ source = any ∨ target = any then .matched
  else
    match source, target with
    | object (some _), object (some _) => .coerced .shapeMismatch
    | object _, object _ => .matched
    | source, target =>
      if strict then .rejected (source.coercionTo target) else .coerced (source.coercionTo target)

end DataType

end WorkflowGraph
