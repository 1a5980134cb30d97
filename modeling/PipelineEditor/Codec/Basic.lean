import PipelineEditor.Json.Basic
import PipelineEditor.Text.Decimal

/-! Codecs: a type's form as a JSON value, and the reading of it back. Reading goes from left to
right and ends with the first problem. -/
namespace PipelineEditor

/-- Why a value could not be read. Problems with the names of fields and variants are told apart,
all others are one. -/
inductive ReadError
  | missingField (name : String)
  | duplicateField (name : String)
  | unknownField (name : String) (expected : List String)
  | unknownVariant (name : String) (expected : List String)
  | malformed
deriving DecidableEq, Repr

namespace ReadError

/-- A name between backticks. -/
def quoted (name : String) : String :=
  "`" ++ name ++ "`"

/-- The names that were possible: one, two with `or`, or a list. -/
def choices : List String → String
  | [] => ""
  | [a] => quoted a
  | [a, b] => quoted a ++ " or " ++ quoted b
  | names => "one of " ++ String.intercalate ", " (names.map quoted)

/-- What is said of an error; nothing of the malformed. -/
def message? : ReadError → Option String
  | .missingField name => some ("missing field " ++ quoted name)
  | .duplicateField name => some ("duplicate field " ++ quoted name)
  | .unknownField name expected =>
    some ("unknown field " ++ quoted name ++ ", expected " ++ choices expected)
  | .unknownVariant name expected =>
    some ("unknown variant " ++ quoted name ++ ", expected " ++ choices expected)
  | .malformed => none

end ReadError

/-- The JSON form of a type. -/
structure Codec (α : Type) where
  read : Json → Except ReadError α
  write : α → Json

namespace Codec

/-- Reads and writes through a type of the same values. -/
def map {α β : Type} (c : Codec α) (f : α → β) (g : β → α) : Codec β where
  read v := (c.read v).map f
  write b := c.write (g b)

/-- Texts, which have to be Unicode. -/
def text : Codec String where
  read
    | .text (some s) => .ok s
    | _ => .error .malformed
  write := Json.ofString

/-- Texts of a format of its own. -/
def textForm {α : Type} (parse : String → Option α) (print : α → String) : Codec α where
  read
    | .text (some s) => match parse s with
      | some a => .ok a
      | none => .error .malformed
    | _ => .error .malformed
  write a := Json.ofString (print a)

/-- 64-bit signed integers. -/
def int64 : Codec Int64 where
  read
    | .number d => match d.toInt64? with
      | some i => .ok i
      | none => .error .malformed
    | _ => .error .malformed
  write i := .number (.ofInt i.toInt)

/-- Reads the items of a list one after the other. -/
def readItems {α : Type} (c : Codec α) (closed : Bool) : List Json → Except ReadError (List α)
  | [] => if closed then .ok [] else .error .malformed
  | v :: vs => do
    let a ← c.read v
    let rest ← readItems c closed vs
    return a :: rest

/-- Lists of any length. -/
def list {α : Type} (c : Codec α) : Codec (List α) where
  read
    | .list items closed => readItems c closed items
    | _ => .error .malformed
  write xs := Json.ofList (xs.map c.write)

/-- Values that may be absent, which null stands for. -/
def optional {α : Type} (c : Codec α) : Codec (Option α) where
  read
    | .null => .ok none
    | v => (c.read v).map some
  write
    | some a => c.write a
    | none => .null

/-- The variant of a name. -/
def variant {α : Type} (variants : List (String × α)) (name : String) : Except ReadError α :=
  match variants.find? (·.1 == name) with
  | some (_, a) => .ok a
  | none => .error (.unknownVariant name (variants.map (·.1)))

/-- One of several named variants: the name, or an object with the name as its one key and null. -/
def oneOf {α : Type} (variants : List (String × α)) (name : α → String) : Codec α where
  read
    | .text (some s) => variant variants s
    | .object ((some s, v) :: ms) closed => do
      let a ← variant variants s
      match v, ms, closed with
      | .null, [], true => return a
      | _, _, _ => throw .malformed
    | _ => .error .malformed
  write a := Json.ofString (name a)

end Codec
end PipelineEditor
