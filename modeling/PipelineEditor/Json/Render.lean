import PipelineEditor.Json.Token

/-! The text of a JSON value, compact or on indented lines. -/
namespace PipelineEditor.Json

/-- How the parts of lists and objects are set apart: what stands before an item at a depth, and
what follows the colon of a member. -/
structure Spacing where
  line : Nat → List Char
  gap : List Char

/-- Everything on one line, without spaces. -/
def Spacing.compact : Spacing := ⟨fun _ => [], []⟩

/-- Every item on a line of its own, indented by two spaces a level. -/
def Spacing.pretty : Spacing := ⟨fun depth => '\n' :: List.replicate (2 * depth) ' ', [' ']⟩

/-- The text of a key or text value. One that is no Unicode text is written as a lone surrogate. -/
def textOf : Option String → List Char
  | some s => quote s
  | none => "\"\\ud800\"".toList

/-- The closing bracket of a list or object that has its end. -/
def ending (closed : Bool) (bracket : Char) : List Char :=
  if closed then [bracket] else []

mutual

/-- The text of a value that stands at a depth. The place of a fault has no text. -/
def write (l : Spacing) (depth : Nat) : Json → List Char
  | .null => "null".toList
  | .bool true => "true".toList
  | .bool false => "false".toList
  | .number d => numberText d
  | .text s => textOf s
  | .list [] closed => '[' :: ending closed ']'
  | .list (v :: vs) closed =>
    '[' :: l.line (depth + 1) ++ write l (depth + 1) v ++ writeItems l (depth + 1) vs ++
      l.line depth ++ ending closed ']'
  | .object [] closed => '{' :: ending closed '}'
  | .object ((k, v) :: ms) closed =>
    '{' :: l.line (depth + 1) ++ textOf k ++ ':' :: l.gap ++ write l (depth + 1) v ++
      writeMembers l (depth + 1) ms ++ l.line depth ++ ending closed '}'
  | .fault => []

/-- The items after the first. -/
def writeItems (l : Spacing) (depth : Nat) : List Json → List Char
  | [] => []
  | v :: vs => ',' :: l.line depth ++ write l depth v ++ writeItems l depth vs

/-- The members after the first. -/
def writeMembers (l : Spacing) (depth : Nat) : List (Option String × Json) → List Char
  | [] => []
  | (k, v) :: ms =>
    ',' :: l.line depth ++ textOf k ++ ':' :: l.gap ++ write l depth v ++
      writeMembers l depth ms

end

/-- The text of a value on one line. -/
def compact (v : Json) : String :=
  String.ofList (write .compact 0 v)

/-- The text of a value on indented lines. -/
def pretty (v : Json) : String :=
  String.ofList (write .pretty 0 v)

end PipelineEditor.Json
