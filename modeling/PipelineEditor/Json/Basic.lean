import PipelineEditor.Number.Decimal

/-! JSON values. A value may also be the part of a text that comes before its first fault: the place
of the fault is then a value of its own, and the lists and objects around it have no end. -/
namespace PipelineEditor

/-- A JSON value, or what a faulty text holds of one. A text is `none` when its escapes name a
surrogate without its partner: it can be passed over, but it is no Unicode text. Members of objects
stand in the order of the text, and a key may stand there more than once. -/
inductive Json
  | null
  | bool (value : Bool)
  | number (value : Number.Decimal)
  | text (value : Option String)
  | list (items : List Json) (closed : Bool)
  | object (members : List (Option String × Json)) (closed : Bool)
  | fault
deriving Repr

namespace Json

/-- A text value. -/
def ofString (s : String) : Json :=
  .text (some s)

/-- A list with its end. -/
def ofList (items : List Json) : Json :=
  .list items true

/-- An object with its end, from readable keys. -/
def ofMembers (members : List (String × Json)) : Json :=
  .object (members.map fun m => (some m.1, m.2)) true

mutual

/-- Whether the value came to its end without a fault. -/
def intact : Json → Bool
  | .list items closed => closed && itemsIntact items
  | .object members closed => closed && membersIntact members
  | .fault => false
  | _ => true

/-- Whether all items are intact. -/
def itemsIntact : List Json → Bool
  | [] => true
  | v :: vs => v.intact && itemsIntact vs

/-- Whether the values of all members are intact. -/
def membersIntact : List (Option String × Json) → Bool
  | [] => true
  | (_, v) :: ms => v.intact && membersIntact ms

end

end Json
end PipelineEditor
