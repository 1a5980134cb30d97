import PipelineEditor.Json.Token

/-! Documents: the value that a row of tokens spells, built from left to right. A token that does
not fit ends the document, and what was built up to there is kept. -/
namespace PipelineEditor.Json

/-- Where a value is wanted: at the root, behind earlier items of a list, or behind earlier members
of an object as the value of a key. Earlier items and members stand in reverse. -/
inductive Place
  | root
  | item (before : List Json) (outer : Place)
  | member (before : List (Option String × Json)) (key : Option String) (outer : Place)

/-- What may come next. -/
inductive Awaiting
  | value (place : Place)
  | firstItem (outer : Place)
  | afterItem (items : List Json) (outer : Place)
  | firstKey (outer : Place)
  | key (members : List (Option String × Json)) (outer : Place)
  | colon (members : List (Option String × Json)) (key : Option String) (outer : Place)
  | afterMember (members : List (Option String × Json)) (outer : Place)
  | nothing (root : Json)

/-- What may come after a value that stands at a place. -/
def Place.fill : Place → Json → Awaiting
  | .root, v => .nothing v
  | .item before outer, v => .afterItem (v :: before) outer
  | .member before key outer, v => .afterMember ((key, v) :: before) outer

/-- The value that a fault leaves behind when it came after `v` at a place. -/
def Place.cut : Place → Json → Json
  | .root, v => v
  | .item before outer, v => outer.cut (.list (v :: before).reverse false)
  | .member before key outer, v => outer.cut (.object ((key, v) :: before).reverse false)

/-- Starts a value at a place. -/
def Place.start (p : Place) : Token → Option Awaiting
  | .null => some (p.fill .null)
  | .bool b => some (p.fill (.bool b))
  | .number d => some (p.fill (.number d))
  | .text s => some (p.fill (.text s))
  | .beginList => some (.firstItem p)
  | .beginObject => some (.firstKey p)
  | _ => none

/-- What may come after one more token, if it fits. -/
def Awaiting.step : Awaiting → Token → Option Awaiting
  | .value p, t => p.start t
  | .firstItem outer, .endList => some (outer.fill (.list [] true))
  | .firstItem outer, t => (Place.item [] outer).start t
  | .afterItem items outer, .comma => some (.value (.item items outer))
  | .afterItem items outer, .endList => some (outer.fill (.list items.reverse true))
  | .firstKey outer, .endObject => some (outer.fill (.object [] true))
  | .firstKey outer, .text k => some (.colon [] k outer)
  | .key members outer, .text k => some (.colon members k outer)
  | .colon members k outer, .colon => some (.value (.member members k outer))
  | .afterMember members outer, .comma => some (.key members outer)
  | .afterMember members outer, .endObject => some (outer.fill (.object members.reverse true))
  | _, _ => none

/-- What has been built when no further token fits. -/
def Awaiting.cut : Awaiting → Json
  | .value p => p.cut .fault
  | .firstItem outer => outer.cut (.list [] false)
  | .afterItem items outer => outer.cut (.list items.reverse false)
  | .firstKey outer => outer.cut (.object [] false)
  | .key members outer => outer.cut (.object members.reverse false)
  | .colon members k outer => outer.cut (.object ((k, .fault) :: members).reverse false)
  | .afterMember members outer => outer.cut (.object members.reverse false)
  | .nothing root => root

/-- A document: its value, and whether the text holds that value and nothing else. -/
structure Document where
  root : Json
  complete : Bool

/-- Goes on with a document token by token. -/
def build : Awaiting → List Token → Document
  | .nothing v, [] => ⟨v, true⟩
  | a, [] => ⟨a.cut, false⟩
  | a, t :: ts =>
    match a.step t with
    | some b => build b ts
    | none => ⟨a.cut, false⟩

/-- The document that a text holds. -/
def Document.ofString (s : String) : Document :=
  build (.value .root) (tokens s.toList)

end PipelineEditor.Json
