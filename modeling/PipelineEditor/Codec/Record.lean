import PipelineEditor.Codec.Basic

/-! Records: types whose JSON form is an object of named fields. Fields may come in any order and
others among them are passed over; a list of the field values in declared order is read too. -/
namespace PipelineEditor

/-- One field of a record. A field with a value for its absence may be left out when read. A value
that `omitted` holds of is left out when written. -/
structure Field (α : Type) where
  key : String
  codec : Codec α
  absent : Option α
  omitted : α → Bool

namespace Field

/-- A field that has to be there. -/
def required {α : Type} (key : String) (codec : Codec α) : Field α :=
  ⟨key, codec, none, fun _ => false⟩

/-- A field that stands for a value when it is left out, and is always written. -/
def withDefault {α : Type} (key : String) (codec : Codec α) (absent : α) : Field α :=
  ⟨key, codec, some absent, fun _ => false⟩

/-- A field that is left out when its value is the one that absence stands for. -/
def omittable {α : Type} (key : String) (codec : Codec α) (absent : α) (omitted : α → Bool) : Field α :=
  ⟨key, codec, some absent, omitted⟩

end Field

/-- The fields of a record in declared order, with the type of all their values together. -/
inductive Fields : Type → Type 1
  | done : Fields Unit
  | field {α β : Type} (f : Field α) (rest : Fields β) : Fields (α × β)

namespace Fields

/-- The values found so far, one place per field. -/
def Slots : {τ : Type} → Fields τ → Type
  | _, .done => Unit
  | _, @field α _ _ rest => Option α × rest.Slots

/-- No values found yet. -/
def empty : {τ : Type} → (fs : Fields τ) → fs.Slots
  | _, .done => ()
  | _, .field _ rest => (none, rest.empty)

/-- Takes in a member: `none` when it belongs to no field. A second value for a field is refused
before it is looked at. -/
def put : {τ : Type} → (fs : Fields τ) → String → Json → fs.Slots → Option (Except ReadError fs.Slots)
  | _, .done, _, _, _ => none
  | _, @field α _ f rest, key, v, slots =>
    let slots : Option α × rest.Slots := slots
    if key = f.key then
      some (match slots.1 with
        | some _ => .error (.duplicateField f.key)
        | none => (f.codec.read v).map fun a => (some a, slots.2))
    else (rest.put key v slots.2).map fun r => r.map fun others => (slots.1, others)

/-- Takes in the members of an object from left to right. A key that is no Unicode text ends the
reading; the value of an unknown key has to be intact. -/
def putAll {τ : Type} (fs : Fields τ) :
    List (Option String × Json) → fs.Slots → Except ReadError fs.Slots
  | [], slots => .ok slots
  | (none, _) :: _, _ => .error .malformed
  | (some key, v) :: ms, slots =>
    match fs.put key v slots with
    | none => if v.intact then fs.putAll ms slots else .error .malformed
    | some (.ok slots) => fs.putAll ms slots
    | some (.error e) => .error e

/-- The values of all fields; the first field without one is missing. -/
def finish : {τ : Type} → (fs : Fields τ) → fs.Slots → Except ReadError τ
  | _, .done, _ => .ok ()
  | _, @field α _ f rest, slots =>
    let slots : Option α × rest.Slots := slots
    match slots.1.or f.absent with
    | some a => (rest.finish slots.2).map fun b => (a, b)
    | none => .error (.missingField f.key)

/-- Reads the values of all fields from a list in declared order. Fields with a value for their
absence may be left off the end. -/
def readItems : {τ : Type} → (fs : Fields τ) → List Json → Bool → Except ReadError τ
  | _, .done, items, closed => if items.isEmpty && closed then .ok () else .error .malformed
  | _, .field f rest, [], closed =>
    match f.absent with
    | some a => (rest.readItems [] closed).map fun b => (a, b)
    | none => .error .malformed
  | _, .field f rest, v :: vs, closed => do
    let a ← f.codec.read v
    let b ← rest.readItems vs closed
    return (a, b)

/-- The members that are written, in declared order. -/
def members : {τ : Type} → Fields τ → τ → List (String × Json)
  | _, .done, _ => []
  | _, .field f rest, (a, b) =>
    if f.omitted a then rest.members b else (f.key, f.codec.write a) :: rest.members b

end Fields

/-- The codec of a record, from its fields and the two ways between the record and their values. -/
def Codec.record {τ ρ : Type} (fs : Fields τ) (make : τ → ρ) (values : ρ → τ) : Codec ρ where
  read
    | .object members closed => do
      let slots ← fs.putAll members fs.empty
      if closed then (fs.finish slots).map make else throw .malformed
    | .list items closed => (fs.readItems items closed).map make
    | _ => .error .malformed
  write r := Json.ofMembers (fs.members (values r))

end PipelineEditor
