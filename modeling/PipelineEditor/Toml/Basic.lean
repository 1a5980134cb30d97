/-! TOML values and tables, and how the parts of a document are put together into one table. -/
namespace PipelineEditor.Toml

/-- How a table came to be. A table of its own header and an inline one are complete; one that a
longer header or a dotted key passed through is not. -/
inductive Origin
  | header
  | inline
  | parent
  | dotted
deriving DecidableEq, Repr

/-- A TOML value. The values of floats and dates are of no use here and left out. Tables keep the
order of their entries. -/
inductive Value
  | text (value : String)
  | integer (value : Int)
  | boolean (value : Bool)
  | float
  | date
  | array (items : List Value)
  | table (origin : Origin) (entries : List (String × Value))
  | tables (elements : List (List (String × Value)))
deriving Repr

/-- The entries of a table. -/
abbrev Entries := List (String × Value)

namespace Entries

/-- Replaces the value under a key, or adds it at the end. -/
def put (key : String) (value : Value) : Entries → Entries
  | [] => [(key, value)]
  | (k, v) :: rest => if k = key then (k, value) :: rest else (k, v) :: put key value rest

/-- The table without a key. -/
def erase (key : String) (entries : Entries) : Entries :=
  entries.filter fun e => e.1 != key

end Entries

/-- Changes the table at the end of a path. Tables that are missing on the way are made; a path
leads through the last element of an array of tables. Dotted keys do not lead through complete
tables, and no path leads through other values or inline tables. -/
def update (dotted : Bool) (change : Origin → Entries → Option Entries) :
    List String → Origin → Entries → Option Entries
  | [], origin, entries => change origin entries
  | key :: path, _, entries =>
    match entries.lookup key with
    | none => do
      let origin := if dotted then Origin.dotted else .parent
      let inner ← update dotted change path origin []
      return entries ++ [(key, .table origin inner)]
    | some (.table origin inner) =>
      if origin = .inline ∨ (dotted ∧ origin = .header) then none
      else do
        let inner ← update dotted change path origin inner
        return entries.put key (.table origin inner)
    | some (.tables elements) => do
      let last ← elements.getLast?
      let inner ← update dotted change path .header last
      return entries.put key (.tables (elements.dropLast ++ [inner]))
    | some _ => none

/-- A key with its value, behind the tables that a dotted key names. -/
structure Assignment where
  path : List String
  key : String
  value : Value

/-- Enters an assignment. Its key must be new, and a dotted key must end in a table that dotted keys
made. -/
def assign (origin : Origin) (entries : Entries) (a : Assignment) : Option Entries :=
  update true (fun o es =>
    if (o == .dotted) == a.path.isEmpty || (es.lookup a.key).isSome then none
    else some (es ++ [(a.key, a.value)])) a.path origin entries

/-- Enters assignments one after the other. -/
def fill (origin : Origin) (entries : Entries) (assignments : List Assignment) : Option Entries :=
  assignments.foldlM (assign origin) entries

/-- The header of a section: the path of a table, or of an array of tables. -/
structure Header where
  path : List String
  key : String
  array : Bool

/-- A header with the assignments below it. -/
structure Section where
  header : Header
  assignments : List Assignment

/-- Enters a section. A table may have been passed through before, but not have been completed; an
element is added to an array of tables. -/
def enter (root : Entries) (s : Section) : Option Entries :=
  update false (fun _ es =>
    match s.header.array, es.lookup s.header.key with
    | false, none => do
      let inner ← fill .header [] s.assignments
      return es ++ [(s.header.key, .table .header inner)]
    | false, some (.table .parent before) => do
      let inner ← fill .header before s.assignments
      return es.erase s.header.key ++ [(s.header.key, .table .header inner)]
    | true, none => do
      let inner ← fill .header [] s.assignments
      return es ++ [(s.header.key, .tables [inner])]
    | true, some (.tables elements) => do
      let inner ← fill .header [] s.assignments
      return es.put s.header.key (.tables (elements ++ [inner]))
    | _, _ => none) s.header.path .header root

/-- The table of a document: the assignments before the first header, then section by section. -/
def assemble (top : List Assignment) (sections : List Section) : Option Entries := do
  sections.foldlM enter (← fill .header [] top)

end PipelineEditor.Toml
