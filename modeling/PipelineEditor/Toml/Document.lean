import PipelineEditor.Toml.Basic
import PipelineEditor.Toml.Scalar

/-! TOML documents: keys, values, headers, and the table that a text holds. -/
namespace PipelineEditor.Toml

open Text (Scanner)
open Text.Scanner

/-- The characters of keys without quotes. -/
def isBare (c : Char) : Bool :=
  c.isAlphanum || c == '_' || c == '-'

/-- How deep arrays, inline tables and keys go at most. -/
def depthLimit : Nat := 80

/-- Takes a key between dots. -/
def simpleKey : Scanner String := do
  match ← peek with
  | some '"' | some '\'' => String.ofList <$> lineText
  | _ => String.ofList <$> oneOrMore isBare

/-- Takes a key with its dots: the tables it leads through, and the last part. -/
def key : Scanner (List String × String) := do
  let rec parts : Nat → Scanner (List String)
    | 0 => failure
    | fuel + 1 => do
      spaces
      let k ← simpleKey
      spaces
      match ← optional (char '.') with
      | some _ => return k :: (← parts fuel)
      | none => return [k]
  let ks ← parts (depthLimit - 1)
  return (ks.dropLast, ks.getLastD "")

mutual

/-- Takes a value that stands in `depth` arrays and inline tables. -/
def value (depth : Nat) : Nat → Scanner Value
  | 0 => failure
  | fuel + 1 => do
    match ← peek with
    | some '"' | some '\'' => .text <$> text
    | some '[' =>
      guard (depth + 1 < depthLimit)
      char '['
      .array <$> items (depth + 1) fuel
    | some '\x7b' =>
      guard (depth + 1 < depthLimit)
      char '\x7b'
      let assignments ← inlineAssignments (depth + 1) fuel
      .table .inline <$> liftM (fill .inline [] assignments)
    | some 't' => do
      literal ['t', 'r', 'u', 'e']
      return .boolean true
    | some 'f' => do
      literal ['f', 'a', 'l', 's', 'e']
      return .boolean false
    | _ =>
      (do date; return .date) <|> (do decimal; return .float) <|> (do special; return .float) <|>
        .integer <$> integer
termination_by structural fuel => fuel

/-- Takes the items of an array up to its end. The last one may be followed by a comma. -/
def items (depth : Nat) : Nat → Scanner (List Value)
  | 0 => failure
  | fuel + 1 => do
    filler fuel
    match ← optional (char ']') with
    | some _ => return []
    | none => do
      let v ← value depth fuel
      filler fuel
      match ← optional (char ',') with
      | some _ => return v :: (← items depth fuel)
      | none => do
        char ']'
        return [v]
termination_by structural fuel => fuel

/-- Takes the assignments of an inline table up to its end. -/
def inlineAssignments (depth : Nat) : Nat → Scanner (List Assignment)
  | 0 => failure
  | fuel + 1 => do
    spaces
    match ← optional (char '\x7d') with
    | some _ => return []
    | none => moreAssignments depth fuel
termination_by structural fuel => fuel

/-- Takes the assignments of an inline table from one that has to be there. -/
def moreAssignments (depth : Nat) : Nat → Scanner (List Assignment)
  | 0 => failure
  | fuel + 1 => do
    let (path, k) ← key
    char '='
    spaces
    let v ← value depth fuel
    spaces
    match ← oneOf fun c => c == ',' || c == '\x7d' with
    | ',' => return ⟨path, k, v⟩ :: (← moreAssignments depth fuel)
    | _ => return [⟨path, k, v⟩]
termination_by structural fuel => fuel

end

/-- Takes an assignment with the rest of its line. -/
def assignment : Scanner Assignment := do
  let (path, k) ← key
  char '='
  spaces
  let v ← value 0 (2 * (← get).length + 2)
  restOfLine
  return ⟨path, k, v⟩

/-- Takes a header with the rest of its line. -/
def header : Scanner Header := do
  char '['
  let array := (← optional (char '[')).isSome
  let (path, k) ← key
  char ']'
  if array then char ']'
  restOfLine
  return ⟨path, k, array⟩

/-- A line of a document. -/
inductive Line
  | empty
  | header (h : Header)
  | assignment (a : Assignment)

/-- Takes a line. -/
def line : Scanner Line := do
  spaces
  match ← peek with
  | none => return .empty
  | some '#' => do
    comment
    lineEnd
    return .empty
  | some '\n' | some '\r' => do
    newline
    return .empty
  | some '[' => .header <$> header
  | some _ => .assignment <$> assignment

/-- Takes all lines up to the end of the text. -/
def lines : Nat → Scanner (List Line)
  | 0 => return []
  | fuel + 1 => do
    let l ← line
    if (← get).isEmpty then return [l] else return l :: (← lines fuel)

/-- The assignments before the first header, and the sections. -/
def sections : List Line → List Assignment × List Section
  | [] => ([], [])
  | .empty :: ls => sections ls
  | .assignment a :: ls =>
    let (top, rest) := sections ls
    (a :: top, rest)
  | .header h :: ls =>
    let (below, rest) := sections ls
    ([], ⟨h, below⟩ :: rest)

/-- The table that a text holds, if it is TOML. A byte order mark may stand before it. -/
def ofString? (s : String) : Option Entries := do
  let cs := s.toList
  let cs := if cs.head? = some '\ufeff' then cs.drop 1 else cs
  let ls ← (lines (cs.length + 1)).whole? cs
  let (top, rest) := sections ls
  assemble top rest

end PipelineEditor.Toml
