import PipelineEditor.Codec.Basic

/-! Tables: finite maps from texts, kept in the order of their keys by code points. Tables with the
same entries are equal, whatever the order in which the entries came. -/
namespace PipelineEditor

/-- The entries of a table under strictly increasing keys. -/
structure Table (α : Type) where
  entries : List (String × α)
  sorted : entries.Pairwise fun a b => a.1 < b.1
deriving DecidableEq

namespace Table

variable {α : Type}

/-- Puts a value under a key, in place of the value that was there. -/
def insertEntry (key : String) (value : α) : List (String × α) → List (String × α)
  | [] => [(key, value)]
  | (k, v) :: rest =>
    if key < k then (key, value) :: (k, v) :: rest
    else if k < key then (k, v) :: insertEntry key value rest
    else (key, value) :: rest

private theorem forall_insertEntry {p : String → Prop} {key : String} {value : α}
    {es : List (String × α)} (hkey : p key) (hes : ∀ e ∈ es, p e.1) :
    ∀ e ∈ insertEntry key value es, p e.1 := by
  induction es with
  | nil => simpa [insertEntry] using hkey
  | cons e es ih => grind [insertEntry]

private theorem pairwise_insertEntry {key : String} {value : α} {es : List (String × α)}
    (h : es.Pairwise fun a b => a.1 < b.1) :
    (insertEntry key value es).Pairwise fun a b => a.1 < b.1 := by
  induction es with
  | nil => simp [insertEntry]
  | cons e es ih =>
    obtain ⟨he, hes⟩ := List.pairwise_cons.1 h
    unfold insertEntry
    split
    next hlt =>
      refine List.pairwise_cons.2 ⟨fun x hx => ?_, h⟩
      rcases List.mem_cons.1 hx with rfl | hx
      · exact hlt
      · exact String.lt_trans hlt (he x hx)
    next hlt =>
      split
      next hgt => exact List.pairwise_cons.2 ⟨forall_insertEntry hgt he, ih hes⟩
      next hgt =>
        have heq : key = e.1 := String.le_antisymm (String.not_lt.1 hgt) (String.not_lt.1 hlt)
        exact List.pairwise_cons.2 ⟨fun x hx => heq ▸ he x hx, hes⟩

def empty : Table α := ⟨[], List.Pairwise.nil⟩

/-- The table with a value under a key. -/
def insert (t : Table α) (key : String) (value : α) : Table α :=
  ⟨insertEntry key value t.entries, pairwise_insertEntry t.sorted⟩

/-- The value under a key. -/
def get? (t : Table α) (key : String) : Option α :=
  t.entries.lookup key

private theorem lookup_entry (key : String) (e : String × α) (es : List (String × α)) :
    (e :: es).lookup key = if key = e.1 then some e.2 else es.lookup key := by
  rw [List.lookup_cons]
  by_cases h : key = e.1
  · rw [if_pos h, beq_iff_eq.2 h]
  · rw [if_neg h, beq_eq_false_iff_ne.2 h]

private theorem lookup_insertEntry (key k : String) (value : α) (es : List (String × α)) :
    (insertEntry key value es).lookup k = if k = key then some value else es.lookup k := by
  induction es with
  | nil => rw [insertEntry, lookup_entry]
  | cons e es ih =>
    unfold insertEntry
    split
    next hlt => rw [lookup_entry]
    next hlt =>
      split
      next hgt =>
        have hne : e.1 ≠ key := fun h => String.lt_irrefl _ (h ▸ hgt)
        rw [lookup_entry, ih, lookup_entry]
        by_cases h : k = e.1 <;> simp_all
      next hgt =>
        have heq : key = e.1 := String.le_antisymm (String.not_lt.1 hgt) (String.not_lt.1 hlt)
        rw [lookup_entry, lookup_entry]
        by_cases h : k = key <;> simp_all

/-- A value is found under its key, and all others where they were. -/
theorem get?_insert (t : Table α) (key k : String) (value : α) :
    (t.insert key value).get? k = if k = key then some value else t.get? k :=
  lookup_insertEntry key k value t.entries

/-- The table of a list of entries, the last one of a key being kept. -/
def ofList (es : List (String × α)) : Table α :=
  es.foldl (fun t e => t.insert e.1 e.2) empty

def isEmpty (t : Table α) : Bool :=
  t.entries.isEmpty

def size (t : Table α) : Nat :=
  t.entries.length

end Table

/-- Reads the members of an object into a table from left to right. -/
def Codec.readEntries {α : Type} (c : Codec α) (closed : Bool) :
    List (Option String × Json) → Table α → Except ReadError (Table α)
  | [], t => if closed then .ok t else .error .malformed
  | (none, _) :: _, _ => .error .malformed
  | (some key, v) :: ms, t => do
    let a ← c.read v
    readEntries c closed ms (t.insert key a)

/-- Tables, as objects. -/
def Codec.table {α : Type} (c : Codec α) : Codec (Table α) where
  read
    | .object members closed => readEntries c closed members .empty
    | _ => .error .malformed
  write t := Json.ofMembers (t.entries.map fun e => (e.1, c.write e.2))

end PipelineEditor
