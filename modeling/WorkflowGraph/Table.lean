/-
Tables from names to values.

A table lists its names in increasing code-point order, each once, so two tables with the same
content are equal and every walk over a table meets its names in that order. `Table.insert`
replaces the value a name already has.
-/

namespace WorkflowGraph

/-- A table from names to values, listed in increasing order of the names. -/
structure Table (α : Type) where
  entries : List (String × α)
  ordered : entries.Pairwise fun earlier later => earlier.1 < later.1
deriving DecidableEq

namespace Table

variable {α : Type}

/-- The table with no names. -/
def empty : Table α :=
  ⟨[], .nil⟩

instance : Inhabited (Table α) :=
  ⟨empty⟩

/-- The entries with `name` set to `value`, in the place its order gives it. -/
def insertEntry (name : String) (value : α) : List (String × α) → List (String × α)
  | [] => [(name, value)]
  | (other, held) :: rest =>
    if name < other then (name, value) :: (other, held) :: rest
    else if name = other then (name, value) :: rest
    else (other, held) :: insertEntry name value rest

/-- An inserted entry list holds the new entry and entries it held before. -/
theorem mem_insertEntry {name : String} {value : α} {entries : List (String × α)}
    {entry : String × α} (member : entry ∈ insertEntry name value entries) :
    entry = (name, value) ∨ entry ∈ entries := by
  induction entries with
  | nil => simpa [insertEntry] using member
  | cons head rest ih =>
      obtain ⟨other, held⟩ := head
      unfold insertEntry at member
      split at member
      · simpa using member
      · split at member
        · rcases List.mem_cons.mp member with new | old
          · exact .inl new
          · exact .inr (List.mem_cons_of_mem _ old)
        · rcases List.mem_cons.mp member with first | later
          · exact .inr (first ▸ List.mem_cons_self)
          · exact (ih later).imp_right (List.mem_cons_of_mem _)

/-- Inserting keeps the names in increasing order. -/
theorem insertEntry_ordered (name : String) (value : α) {entries : List (String × α)}
    (ordered : entries.Pairwise fun earlier later => earlier.1 < later.1) :
    (insertEntry name value entries).Pairwise fun earlier later => earlier.1 < later.1 := by
  induction entries with
  | nil => simp [insertEntry]
  | cons head rest ih =>
      obtain ⟨other, held⟩ := head
      obtain ⟨first, later⟩ := List.pairwise_cons.mp ordered
      unfold insertEntry
      split
      · rename_i before
        refine List.pairwise_cons.mpr ⟨fun entry member => ?_, ordered⟩
        rcases List.mem_cons.mp member with same | inRest
        · exact same ▸ before
        · exact String.lt_trans before (first entry inRest)
      · split
        · rename_i _ same
          exact List.pairwise_cons.mpr ⟨fun entry member => same ▸ first entry member, later⟩
        · rename_i notBefore different
          refine List.pairwise_cons.mpr ⟨fun entry member => ?_, ih later⟩
          rcases mem_insertEntry member with new | old
          · subst new
            exact Std.lt_of_le_of_ne (String.not_lt.mp notBefore) (Ne.symm different)
          · exact first entry old

/-- The table with `name` set to `value`. -/
def insert (table : Table α) (name : String) (value : α) : Table α :=
  ⟨insertEntry name value table.entries, insertEntry_ordered name value table.ordered⟩

/-- The value of a name, if the table has it. -/
def get? (table : Table α) (name : String) : Option α :=
  table.entries.lookup name

/-- Whether the table has a name. -/
def contains (table : Table α) (name : String) : Bool :=
  (table.get? name).isSome

/-- The names of the table, in order. -/
def names (table : Table α) : List String :=
  table.entries.map (·.1)

/-- How many names the table has. -/
def size (table : Table α) : Nat :=
  table.entries.length

/-- Whether the table has no name. -/
def isEmpty (table : Table α) : Bool :=
  table.entries.isEmpty

/-- The table with every entry of `other` inserted; entries of `other` win. -/
def merge (table other : Table α) : Table α :=
  other.entries.foldl (fun result entry => result.insert entry.1 entry.2) table

/-- The table of a list of entries; of entries with one name the last wins. -/
def ofList (entries : List (String × α)) : Table α :=
  entries.foldl (fun result entry => result.insert entry.1 entry.2) empty

end Table

end WorkflowGraph
