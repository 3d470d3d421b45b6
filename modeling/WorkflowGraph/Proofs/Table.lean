/-
Look-ups in tables: what a table holds after an insertion, and what the table of a list holds.

* `get?_insert` — an insertion changes the value of one name.
* `get?_ofList` — of several entries with one name the last one counts.
-/

import WorkflowGraph.Table

namespace WorkflowGraph.Table

variable {α : Type}

/-! ### Insertion -/

theorem lookup_cons_ite (name key : String) (value : α) (entries : List (String × α)) :
    ((name, value) :: entries).lookup key =
      if key = name then some value else entries.lookup key := by
  by_cases same : key = name
  · subst same
    simp
  · have different : (key == name) = false := beq_false_of_ne same
    simp [List.lookup_cons, different, same]

theorem lookup_insertEntry (name key : String) (value : α) (entries : List (String × α)) :
    (insertEntry name value entries).lookup key =
      if key = name then some value else entries.lookup key := by
  induction entries with
  | nil => exact lookup_cons_ite name key value []
  | cons head rest ih =>
      obtain ⟨other, held⟩ := head
      unfold insertEntry
      split
      · exact lookup_cons_ite name key value ((other, held) :: rest)
      · split
        · rename_i _ equal
          subst equal
          rw [lookup_cons_ite, lookup_cons_ite]
          split <;> rfl
        · rename_i _ different
          rw [lookup_cons_ite, lookup_cons_ite, ih]
          by_cases same : key = other
          · subst same
            rw [if_pos rfl, if_pos rfl, if_neg (Ne.symm different)]
          · rw [if_neg same, if_neg same]

@[simp]
theorem get?_empty (key : String) : (empty : Table α).get? key = none := rfl

/-- **An insertion changes the value of one name.** -/
theorem get?_insert (table : Table α) (name key : String) (value : α) :
    (table.insert name value).get? key = if key = name then some value else table.get? key :=
  lookup_insertEntry name key value table.entries

@[simp]
theorem get?_insert_self (table : Table α) (name : String) (value : α) :
    (table.insert name value).get? name = some value := by
  rw [get?_insert, if_pos rfl]

theorem get?_insert_of_ne (table : Table α) {name key : String} (value : α)
    (different : key ≠ name) : (table.insert name value).get? key = table.get? key := by
  rw [get?_insert, if_neg different]

theorem contains_iff {table : Table α} {key : String} :
    table.contains key = true ↔ ∃ value, table.get? key = some value := by
  rw [contains, Option.isSome_iff_exists]

theorem contains_eq_false_iff {table : Table α} {key : String} :
    table.contains key = false ↔ table.get? key = none := by
  rw [contains, Option.isSome_eq_false_iff, Option.isNone_iff_eq_none]

theorem isSome_lookup_iff {entries : List (String × α)} {key : String} :
    (entries.lookup key).isSome = true ↔ key ∈ entries.map (·.1) := by
  induction entries with
  | nil => simp
  | cons head rest ih =>
      obtain ⟨name, value⟩ := head
      rw [lookup_cons_ite, List.map_cons, List.mem_cons]
      by_cases same : key = name
      · simp [same]
      · rw [if_neg same, ih, or_iff_right same]

theorem mem_names_iff {table : Table α} {key : String} :
    key ∈ table.names ↔ (table.get? key).isSome = true :=
  isSome_lookup_iff.symm

/-! ### Tables of lists -/

theorem get?_foldl_insert (entries : List (String × α)) (table : Table α) (key : String) :
    (entries.foldl (fun result entry => result.insert entry.1 entry.2) table).get? key =
      (entries.reverse.lookup key).or (table.get? key) := by
  induction entries generalizing table with
  | nil => rfl
  | cons head rest ih =>
      rw [List.foldl_cons, ih, List.reverse_cons, List.lookup_append, get?_insert,
        lookup_cons_ite head.1 key head.2 []]
      by_cases same : key = head.1
      · rw [if_pos same, if_pos same]
        cases rest.reverse.lookup key <;> rfl
      · rw [if_neg same, if_neg same]
        cases rest.reverse.lookup key <;> rfl

/-- **The table of a list holds the last entry of each name.** -/
theorem get?_ofList (entries : List (String × α)) (key : String) :
    (ofList entries).get? key = entries.reverse.lookup key := by
  rw [ofList, get?_foldl_insert, get?_empty, Option.or_none]

theorem lookup_of_mem {entries : List (String × α)} (distinct : (entries.map (·.1)).Nodup)
    {name : String} {value : α} (member : (name, value) ∈ entries) :
    entries.lookup name = some value := by
  induction entries with
  | nil => cases member
  | cons head rest ih =>
      obtain ⟨absent, distinct⟩ := List.nodup_cons.mp distinct
      rw [lookup_cons_ite]
      rcases List.mem_cons.mp member with rfl | later
      · exact if_pos rfl
      · rw [if_neg fun same => absent (List.mem_map.mpr ⟨_, later, same⟩), ih distinct later]

/-- The table of a list with distinct names holds every entry. -/
theorem get?_ofList_of_mem {entries : List (String × α)} (distinct : (entries.map (·.1)).Nodup)
    {name : String} {value : α} (member : (name, value) ∈ entries) :
    (ofList entries).get? name = some value := by
  rw [get?_ofList]
  refine lookup_of_mem ?_ (List.mem_reverse.mpr member)
  rw [List.map_reverse]
  exact (List.reverse_perm _).nodup_iff.mpr distinct

/-- The names of the table of a list are those of its entries. -/
theorem mem_names_ofList {entries : List (String × α)} {key : String} :
    key ∈ (ofList entries).names ↔ key ∈ entries.map (·.1) := by
  rw [mem_names_iff, get?_ofList, isSome_lookup_iff, List.map_reverse, List.mem_reverse]

theorem lookup_map_pair (value : String → α) (names : List String) (key : String) :
    (names.map fun name => (name, value name)).lookup key =
      if key ∈ names then some (value key) else none := by
  induction names with
  | nil => rfl
  | cons head rest ih =>
      rw [List.map_cons, lookup_cons_ite, ih]
      by_cases same : key = head
      · subst same
        simp
      · simp [same]

/-- The table of a function's values at some names. -/
theorem get?_ofList_map (value : String → α) (names : List String) (key : String) :
    (ofList (names.map fun name => (name, value name))).get? key =
      if key ∈ names then some (value key) else none := by
  rw [get?_ofList, ← List.map_reverse, lookup_map_pair]
  simp only [List.mem_reverse]

/-! ### Entries -/

/-- A name behind all others is set at the end. -/
theorem insertEntry_of_last {name : String} (value : α) {entries : List (String × α)}
    (last : ∀ entry ∈ entries, entry.1 < name) :
    insertEntry name value entries = entries ++ [(name, value)] := by
  induction entries with
  | nil => rfl
  | cons first rest ih =>
      obtain ⟨before, later⟩ := List.forall_mem_cons.mp last
      have notBefore : ¬ name < first.1 :=
        fun after => String.lt_irrefl _ (String.lt_trans before after)
      have different : name ≠ first.1 := fun same => String.lt_irrefl _ (same ▸ before)
      rw [insertEntry, if_neg notBefore, if_neg different, ih later]
      rfl

theorem entries_foldl_insert {table : Table α} {entries : List (String × α)}
    (ordered : (table.entries ++ entries).Pairwise fun earlier later => earlier.1 < later.1) :
    (entries.foldl (fun result entry => result.insert entry.1 entry.2) table).entries =
      table.entries ++ entries := by
  induction entries generalizing table with
  | nil => exact (List.append_nil _).symm
  | cons entry rest ih =>
      have last : ∀ earlier ∈ table.entries, earlier.1 < entry.1 := fun earlier member =>
        (List.pairwise_append.mp ordered).2.2 earlier member entry List.mem_cons_self
      have step : (table.insert entry.1 entry.2).entries = table.entries ++ [entry] :=
        insertEntry_of_last _ last
      rw [List.foldl_cons, ih, step, List.append_assoc]
      · rfl
      · rw [step, List.append_assoc]
        exact ordered

/-- The table of its own entries is the table. -/
theorem ofList_entries (table : Table α) : ofList table.entries = table := by
  obtain ⟨entries, ordered⟩ := table
  have same := @entries_foldl_insert α empty entries ordered
  rw [ofList]
  generalize entries.foldl _ _ = result at same
  obtain ⟨_, _⟩ := result
  cases same
  rfl

theorem eq_empty_of_isEmpty {table : Table α} (isEmpty : table.isEmpty = true) : table = empty := by
  obtain ⟨entries, _⟩ := table
  obtain rfl := List.isEmpty_iff.mp isEmpty
  rfl

theorem mem_foldl_insert {table : Table α} {entries : List (String × α)} {entry : String × α}
    (member : entry ∈ (entries.foldl (fun result entry => result.insert entry.1 entry.2)
      table).entries) :
    entry ∈ table.entries ∨ entry ∈ entries := by
  induction entries generalizing table with
  | nil => exact .inl member
  | cons first rest ih =>
      rcases ih member with inserted | later
      · rcases mem_insertEntry inserted with rfl | old
        · exact .inr List.mem_cons_self
        · exact .inl old
      · exact .inr (List.mem_cons_of_mem _ later)

theorem mem_of_mem_ofList {entries : List (String × α)} {entry : String × α}
    (member : entry ∈ (ofList entries).entries) : entry ∈ entries :=
  (mem_foldl_insert member).resolve_left List.not_mem_nil

theorem mem_of_lookup {entries : List (String × α)} {name : String} {value : α}
    (found : entries.lookup name = some value) : (name, value) ∈ entries := by
  obtain ⟨before, after, rfl, _⟩ := List.lookup_eq_some_iff.mp found
  exact List.mem_append_right _ List.mem_cons_self

end WorkflowGraph.Table
