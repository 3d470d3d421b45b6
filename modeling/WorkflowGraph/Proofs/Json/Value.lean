/-
JSON values and their readings.

* `Json.height` — how deep containers nest in a value. `Json.isExact` says that all its numbers are
  integers of the kept range, and `Json.isOrdered` that the members of all its objects are in
  increasing order of their names.
* `Reading.take_ofJson` — a reader that takes in the reading of an ordered value gets this value.
* `Reading.of_take` — whatever is taken in is ordered, and no deeper than its reading.
-/

import WorkflowGraph.Json.Reading
import WorkflowGraph.Proofs.Table

namespace WorkflowGraph

namespace Json

/-! ### Values -/

/-- What holds of a container as soon as it holds of all that is in it holds of every value. -/
@[elab_as_elim]
theorem induction {P : Json → Prop} (null : P null) (bool : ∀ b, P (bool b))
    (number : ∀ n, P (number n)) (string : ∀ s, P (string s))
    (array : ∀ items, (∀ item ∈ items, P item) → P (array items))
    (object : ∀ members, (∀ member ∈ members, P member.2) → P (object members)) (value : Json) :
    P value :=
  value.rec null bool number string array object (fun _ h => nomatch h)
    (fun _ _ first rest => List.forall_mem_cons.mpr ⟨first, rest⟩) (fun _ h => nomatch h)
    (fun _ _ first rest => List.forall_mem_cons.mpr ⟨first, rest⟩) (fun _ _ value => value)

/-- How deep containers nest in a value. -/
def height (value : Json) : Nat :=
  (Reading.ofJson value).height

mutual

/-- Whether a condition holds of a value and of all values in it. -/
def all (holds : Json → Bool) : Json → Bool
  | array items => holds (array items) && allItems holds items
  | object members => holds (object members) && allMembers holds members
  | value => holds value

/-- Whether a condition holds of items and of all values in them. -/
def allItems (holds : Json → Bool) : List Json → Bool
  | [] => true
  | item :: rest => all holds item && allItems holds rest

/-- Whether a condition holds of the values of members and of all values in them. -/
def allMembers (holds : Json → Bool) : List (String × Json) → Bool
  | [] => true
  | (_, value) :: rest => all holds value && allMembers holds rest

end

/-- Whether a value is an integer of the kept range, if it is a number. -/
def hasKeptNumber : Json → Bool
  | number (.integer value) => -(Nat.pow 2 63 : Int) ≤ value && value < (Nat.pow 2 64 : Int)
  | number (.real _) => false
  | _ => true

/-- Whether a value has its members in increasing order of their names, if it is an object. -/
def hasOrderedNames : Json → Bool
  | object members => decide (members.Pairwise fun earlier later => earlier.1 < later.1)
  | _ => true

/-- Whether all numbers in a value are integers from `-2 ^ 63` to `2 ^ 64 - 1`. -/
def isExact (value : Json) : Bool :=
  value.all hasKeptNumber

/-- Whether all objects in a value have their members in increasing order of their names, so that
each name occurs once. -/
def isOrdered (value : Json) : Bool :=
  value.all hasOrderedNames

theorem allItems_iff {holds : Json → Bool} {items : List Json} :
    allItems holds items = true ↔ ∀ item ∈ items, item.all holds = true := by
  induction items with
  | nil => simp [allItems]
  | cons item rest ih => simp [allItems, ih]

theorem allMembers_iff {holds : Json → Bool} {members : List (String × Json)} :
    allMembers holds members = true ↔ ∀ member ∈ members, member.2.all holds = true := by
  induction members with
  | nil => simp [allMembers]
  | cons member rest ih => simp [allMembers, ih]

/-- A condition holds of the values of all members. -/
def ForMembers (P : Json → Prop) (members : List (String × Json)) : Prop :=
  ∀ member ∈ members, P member.2

section ForMembers

variable {α : Type} {P : Json → Prop} {encode : α → Json}

@[simp] theorem forMembers_nil : ForMembers P [] :=
  nofun

@[simp] theorem forMembers_cons {member : String × Json} {members : List (String × Json)} :
    ForMembers P (member :: members) ↔ P member.2 ∧ ForMembers P members :=
  List.forall_mem_cons

@[simp] theorem forMembers_append {members others : List (String × Json)} :
    ForMembers P (members ++ others) ↔ ForMembers P members ∧ ForMembers P others :=
  List.forall_mem_append

@[simp] theorem forMembers_map {entries : List (String × α)} :
    ForMembers P (entries.map fun entry => (entry.1, encode entry.2)) ↔
      ∀ entry ∈ entries, P (encode entry.2) :=
  List.forall_mem_map

@[simp] theorem forMembers_optionalMember {name : String} {value : Option α} :
    ForMembers P (optionalMember name encode value) ↔ ∀ a, value = some a → P (encode a) := by
  cases value <;> simp [optionalMember]

end ForMembers

@[simp] theorem isExact_string (text : String) : (string text).isExact = true := rfl

theorem isExact_integer {value : Int} :
    (number (.integer value)).isExact = true ↔ -(Nat.pow 2 63 : Int) ≤ value ∧
      value < (Nat.pow 2 64 : Int) := by
  simp only [isExact, all, hasKeptNumber, Bool.and_eq_true, decide_eq_true_eq]

@[simp] theorem isExact_array {items : List Json} :
    (array items).isExact = true ↔ ∀ item ∈ items, item.isExact = true := by
  simp [isExact, all, hasKeptNumber, allItems_iff]

@[simp] theorem isExact_object {members : List (String × Json)} :
    (object members).isExact = true ↔ ForMembers (isExact · = true) members := by
  simp [isExact, all, hasKeptNumber, allMembers_iff, ForMembers]

@[simp] theorem isExact_listMember {α : Type} {name : String} {encode : α → Json}
    {values : List α} :
    ForMembers (isExact · = true) (listMember name encode values) ↔
      ∀ a ∈ values, (encode a).isExact = true := by
  cases values <;> simp [listMember]

theorem isOrdered_array {items : List Json} :
    (array items).isOrdered = true ↔ ∀ item ∈ items, item.isOrdered = true := by
  simp [isOrdered, all, hasOrderedNames, allItems_iff]

theorem isOrdered_object {members : List (String × Json)} :
    (object members).isOrdered = true ↔
      (members.Pairwise fun earlier later => earlier.1 < later.1) ∧
      ForMembers (isOrdered · = true) members := by
  simp [isOrdered, all, hasOrderedNames, allMembers_iff, ForMembers]

/-! ### Readings of values -/

namespace Reading

theorem ofItems_eq_map (items : List Json) : ofItems items = items.map ofJson := by
  induction items with
  | nil => rfl
  | cons item rest ih => rw [ofItems, ih, List.map_cons]

theorem ofMembers_eq_map (members : List (String × Json)) :
    ofMembers members = members.map fun member => (member.1, ofJson member.2) := by
  induction members with
  | nil => rfl
  | cons member rest ih => rw [ofMembers, ih, List.map_cons]

theorem heightItems_le_iff {items : List Reading} {bound : Nat} :
    heightItems items ≤ bound ↔ ∀ item ∈ items, item.height ≤ bound := by
  induction items with
  | nil => simp [heightItems]
  | cons item rest ih => rw [heightItems, Nat.max_le, ih, List.forall_mem_cons]

theorem heightMembers_le_iff {members : List (String × Reading)} {bound : Nat} :
    heightMembers members ≤ bound ↔ ∀ member ∈ members, member.2.height ≤ bound := by
  induction members with
  | nil => simp [heightMembers]
  | cons member rest ih => rw [heightMembers, Nat.max_le, ih, List.forall_mem_cons]

theorem height_le_of_mem_items {items : List Reading} {stop : Option Obstacle} {bound : Nat}
    (within : (array items stop).height ≤ bound) {item : Reading} (member : item ∈ items) :
    item.height ≤ bound - 1 :=
  heightItems_le_iff.mp (Nat.le_sub_one_of_lt within) item member

theorem height_le_of_mem_members {members : List (String × Reading)} {stop : Option Obstacle}
    {bound : Nat} (within : (object members stop).height ≤ bound) {member : String × Reading}
    (inside : member ∈ members) :
    member.2.height ≤ bound - 1 :=
  heightMembers_le_iff.mp (Nat.le_sub_one_of_lt within) member inside

end Reading

theorem height_array_le_iff {items : List Json} {bound : Nat} :
    (array items).height ≤ bound + 1 ↔ ∀ item ∈ items, item.height ≤ bound := by
  rw [height, Reading.ofJson, Reading.height, Nat.add_le_add_iff_right, Reading.heightItems_le_iff,
    Reading.ofItems_eq_map, List.forall_mem_map]
  rfl

theorem height_object_le_iff {members : List (String × Json)} {bound : Nat} :
    (object members).height ≤ bound + 1 ↔ ∀ member ∈ members, member.2.height ≤ bound := by
  rw [height, Reading.ofJson, Reading.height, Nat.add_le_add_iff_right,
    Reading.heightMembers_le_iff, Reading.ofMembers_eq_map, List.forall_mem_map]
  rfl

theorem height_lt_array {items : List Json} {item : Json} (member : item ∈ items) :
    item.height < (array items).height :=
  Nat.lt_succ_of_le (height_array_le_iff.mp (Nat.le_refl _) item member)

theorem height_lt_object {members : List (String × Json)} {name : String} {value : Json}
    (inside : (name, value) ∈ members) : value.height < (object members).height :=
  Nat.lt_succ_of_le (height_object_le_iff.mp (Nat.le_refl _) (name, value) inside)

/-- A value that can be read back from its text inside of other values: all its numbers are kept,
and it is no deeper than the places around it allow. -/
structure Printable (bound : Nat) (value : Json) : Prop where
  exact : value.isExact = true
  shallow : value.height ≤ bound

namespace Printable

variable {bound : Nat}

@[simp] theorem string (text : String) : (Json.string text).Printable bound :=
  ⟨rfl, Nat.zero_le _⟩

@[simp] theorem bool (b : Bool) : (Json.bool b).Printable bound :=
  ⟨rfl, Nat.zero_le _⟩

theorem ofNat {n : Nat} (kept : n < Nat.pow 2 64) : (Json.ofNat n).Printable bound :=
  ⟨isExact_integer.mpr ⟨by omega, Int.ofNat_lt.mpr kept⟩, Nat.zero_le _⟩

@[simp] theorem array_iff {items : List Json} :
    (Json.array items).Printable (bound + 1) ↔ ∀ item ∈ items, item.Printable bound := by
  constructor
  · intro printable item member
    exact ⟨isExact_array.mp printable.exact item member,
      height_array_le_iff.mp printable.shallow item member⟩
  · intro each
    exact ⟨isExact_array.mpr fun item member => (each item member).exact,
      height_array_le_iff.mpr fun item member => (each item member).shallow⟩

@[simp] theorem object_iff {members : List (String × Json)} :
    (Json.object members).Printable (bound + 1) ↔ ForMembers (Printable bound) members := by
  constructor
  · intro printable member inside
    exact ⟨isExact_object.mp printable.exact member inside,
      height_object_le_iff.mp printable.shallow member inside⟩
  · intro each
    exact ⟨isExact_object.mpr fun member inside => (each member inside).exact,
      height_object_le_iff.mpr fun member inside => (each member inside).shallow⟩

@[simp] theorem listMember_iff {α : Type} {name : String} {encode : α → Json} {values : List α} :
    ForMembers (Printable (bound + 1)) (listMember name encode values) ↔
      ∀ a ∈ values, (encode a).Printable bound := by
  cases values <;> simp [listMember]

end Printable

/-! ### Taking the reading of a value in -/

namespace Reading

/-- Nothing is in the way in the reading of a value. -/
theorem exists_take_ofJson (value : Json) : ∃ taken, (ofJson value).take = .ok taken := by
  induction value using Json.induction with
  | null => exact ⟨_, rfl⟩
  | bool b => exact ⟨_, rfl⟩
  | number n => exact ⟨_, rfl⟩
  | string s => exact ⟨_, rfl⟩
  | array items ih =>
      have all : ∃ values, takeItems (ofItems items) = .ok values := by
        induction items with
        | nil => exact ⟨[], rfl⟩
        | cons item rest step =>
            obtain ⟨first, later⟩ := List.forall_mem_cons.mp ih
            obtain ⟨value, taken⟩ := first
            obtain ⟨values, others⟩ := step later
            exact ⟨value :: values, by rw [ofItems, takeItems, taken, others]; rfl⟩
      obtain ⟨values, taken⟩ := all
      exact ⟨.array values, by rw [ofJson, take, taken]; rfl⟩
  | object members ih =>
      have all (before) : ∃ values, takeMembers (ofMembers members) before = .ok values := by
        induction members generalizing before with
        | nil => exact ⟨before, rfl⟩
        | cons member rest step =>
            obtain ⟨first, later⟩ := List.forall_mem_cons.mp ih
            obtain ⟨value, taken⟩ := first
            obtain ⟨values, others⟩ := step later (setMember before member.1 value)
            exact ⟨values, by rw [ofMembers, takeMembers, taken, ← others]; rfl⟩
      obtain ⟨values, taken⟩ := all []
      exact ⟨.object values, by rw [ofJson, take, taken]; rfl⟩

theorem takeItems_ofItems {items : List Json}
    (taken : ∀ item ∈ items, (ofJson item).take = .ok item) :
    takeItems (ofItems items) = .ok items := by
  induction items with
  | nil => rfl
  | cons item rest ih =>
      obtain ⟨first, later⟩ := List.forall_mem_cons.mp taken
      rw [ofItems, takeItems, first, ih later]
      rfl

theorem takeMembers_ofMembers {members before : List (String × Json)}
    (ordered : (before ++ members).Pairwise fun earlier later => earlier.1 < later.1)
    (taken : ∀ member ∈ members, (ofJson member.2).take = .ok member.2) :
    takeMembers (ofMembers members) before = .ok (before ++ members) := by
  induction members generalizing before with
  | nil => rw [ofMembers, takeMembers, List.append_nil]
  | cons member rest ih =>
      obtain ⟨first, later⟩ := List.forall_mem_cons.mp taken
      have last : ∀ earlier ∈ before, earlier.1 < member.1 := fun earlier inBefore =>
        (List.pairwise_append.mp ordered).2.2 earlier inBefore member List.mem_cons_self
      have step : setMember before member.1 member.2 = before ++ [member] :=
        Table.insertEntry_of_last _ last
      rw [ofMembers, takeMembers, first]
      change takeMembers (ofMembers rest) (setMember before member.1 member.2) = _
      rw [step, ih (by rwa [List.append_assoc]) later, List.append_assoc]
      rfl

/-- **Taking in the reading of an ordered value gives the value.** -/
theorem take_ofJson {value : Json} (ordered : value.isOrdered = true) :
    (ofJson value).take = .ok value := by
  induction value using Json.induction with
  | null => rfl
  | bool b => rfl
  | number n => rfl
  | string s => rfl
  | array items ih =>
      have each := isOrdered_array.mp ordered
      rw [ofJson, take, takeItems_ofItems fun item member => ih item member (each item member)]
      rfl
  | object members ih =>
      obtain ⟨names, each⟩ := isOrdered_object.mp ordered
      have taken : takeMembers (ofMembers members) [] = .ok members :=
        @takeMembers_ofMembers members [] names fun member inside =>
          ih member inside (each member inside)
      rw [ofJson, take, taken]
      rfl

/-! ### What is taken in -/

/-- What holds of a container as soon as it holds of all that is in it holds of every reading. -/
@[elab_as_elim]
theorem induction {P : Reading → Prop} (null : P null) (bool : ∀ b, P (bool b))
    (number : ∀ n, P (number n)) (string : ∀ s, P (string s))
    (array : ∀ items stop, (∀ item ∈ items, P item) → P (array items stop))
    (object : ∀ members stop, (∀ member ∈ members, P member.2) → P (object members stop))
    (blocked : ∀ obstacle, P (blocked obstacle)) (reading : Reading) : P reading :=
  reading.rec null bool number string array object blocked (fun _ h => nomatch h)
    (fun _ _ first rest => List.forall_mem_cons.mpr ⟨first, rest⟩) (fun _ h => nomatch h)
    (fun _ _ first rest => List.forall_mem_cons.mpr ⟨first, rest⟩) (fun _ _ value => value)

/-- A computation that gives a value has got through its first part. -/
theorem exists_of_bind_eq_ok {α β : Type} {first : Except Fault α} {second : α → Except Fault β}
    {value : β} (found : (first >>= second) = .ok value) :
    ∃ middle, first = .ok middle ∧ second middle = .ok value := by
  cases first with
  | error fault => cases found
  | ok middle => exact ⟨middle, rfl, found⟩

theorem exists_of_map_ok {α β : Type} {outcome : Except Fault α} {f : α → β} {value : β}
    (found : outcome.map f = .ok value) : ∃ made, outcome = .ok made ∧ f made = value := by
  cases outcome with
  | error fault => cases found
  | ok made =>
      cases found
      exact ⟨made, rfl, rfl⟩

theorem of_takeItems {items : List Reading} {values : List Json}
    (taken : takeItems items = .ok values) :
    ∀ value ∈ values, ∃ item ∈ items, item.take = .ok value := by
  induction items generalizing values with
  | nil =>
      cases taken
      simp
  | cons item rest ih =>
      obtain ⟨first, takenFirst, taken⟩ := exists_of_bind_eq_ok taken
      obtain ⟨others, takenOthers, taken⟩ := exists_of_bind_eq_ok taken
      cases taken
      refine List.forall_mem_cons.mpr ⟨⟨item, List.mem_cons_self, takenFirst⟩, fun value member =>
        ?_⟩
      obtain ⟨source, inRest, takenSource⟩ := ih takenOthers value member
      exact ⟨source, List.mem_cons_of_mem _ inRest, takenSource⟩

theorem of_takeMembers {members : List (String × Reading)} {before values : List (String × Json)}
    (taken : takeMembers members before = .ok values)
    (ordered : before.Pairwise fun earlier later => earlier.1 < later.1) :
    (values.Pairwise fun earlier later => earlier.1 < later.1) ∧
      ∀ value ∈ values, value ∈ before ∨ ∃ member ∈ members, member.2.take = .ok value.2 := by
  induction members generalizing before with
  | nil =>
      cases taken
      exact ⟨ordered, fun value member => .inl member⟩
  | cons member rest ih =>
      obtain ⟨first, takenFirst, taken⟩ := exists_of_bind_eq_ok taken
      obtain ⟨kept, each⟩ := ih taken (Table.insertEntry_ordered _ _ ordered)
      refine ⟨kept, fun value inValues => ?_⟩
      rcases each value inValues with inserted | ⟨source, inRest, takenSource⟩
      · rcases Table.mem_insertEntry inserted with rfl | old
        · exact .inr ⟨member, List.mem_cons_self, takenFirst⟩
        · exact .inl old
      · exact .inr ⟨source, List.mem_cons_of_mem _ inRest, takenSource⟩

/-- **What is taken in is ordered**, and no deeper than its reading. -/
theorem of_take {reading : Reading} {value : Json} (taken : reading.take = .ok value) :
    value.isOrdered = true ∧ value.height ≤ reading.height := by
  induction reading using Reading.induction generalizing value with
  | null => cases taken; exact ⟨rfl, Nat.le_refl 0⟩
  | bool b => cases taken; exact ⟨rfl, Nat.le_refl 0⟩
  | number n => cases taken; exact ⟨rfl, Nat.le_refl 0⟩
  | string s => cases taken; exact ⟨rfl, Nat.le_refl 0⟩
  | blocked obstacle => cases taken
  | array items stop ih =>
      obtain ⟨values, takenItems, taken⟩ := exists_of_bind_eq_ok taken
      obtain ⟨_, _, taken⟩ := exists_of_bind_eq_ok taken
      cases taken
      have each := of_takeItems takenItems
      constructor
      · refine isOrdered_array.mpr fun value member => ?_
        obtain ⟨item, inside, takenItem⟩ := each value member
        exact (ih item inside takenItem).1
      · refine height_array_le_iff.mpr fun value member => ?_
        obtain ⟨item, inside, takenItem⟩ := each value member
        exact Nat.le_trans (ih item inside takenItem).2
          (heightItems_le_iff.mp (Nat.le_refl _) item inside)
  | object members stop ih =>
      obtain ⟨values, takenMembers, taken⟩ := exists_of_bind_eq_ok taken
      obtain ⟨_, _, taken⟩ := exists_of_bind_eq_ok taken
      cases taken
      obtain ⟨names, each⟩ := of_takeMembers takenMembers .nil
      have source (value) (member : value ∈ values) :=
        (each value member).resolve_left (List.not_mem_nil)
      constructor
      · refine isOrdered_object.mpr ⟨names, fun value member => ?_⟩
        obtain ⟨member, inside, takenMember⟩ := source value member
        exact (ih member inside takenMember).1
      · refine height_object_le_iff.mpr fun value member => ?_
        obtain ⟨member, inside, takenMember⟩ := source value member
        exact Nat.le_trans (ih member inside takenMember).2
          (heightMembers_le_iff.mp (Nat.le_refl _) member inside)

/-- Null is taken in from null alone. -/
theorem eq_null_of_take {reading : Reading} (taken : reading.take = .ok .null) :
    reading = null := by
  cases reading with
  | null => rfl
  | bool | number | string | blocked => cases taken
  | array | object =>
      obtain ⟨_, _, taken⟩ := exists_of_bind_eq_ok taken
      obtain ⟨_, _, taken⟩ := exists_of_bind_eq_ok taken
      cases taken

end Reading

end Json

end WorkflowGraph
