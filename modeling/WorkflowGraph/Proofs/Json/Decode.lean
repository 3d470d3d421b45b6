/-
What decoders make of printed values, and what they make at all.

* `Decoder.Reads` — a decoder gets a value out of a JSON value, from wherever this comes. The law
  goes through lists, tables, records (`Fields.Fits`), alternatives and tagged alternatives.
* `Decoder.Ensures` — whatever a decoder makes of a reading that is not deeper than some bound has a
  property. This law goes through the same constructions; in a container the bound goes down by one.
-/

import WorkflowGraph.Json.Decode
import WorkflowGraph.Proofs.Json.Read

namespace WorkflowGraph.Json

namespace Decoder

variable {α β : Type}

/-! ### Printed values in texts -/

/-- The text of a printable value is decoded as the value is. -/
theorem decodeText_pretty (decoder : Decoder α) {value : Json} (exact : value.isExact = true)
    (shallow : value.height < nestingLimit) :
    decoder.decodeText value.pretty = decoder .streamed (Reading.ofJson value) := by
  rw [decodeText, readText_pretty exact shallow]
  change (decoder .streamed (Reading.ofJson value) >>= _) = _
  cases decoder .streamed (Reading.ofJson value) <;> rfl

/-! ### Values that are read -/

/-- The value is decoded from the JSON, wherever that comes from. -/
def Reads (decoder : Decoder α) (json : Json) (value : α) : Prop :=
  ∀ origin, decoder origin (Reading.ofJson json) = .ok value

theorem reads_string (text : String) : string.Reads (.string text) text :=
  fun _ => rfl

theorem reads_bool (b : Bool) : bool.Reads (.bool b) b :=
  fun _ => rfl

theorem reads_natBelow {bound n : Nat} (below : n < bound) : (natBelow bound).Reads (.ofNat n) n :=
  fun _ => if_pos below

theorem reads_json {value : Json} (ordered : value.isOrdered = true) : json.Reads value value :=
  fun _ => Reading.take_ofJson ordered

theorem Reads.map {decoder : Decoder α} {json : Json} {value : α} (reads : decoder.Reads json value)
    (f : α → β) : (decoder.map f).Reads json (f value) := by
  intro origin
  rw [Decoder.map, reads origin]
  rfl

theorem Reads.option {decoder : Decoder α} {json : Json} {value : α}
    (reads : decoder.Reads json value) (given : json ≠ .null) :
    decoder.option.Reads json (some value) := by
  intro origin
  have found := reads origin
  cases json with
  | null => exact absurd rfl given
  | bool | number | string | array | object =>
      simp only [Reading.ofJson, Decoder.option] at found ⊢
      rw [found]
      rfl

theorem reads_list {decoder : Decoder α} {encode : α → Json} {values : List α}
    (each : ∀ value ∈ values, decoder.Reads (encode value) value) :
    decoder.list.Reads (.array (values.map encode)) values := by
  intro origin
  have all : (Reading.ofItems (values.map encode)).mapM (decoder origin) = .ok values := by
    induction values with
    | nil => rfl
    | cons value rest ih =>
        obtain ⟨first, later⟩ := List.forall_mem_cons.mp each
        rw [List.map_cons, Reading.ofItems, List.mapM_cons, first origin, ih later]
        rfl
  rw [Reading.ofJson, list, all]
  rfl

theorem reads_table {decoder : Decoder α} {encode : α → Json} {table : Table α}
    (each : ∀ entry ∈ table.entries, decoder.Reads (encode entry.2) entry.2) :
    decoder.table.Reads (.object (table.entries.map fun entry => (entry.1, encode entry.2)))
      table := by
  intro origin
  have all : (Reading.ofMembers (table.entries.map fun entry => (entry.1, encode entry.2))).mapM
      (fun member => return (member.1, ← decoder origin member.2)) = .ok table.entries := by
    generalize table.entries = entries at each
    induction entries with
    | nil => rfl
    | cons entry rest ih =>
        obtain ⟨first, later⟩ := List.forall_mem_cons.mp each
        rw [List.map_cons, Reading.ofMembers, List.mapM_cons, first origin, ih later]
        rfl
  rw [Reading.ofJson, Decoder.table, all]
  exact congrArg Except.ok table.ofList_entries

/-! ### Records that are read -/

namespace Fields

/-- The fields, if they have different names, are those of the value in an object with just these
members. -/
structure Fits (fields : Fields α) (members : List (String × Json)) (value : α) : Prop where
  names : (members.map (·.1)).Sublist fields.names
  inspects : fields.names.Nodup → ∀ member ∈ members, ∀ origin,
    fields.inspect origin member.1 (Reading.ofJson member.2) = .ok ()
  assembles : fields.names.Nodup → ∀ origin find,
    (∀ name ∈ fields.names, find name = (members.lookup name).map Reading.ofJson) →
      fields.assemble origin find = .ok value

theorem Fits.mem_names {fields : Fields α} {members : List (String × Json)} {value : α}
    (fits : fields.Fits members value) {member : String × Json} (inside : member ∈ members) :
    member.1 ∈ fields.names :=
  fits.names.subset (List.mem_map_of_mem inside)

/-- A member that stands for no field of the record is not found among them. -/
theorem Fits.lookup_eq_none {fields : Fields α} {members : List (String × Json)} {value : α}
    (fits : fields.Fits members value) {name : String} (other : name ∉ fields.names) :
    members.lookup name = none := by
  rw [List.lookup_eq_none_iff]
  intro member inside
  refine bne_iff_ne.mpr ?_
  rintro rfl
  exact other (fits.mem_names inside)

theorem fits_required {decoder : Decoder α} {json : Json} {value : α} (name : String)
    (reads : decoder.Reads json value) : (required name decoder).Fits [(name, json)] value where
  names := List.Sublist.refl _
  inspects _ member inside origin := by
    obtain rfl := List.mem_singleton.mp inside
    simp only [required, reads origin]
    rfl
  assembles _ origin find agrees := by
    have found := agrees name List.mem_cons_self
    rw [List.lookup_cons_self] at found
    simp only [required, found, Option.map_some, reads origin]

theorem fits_defaulted {decoder : Decoder α} {json : Json} {value : α} (name : String)
    (fallback : α) (reads : decoder.Reads json value) :
    (defaulted name decoder fallback).Fits [(name, json)] value where
  names := List.Sublist.refl _
  inspects _ member inside origin := by
    obtain rfl := List.mem_singleton.mp inside
    simp only [defaulted, reads origin]
    rfl
  assembles _ origin find agrees := by
    have found := agrees name List.mem_cons_self
    rw [List.lookup_cons_self] at found
    simp only [defaulted, found, Option.map_some, reads origin]

theorem fits_missing (name : String) (decoder : Decoder α) (fallback : α) :
    (defaulted name decoder fallback).Fits [] fallback where
  names := List.nil_sublist _
  inspects _ _ inside := nomatch inside
  assembles _ origin find agrees := by
    have found : find name = none := agrees name List.mem_cons_self
    simp only [defaulted, found]

theorem fits_optional {decoder : Decoder α} {encode : α → Json} {value : Option α} (name : String)
    (given : ∀ a, value = some a → decoder.Reads (encode a) a ∧ encode a ≠ .null) :
    (optional name decoder).Fits (optionalMember name encode value) value := by
  cases value with
  | none => exact fits_missing name decoder.option none
  | some a =>
      obtain ⟨reads, notNull⟩ := given a rfl
      exact fits_defaulted name none (reads.option notNull)

theorem fits_listMember {decoder : Decoder α} {encode : α → Json} {values : List α} (name : String)
    (each : ∀ value ∈ values, decoder.Reads (encode value) value) :
    (defaulted name decoder.list []).Fits (listMember name encode values) values := by
  cases values with
  | nil => exact fits_missing name decoder.list []
  | cons first rest => exact fits_defaulted name [] (reads_list each)

theorem Fits.map {fields : Fields α} {members : List (String × Json)} {value : α}
    (fits : fields.Fits members value) (f : α → β) : (f <$> fields).Fits members (f value) where
  names := fits.names
  inspects := fits.inspects
  assembles distinct origin find agrees := by
    change (fields.assemble origin find).map f = _
    rw [fits.assembles distinct origin find agrees]
    rfl

theorem Fits.andThen {first : Fields (α → β)} {second : Fields α}
    {members others : List (String × Json)} {f : α → β} {value : α} (fits : first.Fits members f)
    (more : second.Fits others value) : (first <*> second).Fits (members ++ others) (f value) where
  names := by
    rw [List.map_append]
    exact fits.names.append more.names
  inspects distinct member inside origin := by
    obtain ⟨distinctFirst, distinctSecond, apart⟩ := List.nodup_append.mp distinct
    change (if member.1 ∈ first.names then _ else _) = _
    rcases List.mem_append.mp inside with inFirst | inSecond
    · rw [if_pos (fits.mem_names inFirst), fits.inspects distinctFirst member inFirst origin]
    · have other : member.1 ∉ first.names := fun inNames =>
        apart _ inNames _ (more.mem_names inSecond) rfl
      rw [if_neg other, more.inspects distinctSecond member inSecond origin]
  assembles distinct origin find agrees := by
    obtain ⟨distinctFirst, distinctSecond, apart⟩ := List.nodup_append.mp distinct
    have agreesFirst : ∀ name ∈ first.names,
        find name = (members.lookup name).map Reading.ofJson := by
      intro name inNames
      have other : name ∉ second.names := fun inSecond => apart name inNames name inSecond rfl
      rw [agrees name (List.mem_append_left _ inNames), List.lookup_append,
        more.lookup_eq_none other, Option.or_none]
    have agreesSecond : ∀ name ∈ second.names,
        find name = (others.lookup name).map Reading.ofJson := by
      intro name inNames
      have other : name ∉ first.names := fun inFirst => apart name inFirst name inNames rfl
      rw [agrees name (List.mem_append_right _ inNames), List.lookup_append,
        fits.lookup_eq_none other, Option.none_or]
    change (first.assemble origin find >>= fun f => second.assemble origin find >>= fun a =>
      pure (f a)) = _
    rw [fits.assembles distinctFirst origin find agreesFirst,
      more.assembles distinctSecond origin find agreesSecond]
    rfl

theorem lookup_ofMembers (members : List (String × Json)) (name : String) :
    (Reading.ofMembers members).lookup name = (members.lookup name).map Reading.ofJson := by
  induction members with
  | nil => rfl
  | cons member rest ih =>
      rw [Reading.ofMembers, Table.lookup_cons_ite, Table.lookup_cons_ite, ih]
      split <;> rfl

/-- Nothing stops a reader that meets each field once. -/
theorem inspectMembers_ofMembers {fields : Fields α} {origin : Origin}
    {members : List (String × Json)} {seen : List String}
    (known : ∀ member ∈ members, member.1 ∈ fields.names) (distinct : (members.map (·.1)).Nodup)
    (fresh : ∀ member ∈ members, member.1 ∉ seen)
    (inspects : ∀ member ∈ members,
      fields.inspect origin member.1 (Reading.ofJson member.2) = .ok ()) :
    fields.inspectMembers origin seen (Reading.ofMembers members) = .ok () := by
  induction members generalizing seen with
  | nil => rfl
  | cons member rest ih =>
      obtain ⟨name, value⟩ := member
      obtain ⟨knownFirst, knownRest⟩ := List.forall_mem_cons.mp known
      obtain ⟨freshFirst, freshRest⟩ := List.forall_mem_cons.mp fresh
      obtain ⟨inspectsFirst, inspectsRest⟩ := List.forall_mem_cons.mp inspects
      obtain ⟨once, distinctRest⟩ := List.nodup_cons.mp distinct
      have later : fields.inspectMembers origin (name :: seen) (Reading.ofMembers rest) =
          .ok () := by
        refine ih knownRest distinctRest (fun member inside => ?_) inspectsRest
        rw [List.mem_cons, not_or]
        exact ⟨fun same => once (List.mem_map.mpr ⟨member, inside, same⟩), freshRest member inside⟩
      rw [Reading.ofMembers, inspectMembers, if_pos knownFirst, if_neg freshFirst]
      by_cases streamed : origin = .streamed
      · rw [if_pos streamed, inspectsFirst]
        exact later
      · rw [if_neg streamed]
        exact later

end Fields

theorem reads_record {fields : Fields α} {members : List (String × Json)} {value : α}
    (distinct : fields.names.Nodup) (fits : fields.Fits members value) :
    (record fields).Reads (.object members) value := by
  intro origin
  have inspected : fields.inspectMembers origin [] (Reading.ofMembers members) = .ok () :=
    Fields.inspectMembers_ofMembers (fun member inside => fits.mem_names inside)
      (fits.names.nodup distinct)
      (fun _ _ => List.not_mem_nil) fun member inside => fits.inspects distinct member inside origin
  have assembled :=
    fits.assembles distinct origin (fun name => (Reading.ofMembers members).lookup name)
    fun name _ => Fields.lookup_ofMembers members name
  rw [Reading.ofJson, record, inspected]
  exact assembled

theorem Reads.carriedRecord {fields : Fields α} {members : List (String × Json)} {value : α}
    (reads : (record fields).Reads (.object members) value) :
    (Decoder.carriedRecord fields).Reads (.object members) value :=
  fun origin => by cases origin <;> exact reads _

/-! ### Alternatives that are read -/

theorem reads_plain {plain : List (String × α)} {carrying : List (String × Decoder α)}
    {name : String} {value : α} (listed : plain.lookup name = some value) :
    (alternatives plain carrying).Reads (.string name) value := by
  intro origin
  simp only [Reading.ofJson, alternatives, listed]

theorem reads_carried {plain : List (String × α)} {carrying : List (String × Decoder α)}
    {name : String} {decoder : Decoder α} {json : Json} {value : α}
    (listed : carrying.lookup name = some decoder) (reads : decoder.Reads json value) :
    (alternatives plain carrying).Reads (.object [(name, json)]) value := by
  intro origin
  cases origin with
  | streamed =>
      simp only [Reading.ofJson, Reading.ofMembers, alternatives, listed, reads .streamed]
      rfl
  | held => simp only [Reading.ofJson, Reading.ofMembers, alternatives, listed, reads .held]
  | buffered => simp only [Reading.ofJson, Reading.ofMembers, alternatives, listed, reads .buffered]

/-- What stands behind the tag is taken in without being stopped. -/
theorem selectMember_ofMembers {tag : String} {variants : List (String × Decoder α)}
    {origin : Origin} {found : Option (Decoder α)} {members : List (String × Json)}
    (untagged : ∀ member ∈ members, member.1 ≠ tag) :
    selectMember tag variants origin found (Reading.ofMembers members) = .ok found := by
  induction members with
  | nil => rfl
  | cons member rest ih =>
      obtain ⟨first, later⟩ := List.forall_mem_cons.mp untagged
      obtain ⟨taken, takes⟩ := Reading.exists_take_ofJson member.2
      rw [Reading.ofMembers, selectMember, if_neg first, ih later]
      by_cases streamed : origin = .streamed
      · rw [if_pos streamed, takes]
        rfl
      · rw [if_neg streamed]

theorem reads_tagged {tag name : String} {variants : List (String × Decoder α)}
    {decoder : Decoder α} {members : List (String × Json)} {value : α}
    (listed : variants.lookup name = some decoder) (untagged : ∀ member ∈ members, member.1 ≠ tag)
    (reads : decoder.Reads (.object members) value) :
    (tagged tag variants).Reads (.object ((tag, .string name) :: members)) value := by
  intro origin
  have selects : selectMember tag variants origin none
      (Reading.ofMembers ((tag, .string name) :: members)) =
      .ok (some decoder) := by
    rw [Reading.ofMembers, selectMember, if_pos rfl, Reading.ofJson, selected, listed]
    exact selectMember_ofMembers untagged
  have content : (Reading.ofMembers ((tag, .string name) :: members)).filter (fun member =>
      member.1 ≠ tag) = Reading.ofMembers members := by
    rw [Reading.ofMembers, List.filter_cons_of_neg (by simp), Reading.ofMembers_eq_map,
      List.filter_eq_self, List.forall_mem_map]
    exact fun member inside => decide_eq_true (untagged member inside)
  rw [Reading.ofJson, tagged, selects]
  change decoder .buffered (.object (List.filter _ _) none) = _
  rw [content]
  exact reads .buffered

/-- A tagged record has the tag before its fields. -/
theorem reads_tagged_record {tag name : String} {variants : List (String × Decoder α)}
    {fields : Fields α} {members : List (String × Json)} {value : α}
    (listed : variants.lookup name = some (record fields)) (distinct : (tag :: fields.names).Nodup)
    (fits : fields.Fits members value) :
    (tagged tag variants).Reads (.object ((tag, .string name) :: members)) value := by
  obtain ⟨apart, distinctFields⟩ := List.nodup_cons.mp distinct
  refine reads_tagged listed (fun member inside => ?_) (reads_record distinctFields fits)
  rintro rfl
  exact apart (fits.mem_names inside)

theorem reads_bare (value : α) (members : List (String × Json)) :
    (bare value).Reads (.object members) value :=
  fun _ => rfl

/-! ### What decoders make -/

open Reading (exists_of_bind_eq_ok exists_of_map_ok)

/-- Whatever is made of a reading has a property that may depend on how deep the reading is. -/
def Ensures (decoder : Decoder α) (P : Nat → α → Prop) : Prop :=
  ∀ origin reading value bound, reading.height ≤ bound → decoder origin reading = .ok value →
    P bound value

variable {P : Nat → α → Prop} {Q : Nat → β → Prop}

theorem ensures_true (decoder : Decoder α) : decoder.Ensures fun _ _ => True :=
  fun _ _ _ _ _ _ => trivial

theorem ensures_json : json.Ensures fun bound value => value.isOrdered = true ∧
      value.height ≤ bound := by
  intro origin reading value bound within taken
  obtain ⟨ordered, shallow⟩ := Reading.of_take taken
  exact ⟨ordered, Nat.le_trans shallow within⟩

theorem ensures_natBelow (limit : Nat) : (natBelow limit).Ensures fun _ n => n < limit := by
  intro origin reading n bound within decoded
  unfold natBelow at decoded
  split at decoded
  · split at decoded
    · cases decoded
      assumption
    · cases decoded
  · cases decoded

/-- What is decoded from a text comes from a reading that is not too deep. -/
theorem Ensures.decodeText {decoder : Decoder α} (ensures : decoder.Ensures P)
    {text : String} {value : α} (decoded : decoder.decodeText text = .ok value) :
    P (nestingLimit - 1) value := by
  have shallow := height_readText text
  rw [Decoder.decodeText] at decoded
  generalize readText text = read at shallow decoded
  obtain ⟨made, found, decoded⟩ := exists_of_bind_eq_ok decoded
  split at decoded
  · cases decoded
    exact ensures .streamed read.1 value _ (Nat.le_sub_one_of_lt shallow) found
  · cases decoded

theorem Ensures.map {decoder : Decoder α} (ensures : decoder.Ensures P) {f : α → β}
    (keeps : ∀ bound value, P bound value → Q bound (f value)) : (decoder.map f).Ensures Q := by
  intro origin reading value bound within decoded
  obtain ⟨made, found, rfl⟩ := exists_of_map_ok decoded
  exact keeps bound made (ensures origin reading made bound within found)

theorem of_mapM_eq_ok {items : List α} {f : α → Except Fault β} {values : List β}
    (found : items.mapM f = .ok values) : ∀ value ∈ values, ∃ item ∈ items, f item = .ok value := by
  induction items generalizing values with
  | nil =>
      cases found
      simp
  | cons item rest ih =>
      rw [List.mapM_cons] at found
      obtain ⟨first, foundFirst, found⟩ := exists_of_bind_eq_ok found
      obtain ⟨others, foundOthers, found⟩ := exists_of_bind_eq_ok found
      cases found
      refine List.forall_mem_cons.mpr ⟨⟨item, List.mem_cons_self, foundFirst⟩, fun value member =>
        ?_⟩
      obtain ⟨source, inRest, foundSource⟩ := ih foundOthers value member
      exact ⟨source, List.mem_cons_of_mem _ inRest, foundSource⟩

theorem Ensures.list {decoder : Decoder α} (ensures : decoder.Ensures P) :
    decoder.list.Ensures fun bound values => ∀ value ∈ values, P (bound - 1) value := by
  intro origin reading values bound within decoded value member
  unfold Decoder.list at decoded
  split at decoded
  · obtain ⟨made, found, decoded⟩ := exists_of_bind_eq_ok decoded
    obtain ⟨_, _, decoded⟩ := exists_of_bind_eq_ok decoded
    cases decoded
    obtain ⟨item, inside, foundItem⟩ := of_mapM_eq_ok found value member
    exact ensures _ item value _ (Reading.height_le_of_mem_items within inside) foundItem
  · cases decoded

theorem Ensures.table {decoder : Decoder α} (ensures : decoder.Ensures P) :
    decoder.table.Ensures fun bound table => ∀ entry ∈ table.entries, P (bound - 1) entry.2 := by
  intro origin reading table bound within decoded entry member
  unfold Decoder.table at decoded
  split at decoded
  · obtain ⟨made, found, decoded⟩ := exists_of_bind_eq_ok decoded
    obtain ⟨_, _, decoded⟩ := exists_of_bind_eq_ok decoded
    cases decoded
    obtain ⟨item, inside, foundItem⟩ := of_mapM_eq_ok found entry (Table.mem_of_mem_ofList member)
    obtain ⟨value, foundValue, paired⟩ := exists_of_bind_eq_ok foundItem
    cases paired
    exact ensures _ item.2 value _ (Reading.height_le_of_mem_members within inside) foundValue
  · cases decoded

namespace Fields

/-- Whatever is put together from the readings of fields has a property that may depend on how deep
they are. -/
def Ensures (fields : Fields α) (P : Nat → α → Prop) : Prop :=
  ∀ origin find value bound, (∀ name reading, find name = some reading → reading.height ≤ bound) →
    fields.assemble origin find = .ok value → P bound value

theorem ensures_true (fields : Fields α) : fields.Ensures fun _ _ => True :=
  fun _ _ _ _ _ _ => trivial

theorem ensures_required {decoder : Decoder α} (name : String) (ensures : decoder.Ensures P) :
    (required name decoder).Ensures P := by
  intro origin find value bound within assembled
  simp only [required] at assembled
  split at assembled
  · exact ensures origin _ value bound (within name _ ‹_›) assembled
  · cases assembled

theorem ensures_defaulted {decoder : Decoder α} (name : String) {fallback : α}
    (ensures : decoder.Ensures P) (plain : ∀ bound, P bound fallback) :
    (defaulted name decoder fallback).Ensures P := by
  intro origin find value bound within assembled
  simp only [defaulted] at assembled
  split at assembled
  · exact ensures origin _ value bound (within name _ ‹_›) assembled
  · cases assembled
    exact plain bound

/-- A value that is given is not null. -/
theorem ensures_optional_json (name : String) :
    (optional name json).Ensures fun bound value =>
      ∀ given, value = some given → given ≠ .null ∧ given.isOrdered = true ∧
      given.height ≤ bound := by
  refine ensures_defaulted name ?_ fun _ _ => nofun
  intro origin reading value bound within decoded given same
  cases same
  unfold Decoder.option at decoded
  split at decoded
  · cases decoded
  · rename_i notNull
    obtain ⟨taken, takes, same⟩ := exists_of_map_ok decoded
    cases same
    refine ⟨?_, ensures_json origin reading given bound within takes⟩
    rintro rfl
    exact notNull (Reading.eq_null_of_take takes)

theorem Ensures.map {fields : Fields α} (ensures : fields.Ensures P) {f : α → β}
    (keeps : ∀ bound value, P bound value → Q bound (f value)) : (f <$> fields).Ensures Q := by
  intro origin find value bound within assembled
  obtain ⟨made, found, rfl⟩ := exists_of_map_ok assembled
  exact keeps bound made (ensures origin find made bound within found)

theorem Ensures.andThen {first : Fields (α → β)} {second : Fields α}
    (ensures : first.Ensures fun bound f => ∀ value, P bound value → Q bound (f value))
    (more : second.Ensures P) : (first <*> second).Ensures Q := by
  intro origin find value bound within assembled
  change (first.assemble origin find >>= fun f => second.assemble origin find >>= fun a =>
    pure (f a)) = _ at assembled
  obtain ⟨f, foundFirst, assembled⟩ := exists_of_bind_eq_ok assembled
  obtain ⟨a, foundSecond, assembled⟩ := exists_of_bind_eq_ok assembled
  cases assembled
  exact ensures origin find f bound within foundFirst a
    (more origin find a bound within foundSecond)

end Fields

theorem Ensures.record {fields : Fields α} (ensures : fields.Ensures P) :
    (record fields).Ensures fun bound value => P (bound - 1) value := by
  intro origin reading value bound within decoded
  unfold Decoder.record at decoded
  split at decoded
  · obtain ⟨_, _, decoded⟩ := exists_of_bind_eq_ok decoded
    obtain ⟨_, _, decoded⟩ := exists_of_bind_eq_ok decoded
    refine ensures _ _ value _ (fun name reading found => ?_) decoded
    exact Reading.height_le_of_mem_members within (Table.mem_of_lookup found)
  · obtain ⟨_, _, decoded⟩ := exists_of_bind_eq_ok decoded
    split at decoded
    · cases decoded
    · obtain ⟨_, _, decoded⟩ := exists_of_bind_eq_ok decoded
      refine ensures _ _ value _ (fun name reading found => ?_) decoded
      exact Reading.height_le_of_mem_items within (List.of_mem_zip (Table.mem_of_lookup found)).2
  · cases decoded

theorem eq_of_nothing {value made : α} {origin : Origin} {reading : Reading}
    (decoded : nothing value origin reading = .ok made) : made = value := by
  unfold nothing at decoded
  split at decoded
  · cases decoded
    rfl
  · cases decoded
    rfl
  · cases decoded

theorem ensures_alternatives {plain : List (String × α)} {carrying : List (String × Decoder α)}
    (plains : ∀ entry ∈ plain, ∀ bound, P bound entry.2)
    (carried : ∀ entry ∈ carrying, entry.2.Ensures fun bound value => P (bound + 1) value) :
    (alternatives plain carrying).Ensures P := by
  -- What an alternative carries is one level below the object around it.
  have inner {name : String} {decoder : Decoder α} (listed : carrying.lookup name = some decoder)
      {origin : Origin}
      {reading : Reading} {value : α} {bound : Nat} (within : reading.height + 1 ≤ bound)
      (decoded : decoder origin reading = .ok value) : P bound value := by
    have made : P (bound - 1 + 1) value :=
      carried _ (Table.mem_of_lookup listed) origin reading value (bound - 1) (by omega) decoded
    rwa [Nat.sub_add_cancel (by omega)] at made
  intro origin reading value bound within decoded
  unfold alternatives at decoded
  simp only at decoded
  split at decoded
  · split at decoded
    · cases decoded
      exact plains _ (Table.mem_of_lookup ‹_›) bound
    · cases decoded
  · cases decoded
  · obtain ⟨made, found, decoded⟩ := exists_of_bind_eq_ok decoded
    obtain rfl : made = value := by
      split at decoded
      · cases decoded
        rfl
      · cases decoded
      · cases decoded
    split at found
    · exact inner ‹_› (Nat.le_trans (Nat.succ_le_succ (Nat.le_max_left _ _)) within) found
    · rw [eq_of_nothing found]
      exact plains _ (Table.mem_of_lookup ‹_›) bound
    · cases found
  · cases decoded
  · cases decoded
  · split at decoded
    · exact inner ‹_› (Nat.le_trans (Nat.succ_le_succ (Nat.le_max_left _ _)) within) decoded
    · rw [eq_of_nothing decoded]
      exact plains _ (Table.mem_of_lookup ‹_›) bound
    · cases decoded
  · cases decoded

theorem ensures_bare {value : α} (plain : ∀ bound, P bound value) : (bare value).Ensures P := by
  intro origin reading made bound within decoded
  unfold bare at decoded
  split at decoded
  · cases decoded
  · cases decoded
    exact plain bound

theorem selected_mem {variants : List (String × Decoder α)} {origin : Origin} {reading : Reading}
    {decoder : Decoder α} (found : selected variants origin reading = .ok decoder) :
    ∃ variant ∈ variants, variant.2 = decoder := by
  unfold selected at found
  split at found
  · split at found
    · cases found
      exact ⟨_, Table.mem_of_lookup ‹_›, rfl⟩
    · cases found
  · split at found
    · cases found
      exact ⟨_, List.mem_of_getElem? ‹_›, rfl⟩
    · cases found
  · cases found

theorem selectMember_mem {tag : String} {variants : List (String × Decoder α)} {origin : Origin}
    {before : Option (Decoder α)} {members : List (String × Reading)} {decoder : Decoder α}
    (found : selectMember tag variants origin before members = .ok (some decoder)) :
    before = some decoder ∨ ∃ variant ∈ variants, variant.2 = decoder := by
  induction members generalizing before with
  | nil =>
      cases found
      exact .inl rfl
  | cons member rest ih =>
      rw [selectMember] at found
      split at found
      · split at found
        · cases found
        · obtain ⟨chosen, select, found⟩ := exists_of_bind_eq_ok found
          rcases ih found with same | listed
          · cases same
            exact .inr (selected_mem select)
          · exact .inr listed
      · split at found
        · obtain ⟨_, _, found⟩ := exists_of_bind_eq_ok found
          exact ih found
        · exact ih found

theorem ensures_tagged {tag : String} {variants : List (String × Decoder α)}
    (each : ∀ variant ∈ variants, variant.2.Ensures P) : (tagged tag variants).Ensures P := by
  intro origin reading value bound within decoded
  unfold tagged at decoded
  split at decoded
  · obtain ⟨found, select, decoded⟩ := exists_of_bind_eq_ok decoded
    obtain ⟨_, _, decoded⟩ := exists_of_bind_eq_ok decoded
    split at decoded
    · cases decoded
    · obtain ⟨variant, listed, rfl⟩ := (selectMember_mem select).resolve_left nofun
      refine each variant listed _ _ value bound (Nat.le_trans (Nat.succ_le_succ ?_) within) decoded
      exact Reading.heightMembers_le_iff.mpr fun member inside =>
        Reading.heightMembers_le_iff.mp (Nat.le_refl _) member (List.mem_filter.mp inside |>.1)
  · obtain ⟨_, _, decoded⟩ := exists_of_bind_eq_ok decoded
    cases decoded
  · obtain ⟨decoder, select, decoded⟩ := exists_of_bind_eq_ok decoded
    obtain ⟨variant, listed, rfl⟩ := selected_mem select
    have content : (Reading.array _ none).height ≤ bound :=
      Nat.le_trans (Nat.succ_le_succ (Nat.le_max_right _ _)) within
    split at decoded
    · obtain ⟨_, _, decoded⟩ := exists_of_bind_eq_ok decoded
      obtain ⟨_, _, decoded⟩ := exists_of_bind_eq_ok decoded
      exact each variant listed _ _ value bound content decoded
    · obtain ⟨_, _, decoded⟩ := exists_of_bind_eq_ok decoded
      exact each variant listed _ _ value bound content decoded
  · cases decoded

end Decoder

end WorkflowGraph.Json
