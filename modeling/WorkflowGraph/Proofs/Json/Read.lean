/-
Values are read back from their printed form.

* `readsBack` — wherever the printed form of an exact value stands in a text, the value is read
  there, if the places around it leave room for its height.
* `readText_pretty` — the text of an exact value that is not too deep is read as this value and
  nothing else.
* `height_readText` — no reading of a text is too deep to be printed.
-/

import WorkflowGraph.Proofs.Json.Scan

namespace WorkflowGraph.Json

/-! ### Blanks and delimiters -/

@[simp] theorem delimited_nil : Delimited [] := by
  simp [Delimited]

@[simp] theorem delimited_newLine (level : Nat) (rest : List Char) :
    Delimited (newLine level ++ rest) := by
  simp [Delimited, newLine]

theorem delimited_prettyItems {rest : List Char} (delimited : Delimited rest) (level : Nat)
    (items : List Json) :
    Delimited (prettyItems level items ++ rest) := by
  cases items with
  | nil => exact delimited
  | cons item items => simp [Delimited, prettyItems]

theorem delimited_prettyMembers {rest : List Char} (delimited : Delimited rest) (level : Nat)
    (members : List (String × Json)) : Delimited (prettyMembers level members ++ rest) := by
  cases members with
  | nil => exact delimited
  | cons member members => simp [Delimited, prettyMembers]

theorem skipBlank_newLine (level : Nat) (text : List Char) :
    skipBlank (newLine level ++ text) = skipBlank text := by
  refine List.dropWhile_append_of_pos fun c member => ?_
  rcases List.mem_cons.mp member with rfl | indented
  · rfl
  · rw [(List.mem_replicate.mp indented).2]
    rfl

theorem skipBlank_cons {c : Char} (visible : isBlank c = false) (text : List Char) :
    skipBlank (c :: text) = c :: text :=
  List.dropWhile_cons_of_neg (by simp [visible])

/-- Blanks before a value do not change how it is read. -/
theorem readValue_congr {text other : List Char} (same : skipBlank text = skipBlank other)
    (fuel depth : Nat) :
    readValue fuel depth text = readValue fuel depth other := by
  cases fuel with
  | zero => rfl
  | succ fuel =>
      rw [readValue, readValue]
      simp only [same]

theorem readValue_blank (fuel depth : Nat) (text : List Char) :
    readValue fuel depth (' ' :: text) = readValue fuel depth text :=
  readValue_congr (show skipBlank (' ' :: text) = skipBlank text from rfl) fuel depth

theorem readItems_congr {text other : List Char} (same : skipBlank text = skipBlank other)
    (fuel depth : Nat) :
    readItems fuel depth text = readItems fuel depth other := by
  cases fuel with
  | zero => rfl
  | succ fuel =>
      rw [readItems, readItems, readValue_congr same]

/-! ### Values -/

theorem quote_append (text : String) (rest : List Char) :
    quote text ++ rest = '"' :: (text.toList.flatMap escape ++ '"' :: rest) := by
  simp [quote]

theorem write_starts {n : Number} (exact : (number n).isExact = true) :
    ∃ c rest, n.write = c :: rest ∧ (c = '-' ∨ c.isDigit = true) := by
  cases n with
  | real x => cases exact
  | integer value =>
      cases value with
      | ofNat n =>
          cases digits : Decimal.digits n with
          | nil => exact absurd digits Nat.toDigits_ne_nil
          | cons d ds =>
              exact ⟨d, ds, digits, .inr (isDigit_of_mem_digits (digits ▸ List.mem_cons_self))⟩
      | negSucc n => exact ⟨'-', _, rfl, .inl rfl⟩

theorem not_blank_of_start {c : Char} (start : c = '-' ∨ c.isDigit = true) : isBlank c = false := by
  have other {d : Char} (noStart : ¬ (d = '-' ∨ d.isDigit = true)) : (c == d) = false :=
    beq_false_of_ne fun same => noStart (same ▸ start)
  rw [isBlank, other (by decide), other (by decide), other (by decide), other (by decide)]
  rfl

/-- The text of a value starts with a character that is neither blank nor the end of an array. -/
theorem prettyChars_starts {value : Json} (exact : value.isExact = true) (level : Nat) :
    ∃ c rest, prettyChars level value = c :: rest ∧ isBlank c = false ∧ c ≠ ']' := by
  cases value with
  | null => exact ⟨'n', _, rfl, by decide, by decide⟩
  | bool b =>
      cases b with
      | false => exact ⟨'f', _, rfl, by decide, by decide⟩
      | true => exact ⟨'t', _, rfl, by decide, by decide⟩
  | number n =>
      obtain ⟨c, rest, shape, start⟩ := write_starts exact
      refine ⟨c, rest, shape, not_blank_of_start start, ?_⟩
      rintro rfl
      exact absurd start (by decide)
  | string s => exact ⟨'"', _, rfl, by decide, by decide⟩
  | array items => cases items <;> exact ⟨'[', _, rfl, by decide, by decide⟩
  | object members => cases members <;> exact ⟨'\x7b', _, rfl, by decide, by decide⟩

/-- A number is read wherever a sign or a digit stands. -/
theorem readValue_number {c : Char} (start : c = '-' ∨ c.isDigit = true) (fuel depth : Nat)
    (rest : List Char) :
    readValue (fuel + 1) depth (c :: rest) = readNumber (c :: rest) := by
  rw [readValue, skipBlank_cons (not_blank_of_start start)]
  split
  case h_8 =>
    rename_i same
    cases same
    rw [if_pos start]
  all_goals
    rename_i same
    cases same
  all_goals exact absurd start (by decide)

/-- A value is read back from its text wherever that stands, if the containers around it leave room
for its height, the fuel lasts for its characters, and what follows does not go on with a number. -/
def ReadsBack (value : Json) : Prop :=
  ∀ fuel depth level rest, value.height + depth < nestingLimit →
    (prettyChars level value).length ≤ fuel →
    Delimited rest → readValue (fuel + 1) depth (prettyChars level value ++ rest) =
      (Reading.ofJson value, some rest)

/-! ### Items -/

theorem readItems_last {fuel depth : Nat} {text rest after : List Char} {item : Reading}
    (read : readValue fuel depth text = (item, some rest))
    (closed : skipBlank rest = ']' :: after) :
    readItems (fuel + 1) depth text = ([item], none, some after) := by
  rw [readItems, read]
  simp only [closed]

theorem readItems_comma {fuel depth : Nat} {text rest more after : List Char} {item : Reading}
    {items : List Reading} (read : readValue fuel depth text = (item, some rest))
    (comma : skipBlank rest = ',' :: more)
    (others : readItems fuel depth more = (items, none, some after)) :
    readItems (fuel + 1) depth text = (item :: items, none, some after) := by
  rw [readItems, read]
  simp only [comma, others]

/-- The items of an array are read back if each of them is. -/
theorem readItems_pretty {first : Json} {items : List Json} {fuel depth level : Nat}
    (each : ∀ item ∈ first :: items, item.ReadsBack)
    (shallow : ∀ item ∈ first :: items, item.height + depth < nestingLimit)
    (fueled : (prettyChars level first).length + (prettyItems level items).length ≤ fuel)
    (outer : Nat) (rest : List Char) :
    readItems (fuel + 2) depth
        (prettyChars level first ++ (prettyItems level items ++ (newLine outer ++ ']' :: rest))) =
      (Reading.ofItems (first :: items), none, some rest) := by
  -- The induction is on the items behind the first. Each of them has a comma, which pays for the
  -- fuel it takes.
  induction items generalizing first fuel with
  | nil =>
      have read := each first List.mem_cons_self fuel depth level (newLine outer ++ ']' :: rest)
        (shallow first List.mem_cons_self) fueled (delimited_newLine outer _)
      exact readItems_last read (skipBlank_newLine outer _)
  | cons second items ih =>
      simp only [prettyItems, List.cons_append, List.append_assoc, List.length_cons,
        List.length_append] at fueled ⊢
      obtain ⟨fuel, rfl⟩ : ∃ less, fuel = less + 1 := ⟨fuel - 1, by omega⟩
      have others := ih (List.forall_mem_cons.mp each).2 (List.forall_mem_cons.mp shallow).2
        (show (prettyChars level second).length + (prettyItems level items).length ≤ fuel by omega)
      have read := each first List.mem_cons_self (fuel + 1) depth level _
        (shallow first List.mem_cons_self) (by omega)
        (delimited_prettyItems (delimited_newLine outer (']' :: rest)) level (second :: items))
      simp only [prettyItems, List.cons_append, List.append_assoc] at read
      refine readItems_comma read (skipBlank_cons (by decide) _) ?_
      rw [readItems_congr (skipBlank_newLine level _), others]

/-! ### Members -/

theorem readMembers_last {fuel depth : Nat} {text afterName start rest after name : List Char}
    {value : Reading} (scanned : scanString none true text = .closed name true afterName)
    (colon : skipBlank afterName = ':' :: start)
    (read : readValue fuel depth start = (value, some rest))
    (closed : skipBlank rest = '\x7d' :: after) :
    readMembers (fuel + 1) depth text = ([(String.ofList name, value)], none, some after) := by
  rw [readMembers, scanned]
  simp only [colon, read, closed, if_true]

theorem readMembers_comma {fuel depth : Nat}
    {text afterName start rest more next after name : List Char} {value : Reading}
    {members : List (String × Reading)}
    (scanned : scanString none true text = .closed name true afterName)
    (colon : skipBlank afterName = ':' :: start)
    (read : readValue fuel depth start = (value, some rest)) (comma : skipBlank rest = ',' :: more)
    (quoted : skipBlank more = '"' :: next)
    (others : readMembers fuel depth next = (members, none, some after)) :
    readMembers (fuel + 1) depth text = ((String.ofList name, value) :: members, none,
      some after) := by
  rw [readMembers, scanned]
  simp only [colon, read, comma, quoted, others, if_true]
  rfl

/-- The members of an object are read back if the value of each of them is. -/
theorem readMembers_pretty {first : String × Json} {members : List (String × Json)}
    {fuel depth level : Nat} (each : ∀ member ∈ first :: members, member.2.ReadsBack)
    (shallow : ∀ member ∈ first :: members, member.2.height + depth < nestingLimit)
    (fueled : (prettyChars level first.2).length + (prettyMembers level members).length ≤ fuel)
    (outer : Nat) (rest : List Char) :
    readMembers (fuel + 2) depth (first.1.toList.flatMap escape ++ '"' :: ':' :: ' ' ::
      (prettyChars level first.2 ++
      (prettyMembers level members ++ (newLine outer ++ '\x7d' :: rest)))) =
      (Reading.ofMembers (first :: members), none, some rest) := by
  induction members generalizing first fuel with
  | nil =>
      have read := each first List.mem_cons_self fuel depth level (newLine outer ++ '\x7d' :: rest)
        (shallow first List.mem_cons_self) fueled (delimited_newLine outer _)
      rw [← readValue_blank] at read
      have readName := scanString_escapes first.1.toList
      simp only [prettyMembers, List.nil_append]
      rw [readMembers_last (readName _) (skipBlank_cons (by decide) _) read
        (skipBlank_newLine outer _), String.ofList_toList]
      rfl
  | cons second members ih =>
      simp only [prettyMembers, List.cons_append, List.append_assoc, List.length_cons,
        List.length_append] at fueled ⊢
      obtain ⟨fuel, rfl⟩ : ∃ less, fuel = less + 1 := ⟨fuel - 1, by omega⟩
      have others := ih (List.forall_mem_cons.mp each).2 (List.forall_mem_cons.mp shallow).2
        (show (prettyChars level second.2).length + (prettyMembers level members).length ≤ fuel
          by omega)
      have read := each first List.mem_cons_self (fuel + 1) depth level _
        (shallow first List.mem_cons_self) (by omega)
        (delimited_prettyMembers (delimited_newLine outer ('\x7d' :: rest)) level
          (second :: members))
      simp only [prettyMembers, List.cons_append, List.append_assoc] at read
      rw [← readValue_blank] at read
      have readName := scanString_escapes first.1.toList
      rw [readMembers_comma (readName _) (skipBlank_cons (by decide) _) read
        (skipBlank_cons (by decide) _)
        (by rw [skipBlank_newLine, quote_append]; rfl) others, String.ofList_toList]
      rfl

/-! ### Whole values -/

theorem readValue_array {fuel depth : Nat} {text start after : List Char} {items : List Reading}
    {c : Char} (starts : skipBlank text = c :: start) (notEnd : c ≠ ']')
    (read : readItems fuel (depth + 1) (c :: start) = (items, none, some after))
    (room : depth + 1 < nestingLimit) :
    readValue (fuel + 1) depth ('[' :: text) = (.array items none, some after) := by
  rw [readValue, skipBlank_cons (by decide)]
  simp only [starts]
  split
  · cases ‹c :: start = []›
  · cases ‹c :: start = _›
    exact absurd rfl notEnd
  · rw [read, nested, if_pos room]

theorem readValue_object {fuel depth : Nat} {text after start : List Char}
    {members : List (String × Reading)} (starts : skipBlank text = '"' :: start)
    (read : readMembers fuel (depth + 1) start = (members, none, some after))
    (room : depth + 1 < nestingLimit) :
    readValue (fuel + 1) depth ('\x7b' :: text) = (.object members none, some after) := by
  rw [readValue, skipBlank_cons (by decide)]
  simp only [starts, read, nested, if_pos room]

theorem readsBack_array {items : List Json} (exact : ∀ item ∈ items, item.isExact = true)
    (each : ∀ item ∈ items, item.ReadsBack) : (array items).ReadsBack := by
  intro fuel depth level rest shallow fueled delimited
  have room : depth + 1 < nestingLimit := by
    have : (array items).height = Reading.heightItems (Reading.ofItems items) + 1 := rfl
    omega
  cases items with
  | nil =>
      have closed : nested depth (.array [] none) = .array [] none := if_pos room
      exact congrArg (·, some rest) closed
  | cons first items =>
      have within (item) (member : item ∈ first :: items) : item.height + (depth + 1) <
          nestingLimit := by
        have := height_lt_array member
        omega
      obtain ⟨c, start, shape, visible, notEnd⟩ :=
        prettyChars_starts (exact first List.mem_cons_self) (level + 1)
      simp only [prettyChars, List.cons_append, List.append_assoc, List.length_cons,
        List.length_append] at fueled ⊢
      obtain ⟨fuel, rfl⟩ : ∃ less, fuel = less + 2 := ⟨fuel - 2, by omega⟩
      have read := readItems_pretty each within
        (show (prettyChars (level + 1) first).length + (prettyItems (level + 1) items).length ≤ fuel
          by omega)
        level rest
      simp only [shape, List.cons_append, List.nil_append] at read ⊢
      refine readValue_array ?_ notEnd read room
      rw [skipBlank_newLine, skipBlank_cons visible]

theorem readsBack_object {members : List (String × Json)}
    (each : ∀ member ∈ members, member.2.ReadsBack) : (object members).ReadsBack := by
  intro fuel depth level rest shallow fueled delimited
  have room : depth + 1 < nestingLimit := by
    have : (object members).height = Reading.heightMembers (Reading.ofMembers members) + 1 := rfl
    omega
  cases members with
  | nil =>
      have closed : nested depth (.object [] none) = .object [] none := if_pos room
      exact congrArg (·, some rest) closed
  | cons first members =>
      have within (member) (inside : member ∈ first :: members) : member.2.height + (depth + 1) <
          nestingLimit := by
        have := height_lt_object inside
        omega
      simp only [prettyChars, List.cons_append, List.append_assoc, List.length_cons,
        List.length_append] at fueled ⊢
      obtain ⟨fuel, rfl⟩ : ∃ less, fuel = less + 2 := ⟨fuel - 2, by omega⟩
      have read := readMembers_pretty each within
        (show (prettyChars (level + 1) first.2).length +
          (prettyMembers (level + 1) members).length ≤ fuel by omega)
        level rest
      refine readValue_object ?_ read room
      rw [skipBlank_newLine, quote_append, skipBlank_cons (by decide), List.nil_append]

/-- **Every exact value is read back from its text**, wherever it stands. -/
theorem readsBack {value : Json} (exact : value.isExact = true) : value.ReadsBack := by
  induction value using Json.induction with
  | null => exact fun fuel depth level rest shallow fueled delimited => rfl
  | bool b =>
      intro fuel depth level rest shallow fueled delimited
      cases b <;> rfl
  | number n =>
      -- Nothing but what follows tells where a number ends.
      intro fuel depth level rest shallow fueled delimited
      obtain ⟨c, digits, shape, start⟩ := write_starts exact
      have read := readNumber_write exact delimited
      rw [shape, List.cons_append] at read
      rw [prettyChars, shape, List.cons_append, readValue_number start, read]
      rfl
  | string s =>
      intro fuel depth level rest shallow fueled delimited
      rw [prettyChars, quote_append, readValue, skipBlank_cons (by decide)]
      exact readString_quote s rest
  | array items ih =>
      have each := isExact_array.mp exact
      exact readsBack_array each fun item member => ih item member (each item member)
  | object members ih =>
      have each := isExact_object.mp exact
      exact readsBack_object fun member inside => ih member inside (each member inside)

/-- The text of an exact value that is not too deep is read as the value and nothing else. -/
theorem readText_pretty {value : Json} (exact : value.isExact = true)
    (shallow : value.height < nestingLimit) :
    readText value.pretty = (Reading.ofJson value, some []) := by
  have read := readsBack exact (2 * (prettyChars 0 value).length + 1) 0 0 [] shallow
    (by omega) delimited_nil
  rw [List.append_nil] at read
  rw [readText, pretty, String.toList_ofList]
  exact read

/-! ### How deep a reading is -/

theorem height_readWord {value : Reading} (leaf : value.height = 0) (word text : List Char) :
    (readWord word value text).1.height = 0 := by
  unfold readWord
  split
  · exact leaf
  · rfl

theorem height_readNumber (text : List Char) : (readNumber text).1.height = 0 := by
  unfold readNumber
  split
  · rfl
  · split <;> rfl

theorem height_readString (text : List Char) : (readString text).1.height = 0 := by
  unfold readString
  split <;> rfl

/-- A container is kept where it is not too deep, so it has room for what it holds. -/
theorem nested_shallow {depth height : Nat} (outside : depth < nestingLimit) {container : Reading}
    (inside : container.height = height + 1)
    (within : depth + 1 < nestingLimit → height + (depth + 1) < nestingLimit) :
    (nested depth container).height + depth < nestingLimit := by
  unfold nested
  split
  · have := within ‹_›
    omega
  · exact Nat.lt_of_le_of_lt (Nat.le_of_eq (Nat.zero_add depth)) outside

/-- Readings with this fuel stay below the limit: those of values, of items and of members. -/
structure Shallow (fuel : Nat) : Prop where
  value : ∀ depth text, depth < nestingLimit →
    (readValue fuel depth text).1.height + depth < nestingLimit
  items : ∀ depth text, depth < nestingLimit →
    Reading.heightItems (readItems fuel depth text).1 + depth < nestingLimit
  members : ∀ depth text, depth < nestingLimit →
    Reading.heightMembers (readMembers fuel depth text).1 + depth < nestingLimit

theorem Shallow.value_step {fuel : Nat} (shallow : Shallow fuel) {depth : Nat}
    (outside : depth < nestingLimit) (text : List Char) :
    (readValue (fuel + 1) depth text).1.height + depth < nestingLimit := by
  have leaf {reading : Reading} (flat : reading.height = 0) : reading.height + depth <
    nestingLimit := by omega
  have empty {container : Reading} (flat : container.height = 0 + 1) :
      (nested depth container).height + depth < nestingLimit :=
    nested_shallow outside flat fun room => by omega
  unfold readValue
  split
  · exact leaf rfl
  · exact leaf (height_readWord rfl _ _)
  · exact leaf (height_readWord rfl _ _)
  · exact leaf (height_readWord rfl _ _)
  · exact leaf (height_readString _)
  · split
    · exact empty rfl
    · exact empty rfl
    · exact nested_shallow outside rfl (shallow.items (depth + 1) _)
  · split
    · exact empty rfl
    · exact empty rfl
    · exact nested_shallow outside rfl (shallow.members (depth + 1) _)
    · exact empty rfl
  · split
    · exact leaf (height_readNumber _)
    · exact leaf rfl

theorem Shallow.items_step {fuel : Nat} (shallow : Shallow fuel) {depth : Nat}
    (outside : depth < nestingLimit) (text : List Char) :
    Reading.heightItems (readItems (fuel + 1) depth text).1 + depth < nestingLimit := by
  have first := shallow.value depth text outside
  have single {item : Reading} (read : item = (readValue fuel depth text).1) :
      Reading.heightItems [item] + depth < nestingLimit := by
    simp only [Reading.heightItems, read]
    omega
  unfold readItems
  split
  · exact single (by rw [‹readValue _ _ _ = _›])
  · split
    · exact single (by rw [‹readValue _ _ _ = _›])
    · exact single (by rw [‹readValue _ _ _ = _›])
    · rename_i read _ more _
      have others := shallow.items depth more outside
      simp only [read] at first
      simp only [Reading.heightItems]
      omega
    · exact single (by rw [‹readValue _ _ _ = _›])

theorem Shallow.members_step {fuel : Nat} (shallow : Shallow fuel) {depth : Nat}
    (outside : depth < nestingLimit) (text : List Char) :
    Reading.heightMembers (readMembers (fuel + 1) depth text).1 + depth < nestingLimit := by
  have empty : Reading.heightMembers [] + depth < nestingLimit := by
    simpa [Reading.heightMembers] using outside
  have cons {name : String} {value : Reading} {members : List (String × Reading)}
      (first : value.height + depth < nestingLimit) (others : Reading.heightMembers members +
        depth < nestingLimit) :
      Reading.heightMembers ((name, value) :: members) + depth < nestingLimit := by
    simp only [Reading.heightMembers]
    omega
  unfold readMembers
  split
  · exact empty
  · simp only
    split
    · refine cons ?_ ?_
      · split
        · exact shallow.value depth _ outside
        · exact Nat.lt_of_le_of_lt (Nat.le_of_eq (Nat.zero_add depth)) outside
        · exact Nat.lt_of_le_of_lt (Nat.le_of_eq (Nat.zero_add depth)) outside
      · generalize Prod.snd _ = after
        cases after with
        | none => exact empty
        | some rest =>
            simp only
            split
            · exact empty
            · exact empty
            · split
              · exact empty
              · exact shallow.members depth _ outside
              · exact empty
            · exact empty
    · exact empty

theorem shallow (fuel : Nat) : Shallow fuel := by
  induction fuel with
  | zero =>
      have flat {depth : Nat} (outside : depth < nestingLimit) : 0 + depth < nestingLimit := by
        rwa [Nat.zero_add]
      exact ⟨fun _ _ => flat, fun _ _ => flat, fun _ _ => flat⟩
  | succ fuel ih =>
      exact ⟨fun _ text outside => ih.value_step outside text, fun _ text outside =>
        ih.items_step outside text, fun _ text outside => ih.members_step outside text⟩

/-- No reading of a text is too deep. -/
theorem height_readText (text : String) : (readText text).1.height < nestingLimit :=
  (shallow _).value 0 _ (by decide)

end WorkflowGraph.Json
