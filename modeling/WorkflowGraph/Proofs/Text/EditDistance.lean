/-
The edit distance is the least number of edits.

The main statement is `isLeast_editDistance`: no fewer edits make one text of another than their
distance says, and that many do. An edit inserts, deletes or replaces one character anywhere in the
text, so that edits may undo each other.

* `leastEdits` — the distance by recursion on the first characters. One edit changes it by one at
  most (`leastEdits_le_of_edit`), which bounds every sequence of edits from below.
* `cons_nextRow` — a row of the table has the distances of one text to the beginnings of another.
  The table grows at the ends of the texts, so the rows are about the texts read backwards.
-/

import Mathlib.Order.Bounds.Basic
import Mathlib.Order.MinMax
import WorkflowGraph.Text.EditDistance

namespace WorkflowGraph.Text

/-! ### Edits -/

/-- Whether one edit makes a text of another one. -/
inductive Edit : List Char → List Char → Prop
  | insert (before after : List Char) (c : Char) : Edit (before ++ after) (before ++ c :: after)
  | delete (before after : List Char) (c : Char) : Edit (before ++ c :: after) (before ++ after)
  | replace (before after : List Char) (c d : Char) : Edit (before ++ c :: after)
      (before ++ d :: after)

/-- Whether a number of edits make a text of another one. -/
inductive Edits : Nat → List Char → List Char → Prop
  | done (a : List Char) : Edits 0 a a
  | edit {count : Nat} {a middle b : List Char} : Edit a middle → Edits count middle b →
      Edits (count + 1) a b

theorem Edit.cons {a b : List Char} (edit : Edit a b) (c : Char) : Edit (c :: a) (c :: b) := by
  cases edit with
  | insert before after d => exact .insert (c :: before) after d
  | delete before after d => exact .delete (c :: before) after d
  | replace before after d e => exact .replace (c :: before) after d e

theorem Edits.cons {count : Nat} {a b : List Char} (edits : Edits count a b) (c : Char) :
    Edits count (c :: a) (c :: b) := by
  induction edits with
  | done a => exact .done (c :: a)
  | edit first _ ih => exact .edit (first.cons c) ih

theorem Edit.reverse {a b : List Char} (edit : Edit a b) : Edit a.reverse b.reverse := by
  cases edit with
  | insert before after c => simpa using Edit.insert after.reverse before.reverse c
  | delete before after c => simpa using Edit.delete after.reverse before.reverse c
  | replace before after c d => simpa using Edit.replace after.reverse before.reverse c d

theorem Edits.reverse {count : Nat} {a b : List Char} (edits : Edits count a b) :
    Edits count a.reverse b.reverse := by
  induction edits with
  | done a => exact .done a.reverse
  | edit first _ ih => exact .edit first.reverse ih

/-- Texts that are read backwards are as far from each other. -/
theorem edits_reverse_iff {count : Nat} {a b : List Char} :
    Edits count a.reverse b.reverse ↔ Edits count a b :=
  ⟨fun edits => by simpa using edits.reverse, Edits.reverse⟩

/-! ### The least number of edits -/

/-- The least number of edits that make a text of another one. -/
def leastEdits : List Char → List Char → Nat
  | [], b => b.length
  | a, [] => a.length
  | c :: a, d :: b =>
    min (min (leastEdits a b + if c = d then 0 else 1) (leastEdits a (d :: b) + 1))
      (leastEdits (c :: a) b + 1)

@[simp] theorem leastEdits_nil_left (b : List Char) : leastEdits [] b = b.length := by
  rw [leastEdits]

@[simp] theorem leastEdits_nil_right (a : List Char) : leastEdits a [] = a.length := by
  cases a <;> simp [leastEdits]

theorem leastEdits_cons_cons (c d : Char) (a b : List Char) :
    leastEdits (c :: a) (d :: b) =
      min (min (leastEdits a b + if c = d then 0 else 1) (leastEdits a (d :: b) + 1))
      (leastEdits (c :: a) b + 1) := by
  rw [leastEdits]

theorem edits_of_nil (b : List Char) : Edits b.length [] b := by
  induction b with
  | nil => exact .done []
  | cons d b ih => exact .edit (.insert [] [] d) (ih.cons d)

theorem edits_to_nil (a : List Char) : Edits a.length a [] := by
  induction a with
  | nil => exact .done []
  | cons c a ih => exact .edit (.delete [] a c) ih

/-- **That many edits make a text of another one.** -/
theorem edits_leastEdits (a b : List Char) : Edits (leastEdits a b) a b := by
  fun_induction leastEdits a b with
  | case1 b => exact edits_of_nil b
  | case2 a => exact edits_to_nil a
  | case3 c a d b replaced deleted inserted =>
      rcases min_choice (min (leastEdits a b + if c = d then 0 else 1) (leastEdits a (d :: b) + 1))
        (leastEdits (c :: a) b + 1) with first | last
      · rw [first]
        rcases min_choice (leastEdits a b + if c = d then 0 else 1) (leastEdits a (d :: b) + 1) with
          kept | dropped
        · rw [kept]
          split
          · rename_i same
            exact same ▸ replaced.cons c
          · exact .edit (.replace [] a c d) (replaced.cons d)
        · rw [dropped]
          exact .edit (.delete [] a c) deleted
      · rw [last]
        exact .edit (.insert [] (c :: a) d) (inserted.cons d)

/-! ### One edit changes the distance by one at most -/

theorem leastEdits_cons_right_le (d : Char) (a b : List Char) :
    leastEdits a (d :: b) ≤ leastEdits a b + 1 := by
  cases a with
  | nil => simp
  | cons c a => exact (leastEdits_cons_cons c d a b).le.trans (min_le_right _ _)

theorem leastEdits_cons_left_le (c : Char) (a b : List Char) :
    leastEdits (c :: a) b ≤ leastEdits a b + 1 := by
  cases b with
  | nil => simp
  | cons d b =>
      exact (leastEdits_cons_cons c d a b).le.trans ((min_le_left _ _).trans (min_le_right _ _))

theorem leastEdits_le_cons_left (c : Char) (a b : List Char) :
    leastEdits a b ≤ leastEdits (c :: a) b + 1 := by
  induction b with
  | nil =>
      rw [leastEdits_nil_right, leastEdits_nil_right, List.length_cons]
      omega
  | cons d b ih =>
      have longer := leastEdits_cons_right_le d a b
      rw [leastEdits_cons_cons]
      omega

theorem leastEdits_replace_le (c d : Char) (a b : List Char) :
    leastEdits (c :: a) b ≤ leastEdits (d :: a) b + 1 := by
  induction b with
  | nil => simp
  | cons e b ih =>
      rw [leastEdits_cons_cons, leastEdits_cons_cons]
      split <;> split <;> omega

/-- A first character that two texts share does not bring them further apart from a third one. -/
theorem leastEdits_cons_cons_le {a middle : List Char}
    (close : ∀ b, leastEdits a b ≤ leastEdits middle b + 1) (c : Char) (b : List Char) :
    leastEdits (c :: a) b ≤ leastEdits (c :: middle) b + 1 := by
  induction b with
  | nil => simpa using close []
  | cons d b ih =>
      have replaced := close b
      have deleted := close (d :: b)
      rw [leastEdits_cons_cons, leastEdits_cons_cons]
      omega

/-- **One edit brings a text nearer to another one by one at most.** -/
theorem leastEdits_le_of_edit {a middle : List Char} (edit : Edit a middle) (b : List Char) :
    leastEdits a b ≤ leastEdits middle b + 1 := by
  -- the edit is at the end of a common beginning
  have behind : ∀ {before a middle : List Char}, (∀ b, leastEdits a b ≤ leastEdits middle b + 1) →
      ∀ b, leastEdits (before ++ a) b ≤ leastEdits (before ++ middle) b + 1 := by
    intro before a middle close
    induction before with
    | nil => exact close
    | cons c before ih => exact leastEdits_cons_cons_le ih c
  cases edit with
  | insert before after c => exact behind (leastEdits_le_cons_left c after) b
  | delete before after c => exact behind (leastEdits_cons_left_le c after) b
  | replace before after c d => exact behind (leastEdits_replace_le c d after) b

theorem leastEdits_self (a : List Char) : leastEdits a a = 0 := by
  induction a with
  | nil => exact leastEdits_nil_left []
  | cons c a ih => simp [leastEdits_cons_cons, ih]

/-- **No fewer edits do.** -/
theorem leastEdits_le_of_edits {count : Nat} {a b : List Char} (edits : Edits count a b) :
    leastEdits a b ≤ count := by
  induction edits with
  | done a => exact (leastEdits_self a).le
  | @edit count a middle b first _ ih =>
      exact (leastEdits_le_of_edit first b).trans (Nat.succ_le_succ ih)

/-! ### The table -/

/-- The distances of a text to a text `q` that grows by the characters of `b`. Both are read
backwards, so that they grow at their heads. -/
def distances (a q : List Char) : List Char → List Nat
  | [] => [leastEdits a q]
  | d :: b => leastEdits a q :: distances a (d :: q) b

theorem distances_eq_cons (a q b : List Char) :
    ∃ rest, distances a q b = leastEdits a q :: rest := by
  cases b <;> exact ⟨_, rfl⟩

/-- **The next row has the distances of the text with one character more.** -/
theorem cons_nextRow (c : Char) (a q b : List Char) :
    leastEdits (c :: a) q :: nextRow c (leastEdits (c :: a) q) b (distances a q b) =
      distances (c :: a) q b := by
  induction b generalizing q with
  | nil => rfl
  | cons d b ih =>
      obtain ⟨rest, above⟩ := distances_eq_cons a (d :: q) b
      rw [distances, distances, ← ih (d :: q), above, nextRow, leastEdits_cons_cons]

theorem rowAfter_distances (a b more : List Char) :
    rowAfter b more (distances a [] b) = distances (more.reverse ++ a) [] b := by
  induction more generalizing a with
  | nil => rfl
  | cons c more ih =>
      have first : (distances a [] b).headD 0 + 1 = leastEdits (c :: a) [] := by
        obtain ⟨rest, row⟩ := distances_eq_cons a [] b
        rw [row, List.headD_cons, leastEdits_nil_right, leastEdits_nil_right, List.length_cons]
      rw [rowAfter, first, cons_nextRow, ih, List.reverse_cons, List.append_assoc,
        List.singleton_append]

/-- The first row has the lengths of the beginnings. -/
theorem distances_nil (q b : List Char) :
    distances [] q b = List.range' q.length (b.length + 1) := by
  induction b generalizing q with
  | nil => simp [distances]
  | cons d b ih =>
      rw [distances, ih, leastEdits_nil_left, List.length_cons, List.length_cons]
      exact List.range'_succ.symm

theorem getLastD_distances (a q b : List Char) :
    (distances a q b).getLastD 0 = leastEdits a (b.reverse ++ q) := by
  induction b generalizing q with
  | nil => rfl
  | cons d b ih =>
      obtain ⟨rest, row⟩ := distances_eq_cons a (d :: q) b
      rw [distances, List.reverse_cons, List.append_assoc, List.singleton_append, ← ih, row]
      rfl

theorem editDistance_eq (a b : List Char) : editDistance a b = leastEdits a.reverse b.reverse := by
  have start : List.range (b.length + 1) = distances [] [] b := by
    rw [distances_nil, List.range_eq_range', List.length_nil]
  rw [editDistance, start, rowAfter_distances, getLastD_distances, List.append_nil, List.append_nil]

/-- **The edit distance is the least number of edits that make a text of another one.** -/
theorem isLeast_editDistance (a b : List Char) :
    IsLeast {count | Edits count a b} (editDistance a b) := by
  rw [editDistance_eq]
  refine ⟨edits_reverse_iff.mp (edits_leastEdits a.reverse b.reverse), fun count edits => ?_⟩
  exact leastEdits_le_of_edits (edits_reverse_iff.mpr edits)

example : editDistance "kitten".toList "sitting".toList = 3 := by decide

end WorkflowGraph.Text
