/-
The name that is suggested for a misspelled one.

The main statement is `closest_eq_first`: the first known name that contains the name or is
contained in it, else the first one at the least number of edits, if these are two at most. Case
does not count, and the name itself is never suggested.

* `FirstNearest` — what the scan has found among the names that it has seen; one name more keeps
  this true (`FirstNearest.step`), and so does the whole scan (`FirstNearest.nearest`).
-/

import Mathlib.Data.List.Infix
import WorkflowGraph.Proofs.Text.EditDistance
import WorkflowGraph.Text.Suggestion

namespace WorkflowGraph.Text

/-! ### Names that contain each other -/

theorem occursIn_iff {part text : List Char} : occursIn part text = true ↔ part <:+: text := by
  induction text with
  | nil => rw [occursIn, List.isEmpty_iff, List.infix_nil]
  | cons c rest ih =>
      rw [occursIn, Bool.or_eq_true, List.isPrefixOf_iff_prefix, ih, List.infix_cons_iff]

theorem overlap_iff {a b : List Char} :
    overlap a b = true ↔ a ≠ [] ∧ b ≠ [] ∧ (a <:+: b ∨ b <:+: a) := by
  simp only [overlap, Bool.and_eq_true, Bool.or_eq_true, Bool.not_eq_true',
    List.isEmpty_eq_false_iff, occursIn_iff, and_assoc]

/-! ### The scan for the nearest name -/

/-- How far a candidate is from a text that is in lower case. -/
def distanceTo (text : List Char) (candidate : String) : Nat :=
  editDistance text (lower candidate.toList)

/-- Whether the nearest of the names that have been seen has been found: none is within reach, or
the names in front of it are further away, and those behind it are not nearer. -/
def FirstNearest (text : List Char) (seen : List String) : Option (Nat × String) → Prop
  | none => ∀ other ∈ seen, suggestionReach < distanceTo text other
  | some (distance, found) =>
    distance = distanceTo text found ∧ distance ≤ suggestionReach ∧
      ∃ before after, seen = before ++ found :: after ∧
        (∀ other ∈ before, distance < distanceTo text other) ∧
        ∀ other ∈ after, distance ≤ distanceTo text other

/-- One name more. -/
theorem FirstNearest.step {text : List Char} {seen : List String} {best : Option (Nat × String)}
    (known : FirstNearest text seen best) (candidate : String) :
    FirstNearest text (seen ++ [candidate])
      (if distanceTo text candidate ≤ suggestionReach && best.all fun found =>
        distanceTo text candidate < found.1
        then some (distanceTo text candidate, candidate) else best) := by
  cases best with
  | none =>
      rw [Option.all_none, Bool.and_true]
      split
      · rename_i near
        have near : distanceTo text candidate ≤ suggestionReach := by simpa using near
        exact ⟨rfl, near, seen, [], rfl, fun other member =>
          near.trans_lt (known other member), by simp⟩
      · rename_i far
        refine List.forall_mem_append.mpr ⟨known, ?_⟩
        simpa using far
  | some entry =>
      obtain ⟨distance, found⟩ := entry
      obtain ⟨same, within, before, after, split, further, notNearer⟩ := known
      rw [Option.all_some]
      by_cases nearer : distanceTo text candidate < distance
      · have near : distanceTo text candidate ≤ suggestionReach := nearer.le.trans within
        rw [if_pos (by simp [near, nearer])]
        refine ⟨rfl, near, seen, [], rfl, fun other member => ?_, by simp⟩
        rw [split] at member
        rcases List.mem_append.mp member with inFront | behind
        · exact nearer.trans (further other inFront)
        · rcases List.mem_cons.mp behind with rfl | behind
          · exact same ▸ nearer
          · exact nearer.trans_le (notNearer other behind)
      · rw [if_neg (by simp [nearer])]
        refine ⟨same, within, before, after ++ [candidate], by rw [split, List.append_assoc,
          List.cons_append], further, ?_⟩
        refine List.forall_mem_append.mpr ⟨notNearer, ?_⟩
        simpa using nearer

/-- The whole scan. -/
theorem FirstNearest.nearest {text : List Char} {seen : List String} {best : Option (Nat × String)}
    (known : FirstNearest text seen best) (candidates : List String) :
    FirstNearest text (seen ++ candidates) (nearest text best candidates) := by
  induction candidates generalizing seen best with
  | nil => rwa [List.append_nil]
  | cons candidate rest ih =>
      rw [Text.nearest, List.append_cons]
      exact ih (known.step candidate)

/-- **The scan finds the first of the nearest names**, if they are within reach. -/
theorem nearest_eq_find? (text : List Char) (candidates : List String) :
    (nearest text none candidates).map (·.2) = candidates.find? fun candidate =>
      distanceTo text candidate ≤ suggestionReach ∧
        ∀ other ∈ candidates, distanceTo text candidate ≤ distanceTo text other := by
  have start : FirstNearest text [] none := List.forall_mem_nil _
  have scanned := start.nearest candidates
  rw [List.nil_append] at scanned
  cases result : nearest text none candidates with
  | none =>
      rw [result] at scanned
      refine (List.find?_eq_none.mpr fun candidate member => ?_).symm
      have far := scanned candidate member
      simp only [decide_eq_true_eq, not_and]
      omega
  | some entry =>
      obtain ⟨distance, found⟩ := entry
      rw [result] at scanned
      obtain ⟨rfl, within, before, after, split, further, notNearer⟩ := scanned
      have least : ∀ other ∈ candidates, distanceTo text found ≤ distanceTo text other := by
        rw [split]
        refine List.forall_mem_append.mpr ⟨fun other member => (further other member).le, ?_⟩
        exact List.forall_mem_cons.mpr ⟨Nat.le_refl _, notNearer⟩
      symm
      refine List.find?_eq_some_iff_append.mpr ⟨decide_eq_true ⟨within, least⟩, before,
        after, split, ?_⟩
      -- a name in front is further away than the one that is found
      intro other member
      rw [Bool.not_eq_true', decide_eq_false_iff_not, not_and]
      intro _ nearest
      have inFront := further other member
      have notFurther := nearest found (split ▸ List.mem_append_right before List.mem_cons_self)
      omega

/-! ### Suggestions -/

/-- Whether a candidate is another name, and one of the two contains the other in lower case. -/
def Overlaps (name candidate : String) : Prop :=
  candidate ≠ name ∧ lower name.toList ≠ [] ∧ lower candidate.toList ≠ [] ∧
    (lower name.toList <:+: lower candidate.toList ∨ lower candidate.toList <:+: lower name.toList)

/-- Whether a candidate is another name that at most two edits make of the name in lower case, and
no fewer edits make any other name that is known. -/
def Nearest (name : String) (known : List String) (candidate : String) : Prop :=
  candidate ≠ name ∧
    ∃ least, IsLeast {count | Edits count (lower name.toList) (lower candidate.toList)} least ∧
      least ≤ 2 ∧ ∀ other ∈ known, other ≠ name →
        ∀ count, Edits count (lower name.toList) (lower other.toList) → least ≤ count

instance (name candidate : String) : Decidable (Overlaps name candidate) :=
  inferInstanceAs (Decidable (_ ∧ _))

theorem nearest_iff {name candidate : String} {known : List String} :
    Nearest name known candidate ↔ candidate ≠ name ∧ distanceTo (lower name.toList) candidate ≤
      suggestionReach ∧ ∀ other ∈ known, other ≠ name →
        distanceTo (lower name.toList) candidate ≤ distanceTo (lower name.toList) other := by
  refine and_congr_right fun _ => ⟨?_, ?_⟩
  · rintro ⟨least, isLeast, within, all⟩
    obtain rfl := isLeast.unique (isLeast_editDistance _ _)
    exact ⟨within, fun other member different =>
      all other member different _ (isLeast_editDistance _ _).1⟩
  · rintro ⟨within, all⟩
    refine ⟨_, isLeast_editDistance _ _, within, fun other member different count edits => ?_⟩
    exact (all other member different).trans ((isLeast_editDistance _ _).2 edits)

instance (name : String) (known : List String) (candidate : String) :
    Decidable (Nearest name known candidate) :=
  decidable_of_iff _ nearest_iff.symm

/-- **What is suggested for a name:** the first known name that contains it or is contained in it,
else the first one that the least number of edits make of it, if these are two at most. -/
theorem closest_eq_first (name : String) (known : List String) :
    closest name known =
      (known.find? fun candidate => Overlaps name candidate).or
        (known.find? fun candidate => Nearest name known candidate) := by
  have overlapping : (known.find? fun candidate => decide (Overlaps name candidate)) =
      (known.filter fun candidate => candidate ≠ name).find? fun candidate =>
        overlap (lower name.toList) (lower candidate.toList) := by
    rw [List.find?_filter]
    congr 1
    funext candidate
    rw [decide_eq_decide, decide_eq_true_eq, overlap_iff, Overlaps]
  have near : (known.find? fun candidate => decide (Nearest name known candidate)) =
      (nearest (lower name.toList) none
        (known.filter fun candidate => candidate ≠ name)).map (·.2) := by
    rw [nearest_eq_find?, List.find?_filter]
    congr 1
    funext candidate
    simp only [decide_eq_true_eq, nearest_iff, List.mem_filter, and_imp]
  rw [overlapping, near, closest]
  cases (known.filter fun candidate => candidate ≠ name).find? fun candidate =>
    overlap (lower name.toList) (lower candidate.toList) <;> rfl

example : closest "Pasre" ["Log", "parsed", "PARSE", "Purse"] = some "PARSE" := by decide +kernel

end WorkflowGraph.Text
