/-
Regions and the way outwards.

* `Index.Within` — one region is met on the way outwards from another; `within_of_isWithin` says
  that the bounded walk only finds such regions.
* `Index.Level` — how many steps lead from a region to the top level. The level is unique, and it
  falls on the way outwards (`Level.outer`).
* `Index.NestedIn` — an instance lives somewhere inside the scopes of another. An instance holds
  itself and all that is nested in it; of the instances on one level, at most one holds a given
  instance (`Holds.unique`).
* `mem_owners_iff` — the bounded walk finds all owners around a region whose level is known.
-/

import WorkflowGraph.Schedule.Dependencies
import WorkflowGraph.Proofs.Index

namespace WorkflowGraph.Index

variable {index : Index}

/-! ### The way outwards -/

/-- Whether a region is met on the way outwards from another one. -/
inductive Within (index : Index) : Region → Region → Prop
  | refl (region : Region) : Within index region region
  | outward {owner name : String} {outer : Region} :
      Within index (index.regionOf owner) outer → Within index (some ⟨owner, name⟩) outer

namespace Within

theorem trans {inner middle outer : Region} (first : index.Within inner middle)
    (second : index.Within middle outer) : index.Within inner outer := by
  induction first with
  | refl => exact second
  | outward _ ih => exact .outward (ih second)

/-- The way outwards is a line: of two regions on it one lies inside the other. -/
theorem linear {inner first second : Region} (toFirst : index.Within inner first)
    (toSecond : index.Within inner second) :
    index.Within first second ∨ index.Within second first := by
  induction toFirst with
  | refl => exact .inl toSecond
  | outward rest ih =>
      cases toSecond with
      | refl => exact .inr (.outward rest)
      | outward others => exact ih others

/-- The last step of a way outwards leads from a scope of an instance that lives in the region. -/
theorem last_step {inner outer : Region} (within : index.Within inner outer)
    (different : inner ≠ outer) :
    ∃ owner name, index.Within inner (some ⟨owner, name⟩) ∧ index.regionOf owner = outer := by
  induction within with
  | refl => exact absurd rfl different
  | @outward owner name outer rest ih =>
      by_cases here : index.regionOf owner = outer
      · exact ⟨owner, name, .refl _, here⟩
      · obtain ⟨inside, scopeName, further, lives⟩ := ih here
        exact ⟨inside, scopeName, .outward further, lives⟩

end Within

theorem within_of_isWithinSteps {outer : Region} {steps : Nat} {inner : Region}
    (found : index.isWithinSteps outer steps inner = true) : index.Within inner outer := by
  induction steps generalizing inner with
  | zero => cases found
  | succ steps ih =>
      cases inner with
      | none =>
          obtain rfl : none = outer := by simpa [isWithinSteps] using found
          exact .refl none
      | some scope =>
          rw [isWithinSteps, Bool.or_eq_true, decide_eq_true_eq] at found
          rcases found with same | further
          · exact same ▸ .refl (some scope)
          · exact .outward (ih further)

/-- What the bounded walk finds lies on the way outwards. -/
theorem within_of_isWithin {inner outer : Region} (found : index.isWithin inner outer = true) :
    index.Within inner outer :=
  within_of_isWithinSteps found

/-! ### Levels -/

/-- Whether a number of steps outwards leads from a region to the top level. -/
inductive Level (index : Index) : Region → Nat → Prop
  | top : Level index none 0
  | scope {owner name : String} {level : Nat} :
      Level index (index.regionOf owner) level → Level index (some ⟨owner, name⟩) (level + 1)

namespace Level

theorem unique {region : Region} {first second : Nat} (one : index.Level region first)
    (other : index.Level region second) : first = second := by
  induction one generalizing second with
  | top => cases other with
    | top => rfl
  | scope _ ih => cases other with
    | scope rest => rw [ih rest]

/-- The level falls on the way outwards, and only stays the same where the region does. -/
theorem outer {inner outer : Region} {level : Nat} (within : index.Within inner outer)
    (at_ : index.Level inner level) :
    ∃ lower, index.Level outer lower ∧ (inner = outer ∧ lower = level ∨ lower < level) := by
  induction within generalizing level with
  | refl region => exact ⟨level, at_, .inl ⟨rfl, rfl⟩⟩
  | outward _ ih =>
      cases at_ with
      | scope rest =>
          obtain ⟨lower, found, below⟩ := ih rest
          refine ⟨lower, found, .inr ?_⟩
          rcases below with ⟨_, same⟩ | less <;> omega

end Level

/-- The way outwards leads to the top level, if it ends. -/
theorem Level.within_top {region : Region} {level : Nat} (known : index.Level region level) :
    index.Within region none := by
  induction known with
  | top => exact .refl none
  | scope _ ih => exact .outward ih

theorem level_of_depthSteps {steps : Nat} {region : Region} {level : Nat}
    (found : index.depthSteps steps region = some level) :
    index.Level region level ∧ level < steps := by
  induction steps generalizing region level with
  | zero => cases found
  | succ steps ih =>
      cases region with
      | none =>
          cases found
          exact ⟨.top, Nat.succ_pos _⟩
      | some scope =>
          rw [depthSteps, Option.map_eq_some_iff] at found
          obtain ⟨lower, rest, rfl⟩ := found
          obtain ⟨at_, less⟩ := ih rest
          exact ⟨.scope at_, Nat.succ_lt_succ less⟩

theorem level_of_depth {region : Region} {level : Nat} (found : index.depth region = some level) :
    index.Level region level ∧ level ≤ index.workflow.instances.length := by
  obtain ⟨at_, less⟩ := level_of_depthSteps found
  exact ⟨at_, Nat.le_of_lt_succ less⟩

/-- At most one region on each level is met on a way outwards. -/
theorem Within.eq_of_level {inner first second : Region} {level : Nat}
    (toFirst : index.Within inner first) (toSecond : index.Within inner second)
    (firstAt : index.Level first level) (secondAt : index.Level second level) : first = second := by
  rcases toFirst.linear toSecond with inside | inside
  · obtain ⟨lower, found, below⟩ := Level.outer inside firstAt
    rcases below with ⟨same, _⟩ | less
    · exact same
    · have := found.unique secondAt
      omega
  · obtain ⟨lower, found, below⟩ := Level.outer inside secondAt
    rcases below with ⟨same, _⟩ | less
    · exact same.symm
    · have := found.unique firstAt
      omega

/-! ### Nesting -/

/-- Whether an instance lives inside the scopes of another one, at any depth. -/
def NestedIn (index : Index) (id owner : String) : Prop :=
  ∃ name, index.Within (index.regionOf id) (some ⟨owner, name⟩)

namespace NestedIn

theorem level_lt {id owner : String} {level lower : Nat} (nested : index.NestedIn id owner)
    (inner : index.Level (index.regionOf id) level)
    (outer : index.Level (index.regionOf owner) lower) : lower < level := by
  obtain ⟨name, within⟩ := nested
  obtain ⟨middle, found, below⟩ := Level.outer within inner
  have := found.unique (.scope outer)
  omega

theorem trans {id middle owner : String} (first : index.NestedIn id middle)
    (second : index.NestedIn middle owner) : index.NestedIn id owner := by
  obtain ⟨_, toMiddle⟩ := first
  obtain ⟨name, toOwner⟩ := second
  exact ⟨name, toMiddle.trans (.outward toOwner)⟩

theorem irrefl {id : String} {level : Nat} (known : index.Level (index.regionOf id) level) :
    ¬ index.NestedIn id id :=
  fun nested => Nat.lt_irrefl _ (nested.level_lt known known)

/-- A given instance is nested in at most one instance on each level. -/
theorem unique {id first second : String} {level : Nat}
    (inFirst : index.NestedIn id first) (inSecond : index.NestedIn id second)
    (firstAt : index.Level (index.regionOf first) level)
    (secondAt : index.Level (index.regionOf second) level) : first = second := by
  obtain ⟨firstName, toFirst⟩ := inFirst
  obtain ⟨secondName, toSecond⟩ := inSecond
  cases toFirst.eq_of_level toSecond (.scope firstAt) (.scope secondAt)
  rfl

end NestedIn

/-! ### Holding -/

/-- Whether an instance is another one or lives inside its scopes. -/
def Holds (index : Index) (owner id : String) : Prop :=
  id = owner ∨ index.NestedIn id owner

/-- **Of the instances on one level at most one holds a given instance.** -/
theorem Holds.unique {first second id : String} {level : Nat}
    (inFirst : index.Holds first id) (inSecond : index.Holds second id)
    (firstAt : index.Level (index.regionOf first) level)
    (secondAt : index.Level (index.regionOf second) level) : first = second := by
  rcases inFirst with rfl | nestedFirst
  · rcases inSecond with same | nestedSecond
    · exact same
    · exact absurd (nestedSecond.level_lt firstAt secondAt) (Nat.lt_irrefl _)
  · rcases inSecond with rfl | nestedSecond
    · exact absurd (nestedFirst.level_lt secondAt firstAt) (Nat.lt_irrefl _)
    · exact nestedFirst.unique nestedSecond firstAt secondAt

/-- What lives around something that an instance holds lives around the instance, or in its
scopes. -/
theorem Holds.within_or_nested {holder id source : String} (held : index.Holds holder id)
    (inwards : index.Within (index.regionOf id) (index.regionOf source)) :
    index.Within (index.regionOf holder) (index.regionOf source) ∨
      index.NestedIn source holder := by
  rcases held with rfl | ⟨name, within⟩
  · exact .inl inwards
  · rcases within.linear inwards with outer | inner
    · generalize found : index.regionOf source = lives at outer ⊢
      cases outer with
      | refl => exact .inr ⟨name, found ▸ .refl _⟩
      | outward further => exact .inl further
    · exact .inr ⟨name, inner⟩

/-- Of two instances that hold a third one, one holds the other. -/
theorem Holds.linear {first second id : String} (inFirst : index.Holds first id)
    (inSecond : index.Holds second id) : index.Holds first second ∨ index.Holds second first := by
  rcases inFirst with rfl | nested
  · exact .inr inSecond
  · rcases inSecond with rfl | nestedToo
    · exact .inl (.inr nested)
    · obtain ⟨firstName, toFirst⟩ := nested
      obtain ⟨secondName, toSecond⟩ := nestedToo
      rcases toFirst.linear toSecond with within | within
      · cases within with
        | refl => exact .inl (.inl rfl)
        | outward further => exact .inr (.inr ⟨secondName, further⟩)
      · cases within with
        | refl => exact .inl (.inl rfl)
        | outward further => exact .inl (.inr ⟨firstName, further⟩)

theorem NestedIn.of_holds {first second id : String} (outer : index.NestedIn second first)
    (inner : index.Holds second id) : index.NestedIn id first := by
  rcases inner with rfl | nested
  · exact outer
  · exact nested.trans outer

theorem NestedIn.in_holder {holder middle id : String} (inner : index.NestedIn id middle)
    (outer : index.Holds holder middle) : index.NestedIn id holder := by
  rcases outer with rfl | nested
  · exact inner
  · exact inner.trans nested

/-- What flows inwards from the inside of an instance stays inside. -/
theorem NestedIn.of_within {id source owner : String} (nested : index.NestedIn source owner)
    (inwards : index.Within (index.regionOf id) (index.regionOf source)) :
    index.NestedIn id owner := by
  obtain ⟨name, within⟩ := nested
  exact ⟨name, inwards.trans within⟩

/-! ### Owners -/

theorem within_of_mem_ownersWithin {steps : Nat} {region : Region} {owner : String}
    (member : owner ∈ index.ownersWithin steps region) :
    ∃ name, index.Within region (some ⟨owner, name⟩) := by
  induction steps generalizing region with
  | zero => cases member
  | succ steps ih =>
      cases region with
      | none => cases member
      | some scope =>
          rcases List.mem_cons.mp member with same | further
          · exact ⟨scope.name, same ▸ .refl _⟩
          · obtain ⟨name, within⟩ := ih further
            exact ⟨name, .outward within⟩

theorem mem_ownersWithin {steps level : Nat} {region : Region} {owner name : String}
    (within : index.Within region (some ⟨owner, name⟩)) (known : index.Level region level)
    (enough : level ≤ steps) : owner ∈ index.ownersWithin steps region := by
  induction steps generalizing region level with
  | zero =>
      obtain rfl : level = 0 := Nat.le_zero.mp enough
      cases known
      cases within
  | succ steps ih =>
      cases known with
      | top => cases within
      | scope rest =>
          cases within with
          | refl => exact List.mem_cons_self
          | outward further =>
              exact List.mem_cons_of_mem _ (ih further rest (Nat.le_of_succ_le_succ enough))

/-- **The owners around a region whose level is known are those on the way outwards.** -/
theorem mem_owners_iff {region : Region} {level : Nat} {owner : String}
    (known : index.Level region level)
    (enough : level ≤ index.workflow.instances.length + 1) :
    owner ∈ index.owners region ↔ ∃ name, index.Within region (some ⟨owner, name⟩) :=
  ⟨within_of_mem_ownersWithin, fun ⟨_, within⟩ => mem_ownersWithin within known enough⟩

end WorkflowGraph.Index
