/-
Attempts to schedule: why one fails, and what it asks on its way.

Some instances wait for a predicate that the caller gives. An attempt keeps the consultations of
such predicates in order, whether it succeeds or fails.
-/

import WorkflowGraph.Workflow

namespace WorkflowGraph

/-- Why a workflow cannot be scheduled. -/
inductive ScheduleError where
  /-- No instance of a region that is left can be placed. -/
  | stuck (region : Region) (pending : List String)
  /-- A connection starts at an instance that is not there. -/
  | unknownInstance (id : String)
  /-- An instance is of a node type that is not there. -/
  | unknownNodeType (node nodeType : String)
  /-- An instance waits for a predicate that is not there. -/
  | unknownPredicate (name node : String)
  /-- A scope lies deeper than the limit, or its way outwards never ends. -/
  | scopeTooDeep (scope : ScopeRef) (limit : Nat)
deriving DecidableEq

/-- Why a workflow cannot be scheduled, in words. -/
def ScheduleError.message : ScheduleError → String
  | stuck region pending =>
    "Scheduling stuck in " ++ region.toText ++ " at '" ++ pending.headD "" ++ "' (pending: " ++
      String.intercalate ", " pending ++ ")"
  | unknownInstance id => "Unknown instance '" ++ id ++ "'"
  | unknownNodeType node nodeType =>
    "Instance '" ++ node ++ "' has unknown node type '" ++ nodeType ++ "'"
  | unknownPredicate name node =>
    "No readiness predicate registered as '" ++ name ++ "' (needed by '" ++ node ++ "')"
  | scopeTooDeep scope limit =>
    "Scope '" ++ scope.toText ++ "' exceeds the maximum nesting depth of " ++ Nat.repr limit

/-- What a predicate is told about an instance whose data is all there. -/
structure Query where
  /-- The id of the instance. -/
  node : String
  /-- The step predecessors that have been placed. -/
  resolved : List String
  /-- The step predecessors that have not been placed. -/
  pending : List String
deriving DecidableEq

/-- Decides whether an instance may run. -/
abbrev Predicate : Type :=
  Query → Bool

/-- One question to a predicate, and its answer. -/
structure Consultation where
  /-- The name of the predicate. -/
  predicate : String
  query : Query
  ready : Bool
deriving DecidableEq

/-- The outcome of a computation that may consult predicates and may fail. -/
structure Attempt (ε α : Type) where
  consultations : List Consultation
  outcome : Except ε α

namespace Attempt

variable {ε α β : Type}

/-- The attempt that fails at once. -/
def fail (error : ε) : Attempt ε α :=
  ⟨[], .error error⟩

/-- The attempt that only has an outcome. -/
def ofExcept (outcome : Except ε α) : Attempt ε α :=
  ⟨[], outcome⟩

/-- One attempt after another; the second is made if the first succeeds. -/
def andThen (first : Attempt ε α) (second : α → Attempt ε β) : Attempt ε β :=
  match first.outcome with
  | .error error => ⟨first.consultations, .error error⟩
  | .ok value =>
    let rest := second value
    ⟨first.consultations ++ rest.consultations, rest.outcome⟩

instance : Monad (Attempt ε) where
  pure value := ⟨[], .ok value⟩
  bind := andThen

/-- Attempts are lawful: the order of consultations does not depend on how steps are grouped. -/
instance : LawfulMonad (Attempt ε) :=
  LawfulMonad.mk' (Attempt ε)
    (fun attempt => by
      obtain ⟨consultations, outcome⟩ := attempt
      cases outcome <;> simp [Functor.map, andThen])
    (fun value second => by simp [pure, bind, andThen])
    (fun first second third => by
      obtain ⟨consultations, outcome⟩ := first
      cases outcome with
      | error error => simp [bind, andThen]
      | ok value =>
          simp only [bind, andThen]
          cases (second value).outcome <;> simp [List.append_assoc])

/-- Asks a predicate. -/
def consult (name : String) (predicate : Predicate) (query : Query) : Attempt ε Bool :=
  ⟨[⟨name, query, predicate query⟩], .ok (predicate query)⟩

/-- The attempt with another form of its error. -/
def mapError {δ : Type} (form : ε → δ) (attempt : Attempt ε α) : Attempt δ α :=
  ⟨attempt.consultations, attempt.outcome.mapError form⟩

end Attempt

end WorkflowGraph
