/-
The configuration of the compiler: which rules are left out, and how deep scopes may nest.
-/

namespace WorkflowGraph

/-- How deep scopes may nest where nothing else is said. -/
def defaultScopeDepth : Nat := 16

/-- The configuration of the compiler. -/
structure Config where
  /-- The ids of the rules that are left out. -/
  disabledRules : List String := []
  /-- How deep scopes may nest. -/
  maxScopeDepth : Nat := defaultScopeDepth
deriving DecidableEq

namespace Config

/-- Whether a rule is not left out. -/
def ruleEnabled (config : Config) (id : String) : Bool :=
  !config.disabledRules.contains id

/-- Whether a configuration can be used: at least one level of scopes is allowed. -/
def isValid (config : Config) : Bool :=
  config.maxScopeDepth ≠ 0

/-- What is wrong with a configuration that cannot be used, in words. -/
def invalidMessage : String :=
  "Invalid configuration: maxScopeDepth must be at least 1"

end Config

end WorkflowGraph
