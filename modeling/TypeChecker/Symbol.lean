import TypeChecker.Table

/-!
# Qualified names

Types, functions and constants are known by the module that declares them and
their name inside it.
-/

namespace TypeChecker

/-- The module whose declarations every module sees without an import. -/
def coreModule : String := "Core"

structure Symbol where
  module : String
  name : String
  deriving DecidableEq

namespace Symbol

def core (name : String) : Symbol := ⟨coreModule, name⟩

def isCore (s : Symbol) : Bool := s.module == coreModule

def text (s : Symbol) : String :=
  if s.isCore || s.module.isEmpty then s.name else s.module ++ "::" ++ s.name

/-- The text of a symbol as seen from `module`, which sees its own names bare. -/
def seenFrom (s : Symbol) (module : String) : String :=
  if s.module = module then s.name else s.text

def order (a b : Symbol) : Ordering :=
  match Text.order a.module b.module with
  | .eq => Text.order a.name b.name
  | decided => decided

end Symbol

instance : KeyOrder Symbol where
  order := Symbol.order

end TypeChecker
