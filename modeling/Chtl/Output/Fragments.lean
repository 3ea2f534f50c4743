import Chtl.Diagnostic
import Chtl.Fragment.Basic

/-!
# Compiled fragments

What the blocks of a unit were compiled to, under their placeholders and in the order of the source.
-/

set_option autoImplicit false
set_option linter.all false

namespace Chtl

/-- Every placeholder is to be resolved once; these are the two ways to miss that. -/
inductive PlacementError where
  | dangling (token : String)
  | duplicate (token : String)
  deriving DecidableEq, Repr

namespace PlacementError

def message : PlacementError → String
  | dangling token => "placeholder `" ++ token ++ "` has no compiled fragment"
  | duplicate token => "placeholder `" ++ token ++ "` was resolved more than once"

def code : PlacementError → FaultCode
  | dangling _ => .danglingPlaceholder
  | duplicate _ => .duplicatePlaceholder

end PlacementError

structure CompiledFragment where
  kind : FragmentKind
  text : String
  deriving DecidableEq, Repr

structure FragmentOutputs where
  entries : List (Placeholder × CompiledFragment) := []
  deriving DecidableEq, Repr

namespace FragmentOutputs

def get? (o : FragmentOutputs) (token : String) : Option CompiledFragment :=
  (o.entries.find? fun entry => entry.1.token == token).map (·.2)

/-- Adds an output at the end. A placeholder takes only one. -/
def insert (o : FragmentOutputs) (placeholder : Placeholder) (fragment : CompiledFragment) :
    Except PlacementError FragmentOutputs :=
  match o.get? placeholder.token with
  | some _ => .error (.duplicate placeholder.token)
  | none => .ok ⟨o.entries ++ [(placeholder, fragment)]⟩

def size (o : FragmentOutputs) : Nat := o.entries.length

def isEmpty (o : FragmentOutputs) : Bool := o.entries.isEmpty

/-- The texts of the outputs of one kind. -/
def textsOf (o : FragmentOutputs) (kind : FragmentKind) : List String :=
  (o.entries.filter fun entry => entry.2.kind == kind).map fun entry => entry.2.text

end FragmentOutputs

end Chtl
