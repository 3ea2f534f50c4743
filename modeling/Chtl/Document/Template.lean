import Chtl.Document.Basic

/-!
# Templates

A unit may define style templates, element templates and groups of variables. The three kinds have
name spaces of their own, and a later definition replaces an earlier one.
-/

set_option autoImplicit false
set_option linter.all false

namespace Chtl

inductive TemplateKind where
  | style
  | element
  | group
  deriving DecidableEq, Repr

def TemplateKind.word : TemplateKind → String
  | style => "@Style"
  | element => "@Element"
  | group => "@Var"

inductive Template where
  | style (declarations : List StyleDeclaration)
  | element (nodes : List Node)
  | group (values : List (String × String))

/-- The definitions so far, the latest first. -/
structure Templates where
  styles : List (String × List StyleDeclaration) := []
  elements : List (String × List Node) := []
  groups : List (String × List (String × String)) := []

namespace Templates

def define (t : Templates) (name : String) : Template → Templates
  | .style declarations => { t with styles := (name, declarations) :: t.styles }
  | .element nodes => { t with elements := (name, nodes) :: t.elements }
  | .group values => { t with groups := (name, values) :: t.groups }

def style? (t : Templates) (name : String) : Option (List StyleDeclaration) :=
  t.styles.lookup name

def element? (t : Templates) (name : String) : Option (List Node) :=
  t.elements.lookup name

theorem style?_define (t : Templates) (name other : String) (declarations : List StyleDeclaration) :
    (t.define name (.style declarations)).style? other =
      if other = name then some declarations else t.style? other := by
  by_cases h : other = name
  · simp [define, style?, h]
  · rw [define, style?, List.lookup_cons, beq_false_of_ne h, if_neg h, style?]

theorem element?_define (t : Templates) (name other : String) (nodes : List Node) :
    (t.define name (.element nodes)).element? other =
      if other = name then some nodes else t.element? other := by
  by_cases h : other = name
  · simp [define, element?, h]
  · rw [define, element?, List.lookup_cons, beq_false_of_ne h, if_neg h, element?]

def group? (t : Templates) (name : String) : Option (List (String × String)) :=
  t.groups.lookup name

/-- The value of a variable; within a group the first one of a name counts. -/
def value? (t : Templates) (group key : String) : Option String :=
  (t.group? group).bind (·.lookup key)

def lookup? (t : Templates) (kind : TemplateKind) (name : String) : Option Template :=
  match kind with
  | .style => (t.style? name).map .style
  | .element => (t.element? name).map .element
  | .group => (t.group? name).map .group

end Templates

end Chtl
