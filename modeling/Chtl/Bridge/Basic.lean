import Chtl.Bridge.Table
import Chtl.Json.Basic

/-!
# Facts between markup and scripts

While markup is generated and scripts are read, facts that the page's code needs are recorded: which
elements follow a variable, which conditions are decided on the page, which element a script belongs
to, and which variables scripts declare. Once recording is over the facts are only read.
-/

set_option autoImplicit false
set_option linter.all false

namespace Chtl

/-- An attribute, or a style property with `style.` before its name, that follows a variable. -/
structure ResponsiveBinding where
  elementId : String
  property : String
  unit : String
  deriving DecidableEq, Repr

/-- A style property that a branch of a dynamic chain sets. An `else` branch has no condition. -/
structure ConditionalBinding where
  elementId : String
  property : String
  expression : Option String
  value : String
  chain : Nat
  branch : Nat
  deriving DecidableEq, Repr

/-- A wrapper that is shown while a condition holds. -/
structure RenderingBinding where
  wrapperId : String
  expression : String
  deriving DecidableEq, Repr

structure Facts where
  responsive : Table String (List ResponsiveBinding) := []
  conditionals : List ConditionalBinding := []
  renderings : List RenderingBinding := []
  contexts : Table String String := []
  initializers : Table String String := []
  deriving DecidableEq, Repr

namespace Facts

def isResponsive (f : Facts) (name : String) : Bool := (f.responsive.get? name).isSome

/-- The id of the element that a script's placeholder stands in. -/
def context? (f : Facts) (placeholder : String) : Option String := f.contexts.get? placeholder

/-- The initializer of a variable that a script declares. -/
def initializer? (f : Facts) (name : String) : Option String := f.initializers.get? name

/-- Whether the page's code has anything to bind. -/
def needsRuntime (f : Facts) : Bool :=
  !f.responsive.isEmpty || !f.conditionals.isEmpty || !f.renderings.isEmpty

end Facts

/-- Facts being recorded, and how many dynamic chains have been numbered. -/
structure Bridge where
  facts : Facts := {}
  chains : Nat := 0
  deriving DecidableEq, Repr

namespace Bridge

def recordResponsive (b : Bridge) (name : String) (binding : ResponsiveBinding) : Bridge :=
  { b with facts := { b.facts with responsive := b.facts.responsive.push name binding } }

/-- Numbers a new dynamic chain. -/
def beginChain (b : Bridge) : Nat × Bridge := (b.chains, { b with chains := b.chains + 1 })

def recordConditional (b : Bridge) (binding : ConditionalBinding) : Bridge :=
  { b with facts := { b.facts with conditionals := b.facts.conditionals ++ [binding] } }

def recordRendering (b : Bridge) (binding : RenderingBinding) : Bridge :=
  { b with facts := { b.facts with renderings := b.facts.renderings ++ [binding] } }

def recordContext (b : Bridge) (placeholder elementId : String) : Bridge :=
  { b with facts := { b.facts with contexts := b.facts.contexts.insert placeholder elementId } }

def recordVariable (b : Bridge) (name initializer : String) : Bridge :=
  { b with facts := { b.facts with initializers := b.facts.initializers.insert name initializer } }

end Bridge

def ResponsiveBinding.json (b : ResponsiveBinding) : Json :=
  .object [("elementId", .str b.elementId), ("property", .str b.property), ("unit", .str b.unit)]

def ConditionalBinding.json (b : ConditionalBinding) : Json :=
  .object [("targetElementId", .str b.elementId), ("targetProperty", .str b.property),
    ("expressionText", match b.expression with
      | some e => .str e
      | none => .null),
    ("value", .str b.value), ("chain", .nat b.chain), ("branch", .nat b.branch)]

def RenderingBinding.json (b : RenderingBinding) : Json :=
  .object [("wrapperElementId", .str b.wrapperId), ("expressionText", .str b.expression)]

namespace Facts

def json (f : Facts) : Json :=
  .object [
    ("responsiveBindings",
      .object (f.responsive.map fun (name, bs) => (name, .array (bs.map ResponsiveBinding.json)))),
    ("dynamicConditionalBindings", .array (f.conditionals.map ConditionalBinding.json)),
    ("dynamicRenderingBindings", .array (f.renderings.map RenderingBinding.json)),
    ("scriptContexts", .object (f.contexts.map fun (k, v) => (k, .str v))),
    ("scriptVariables", .object (f.initializers.map fun (k, v) => (k, .str v)))]

/-- The facts as indented text. -/
def jsonText (f : Facts) : String := f.json.pretty 0

end Facts

end Chtl
