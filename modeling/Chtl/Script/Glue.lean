import Chtl.Bridge.Basic
import Chtl.Script.Literal

/-!
# The glue between page and scripts

From the recorded facts comes the code that keeps the page up to date: attributes and styles follow
their variables, dynamic chains set styles, and wrappers are shown and hidden.
-/

set_option autoImplicit false
set_option linter.all false

namespace Chtl.Script

/-- The object that all glue goes through. -/
def glueCore : String :=
  "const __chtl = \x7b
  bindings: \x7b\x7d,
  renderings: [],
  registerBinding(name, elementId, property, unit) \x7b
    (this.bindings[name] = this.bindings[name] || []).push(\x7b elementId, property, unit \x7d);
  \x7d,
  updateDOM(name, value) \x7b
    for (const binding of this.bindings[name] || []) \x7b
      const el = document.getElementById(binding.elementId);
      if (!el) continue;
      const text = String(value) + binding.unit;
      if (binding.property.startsWith('style.')) \x7b
        el.style.setProperty(binding.property.slice(6), text);
      \x7d else \x7b
        el.setAttribute(binding.property, text);
      \x7d
    \x7d
  \x7d,
  registerDynamicRendering(wrapperId, condition) \x7b
    this.renderings.push(\x7b wrapperId, condition \x7d);
  \x7d,
  evaluateDynamicRendering() \x7b
    for (const rendering of this.renderings) \x7b
      const el = document.getElementById(rendering.wrapperId);
      if (el) el.style.display = rendering.condition() ? '' : 'none';
    \x7d
  \x7d,
\x7d;
"

def whenLoaded (code : String) : String :=
  "document.addEventListener('DOMContentLoaded', " ++ code ++ ");\n"

def whenResized (code : String) : String :=
  "window.addEventListener('resize', " ++ code ++ ");\n"

/-- The accessor through which a variable updates what follows it. -/
def accessorCode (name : String) : String :=
  "(function () \x7b\n  let value;\n  Object.defineProperty(window, " ++ name ++ ", \x7b\n" ++
  "    configurable: true,\n    get() \x7b return value; \x7d,\n" ++
  "    set(next) \x7b value = next; __chtl.updateDOM(" ++ name ++ ", next); \x7d,\n" ++
  "  \x7d);\n\x7d)();\n"

/-- The glue of one variable. A variable that a script initializes is shown once the page is
loaded. -/
def variableGlue (f : Facts) (name : String) (bindings : List ResponsiveBinding) : String :=
  let quoted := singleQuoted name
  String.join (bindings.map fun b =>
    "__chtl.registerBinding(" ++ quoted ++ ", " ++ singleQuoted b.elementId ++ ", " ++
      singleQuoted b.property ++ ", " ++ singleQuoted b.unit ++ ");\n") ++
    accessorCode quoted ++
    (if (f.initializer? name).isSome then
      whenLoaded ("() => __chtl.updateDOM(" ++ quoted ++ ", window[" ++ quoted ++ "])")
    else "")

/-- How an arm of a ladder begins. -/
def armHead (isFirst : Bool) (condition : Option String) : String :=
  match isFirst, condition with
  | true, some c => "  if (" ++ unwrapped c ++ ") \x7b\n"
  | false, some c => "  \x7d else if (" ++ unwrapped c ++ ") \x7b\n"
  | true, none => "  \x7b\n"
  | false, none => "  \x7d else \x7b\n"

/-- One arm: the condition of its first binding, and what its bindings set. -/
def armCode (isFirst : Bool) (bindings : List ConditionalBinding) : String :=
  armHead isFirst (bindings.head?.bind (·.expression)) ++
    String.join ((bindings.filter fun b => b.property != "").map fun b =>
      "    el.style.setProperty(" ++ singleQuoted b.property ++ ", " ++ singleQuoted b.value ++
        ");\n")

/-- The arms of a ladder, in the order of the branches. -/
def armsCode : (isFirst : Bool) → List (Nat × List ConditionalBinding) → String
  | _, [] => ""
  | isFirst, (_, bindings) :: rest => armCode isFirst bindings ++ armsCode false rest

/-- The function that a dynamic chain becomes. -/
def chainGlue (chain : Nat) (bindings : List ConditionalBinding) : String :=
  let arms := Table.group (·.branch) bindings
  match arms with
  | (_, first :: _) :: _ =>
    let function := "update_chtl_dynamic_" ++ toString chain
    "function " ++ function ++ "() \x7b\n" ++
      "  const el = document.getElementById(" ++ singleQuoted first.elementId ++ ");\n" ++
      "  if (!el) return;\n" ++ armsCode true arms ++ "  \x7d\n\x7d\n" ++
      whenLoaded function ++ whenResized function
  | _ => ""

def renderingGlue (renderings : List RenderingBinding) : String :=
  let update := "() => __chtl.evaluateDynamicRendering()"
  String.join (renderings.map fun r =>
    "__chtl.registerDynamicRendering(" ++ singleQuoted r.wrapperId ++ ", () => (" ++
      unwrapped r.expression ++ "));\n") ++
    if renderings.isEmpty then "" else whenLoaded update ++ whenResized update

/-- All the glue that facts need; nothing if there is nothing to bind. -/
def glue (f : Facts) : String :=
  if !f.needsRuntime then ""
  else
    glueCore ++
      String.join (f.responsive.map fun (name, bindings) => variableGlue f name bindings) ++
      String.join ((Table.group (·.chain) f.conditionals).map fun (chain, bindings) =>
        chainGlue chain bindings) ++
      renderingGlue f.renderings

end Chtl.Script
