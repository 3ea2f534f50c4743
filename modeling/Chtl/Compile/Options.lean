import Chtl.Json.Datum
import Chtl.Output.Merge

/-!
# Options of a compilation

Options come as json text: an object whose unknown fields are ignored, or an array of the settings
in their order. What is left out keeps its default.
-/

set_option autoImplicit false
set_option linter.all false

namespace Chtl

open Json

structure Options where
  /-- The name of the unit in diagnostics. -/
  filePath : String := "<input>"
  inlineHtml : Bool := false
  defaultStruct : Bool := false
  /-- Whether the code that binds responsive values and dynamic conditions is part of the page. -/
  emitRuntime : Bool := true
  deriving DecidableEq, Repr, Inhabited

namespace Options

def layout (o : Options) : Layout := ⟨o.inlineHtml, o.defaultStruct⟩

/-- A setting that may be left out. -/
def setting {α : Type} (read : Datum → Option α) (default : α) : Option Datum → Option α
  | none => some default
  | some value => read value

/-- The setting under a name. It may be given once at most. -/
def named {α : Type} (read : Datum → Option α) (default : α) (name : String)
    (fields : List (List Char × Datum)) : Option α :=
  match fields.filter fun field => field.1 == name.toList with
  | [] => setting read default none
  | [field] => setting read default (some field.2)
  | _ => none

/-- Settings by their names. -/
def ofFields? (fields : List (List Char × Datum)) : Option Options := do
  let d : Options := {}
  pure {
    filePath := ← named Datum.string? d.filePath "filePath" fields
    inlineHtml := ← named Datum.bool? d.inlineHtml "inlineHtml" fields
    defaultStruct := ← named Datum.bool? d.defaultStruct "defaultStruct" fields
    emitRuntime := ← named Datum.bool? d.emitRuntime "emitRuntime" fields }

/-- Settings by their places. -/
def ofItems? (items : List Datum) : Option Options := do
  guard (items.length ≤ 4)
  let d : Options := {}
  pure {
    filePath := ← setting Datum.string? d.filePath items[0]?
    inlineHtml := ← setting Datum.bool? d.inlineHtml items[1]?
    defaultStruct := ← setting Datum.bool? d.defaultStruct items[2]?
    emitRuntime := ← setting Datum.bool? d.emitRuntime items[3]? }

/-- The options that a json value stands for. -/
def ofDatum? : Datum → Option Options
  | .object fields => do
    ofFields? (← fields.mapM fun (key, value) => (characters? key).map fun name => (name, value))
  | .array items => ofItems? items
  | _ => none

/-- Reads options from json text. -/
def ofJson? (text : String) : Option Options :=
  (Datum.ofText? text.toList).bind ofDatum?

end Options

end Chtl
