import Chtl.Source.Location

/-!
# Diagnostics

A diagnostic is the record a host prints: a code, the guarantee that the code stands for, a message
and a place. Codes come as text, so that a host may report codes of its own; the known ones have a
guarantee.
-/

set_option autoImplicit false
set_option linter.all false

namespace Chtl

/-- The ways in which a compilation can fail. -/
inductive FaultCode where
  | unterminatedBlock
  | markupShape
  | unknownTemplate
  | malformedCondition
  | misplacedBlock
  | unitMismatch
  | typeMismatch
  | unresolvedReference
  | circularReference
  | scriptShape
  | scriptContext
  | extension
  | danglingPlaceholder
  | duplicatePlaceholder
  deriving DecidableEq, Repr

namespace FaultCode

def all : List FaultCode :=
  [.unterminatedBlock, .markupShape, .unknownTemplate, .malformedCondition, .misplacedBlock,
    .unitMismatch, .typeMismatch, .unresolvedReference, .circularReference, .scriptShape,
    .scriptContext, .extension, .danglingPlaceholder, .duplicatePlaceholder]

def text : FaultCode → String
  | unterminatedBlock => "CHTL-ERR-SCAN-001"
  | markupShape => "CHTL-ERR-MARKUP-001"
  | unknownTemplate => "CHTL-ERR-MARKUP-002"
  | malformedCondition => "CHTL-ERR-MARKUP-003"
  | misplacedBlock => "CHTL-ERR-MARKUP-004"
  | unitMismatch => "CHTL-ERR-EVAL-001"
  | typeMismatch => "CHTL-ERR-EVAL-002"
  | unresolvedReference => "CHTL-ERR-EVAL-003"
  | circularReference => "CHTL-ERR-EVAL-004"
  | scriptShape => "CHTL-ERR-SCRIPT-001"
  | scriptContext => "CHTL-ERR-SCRIPT-002"
  | extension => "CHTL-ERR-EXT-001"
  | danglingPlaceholder => "CHTL-INV-001"
  | duplicatePlaceholder => "CHTL-INV-002"

/-- What the compiler promises about every input that does not raise the code. -/
def guarantee : FaultCode → String
  | unterminatedBlock => "Every style and script block is closed before the end of the unit."
  | markupShape => "Markup follows the element/attribute/text grammar."
  | unknownTemplate => "Templates and variable groups are defined before they are used."
  | malformedCondition => "Every if and else-if branch carries one well-formed condition."
  | misplacedBlock =>
    "Script blocks live in rendered elements; conditional blocks hold no style or script blocks."
  | unitMismatch => "Numeric operands are only compared or combined when their units agree."
  | typeMismatch => "Operators are applied to operands of compatible types."
  | unresolvedReference => "Property references name an element and property that exist."
  | circularReference => "Property references between elements never form a cycle."
  | scriptShape => "Enhanced selectors and behavior blocks are well formed."
  | scriptContext =>
    "`\x7b\x7b&\x7d\x7d` is only used inside a script block that belongs to an element."
  | extension => "Registered syntax extensions accept the arguments they are given."
  | danglingPlaceholder => "Every placeholder emitted by the scanner is resolved by the merger."
  | duplicatePlaceholder => "Every placeholder is resolved exactly once."

def ofText? (code : String) : Option FaultCode :=
  all.find? (·.text == code)

end FaultCode

structure Diagnostic where
  code : String
  message : String
  file : String
  location : Location
  context : Option String := none
  hints : List String := []
  deriving DecidableEq, Repr

namespace Diagnostic

/-- Codes of broken invariants are told apart by their first letters. -/
def errorType (d : Diagnostic) : String :=
  if Text.startsWith d.code.toList "CHTL-INV".toList then "INTERNAL_INVARIANT_VIOLATION"
  else "COMPILE_ERROR"

def guarantee (d : Diagnostic) : String :=
  match FaultCode.ofText? d.code with
  | some code => code.guarantee
  | none => "Unknown invariant."

/-- Takes the line that the location names as context, if the source has such a line. -/
def attachContext (d : Diagnostic) (source : List Char) : Diagnostic :=
  { d with context := (Text.lines source)[d.location.line - 1]?.map String.ofList }

/-- The diagnostic as a host prints it. -/
def display (d : Diagnostic) : String :=
  d.file ++ ":" ++ toString d.location.line ++ ":" ++ toString d.location.column ++ ": [" ++
    d.code ++ "] " ++ d.message ++
    (match d.context with
      | some line => "\n    " ++ line
      | none => "") ++
    String.join (d.hints.map fun hint => "\n    hint: " ++ hint)

end Diagnostic

end Chtl
