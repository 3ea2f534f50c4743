import Chtl.Extension.Registry
import Chtl.Fragment.Scan
import Chtl.Markup.Error
import Chtl.Output.Fragments
import Chtl.Script.Basic
import Chtl.Style.Eval

/-!
# Faults of a compilation

A fault in a unit is a cause with a place and a code; it is reported together with the fragment it
lies in. Faults in placing the outputs are kept apart, since no source is to blame for them.
-/

set_option autoImplicit false
set_option linter.all false

namespace Chtl

def MarkupError.code : MarkupError → FaultCode
  | unexpectedToken .. | unexpectedEnd .. => .markupShape
  | unknownTemplate .. => .unknownTemplate
  | malformedCondition .. => .malformedCondition
  | misplacedBlock .. => .misplacedBlock

def EvalError.code : EvalError → FaultCode
  | unitMismatch .. => .unitMismatch
  | wrongType .. | runtimeOperand .. | zeroDivisor .. => .typeMismatch
  | unresolvedReference .. => .unresolvedReference
  | circularReference .. => .circularReference

def ScriptError.code : ScriptError → FaultCode
  | missingContext .. => .scriptContext
  | unterminatedSelector .. | emptySelector .. | malformedBlock .. | unterminatedBlock .. =>
    .scriptShape

/-- Why a fragment does not compile. -/
inductive FragmentFault where
  | markup (e : MarkupError)
  | eval (e : EvalError)
  | script (e : ScriptError)
  | extension (e : ExtensionError)
  deriving DecidableEq, Repr

namespace FragmentFault

def span : FragmentFault → Span
  | markup e => e.span
  | eval e => e.span
  | script e => e.span
  | extension e => e.span

def message : FragmentFault → String
  | markup e => e.message
  | eval e => e.message
  | script e => e.message
  | extension e => e.message

def code : FragmentFault → FaultCode
  | markup e => e.code
  | eval e => e.code
  | script e => e.code
  | extension _ => .extension

end FragmentFault

inductive CompileError where
  | scan (e : ScanError)
  /-- A fault in a fragment, with the fragment's extent and kind. -/
  | fragment (range : Span) (kind : FragmentKind) (cause : FragmentFault)
  /-- Two outputs for one placeholder. -/
  | output (e : PlacementError)
  /-- A placeholder of the generated markup without an output, or there twice. -/
  | merge (e : PlacementError)
  deriving DecidableEq, Repr

namespace CompileError

/-- Whether the compiler broke a promise of its own. -/
def isInternal : CompileError → Bool
  | scan _ | fragment .. => false
  | output _ | merge _ => true

def message : CompileError → String
  | scan e => e.message
  | fragment range kind cause =>
    kind.word ++ " fragment at " ++ range.text ++ " failed to compile: " ++ cause.message
  | output e | merge e => e.message

/-- The report of a fault before its context is taken from the source. -/
def report (file : String) (source : List Char) : CompileError → Diagnostic
  | scan e =>
    { code := FaultCode.unterminatedBlock.text
      message := e.message
      file := file
      location := .ofOffset source e.span.start
      hints := ["Check for a missing '\x7d' or an unclosed string inside the block."] }
  | fragment range kind cause =>
    let start := Location.ofOffset source range.start
    { code := cause.code.text
      message := cause.message
      file := file
      location := .ofOffset source cause.span.start
      hints := ["in the " ++ kind.word ++ " fragment starting at line " ++ toString start.line ++
        ", column " ++ toString start.column] }
  | output e | merge e =>
    { code := e.code.text
      message := e.message
      file := file
      location := .ofOffset source 0 }

/-- The diagnostic for a fault in the unit with this file name and source. -/
def diagnostic (e : CompileError) (file : String) (source : List Char) : Diagnostic :=
  (e.report file source).attachContext source

end CompileError

end Chtl
