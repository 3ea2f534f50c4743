import Chtl.Document.Template
import Chtl.Expr.Basic

/-!
# Faults in markup
-/

set_option autoImplicit false
set_option linter.all false

namespace Chtl

/-- What the markup should have gone on with. -/
inductive Expectation where
  | node
  | openBrace
  | closeBrace
  | bodyItem
  | colonOrBrace
  | element
  | colonAfterProperty
  | declaration
  | propertyName
  | propertyValue
  | staticValue
  | styleUse
  | elementUse
  | templateName
  | branchItem
  | openBracket
  | templateWord
  | closeBracket
  | templateKind
  | templateNode
  | variableName
  | colon
  deriving DecidableEq, Repr

def Expectation.text : Expectation → String
  | node => "element, text block or template"
  | openBrace => "'\x7b'"
  | closeBrace => "'\x7d'"
  | bodyItem => "attribute, element or '\x7d'"
  | colonOrBrace => "':' or '\x7b'"
  | element => "element"
  | colonAfterProperty => "':' after property name"
  | declaration => "declaration"
  | propertyName => "property name"
  | propertyValue => "property value"
  | staticValue => "static value in conditional block"
  | styleUse => "'@Style'"
  | elementUse => "'@Element'"
  | templateName => "template name"
  | branchItem => "condition, declaration or element"
  | openBracket => "'['"
  | templateWord => "'Template' or 'Custom'"
  | closeBracket => "']'"
  | templateKind => "'@Style', '@Element' or '@Var'"
  | templateNode => "element or text"
  | variableName => "variable name or '\x7d'"
  | colon => "':'"

inductive ConditionFault where
  | onElse
  | repeated
  | missing
  | malformed (fault : ExprFault)
  deriving DecidableEq, Repr

def ConditionFault.message : ConditionFault → String
  | onElse => "'else' takes no condition"
  | repeated => "a branch has exactly one condition"
  | missing => "missing 'condition'"
  | malformed fault => fault.message

/-- Where no block may stand. -/
inductive ForbiddenPlace where
  | conditional
  | template
  deriving DecidableEq, Repr

def ForbiddenPlace.text : ForbiddenPlace → String
  | conditional => "inside a conditional block"
  | template => "inside a template"

inductive MarkupError where
  | unexpectedToken (expected : Expectation) (found : String) (span : Span)
  | unexpectedEnd (expected : Expectation) (span : Span)
  | unknownTemplate (kind : TemplateKind) (name : String) (span : Span)
  | malformedCondition (fault : ConditionFault) (span : Span)
  | misplacedBlock (kind : FragmentKind) (place : ForbiddenPlace) (span : Span)
  deriving DecidableEq, Repr

namespace MarkupError

def span : MarkupError → Span
  | unexpectedToken _ _ s | unexpectedEnd _ s | unknownTemplate _ _ s | malformedCondition _ s
  | misplacedBlock _ _ s => s

def message : MarkupError → String
  | unexpectedToken expected found _ => "expected " ++ expected.text ++ ", found '" ++ found ++ "'"
  | unexpectedEnd expected _ => "unexpected end of input, expected " ++ expected.text
  | unknownTemplate kind name _ => "unknown " ++ kind.word ++ " template '" ++ name ++ "'"
  | malformedCondition fault _ => "malformed condition: " ++ fault.message
  | misplacedBlock kind place _ => kind.word ++ " block is not allowed " ++ place.text

end MarkupError

end Chtl
