import Chtl.Document.Template
import Chtl.Expr.Parse
import Chtl.Expr.Shape
import Chtl.Markup.Cursor

/-!
# Values in markup

Quoted and bare texts, values that follow a variable of the page's code, uses of variable groups,
and the kinds of style values.
-/

set_option autoImplicit false
set_option linter.all false

namespace Chtl.Markup

open Text

/-- A backslash stands for the character after it. -/
def unescape : List Char → List Char
  | [] => []
  | '\\' :: [] => []
  | '\\' :: c :: cs => c :: unescape cs
  | c :: cs => c :: unescape cs

/-- The text between quotes, or the text itself when it has none around it. -/
def unquote (cs : List Char) : List Char :=
  match cs with
  | q :: rest =>
    if (q = '"' ∨ q = '\x27') ∧ rest.getLast? = some q then unescape rest.dropLast else cs
  | [] => []

/-- Whether the text is one quoted string and nothing else. -/
def isSingleString : List Char → Bool
  | q :: rest =>
    (q == '"' || q == '\x27') && !rest.isEmpty && quotedLength q false rest == rest.length
  | [] => false

/-- The variable and the unit of `$name$unit`. -/
def responsive? : List Char → Option (String × String)
  | '$' :: c :: rest =>
    if isNameStart c then
      let tail := rest.takeWhile fun x => isAsciiAlnum x || x == '_'
      match rest.drop tail.length with
      | '$' :: unit =>
        if unit = ['%'] ∨ unit.all isAsciiLetter then
          some (String.ofList (c :: tail), String.ofList unit)
        else none
      | _ => none
    else none
  | _ => none

/-- A use `Group(key)` at the front of a text, with its length. -/
def variableUse? : List Char → Option (String × String × Nat)
  | [] => none
  | c :: rest =>
    if isAsciiUpper c then
      let tail := rest.takeWhile fun x => isAsciiAlnum x || x == '_'
      match rest.drop tail.length with
      | '(' :: inner =>
        let lead := (inner.takeWhile isBlank).length
        match name? (inner.drop lead) with
        | some key =>
          let behind := inner.drop (lead + key.length)
          let trail := (behind.takeWhile isBlank).length
          if (behind.drop trail).head? = some ')' then
            some (String.ofList (c :: tail), String.ofList key,
              1 + tail.length + 1 + lead + key.length + trail + 1)
          else none
        | none => none
      | _ => none
    else none

/-- Replaces the uses of defined groups. A use of an undefined group stays as it is; a key that its
group lacks is the error. -/
def expandVariables (templates : Templates) (cs : List Char) :
    Except (String × String) (List Char) :=
  match cs with
  | [] => .ok []
  | c :: rest =>
    match variableUse? (c :: rest) with
    | none => (expandVariables templates rest).map (c :: ·)
    | some (group, key, n) =>
      let more := rest.drop (n - 1)
      if (templates.group? group).isNone then
        (expandVariables templates more).map ((c :: rest.take (n - 1)) ++ ·)
      else
        match templates.value? group key with
        | none => .error (group, key)
        | some value => (expandVariables templates more).map (value.toList ++ ·)
termination_by cs.length
decreasing_by all_goals simp only [List.length_cons, List.length_drop]; omega

/-- The kind of a style value that stands at the offset `base` of the source. A text that looks like
an expression but does not read as one is plain. -/
def styleValue (cs : List Char) (base : Nat) : StyleValue :=
  match responsive? cs with
  | some (name, unit) => .responsive name unit
  | none =>
    if !isSingleString cs && Expr.looksLikeExpression cs then
      match Expr.parse cs base with
      | .ok e => .expr e
      | .error _ => .literal (String.ofList cs)
    else .literal (String.ofList cs)

end Chtl.Markup
