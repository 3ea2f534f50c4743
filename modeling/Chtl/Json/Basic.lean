import Chtl.Json.Quote

/-!
# Json text

Values and their layout on indented lines: two blanks a level, nothing inside empty brackets.
-/

set_option autoImplicit false
set_option linter.all false

namespace Chtl

inductive Json where
  | null
  | nat (n : Nat)
  | str (s : String)
  | array (items : List Json)
  | object (fields : List (String × Json))

namespace Json

def indent (depth : Nat) : String :=
  String.join (List.replicate depth "  ")

/-- Items on lines of their own between brackets. -/
def block (depth : Nat) (left right : String) (items : List String) : String :=
  if items.isEmpty then left ++ right
  else
    left ++ "\n" ++
      String.intercalate ",\n" (items.map (indent (depth + 1) ++ ·)) ++
      "\n" ++ indent depth ++ right

mutual

/-- The text of a value whose first line is indented already. -/
def pretty (depth : Nat) : Json → String
  | null => "null"
  | nat n => toString n
  | str s => quote s
  | array items => block depth "[" "]" (prettyItems (depth + 1) items)
  | object fields => block depth "\x7b" "\x7d" (prettyFields (depth + 1) fields)

def prettyItems (depth : Nat) : List Json → List String
  | [] => []
  | item :: items => pretty depth item :: prettyItems depth items

def prettyFields (depth : Nat) : List (String × Json) → List String
  | [] => []
  | (key, value) :: fields =>
    (quote key ++ ": " ++ pretty depth value) :: prettyFields depth fields

end

end Json

end Chtl
