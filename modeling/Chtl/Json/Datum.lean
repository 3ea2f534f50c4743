import Chtl.Json.Token

/-!
# Reading json text

A text holds one value and nothing else but gaps. Arrays and objects may nest to any depth; a comma
only stands between two members.
-/

set_option autoImplicit false
set_option linter.all false

namespace Chtl.Json

/-- A value as it is written. Numbers are known to be well formed only. -/
inductive Datum where
  | null
  | bool (value : Bool)
  | number
  | string (units : List StringUnit)
  | array (items : List Datum)
  | object (fields : List (List StringUnit × Datum))

namespace Datum

/-- What is left after reading from `ts` is shorter. -/
abbrev Rest (ts : List Token) := { rest : List Token // rest.length < ts.length }

/-- What is left, with one more token read before. -/
def Rest.behind {ts : List Token} (t : Token) (r : Rest ts) : Rest (t :: ts) :=
  ⟨r.1, by have := r.2; simp only [List.length_cons]; omega⟩

/-- What is left is a list of tokens with one more read at its front. -/
def Rest.after {ts more : List Token} {t : Token} (h : (t :: more).length < ts.length)
    (r : Rest more) : Rest ts :=
  ⟨r.1, by have := r.2; simp only [List.length_cons] at h; omega⟩

mutual

/-- The value at the front. -/
def valueAhead? (ts : List Token) : Option (Datum × Rest ts) :=
  match ts with
  | .null :: rest => some (.null, ⟨rest, by simp⟩)
  | .bool value :: rest => some (.bool value, ⟨rest, by simp⟩)
  | .number :: rest => some (.number, ⟨rest, by simp⟩)
  | .string units :: rest => some (.string units, ⟨rest, by simp⟩)
  | .leftBracket :: .rightBracket :: rest =>
    some (.array [], Rest.behind .leftBracket ⟨rest, by simp⟩)
  | .leftBracket :: more =>
    (itemsAhead? more).map fun (items, rest) => (.array items, rest.behind .leftBracket)
  | .leftBrace :: .rightBrace :: rest =>
    some (.object [], Rest.behind .leftBrace ⟨rest, by simp⟩)
  | .leftBrace :: more =>
    (fieldsAhead? more).map fun (fields, rest) => (.object fields, rest.behind .leftBrace)
  | _ => none
termination_by (ts.length, 0)

/-- The items of an array, of which at least one is left, and its closing bracket. -/
def itemsAhead? (ts : List Token) : Option (List Datum × Rest ts) :=
  match valueAhead? ts with
  | some (item, ⟨.rightBracket :: rest, h⟩) =>
    some ([item], ⟨rest, by simp only [List.length_cons] at h; omega⟩)
  | some (item, ⟨.comma :: more, h⟩) =>
    (itemsAhead? more).map fun (items, rest) => (item :: items, rest.after h)
  | _ => none
termination_by (ts.length, 1)
decreasing_by
  · decreasing_tactic
  · simp only [List.length_cons] at h; decreasing_tactic

/-- The fields of an object, of which at least one is left, and its closing brace. -/
def fieldsAhead? (ts : List Token) : Option (List (List StringUnit × Datum) × Rest ts) :=
  match ts with
  | .string key :: .colon :: front =>
    match valueAhead? front with
    | some (value, ⟨.rightBrace :: rest, h⟩) =>
      some ([(key, value)], ⟨rest, by simp only [List.length_cons] at h ⊢; omega⟩)
    | some (value, ⟨.comma :: more, h⟩) =>
      (fieldsAhead? more).map fun (fields, rest) =>
        ((key, value) :: fields, ((rest.after h).behind .colon).behind (.string key))
    | _ => none
  | _ => none
termination_by (ts.length, 1)
decreasing_by
  · decreasing_tactic
  · simp_wf; simp only [List.length_cons] at h; omega

end

/-- The value that a text holds. -/
def ofText? (cs : List Char) : Option Datum :=
  (tokens? cs).bind fun ts =>
    match valueAhead? ts with
    | some (value, ⟨[], _⟩) => some value
    | _ => none

def bool? : Datum → Option Bool
  | bool value => some value
  | _ => none

/-- The text of a string whose codes all make characters. -/
def string? : Datum → Option String
  | string units => (characters? units).map String.ofList
  | _ => none

end Datum

end Chtl.Json
