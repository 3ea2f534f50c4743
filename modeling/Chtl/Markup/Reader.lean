import Chtl.Markup.Cursor
import Chtl.Markup.Error

/-!
# Reading markup step by step

A reader goes through a text with a cursor. Along with it go the templates defined so far, the next
free node id and the style blocks that became part of an element. Its setting says which unit is
read and what surrounds the text.
-/

set_option autoImplicit false
set_option linter.all false

namespace Chtl.Markup

open Text

structure Setting where
  scanned : Scanned
  origin : Origin
  inConditional : Bool := false
  inTemplate : Bool := false

structure Progress where
  cursor : Cursor
  templates : Templates := {}
  nextId : Nat := 0
  consumed : List Placeholder := []

abbrev Reader := ReaderT Setting (StateT Progress (Except MarkupError))

namespace Reader

def fail {α : Type} (e : MarkupError) : Reader α := throw e

def cursor : Reader Cursor := return (← get).cursor

def setCursor (c : Cursor) : Reader Unit := modify fun p => { p with cursor := c }

def offset : Reader Nat := return (← cursor).offset

def rest : Reader (List Char) := return (← cursor).rest

def peek? : Reader (Option Char) := return (← cursor).peek?

def atEnd : Reader Bool := return (← cursor).atEnd

def skip (n : Nat) : Reader Unit := do setCursor ((← cursor).advance n)

def skipTrivia : Reader Unit := do skip (triviaLength (← rest))

def looksAt (lead : List Char) : Reader Bool := return startsWith (← rest) lead

/-- The source span of a stretch of the text. -/
def spanOf (start stop : Nat) : Reader Span := return (← read).origin.span start stop

/-- The source span from an offset to the cursor. -/
def spanFrom (start : Nat) : Reader Span := do spanOf start (← offset)

/-- Fails because something else should stand at the cursor. -/
def unexpected {α : Type} (expected : Expectation) : Reader α := do
  let here ← offset
  let left ← rest
  if left.isEmpty then fail (.unexpectedEnd expected (← spanOf here here))
  else
    let found := foundText left
    fail (.unexpectedToken expected (String.ofList found) (← spanOf here (here + size found)))

/-- Takes a character if it stands at the cursor. -/
def eat (c : Char) : Reader Bool := do
  if (← peek?) = some c then
    skip 1
    return true
  else return false

def expect (c : Char) (expected : Expectation) : Reader Unit := do
  if ← eat c then return () else unexpected expected

/-- Takes the name at the cursor, if there is one. -/
def takeName? : Reader (Option String) := do
  match name? (← rest) with
  | some name =>
    skip name.length
    return some (String.ofList name)
  | none => return none

/-- Takes a name, which has to be there. -/
def takeName (expected : Expectation) : Reader String := do
  match ← takeName? with
  | some name => return name
  | none => unexpected expected

/-- Takes the name at the cursor if it is `word`. -/
def keyword (word : String) : Reader Bool := do
  match name? (← rest) with
  | some name =>
    if String.ofList name = word then
      skip name.length
      return true
    else return false
  | none => return false

/-- Takes the text before the first of the stops, with the offset where it starts. -/
def takeRaw (stops : List Char) : Reader (List Char × Nat) := do
  let c ← cursor
  let n := rawLength stops c.before 0 c.rest
  skip n
  return (c.rest.take n, c.offset)

/-- Takes a body whose opening brace is behind the cursor, with the brace that closes it. -/
def takeBalanced : Reader (List Char) := do
  let left ← rest
  match balancedLength? 0 left with
  | some n =>
    skip (n + 1)
    return left.take n
  | none =>
    skip left.length
    unexpected .closeBrace

/-- Takes the next free node id. -/
def freshId : Reader Nat := do
  let id := (← get).nextId
  modify fun p => { p with nextId := id + 1 }
  return id

/-- The block whose placeholder is `name`. -/
def block? (name : String) : Reader (Option (Fragment × Placeholder)) := do
  match (← read).scanned.fragment? name with
  | some f => return f.placeholder.map fun p => (f, p)
  | none => return none

/-- Marks a style block as part of an element. -/
def consume (p : Placeholder) : Reader Unit :=
  modify fun s => { s with consumed := insertAscending s.consumed }
where
  insertAscending : List Placeholder → List Placeholder
    | [] => [p]
    | q :: qs =>
      if p = q then q :: qs
      else if p.token < q.token then p :: q :: qs
      else q :: insertAscending qs

theorem mem_insertAscending {p q : Placeholder} {qs : List Placeholder} :
    q ∈ consume.insertAscending p qs ↔ q = p ∨ q ∈ qs := by
  induction qs with
  | nil => simp [consume.insertAscending]
  | cons r rs ih =>
    unfold consume.insertAscending
    split
    · rename_i heq
      simp [heq]
    · split
      · simp
      · simp only [List.mem_cons, ih]
        exact or_left_comm

/-- Reads another text in place of the current one, and comes back. -/
def within {α : Type} (origin : Origin) (text : List Char) (reader : Reader α) : Reader α := do
  let outer ← cursor
  setCursor ⟨none, 0, text⟩
  let a ← withReader (fun s => { s with origin := origin }) reader
  setCursor outer
  return a

end Reader

/-- A text without the blanks around it, and the offset where it then starts. -/
def trimAt (raw : List Char) (start : Nat) : List Char × Nat :=
  (trim raw, start + size (raw.takeWhile isBlank))

end Chtl.Markup
