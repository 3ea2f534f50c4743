import Chtl.Script.Entry

/-!
# Reading scripts

A script is read from front to back. Each step takes one addition, or a word, a string, a comment or
a single character as it is. Handlers and callbacks are scripts again, each shorter than the text it
stands in. Declared variables with an initializer are noted along the way.
-/

set_option autoImplicit false
set_option linter.all false

namespace Chtl.Script

open Text

/-- Reading notes the declared variables, in order, with their initializers. -/
abbrev Reading := StateT (List (String × String)) (Except ScriptError)

/-- Reads a script that starts at an offset. -/
abbrev ItemReader := (offset : Nat) → List Char → Reading (List Item)

def orFail {α : Type} : Except ScriptError α → Reading α
  | .ok a => pure a
  | .error e => throw e

def malformed {α : Type} (construct : Construct) (fault : BlockFault) (span : Span) : Reading α :=
  throw (.malformedBlock construct fault span)

/-- What has been read: the items, newest first, and characters that follow them as they are, the
latest first. -/
structure Draft where
  items : List Item := []
  pending : List Char := []

namespace Draft

/-- Turns the pending characters into text. -/
def settle (d : Draft) : List Item :=
  if d.pending.isEmpty then d.items
  else
    let text := String.ofList d.pending.reverse
    match d.items with
    | .raw before :: rest => .raw (before ++ text) :: rest
    | items => .raw text :: items

def pass (d : Draft) (taken : List Char) : Draft :=
  { d with pending := taken.reverse ++ d.pending }

def add (d : Draft) (item : Item) : Draft := { items := item :: d.settle }

def isBlankText : Item → Bool
  | .raw text => text.toList.all isBlank
  | _ => false

/-- Takes back the selector that stands last, with the blanks behind it. -/
def takeTarget? (d : Draft) : Option (Selector × Draft) :=
  match d.settle.dropWhile isBlankText with
  | .selector s :: rest => some (s, { items := rest })
  | _ => none

end Draft

/-- Reads the handlers of entries. -/
def handlers (read : ItemReader) : List Entry → Reading (List Handler)
  | [] => pure []
  | e :: es => do
    let body ← read e.valueStart e.value
    let more ← handlers read es
    pure (⟨e.key, body, e.span⟩ :: more)

/-- Reads a block that listens to events of a target. -/
def listenBlock (read : ItemReader) (target : Selector) (offset : Nat) (body : List Char) :
    Reading Item := do
  let es ← orFail (entries .listen offset body)
  let hs ← handlers read es
  pure (.listen target hs)

/-- Reads a block that handles events of other elements at a parent. -/
def delegateBlock (read : ItemReader) (parent : Selector) (offset : Nat) (body : List Char) :
    Reading Item := do
  let es ← orFail (entries .delegate offset body)
  match es.find? (·.key == "target") with
  | none => malformed .delegate .missingTarget ⟨offset, offset + size body⟩
  | some e =>
    let targets ← orFail (selectorList .delegate e)
    if targets.isEmpty then malformed .delegate .emptyTarget e.span
    else
      let hs ← handlers read (es.eraseP (·.key == "target"))
      pure (.delegate parent targets hs)

/-- Takes one property of an animation. -/
def animationEntry (read : ItemReader) (a : Animation) (e : Entry) : Reading Animation := do
  let word := String.ofList (stripQuotes e.value)
  let invalid {α : Type} : Reading α :=
    malformed .animate (.invalidProperty e.key (String.ofList e.value)) e.span
  match e.key with
  | "target" => return { a with targets := ← orFail (selectorList .animate e) }
  | "duration" =>
    match (milliseconds? e.value).filter (0 < ·) with
    | some ms => return { a with duration := ms }
    | none => invalid
  | "delay" =>
    match milliseconds? e.value with
    | some ms => return { a with delay := ms }
    | none => invalid
  | "loop" =>
    match loops? e.value with
    | some n => return { a with loops := n }
    | none => invalid
  | "easing" =>
    match Easing.ofWord? word with
    | some easing => return { a with easing := easing }
    | none => invalid
  | "direction" =>
    match Direction.ofWord? word with
    | some direction => return { a with direction := direction }
    | none => invalid
  | "begin" => return { a with start := ← orFail (frame e) }
  | "end" => return { a with finish := ← orFail (frame e) }
  | "when" => return { a with steps := ← orFail (keyframes e) }
  | "callback" => return { a with callback := some (← read e.valueStart e.value) }
  | other => malformed .animate (.unknownProperty other) e.span

def animationEntries (read : ItemReader) : Animation → List Entry → Reading Animation
  | a, [] => pure a
  | a, e :: es => do
    let a ← animationEntry read a e
    animationEntries read a es

/-- Reads an animation that takes up `span`, its body starting at `offset`. -/
def animation (read : ItemReader) (span : Span) (offset : Nat) (body : List Char) :
    Reading Animation := do
  let es ← orFail (entries .animate offset body)
  let a ← animationEntries read { span := span } es
  if a.targets.isEmpty then malformed .animate .missingTarget span else pure a

/-- Reads `event, event: handler` and says how long it is. -/
def bindClause (read : ItemReader) (offset : Nat) (cs : List Char) :
    Reading (List Handler × Nat) := do
  let names := cs.takeWhile fun c => !(c == ':' || c == ';' || c == '{' || c == '\n')
  let headSpan : Span := ⟨offset, offset + size names⟩
  let rest := cs.drop names.length
  if rest.head? != some ':' then malformed .bind .clauseWithoutColon headSpan
  else
    let events := (splitOnChar (· == ',') names).map trim
    match events.find? fun name => !isPlainName name with
    | some bad => malformed .bind (.notAnEvent (String.ofList bad)) headSpan
    | none =>
      let after := rest.drop 1
      let n := clauseLength none 0 after
      let raw := after.take n
      let start := offset + size names + 1
      let span : Span := ⟨offset, start + size raw⟩
      if raw.all isBlank then malformed .bind .missingHandler span
      else
        let body ← read (start + size (raw.takeWhile isBlank)) (trim raw)
        pure (events.map fun name => ⟨String.ofList name, body, span⟩, names.length + 1 + n)

/-- Reads what one binding operator at the front binds, and says how long it is. -/
def bindTail (read : ItemReader) (offset : Nat) (cs : List Char) :
    Reading (List Handler × Nat) := do
  let lead := 3 + blankLength (cs.drop 3)
  let after := cs.drop lead
  let start := offset + size (cs.take lead)
  if after.head? = some '{' then
    match bracedLength? after with
    | none => throw (.unterminatedBlock .bind ⟨offset, offset + size cs⟩)
    | some n =>
      let es ← orFail (entries .bind (start + 1) ((after.drop 1).take (n - 2)))
      let hs ← handlers read es
      pure (hs, lead + n)
  else
    let (hs, n) ← bindClause read start after
    pure (hs, lead + n)

/-- Reads a binding statement from its operator on, clause by clause, and says how long it is. A
clause after a comma is for the same target, or names another one first. -/
def bindStatement (read : ItemReader) (target : Selector) (offset : Nat) (cs : List Char) :
    Reading (List Binding × Nat) :=
  match cs with
  | [] => pure ([], 0)
  | c :: rest => do
    let (hs, n) ← bindTail read offset (c :: rest)
    let binding : Binding := ⟨target, hs⟩
    let after := (c :: rest).drop n
    if after.head? != some ',' then pure ([binding], n)
    else
      let next := n + 1 + blankLength (after.drop 1)
      let ahead := (c :: rest).drop next
      let goOn (target : Selector) (m : Nat) : Reading (List Binding × Nat) := do
        let (more, k) ← bindStatement read target (offset + size ((c :: rest).take m))
          (rest.drop (m - 1))
        pure (binding :: more, m + k)
      if startsWith ahead ['&', '-', '>'] then goOn target next
      else if startsWith ahead ['{', '{'] then
        let start := offset + size ((c :: rest).take next)
        let (s, k) ← orFail (selectorAt start ahead)
        let operator := next + k + blankLength (ahead.drop k)
        if startsWith ((c :: rest).drop operator) ['&', '-', '>'] then goOn s operator
        else
          malformed .bind .chainWithoutOperator
            ⟨start, offset + size ((c :: rest).take operator)⟩
      else pure ([binding], n)
termination_by cs.length
decreasing_by simp only [List.length_cons, List.length_drop]; omega

/-- The kind of block that an arrow leads to, and where its brace stands behind the arrow. -/
def behavior? (cs : List Char) : Option (Construct × Nat) :=
  let lead := blankLength cs
  let rest := cs.drop lead
  let found : Option (Construct × Nat) :=
    if startsWith rest "Listen".toList then some (.listen, 6)
    else if startsWith rest "Delegate".toList then some (.delegate, 8)
    else none
  match found with
  | none => none
  | some (construct, n) =>
    let brace := lead + n + blankLength (rest.drop n)
    if (cs.drop brace).head? = some '{' then some (construct, brace) else none

/-- The name that a declaration declares, with the length up to its end. -/
def declaredName? (cs : List Char) : Option (List Char × Nat) :=
  let lead := blankLength cs
  match cs.drop lead with
  | c :: rest =>
    if lead = 0 || !isWordStart c then none
    else
      let name := c :: rest.takeWhile isWordChar
      some (name, lead + name.length)
  | [] => none

/-- The initializer behind a declared name. -/
def initializer? (cs : List Char) : Option (List Char) :=
  match cs.drop (blankLength cs) with
  | '=' :: rest =>
    if rest.head? = some '=' || rest.head? = some '>' then none
    else
      let value := trim (rest.take (initializerLength 0 rest))
      if value.isEmpty then none else some value
  | _ => none

/-- Notes a variable that is declared with an initializer. -/
def noteVariable (name after : List Char) : Reading Unit :=
  match initializer? after with
  | some value => modify (· ++ [(String.ofList name, String.ofList value)])
  | none => pure ()

/-- Takes an arrow and the block it may lead to. -/
def arrowStep (read : ItemReader) (d : Draft) (offset : Nat) (cs : List Char) :
    Reading (Draft × Nat) := do
  match behavior? (cs.drop 2) with
  | none => pure (d.add .arrow, 2)
  | some (construct, brace) =>
    let lead := 2 + brace
    match bracedLength? (cs.drop lead) with
    | none => throw (.unterminatedBlock construct ⟨offset, offset + size cs⟩)
    | some n =>
      let stop := offset + size (cs.take (lead + n))
      match d.takeTarget? with
      | none => malformed construct .targetNotSelector ⟨offset, stop⟩
      | some (target, before) =>
        let start := offset + size (cs.take (lead + 1))
        let body := (cs.drop (lead + 1)).take (n - 2)
        let item ← match construct with
          | .listen => listenBlock read target start body
          | _ => delegateBlock read target start body
        pure (before.add item, lead + n)

/-- Takes a binding statement whose operator stands at the front. -/
def bindStep (read : ItemReader) (d : Draft) (offset : Nat) (cs : List Char) :
    Reading (Draft × Nat) := do
  match d.takeTarget? with
  | none => malformed .bind .targetNotSelector ⟨offset, offset + 3⟩
  | some (target, before) =>
    let (bindings, n) ← bindStatement read target offset cs
    pure (before.add (.bind bindings), n)

/-- Takes a word: an animation, a declaration, or the word as it is. -/
def wordStep (read : ItemReader) (d : Draft) (offset : Nat) (cs : List Char) :
    Reading (Draft × Nat) := do
  let word := cs.takeWhile isWordChar
  let after := cs.drop word.length
  let text := String.ofList word
  let brace := word.length + blankLength after
  if text = "Animate" && (cs.drop brace).head? = some '{' then
    match bracedLength? (cs.drop brace) with
    | none => throw (.unterminatedBlock .animate ⟨offset, offset + size cs⟩)
    | some n =>
      let span : Span := ⟨offset, offset + size (cs.take (brace + n))⟩
      let a ← animation read span (offset + size (cs.take (brace + 1)))
        ((cs.drop (brace + 1)).take (n - 2))
      pure (d.add (.animate a), brace + n)
  else if text = "let" || text = "const" || text = "var" then
    match declaredName? after with
    | some (name, n) =>
      noteVariable name (after.drop n)
      pure (d.add (.declaration text (String.ofList name)), word.length + n)
    | none => pure (d.pass word, word.length)
  else pure (d.pass word, word.length)

/-- Takes what stands at the front of a nonempty text, and says how long it is. -/
def step (read : ItemReader) (d : Draft) (before : Option Char) (offset : Nat) (cs : List Char) :
    Reading (Draft × Nat) := do
  match literalLength? cs with
  | some n => pure (d.pass (cs.take n), n)
  | none =>
    if startsWith cs ['{', '{'] then
      let (s, n) ← orFail (selectorAt offset cs)
      pure (d.add (.selector s), n)
    else if startsWith cs ['&', '-', '>'] then bindStep read d offset cs
    else if startsWith cs ['-', '>'] then arrowStep read d offset cs
    else if cs.head?.any isWordStart && !(before.any isWordChar) then wordStep read d offset cs
    else pure (d.pass (cs.take 1), 1)

/-- Reads the items of a text from front to back. -/
def itemsFrom (read : ItemReader) (d : Draft) (before : Option Char) (offset : Nat)
    (cs : List Char) : Reading (List Item) :=
  match cs with
  | [] => pure d.settle.reverse
  | c :: rest => do
    let (d, n) ← step read d before offset (c :: rest)
    let taken := c :: rest.take (n - 1)
    itemsFrom read d taken.getLast? (offset + size taken) (rest.drop (n - 1))
termination_by cs.length
decreasing_by simp only [List.length_cons, List.length_drop]; omega

/-- Reads a script whose inner scripts nest at most `depth` deep. -/
def itemsWithin : (depth : Nat) → ItemReader
  | 0 => fun _ _ => pure []
  | depth + 1 => fun offset cs => itemsFrom (itemsWithin depth) {} none offset cs

/-- Reads a script that starts at the offset `base` of its source, with the variables it declares.
An inner script is shorter than the one around it, so the length bounds the depth. -/
def parse (text : List Char) (base : Nat) :
    Except ScriptError (List Item × List (String × String)) :=
  (itemsWithin (text.length + 1) base text).run []

end Chtl.Script
