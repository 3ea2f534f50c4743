import Chtl.Document.Renumber
import Chtl.Markup.Style

/-!
# Reading a document

The markup of a unit is a sequence of elements, texts, comments, blocks, and definitions and uses of
templates. A style block directly in an element becomes part of that element; every other block
stays in the document as a placeholder.
-/

set_option autoImplicit false
set_option linter.all false

namespace Chtl.Markup

open Text Reader

/-- Reads a comment that the page keeps, up to the end of its line. -/
def comment : Reader Node := do
  let start ← offset
  skip 2
  let line := (← rest).takeWhile (· != '\n')
  skip line.length
  return .comment (String.ofList (trim line)) (← spanFrom start)

/-- Reads the body of a text whose keyword stands at `start`. -/
def textBlock (start : Nat) : Reader Node := do
  expect '{' .openBrace
  let (raw, _) ← takeRaw ['}']
  expect '}' .closeBrace
  return .text (String.ofList (unquote (trim raw))) (← spanFrom start)

/-- Reads `@Element Name;` and gives a fresh copy of the template's nodes. -/
def elementUse : Reader (List Node) := do
  let start ← offset
  expect '@' .elementUse
  if !(← keyword "Element") then unexpected .elementUse
  skipTrivia
  let name ← takeName .templateName
  skipTrivia
  let _ ← eat ';'
  match (← get).templates.element? name with
  | none => fail (.unknownTemplate .element name (← spanFrom start))
  | some nodes =>
    let (nodes, next) := renumberNodes (← get).nextId nodes
    modify fun p => { p with nextId := next }
    return nodes

/-- Puts a block into an element: a style block is read into it, a script stays as a placeholder. -/
def addBlock (e : Element) (f : Fragment) (p : Placeholder) (span : Span) : Reader Element := do
  let setting ← read
  if setting.inConditional then fail (.misplacedBlock f.kind .conditional span)
  else if f.kind = .style then
    let e ← within (.source f.bodyRange.start) f.text.toList (styleBody e true false)
    consume p
    return e
  else if f.kind = .script && setting.inTemplate then fail (.misplacedBlock f.kind .template span)
  else return e.addChildren [.placeholder p f.kind span]

/-- Reads the value of an attribute after its colon or equals sign. The attribute `text` is a text
among the children. -/
def addAttribute (e : Element) (name : String) (start : Nat) : Reader Element := do
  let (raw, rawStart) ← takeRaw [';', '}']
  let _ ← eat ';'
  let (text, textStart) := trimAt raw rawStart
  let span ← spanFrom start
  let text ← expandedValue text (← spanOf textStart (textStart + size text))
  let literal := String.ofList (unquote text)
  if name = "text" then return e.addChildren [.text literal span]
  else
    match responsive? text with
    | some (source, unit) => return e.setAttribute ⟨name, .responsive source unit, span⟩
    | none => return e.setAttribute ⟨name, .literal literal, span⟩

/-- Reads the condition of a branch, unless the branch is an `else` or has one already. -/
def branchCondition (b : Branch) (conditional : Bool) (raw : List Char) (rawStart start : Nat) :
    Reader Branch := do
  let span ← spanFrom start
  if !conditional then fail (.malformedCondition .onElse span)
  else if b.condition.isSome then fail (.malformedCondition .repeated span)
  else
    let (text, textStart) := trimAt raw rawStart
    match Expr.parse text ((← read).origin.toSource textStart) with
    | .ok e => return { b with condition := some ⟨e, String.ofList text⟩ }
    | .error e => fail (.malformedCondition (.malformed e.fault) e.span)

/-- Reads the value of a named item of a branch after its colon. -/
def branchProperty (b : Branch) (conditional : Bool) (name : String) (start : Nat) :
    Reader Branch := do
  let (raw, rawStart) ← takeRaw [',', ';', '}']
  if !(← eat ',') then
    let _ ← eat ';'
  if name = "condition" then branchCondition b conditional raw rawStart start
  else
    let d ← declaration name.toList raw rawStart start true
    return { b with body := b.body ++ [d] }

mutual

/-- Reads an element whose tag stands at `start` and is behind the cursor. -/
def element : (limit : Nat) → (tag : String) → (start : Nat) → Reader Element
  | 0, _, _ => unexpected .closeBrace
  | limit + 1, tag, start => do
    let id ← freshId
    expect '{' .openBrace
    let opened : Element := ⟨id, tag, [], [], [], [], [], ← spanFrom start⟩
    let e ← elementItems limit opened
    return { e with span := ← spanFrom start }

/-- Reads the items of an element up to its closing brace. -/
def elementItems : (limit : Nat) → Element → Reader Element
  | 0, _ => unexpected .closeBrace
  | limit + 1, e => do
    skipTrivia
    if ← eat '}' then return e
    else if ← atEnd then unexpected .closeBrace
    else
      let start ← offset
      if ← looksAt ['-', '-'] then elementItems limit (e.addChildren [← comment])
      else if (← peek?) = some '@' then elementItems limit (e.addChildren (← elementUse))
      else
        let name ← takeName .bodyItem
        match ← block? name with
        | some (f, p) => elementItems limit (← addBlock e f p (← spanFrom start))
        | none =>
          skipTrivia
          let next ← peek?
          if next = some ':' || next = some '=' then
            skip 1
            elementItems limit (← addAttribute e name start)
          else if next = some '{' then
            if name = "text" then elementItems limit (e.addChildren [← textBlock start])
            else if name = "if" then
              let first ← branch limit true start
              let more ← laterBranches limit
              elementItems limit (e.addChain ⟨first :: more, e.children.length⟩)
            else if name = "else" then
              fail (.unexpectedToken .element "else without if" (← spanFrom start))
            else elementItems limit (e.addChildren [.element (← element limit name start)])
          else unexpected .colonOrBrace

/-- Reads the branches of a chain after its first one. -/
def laterBranches : (limit : Nat) → Reader (List Branch)
  | 0 => return []
  | limit + 1 => do
    let before ← cursor
    skipTrivia
    let start ← offset
    if ← keyword "else" then
      skipTrivia
      if ← keyword "if" then
        skipTrivia
        let b ← branch limit true start
        return b :: (← laterBranches limit)
      else return [← branch limit false start]
    else
      setCursor before
      return []

/-- Reads one branch of a chain from its opening brace on. -/
def branch : (limit : Nat) → (conditional : Bool) → (start : Nat) → Reader Branch
  | 0, _, _ => unexpected .closeBrace
  | limit + 1, conditional, start => do
    expect '{' .openBrace
    let b ← withReader (fun s => { s with inConditional := true })
      (branchItems limit conditional ⟨none, [], [], .point 0⟩)
    let span ← spanFrom start
    if conditional && b.condition.isNone then fail (.malformedCondition .missing span)
    else return { b with span := span }

/-- Reads the items of a branch up to its closing brace. -/
def branchItems : (limit : Nat) → (conditional : Bool) → Branch → Reader Branch
  | 0, _, _ => unexpected .closeBrace
  | limit + 1, conditional, b => do
    let add (nodes : List Node) : Branch := { b with children := b.children ++ nodes }
    skipTrivia
    if ← eat '}' then return b
    else if ← atEnd then unexpected .closeBrace
    else
      let start ← offset
      if ← looksAt ['-', '-'] then branchItems limit conditional (add [← comment])
      else if (← peek?) = some '@' then branchItems limit conditional (add (← elementUse))
      else
        let name ← takeName .branchItem
        match ← block? name with
        | some (f, _) => fail (.misplacedBlock f.kind .conditional (← spanFrom start))
        | none =>
          skipTrivia
          let next ← peek?
          if next = some ':' then
            skip 1
            branchItems limit conditional (← branchProperty b conditional name start)
          else if next = some '{' then
            if name = "text" then branchItems limit conditional (add [← textBlock start])
            else if name = "if" || name = "else" then
              fail (.unexpectedToken .element ("nested '" ++ name ++ "'") (← spanFrom start))
            else branchItems limit conditional (add [.element (← element limit name start)])
          else unexpected .colonOrBrace

end

/-- Reads the values of a group of variables, at most `limit` of them. -/
def variableItems : (limit : Nat) → List (String × String) → Reader (List (String × String))
  | 0, values => return values
  | limit + 1, values => do
    skipTrivia
    if ← eat '}' then return values
    else
      let key ← takeName .variableName
      skipTrivia
      expect ':' .colon
      let (raw, _) ← takeRaw [';', '}']
      let _ ← eat ';'
      variableItems limit (values ++ [(key, String.ofList (unquote (trim raw)))])

/-- Reads the body of a template whose definition starts at `start`. An element template holds
nothing but nodes. -/
def templateBody (kind : TemplateKind) (start : Nat) : Reader Template := do
  let holder : Element := ⟨0, "", [], [], [], [], [], ← spanFrom start⟩
  let limit := (← rest).length + 1
  match kind with
  | .style => return .style (← styleBody holder false true).style
  | .element =>
    let filled ← elementItems limit holder
    match filled.attributes with
    | a :: _ => fail (.unexpectedToken .templateNode a.name a.span)
    | [] =>
      if filled.style.isEmpty && filled.chains.isEmpty then return .element filled.children
      else fail (.unexpectedToken .templateNode "style or conditional" (← spanFrom start))
  | .group => return .group (← variableItems limit [])

/-- Reads the word for a kind of template. -/
def templateKind : Reader TemplateKind := do
  match ← takeName? with
  | some "Style" => return .style
  | some "Element" => return .element
  | some "Var" => return .group
  | _ => unexpected .templateKind

/-- Reads a definition such as `[Template] @Style Name {…}`. -/
def templateDefinition : Reader Unit := do
  let start ← offset
  expect '[' .openBracket
  match ← takeName? with
  | some "Template" | some "Custom" => pure ()
  | _ => unexpected .templateWord
  expect ']' .closeBracket
  skipTrivia
  expect '@' .templateKind
  let kind ← templateKind
  skipTrivia
  let name ← takeName .templateName
  skipTrivia
  expect '{' .openBrace
  let template ← withReader (fun s => { s with inTemplate := true }) (templateBody kind start)
  modify fun p => { p with templates := p.templates.define name template }

/-- Reads one item at the root of a document. -/
def rootItem (limit : Nat) : Reader (List Node) := do
  let start ← offset
  if ← looksAt ['-', '-'] then return [← comment]
  else if (← peek?) = some '[' then
    templateDefinition
    return []
  else if (← peek?) = some '@' then elementUse
  else
    let name ← takeName .node
    match ← block? name with
    | some (f, p) => return [.placeholder p f.kind (← spanFrom start)]
    | none =>
      skipTrivia
      if (← peek?) = some '{' then
        if name = "text" then return [← textBlock start]
        else return [.element (← element limit name start)]
      else unexpected .openBrace

/-- Reads the items at the root, at most `limit` of them. -/
def rootItems : (limit : Nat) → List Node → Reader (List Node)
  | 0, nodes => return nodes
  | limit + 1, nodes => do
    skipTrivia
    if ← atEnd then return nodes
    else rootItems limit (nodes ++ (← rootItem limit))

end Chtl.Markup

namespace Chtl

/-- Reads the markup of a scanned unit. Every step takes a character, so the length of the markup
bounds the number of items and their depth. -/
def Document.ofScanned (scanned : Scanned) : Except MarkupError Document :=
  let text := scanned.markup
  let setting : Markup.Setting := { scanned := scanned, origin := .markup scanned }
  let progress : Markup.Progress := { cursor := { rest := text } }
  match (Markup.rootItems (2 * text.length + 2) []).run setting |>.run progress with
  | .ok (nodes, progress) => .ok ⟨nodes, progress.consumed⟩
  | .error e => .error e

end Chtl
