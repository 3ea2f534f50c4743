import Chtl.Document.Basic
import Chtl.Text.Basic

/-!
# Attributes, classes and declarations of an element

An element has at most one attribute of a name and one declaration of a key: a later one takes the
place of the earlier.
-/

set_option autoImplicit false
set_option linter.all false

namespace Chtl

namespace Element

def attribute? (e : Element) (name : String) : Option Attribute :=
  e.attributes.find? (·.name == name)

/-- The value of a literal `id` attribute. -/
def id? (e : Element) : Option String :=
  (e.attribute? "id").bind (·.value.literal?)

/-- The words of a literal `class` attribute. -/
def classes (e : Element) : List String :=
  match (e.attribute? "class").bind (·.value.literal?) with
  | some value => (Text.words value.toList).map String.ofList
  | none => []

def hasClass (e : Element) (name : String) : Bool :=
  e.classes.contains name

/-- Changes the first item that satisfies `p`. -/
def updateFirst {α : Type} (p : α → Bool) (f : α → α) : List α → List α
  | [] => []
  | a :: as => if p a then f a :: as else a :: updateFirst p f as

/-- The class attribute with one more class. A responsive one stays as it is. -/
def appendClass (name : String) (a : Attribute) : Attribute :=
  match a.value with
  | .literal value =>
    { a with value := .literal (if value = "" then name else value ++ " " ++ name) }
  | .responsive _ _ => a

/-- Adds a class unless the element has it. -/
def addClass (e : Element) (name : String) : Element :=
  if e.hasClass name then e
  else if (e.attribute? "class").isSome then
    { e with attributes := updateFirst (·.name == "class") (appendClass name) e.attributes }
  else { e with attributes := e.attributes ++ [⟨"class", .literal name, e.span⟩] }

/-- Gives the element an id unless it has an `id` attribute. -/
def setIdIfAbsent (e : Element) (id : String) : Element :=
  if (e.attribute? "id").isSome then e
  else { e with attributes := e.attributes ++ [⟨"id", .literal id, e.span⟩] }

/-- Sets an attribute, in the place of one with the same name. -/
def setAttribute (e : Element) (a : Attribute) : Element :=
  if (e.attribute? a.name).isSome then
    { e with attributes := updateFirst (·.name == a.name) (fun _ => a) e.attributes }
  else { e with attributes := e.attributes ++ [a] }

/-- Sets a declaration, in the place of one with the same key. -/
def setDeclaration (e : Element) (d : StyleDeclaration) : Element :=
  if e.style.any (·.key == d.key) then
    { e with style := updateFirst (·.key == d.key) (fun _ => d) e.style }
  else { e with style := e.style ++ [d] }

def addChildren (e : Element) (nodes : List Node) : Element :=
  { e with children := e.children ++ nodes }

def addChain (e : Element) (chain : Chain) : Element :=
  { e with chains := e.chains ++ [chain] }

/-- The name after a mark at the front of a selector. -/
def markedName? (mark : Char) (selector : List Char) : Option String :=
  match selector with
  | c :: rest =>
    let name := rest.takeWhile Text.isNameChar
    if c = mark ∧ ¬ name.isEmpty then some (String.ofList name) else none
  | [] => none

/-- Adds a rule. A selector that begins with a class or an id gives it to the element. -/
def addRule (e : Element) (rule : StyleRule) : Element :=
  let named :=
    match markedName? '.' rule.selector.toList, markedName? '#' rule.selector.toList with
    | some name, _ => e.addClass name
    | none, some id => e.setIdIfAbsent id
    | none, none => e
  { named with rules := named.rules ++ [rule] }

/-- How messages name the element. -/
def describe (e : Element) : String :=
  match e.id? with
  | some id => "#" ++ id
  | none => e.tag

end Element

def Selector.accepts (s : Selector) (e : Element) : Bool :=
  match s with
  | .id name => e.id? == some name
  | .cls name => e.hasClass name
  | .tag name => e.tag == name

end Chtl
