import Chtl.Bridge.Basic
import Chtl.Script.Basic
import Chtl.Script.Literal

/-!
# Lowering scripts

The additions become plain code of the page. Only the own element of a script can be missing, when
the script stands in no element.
-/

set_option autoImplicit false
set_option linter.all false

namespace Chtl.Script

/-- What lowering knows: the recorded facts, and the id of the element around the script. -/
structure Surroundings where
  facts : Facts := {}
  ownId : Option String := none

namespace Surroundings

def own (s : Surroundings) (span : Span) : Except ScriptError String :=
  match s.ownId with
  | some id => .ok id
  | none => .error (.missingContext span)

/-- A selector of the page for a target. A bare name matches as id, class or tag. -/
def css (s : Surroundings) (span : Span) : Target → Except ScriptError String
  | .own => (s.own span).map ("#" ++ ·)
  | .id name => .ok ("#" ++ name)
  | .cls name => .ok ("." ++ name)
  | .tag name => .ok name
  | .auto name => .ok ("#" ++ name ++ ", ." ++ name ++ ", " ++ name)
  | .query selector => .ok selector
  | .indexed base _ => s.css span base

def byId (id : String) : String := "document.getElementById(" ++ singleQuoted id ++ ")"

def bySelector (selector : String) : String :=
  "document.querySelector(" ++ singleQuoted selector ++ ")"

/-- The code that looks a selector up. -/
def lookup (s : Surroundings) (sel : Selector) : Except ScriptError String :=
  match sel.target with
  | .own => (s.own sel.span).map byId
  | .id name => .ok (byId name)
  | .auto name =>
    .ok ("(" ++ byId name ++ " || " ++ bySelector ("." ++ name) ++ " || " ++ bySelector name ++ ")")
  | .indexed base index => do
    let selector ← s.css sel.span base
    .ok ("document.querySelectorAll(" ++ singleQuoted selector ++ ")[" ++ toString index ++ "]")
  | target => (s.css sel.span target).map bySelector

/-- The lookups of several selectors, with commas between them. -/
def lookups (s : Surroundings) (sels : List Selector) : Except ScriptError String := do
  let all ← sels.mapM s.lookup
  .ok (String.intercalate ", " all)

/-- One selector of the page for several. -/
def cssList (s : Surroundings) (sels : List Selector) : Except ScriptError String := do
  let all ← sels.mapM fun sel => s.css sel.span sel.target
  .ok (String.intercalate ", " all)

/-- A declaration. A responsive variable is a property of the window and loses its keyword. -/
def declaration (s : Surroundings) (keyword name : String) : String :=
  if s.facts.isResponsive name then name else keyword ++ " " ++ name

end Surroundings

def Easing.code : Easing → String
  | linear => "(t) => t"
  | ease => "(t) => t * t * (3 - 2 * t)"
  | easeIn => "(t) => t * t"
  | easeOut => "(t) => t * (2 - t)"
  | easeInOut => "(t) => (t < 0.5 ? 2 * t * t : 1 - Math.pow(-2 * t + 2, 2) / 2)"

def Direction.progress : Direction → String
  | normal => "elapsed"
  | reverse => "1 - elapsed"
  | alternate => "cycle % 2 === 1 ? 1 - elapsed : elapsed"

/-- A style frame as an object. -/
def frameCode (f : Frame) : String :=
  if f.isEmpty then "\x7b\x7d"
  else
    "\x7b " ++
      String.intercalate ", " (f.map fun (k, v) => singleQuoted k ++ ": " ++ styleLiteral v) ++
      " \x7d"

def listenCall (target event handler : String) : String :=
  target ++ ".addEventListener(" ++ singleQuoted event ++ ", " ++ handler ++ ")"

/-- A block that listens: `handlers` are pairs of an event and code. -/
def listenCode (target : String) (handlers : List (String × String)) : String :=
  "\x7b\n  const __chtl_target = " ++ target ++ ";\n" ++
    String.join (handlers.map fun (event, code) =>
      "  " ++ listenCall "__chtl_target" event code ++ ";\n") ++
    "\x7d"

/-- A block that handles events of the elements that `selector` matches at their parent. -/
def delegateCode (parent selector : String) (handlers : List (String × String)) : String :=
  "\x7b\n  const __chtl_parent = " ++ parent ++ ";\n" ++
    String.join (handlers.map fun (event, code) =>
      "  __chtl_parent.addEventListener(" ++ singleQuoted event ++ ", function (event) \x7b\n" ++
      "    const match = event.target.closest(" ++ singleQuoted selector ++ ");\n" ++
      "    if (match && __chtl_parent.contains(match)) (" ++ code ++ ").call(match, event);\n" ++
      "  \x7d);\n") ++
    "\x7d"

/-- An expression that runs an animation frame by frame and can be cancelled. -/
def animationCode (targets : String) (callback : Option String) (duration delay : Nat) (loops : Int)
    (easing : Easing) (direction : Direction) (start : Frame) (steps : List Keyframe)
    (finish : Frame) : String :=
  "(() => \x7b\n" ++
  "  const targets = [" ++ targets ++ "].filter(Boolean);\n" ++
  "  const apply = (frame) => targets.forEach((el) => \x7b\n" ++
  "    for (const [name, value] of Object.entries(frame)) " ++
    "el.style.setProperty(name, String(value));\n" ++
  "  \x7d);\n" ++
  "  const ease = " ++ easing.code ++ ";\n" ++
  "  const duration = " ++ toString duration ++ ";\n" ++
  "  const loops = " ++ toString loops ++ ";\n" ++
  "  let start = null;\n  let cycle = 0;\n  let frame = 0;\n" ++
  "  const step = (now) => \x7b\n" ++
  "    if (start === null) \x7b\n" ++
  "      start = now;\n" ++
  (if start.isEmpty then "" else "      apply(" ++ frameCode start ++ ");\n") ++
  "    \x7d\n" ++
  "    const elapsed = Math.min((now - start) / duration, 1);\n" ++
  "    const progress = ease(" ++ direction.progress ++ ");\n" ++
  String.join (steps.map fun k =>
    "    if (progress >= " ++ k.at_ ++ ") apply(" ++ frameCode k.properties ++ ");\n") ++
  "    if (elapsed < 1) \x7b\n" ++
  "      frame = requestAnimationFrame(step);\n" ++
  "      return;\n" ++
  "    \x7d\n" ++
  (if finish.isEmpty then "" else "    apply(" ++ frameCode finish ++ ");\n") ++
  "    cycle += 1;\n" ++
  "    if (loops === -1 || cycle < loops) \x7b\n" ++
  "      start = now;\n" ++
  "      frame = requestAnimationFrame(step);\n" ++
  "    \x7d" ++
  (match callback with
    | some code => " else \x7b\n      (" ++ code ++ ")();\n    \x7d"
    | none => "") ++
  "\n  \x7d;\n" ++
  (if 0 < delay then
    "  setTimeout(() => \x7b frame = requestAnimationFrame(step); \x7d, " ++ toString delay ++
      ");\n"
  else "  frame = requestAnimationFrame(step);\n") ++
  "  return \x7b cancel: () => cancelAnimationFrame(frame) \x7d;\n\x7d)()"

mutual

/-- The code of one item. -/
def Item.lower (s : Surroundings) : Item → Except ScriptError String
  | .raw text => .ok text
  | .selector sel => s.lookup sel
  | .arrow => .ok "."
  | .declaration keyword name => .ok (s.declaration keyword name)
  | .listen target handlers => do
    let target ← s.lookup target
    let handlers ← lowerHandlers s handlers
    .ok (listenCode target handlers)
  | .delegate parent targets handlers => do
    let selector ← s.cssList targets
    let parent ← s.lookup parent
    let handlers ← lowerHandlers s handlers
    .ok (delegateCode parent selector handlers)
  | .bind bindings => do
    let calls ← lowerBindings s bindings
    .ok (String.intercalate ";\n" calls)
  | .animate a => a.lower s

/-- The code of items, one after the other. -/
def lowerItems (s : Surroundings) : List Item → Except ScriptError String
  | [] => .ok ""
  | item :: items => do
    let code ← item.lower s
    let more ← lowerItems s items
    .ok (code ++ more)

def Handler.lower (s : Surroundings) : Handler → Except ScriptError (String × String)
  | ⟨event, body, _⟩ => do
    let code ← lowerItems s body
    .ok (event, code)

def lowerHandlers (s : Surroundings) : List Handler → Except ScriptError (List (String × String))
  | [] => .ok []
  | h :: hs => do
    let pair ← h.lower s
    let more ← lowerHandlers s hs
    .ok (pair :: more)

/-- The calls of one clause, an event each. -/
def Binding.lower (s : Surroundings) : Binding → Except ScriptError (List String)
  | ⟨target, handlers⟩ => do
    let target ← s.lookup target
    let handlers ← lowerHandlers s handlers
    .ok (handlers.map fun (event, code) => listenCall target event code)

def lowerBindings (s : Surroundings) : List Binding → Except ScriptError (List String)
  | [] => .ok []
  | b :: bs => do
    let calls ← b.lower s
    let more ← lowerBindings s bs
    .ok (calls ++ more)

def Animation.lower (s : Surroundings) : Animation → Except ScriptError String
  | ⟨targets, duration, delay, loops, easing, direction, start, steps, finish, callback, _⟩ => do
    let targets ← s.lookups targets
    let callback ← lowerCallback s callback
    .ok (animationCode targets callback duration delay loops easing direction start steps finish)

def lowerCallback (s : Surroundings) : Option (List Item) → Except ScriptError (Option String)
  | none => .ok none
  | some items => do
    let code ← lowerItems s items
    .ok (some code)

end

/-- The code of a script whose placeholder tells which element it stands in. -/
def lower (items : List Item) (facts : Facts) (placeholder : Option String) :
    Except ScriptError String :=
  lowerItems { facts := facts, ownId := placeholder.bind facts.context? } items

end Chtl.Script
