import Chtl.Source.Span

/-!
# Scripts

A script is code of the page with a few additions: selectors in double braces, arrows for members,
blocks that listen and delegate, statements that bind events, and animations. What is none of these
stays as it is.
-/

set_option autoImplicit false
set_option linter.all false

namespace Chtl.Script

/-- What a selector in double braces names. -/
inductive Target where
  /-- The element around the script. -/
  | own
  | id (name : String)
  | cls (name : String)
  | tag (name : String)
  /-- A bare name that is no tag: an id, a class or a tag, whichever the page has. -/
  | auto (name : String)
  | query (selector : String)
  | indexed (base : Target) (index : Nat)
  deriving DecidableEq, Repr

structure Selector where
  target : Target
  span : Span
  deriving DecidableEq, Repr

inductive Easing where
  | linear
  | ease
  | easeIn
  | easeOut
  | easeInOut
  deriving DecidableEq, Repr

def Easing.word : Easing → String
  | linear => "linear"
  | ease => "ease"
  | easeIn => "ease-in"
  | easeOut => "ease-out"
  | easeInOut => "ease-in-out"

def Easing.ofWord? (word : String) : Option Easing :=
  [linear, ease, easeIn, easeOut, easeInOut].find? (·.word == word)

inductive Direction where
  | normal
  | reverse
  | alternate
  deriving DecidableEq, Repr

def Direction.word : Direction → String
  | normal => "normal"
  | reverse => "reverse"
  | alternate => "alternate"

def Direction.ofWord? (word : String) : Option Direction :=
  [normal, reverse, alternate].find? (·.word == word)

/-- Style properties with the code of their values. -/
abbrev Frame := List (String × String)

structure Keyframe where
  /-- The progress at which the frame applies, as it was written. -/
  at_ : String
  properties : Frame
  deriving DecidableEq, Repr

mutual

inductive Item where
  | raw (text : String)
  | selector (s : Selector)
  | arrow
  | listen (target : Selector) (handlers : List Handler)
  | delegate (parent : Selector) (targets : List Selector) (handlers : List Handler)
  /-- A whole binding statement, which may go on over several targets. -/
  | bind (bindings : List Binding)
  | animate (a : Animation)
  | declaration (keyword name : String)

structure Handler where
  event : String
  body : List Item
  span : Span

structure Binding where
  target : Selector
  handlers : List Handler

structure Animation where
  targets : List Selector := []
  duration : Nat := 1000
  delay : Nat := 0
  /-- How often it runs; minus one is forever. -/
  loops : Int := 1
  easing : Easing := .linear
  direction : Direction := .normal
  start : Frame := []
  steps : List Keyframe := []
  finish : Frame := []
  callback : Option (List Item) := none
  span : Span

end

/-- The additions that can be malformed. -/
inductive Construct where
  | listen
  | delegate
  | bind
  | animate
  deriving DecidableEq, Repr

def Construct.word : Construct → String
  | listen => "Listen"
  | delegate => "Delegate"
  | bind => "&->"
  | animate => "Animate"

inductive BlockFault where
  | targetNotSelector
  | entryWithoutColon (found : String)
  | listedNotSelector (found : String)
  | missingTarget
  | emptyTarget
  | chainWithoutOperator
  | clauseWithoutColon
  | notAnEvent (found : String)
  | missingHandler
  | invalidProperty (key value : String)
  | unknownProperty (key : String)
  | notAFrame (found : String)
  | notKeyframes
  | badProgress
  deriving DecidableEq, Repr

def BlockFault.message : BlockFault → String
  | targetNotSelector => "the target must be an enhanced selector"
  | entryWithoutColon found => "expected `event: handler`, found `" ++ found ++ "`"
  | listedNotSelector found => "target `" ++ found ++ "` is not an enhanced selector"
  | missingTarget => "missing `target`"
  | emptyTarget => "`target` is empty"
  | chainWithoutOperator => "expected `&->` after a chained target"
  | clauseWithoutColon => "expected `event: handler`"
  | notAnEvent found => "`" ++ found ++ "` is not an event name"
  | missingHandler => "missing handler"
  | invalidProperty key value => "invalid `" ++ key ++ "`: `" ++ value ++ "`"
  | unknownProperty key => "unknown property `" ++ key ++ "`"
  | notAFrame found => "expected `\x7b property: value \x7d`, found `" ++ found ++ "`"
  | notKeyframes => "`when` takes a list of keyframes"
  | badProgress => "each keyframe needs `at` between 0 and 1"

end Chtl.Script

namespace Chtl

inductive ScriptError where
  | unterminatedSelector (span : Span)
  | emptySelector (span : Span)
  | malformedBlock (construct : Script.Construct) (fault : Script.BlockFault) (span : Span)
  | unterminatedBlock (construct : Script.Construct) (span : Span)
  | missingContext (span : Span)
  deriving DecidableEq, Repr

namespace ScriptError

def span : ScriptError → Span
  | unterminatedSelector s | emptySelector s | malformedBlock _ _ s | unterminatedBlock _ s
  | missingContext s => s

def message : ScriptError → String
  | unterminatedSelector _ => "unterminated enhanced selector"
  | emptySelector _ => "empty enhanced selector"
  | malformedBlock construct fault _ =>
    "malformed " ++ construct.word ++ " block: " ++ fault.message
  | unterminatedBlock construct _ => "unterminated " ++ construct.word ++ " block"
  | missingContext _ =>
    "`\x7b\x7b&\x7d\x7d` used in a script that is not inside an element"

end ScriptError

end Chtl
