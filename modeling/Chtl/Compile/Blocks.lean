import Chtl.Bridge.Basic
import Chtl.Compile.Error
import Chtl.Document.Basic
import Chtl.Script.Lower
import Chtl.Script.Parse

/-!
# Compiling blocks

The blocks of a unit are compiled in rounds. The first reads every script and records its variables;
the second lowers the scripts, when all facts are known. The last goes through all blocks and finds
the code of a script by its place among the fragments.
-/

set_option autoImplicit false
set_option linter.all false

namespace Chtl

open Text

/-- A script that has been read, with its place among the fragments. -/
structure ReadScript where
  index : Nat
  fragment : Fragment
  items : List Script.Item

/-- The fault of a fragment, which takes the blame. -/
def Fragment.fault (f : Fragment) (cause : FragmentFault) : CompileError :=
  .fragment f.range f.kind cause

/-- Reads a script, its extensions expanded first, and records its variables. -/
def Fragment.readScript (f : Fragment) (extensions : Extensions) (bridge : Bridge) :
    Except CompileError (List Script.Item × Bridge) := do
  let base := f.bodyRange.start
  let text ← (extensions.apply f.text.toList base).mapError fun e => f.fault (.extension e)
  let (items, declared) ← (Script.parse text base).mapError fun e => f.fault (.script e)
  .ok (items, declared.foldl (fun b (name, value) => b.recordVariable name value) bridge)

/-- Reads the scripts among fragments in their order, the first fragment having the place `index`. -/
def readScripts (extensions : Extensions) :
    Bridge → (index : Nat) → List Fragment → Except CompileError (List ReadScript × Bridge)
  | bridge, _, [] => .ok ([], bridge)
  | bridge, index, f :: fs =>
    if f.kind = .script then do
      let (items, bridge) ← f.readScript extensions bridge
      let (scripts, bridge) ← readScripts extensions bridge (index + 1) fs
      .ok (⟨index, f, items⟩ :: scripts, bridge)
    else readScripts extensions bridge (index + 1) fs

def ReadScript.lower (s : ReadScript) (facts : Facts) : Except CompileError String :=
  (Script.lower s.items facts (s.fragment.placeholder.map (·.token))).mapError fun e =>
    s.fragment.fault (.script e)

/-- The code of scripts, each with its place. -/
def lowerScripts (facts : Facts) : List ReadScript → Except CompileError (List (Nat × String))
  | [] => .ok []
  | s :: scripts => do
    let code ← s.lower facts
    let more ← lowerScripts facts scripts
    .ok ((s.index, code) :: more)

/-- Takes the code of the script at a place off the front, if it is the next one. -/
def takeScript (index : Nat) : List (Nat × String) → Option String × List (Nat × String)
  | [] => (none, [])
  | (place, code) :: rest =>
    if place = index then (some code, rest) else (none, (place, code) :: rest)

/-- The text that a block is compiled to, and the scripts that are left for the blocks behind it. A
style that became part of an element leaves no text, and a script without code the one given. -/
def Fragment.compiledText (f : Fragment) (placeholder : Placeholder) (index : Nat)
    (consumed : List Placeholder) (absent : String) (scripts : List (Nat × String)) :
    String × List (Nat × String) :=
  match f.kind with
  | .style =>
    (if placeholder ∈ consumed then "" else String.ofList (trim f.text.toList), scripts)
  | _ =>
    match takeScript index scripts with
    | (some code, rest) => (String.ofList (trim code.toList), rest)
    | (none, rest) => (absent, rest)

/-- What the blocks among fragments are compiled to, in their order. -/
def compiledBlocks (consumed : List Placeholder) (absent : String) : (index : Nat) →
    List Fragment → (scripts : List (Nat × String)) → List (Placeholder × CompiledFragment)
  | _, [], _ => []
  | index, f :: fs, scripts =>
    match f.placeholder with
    | none => compiledBlocks consumed absent (index + 1) fs scripts
    | some placeholder =>
      let (text, rest) := f.compiledText placeholder index consumed absent scripts
      (placeholder, ⟨f.kind, text⟩) :: compiledBlocks consumed absent (index + 1) fs rest

/-- Outputs with the entries of a list, one after the other. -/
def FragmentOutputs.ofEntries (entries : List (Placeholder × CompiledFragment)) :
    Except PlacementError FragmentOutputs :=
  entries.foldlM (fun outputs (placeholder, fragment) => outputs.insert placeholder fragment) {}

end Chtl
