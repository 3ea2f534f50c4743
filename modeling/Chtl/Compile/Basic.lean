import Chtl.Compile.Blocks
import Chtl.Compile.Options
import Chtl.Html.Generate
import Chtl.Markup.Parse
import Chtl.Script.Glue

/-!
# Compiling a unit

A unit is scanned, its markup is read and generated, its blocks are compiled, and the parts are
merged into a page. Units do not share anything but the extensions.
-/

set_option autoImplicit false
set_option linter.all false

namespace Chtl

/-- Everything that a page is merged from, and the facts its code was generated with. -/
structure UnitOutputs where
  /-- The page with placeholders for scripts and global styles. -/
  markup : String
  fragments : FragmentOutputs
  preludes : Preludes
  facts : Facts
  deriving DecidableEq, Repr

/-- Puts the blame for a fault on the fragment that it lies in. -/
def Scanned.blame (s : Scanned) (cause : FragmentFault) : CompileError :=
  match s.fragmentAt? cause.span.start with
  | some f => f.fault cause
  | none => .fragment ⟨0, s.sourceSize⟩ .markup cause

/-- Compiles the parts of a source without merging them. -/
def compileParts (source : List Char) (extensions : Extensions) (emitRuntime : Bool) :
    Except CompileError UnitOutputs := do
  let scanned ← (scan source).mapError .scan
  let document ← (Document.ofScanned scanned).mapError fun e => scanned.blame (.markup e)
  let (page, bridge) ← (document.generate {}).mapError fun e => scanned.blame (.eval e)
  let (scripts, bridge) ← readScripts extensions bridge 0 scanned.fragments
  let facts := bridge.facts
  let lowered ← lowerScripts facts scripts
  let entries := compiledBlocks document.consumedStyles "" 0 scanned.fragments lowered
  let fragments ← (FragmentOutputs.ofEntries entries).mapError .output
  .ok ⟨page.html, fragments, ⟨page.css, if emitRuntime then Script.glue facts else ""⟩, facts⟩

structure Compiled where
  bundle : Bundle
  facts : Facts
  deriving DecidableEq, Repr

/-- Compiles a source to a page. -/
def compile (source : List Char) (options : Options) (extensions : Extensions := {}) :
    Except CompileError Compiled := do
  let parts ← compileParts source extensions options.emitRuntime
  let bundle ←
    (Output.merge parts.markup parts.fragments parts.preludes options.layout).mapError .merge
  .ok ⟨bundle, parts.facts⟩

structure SourceUnit where
  path : String
  source : String
  deriving DecidableEq, Repr

/-- Compiles units one by one. The path of a unit stands in for the file name of the options. -/
def compileMany (units : List SourceUnit) (options : Options) (extensions : Extensions) :
    List (Except CompileError Compiled) :=
  units.map fun u => compile u.source.toList { options with filePath := u.path } extensions

end Chtl
