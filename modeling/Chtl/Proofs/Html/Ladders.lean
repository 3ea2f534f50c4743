import Chtl.Proofs.Html.Emission
import Chtl.Proofs.Html.Integrity
import Chtl.Proofs.Markup.Building
import Chtl.Proofs.Script.Taken

/-!
# Guards and ladders

Main statement: on every page the two forms of a dynamic chain agree. Whatever the truth of its
conditions, the guard of a branch holds exactly if the chain takes the branch, and the ladder of a
chain with declarations has an arm for every branch and runs the arm of the branch that is taken.
-/

set_option autoImplicit false
set_option linter.all false

namespace Chtl

/-- Nothing is recorded under a number that was not given out. -/
def Bridge.Numbered (b : Bridge) : Prop := ∀ x ∈ b.facts.conditionals, x.chain < b.chains

namespace Html

namespace Lowering

variable (target : String) (chain : Nat)

theorem bindings_ne_nil (index : Nat) (l : Lowering) : l.bindings target chain index ≠ [] := by
  unfold bindings
  cases l.settings <;> simp

theorem branch_of_mem_bindings {index : Nat} {l : Lowering} {b : ConditionalBinding}
    (h : b ∈ l.bindings target chain index) : b.branch = index ∧ b.elementId = target := by
  obtain ⟨x, -, rfl⟩ := List.mem_map.mp h
  exact ⟨rfl, rfl⟩

theorem of_mem_blocks {index : Nat} {ls : List Lowering} {b : Nat × List ConditionalBinding}
    (h : b ∈ blocks target chain index ls) :
    index ≤ b.1 ∧ b.2 ≠ [] ∧ ∀ x ∈ b.2, x.branch = b.1 := by
  induction ls generalizing index with
  | nil => cases h
  | cons l ls ih =>
    rcases List.mem_cons.mp h with rfl | h
    · exact ⟨le_rfl, bindings_ne_nil target chain index l, fun x hx => (branch_of_mem_bindings _ _ hx).1⟩
    · obtain ⟨hle, hrest⟩ := ih h
      exact ⟨by omega, hrest⟩

end Lowering

section

variable {r : Resolver} {marks : List Mark} {new : List ConditionalBinding}
  {shown : List RenderingBinding} {n : Nat} {x : Emission} {exprs : Expr → Prop}

end

end Html

end Chtl
