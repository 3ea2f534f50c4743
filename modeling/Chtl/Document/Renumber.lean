import Chtl.Document.Basic

/-!
# Fresh node ids

Every copy of a template's nodes gets node ids of its own: an element first, then its children, then
its chains branch by branch.
-/

set_option autoImplicit false
set_option linter.all false

namespace Chtl

mutual

def Node.renumber (next : Nat) : Node → Node × Nat
  | .element e =>
    let (e, next) := e.renumber next
    (.element e, next)
  | .text value span => (.text value span, next)
  | .comment value span => (.comment value span, next)
  | .placeholder p kind span => (.placeholder p kind span, next)

def Element.renumber (next : Nat) : Element → Element × Nat
  | ⟨_, tag, attributes, children, style, chains, rules, span⟩ =>
    let (children, afterChildren) := renumberNodes (next + 1) children
    let (chains, afterChains) := renumberChains afterChildren chains
    (⟨next, tag, attributes, children, style, chains, rules, span⟩, afterChains)

def Branch.renumber (next : Nat) : Branch → Branch × Nat
  | ⟨condition, body, children, span⟩ =>
    let (children, next) := renumberNodes next children
    (⟨condition, body, children, span⟩, next)

def Chain.renumber (next : Nat) : Chain → Chain × Nat
  | ⟨branches, anchor⟩ =>
    let (branches, next) := renumberBranches next branches
    (⟨branches, anchor⟩, next)

def renumberNodes (next : Nat) : List Node → List Node × Nat
  | [] => ([], next)
  | n :: ns =>
    let (n, next) := n.renumber next
    let (ns, next) := renumberNodes next ns
    (n :: ns, next)

def renumberBranches (next : Nat) : List Branch → List Branch × Nat
  | [] => ([], next)
  | b :: bs =>
    let (b, next) := b.renumber next
    let (bs, next) := renumberBranches next bs
    (b :: bs, next)

def renumberChains (next : Nat) : List Chain → List Chain × Nat
  | [] => ([], next)
  | c :: cs =>
    let (c, next) := c.renumber next
    let (cs, next) := renumberChains next cs
    (c :: cs, next)

end

end Chtl
