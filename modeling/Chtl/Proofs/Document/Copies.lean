import Chtl.Document.Element
import Chtl.Document.Renumber
import Mathlib.Tactic.SplitIfs

/-!
# Copies of a placeholder in a document

How often a placeholder stands among the nodes of a document. A copy in a branch counts twice, so
that a document with no more than one copy has none in a branch.
-/

set_option autoImplicit false
set_option linter.all false

namespace Chtl

variable (token : String)

mutual

def Node.copies : Node → Nat
  | .element e => e.copies
  | .placeholder p _ _ => if p.token = token then 1 else 0
  | .text _ _ | .comment _ _ => 0

def Element.copies : Element → Nat
  | ⟨_, _, _, children, _, chains, _, _⟩ => copiesInNodes children + 2 * copiesInChains chains

def Branch.copies : Branch → Nat
  | ⟨_, _, children, _⟩ => copiesInNodes children

def Chain.copies : Chain → Nat
  | ⟨branches, _⟩ => copiesInBranches branches

def copiesInNodes : List Node → Nat
  | [] => 0
  | n :: ns => n.copies + copiesInNodes ns

def copiesInBranches : List Branch → Nat
  | [] => 0
  | b :: bs => b.copies + copiesInBranches bs

def copiesInChains : List Chain → Nat
  | [] => 0
  | c :: cs => c.copies + copiesInChains cs

end

variable {token}

@[simp] theorem copiesInNodes_singleton (n : Node) : copiesInNodes token [n] = n.copies token := by
  simp [copiesInNodes]

theorem copiesInNodes_append (ns more : List Node) :
    copiesInNodes token (ns ++ more) = copiesInNodes token ns + copiesInNodes token more := by
  induction ns with
  | nil => simp [copiesInNodes]
  | cons n ns ih => simp [copiesInNodes, ih, Nat.add_assoc]

theorem copiesInChains_append (cs more : List Chain) :
    copiesInChains token (cs ++ more) = copiesInChains token cs + copiesInChains token more := by
  induction cs with
  | nil => simp [copiesInChains]
  | cons c cs ih => simp [copiesInChains, ih, Nat.add_assoc]

theorem Element.copies_eq (e : Element) :
    e.copies token = copiesInNodes token e.children + 2 * copiesInChains token e.chains := by
  cases e
  rw [copies]

/-- Copies are counted among the children and chains alone. -/
theorem Element.copies_congr {e e' : Element} (hchildren : e'.children = e.children)
    (hchains : e'.chains = e.chains) : e'.copies token = e.copies token := by
  rw [copies_eq, copies_eq, hchildren, hchains]

theorem Element.copies_setAttribute (e : Element) (a : Attribute) :
    (e.setAttribute a).copies token = e.copies token := by
  unfold setAttribute
  split_ifs <;> exact copies_congr rfl rfl

theorem Element.copies_setDeclaration (e : Element) (d : StyleDeclaration) :
    (e.setDeclaration d).copies token = e.copies token := by
  unfold setDeclaration
  split_ifs <;> exact copies_congr rfl rfl

theorem Element.copies_foldl_setDeclaration (e : Element) (ds : List StyleDeclaration) :
    (ds.foldl setDeclaration e).copies token = e.copies token := by
  induction ds generalizing e with
  | nil => rfl
  | cons d ds ih => rw [List.foldl_cons, ih, copies_setDeclaration]

theorem Element.copies_addClass (e : Element) (name : String) :
    (e.addClass name).copies token = e.copies token := by
  unfold addClass
  split_ifs
  · rfl
  · exact copies_congr rfl rfl
  · exact copies_congr rfl rfl

theorem Element.copies_setIdIfAbsent (e : Element) (id : String) :
    (e.setIdIfAbsent id).copies token = e.copies token := by
  unfold setIdIfAbsent
  split_ifs
  · rfl
  · exact copies_congr rfl rfl

theorem Element.copies_addRule (e : Element) (rule : StyleRule) :
    (e.addRule rule).copies token = e.copies token := by
  unfold addRule
  split
  · rename_i name _
    rw [← copies_addClass e name]
    exact copies_congr rfl rfl
  · rename_i id _ _
    rw [← copies_setIdIfAbsent e id]
    exact copies_congr rfl rfl
  · exact copies_congr rfl rfl

theorem Branch.copies_eq (b : Branch) : b.copies token = copiesInNodes token b.children := by
  cases b
  rw [copies]

theorem Element.copies_addChildren (e : Element) (nodes : List Node) :
    (e.addChildren nodes).copies token = e.copies token + copiesInNodes token nodes := by
  rw [copies_eq, copies_eq, addChildren, copiesInNodes_append]
  dsimp only
  omega

theorem Element.copies_addChain (e : Element) (c : Chain) :
    (e.addChain c).copies token = e.copies token + 2 * c.copies token := by
  have hone : copiesInChains token [c] = c.copies token := by simp [copiesInChains]
  rw [copies_eq, copies_eq, addChain, copiesInChains_append, hone]
  dsimp only
  omega

mutual

theorem Node.copies_renumber (next : Nat) : (n : Node) →
    (n.renumber next).1.copies token = n.copies token
  | .element e => by
    rw [Node.renumber, Node.copies]
    exact e.copies_renumber next
  | .text .. => rfl
  | .comment .. => rfl
  | .placeholder .. => rfl

theorem Element.copies_renumber (next : Nat) : (e : Element) →
    (e.renumber next).1.copies token = e.copies token
  | ⟨_, tag, attributes, children, style, chains, rules, span⟩ => by
    rw [Element.renumber, Element.copies, Element.copies, copiesInNodes_renumber,
      copiesInChains_renumber]

theorem Branch.copies_renumber (next : Nat) : (b : Branch) →
    (b.renumber next).1.copies token = b.copies token
  | ⟨_, _, children, _⟩ => by
    rw [Branch.renumber, Branch.copies, Branch.copies, copiesInNodes_renumber]

theorem Chain.copies_renumber (next : Nat) : (c : Chain) →
    (c.renumber next).1.copies token = c.copies token
  | ⟨branches, _⟩ => by
    rw [Chain.renumber, Chain.copies, Chain.copies, copiesInBranches_renumber]

theorem copiesInNodes_renumber (next : Nat) : (ns : List Node) →
    copiesInNodes token (renumberNodes next ns).1 = copiesInNodes token ns
  | [] => by rw [renumberNodes]
  | n :: ns => by
    rw [renumberNodes, copiesInNodes, copiesInNodes, n.copies_renumber, copiesInNodes_renumber]

theorem copiesInBranches_renumber (next : Nat) : (bs : List Branch) →
    copiesInBranches token (renumberBranches next bs).1 = copiesInBranches token bs
  | [] => by rw [renumberBranches]
  | b :: bs => by
    rw [renumberBranches, copiesInBranches, copiesInBranches, b.copies_renumber,
      copiesInBranches_renumber]

theorem copiesInChains_renumber (next : Nat) : (cs : List Chain) →
    copiesInChains token (renumberChains next cs).1 = copiesInChains token cs
  | [] => by rw [renumberChains]
  | c :: cs => by
    rw [renumberChains, copiesInChains, copiesInChains, c.copies_renumber,
      copiesInChains_renumber]

end

end Chtl
