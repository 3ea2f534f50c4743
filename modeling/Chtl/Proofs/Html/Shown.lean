import Chtl.Html.Generate
import Chtl.Proofs.Document.Built
import Chtl.Proofs.Outcome

/-!
# Blocks on a page

A page shows the blocks of its document in document order, each of them once. No block stands in a
branch, so it does not matter which branches are written.
-/

set_option autoImplicit false
set_option linter.all false

namespace Chtl.Html

/-- The block whose placeholder is written. -/
def Mark.block? : Mark → Option (Placeholder × FragmentKind)
  | placeholder p kind _ => some (p, kind)
  | _ => none

/-- Every run writes the blocks, in this order. -/
def Shows (shown : List (Placeholder × FragmentKind)) (g : Generation (List Mark)) : Prop :=
  ∀ s marks s', g.run.run s = (.ok marks, s') → marks.filterMap Mark.block? = shown

/-- How a block is shown. -/
def shownAs (b : Block) : Placeholder × FragmentKind := (b.placeholder, b.kind)

section

variable {α : Type} {shown more : List (Placeholder × FragmentKind)}
  {g : Generation (List Mark)} {gens others : List (Generation (List Mark))}

theorem Shows.pure {marks : List Mark} (h : marks.filterMap Mark.block? = shown) :
    Shows shown (pure marks) := by
  rintro s _ s' ⟨⟩
  exact h

/-- A step before the marks are written. -/
theorem Shows.after {x : Generation α} {f : α → Generation (List Mark)}
    (h : ∀ a, Shows shown (f a)) : Shows shown (x >>= f) := by
  intro s marks s' hrun
  obtain ⟨a, middle, -, hrest⟩ := run_bind_eq_ok_iff.mp hrun
  exact h a middle marks s' hrest

/-- Marks that are written around others. -/
theorem Shows.around {f : List Mark → List Mark} (h : Shows shown g)
    (hf : ∀ marks, (f marks).filterMap Mark.block? = marks.filterMap Mark.block?) :
    Shows shown (do return f (← g)) := by
  intro s marks s' hrun
  obtain ⟨inner, middle, hinner, hpure⟩ := run_bind_eq_ok_iff.mp hrun
  cases hpure
  rw [hf]
  exact h s inner s' hinner

theorem Shows.seq {rest : Generation (List Mark)} (h : Shows shown g) (h' : Shows more rest) :
    Shows (shown ++ more) (do
      let marks ← g
      let more ← rest
      return marks ++ more) := by
  intro s marks s' hrun
  obtain ⟨first, middle, hfirst, hrun⟩ := run_bind_eq_ok_iff.mp hrun
  obtain ⟨later, last, hlater, hpure⟩ := run_bind_eq_ok_iff.mp hrun
  cases hpure
  rw [List.filterMap_append, h s first middle hfirst, h' middle later s' hlater]

theorem Shows.inTurn {pieces : List (List (Placeholder × FragmentKind))}
    (h : List.Forall₂ Shows pieces gens) : Shows pieces.flatten (inTurn gens) := by
  induction h with
  | nil => exact .pure rfl
  | cons hfirst _ ih => exact hfirst.seq ih

/-- Chains that write no block among children. -/
theorem Shows.woven {pieces : List (List (Placeholder × FragmentKind))}
    {chains : List (Nat × Generation (List Mark))} (h : List.Forall₂ Shows pieces gens)
    (hchains : ∀ c ∈ chains, Shows [] c.2) (index : Nat) :
    Shows pieces.flatten (Html.inTurn (weave index gens chains)) := by
  have hempty : List.Forall₂ (fun c d => c.1 = d.1 ∧ Shows c.2 d.2)
      (chains.map fun c => (c.1, [])) chains := by
    rw [List.forall₂_map_left_iff, List.forall₂_same]
    exact fun c hc => ⟨rfl, hchains c hc⟩
  have hwoven := Shows.inTurn (weave_forall₂ h hempty index)
  rwa [flatten_weave_of_empty index pieces (by simp)] at hwoven

theorem Shows.closed {tag : String} {empty : Bool} (h : Shows shown g)
    (hempty : empty = true → shown = []) : Shows shown (Html.closed tag empty g) := by
  unfold Html.closed
  split_ifs with hvoid
  · rw [hempty (Bool.and_eq_true_iff.mp hvoid).2]
    exact .pure rfl
  · exact h.around fun marks => by simp [Mark.block?]

theorem Shows.inWrapper {empty : Bool} {condition : String} (h : Shows [] g) :
    Shows [] (Html.inWrapper empty condition g) := by
  unfold Html.inWrapper
  split_ifs
  · exact .pure rfl
  · refine .after fun wrapper => .after fun _ => h.around fun marks => ?_
    simp [Mark.block?, List.filterMap_cons]

end

section

variable (r : Resolver)

/-- Nodes show what each of them shows. -/
theorem shows_nodes {pieces : Node → List (Placeholder × FragmentKind)} (parent : Option String)
    {ns : List Node} (h : ∀ n ∈ ns, ∀ parent, Shows (pieces n) (node r parent n)) :
    List.Forall₂ Shows (ns.map pieces) (nodes r parent ns) := by
  induction ns with
  | nil =>
    rw [nodes]
    exact .nil
  | cons n ns ih =>
    rw [nodes]
    exact .cons (h n List.mem_cons_self parent) (ih fun m hm => h m (List.mem_cons_of_mem n hm))

/-- Nodes that show nothing. -/
theorem shows_nothing (parent : Option String) {ns : List Node}
    (h : ∀ n ∈ ns, ∀ parent, Shows [] (node r parent n)) :
    Shows [] (inTurn (nodes r parent ns)) := by
  have hnodes := Shows.inTurn (shows_nodes r parent h)
  rwa [List.flatten_eq_nil_iff.mpr (by simp)] at hnodes

theorem shows_firedBranch (id : Option String) (index : Nat) {bs : List Branch}
    (h : ∀ b ∈ bs, ∀ n ∈ b.children, ∀ parent, Shows [] (node r parent n)) :
    Shows [] (firedBranch r id index bs) := by
  induction bs generalizing index with
  | nil =>
    rw [firedBranch]
    exact .pure rfl
  | cons b bs ih =>
    obtain ⟨hfirst, hrest⟩ := List.forall_mem_cons.mp h
    cases index with
    | zero =>
      cases b
      rw [firedBranch]
      exact shows_nothing r id hfirst
    | succ index =>
      rw [firedBranch]
      exact ih index hrest

theorem shows_dynamicBranches (style : StyleMap) (target : String) (chain : Nat)
    (setsAnything : Bool) (index : Nat) (earlier : List String) {bs : List Branch}
    (h : ∀ b ∈ bs, ∀ n ∈ b.children, ∀ parent, Shows [] (node r parent n)) :
    Shows [] (dynamicBranches r style target chain setsAnything index earlier bs) := by
  induction bs generalizing index earlier with
  | nil =>
    rw [dynamicBranches]
    exact .pure rfl
  | cons b bs ih =>
    obtain ⟨hfirst, hrest⟩ := List.forall_mem_cons.mp h
    cases b
    rw [dynamicBranches]
    refine .after fun js => ?_
    exact (shows_nothing r (some target) hfirst).inWrapper.seq (ih (index + 1) _ hrest)

theorem shows_chainsOf (style : StyleMap) (id : Option String) {cs : List Chain}
    (fired : List (Option Nat))
    (h : ∀ c ∈ cs, ∀ b ∈ c.branches, ∀ n ∈ b.children, ∀ parent, Shows [] (node r parent n)) :
    ∀ c ∈ chainsOf r style id cs fired, Shows [] c.2 := by
  induction cs generalizing fired with
  | nil =>
    rw [chainsOf]
    simp
  | cons c cs ih =>
    obtain ⟨branches, anchor⟩ := c
    obtain ⟨hfirst, hrest⟩ := List.forall_mem_cons.mp h
    cases fired with
    | nil =>
      rw [chainsOf.eq_def]
      simp
    | cons own fired =>
      rw [chainsOf.eq_def]
      refine List.forall_mem_cons.mpr ⟨?_, ih fired hrest⟩
      dsimp only
      split_ifs
      · exact .after fun chain => shows_dynamicBranches r style _ chain _ 0 [] hfirst
      · cases own with
        | none => exact .pure rfl
        | some index => exact shows_firedBranch r id index hfirst

/-- A node shows its blocks in document order, whatever branches are written. -/
theorem shows_node {good : Element → Prop} {may : Block → Prop} {n : Node} (h : n.Built good may)
    (parent : Option String) : Shows (n.blocks.map shownAs) (node r parent n) := by
  induction h generalizing parent with
  | @element may e own children branches hchildren hbranches =>
    have hbuilt : Element.Built good may e := .element own children branches
    have hempty : ∀ c ∈ e.chains, ∀ b ∈ c.branches, ∀ n ∈ b.children, ∀ parent,
        Shows [] (node r parent n) := by
      intro c hc b hb n hn parent
      have hnode := hbranches c hc b hb n hn parent
      rwa [(branches c hc b hb n hn).blocks_eq_nil] at hnode
    rw [node, Node.blocks, Element.blocks_eq hbuilt.branch_blocks, List.map_flatMap,
      List.flatMap_def]
    obtain ⟨nodeId, tag, attributes, nodes, style, chains, rules, span⟩ := e
    have hinner : ∀ (resolved : ResolvedStyle) (id : Option String),
        Shows (nodes.map fun n => n.blocks.map shownAs).flatten
          (closed tag (nodes.isEmpty && chains.isEmpty) (inTurn (weave 0 (Html.nodes r id nodes)
            (chainsOf r resolved.style id chains resolved.fired)))) := by
      intro resolved id
      refine (Shows.woven (shows_nodes r id hchildren)
        (shows_chainsOf r resolved.style id resolved.fired hempty) 0).closed fun hnone => ?_
      rw [List.isEmpty_iff.mp (Bool.and_eq_true_iff.mp hnone).1]
      rfl
    rw [element]
    refine .after fun resolved => .after fun generated => .after fun _ =>
      (hinner resolved _).around fun marks => ?_
    simp [Mark.block?, List.filterMap_cons]
  | text =>
    rw [node]
    exact .pure rfl
  | comment =>
    rw [node]
    exact .pure rfl
  | placeholder =>
    rw [node]
    exact .after fun _ => .pure rfl

end

end Chtl.Html
