import Chtl.Proofs.Html.Lowering
import Mathlib.Data.List.ReduceOption

/-!
# Every dynamic chain on a page

The branches of a dynamic chain leave their bindings one after the other, whatever their children
leave in between. Along the recursion of the generators, every number that is given out belongs to a
dynamic chain of an element whose start tag is written.
-/

set_option autoImplicit false
set_option linter.all false

namespace Chtl.Html

/-- What the branches of the chain with a number leave, from an index on and with the conditions of
the branches before. -/
structure Branched (r : Resolver) (style : StyleMap) (target : String) (chain : Nat)
    (setsAnything : Bool) (index : Nat) (earlier : List String) (bs : List Branch)
    (before : List Mark) (s : GenState) (marks : List Mark) (s' : GenState)
    (new : List ConditionalBinding) (shown : List RenderingBinding) (ls : List Lowering) : Prop
    extends Chained r [chain] before s marks s' new shown where
  branches : ls.map (·.branch) = bs
  lowered : ∀ k (l : Lowering), ls[k]? = some l → l.Written r style target (before ++ marks) shown
    (earlier ++ ((ls.map (·.condition)).take k).reduceOption)
  bindings : new.filter (·.chain = chain) =
    if setsAnything then (Lowering.blocks target chain index ls).flatMap (·.2) else []

section

variable {r : Resolver} {style : StyleMap} {target : String} {chain index : Nat}
  {setsAnything : Bool} {earlier : List String} {before : List Mark} {s : GenState}

theorem Branched.nil (s : GenState) :
    Branched r style target chain setsAnything index earlier [] before s [] s [] [] [] where
  toChained := .quiet [] rfl rfl rfl
  branches := rfl
  lowered := by simp
  bindings := by simp [Lowering.blocks]

/-- A branch in front of others. -/
theorem Branched.cons {s₁ s₂ s' : GenState} {b : Branch} {bs : List Branch} {js : Option String}
    {wrapped more : List Mark} (hchain : chain < s.bridge.chains)
    (hbody : setsAnything = false → b.body = [])
    (hbranch : (recordBranch r style target chain index setsAnything b.condition b.body).run.run s =
      (.ok js, s₁))
    (hchildren : Chains r [] (inTurn (nodes r (some target) b.children)))
    (hwrapped : (inWrapper b.children.isEmpty (guardText earlier js)
      (inTurn (nodes r (some target) b.children))).run.run s₁ = (.ok wrapped, s₂))
    (hrest : chain < s₂.bridge.chains → ∃ new shown ls, Branched r style target chain setsAnything
      (index + 1) (earlier ++ js.toList) bs (before ++ wrapped) s₂ more s' new shown ls) :
    ∃ new shown ls, Branched r style target chain setsAnything index earlier (b :: bs) before s
      (wrapped ++ more) s' new shown ls := by
  obtain ⟨settings, hcondition, hsets, hafter⟩ := run_recordBranch hbody hbranch
  obtain ⟨inner, shown₁, wrapper, hinner, hnone, hsome⟩ :=
    Chains.inWrapper hchildren (List.nil_subset before) hwrapped
  let l : Lowering := ⟨b, js, settings, wrapper⟩
  let own := if setsAnything then l.bindings target chain index else []
  have hown : ∀ x ∈ own, x.chain = chain := by
    intro x hx
    simp only [own, Lowering.bindings] at hx
    split at hx
    · obtain ⟨_, -, rfl⟩ := List.mem_map.mp hx
      rfl
    · cases hx
  have hrecorded : Chained r [chain] before s [] s₁ own [] := by
    have hbridge := hafter wrapper
    refine ⟨?_, ?_, ?_, fun x hx => .inl (by simp [hown x hx]), fun n hlow hhigh => ?_⟩
    · simp [hbridge, Bridge.recordConditionals]
    · simp [hbridge, Bridge.recordConditionals, own, l]
    · simp [hbridge, Bridge.recordConditionals]
    · simp only [hbridge, Bridge.recordConditionals] at hhigh
      omega
  have hle := hrecorded.chains_le
  have hle' := hinner.chains_le
  obtain ⟨new, shown, ls, hmore⟩ := hrest (by omega)
  have hfirst := hrecorded.seq (by simpa using hinner.mono (List.nil_subset [chain]))
    (by simpa using hchain)
  have hwhole := hfirst.seq hmore.toChained (by simpa using hchain)
  rw [List.nil_append] at hwhole
  refine ⟨_, _, l :: ls, hwhole, ?_, ?_, ?_⟩
  · rw [List.map_cons, hmore.branches]
  · intro k x hx
    cases k with
    | zero =>
      obtain rfl : l = x := by simpa using hx
      refine ⟨hcondition, hsets, fun h => by simpa using hnone h, fun id hid => ?_⟩
      obtain ⟨hguard, s₃, marks, s₄, hrun, hinfix⟩ := hsome id hid
      refine ⟨by simp [List.reduceOption, hguard, l], s₃, marks, s₄, hrun, hinfix.trans ?_⟩
      exact ⟨before, more, List.append_assoc ..⟩
    | succ k =>
      have hx' := hmore.lowered k x (by simpa using hx)
      rw [List.append_assoc] at hx'
      have hearlier : earlier ++ (((l :: ls).map (·.condition)).take (k + 1)).reduceOption =
          earlier ++ js.toList ++ ((ls.map (·.condition)).take k).reduceOption := by
        cases js <;> simp [l, List.reduceOption]
      rw [hearlier]
      exact hx'.mono (List.infix_refl _) (List.subset_append_right _ _)
  · have hkeep : own.filter (·.chain = chain) = own :=
      List.filter_eq_self.mpr fun x hx => by simp [hown x hx]
    have hnone := hinner.filter_eq_nil (List.not_mem_nil) (.inl (Nat.lt_of_lt_of_le hchain hle))
    rw [List.filter_append, List.filter_append, hkeep, hnone, hmore.bindings, Lowering.blocks,
      List.flatMap_cons, List.append_nil]
    cases setsAnything <;> simp [own]

end

/-- An element leaves the chains of its content, which is written after its start tag. -/
theorem chains_opened (r : Resolver) (e : Element)
    (content : StyleMap → List (Option Nat) → Option String → Generation (List Mark))
    (h : ∀ style fired generated,
      Chains r [.start e generated style] (content style fired (e.id?.or generated))) :
    Chains r [] (do
      let resolved ← resolving (r.resolve e)
      let generated ← generatedId e
      let id := e.id?.or generated
      recordResponsive e id
      let marks ← content resolved.style resolved.fired id
      pure (Mark.start e generated resolved.style :: marks ++ [Mark.rules e id])) := by
  intro before s marks s' _ hrun
  obtain ⟨resolved, s₁, hresolved, hrun⟩ := run_bind_eq_ok_iff.mp hrun
  obtain ⟨generated, s₂, hgenerated, hrun⟩ := run_bind_eq_ok_iff.mp hrun
  obtain ⟨_, s₃, hrecord, hrun⟩ := run_bind_eq_ok_iff.mp hrun
  obtain ⟨inner, s₄, hinner, hpure⟩ := run_bind_eq_ok_iff.mp hrun
  cases hpure
  obtain ⟨hbridge₁, -⟩ := run_resolving hresolved
  obtain ⟨-, hbridge₂, -⟩ := run_generatedId hgenerated
  have hopened : Chained r [] before s [.start e generated resolved.style] s₃ [] [] := by
    cases hid : e.id?.or generated with
    | none =>
      rw [hid] at hrecord
      cases hrecord
      exact .quiet _ (by rw [hbridge₂, hbridge₁]) (by rw [hbridge₂, hbridge₁])
        (by rw [hbridge₂, hbridge₁])
    | some id =>
      rw [hid] at hrecord
      cases hrecord
      simp only [foldl_recordResponsive]
      exact .quiet _ (by rw [hbridge₂, hbridge₁]) (by rw [hbridge₂, hbridge₁])
        (by rw [hbridge₂, hbridge₁])
  obtain ⟨new, shown, hchained⟩ := h resolved.style resolved.fired generated
    (before ++ [Mark.start e generated resolved.style]) s₃ inner s' (List.subset_append_right _ _) hinner
  have hclosed : Chained r [] (before ++ ([Mark.start e generated resolved.style] ++ inner)) s'
      [.rules e (e.id?.or generated)] s' [] [] := .quiet _ rfl rfl rfl
  exact ⟨_, _, (hopened.seq hchained (by simp)).seq hclosed (by simp)⟩

variable (r : Resolver)

mutual

theorem chains_node (parent : Option String) : (n : Node) → Chains r [] (node r parent n)
  | .element e => by
    rw [node]
    exact chains_element e
  | .text value span => by
    rw [node]
    intro before s marks s' _ hrun
    cases hrun
    exact ⟨[], [], .quiet _ rfl rfl rfl⟩
  | .comment value span => by
    rw [node]
    intro before s marks s' _ hrun
    cases hrun
    exact ⟨[], [], .quiet _ rfl rfl rfl⟩
  | .placeholder p kind span => by
    rw [node]
    intro before s marks s' _ hrun
    obtain ⟨_, middle, hcontext, hpure⟩ := run_bind_eq_ok_iff.mp hrun
    cases hpure
    refine ⟨[], [], ?_⟩
    cases kind <;> cases parent <;> cases hcontext <;> exact .quiet _ rfl rfl rfl

theorem chains_element : (e : Element) → Chains r [] (element r e)
  | ⟨nodeId, tag, attributes, children, style, chains, rules, span⟩ => by
    rw [element]
    refine chains_opened r _ (fun styled fired id =>
      closed tag (children.isEmpty && chains.isEmpty)
        (inTurn (weave 0 (nodes r id children) (chainsOf r styled id chains fired)))) ?_
    intro styled fired generated
    refine (Chains.inTurn fun g hg => ?_).closed
    rcases mem_weave.mp hg with hg | ⟨c, hc, rfl⟩
    · exact (chains_nodes _ children g hg).mono (List.nil_subset _)
    · exact chains_chainsOf _ generated styled chains fired (List.Subset.refl _) c hc

theorem chains_nodes (parent : Option String) : (ns : List Node) →
    ∀ g ∈ nodes r parent ns, Chains r [] g
  | [] => by
    rw [nodes]
    exact List.forall_mem_nil _
  | n :: ns => by
    rw [nodes]
    exact List.forall_mem_cons.mpr ⟨chains_node parent n, chains_nodes parent ns⟩

theorem chains_chainsOf (e : Element) (generated : Option String) (style : StyleMap) :
    (cs : List Chain) → (fired : List (Option Nat)) → cs ⊆ e.chains →
    ∀ c ∈ chainsOf r style (e.id?.or generated) cs fired, Chains r [.start e generated style] c.2
  | [], fired, _ => by
    rw [chainsOf]
    exact List.forall_mem_nil _
  | c :: cs, [], _ => by
    cases c
    rw [chainsOf.eq_def]
    exact List.forall_mem_nil _
  | ⟨branches, anchor⟩ :: cs, first :: fired, hcs => by
    obtain ⟨hc, hrest⟩ := List.cons_subset.mp hcs
    rw [chainsOf.eq_def]
    refine List.forall_mem_cons.mpr ⟨?_, chains_chainsOf e generated style cs fired hrest⟩
    by_cases hdynamic : branches.any Branch.isDynamic = true
    · rw [if_pos hdynamic]
      intro before s marks s' hbefore hrun
      obtain ⟨chain, s₁, hbegin, hrun⟩ := run_bind_eq_ok_iff.mp hrun
      obtain ⟨hchain, hbridge⟩ : chain = s.bridge.chains ∧
          s₁.bridge = { s.bridge with chains := s.bridge.chains + 1 } := by
        cases hbegin
        exact ⟨rfl, rfl⟩
      obtain ⟨new, shown, ls, hbranched⟩ := branched_dynamicBranches style
        ((e.id?.or generated).getD "") chain _ 0 [] branches before s₁ marks s'
        (by simp [hchain, hbridge]) (by simp) hrun
      have hle := hbranched.chains_le
      simp only [hbridge] at hle
      have hown : Emission.Written r (before ++ marks) new shown chain
          ⟨e, generated, style, ⟨branches, anchor⟩, ls⟩ :=
        ⟨List.mem_append_left _ (hbefore (List.mem_singleton_self _)), hc, hdynamic,
          hbranched.branches, hbranched.lowered, hbranched.bindings⟩
      refine ⟨new, shown, Nat.le_trans (Nat.le_succ _) hle, ?_, ?_, ?_, ?_⟩
      · rw [hbranched.conditionals, hbridge]
      · rw [hbranched.renderings, hbridge]
      · intro b hb
        refine .inr ?_
        rcases hbranched.numbered b hb with hin | hin
        · obtain rfl : b.chain = chain := by simpa using hin
          omega
        · simp only [hbridge] at hin
          omega
      · intro n hlow hhigh
        by_cases hn : n = chain
        · exact ⟨_, hn ▸ hown⟩
        · refine hbranched.emissions n ?_ hhigh
          simp only [hbridge]
          omega
    · rw [if_neg hdynamic]
      cases first with
      | none => exact .nothing
      | some index => exact (chains_firedBranch _ index branches).mono (List.nil_subset _)

theorem chains_firedBranch (id : Option String) : (index : Nat) → (bs : List Branch) →
    Chains r [] (firedBranch r id index bs)
  | _, [] => by
    rw [firedBranch]
    exact .nothing
  | 0, ⟨condition, body, children, span⟩ :: bs => by
    rw [firedBranch]
    exact .inTurn (chains_nodes id children)
  | index + 1, b :: bs => by
    rw [firedBranch]
    exact chains_firedBranch id index bs

theorem branched_dynamicBranches (style : StyleMap) (target : String) (chain : Nat)
    (setsAnything : Bool) : (index : Nat) → (earlier : List String) → (bs : List Branch) →
    (before : List Mark) → (s : GenState) → (marks : List Mark) → (s' : GenState) →
    chain < s.bridge.chains → (setsAnything = false → ∀ b ∈ bs, b.body = []) →
    (dynamicBranches r style target chain setsAnything index earlier bs).run.run s =
      (.ok marks, s') →
    ∃ new shown ls, Branched r style target chain setsAnything index earlier bs before s marks s'
      new shown ls
  | index, earlier, [], before, s, marks, s', _, _, hrun => by
    rw [dynamicBranches] at hrun
    cases hrun
    exact ⟨[], [], [], .nil s⟩
  | index, earlier, ⟨condition, body, children, span⟩ :: bs, before, s, marks, s', hchain, hbody,
      hrun => by
    rw [dynamicBranches] at hrun
    obtain ⟨js, s₁, hbranch, hrun⟩ := run_bind_eq_ok_iff.mp hrun
    obtain ⟨wrapped, s₂, hwrapped, hrun⟩ := run_bind_eq_ok_iff.mp hrun
    obtain ⟨more, s₃, hmore, hpure⟩ := run_bind_eq_ok_iff.mp hrun
    cases hpure
    have hlater : (dynamicBranches r style target chain setsAnything (index + 1)
        (earlier ++ js.toList) bs).run.run s₂ = (.ok more, s') := by
      cases js with
      | none => rwa [Option.toList_none, List.append_nil]
      | some js => exact hmore
    refine Branched.cons hchain (fun h => hbody h _ List.mem_cons_self) hbranch
      (.inTurn (chains_nodes (some target) children)) hwrapped fun hlt => ?_
    exact branched_dynamicBranches style target chain setsAnything (index + 1)
      (earlier ++ js.toList) bs (before ++ wrapped) s₂ more s' hlt
      (fun h b hb => hbody h b (List.mem_cons_of_mem _ hb)) hlater

end

end Chtl.Html
