import Chtl.Proofs.Text.Word
import Chtl.Script.Glue

/-!
# Words in the glue

The glue is fixed code around literals and conditions that come from the recorded facts. Literals
stand between quotes and conditions between parentheses, so the glue holds the words of these texts
and no others.
-/

set_option autoImplicit false
set_option linter.all false

namespace Chtl.Script

open Text

def variableTexts (name : String) (bindings : List ResponsiveBinding) : List String :=
  escapeString name :: bindings.flatMap fun b =>
    [escapeString b.elementId, escapeString b.property, escapeString b.unit]

/-- The condition of an arm, and what the arm quotes. -/
def armTexts (bindings : List ConditionalBinding) : List String :=
  ((bindings.head?.bind (·.expression)).map unwrapped).toList ++
    (bindings.filter fun b => b.property != "").flatMap fun b =>
      [escapeString b.property, escapeString b.value]

def chainTexts (bindings : List ConditionalBinding) : List String :=
  let arms := Table.group (·.branch) bindings
  match arms with
  | (_, first :: _) :: _ => escapeString first.elementId :: arms.flatMap fun arm => armTexts arm.2
  | _ => []

def renderingTexts (r : RenderingBinding) : List String :=
  [escapeString r.wrapperId, unwrapped r.expression]

/-- Everything in the glue that is not fixed code. -/
def glueTexts (f : Facts) : List String :=
  (f.responsive.flatMap fun (name, bindings) => variableTexts name bindings) ++
    ((Table.group (·.chain) f.conditionals).flatMap fun (_, bindings) => chainTexts bindings) ++
    f.renderings.flatMap renderingTexts

end Chtl.Script

namespace Chtl.Text.IsWord

open Script

variable {p : List Char}

theorem quoted_append (hp : IsWord p) (s : String) (b : List Char) :
    p <:+: (singleQuoted s).toList ++ b ↔ p <:+: (escapeString s).toList ∨ p <:+: b := by
  have hlist : (singleQuoted s).toList ++ b =
      ['\x27'] ++ ((escapeString s).toList ++ '\x27' :: b) := by
    simp [singleQuoted]
  rw [hlist, hp.code_append (by decide) rfl, infix_append_cons_iff (hp.not_mem rfl)]

theorem endsApart_line (code : String) : endsApart (code ++ ");\n").toList = true := by
  rw [String.toList_append, endsApart_append_of_ne_nil (by decide)]
  rfl

theorem endsApart_append_line (front code : String) :
    endsApart (front ++ (code ++ ");\n")).toList = true := by
  rw [String.toList_append, endsApart_append_of_ne_nil (by simp)]
  exact endsApart_line code

theorem registration_iff (hp : IsWord p) (name : String) (b : ResponsiveBinding) :
    p <:+: ("__chtl.registerBinding(" ++ singleQuoted name ++ ", " ++ singleQuoted b.elementId ++
        ", " ++ singleQuoted b.property ++ ", " ++ singleQuoted b.unit ++ ");\n").toList ↔
      p <:+: (escapeString name).toList ∨ p <:+: (escapeString b.elementId).toList ∨
        p <:+: (escapeString b.property).toList ∨ p <:+: (escapeString b.unit).toList := by
  -- A fixed piece is compared with the characters that it is written as.
  simp (disch := (rw [String.toList_ofList]; decide)) only [
    String.toList_append, List.append_assoc, hp.code_append, hp.quoted_append, hp.not_part,
    or_false]

theorem accessorCode_iff (hp : IsWord p) (name : String) :
    p <:+: (accessorCode (singleQuoted name)).toList ↔ p <:+: (escapeString name).toList := by
  unfold accessorCode
  simp (disch := (rw [String.toList_ofList]; decide)) only [
    String.toList_append, List.append_assoc, hp.code_append, hp.quoted_append, hp.not_part,
    or_false, or_self]

theorem endsApart_accessorCode (code : String) : endsApart (accessorCode code).toList = true := by
  unfold accessorCode
  rw [String.toList_append, endsApart_append_of_ne_nil (by decide)]
  rfl

theorem shown_iff (hp : IsWord p) (name : String) :
    p <:+: (whenLoaded ("() => __chtl.updateDOM(" ++ singleQuoted name ++ ", window[" ++
        singleQuoted name ++ "])")).toList ↔ p <:+: (escapeString name).toList := by
  unfold whenLoaded
  simp (disch := (rw [String.toList_ofList]; decide)) only [
    String.toList_append, List.append_assoc, hp.code_append, hp.quoted_append, hp.not_part,
    or_false, or_self]

theorem variableGlue_iff (hp : IsWord p) (f : Facts) (name : String)
    (bindings : List ResponsiveBinding) :
    p <:+: (variableGlue f name bindings).toList ↔ Held p (variableTexts name bindings) := by
  unfold variableGlue
  dsimp only
  rw [String.toList_append, String.toList_append, String.toList_join, List.flatMap_map,
    List.append_assoc, hp.append_iff_of_endsApart (endsApart_flatMap fun b _ => endsApart_line _),
    hp.flatMap_iff fun b _ => endsApart_line _,
    hp.append_iff_of_endsApart (endsApart_accessorCode _), hp.accessorCode_iff]
  simp only [hp.registration_iff]
  by_cases hname : p <:+: (escapeString name).toList
  · simp [variableTexts, hname]
  · split_ifs <;> simp [variableTexts, hname, hp.shown_iff, hp.not_infix_nil]

theorem endsApart_variableGlue (f : Facts) (name : String) (bindings : List ResponsiveBinding) :
    endsApart (variableGlue f name bindings).toList = true := by
  unfold variableGlue
  dsimp only
  rw [String.toList_append, String.toList_append, String.toList_join, List.flatMap_map]
  refine endsApart_append (endsApart_append ?_ (endsApart_accessorCode _)) ?_
  · exact endsApart_flatMap fun b _ => endsApart_line _
  · split_ifs
    · exact endsApart_line _
    · rfl

theorem armHead_iff (hp : IsWord p) (isFirst : Bool) (condition : Option String) :
    p <:+: (armHead isFirst condition).toList ↔ Held p (condition.map unwrapped).toList := by
  unfold armHead
  cases condition with
  | none =>
    cases isFirst <;>
      simp (disch := (rw [String.toList_ofList]; decide)) only [
        hp.not_part, Option.map_none, Option.toList_none, held_nil]
  | some c =>
    cases isFirst <;>
      simp (disch := (rw [String.toList_ofList]; decide)) only [
        String.toList_append, List.append_assoc, hp.code_append, hp.append_code, Option.map_some,
        Option.toList_some, held_cons, held_nil, or_false]

theorem endsApart_armHead (isFirst : Bool) (condition : Option String) :
    endsApart (armHead isFirst condition).toList = true := by
  unfold armHead
  cases condition with
  | none => cases isFirst <;> decide
  | some c =>
    cases isFirst <;> dsimp only <;>
      rw [String.toList_append, endsApart_append_of_ne_nil (by decide)] <;> rfl

theorem setting_iff (hp : IsWord p) (b : ConditionalBinding) :
    p <:+: ("    el.style.setProperty(" ++ singleQuoted b.property ++ ", " ++
        singleQuoted b.value ++ ");\n").toList ↔
      p <:+: (escapeString b.property).toList ∨ p <:+: (escapeString b.value).toList := by
  simp (disch := (rw [String.toList_ofList]; decide)) only [
    String.toList_append, List.append_assoc, hp.code_append, hp.quoted_append, hp.not_part,
    or_false]

theorem armCode_iff (hp : IsWord p) (isFirst : Bool) (bindings : List ConditionalBinding) :
    p <:+: (armCode isFirst bindings).toList ↔ Held p (armTexts bindings) := by
  unfold armCode
  rw [String.toList_append, String.toList_join, List.flatMap_map,
    hp.append_iff_of_endsApart (endsApart_armHead _ _), hp.armHead_iff,
    hp.flatMap_iff fun b _ => endsApart_line _]
  simp only [hp.setting_iff, armTexts, held_append, held_flatMap, held_cons, held_nil, or_false]

theorem endsApart_armCode (isFirst : Bool) (bindings : List ConditionalBinding) :
    endsApart (armCode isFirst bindings).toList = true := by
  unfold armCode
  rw [String.toList_append, String.toList_join, List.flatMap_map]
  exact endsApart_append (endsApart_armHead _ _) (endsApart_flatMap fun b _ => endsApart_line _)

theorem armsCode_iff (hp : IsWord p) (isFirst : Bool)
    (arms : List (Nat × List ConditionalBinding)) :
    p <:+: (armsCode isFirst arms).toList ↔ Held p (arms.flatMap fun arm => armTexts arm.2) := by
  induction arms generalizing isFirst with
  | nil => simpa [armsCode] using hp.not_infix_nil
  | cons arm arms ih =>
    rw [armsCode, String.toList_append, hp.append_iff_of_endsApart (endsApart_armCode _ _),
      hp.armCode_iff, ih, List.flatMap_cons, held_append]

theorem not_mem_toString (n : Nat) : 'H' ∉ (toString n).toList := by
  intro h
  exact absurd (isAsciiDigit_of_mem_toString h) (by decide)

theorem not_mem_append {k l : String} (hk : 'H' ∉ k.toList) (hl : 'H' ∉ l.toList) :
    'H' ∉ (k ++ l).toList := by
  rw [String.toList_append, List.mem_append]
  exact not_or.mpr ⟨hk, hl⟩

theorem not_mem_whenLoaded {code : String} (h : 'H' ∉ code.toList) :
    'H' ∉ (whenLoaded code).toList := by
  refine not_mem_append (not_mem_append ?_ h) ?_ <;> rw [String.toList_ofList] <;> decide

theorem not_mem_whenResized {code : String} (h : 'H' ∉ code.toList) :
    'H' ∉ (whenResized code).toList := by
  refine not_mem_append (not_mem_append ?_ h) ?_ <;> rw [String.toList_ofList] <;> decide

/-- The function of a chain is fixed code around the element's id and the arms. -/
theorem function_iff (hp : IsWord p) {function : String} (hname : 'H' ∉ function.toList)
    (id : String) (arms : List (Nat × List ConditionalBinding)) :
    p <:+: ("function " ++ function ++ "() \x7b\n" ++
        "  const el = document.getElementById(" ++ singleQuoted id ++ ");\n" ++
        "  if (!el) return;\n" ++ armsCode true arms ++ "  \x7d\n\x7d\n" ++
        whenLoaded function ++ whenResized function).toList ↔
      Held p (escapeString id :: arms.flatMap fun arm => armTexts arm.2) := by
  have hhead : 'H' ∉ ("function " ++ function ++ "() \x7b\n").toList := by
    refine not_mem_append (not_mem_append ?_ hname) ?_ <;> rw [String.toList_ofList] <;> decide
  have hapart : endsApart ("function " ++ function ++ "() \x7b\n").toList = true := by
    rw [String.toList_append, endsApart_append_of_ne_nil (by decide)]
    rfl
  have htail : 'H' ∉ ("  \x7d\n\x7d\n" ++ (whenLoaded function ++ whenResized function)).toList :=
    not_mem_append (by rw [String.toList_ofList]; decide)
      (not_mem_append (not_mem_whenLoaded hname) (not_mem_whenResized hname))
  have hstarts : startsApart
      ("  \x7d\n\x7d\n" ++ (whenLoaded function ++ whenResized function)).toList = true := by
    rw [String.toList_append]
    rfl
  generalize "function " ++ function ++ "() \x7b\n" = head at hhead hapart ⊢
  simp only [String.toList_append] at htail hstarts
  simp only [String.toList_append, List.append_assoc]
  simp (disch := (rw [String.toList_ofList]; decide)) only [
    hp.code_append hhead hapart, hp.append_code htail hstarts, hp.code_append, hp.quoted_append,
    hp.armsCode_iff, held_cons]

theorem chainGlue_iff (hp : IsWord p) (chain : Nat) (bindings : List ConditionalBinding) :
    p <:+: (chainGlue chain bindings).toList ↔ Held p (chainTexts bindings) := by
  have hname : 'H' ∉ ("update_chtl_dynamic_" ++ toString chain).toList :=
    not_mem_append (by rw [String.toList_ofList]; decide) (not_mem_toString chain)
  unfold chainGlue chainTexts
  dsimp only
  generalize Table.group (·.branch) bindings = arms
  rcases arms with _ | ⟨⟨_, _ | ⟨first, more⟩⟩, rest⟩
  · simpa using hp.not_infix_nil
  · simpa using hp.not_infix_nil
  · exact hp.function_iff hname first.elementId _

theorem endsApart_chainGlue (chain : Nat) (bindings : List ConditionalBinding) :
    endsApart (chainGlue chain bindings).toList = true := by
  unfold chainGlue
  dsimp only
  generalize Table.group (·.branch) bindings = arms
  rcases arms with _ | ⟨⟨_, _ | ⟨first, more⟩⟩, rest⟩
  · rfl
  · rfl
  · exact endsApart_append_line _ _

theorem rendering_iff (hp : IsWord p) (r : RenderingBinding) :
    p <:+: ("__chtl.registerDynamicRendering(" ++ singleQuoted r.wrapperId ++ ", () => (" ++
        unwrapped r.expression ++ "));\n").toList ↔ Held p (renderingTexts r) := by
  simp (disch := (rw [String.toList_ofList]; decide)) only [
    String.toList_append, List.append_assoc, hp.code_append, hp.quoted_append, hp.append_code,
    renderingTexts, held_cons, held_nil, or_false]

theorem renderingGlue_iff (hp : IsWord p) (renderings : List RenderingBinding) :
    p <:+: (renderingGlue renderings).toList ↔ Held p (renderings.flatMap renderingTexts) := by
  have hupdate : ¬ p <:+: (if renderings.isEmpty then "" else
      whenLoaded "() => __chtl.evaluateDynamicRendering()" ++
        whenResized "() => __chtl.evaluateDynamicRendering()").toList := by
    split_ifs
    · exact hp.not_infix_nil
    · have hcode : 'H' ∉ "() => __chtl.evaluateDynamicRendering()".toList := by
        rw [String.toList_ofList]
        decide
      exact hp.not_part
        (not_mem_append (not_mem_whenLoaded hcode) (not_mem_whenResized hcode))
  have hline (r : RenderingBinding) :
      endsApart ("__chtl.registerDynamicRendering(" ++ singleQuoted r.wrapperId ++ ", () => (" ++
        unwrapped r.expression ++ "));\n").toList = true := by
    rw [String.toList_append, endsApart_append_of_ne_nil (by decide)]
    rfl
  unfold renderingGlue
  rw [String.toList_append, String.toList_join, List.flatMap_map,
    hp.append_iff_of_endsApart (endsApart_flatMap fun r _ => hline r),
    hp.flatMap_iff fun r _ => hline r, or_iff_left hupdate]
  simp only [hp.rendering_iff, held_flatMap]

theorem glueTexts_of_not_needsRuntime {f : Facts} (h : f.needsRuntime = false) :
    glueTexts f = [] := by
  simp only [Facts.needsRuntime, Bool.or_eq_false_iff, Bool.not_eq_false', List.isEmpty_iff] at h
  obtain ⟨⟨hr, hc⟩, hd⟩ := h
  simp [glueTexts, hr, hc, hd, Table.group]

theorem not_mem_glueCore : 'H' ∉ glueCore.toList := by
  rw [glueCore, String.toList_ofList]
  decide +kernel

theorem endsApart_glueCore : endsApart glueCore.toList = true := by
  rw [glueCore, String.toList_ofList]
  decide +kernel

/-- The glue holds the words of the facts it is made from, and no others. -/
theorem glue_iff (hp : IsWord p) (f : Facts) :
    p <:+: (glue f).toList ↔ Held p (glueTexts f) := by
  have hcore := not_mem_glueCore
  have hapart := endsApart_glueCore
  unfold glue
  split_ifs with hneeds
  · rw [glueTexts_of_not_needsRuntime (by simpa using hneeds)]
    simpa using hp.not_infix_nil
  · generalize glueCore = core at hcore hapart ⊢
    simp only [String.toList_append, String.toList_join, List.flatMap_map, List.append_assoc]
    rw [hp.code_append hcore hapart,
      hp.append_iff_of_endsApart (endsApart_flatMap fun v _ => endsApart_variableGlue _ _ _),
      hp.flatMap_iff fun v _ => endsApart_variableGlue _ _ _,
      hp.append_iff_of_endsApart (endsApart_flatMap fun c _ => endsApart_chainGlue _ _),
      hp.flatMap_iff fun c _ => endsApart_chainGlue _ _, hp.renderingGlue_iff]
    simp only [hp.variableGlue_iff, hp.chainGlue_iff, glueTexts, held_append, held_flatMap,
      or_assoc]

end Chtl.Text.IsWord
