import Chtl.Proofs.Document.Traversal
import Chtl.Proofs.Style.Query

/-!
# Plain evaluation

The style of an element as rules give it, with nothing remembered and no path of elements: a
reference has the value that the style of the first matching element gives it, and that style is
derived in turn. An element whose references lead in a circle has no derivation.

The rules are stated over the styles that elements have; `Document.Derives` ties the knot.
-/

set_option autoImplicit false
set_option linter.all false

namespace Chtl

section

variable (d : Document) (styled : Element → ResolvedStyle → Prop)

inductive Expr.Evaluates : Expr → StyleMap → Value → Prop
  | number {x unit span style} : Evaluates (.number x unit span) style (.number x unit)
  | str {text span style} : Evaluates (.str text span) style (.str text)
  | bool {b span style} : Evaluates (.bool b span) style (.bool b)
  | declared {name span style text} :
    style.get? name = some text → Evaluates (.ident name span) style (.ofCss text)
  | keyword {name span style} :
    style.get? name = none → Evaluates (.ident name span) style (.str name)
  | reference {selector property span style e r text} :
    d.elements.find? selector.accepts = some e → styled e r → r.style.get? property = some text →
    Evaluates (.reference selector property span) style (.ofCss text)
  | not {e span style b} :
    Evaluates e style (.bool b) → Evaluates (.unary .not e span) style (.bool !b)
  | neg {e span style x unit} :
    Evaluates e style (.number x unit) → Evaluates (.unary .neg e span) style (.number (-x) unit)
  | andFalse {lhs rhs span style} :
    Evaluates lhs style (.bool false) → Evaluates (.binary .and lhs rhs span) style (.bool false)
  | andTrue {lhs rhs span style b} :
    Evaluates lhs style (.bool true) → Evaluates rhs style (.bool b) →
    Evaluates (.binary .and lhs rhs span) style (.bool b)
  | orTrue {lhs rhs span style} :
    Evaluates lhs style (.bool true) → Evaluates (.binary .or lhs rhs span) style (.bool true)
  | orFalse {lhs rhs span style b} :
    Evaluates lhs style (.bool false) → Evaluates rhs style (.bool b) →
    Evaluates (.binary .or lhs rhs span) style (.bool b)
  | compare {op lhs rhs span style a b v} :
    Value.isComparison op = true → Evaluates lhs style a → Evaluates rhs style b →
    a.compare op b span = .ok v → Evaluates (.binary op lhs rhs span) style v
  | arithmetic {op lhs rhs span style a b v} :
    op ∈ [.add, .sub, .mul, .div] → Evaluates lhs style a → Evaluates rhs style b →
    a.arithmetic op b rhs.span span = .ok v → Evaluates (.binary op lhs rhs span) style v
  | yes {cond yes no span style v} :
    Evaluates cond style (.bool true) → Evaluates yes style v →
    Evaluates (.ternary cond yes no span) style v
  | no {cond yes no span style v} :
    Evaluates cond style (.bool false) → Evaluates no style v →
    Evaluates (.ternary cond yes no span) style v

/-- The text of a declaration; a responsive one has none. -/
inductive StyleDeclaration.Gives : StyleDeclaration → StyleMap → Option String → Prop
  | literal {key text span style} : Gives ⟨key, .literal text, span⟩ style (some text)
  | expr {key e span style v} :
    e.Evaluates d styled style v → Gives ⟨key, .expr e, span⟩ style (some v.toCss)
  | responsive {key name unit span style} : Gives ⟨key, .responsive name unit, span⟩ style none

inductive Declares : List StyleDeclaration → StyleMap → StyleMap → Prop
  | nil {style} : Declares [] style style
  | set {decl ds style text after} :
    decl.Gives d styled style (some text) → Declares ds (style.set decl.key text) after →
    Declares (decl :: ds) style after
  | skip {decl ds style after} :
    decl.Gives d styled style none → Declares ds style after → Declares (decl :: ds) style after

inductive Assigns : List StyleDeclaration → Layers → Layers → Prop
  | nil {layers} : Assigns [] layers layers
  | set {decl ds layers text after} :
    decl.Gives d styled layers.style (some text) → Assigns ds (layers.assign decl.key text) after →
    Assigns (decl :: ds) layers after
  | skip {decl ds layers after} :
    decl.Gives d styled layers.style none → Assigns ds layers after →
    Assigns (decl :: ds) layers after

/-- Whether the condition of a branch holds. An `else` always does. -/
inductive Branch.Decides : Branch → StyleMap → Bool → Prop
  | condition {c body children span style b} :
    c.expr.Evaluates d styled style (.bool b) → Decides ⟨some c, body, children, span⟩ style b
  | otherwise {body children span style} : Decides ⟨none, body, children, span⟩ style true

/-- The first branch that fires, counted from an index, and what it makes of the style. -/
inductive FirstFires : List Branch → Layers → Nat → Layers → Option Nat → Prop
  | nil {layers index} : FirstFires [] layers index layers none
  | here {b bs layers index after} :
    b.Decides d styled layers.style true → Assigns d styled b.body layers after →
    FirstFires (b :: bs) layers index after (some index)
  | later {b bs layers index after fired} :
    b.Decides d styled layers.style false → FirstFires bs layers (index + 1) after fired →
    FirstFires (b :: bs) layers index after fired

inductive ChainsFire : List Chain → Layers → Layers → List (Option Nat) → Prop
  | nil {layers} : ChainsFire [] layers layers []
  | dynamic {c cs layers after fired} :
    c.isDynamic = true → ChainsFire cs layers after fired →
    ChainsFire (c :: cs) layers after (none :: fired)
  | static {c cs layers middle after first fired} :
    c.isDynamic = false → FirstFires d styled c.branches layers 0 middle first →
    ChainsFire cs middle after fired → ChainsFire (c :: cs) layers after (first :: fired)

/-- The style of an element, given those of the others. -/
def Element.Styled (e : Element) (r : ResolvedStyle) : Prop :=
  ∃ style layers fired, Declares d styled e.style {} style ∧
    ChainsFire d styled e.chains { style := style } layers fired ∧ r = ⟨layers.style, fired⟩

end

section

variable {d : Document} {styled : Element → ResolvedStyle → Prop} {style : StyleMap}
  {lhs rhs : Expr} {span : Span} {v : Value}

theorem evaluates_and_iff :
    (Expr.binary .and lhs rhs span).Evaluates d styled style v ↔
      ∃ a, lhs.Evaluates d styled style (.bool a) ∧
        if a then ∃ b, rhs.Evaluates d styled style (.bool b) ∧ v = .bool b else v = .bool false := by
  constructor
  · intro hv
    cases hv with
    | andFalse ha => exact ⟨false, ha, rfl⟩
    | andTrue ha hb => exact ⟨true, ha, _, hb, rfl⟩
    | compare hop => cases hop
    | arithmetic hop => simp at hop
  · rintro ⟨a, ha, hv⟩
    cases a with
    | false => exact hv ▸ .andFalse ha
    | true =>
      obtain ⟨b, hb, rfl⟩ := hv
      exact .andTrue ha hb

theorem evaluates_or_iff :
    (Expr.binary .or lhs rhs span).Evaluates d styled style v ↔
      ∃ a, lhs.Evaluates d styled style (.bool a) ∧
        if a then v = .bool true else ∃ b, rhs.Evaluates d styled style (.bool b) ∧ v = .bool b := by
  constructor
  · intro hv
    cases hv with
    | orTrue ha => exact ⟨true, ha, rfl⟩
    | orFalse ha hb => exact ⟨false, ha, _, hb, rfl⟩
    | compare hop => cases hop
    | arithmetic hop => simp at hop
  · rintro ⟨a, ha, hv⟩
    cases a with
    | true => exact hv ▸ .orTrue ha
    | false =>
      obtain ⟨b, hb, rfl⟩ := hv
      exact .orFalse ha hb

theorem evaluates_binary_iff {op : BinaryOp} (hand : op ≠ .and) (hor : op ≠ .or) :
    (Expr.binary op lhs rhs span).Evaluates d styled style v ↔
      ∃ a, lhs.Evaluates d styled style a ∧ ∃ b, rhs.Evaluates d styled style b ∧
        (if Value.isComparison op then a.compare op b span
          else a.arithmetic op b rhs.span span) = .ok v := by
  constructor
  · intro hv
    cases hv with
    | andFalse | andTrue => exact absurd rfl hand
    | orTrue | orFalse => exact absurd rfl hor
    | compare hop ha hb hv => exact ⟨_, ha, _, hb, by rwa [if_pos hop]⟩
    | arithmetic hop ha hb hv =>
      refine ⟨_, ha, _, hb, ?_⟩
      rwa [if_neg]
      simp only [List.mem_cons, List.not_mem_nil, or_false] at hop
      rcases hop with rfl | rfl | rfl | rfl <;> decide
  · rintro ⟨a, ha, b, hb, hv⟩
    by_cases hop : Value.isComparison op = true
    · rw [if_pos hop] at hv
      exact .compare hop ha hb hv
    · rw [if_neg hop] at hv
      refine .arithmetic ?_ ha hb hv
      cases op <;> simp_all [Value.isComparison]

end

/-- An element has a style if there is a finite derivation of it. -/
inductive Document.Derives (d : Document) : Element → ResolvedStyle → Prop
  | intro {e style layers fired} :
    Declares d (Derives d) e.style {} style →
    ChainsFire d (Derives d) e.chains { style := style } layers fired →
    Derives d e ⟨layers.style, fired⟩

theorem Document.Derives.of_styled {d : Document} {e : Element} {r : ResolvedStyle}
    (h : e.Styled d d.Derives r) : d.Derives e r := by
  obtain ⟨style, layers, fired, hstyle, hchains, rfl⟩ := h
  exact .intro hstyle hchains

/-- What is closed under the rule for elements holds of every derivation. -/
theorem Document.Derives.least {d : Document} (styled : Element → ResolvedStyle → Prop)
    (h : ∀ e r, e.Styled d styled r → styled e r) {e : Element} {r : ResolvedStyle}
    (hd : d.Derives e r) : styled e r := by
  -- A derivation is rebuilt rule by rule, with `styled` in place of the derivations it rests on.
  refine @Document.Derives.rec d (fun e r _ => styled e r)
    (fun ds style after _ => Declares d styled ds style after)
    (fun cs layers after fired _ => ChainsFire d styled cs layers after fired)
    (fun decl style text _ => decl.Gives d styled style text)
    (fun bs layers index after fired _ => FirstFires d styled bs layers index after fired)
    (fun e style v _ => e.Evaluates d styled style v)
    (fun b style holds _ => b.Decides d styled style holds)
    (fun ds layers after _ => Assigns d styled ds layers after)
    ?_ .nil ?_ ?_ .nil ?_ ?_ .literal ?_ .responsive .nil ?_ ?_ .number .str .bool ?_ ?_ ?_ ?_ ?_
    ?_ ?_ ?_ ?_ ?_ ?_ ?_ ?_ ?_ .otherwise .nil ?_ ?_ e r hd
  · intro e style layers fired _ _ hstyle hchains
    exact h e _ ⟨style, layers, fired, hstyle, hchains, rfl⟩
  · intros; exact .set ‹_› ‹_›
  · intros; exact .skip ‹_› ‹_›
  · intros; exact .dynamic ‹_› ‹_›
  · intros; exact .static ‹_› ‹_› ‹_›
  · intros; exact .expr ‹_›
  · intros; exact .here ‹_› ‹_›
  · intros; exact .later ‹_› ‹_›
  · intros; exact .declared ‹_›
  · intros; exact .keyword ‹_›
  · intros; exact .reference ‹_› ‹_› ‹_›
  · intros; exact .not ‹_›
  · intros; exact .neg ‹_›
  · intros; exact .andFalse ‹_›
  · intros; exact .andTrue ‹_› ‹_›
  · intros; exact .orTrue ‹_›
  · intros; exact .orFalse ‹_› ‹_›
  · intros; exact .compare ‹_› ‹_› ‹_› ‹_›
  · intros; exact .arithmetic ‹_› ‹_› ‹_› ‹_›
  · intros; exact .yes ‹_› ‹_›
  · intros; exact .no ‹_› ‹_›
  · intros; exact .condition ‹_›
  · intros; exact .set ‹_› ‹_›
  · intros; exact .skip ‹_› ‹_›

end Chtl
