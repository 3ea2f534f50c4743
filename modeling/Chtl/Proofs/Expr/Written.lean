import Chtl.Proofs.Expr.Reading
import Chtl.Proofs.Expr.Words

/-!
# Reading what was written

The words of a form are derived from the tightest part of the grammar that the form is, by induction
on the form: a looser place takes over what is tighter as it is, and parentheses bring what is
looser into any place. The text of a form is then read as its tree, whatever offset it starts at.
No pair of parentheses can be left out.
-/

set_option autoImplicit false
set_option linter.all false

namespace Chtl.Expr

/-! ## Places -/

namespace Nonterminal

/-- What a part of the grammar takes over as it is. -/
def within : Nonterminal → Nonterminal
  | ternary => .level .disjunction
  | level l => l.operands
  | unary | primary => .primary

theorem grip_le (n : Nonterminal) : n.grip ≤ 6 := by
  cases n with
  | level l => cases l <;> decide
  | _ => decide

theorem grip_within {place : Nonterminal} (h : place.grip < 6) :
    place.within.grip = place.grip + 1 ∧ place.within ≠ .primary := by
  cases place with
  | ternary => exact ⟨rfl, nofun⟩
  | level l => exact ⟨l.grip_operands, by cases l <;> exact nofun⟩
  | unary | primary => exact absurd h (Nat.lt_irrefl 6)

theorem eq_of_grip_eq {place n : Nonterminal} (hplace : place ≠ .primary)
    (h : place.grip = n.grip) : n = place ∨ n = .primary ∧ place = .unary := by
  cases place with
  | primary => exact absurd rfl hplace
  | ternary | unary => cases n with
    | level l => cases l <;> cases h
    | _ => cases h <;> simp
  | level l => cases n with
    | level l' => cases l <;> cases l' <;> first | exact .inl rfl | cases h
    | _ => cases l <;> cases h

end Nonterminal

namespace Derivation

/-- Whether the derivation is taken over from a tighter part of the grammar. -/
def isLifted : {p : Part} → Derivation p → Bool
  | _, plain _ | _, row _ done | _, bare _ => true
  | _, _ => false

def lift : {n : Nonterminal} → Derivation (.whole n.within) → Derivation (.whole n)
  | .ternary, d => .plain d
  | .level _, d => .row d .done
  | .unary, d => .bare d
  | .primary, d => d

theorem lift_eq {n : Nonterminal} (d : Derivation (.whole n.within)) :
    (lift d).tokens = d.tokens ∧ (lift d).tree = d.tree := by
  cases n with
  | level => exact ⟨List.append_nil _, rfl⟩
  | _ => exact ⟨rfl, rfl⟩

theorem isLifted_lift {n : Nonterminal} (hn : n ≠ .primary) (d : Derivation (.whole n.within)) :
    (lift d).isLifted = true := by
  cases n with
  | primary => exact absurd rfl hn
  | _ => rfl

/-- A place takes over what is not looser. -/
theorem exists_of_grip_le {n place : Nonterminal} (d : Derivation (.whole n))
    (hplace : place ≠ .primary) (hle : place.grip ≤ n.grip) :
    ∃ d' : Derivation (.whole place), d'.tokens = d.tokens ∧ d'.tree = d.tree := by
  rcases Nat.eq_or_lt_of_le hle with heq | hlt
  · obtain rfl | ⟨rfl, rfl⟩ := Nonterminal.eq_of_grip_eq hplace heq
    · exact ⟨d, rfl, rfl⟩
    · exact ⟨.bare d, rfl, rfl⟩
  · obtain ⟨hgrip, hne⟩ := Nonterminal.grip_within (Nat.lt_of_lt_of_le hlt n.grip_le)
    obtain ⟨d', htokens, htree⟩ := d.exists_of_grip_le hne (by omega)
    obtain ⟨htokens', htree'⟩ := d'.lift_eq
    exact ⟨lift d', htokens'.trans htokens, htree'.trans htree⟩
termination_by n.grip - place.grip

variable {l : Level} {s : Sign} {op : BinaryOp}

/-- One more operator may stand at the end of a level that repeats. -/
theorem exists_snoc {room : Bool} (d : Derivation (.tail l room)) (hrepeats : l.repeats = true)
    (hop : l.ops s = some op) (span : Span) (operand : Derivation (.whole l.operands)) :
    ∃ d' : Derivation (.tail l true),
      d'.tokens = d.tokens ++ ⟨.sign s, span⟩ :: operand.tokens ∧
        ∀ lhs, ∃ whole, d'.tree lhs = .binary op (d.tree lhs) operand.tree whole := by
  match d with
  | .done => exact ⟨.more s op hop span operand .done, by simp, fun lhs => ⟨_, rfl⟩⟩
  | .more s' op' hop' span' operand' rest =>
    have hrest := rest.exists_snoc hrepeats hop span operand
    -- behind an operator a tail has room only where the level repeats
    rw [← hrepeats] at hrest
    obtain ⟨d', htokens, htree⟩ := hrest
    exact ⟨.more s' op' hop' span' operand' d', by simp [htokens], fun lhs => htree _⟩
termination_by sizeOf d

theorem exists_binary (d : Derivation (.whole l.left)) (hop : l.ops s = some op) (span : Span)
    (operand : Derivation (.whole l.operands)) :
    ∃ d' : Derivation (.whole (.level l)), d'.isLifted = false ∧
      d'.tokens = d.tokens ++ ⟨.sign s, span⟩ :: operand.tokens ∧
        ∃ whole, d'.tree = .binary op d.tree operand.tree whole := by
  by_cases hrepeats : l.repeats = true
  · have hleft : l.left = .level l := if_pos hrepeats
    generalize l.left = n at d hleft
    subst hleft
    cases d with
    | row first rest =>
      obtain ⟨rest', htokens, htree⟩ := rest.exists_snoc hrepeats hop span operand
      refine ⟨.row first rest', ?_, by simp [htokens], htree first.tree⟩
      cases rest' with
      | done => simp at htokens
      | more => rfl
  · have hleft : l.left = l.operands := if_neg hrepeats
    generalize l.left = n at d hleft
    subst hleft
    exact ⟨.row d (.more s op hop span operand .done), rfl, by simp, _, rfl⟩

end Derivation

/-! ## What words stand for -/

/-- Wherever the words stand, they are derived from the nonterminal, for the expression without its
spans. -/
def Spells (n : Nonterminal) (ws : List Word) (e : Expr) : Prop :=
  ∀ offset, ∃ d : Derivation (.whole n), d.tokens = layout offset ws ∧ unplaced d.tree = e

/-- The words are derived, and not as a tighter part of the grammar. -/
def Builds (n : Nonterminal) (ws : List Word) (e : Expr) : Prop :=
  ∀ offset, ∃ d : Derivation (.whole n), d.isLifted = false ∧ d.tokens = layout offset ws ∧
    unplaced d.tree = e

variable {ws vs us : List Word} {a b c : Expr} {n place : Nonterminal}

theorem Builds.spells (h : Builds n ws a) : Spells n ws a := fun offset =>
  let ⟨d, _, hd⟩ := h offset
  ⟨d, hd⟩

theorem Spells.of_grip_le (h : Spells n ws a) (hplace : place ≠ .primary)
    (hle : place.grip ≤ n.grip) : Spells place ws a := by
  intro offset
  obtain ⟨d, htokens, htree⟩ := h offset
  obtain ⟨d', htokens', htree'⟩ := d.exists_of_grip_le hplace hle
  exact ⟨d', htokens'.trans htokens, (congrArg unplaced htree').trans htree⟩

theorem layout_sign (offset : Nat) (ws : List Word) (s : Sign) (vs : List Word) :
    ∃ span next, layout offset (ws ++ .sign s :: vs) =
      layout offset ws ++ ⟨.sign s, span⟩ :: layout next vs := by
  obtain ⟨next, hnext⟩ := layout_append offset ws (.sign s :: vs)
  exact ⟨_, _, hnext⟩

theorem builds_parens (h : Spells .ternary ws a) :
    Builds .primary (Word.opening :: (ws ++ [Word.closing])) a := by
  intro offset
  obtain ⟨next, hnext⟩ := layout_append (offset + 1 + 1) ws [.closing]
  obtain ⟨d, htokens, htree⟩ := h (offset + 1 + 1)
  refine ⟨.parens ⟨offset, offset + 1⟩ d ⟨next, next + 1⟩, rfl, ?_, ?_⟩
  · rw [Derivation.tokens, htokens, layout]
    exact congrArg (_ :: ·) hnext.symm
  · exact (unplaced_withSpan _ _).trans htree

theorem builds_unary (op : UnaryOp) (h : Spells .unary ws a) :
    Builds .unary (.sign op.sign :: ws) (.unary op a (.point 0)) := by
  intro offset
  obtain ⟨span, next, hlayout⟩ := layout_sign offset [] op.sign ws
  obtain ⟨d, htokens, rfl⟩ := h next
  refine ⟨.signed op span d, rfl, ?_, rfl⟩
  rw [Derivation.tokens, htokens]
  exact hlayout.symm

theorem builds_binary (op : BinaryOp) (ha : Spells op.rank.left ws a)
    (hb : Spells op.rank.operands vs b) :
    Builds (.level op.rank) (ws ++ .sign op.sign :: vs) (.binary op a b (.point 0)) := by
  intro offset
  obtain ⟨span, next, hlayout⟩ := layout_sign offset ws op.sign vs
  obtain ⟨lhs, hlhs, rfl⟩ := ha offset
  obtain ⟨rhs, hrhs, rfl⟩ := hb next
  obtain ⟨d, hlifted, htokens, whole, htree⟩ := lhs.exists_binary (ops_sign op) span rhs
  exact ⟨d, hlifted, by rw [htokens, hlhs, hrhs, hlayout], congrArg unplaced htree⟩

theorem builds_ternary (ha : Spells (.level .disjunction) ws a) (hb : Spells .ternary vs b)
    (hc : Spells .ternary us c) :
    Builds .ternary (ws ++ .sign .question :: (vs ++ .sign .colon :: us))
      (.ternary a b c (.point 0)) := by
  intro offset
  obtain ⟨question, next, hquestion⟩ :=
    layout_sign offset ws .question (vs ++ .sign .colon :: us)
  obtain ⟨colon, last, hcolon⟩ := layout_sign next vs .colon us
  obtain ⟨cond, hcond, rfl⟩ := ha offset
  obtain ⟨yes, hyes, rfl⟩ := hb next
  obtain ⟨no, hno, rfl⟩ := hc last
  refine ⟨.choice cond question yes colon no, rfl, ?_, rfl⟩
  rw [Derivation.tokens, hcond, hyes, hno, hquestion, hcolon]

/-! ## Atoms -/

theorem Identifier.Free.ne {name : Identifier} (h : name.Free) :
    String.ofList name.text ≠ "true" ∧ String.ofList name.text ≠ "false" :=
  ⟨fun heq => h.1 (String.ofList_injective heq), fun heq => h.2 (String.ofList_injective heq)⟩

theorem Target.selector_ne (t : Target) :
    t.selector ≠ .tag "true" ∧ t.selector ≠ .tag "false" := by
  cases t with
  | tag name free => simpa [selector] using free.ne
  | id | cls => exact ⟨nofun, nofun⟩

theorem Atom.builds (a : Atom) : Builds .primary [.atom a] a.tree := by
  intro offset
  let span : Span := ⟨offset, offset + Text.size a.text⟩
  cases a with
  | number n unit => exact ⟨.number n.value (String.ofList unit.text) span, rfl, rfl, rfl⟩
  | str value => exact ⟨.str value span, rfl, rfl, rfl⟩
  | bool value => exact ⟨.bool value span, rfl, rfl, rfl⟩
  | ident name free => exact ⟨.ident (String.ofList name.text) free.ne span, rfl, rfl, rfl⟩
  | reference target property =>
    let touch := offset + Text.size target.text
    let last : Span := ⟨touch, touch + Text.size ('.' :: property.text)⟩
    exact ⟨.reference target.selector target.selector_ne ⟨offset, touch⟩
      (String.ofList property.text) last rfl, rfl, rfl, rfl⟩
  | dynamic code => exact ⟨.dynamic (String.ofList code.text) span, rfl, rfl, rfl⟩

/-! ## Forms -/

theorem Level.left_ne_primary (l : Level) : l.left ≠ .primary := by
  cases l <;> exact nofun

theorem Level.operands_ne_primary (l : Level) : l.operands ≠ .primary := by
  cases l <;> exact nofun

namespace Form

variable {f : Form}

/-- A form in a place, given that its words are derived. -/
theorem spells_enclose (h : Builds f.kind f.words f.tree) (hplace : place ≠ .primary) :
    Spells place (f.enclose place f.words) f.tree := by
  unfold enclose
  split_ifs with hle
  · exact h.spells.of_grip_le hplace hle
  · have hternary : Spells .ternary f.words f.tree := h.spells.of_grip_le nofun (Nat.zero_le _)
    exact (builds_parens hternary).spells.of_grip_le hplace place.grip_le

theorem builds (f : Form) : Builds f.kind f.words f.tree := by
  induction f with
  | atom a => exact a.builds
  | unary op e ih => exact builds_unary op (spells_enclose ih nofun)
  | binary op l r ihl ihr =>
    exact builds_binary op (spells_enclose ihl op.rank.left_ne_primary)
      (spells_enclose ihr op.rank.operands_ne_primary)
  | ternary c y n ihc ihy ihn =>
    exact builds_ternary (spells_enclose ihc nofun) (spells_enclose ihy nofun)
      (spells_enclose ihn nofun)

/-- A place takes the words of a form without parentheses exactly if the form is not looser. -/
theorem derived_iff (f : Form) (offset : Nat) (hplace : place ≠ .primary) :
    (∃ d : Derivation (.whole place), d.tokens = layout offset f.words) ↔
      place.grip ≤ f.kind.grip := by
  obtain ⟨own, hlifted, htokens, -⟩ := f.builds offset
  constructor
  · rintro ⟨d, hd⟩
    by_contra hlt
    have hgrip : f.kind.grip < 6 := Nat.lt_of_lt_of_le (Nat.not_le.mp hlt) place.grip_le
    have hkind : f.kind ≠ .primary := by
      intro heq
      rw [heq] at hgrip
      exact absurd hgrip (Nat.lt_irrefl 6)
    obtain ⟨hwithin, hne⟩ := Nonterminal.grip_within hgrip
    obtain ⟨inner, hinner, -⟩ := d.exists_of_grip_le hne (by omega)
    -- lifted, it would be the derivation that the form has of its own
    have heq : (Derivation.lift inner).tokens = own.tokens := by
      rw [inner.lift_eq.1, hinner, hd, htokens]
    obtain ⟨rfl, -⟩ := Derivation.eq_of_tokens_append (congrArg (· ++ []) heq) (clear_nil _)
      (clear_nil _)
    exact Bool.false_ne_true (hlifted.symm.trans (Derivation.isLifted_lift hkind inner))
  · intro hle
    obtain ⟨d, hd, -⟩ := own.exists_of_grip_le hplace hle
    exact ⟨d, hd.trans htokens⟩

end Form

/-- What was written as the text of a form is read as the tree of the form, whatever offset the text
starts at. -/
theorem parse_text (f : Form) (base : Nat) :
    ∃ e, parse f.text base = .ok e ∧ e.unplaced = f.tree := by
  have hwords : Spells .ternary f.words f.tree :=
    f.builds.spells.of_grip_le nofun (Nat.zero_le _)
  obtain ⟨d, htokens, htree⟩ := hwords base
  refine ⟨d.tree, ?_, htree⟩
  unfold parse Form.text
  rw [tokens_spaced]
  exact ofTokens_eq_ok_iff.mpr ⟨d, htokens, rfl⟩

example :
    let width : Form := .atom (.reference (.id ⟨['b', '-', '2'], rfl, rfl⟩) ⟨⟨['w'], rfl, rfl⟩, rfl⟩)
    let gap : Form := .atom (.number ⟨[], ['5'], rfl, by simp⟩ ⟨['e', 'm'], .inr rfl⟩)
    (Form.binary .mul (.binary .sub width (.unary .neg gap)) gap).text =
      "( #b-2.w - - .5em ) * .5em".toList := by
  decide

end Chtl.Expr
