import Chtl.Expr.Parse

/-!
# The grammar of expressions

A derivation is a tree of the rules of the grammar with a token at each of its leaves. It has the
tokens it was derived from, and the expression it stands for, in which the parentheses are gone:

    ternary   := level 1 ('?' ternary ':' ternary)?
    level n   := level (n + 1) (operator level (n + 1))*      at most once for comparisons
    level 6   := ('!' | '-') level 6 | primary
    primary   := number | string | boolean | name | reference | dynamic | '(' ternary ')'

At most one derivation has given tokens: what may follow a part never continues it.
-/

set_option autoImplicit false
set_option linter.all false

namespace Chtl

def UnaryOp.sign : UnaryOp → Expr.Sign
  | not => .not
  | neg => .minus

theorem UnaryOp.sign_injective {op op' : UnaryOp} (h : op.sign = op'.sign) : op = op' := by
  cases op <;> cases op' <;> first | rfl | cases h

/-- How a selector is written in front of a property. -/
def Selector.lexeme : Selector → Expr.Lexeme
  | id name => .hash name
  | cls name => .dot name
  | tag name => .ident name

theorem Selector.lexeme_injective {s s' : Selector} (h : s.lexeme = s'.lexeme) : s = s' := by
  cases s <;> cases s' <;> cases h <;> rfl

namespace Expr

/-! ## Derivations -/

/-- The levels of binary operators, the loosest first. -/
inductive Level where
  | disjunction
  | conjunction
  | comparison
  | sum
  | product

inductive Nonterminal where
  | ternary
  | level (l : Level)
  | unary
  | primary

namespace Level

/-- The operators of a level. -/
def ops : Level → Sign → Option BinaryOp
  | disjunction => orOps
  | conjunction => andOps
  | comparison => comparisonOps
  | sum => sumOps
  | product => productOps

/-- What the operators of a level stand between. -/
def operands : Level → Nonterminal
  | disjunction => .level conjunction
  | conjunction => .level comparison
  | comparison => .level sum
  | sum => .level product
  | product => .unary

/-- Whether a second operator of the level may follow. -/
def repeats : Level → Bool
  | comparison => false
  | _ => true

end Level

/-- What is derived: a nonterminal, or what follows the first operand of a level, with or without
room for an operator. -/
inductive Part where
  | whole (n : Nonterminal)
  | tail (l : Level) (room : Bool)

/-- A derivation. Names that are truth values stand for nothing else, and a property touches the
name it belongs to. -/
inductive Derivation : Part → Type where
  | plain (cond : Derivation (.whole (.level .disjunction))) : Derivation (.whole .ternary)
  | choice (cond : Derivation (.whole (.level .disjunction))) (question : Span)
      (yes : Derivation (.whole .ternary)) (colon : Span) (no : Derivation (.whole .ternary)) :
      Derivation (.whole .ternary)
  | row {l : Level} (first : Derivation (.whole l.operands)) (rest : Derivation (.tail l true)) :
      Derivation (.whole (.level l))
  | done {l : Level} {room : Bool} : Derivation (.tail l room)
  | more {l : Level} (s : Sign) (op : BinaryOp) (h : l.ops s = some op) (span : Span)
      (operand : Derivation (.whole l.operands)) (rest : Derivation (.tail l l.repeats)) :
      Derivation (.tail l true)
  | signed (op : UnaryOp) (span : Span) (e : Derivation (.whole .unary)) :
      Derivation (.whole .unary)
  | bare (e : Derivation (.whole .primary)) : Derivation (.whole .unary)
  | number (value : Float) (unit : String) (span : Span) : Derivation (.whole .primary)
  | str (value : String) (span : Span) : Derivation (.whole .primary)
  | dynamic (code : String) (span : Span) : Derivation (.whole .primary)
  | bool (value : Bool) (span : Span) : Derivation (.whole .primary)
  | ident (name : String) (h : name ≠ "true" ∧ name ≠ "false") (span : Span) :
      Derivation (.whole .primary)
  | reference (selector : Selector) (h : selector ≠ .tag "true" ∧ selector ≠ .tag "false")
      (span : Span) (property : String) (last : Span) (touches : last.start = span.stop) :
      Derivation (.whole .primary)
  | parens (opening : Span) (e : Derivation (.whole .ternary)) (closing : Span) :
      Derivation (.whole .primary)

/-- What a part stands for. The tail of a level continues what is in front of it. -/
def Part.Meaning : Part → Type
  | whole _ => Expr
  | tail _ _ => Expr → Expr

namespace Derivation

/-- The tokens at the leaves. -/
@[simp]
def tokens {p : Part} : Derivation p → List Token
  | plain cond => cond.tokens
  | choice cond question yes colon no => cond.tokens ++
      ⟨.sign .question, question⟩ :: (yes.tokens ++ ⟨.sign .colon, colon⟩ :: no.tokens)
  | row first rest => first.tokens ++ rest.tokens
  | done => []
  | more s _ _ span operand rest => ⟨.sign s, span⟩ :: (operand.tokens ++ rest.tokens)
  | signed op span e => ⟨.sign op.sign, span⟩ :: e.tokens
  | bare e => e.tokens
  | number value unit span => [⟨.number value unit, span⟩]
  | str value span => [⟨.str value, span⟩]
  | dynamic code span => [⟨.dynamic code, span⟩]
  | bool value span => [⟨.ident (if value then "true" else "false"), span⟩]
  | ident name _ span => [⟨.ident name, span⟩]
  | reference selector _ span property last _ =>
    [⟨selector.lexeme, span⟩, ⟨.dot property, last⟩]
  | parens opening e closing =>
    ⟨.leftParen, opening⟩ :: (e.tokens ++ [⟨.rightParen, closing⟩])

/-- The expression. Rows of operands nest to the left; parentheses only widen a span. -/
def tree : {p : Part} → Derivation p → p.Meaning
  | _, plain cond => cond.tree
  | _, choice cond _ yes _ no =>
    .ternary cond.tree yes.tree no.tree (Span.cover (Expr.span cond.tree) (Expr.span no.tree))
  | _, row first rest => rest.tree first.tree
  | _, done => id
  | _, more _ op _ _ operand rest => fun lhs =>
    rest.tree (.binary op lhs operand.tree (Span.cover lhs.span (Expr.span operand.tree)))
  | _, signed op span e => .unary op e.tree (span.cover (Expr.span e.tree))
  | _, bare e => e.tree
  | _, number value unit span => Expr.number value unit span
  | _, str value span => Expr.str value span
  | _, dynamic code span => Expr.dynamic code span
  | _, bool value span => Expr.bool value span
  | _, ident name _ span => Expr.ident name span
  | _, reference selector _ span property last _ =>
    Expr.reference selector property (span.cover last)
  | _, parens opening e closing => Expr.withSpan (opening.cover closing) e.tree

end Derivation

/-! ## What may follow -/

/-- How tightly a lexeme takes hold of what is in front of it. What begins an operand has to be kept
apart from it. -/
def Lexeme.grip : Lexeme → Nat
  | .rightParen | .sign .colon => 0
  | .sign .question => 1
  | .sign .or => 2
  | .sign .and => 3
  | .sign .ge | .sign .le | .sign .gt | .sign .lt | .sign .eq | .sign .ne => 4
  | .sign .plus | .sign .minus => 5
  | .sign .times | .sign .divide => 6
  | _ => 7

/-- How tight a lexeme may be that follows a level. -/
def Level.grip : Level → Nat
  | disjunction => 1
  | conjunction => 2
  | comparison => 3
  | sum => 4
  | product => 5

def Nonterminal.grip : Nonterminal → Nat
  | ternary => 0
  | level l => l.grip
  | unary | primary => 6

def Part.grip : Part → Nat
  | whole n => n.grip
  | tail l _ => l.grip

/-- The tokens do not begin with a lexeme that is tighter. -/
def Clear (grip : Nat) (ts : List Token) : Prop :=
  ∀ t ∈ ts.head?, t.lexeme.grip ≤ grip

theorem clear_nil (grip : Nat) : Clear grip [] := by
  simp [Clear]

theorem clear_cons {grip : Nat} {t : Token} {ts : List Token} :
    Clear grip (t :: ts) ↔ t.lexeme.grip ≤ grip := by
  simp [Clear]

theorem Clear.mono {grip wider : Nat} {ts : List Token} (h : Clear grip ts) (hle : grip ≤ wider) :
    Clear wider ts :=
  fun t ht => Nat.le_trans (h t ht) hle

namespace Level

variable {l : Level}

theorem grip_of_ops {s : Sign} {op : BinaryOp} (h : l.ops s = some op) :
    (Lexeme.sign s).grip = l.grip + 1 := by
  cases l <;> cases s <;> first | rfl | cases h

theorem grip_operands (l : Level) : l.operands.grip = l.grip + 1 := by
  cases l <;> rfl

end Level

namespace Derivation

/-- Behind an operand of a level there is an operator of the level, or what follows the level. -/
theorem clear_tail {l : Level} {room : Bool} (d : Derivation (.tail l room)) {rest : List Token}
    (h : Clear l.grip rest) : Clear l.operands.grip (d.tokens ++ rest) := by
  rw [l.grip_operands]
  cases d with
  | done => exact h.mono (Nat.le_succ _)
  | more s op hop => exact clear_cons.mpr (Nat.le_of_eq (Level.grip_of_ops hop))

theorem cons_token_inj {x y : Lexeme} {span span' : Span} {ts ts' : List Token}
    (h : (⟨x, span⟩ :: ts : List Token) = ⟨y, span'⟩ :: ts') : x = y ∧ span = span' ∧ ts = ts' := by
  injection h with hfirst hrest
  injection hfirst with hlexeme hspan
  exact ⟨hlexeme, hspan, hrest⟩

/-- An operand does not begin with a sign. -/
theorem head_primary (d : Derivation (.whole .primary)) (rest : List Token) (s : Sign) (span : Span)
    (more : List Token) : d.tokens ++ rest ≠ ⟨.sign s, span⟩ :: more := by
  intro h
  cases d with
  | reference selector => cases selector <;> cases (cons_token_inj h).1
  | _ => cases (cons_token_inj h).1

/-- What follows a level is no operator of the level. -/
theorem not_clear_more {l : Level} {s : Sign} {op : BinaryOp} (h : l.ops s = some op) {span : Span}
    {ts : List Token} : ¬ Clear l.grip (⟨.sign s, span⟩ :: ts) := by
  rw [clear_cons, Level.grip_of_ops h]
  omega

/-- Whether a derivation is an operand without parentheses. -/
def isLeaf {p : Part} : Derivation p → Bool
  | number .. | str .. | dynamic .. | bool .. | ident .. | reference .. => true
  | _ => false

/-- The word for a truth value stands for this value, and for nothing else. -/
theorem boolWord_injective {value value' : Bool}
    (h : (if value then "true" else "false") = if value' then "true" else "false") :
    value = value' := by
  revert value value'
  decide

theorem boolWord_ne {value : Bool} {name : String} (h : name ≠ "true" ∧ name ≠ "false") :
    (if value then "true" else "false") ≠ name := by
  cases value
  · exact h.2.symm
  · exact h.1.symm

/-- The first token of an operand says what the operand is; a name is followed by a property exactly
if it is a reference. -/
theorem eq_of_leaf {d d' : Derivation (.whole .primary)} (hleaf : d.isLeaf = true)
    {rest rest' : List Token} (h : d.tokens ++ rest = d'.tokens ++ rest')
    (hr : Clear 6 rest) (hr' : Clear 6 rest') : d = d' ∧ rest = rest' := by
  have hdot {name : String} {span : Span} {ts after : List Token}
      (hafter : ⟨.dot name, span⟩ :: ts = after) : ¬ Clear 6 after := by
    subst hafter
    exact fun hclear => absurd (clear_cons.mp hclear) (show ¬ 7 ≤ 6 by decide)
  cases d with
  | parens => cases hleaf
  | number | str | dynamic =>
    cases d' with
    | reference selector => cases selector <;> cases (cons_token_inj h).1
    | _ =>
      obtain ⟨hlexeme, rfl, hrest⟩ := cons_token_inj h
      cases hlexeme <;> exact ⟨rfl, hrest⟩
  | bool value span =>
    cases d' with
    | bool value' =>
      obtain ⟨hlexeme, rfl, hrest⟩ := cons_token_inj h
      cases boolWord_injective (Lexeme.ident.inj hlexeme)
      exact ⟨rfl, hrest⟩
    | ident name hname => exact absurd (Lexeme.ident.inj (cons_token_inj h).1) (boolWord_ne hname)
    | reference selector =>
      cases selector with
      | tag => exact absurd hr (hdot (cons_token_inj h).2.2.symm)
      | _ => cases (cons_token_inj h).1
    | _ => cases (cons_token_inj h).1
  | ident name hname =>
    cases d' with
    | bool => exact absurd (Lexeme.ident.inj (cons_token_inj h).1).symm (boolWord_ne hname)
    | ident =>
      obtain ⟨hlexeme, rfl, hrest⟩ := cons_token_inj h
      cases hlexeme
      exact ⟨rfl, hrest⟩
    | reference selector =>
      cases selector with
      | tag => exact absurd hr (hdot (cons_token_inj h).2.2.symm)
      | _ => cases (cons_token_inj h).1
    | _ => cases (cons_token_inj h).1
  | reference selector =>
    cases d' with
    | bool | ident =>
      cases selector with
      | tag => exact absurd hr' (hdot (cons_token_inj h).2.2)
      | _ => cases (cons_token_inj h).1
    | reference selector' =>
      obtain ⟨hselector, rfl, hmore⟩ := cons_token_inj h
      obtain ⟨hproperty, rfl, hrest⟩ := cons_token_inj hmore
      cases Selector.lexeme_injective hselector
      cases hproperty
      exact ⟨rfl, hrest⟩
    | _ => cases selector <;> cases (cons_token_inj h).1

/-- Where the first of two texts ends, the second ends as well: neither rest continues its part. -/
theorem eq_of_tokens_append {p : Part} {d d' : Derivation p} {rest rest' : List Token}
    (h : d.tokens ++ rest = d'.tokens ++ rest') (hr : Clear p.grip rest)
    (hr' : Clear p.grip rest') :
    d = d' ∧ rest = rest' := by
  induction d generalizing rest rest' with
  | plain cond ih =>
    cases d' with
    | plain cond' =>
      obtain ⟨rfl, rfl⟩ := ih h (hr.mono (Nat.zero_le _)) (hr'.mono (Nat.zero_le _))
      exact ⟨rfl, rfl⟩
    | choice cond' question yes colon no =>
      simp only [tokens, List.append_assoc, List.cons_append] at h
      obtain ⟨-, rfl⟩ := ih h (hr.mono (Nat.zero_le _)) (clear_cons.mpr (Nat.le_refl _))
      exact absurd (clear_cons.mp hr) (Nat.not_succ_le_zero _)
  | choice cond question yes colon no ihc ihy ihn =>
    simp only [tokens, List.append_assoc, List.cons_append] at h
    cases d' with
    | plain cond' =>
      obtain ⟨-, rfl⟩ := ihc h (clear_cons.mpr (Nat.le_refl _)) (hr'.mono (Nat.zero_le _))
      exact absurd (clear_cons.mp hr') (Nat.not_succ_le_zero _)
    | choice cond' question' yes' colon' no' =>
      simp only [tokens, List.append_assoc, List.cons_append] at h
      obtain ⟨rfl, hyes⟩ := ihc h (clear_cons.mpr (Nat.le_refl _)) (clear_cons.mpr (Nat.le_refl _))
      injection hyes with hquestion hyes
      cases hquestion
      obtain ⟨rfl, hno⟩ :=
        ihy hyes (clear_cons.mpr (Nat.le_refl _)) (clear_cons.mpr (Nat.le_refl _))
      injection hno with hcolon hno
      cases hcolon
      obtain ⟨rfl, rfl⟩ := ihn hno hr hr'
      exact ⟨rfl, rfl⟩
  | row first more ihf ihr =>
    cases d' with
    | row first' more' =>
      rw [tokens, tokens, List.append_assoc, List.append_assoc] at h
      obtain ⟨rfl, hmore⟩ := ihf h (more.clear_tail hr) (more'.clear_tail hr')
      obtain ⟨rfl, rfl⟩ := ihr hmore hr hr'
      exact ⟨rfl, rfl⟩
  | done =>
    cases d' with
    | done => exact ⟨rfl, h⟩
    | more s op hop =>
      rw [tokens, List.nil_append] at h
      exact absurd (h ▸ hr) (not_clear_more hop)
  | more s op hop span operand more iho ihm =>
    cases d' with
    | done =>
      rw [tokens, tokens, List.nil_append] at h
      exact absurd (h ▸ hr') (not_clear_more hop)
    | more s' op' hop' span' operand' more' =>
      simp only [tokens, List.append_assoc, List.cons_append] at h
      injection h with hsign h
      cases hsign
      cases hop.symm.trans hop'
      obtain ⟨rfl, hmore⟩ := iho h (more.clear_tail hr) (more'.clear_tail hr')
      obtain ⟨rfl, rfl⟩ := ihm hmore hr hr'
      exact ⟨rfl, rfl⟩
  | signed op span e ih =>
    cases d' with
    | signed op' span' e' =>
      simp only [tokens, List.cons_append] at h
      injection h with hsign h
      injection hsign with hsign hspan
      cases UnaryOp.sign_injective (Lexeme.sign.inj hsign)
      cases hspan
      obtain ⟨rfl, rfl⟩ := ih h hr hr'
      exact ⟨rfl, rfl⟩
    | bare e' => exact absurd h.symm (head_primary e' _ _ _ _)
  | bare e ih =>
    cases d' with
    | signed op' span' e' => exact absurd h (head_primary e _ _ _ _)
    | bare e' =>
      obtain ⟨rfl, rfl⟩ := ih h hr hr'
      exact ⟨rfl, rfl⟩
  | parens opening e closing ih =>
    cases d' with
    | parens opening' e' closing' =>
      simp only [tokens, List.append_assoc, List.cons_append, List.nil_append] at h
      injection h with hopening h
      cases hopening
      obtain ⟨rfl, hclosing⟩ :=
        ih h (clear_cons.mpr (Nat.le_refl _)) (clear_cons.mpr (Nat.le_refl _))
      injection hclosing with hclosing hrest
      cases hclosing
      exact ⟨rfl, hrest⟩
    | reference selector => cases selector <;> cases (cons_token_inj h).1
    | _ => cases (cons_token_inj h).1
  | number | str | dynamic | bool | ident | reference => exact eq_of_leaf rfl h hr hr'

end Derivation

end Expr

end Chtl
