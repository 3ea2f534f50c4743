import Chtl.Proofs.Expr.Spans
import Mathlib.Tactic.SplitIfs

/-!
# Expressions at another place

The place of a text in its source is added to the spans and goes into nothing else. A text that is
read further on gives the same expression or the same fault, with all spans moved: every reader of
the grammar takes moved tokens to a moved reading, if the readers it calls do.
-/

set_option autoImplicit false
set_option linter.all false

namespace Chtl

namespace Span

theorem shift_cover (a b : Span) (n : Nat) : (a.cover b).shift n = (a.shift n).cover (b.shift n) := by
  simp only [cover, shift, Nat.add_min_add_right, Nat.add_max_add_right]

theorem shift_point (offset n : Nat) : (point offset).shift n = point (offset + n) := rfl

end Span

/-- The fault further on in the source. -/
def ExprError.shift (n : Nat) (e : ExprError) : ExprError := ⟨e.fault, e.span.shift n⟩

namespace Expr

/-- The expression further on in the source. -/
def shift (n : Nat) : Expr → Expr
  | number v u s => number v u (s.shift n)
  | str v s => str v (s.shift n)
  | bool v s => bool v (s.shift n)
  | ident name s => ident name (s.shift n)
  | reference sel p s => reference sel p (s.shift n)
  | dynamic c s => dynamic c (s.shift n)
  | unary op e s => unary op (e.shift n) (s.shift n)
  | binary op l r s => binary op (l.shift n) (r.shift n) (s.shift n)
  | ternary c y no s => ternary (c.shift n) (y.shift n) (no.shift n) (s.shift n)

variable {n : Nat}

theorem span_shift (e : Expr) : (e.shift n).span = e.span.shift n := by
  cases e <;> rfl

theorem shift_withSpan (e : Expr) (s : Span) :
    (e.withSpan s).shift n = (e.shift n).withSpan (s.shift n) := by
  cases e <;> rfl

/-- The outcome further on in the source. -/
def shiftOutcome (n : Nat) : Except ExprError Expr → Except ExprError Expr
  | .ok e => .ok (e.shift n)
  | .error e => .error (e.shift n)

/-! ## Tokens -/

def Token.shift (n : Nat) (t : Token) : Token := ⟨t.lexeme, t.span.shift n⟩

def shiftTokens (n : Nat) (ts : List Token) : List Token := ts.map (Token.shift n)

@[simp] theorem shiftTokens_nil : shiftTokens n [] = [] := rfl

@[simp] theorem shiftTokens_cons (lexeme : Lexeme) (span : Span) (ts : List Token) :
    shiftTokens n (⟨lexeme, span⟩ :: ts) = ⟨lexeme, span.shift n⟩ :: shiftTokens n ts := rfl

@[simp] theorem length_shiftTokens (ts : List Token) : (shiftTokens n ts).length = ts.length :=
  List.length_map _

theorem tokens_shift (n offset : Nat) (cs : List Char) :
    tokens (offset + n) cs =
      match tokens offset cs with
      | .ok ts => .ok (shiftTokens n ts)
      | .error e => .error (e.shift n) := by
  fun_induction tokens offset cs with
  | case1 => exact tokens_nil _
  | case2 offset c rest hblank ih =>
    rw [tokens_blank _ hblank, Nat.add_right_comm, ih]
  | case3 offset c rest hblank fault k hlexeme =>
    rw [tokens_fault _ hblank hlexeme]
    simp only [ExprError.shift, Span.shift, Nat.add_right_comm]
  | case4 offset c rest hblank lexeme k hlexeme stop ih =>
    have hstop : offset + n + Text.size (c :: rest.take k) = stop + n := Nat.add_right_comm ..
    rw [tokens_lexeme _ hblank hlexeme, hstop, ih]
    cases tokens stop (rest.drop k) <;> rfl

/-! ## Readings -/

/-- The reading further on in the source. -/
def shiftReading (n : Nat) : Reading → Reading
  | .ok (e, ts) => .ok (e.shift n, shiftTokens n ts)
  | .error e => .error (e.shift n)

/-- What the second reader reads from moved tokens is what the first one reads, moved. -/
def Moves (n : Nat) (read read' : List Token → Reading) : Prop :=
  ∀ ts, read' (shiftTokens n ts) = shiftReading n (read ts)

variable {stop : Span} {nested nested' next next' : List Token → Reading}

theorem nextSpan_shift (ts : List Token) :
    nextSpan (stop.shift n) (shiftTokens n ts) = (nextSpan stop ts).shift n := by
  cases ts <;> rfl

theorem attached?_shift (offset : Nat) (ts : List Token) :
    attached? (offset + n) (shiftTokens n ts) =
      (attached? offset ts).map fun r => (r.1, r.2.1.shift n, shiftTokens n r.2.2) := by
  cases ts with
  | nil => rfl
  | cons t ts =>
    obtain ⟨lexeme, span⟩ := t
    cases lexeme with
    | dot name =>
      simp only [shiftTokens_cons, attached?, Span.shift, Nat.add_right_cancel_iff]
      split_ifs <;> rfl
    | _ => rfl

theorem moves_operand (hnested : Moves n nested nested') :
    Moves n (operand stop nested) (operand (stop.shift n) nested') := by
  intro ts
  cases ts with
  | nil => rfl
  | cons t ts =>
    obtain ⟨lexeme, span⟩ := t
    have hattached : attached? (span.shift n).stop (shiftTokens n ts) = _ :=
      attached?_shift span.stop ts
    rw [shiftTokens_cons]
    cases lexeme with
    | ident name =>
      rw [operand, operand, hattached]
      split_ifs
      · rfl
      · cases attached? span.stop ts with
        | none => rfl
        | some r => simp [shiftReading, shift, Span.shift_cover]
    | hash name | dot name =>
      rw [operand, operand, hattached]
      cases attached? span.stop ts with
      | none => rfl
      | some r => simp [shiftReading, shift, Span.shift_cover]
    | leftParen =>
      rw [operand, operand, hnested ts]
      cases nested ts with
      | error e => rfl
      | ok r =>
        obtain ⟨inner, more⟩ := r
        cases more with
        | nil => rfl
        | cons t more =>
          obtain ⟨lexeme, close⟩ := t
          cases lexeme with
          | rightParen => simp [shiftReading, shift_withSpan, Span.shift_cover]
          | _ => rfl
    | _ => rfl

theorem moves_signed (hnested : Moves n nested nested') :
    Moves n (signed stop nested) (signed (stop.shift n) nested') := by
  intro ts
  have hsign (op : UnaryOp) (span : Span) (read : Reading) :
      (shiftReading n read).map (fun r => (.unary op r.1 ((span.shift n).cover r.1.span), r.2)) =
        shiftReading n (read.map fun r => (.unary op r.1 (span.cover r.1.span), r.2)) := by
    cases read with
    | error e => rfl
    | ok r => simp [shiftReading, Except.map, shift, span_shift, Span.shift_cover]
  fun_induction signed stop nested ts with
  | case1 span ts ih => exact (congrArg (Except.map _) ih).trans (hsign .not span _)
  | case2 span ts ih => exact (congrArg (Except.map _) ih).trans (hsign .neg span _)
  | case3 ts hnot hneg =>
    have hoperand : signed (stop.shift n) nested' (shiftTokens n ts) =
        operand (stop.shift n) nested' (shiftTokens n ts) := by
      cases ts with
      | nil => rfl
      | cons t ts =>
        obtain ⟨lexeme, span⟩ := t
        cases lexeme with
        | sign s =>
          cases s with
          | not => exact absurd rfl (hnot span ts)
          | minus => exact absurd rfl (hneg span ts)
          | _ => rfl
        | _ => rfl
    rw [hoperand]
    exact moves_operand hnested ts

theorem extend_shift (hnext : Moves n next next') (ops : Sign → Option BinaryOp) (k : Nat)
    (lhs : Expr) (ts : List Token) :
    extend ops next' k (lhs.shift n) (shiftTokens n ts) =
      shiftReading n (extend ops next k lhs ts) := by
  fun_induction extend ops next k lhs ts with
  | case1 k lhs s span ts hop =>
    rw [shiftTokens_cons, extend, hop]
    rfl
  | case2 k lhs s span ts op hop e hread =>
    rw [shiftTokens_cons, extend, hop]
    dsimp only
    rw [hnext ts, hread]
    rfl
  | case3 k lhs s span ts op hop rhs more hread ih =>
    rw [shiftTokens_cons, extend, hop]
    dsimp only
    rw [hnext ts, hread]
    rw [shift, Span.shift_cover, ← span_shift, ← span_shift] at ih
    exact ih
  | case4 k lhs ts hstop =>
    cases k with
    | zero => rfl
    | succ k =>
      cases ts with
      | nil => rfl
      | cons t ts =>
        obtain ⟨lexeme, span⟩ := t
        cases lexeme with
        | sign s => exact absurd rfl (hstop k s span ts rfl)
        | _ => rfl

theorem moves_level (hnext : Moves n next next') (ops : Sign → Option BinaryOp)
    {limit : List Token → Nat} (hlimit : ∀ ts, limit (shiftTokens n ts) = limit ts) :
    Moves n (level ops next limit) (level ops next' limit) := by
  intro ts
  rw [level, level, hnext ts]
  cases next ts with
  | error e => rfl
  | ok r =>
    simp only [shiftReading, hlimit]
    exact extend_shift hnext ops _ r.1 r.2

theorem moves_disjunction (hnested : Moves n nested nested') :
    Moves n (disjunction stop nested) (disjunction (stop.shift n) nested') :=
  have hlength := @length_shiftTokens n
  moves_level (moves_level (moves_level (moves_level (moves_level (moves_signed hnested)
    productOps hlength) sumOps hlength) comparisonOps fun _ => rfl) andOps hlength) orOps hlength

theorem moves_conditional (stop : Span) (depth : Nat) :
    Moves n (conditional stop depth) (conditional (stop.shift n) depth) := by
  induction depth with
  | zero =>
    intro ts
    rw [conditional, conditional, nextSpan_shift]
    rfl
  | succ depth ih =>
    intro ts
    rw [conditional, conditional, moves_disjunction ih ts]
    cases disjunction stop (conditional stop depth) ts with
    | error e => rfl
    | ok r =>
      obtain ⟨cond, _ | ⟨⟨lexeme, mark⟩, rest⟩⟩ := r
      · rfl
      -- what is no question mark ends the reading on both sides
      cases lexeme with
      | sign s =>
        cases s with
        | question =>
          simp only [shiftReading, shiftTokens_cons]
          rw [ih rest]
          cases conditional stop depth rest with
          | error e => rfl
          | ok r =>
            obtain ⟨yes, _ | ⟨⟨lexeme, mark⟩, more⟩⟩ := r
            · rfl
            cases lexeme with
            | sign s =>
              cases s with
              | colon =>
                simp only [shiftReading, shiftTokens_cons]
                rw [ih more]
                cases conditional stop depth more with
                | error e => rfl
                | ok r => simp [shiftReading, shift, span_shift, Span.shift_cover]
              | _ => rfl
            | _ => rfl
        | _ => rfl
      | _ => rfl

theorem ofTokens_shift (stop : Nat) (ts : List Token) :
    ofTokens (stop + n) (shiftTokens n ts) = shiftOutcome n (ofTokens stop ts) := by
  have hread := moves_conditional (n := n) (.point stop) (ts.length + 1) ts
  rw [Span.shift_point] at hread
  unfold ofTokens
  rw [length_shiftTokens, hread]
  rcases ts with _ | ⟨⟨lexeme, span⟩, ts⟩
  · rfl
  · rw [if_neg (by simp), if_neg (by simp)]
    cases conditional (.point stop) ((⟨lexeme, span⟩ :: ts).length + 1) (⟨lexeme, span⟩ :: ts) with
    | error e => rfl
    | ok r =>
      obtain ⟨e, _ | ⟨extra, left⟩⟩ := r <;> rfl

/-- A text that starts further on in its source is read alike, and all spans are further on. -/
theorem parse_shift (text : List Char) (base : Nat) :
    parse text base = shiftOutcome base (parse text 0) := by
  have htokens := tokens_shift base 0 text
  rw [Nat.zero_add] at htokens
  unfold parse
  rw [htokens]
  cases tokens 0 text with
  | error e => rfl
  | ok ts =>
    dsimp only
    rw [← ofTokens_shift, Nat.zero_add, Nat.add_comm]

end Expr

end Chtl
