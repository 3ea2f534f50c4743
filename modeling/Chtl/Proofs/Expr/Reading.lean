import Chtl.Proofs.Expr.Grammar
import Chtl.Proofs.Expr.Spans
import Chtl.Proofs.Outcome
import Mathlib.Tactic.SplitIfs

/-!
# Reading by the grammar

The reader accepts a text exactly if its tokens have a derivation, and answers with the expression
of that derivation. What a reader takes from the front of the tokens is derived from the nonterminal
it reads, by induction on the depth; and it takes all of a derivation that nothing behind continues,
by induction on the derivation.
-/

set_option autoImplicit false
set_option linter.all false

namespace Chtl.Expr

/-- How many operators of a level are read in front of some tokens. -/
def Level.limit (l : Level) : List Token → Nat :=
  if l.repeats then List.length else fun _ => 1

namespace Level

variable {l : Level} {t : Token} {n : Nat}

theorem limit_pos {ts : List Token} (h : l.limit (t :: ts) ≤ n) : 0 < n := by
  unfold limit at h
  split_ifs at h <;> simp at h <;> omega

theorem limit_tail {front ts : List Token} (hrepeats : l.repeats = true)
    (h : l.limit (t :: (front ++ ts)) ≤ n + 1) : l.limit ts ≤ n := by
  simp only [limit, hrepeats, if_true, List.length_cons, List.length_append] at h ⊢
  omega

end Level

/-- The reader of a nonterminal, within a depth. -/
def Nonterminal.read (stop : Span) (depth : Nat) : Nonterminal → List Token → Reading
  | ternary => conditional stop (depth + 1)
  | level .disjunction => disjunction stop (conditional stop depth)
  | level .conjunction => conjunction stop (conditional stop depth)
  | level .comparison => comparison stop (conditional stop depth)
  | level .sum => sum stop (conditional stop depth)
  | level .product => product stop (conditional stop depth)
  | unary => signed stop (conditional stop depth)
  | primary => operand stop (conditional stop depth)

theorem read_level (stop : Span) (depth : Nat) (l : Level) :
    (Nonterminal.level l).read stop depth = level l.ops (l.operands.read stop depth) l.limit := by
  cases l <;> rfl

variable {stop : Span} {depth : Nat} {ts rest : List Token} {e : Expr}

/-! ## What is read is derived -/

/-- What is read is derived from a nonterminal. -/
def Sound (n : Nonterminal) (read : List Token → Reading) : Prop :=
  ∀ ⦃ts e rest⦄, read ts = .ok (e, rest) →
    ∃ d : Derivation (.whole n), ts = d.tokens ++ rest ∧ d.tree = e

theorem attached?_eq_some {offset : Nat} {name : String} {span : Span} {more : List Token}
    (h : attached? offset ts = some (name, span, more)) :
    ts = ⟨.dot name, span⟩ :: more ∧ span.start = offset := by
  unfold attached? at h
  split at h
  · split_ifs at h with hstart
    cases h
    exact ⟨rfl, hstart⟩
  · cases h

section

variable {nested next : List Token → Reading}

theorem sound_operand (hnested : Sound .ternary nested) : Sound .primary (operand stop nested) := by
  intro ts e rest h
  cases ts with
  | nil => cases h
  | cons t ts =>
    obtain ⟨lexeme, span⟩ := t
    cases lexeme with
    | number value unit => cases h; exact ⟨.number value unit span, rfl, rfl⟩
    | str value => cases h; exact ⟨.str value span, rfl, rfl⟩
    | dynamic code => cases h; exact ⟨.dynamic code span, rfl, rfl⟩
    | ident name =>
      rw [operand] at h
      split_ifs at h with hbool
      · cases h
        refine ⟨.bool (decide (name = "true")) span, ?_, rfl⟩
        rcases hbool with rfl | rfl <;> rfl
      · obtain ⟨htrue, hfalse⟩ := not_or.mp hbool
        split at h
        · rename_i property last more hattached
          cases h
          obtain ⟨rfl, htouches⟩ := attached?_eq_some hattached
          exact ⟨.reference (.tag name) ⟨by simpa using htrue, by simpa using hfalse⟩ span property
            last htouches, rfl, rfl⟩
        · cases h
          exact ⟨.ident name ⟨htrue, hfalse⟩ span, rfl, rfl⟩
    | hash name =>
      rw [operand] at h
      split at h
      · rename_i property last more hattached
        cases h
        obtain ⟨rfl, htouches⟩ := attached?_eq_some hattached
        exact ⟨.reference (.id name) (by simp) span property last htouches, rfl, rfl⟩
      · cases h
    | dot name =>
      rw [operand] at h
      split at h
      · rename_i property last more hattached
        cases h
        obtain ⟨rfl, htouches⟩ := attached?_eq_some hattached
        exact ⟨.reference (.cls name) (by simp) span property last htouches, rfl, rfl⟩
      · cases h
    | leftParen =>
      rw [operand] at h
      split at h
      · cases h
      · rename_i inner close more hread
        cases h
        obtain ⟨d, rfl, rfl⟩ := hnested hread
        exact ⟨.parens span d close, by simp, rfl⟩
      · cases h
    | rightParen | sign => cases h

theorem sound_signed (hnested : Sound .ternary nested) : Sound .unary (signed stop nested) := by
  intro ts e rest h
  fun_induction signed stop nested ts generalizing e rest with
  | case1 span ts ih =>
    obtain ⟨⟨inner, more⟩, hread, heq⟩ := map_eq_ok_iff.mp h
    cases heq
    obtain ⟨d, rfl, rfl⟩ := ih hread
    exact ⟨.signed .not span d, rfl, rfl⟩
  | case2 span ts ih =>
    obtain ⟨⟨inner, more⟩, hread, heq⟩ := map_eq_ok_iff.mp h
    cases heq
    obtain ⟨d, rfl, rfl⟩ := ih hread
    exact ⟨.signed .neg span d, rfl, rfl⟩
  | case3 ts =>
    obtain ⟨d, rfl, rfl⟩ := sound_operand hnested h
    exact ⟨.bare d, rfl, rfl⟩

theorem sound_extend {l : Level} (hnext : Sound l.operands next) {n : Nat} {lhs : Expr}
    {room : Bool}
    (hroom : n ≠ 0 → room = true) (hn : l.repeats = false → n ≤ 1)
    (h : extend l.ops next n lhs ts = .ok (e, rest)) :
    ∃ d : Derivation (.tail l room), ts = d.tokens ++ rest ∧ d.tree lhs = e := by
  fun_induction extend l.ops next n lhs ts generalizing room with
  | case1 => cases h; exact ⟨.done, rfl, rfl⟩
  | case2 => cases h
  | case3 n lhs s span ts op hop rhs more hread ih =>
    obtain rfl := hroom (Nat.succ_ne_zero n)
    obtain ⟨operand, rfl, rfl⟩ := hnext hread
    have hleft : n ≠ 0 → l.repeats = true := fun hne => by
      cases hrepeats : l.repeats with
      | true => rfl
      | false => have := hn hrepeats; omega
    obtain ⟨d, rfl, rfl⟩ := ih hleft (fun hrepeats => by have := hn hrepeats; omega) h
    exact ⟨.more s op hop span operand d, by simp, rfl⟩
  | case4 => cases h; exact ⟨.done, rfl, rfl⟩

theorem sound_level {l : Level} (hnext : Sound l.operands next) :
    Sound (.level l) (level l.ops next l.limit) := by
  intro ts e rest h
  unfold level at h
  split at h
  · cases h
  · rename_i lhs more hread
    obtain ⟨first, rfl, rfl⟩ := hnext hread
    have hlimit (hrepeats : l.repeats = false) : l.limit more ≤ 1 := by simp [Level.limit, hrepeats]
    obtain ⟨d, rfl, rfl⟩ := sound_extend hnext (fun _ => rfl) hlimit h
    exact ⟨.row first d, by simp, rfl⟩

theorem sound_disjunction (hnested : Sound .ternary nested) :
    Sound (.level .disjunction) (disjunction stop nested) :=
  sound_level (l := .disjunction) <| sound_level (l := .conjunction) <|
    sound_level (l := .comparison) <| sound_level (l := .sum) <| sound_level (l := .product) <|
    sound_signed hnested

end

theorem sound_conditional (stop : Span) (depth : Nat) :
    Sound .ternary (conditional stop depth) := by
  induction depth with
  | zero => intro ts e rest h; cases h
  | succ depth ih =>
    intro ts e rest h
    rw [conditional] at h
    split at h
    · cases h
    · rename_i cond question ts' hcond
      obtain ⟨c, rfl, rfl⟩ := sound_disjunction ih hcond
      split at h
      · cases h
      · rename_i yes colon more hyes
        obtain ⟨y, rfl, rfl⟩ := ih hyes
        split at h
        · cases h
        · rename_i no left hno
          cases h
          obtain ⟨n, rfl, rfl⟩ := ih hno
          exact ⟨.choice c question y colon n, by simp, rfl⟩
      · cases h
    · rename_i cond left hcond
      cases h
      obtain ⟨c, rfl, rfl⟩ := sound_disjunction ih hcond
      exact ⟨.plain c, rfl, rfl⟩

/-! ## What is derived is read -/

theorem attached?_of_clear (offset : Nat) (h : Clear 6 rest) : attached? offset rest = none := by
  unfold attached?
  split
  · exact absurd (clear_cons.mp h) (show ¬ 7 ≤ 6 by decide)
  · rfl

theorem extend_of_clear {l : Level} (next : List Token → Reading) (n : Nat) (lhs : Expr)
    (h : Clear l.grip rest) : extend l.ops next n lhs rest = .ok (lhs, rest) := by
  unfold extend
  split
  · rename_i n s span more
    split
    · rfl
    · rename_i op hop
      exact absurd h (Derivation.not_clear_more hop)
  · rfl

theorem signed_of_primary (d : Derivation (.whole .primary)) (nested : List Token → Reading) :
    signed stop nested (d.tokens ++ rest) = operand stop nested (d.tokens ++ rest) := by
  unfold signed
  split
  · rename_i h
    exact absurd h (d.head_primary _ _ _ _)
  · rename_i h
    exact absurd h (d.head_primary _ _ _ _)
  · rfl

theorem conditional_of_clear (h : disjunction stop (conditional stop depth) ts = .ok (e, rest))
    (hclear : Clear 0 rest) : conditional stop (depth + 1) ts = .ok (e, rest) := by
  rw [conditional, h]
  split
  · rename_i heq
    cases heq
  · rename_i heq
    cases heq
    exact absurd (clear_cons.mp hclear) (show ¬ 1 ≤ 0 by decide)
  · rename_i heq
    cases heq
    rfl

/-- A derivation that nothing behind continues is read as a whole. -/
def Derivation.Complete (stop : Span) (depth : Nat) (rest : List Token) :
    {p : Part} → Derivation p → Prop
  | .whole n, d => n.read stop depth (d.tokens ++ rest) = .ok (d.tree, rest)
  | .tail l room, d => ∀ lhs n, (room = true → l.limit (d.tokens ++ rest) ≤ n) →
      extend l.ops (l.operands.read stop depth) n lhs (d.tokens ++ rest) = .ok (d.tree lhs, rest)

theorem complete {p : Part} (d : Derivation p) (hdepth : d.tokens.length ≤ depth)
    (hclear : Clear p.grip rest) : d.Complete stop depth rest := by
  induction d generalizing depth rest with
  | plain cond ih =>
    exact conditional_of_clear (ih hdepth (hclear.mono (Nat.zero_le _))) hclear
  | choice cond question yes colon no ihc ihy ihn =>
    simp only [Derivation.tokens, List.length_append, List.length_cons] at hdepth
    obtain ⟨depth, rfl⟩ : ∃ k, depth = k + 1 := ⟨depth - 1, by omega⟩
    have hcond : cond.Complete stop (depth + 1) (⟨.sign .question, question⟩ ::
        (yes.tokens ++ ⟨.sign .colon, colon⟩ :: (no.tokens ++ rest))) :=
      ihc (by omega) (clear_cons.mpr (Nat.le_refl _))
    have hyes : yes.Complete stop depth (⟨.sign .colon, colon⟩ :: (no.tokens ++ rest)) :=
      ihy (by omega) (clear_cons.mpr (Nat.le_refl _))
    have hno : no.Complete stop depth rest := ihn (by omega) hclear
    simp only [Derivation.Complete, Nonterminal.read] at hcond hyes hno ⊢
    simp only [Derivation.tokens, List.append_assoc, List.cons_append]
    rw [conditional, hcond]
    dsimp only
    rw [hyes]
    dsimp only
    rw [hno]
    rfl
  | row first more ihf ihm =>
    rw [Derivation.tokens, List.length_append] at hdepth
    have hfirst : first.Complete stop depth (more.tokens ++ rest) :=
      ihf (by omega) (more.clear_tail hclear)
    have hmore : more.Complete stop depth rest := ihm (by omega) hclear
    rw [Derivation.Complete, read_level, level, Derivation.tokens, List.append_assoc, hfirst]
    exact hmore first.tree _ fun _ => Nat.le_refl _
  | done => exact fun lhs n _ => extend_of_clear _ n lhs hclear
  | more s op hop span operand more iho ihm =>
    intro lhs n hn
    simp only [Derivation.tokens, List.length_append, List.length_cons] at hdepth
    have hoperand : operand.Complete stop depth (more.tokens ++ rest) :=
      iho (by omega) (more.clear_tail hclear)
    have hmore : more.Complete stop depth rest := ihm (by omega) hclear
    have hlimit := hn rfl
    simp only [Derivation.tokens, List.append_assoc, List.cons_append] at hlimit ⊢
    obtain ⟨n, rfl⟩ : ∃ k, n = k + 1 := ⟨n - 1, by have := Level.limit_pos hlimit; omega⟩
    rw [extend, hop]
    dsimp only
    rw [hoperand]
    exact hmore _ n fun hrepeats => Level.limit_tail hrepeats hlimit
  | signed op span e ih =>
    rw [Derivation.tokens, List.length_cons] at hdepth
    have he : e.Complete stop depth rest := ih (by omega) hclear
    rw [Derivation.Complete, Nonterminal.read] at he ⊢
    cases op with
    | not => exact congrArg (Except.map _) he
    | neg => exact congrArg (Except.map _) he
  | bare e ih =>
    have he : e.Complete stop depth rest := ih hdepth hclear
    exact (signed_of_primary e _).trans he
  | number | str | dynamic => rfl
  | bool value span => cases value <;> rfl
  | ident name h span =>
    have hbool : ¬(name = "true" ∨ name = "false") := not_or.mpr h
    rw [Derivation.Complete, Nonterminal.read, Derivation.tokens, List.singleton_append, operand,
      if_neg hbool, attached?_of_clear span.stop hclear]
    rfl
  | reference selector h span property last touches =>
    have hattached : attached? span.stop (⟨.dot property, last⟩ :: rest) =
        some (property, last, rest) := if_pos touches
    rw [Derivation.Complete, Nonterminal.read, Derivation.tokens]
    cases selector with
    | tag name =>
      have hbool : ¬(name = "true" ∨ name = "false") := by simpa using h
      simp only [Selector.lexeme, List.cons_append, List.nil_append]
      rw [operand, if_neg hbool, hattached]
      rfl
    | id name | cls name =>
      simp only [Selector.lexeme, List.cons_append, List.nil_append]
      rw [operand, hattached]
      rfl
  | parens opening e closing ih =>
    simp only [Derivation.tokens, List.length_append, List.length_cons, List.length_nil] at hdepth
    obtain ⟨depth, rfl⟩ : ∃ k, depth = k + 1 := ⟨depth - 1, by omega⟩
    have he : e.Complete stop depth (⟨.rightParen, closing⟩ :: rest) :=
      ih (by omega) (clear_cons.mpr (Nat.le_refl _))
    simp only [Derivation.Complete, Nonterminal.read] at he ⊢
    simp only [Derivation.tokens, List.append_assoc, List.cons_append, List.nil_append]
    rw [operand, he]
    rfl

theorem ofTokens_eq_ok_iff {stop : Nat} {ts : List Token} {e : Expr} :
    ofTokens stop ts = .ok e ↔ ∃ d : Derivation (.whole .ternary), d.tokens = ts ∧ d.tree = e := by
  unfold ofTokens
  constructor
  · intro h
    split_ifs at h
    split at h
    · cases h
    · rename_i hread
      cases h
      obtain ⟨d, rfl, rfl⟩ := sound_conditional _ _ hread
      exact ⟨d, (List.append_nil _).symm, rfl⟩
    · cases h
  · rintro ⟨d, rfl, rfl⟩
    have hread : d.Complete (.point stop) d.tokens.length [] :=
      complete d (Nat.le_refl _) (clear_nil _)
    rw [Derivation.Complete, Nonterminal.read, List.append_nil] at hread
    cases htokens : d.tokens with
    | nil => rw [htokens] at hread; cases hread
    | cons t ts =>
      rw [htokens] at hread
      rw [if_neg (by simp), hread]

/-- An expression is read from a text exactly if the tokens of the text have a derivation from the
grammar that stands for it. They have no other. -/
theorem parse_eq_ok_iff_derivation (text : List Char) (base : Nat) (e : Expr) :
    parse text base = .ok e ↔ ∃ ts, tokens base text = .ok ts ∧
      ∃ d : Derivation (.whole .ternary), d.tokens = ts ∧ d.tree = e ∧
        ∀ other : Derivation (.whole .ternary), other.tokens = ts → other = d := by
  have hunique (d other : Derivation (.whole .ternary)) (h : other.tokens = d.tokens) : other = d :=
    (Derivation.eq_of_tokens_append (congrArg (· ++ []) h) (clear_nil _) (clear_nil _)).1
  unfold parse
  cases tokens base text with
  | error fault => simp
  | ok ts =>
    refine ofTokens_eq_ok_iff.trans ⟨?_, ?_⟩
    · rintro ⟨d, rfl, rfl⟩
      exact ⟨d.tokens, rfl, d, rfl, rfl, fun other h => hunique d other h⟩
    · rintro ⟨_, ⟨⟩, d, htokens, htree, -⟩
      exact ⟨d, htokens, htree⟩

end Chtl.Expr
