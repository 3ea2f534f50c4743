import Chtl.Proofs.Js.Token
import Mathlib.Algebra.Order.Ring.Int

/-!
# Operator precedence of the page's code

Expressions of the page's code as rows of tokens and as trees. A row has at most one reading. What
is counted in a row, apart from parentheses, is what is counted in its tree, and that is enough to
tell where the operands of an operator end.
-/

set_option autoImplicit false
set_option linter.all false

namespace Chtl.Js

/-- How tightly a sign binds as an operator between two operands. -/
def Symbol.level? : Symbol → Option Nat
  | or => some 1
  | and => some 2
  | strictEq | strictNe | looseEq | looseNe => some 3
  | ge | le | gt | lt => some 4
  | plus | minus => some 5
  | times | divide => some 6
  | _ => none

/-- Whether a sign can stand before an operand as its operator. -/
def Symbol.isPrefix : Symbol → Bool
  | not | plus | minus => true
  | _ => false

inductive Tree where
  | atom (text : List Char)
  | unary (op : Symbol) (operand : Tree)
  | binary (op : Symbol) (lhs rhs : Tree)
  | ternary (cond yes no : Tree)
  deriving DecidableEq, Repr

/-- The level of operands that hold together before every operator between operands. -/
abbrev tight : Nat := 7

open Js.Token Js.Symbol

/-- The tokens are an expression of a level or a tighter one, and this is its tree. Operators of one
level group from the left, conditionals from the right. -/
inductive Reads : (level : Nat) → List Token → Tree → Prop
  | atom {k : Nat} (text : List Char) : Reads k [.atom text] (.atom text)
  | parens {k : Nat} {ts : List Token} {t : Tree} (h : Reads 0 ts t) :
      Reads k (symbol leftParen :: (ts ++ [symbol rightParen])) t
  | unary {k : Nat} {op : Symbol} {ts : List Token} {t : Tree} (hop : op.isPrefix = true)
      (h : Reads tight ts t) : Reads k (symbol op :: ts) (.unary op t)
  | binary {k l : Nat} {op : Symbol} {as bs : List Token} {a b : Tree} (hk : k ≤ l)
      (hop : op.level? = some l) (ha : Reads l as a) (hb : Reads (l + 1) bs b) :
      Reads k (as ++ symbol op :: bs) (.binary op a b)
  | ternary {cs ys ns : List Token} {c y n : Tree} (hc : Reads 1 cs c) (hy : Reads 0 ys y)
      (hn : Reads 0 ns n) :
      Reads 0 (cs ++ symbol question :: (ys ++ symbol colon :: ns)) (.ternary c y n)

theorem Symbol.level_range {op : Symbol} {l : Nat} (h : op.level? = some l) : 1 ≤ l ∧ l < tight := by
  cases op <;> simp only [Symbol.level?, Option.some.injEq, reduceCtorEq] at h <;> subst h <;> decide

theorem Reads.mono {j k : Nat} {ts : List Token} {t : Tree} (h : Reads k ts t) (hjk : j ≤ k) :
    Reads j ts t := by
  cases h with
  | atom text => exact .atom text
  | parens h => exact .parens h
  | unary hop h => exact .unary hop h
  | binary hk hop ha hb => exact .binary (Nat.le_trans hjk hk) hop ha hb
  | ternary hc hy hn =>
    obtain rfl := Nat.le_zero.mp hjk
    exact .ternary hc hy hn

/-! ## Counting -/

/-- Parentheses count for nothing, every other token for one. -/
def Token.weight : Token → Nat
  | symbol leftParen | symbol rightParen => 0
  | _ => 1

/-- The tokens of a row that are no parentheses. -/
def weight (ts : List Token) : Nat := (ts.map Token.weight).sum

/-- The tokens that a tree is written with, parentheses apart. -/
def Tree.weight : Tree → Nat
  | .atom _ => 1
  | .unary _ t => t.weight + 1
  | .binary _ a b => a.weight + b.weight + 1
  | .ternary c y n => c.weight + y.weight + n.weight + 2

@[simp] theorem weight_nil : weight [] = 0 := rfl

@[simp] theorem weight_cons (t : Token) (ts : List Token) :
    weight (t :: ts) = t.weight + weight ts := by
  simp [weight]

@[simp] theorem weight_append (as bs : List Token) : weight (as ++ bs) = weight as + weight bs := by
  simp [weight]

theorem Symbol.weight_of_level {op : Symbol} {l : Nat} (h : op.level? = some l) :
    (symbol op).weight = 1 := by
  cases op <;> first | rfl | cases h

theorem Symbol.weight_of_isPrefix {op : Symbol} (h : op.isPrefix = true) :
    (symbol op).weight = 1 := by
  cases op <;> first | rfl | cases h

theorem Reads.weight {k : Nat} {ts : List Token} {t : Tree} (h : Reads k ts t) :
    weight ts = t.weight := by
  induction h with
  | atom text => rfl
  | parens h ih => simpa [Token.weight] using ih
  | unary hop h ih =>
    rw [weight_cons, weight_of_isPrefix hop, ih, Tree.weight, Nat.add_comm]
  | binary hk hop ha hb iha ihb =>
    rw [weight_append, weight_cons, weight_of_level hop, iha, ihb, Tree.weight]
    omega
  | ternary hc hy hn ihc ihy ihn =>
    simp only [weight_append, weight_cons, ihc, ihy, ihn, Tree.weight, Token.weight]
    omega

/-- How many brackets a token opens; a conditional is bracketed by its two signs. -/
def Token.opens : Token → Int
  | symbol leftParen | symbol question => 1
  | symbol rightParen | symbol colon => -1
  | _ => 0

/-- How many brackets a row leaves open. -/
def depth (ts : List Token) : Int := (ts.map Token.opens).sum

@[simp] theorem depth_nil : depth [] = 0 := rfl

@[simp] theorem depth_cons (t : Token) (ts : List Token) :
    depth (t :: ts) = t.opens + depth ts := by
  simp [depth]

@[simp] theorem depth_append (as bs : List Token) : depth (as ++ bs) = depth as + depth bs := by
  simp [depth]

theorem Symbol.opens_of_level {op : Symbol} {l : Nat} (h : op.level? = some l) :
    (symbol op).opens = 0 := by
  cases op <;> first | rfl | cases h

theorem Symbol.opens_of_isPrefix {op : Symbol} (h : op.isPrefix = true) :
    (symbol op).opens = 0 := by
  cases op <;> first | rfl | cases h

/-- A reading closes what it opens. -/
theorem Reads.depth {k : Nat} {ts : List Token} {t : Tree} (h : Reads k ts t) : depth ts = 0 := by
  induction h with
  | atom text => rfl
  | parens h ih => simp [Token.opens, ih]
  | unary hop h ih => simp [opens_of_isPrefix hop, ih]
  | binary hk hop ha hb iha ihb => simp [opens_of_level hop, iha, ihb]
  | ternary hc hy hn ihc ihy ihn => simp [Token.opens, ihc, ihy, ihn]

/-- Where two rows are one, either the first part of one is a part of the first part of the other or
both are split at one token. -/
theorem split_cases {as bs as' bs' : List Token} {x x' : Token}
    (h : as ++ x :: bs = as' ++ x' :: bs') :
    (as = as' ∧ x = x' ∧ bs = bs') ∨
      (∃ m, as' = as ++ x :: m ∧ bs = m ++ x' :: bs') ∨
      ∃ m, as = as' ++ x' :: m ∧ bs' = m ++ x :: bs := by
  rcases List.append_eq_append_iff.mp h with ⟨m, rfl, hm⟩ | ⟨m, rfl, hm⟩
  · cases m with
    | nil =>
      cases hm
      exact .inl ⟨by simp, rfl, rfl⟩
    | cons y m =>
      cases hm
      exact .inr (.inl ⟨m, rfl, rfl⟩)
  · cases m with
    | nil =>
      cases hm
      exact .inl ⟨by simp, rfl, rfl⟩
    | cons y m =>
      cases hm
      exact .inr (.inr ⟨m, rfl, rfl⟩)

/-- No part of a reading from its start closes more than it opens. -/
theorem Reads.depth_nonneg {k : Nat} {ts : List Token} {t : Tree} (h : Reads k ts t)
    {as bs : List Token} (hts : ts = as ++ bs) : 0 ≤ Js.depth as := by
  induction h generalizing as bs with
  | atom text =>
    cases as with
    | nil => simp
    | cons x as =>
      cases as with
      | nil =>
        cases hts
        simp [Token.opens]
      | cons y as => cases hts
  | @parens k ts t h ih =>
    cases as with
    | nil => simp
    | cons x as =>
      obtain ⟨rfl, hrest⟩ := List.cons.inj hts
      rcases List.append_eq_append_iff.mp hrest with ⟨m, rfl, hm⟩ | ⟨m, hm, -⟩
      · cases m with
        | nil => simp [Token.opens, h.depth]
        | cons y m =>
          obtain ⟨rfl, htail⟩ := List.cons.inj hm
          obtain ⟨rfl, -⟩ := List.append_eq_nil_iff.mp htail.symm
          simp [Token.opens, h.depth]
      · have := ih hm
        simp only [depth_cons, Token.opens]
        omega
  | unary hop h ih =>
    cases as with
    | nil => simp
    | cons x as =>
      obtain ⟨rfl, hrest⟩ := List.cons.inj hts
      simpa [opens_of_isPrefix hop] using ih hrest
  | @binary k l op ls rs a b hk hop ha hb iha ihb =>
    rcases List.append_eq_append_iff.mp hts with ⟨m, rfl, hm⟩ | ⟨m, hm, -⟩
    · cases m with
      | nil => simp [ha.depth]
      | cons y m =>
        obtain ⟨rfl, hrest⟩ := List.cons.inj hm
        simpa [opens_of_level hop, ha.depth] using ihb hrest
    · exact iha hm
  | @ternary cs ys ns c y n hc hy hn ihc ihy ihn =>
    rcases List.append_eq_append_iff.mp hts with ⟨m, rfl, hm⟩ | ⟨m, hm, -⟩
    · cases m with
      | nil => simp [hc.depth]
      | cons z m =>
        obtain ⟨rfl, hrest⟩ := List.cons.inj hm
        rcases List.append_eq_append_iff.mp hrest with ⟨m', rfl, hm'⟩ | ⟨m', hm', -⟩
        · cases m' with
          | nil => simp [hc.depth, hy.depth, Token.opens]
          | cons z' m' =>
            obtain ⟨rfl, hrest'⟩ := List.cons.inj hm'
            have := ihn hrest'
            simp only [depth_append, depth_cons, hc.depth, hy.depth, Token.opens]
            omega
        · have := ihy hm'
          simp only [depth_append, depth_cons, hc.depth, Token.opens]
          omega
    · exact ihc hm

/-- No expression is built with a decrement. -/
theorem Reads.decrement_not_mem {k : Nat} {ts : List Token} {t : Tree} (h : Reads k ts t) :
    symbol decrement ∉ ts := by
  induction h with
  | atom text => simp
  | parens h ih => simpa using ih
  | @unary k op ts t hop h ih =>
    have hne : symbol decrement ≠ symbol op := by
      rintro ⟨rfl⟩
      cases hop
    simp [hne, ih]
  | @binary k l op as bs a b hk hop ha hb iha ihb =>
    have hne : symbol decrement ≠ symbol op := by
      rintro ⟨rfl⟩
      cases hop
    simp [hne, iha, ihb]
  | ternary hc hy hn ihc ihy ihn => simp [ihc, ihy, ihn]

/-! ## At most one reading -/

/-- The row ends with what can be the end of an operand. -/
def EndsOperand (ts : List Token) : Prop :=
  ∃ x ∈ ts.getLast?, (∃ text, x = .atom text) ∨ x = symbol rightParen

theorem EndsOperand.of_append {as bs : List Token} (h : EndsOperand (as ++ bs)) (hne : bs ≠ []) :
    EndsOperand bs := by
  rwa [EndsOperand, List.getLast?_append_of_ne_nil _ hne] at h

theorem EndsOperand.eq_rightParen {as : List Token} {s : Symbol}
    (h : EndsOperand (as ++ [symbol s])) : s = rightParen := by
  obtain ⟨x, hx, hend⟩ := h
  rw [List.getLast?_concat] at hx
  cases hx
  rcases hend with ⟨_, ⟨⟩⟩ | hs
  exact Token.symbol.inj hs

/-- Behind an operator an operand ends if one ends at all. -/
theorem EndsOperand.behind {as bs : List Token} {op : Symbol} {l : Nat}
    (h : EndsOperand (as ++ symbol op :: bs)) (hop : op.level? = some l) : EndsOperand bs := by
  rcases eq_or_ne bs [] with rfl | hne
  · obtain rfl := h.eq_rightParen
    cases hop
  · rw [List.append_cons] at h
    exact h.of_append hne

theorem EndsOperand.ne_nil {as : List Token} (h : EndsOperand as) : as ≠ [] := by
  rintro rfl
  obtain ⟨x, hx, -⟩ := h
  cases hx

theorem EndsOperand.append {bs : List Token} (as : List Token) (h : EndsOperand bs) :
    EndsOperand (as ++ bs) := by
  have hne := h.ne_nil
  obtain ⟨x, hx, hend⟩ := h
  exact ⟨x, by rwa [List.getLast?_append_of_ne_nil _ hne], hend⟩

theorem Reads.endsOperand {k : Nat} {ts : List Token} {t : Tree} (h : Reads k ts t) :
    EndsOperand ts := by
  induction h with
  | atom text => exact ⟨_, rfl, .inl ⟨text, rfl⟩⟩
  | @parens k ts t h ih =>
    exact .append (symbol leftParen :: ts) ⟨_, rfl, .inr rfl⟩
  | @unary k op ts t hop h ih => exact ih.append [symbol op]
  | @binary k l op as bs a b hk hop ha hb iha ihb =>
    simpa using ihb.append (as ++ [symbol op])
  | @ternary cs ys ns c y n hc hy hn ihc ihy ihn =>
    simpa using ihn.append (cs ++ symbol question :: ys ++ [symbol colon])

/-- A part of a parenthesized reading from its start, but not all of it, leaves a bracket open. -/
theorem Reads.depth_parens_pos {ts : List Token} {t : Tree} (h : Reads 0 ts t)
    {as bs : List Token} {x : Token} (hne : as ≠ []) (hx : x ≠ symbol rightParen)
    (hts : symbol leftParen :: (ts ++ [symbol rightParen]) = as ++ x :: bs) : 0 < Js.depth as := by
  obtain ⟨y, as, rfl⟩ := List.exists_cons_of_ne_nil hne
  obtain ⟨rfl, hrest⟩ := List.cons.inj hts
  rcases List.append_eq_append_iff.mp hrest with ⟨m, rfl, hm⟩ | ⟨m, hm, -⟩
  · cases m with
    | nil => exact absurd (List.cons.inj hm).1.symm hx
    | cons z m => simpa using congrArg List.length hm
  · have := h.depth_nonneg hm
    simp only [depth_cons, Token.opens]
    omega

/-- An operator outside of brackets binds at least as tightly as the expression that it stands in. -/
theorem Reads.le_level {k : Nat} {ts : List Token} {t : Tree} (h : Reads k ts t)
    {as bs : List Token} {op : Symbol} {l : Nat} (hts : ts = as ++ symbol op :: bs)
    (hop : op.level? = some l) (hend : EndsOperand as) (hdepth : Js.depth as = 0) : k ≤ l := by
  have hne := hend.ne_nil
  induction h generalizing as bs with
  | atom text =>
    obtain ⟨x, as, rfl⟩ := List.exists_cons_of_ne_nil hne
    simpa using congrArg List.length hts
  | parens h ih =>
    have hop : symbol op ≠ symbol rightParen := by
      rintro ⟨rfl⟩
      cases hop
    have := h.depth_parens_pos hne hop hts
    omega
  | @unary k sign ts t hsign h ih =>
    obtain ⟨x, as, rfl⟩ := List.exists_cons_of_ne_nil hne
    obtain ⟨rfl, hrest⟩ := List.cons.inj hts
    rcases eq_or_ne as [] with rfl | hne'
    · obtain rfl := (show EndsOperand ([] ++ [symbol sign]) from hend).eq_rightParen
      cases hsign
    · have hdepth' : Js.depth as = 0 := by
        simpa [opens_of_isPrefix hsign] using hdepth
      have hend' : EndsOperand ([symbol sign] ++ as) := hend
      have htight := ih hrest (hend'.of_append hne') hdepth' hne'
      exact absurd htight (Nat.not_le.mpr (level_range hop).2)
  | @binary k m sign ls rs a b hk hsign ha hb iha ihb =>
    rcases split_cases hts with ⟨-, hsame, -⟩ | ⟨middle, rfl, rfl⟩ | ⟨middle, rfl, rfl⟩
    · cases hsame
      rw [hsign] at hop
      cases hop
      exact hk
    · -- The operator stands to the right of the one that the tree is split at.
      have hend' := hend.behind hsign
      have hdepth' : Js.depth middle = 0 := by
        simpa [opens_of_level hsign, ha.depth] using hdepth
      have := ihb rfl hend' hdepth' hend'.ne_nil
      omega
    · exact Nat.le_trans hk (iha rfl hend hdepth hne)
  | ternary hc hy hn => exact Nat.zero_le l

/-- Outside of brackets a conditional stands in nothing that is tighter than itself. -/
theorem Reads.depth_question {k : Nat} {ts : List Token} {t : Tree} (h : Reads k ts t)
    {as bs : List Token} (hts : ts = as ++ symbol question :: bs) (hk : 1 ≤ k) :
    Js.depth as ≠ 0 := by
  induction h generalizing as bs with
  | atom text =>
    cases as with
    | nil => cases hts
    | cons x as => simpa using congrArg List.length hts
  | parens h ih =>
    cases as with
    | nil => cases hts
    | cons x as =>
      have := h.depth_parens_pos (List.cons_ne_nil x as) (by decide) hts
      omega
  | @unary k sign ts t hsign h ih =>
    cases as with
    | nil =>
      cases hts
      cases hsign
    | cons x as =>
      obtain ⟨rfl, hrest⟩ := List.cons.inj hts
      simpa [opens_of_isPrefix hsign] using ih hrest (by decide)
  | @binary k m sign ls rs a b hm hsign ha hb iha ihb =>
    rcases split_cases hts with ⟨-, hsame, -⟩ | ⟨middle, rfl, rfl⟩ | ⟨middle, rfl, rfl⟩
    · cases hsame
      cases hsign
    · simpa [opens_of_level hsign, ha.depth] using ihb rfl (Nat.le_add_left 1 m)
    · exact iha rfl (Nat.le_trans hk hm)
  | ternary hc hy hn => omega

/-- What holds together is not split at an operator between operands. -/
theorem Reads.not_split {j l : Nat} {op : Symbol} {as bs : List Token} {t a : Tree}
    (h : Reads tight (as ++ symbol op :: bs) t) (hop : op.level? = some l) (ha : Reads j as a) :
    False :=
  absurd (h.le_level rfl hop ha.endsOperand ha.depth) (Nat.not_le.mpr (level_range hop).2)

/-- What is no conditional is not split as one. -/
theorem Reads.not_cond {j k : Nat} {cs rest : List Token} {t c : Tree}
    (h : Reads k (cs ++ symbol question :: rest) t) (hk : 1 ≤ k) (hc : Reads j cs c) : False :=
  h.depth_question rfl hk hc.depth

/-- The left operand of one reading does not reach into the right operand of another. -/
theorem Reads.not_overlap {j l l' : Nat} {op op' : Symbol} {as ms bs : List Token} {a t b : Tree}
    (h : Reads l' (as ++ symbol op :: ms) t) (ha : Reads j as a) (hop : op.level? = some l)
    (hb : Reads (l + 1) (ms ++ symbol op' :: bs) b) (hop' : op'.level? = some l') : False := by
  have hleft := h.le_level rfl hop ha.endsOperand ha.depth
  have hdepth : Js.depth ms = 0 := by
    simpa [opens_of_level hop, ha.depth] using h.depth
  have hright := hb.le_level rfl hop' (h.endsOperand.behind hop) hdepth
  omega

/-- What comes first in a conditional does not reach over its colon. -/
theorem Reads.not_colon {j k : Nat} {ys rest : List Token} {t y : Tree}
    (h : Reads k (ys ++ symbol colon :: rest) t) (hy : Reads j ys y) : False := by
  have := h.depth_nonneg (List.append_cons ys (symbol colon) rest)
  simp [hy.depth, Token.opens] at this

/-- A row of tokens has one tree. -/
theorem Reads.unique {j k : Nat} {ts : List Token} {t t' : Tree} (h : Reads j ts t)
    (h' : Reads k ts t') : t = t' := by
  induction h generalizing k t' with
  | @atom j text =>
    generalize hts : [Token.atom text] = ts at h'
    cases h' with
    | atom text' =>
      cases hts
      rfl
    | parens h' => cases hts
    | unary hop' h' => cases hts
    | binary hk' hop' ha' hb' => exact (hts ▸ Reads.atom text).not_split hop' ha' |>.elim
    | ternary hc' hy' hn' => exact (hts ▸ Reads.atom text).not_cond le_rfl hc' |>.elim
  | @parens j ts t h ih =>
    generalize hts : symbol leftParen :: (ts ++ [symbol rightParen]) = row at h'
    cases h' with
    | atom text' => cases hts
    | parens h' =>
      obtain ⟨-, hts⟩ := List.cons.inj hts
      obtain rfl := List.append_cancel_right hts
      exact ih h'
    | unary hop' h' =>
      cases hts
      cases hop'
    | binary hk' hop' ha' hb' => exact (hts ▸ Reads.parens h).not_split hop' ha' |>.elim
    | ternary hc' hy' hn' => exact (hts ▸ Reads.parens h).not_cond le_rfl hc' |>.elim
  | @unary j op ts t hop h ih =>
    generalize hts : symbol op :: ts = row at h'
    cases h' with
    | atom text' => cases hts
    | parens h' =>
      cases hts
      cases hop
    | unary hop' h' =>
      cases hts
      rw [ih h']
    | binary hk' hop' ha' hb' => exact (hts ▸ Reads.unary hop h).not_split hop' ha' |>.elim
    | ternary hc' hy' hn' => exact (hts ▸ Reads.unary hop h).not_cond le_rfl hc' |>.elim
  | @binary j l op as bs a b hk hop ha hb iha ihb =>
    have hl := level_range hop
    generalize hts : as ++ symbol op :: bs = row at h'
    cases h' with
    | atom text' => exact (hts ▸ Reads.atom text').not_split hop ha |>.elim
    | parens h' => exact (hts ▸ Reads.parens h').not_split hop ha |>.elim
    | unary hop' h' => exact (hts ▸ Reads.unary hop' h').not_split hop ha |>.elim
    | @binary _ l' op' as' bs' a' b' hk' hop' ha' hb' =>
      rcases split_cases hts with ⟨rfl, hsame, rfl⟩ | ⟨middle, rfl, rfl⟩ | ⟨middle, rfl, rfl⟩
      · cases hsame
        rw [iha ha', ihb hb']
      · exact (ha'.not_overlap ha hop hb hop').elim
      · exact (ha.not_overlap ha' hop' hb' hop).elim
    | ternary hc' hy' hn' =>
      exact (hts ▸ Reads.binary hl.1 hop ha hb).not_cond le_rfl hc' |>.elim
  | @ternary cs ys ns c y n hc hy hn ihc ihy ihn =>
    generalize hts : cs ++ symbol question :: (ys ++ symbol colon :: ns) = row at h'
    cases h' with
    | atom text' => exact (hts ▸ Reads.atom text').not_cond le_rfl hc |>.elim
    | parens h' => exact (hts ▸ Reads.parens h').not_cond le_rfl hc |>.elim
    | unary hop' h' => exact (hts ▸ Reads.unary hop' h').not_cond le_rfl hc |>.elim
    | binary hk' hop' ha' hb' =>
      exact (hts ▸ Reads.binary (level_range hop').1 hop' ha' hb').not_cond le_rfl hc |>.elim
    | @ternary cs' ys' ns' c' y' n' hc' hy' hn' =>
      rcases split_cases hts with ⟨rfl, -, hrest⟩ | ⟨middle, rfl, -⟩ | ⟨middle, rfl, -⟩
      · rcases split_cases hrest with ⟨rfl, -, rfl⟩ | ⟨middle, rfl, -⟩ | ⟨middle, rfl, -⟩
        · rw [ihc hc', ihy hy', ihn hn']
        · exact (hy'.not_colon hy).elim
        · exact (hy.not_colon hy').elim
      · exact (hc'.not_cond le_rfl hc).elim
      · exact (hc.not_cond le_rfl hc').elim

/-! ## Operands of an operator

A row is known to be a tree with an operator at its root, and it is known which part of the row
counts as much as the left operand. Then that part is read as the left operand.
-/

theorem Tree.weight_pos (t : Tree) : 0 < t.weight := by
  cases t <;> simp [Tree.weight]

section

variable {k : Nat} {as bs : List Token} {a b : Tree}

theorem ne_nil_of_weight (h : Js.weight as = a.weight) : as ≠ [] := by
  rintro rfl
  exact absurd h a.weight_pos.ne

/-- Of two beginnings of a row that are both followed by a sign that counts, the one that counts as
much as the other is the other. -/
theorem split_unique {as' bs' : List Token} {x x' : Token} (hx : x.weight = 1) (hx' : x'.weight = 1)
    (h : as ++ x :: bs = as' ++ x' :: bs') (hw : Js.weight as = Js.weight as') :
    as = as' ∧ x = x' ∧ bs = bs' := by
  rcases split_cases h with heq | ⟨m, rfl, -⟩ | ⟨m, rfl, -⟩
  · exact heq
  · rw [weight_append, weight_cons, hx] at hw
    omega
  · rw [weight_append, weight_cons, hx'] at hw
    omega

theorem Reads.operands {op : Symbol} {l : Nat} (hop : op.level? = some l)
    (h : Reads k (as ++ symbol op :: bs) (.binary op a b)) (hw : Js.weight as = a.weight)
    (hdepth : Js.depth as = 0) : Reads l as a ∧ Reads (l + 1) bs b := by
  generalize hrow : as ++ symbol op :: bs = row at h
  cases h with
  | parens h =>
    have hne : symbol op ≠ symbol rightParen := by
      rintro ⟨rfl⟩
      cases hop
    have := h.depth_parens_pos (ne_nil_of_weight hw) hne hrow.symm
    omega
  | binary hk hop' ha hb =>
    have hone := weight_of_level hop
    obtain ⟨rfl, -, rfl⟩ := split_unique hone hone hrow (hw.trans ha.weight.symm)
    rw [hop] at hop'
    cases hop'
    exact ⟨ha, hb⟩

theorem Reads.operands_of_parens {op : Symbol} {l : Nat} (hop : op.level? = some l)
    (h : Reads k (symbol leftParen :: (as ++ symbol op :: bs ++ [symbol rightParen])) (.binary op a b))
    (hw : Js.weight as = a.weight) (hdepth : Js.depth as = 0) :
    Reads l as a ∧ Reads (l + 1) bs b := by
  generalize hrow : symbol leftParen :: (as ++ symbol op :: bs ++ [symbol rightParen]) = row at h
  cases h with
  | parens h =>
    obtain rfl := List.append_cancel_right (List.cons.inj hrow).2
    exact h.operands hop hw hdepth
  | binary hk hop' ha hb =>
    -- The first parenthesis would be part of the left operand, and nothing there closes it.
    have hone := weight_of_level hop
    have hrow' : (symbol leftParen :: as) ++ symbol op :: (bs ++ [symbol rightParen]) = _ :=
      Eq.trans (by simp) hrow
    obtain ⟨rfl, -, -⟩ := split_unique hone hone hrow'
      ((by simpa [Token.weight] using hw : Js.weight (symbol leftParen :: as) = a.weight).trans
        ha.weight.symm)
    have := ha.depth
    simp only [depth_cons, Token.opens, hdepth] at this
    omega

theorem Reads.operand {op : Symbol} {ts : List Token} {t : Tree} (hop : op.isPrefix = true)
    (h : Reads k (symbol op :: ts) (.unary op t)) : Reads tight ts t := by
  generalize hrow : symbol op :: ts = row at h
  cases h with
  | parens h =>
    cases hrow
    cases hop
  | unary hop' h =>
    cases hrow
    exact h

theorem Reads.parts {ys ns : List Token} {c y n : Tree}
    (h : Reads k (as ++ symbol question :: (ys ++ symbol colon :: ns)) (.ternary c y n))
    (hc : Js.weight as = c.weight) (hdepth : Js.depth as = 0) (hy : Js.weight ys = y.weight) :
    Reads 1 as c ∧ Reads 0 ys y ∧ Reads 0 ns n := by
  generalize hrow : as ++ symbol question :: (ys ++ symbol colon :: ns) = row at h
  cases h with
  | parens h =>
    have := h.depth_parens_pos (ne_nil_of_weight hc) (by decide) hrow.symm
    omega
  | ternary hc' hy' hn' =>
    obtain ⟨rfl, -, hrest⟩ := split_unique rfl rfl hrow (hc.trans hc'.weight.symm)
    obtain ⟨rfl, -, rfl⟩ := split_unique rfl rfl hrest (hy.trans hy'.weight.symm)
    exact ⟨hc', hy', hn'⟩

theorem Reads.parts_of_parens {ys ns : List Token} {c y n : Tree}
    (h : Reads k (symbol leftParen ::
      (as ++ symbol question :: (ys ++ symbol colon :: ns) ++ [symbol rightParen])) (.ternary c y n))
    (hc : Js.weight as = c.weight) (hdepth : Js.depth as = 0) (hy : Js.weight ys = y.weight) :
    Reads 1 as c ∧ Reads 0 ys y ∧ Reads 0 ns n := by
  generalize hrow : symbol leftParen ::
    (as ++ symbol question :: (ys ++ symbol colon :: ns) ++ [symbol rightParen]) = row at h
  cases h with
  | parens h =>
    obtain rfl := List.append_cancel_right (List.cons.inj hrow).2
    exact h.parts hc hdepth hy
  | ternary hc' hy' hn' =>
    have hrow' : (symbol leftParen :: as) ++ symbol question ::
        (ys ++ symbol colon :: (ns ++ [symbol rightParen])) = _ := Eq.trans (by simp) hrow
    obtain ⟨rfl, -, -⟩ := split_unique rfl rfl hrow'
      ((by simpa [Token.weight] using hc : Js.weight (symbol leftParen :: as) = c.weight).trans
        hc'.weight.symm)
    have := hc'.depth
    simp only [depth_cons, Token.opens, hdepth] at this
    omega

end

/-! ## Texts -/

/-- The text is an expression of a level or a tighter one, and this is its tree. -/
def ReadsAs (level : Nat) (cs : List Char) (t : Tree) : Prop :=
  ∃ ts, tokens cs = some ts ∧ Reads level ts t

theorem ReadsAs.mono {j k : Nat} {cs : List Char} {t : Tree} (h : ReadsAs k cs t) (hjk : j ≤ k) :
    ReadsAs j cs t :=
  h.imp fun _ h => ⟨h.1, h.2.mono hjk⟩

/-- A text has one tree. -/
theorem ReadsAs.unique {j k : Nat} {cs : List Char} {t t' : Tree} (h : ReadsAs j cs t)
    (h' : ReadsAs k cs t') : t = t' := by
  obtain ⟨ts, hts, h⟩ := h
  obtain ⟨ts', hts', h'⟩ := h'
  rw [hts] at hts'
  cases hts'
  exact h.unique h'

theorem ReadsAs.ne_nil {k : Nat} {cs : List Char} {t : Tree} (h : ReadsAs k cs t) : cs ≠ [] := by
  rintro rfl
  obtain ⟨ts, hts, h⟩ := h
  rw [tokens] at hts
  cases hts
  exact h.endsOperand.ne_nil rfl

theorem Reads.begins {k : Nat} {ts : List Token} {t : Tree} (h : Reads k ts t) :
    ∃ x rest, ts = x :: rest ∧
      ∀ s, x = symbol s → s = leftParen ∨ s.isPrefix = true := by
  induction h with
  | atom text => exact ⟨_, _, rfl, fun s hs => by cases hs⟩
  | parens h ih => exact ⟨_, _, rfl, fun s hs => .inl (Token.symbol.inj hs).symm⟩
  | unary hop h ih => exact ⟨_, _, rfl, fun s hs => .inr (Token.symbol.inj hs ▸ hop)⟩
  | binary hk hop ha hb iha ihb =>
    obtain ⟨x, rest, rfl, hx⟩ := iha
    exact ⟨x, _, rfl, hx⟩
  | ternary hc hy hn ihc ihy ihn =>
    obtain ⟨x, rest, rfl, hx⟩ := ihc
    exact ⟨x, _, rfl, hx⟩

/-- No expression begins with an equality sign. -/
theorem ReadsAs.head_ne {k : Nat} {cs : List Char} {t : Tree} (h : ReadsAs k cs t) :
    cs.head? ≠ some '=' := by
  intro hhead
  obtain ⟨rest, rfl⟩ := List.head?_eq_some_iff.mp hhead
  obtain ⟨ts, hts, hreads⟩ := h
  obtain ⟨x, more, rfl, hx⟩ := hreads.begins
  rw [tokens, if_neg (by decide), token?] at hts
  cases hat : Symbol.at? ('=' :: rest) with
  | none =>
    have hatom : atomLength? '=' rest = none := by
      unfold atomLength?
      rw [if_neg (by decide), if_neg (by decide)]
      rfl
    rw [hat, hatom] at hts
    cases hts
  | some s =>
    have hstarts : Text.startsWith ('=' :: rest) s.text = true := by
      simpa using List.find?_some hat
    rw [hat] at hts
    obtain ⟨_, -, heq⟩ := Option.map_eq_some_iff.mp hts
    obtain ⟨rfl, -⟩ := List.cons.inj heq
    have hs := hx s rfl
    cases s <;> first | cases hstarts | simp [isPrefix] at hs

end Chtl.Js
