import Chtl.Proofs.Js.Condition

/-!
# Conditions with their operands in braces

A lowered condition is code of the page in which every operand that only the page knows stands in
double braces, as one atom. It is read as the tree of the condition exactly if no minus is written
directly before another one, given that the braces of every operand are closed at its end.
-/

set_option autoImplicit false
set_option linter.all false

namespace Chtl

open Text

/-! ## Operands in braces -/

namespace Js

/-- No braces are closed in the code, nor by its end together with those behind it. -/
def Closed (code : List Char) : Prop := ¬ ['}', '}'] <:+: code ++ ['}']

/-- An operand in its braces. -/
def braced (code : List Char) : List Char := '{' :: '{' :: (code ++ ['}', '}'])

/-- What is found is found at its first place. -/
theorem not_infix_of_find? {needle cs : List Char} {n : Nat} (hneedle : needle ≠ [])
    (h : find? needle cs = some n) : ¬ needle <:+: cs.take (n + (needle.length - 1)) := by
  induction cs generalizing n with
  | nil => simpa using hneedle
  | cons c cs ih =>
    have hlength := List.length_pos_iff.mpr hneedle
    rw [find?] at h
    split_ifs at h with hstarts
    · cases h
      intro hin
      have := hin.length_le
      rw [List.length_take] at this
      omega
    · obtain ⟨m, hm, rfl⟩ := Option.map_eq_some_iff.mp h
      rw [show m + 1 + (needle.length - 1) = m + (needle.length - 1) + 1 by omega,
        List.take_succ_cons]
      intro hin
      rcases List.infix_cons_iff.mp hin with hahead | hin
      · refine hstarts (startsWith_iff.mpr (hahead.trans ?_))
        rw [← List.take_succ_cons]
        exact List.take_prefix _ _
      · exact ih hm hin

theorem find?_of_closed {code : List Char} (h : Closed code) (rest : List Char) :
    find? ['}', '}'] (code ++ '}' :: '}' :: rest) = some code.length := by
  induction code with
  | nil => rfl
  | cons c code ih =>
    have hcode : Closed code := fun hin => h (hin.trans (List.suffix_cons c _).isInfix)
    have hstarts : startsWith ((c :: code) ++ '}' :: '}' :: rest) ['}', '}'] = false := by
      rw [Bool.eq_false_iff]
      intro hstarts
      have hprefix : ['}', '}'] <+: (c :: code) ++ ['}'] := by
        refine List.prefix_of_prefix_length_le (startsWith_iff.mp hstarts) ⟨'}' :: rest, by simp⟩ ?_
        simp
      exact h hprefix.isInfix
    rw [List.cons_append, find?, ← List.cons_append, hstarts, ih hcode]
    rfl

theorem readsAs_braced {code : List Char} (h : Closed code) (k : Nat) :
    ReadsAs k (braced code) (.atom (braced code)) := by
  have hsign (s : Symbol) : s.text.head? ≠ some '{' := by
    cases s <;> decide
  have hlength : atomLength? '{' ('{' :: (code ++ ['}', '}'])) = some (code.length + 3) := by
    simp [atomLength?, find?_of_closed h []]
  have htoken : token? '{' ('{' :: (code ++ ['}', '}'])) =
      some (.atom (braced code), code.length + 3) := by
    rw [token?, Symbol.at?_eq_none _ hsign, hlength]
    simp [braced]
  refine ⟨_, ?_, .atom _⟩
  rw [braced, tokens_cons (by decide) htoken, List.drop_of_length_le (by simp), tokens]
  rfl

/-- An atom in braces ends with the first ones that are closed in it. -/
theorem closed_of_mem_tokens {cs code : List Char} {ts : List Token} (h : tokens cs = some ts)
    (hmem : .atom (braced code) ∈ ts) : Closed code := by
  fun_induction tokens cs generalizing ts with
  | case1 =>
    cases h
    cases hmem
  | case2 c cs hspace ih => exact ih h hmem
  | case3 c cs hspace t n ht ih =>
    obtain ⟨rest, hrest, rfl⟩ := Option.map_eq_some_iff.mp h
    rcases List.mem_cons.mp hmem with rfl | hmem
    · unfold token? at ht
      split at ht
      · cases ht
      · obtain ⟨m, hm, heq⟩ := Option.map_eq_some_iff.mp ht
        obtain ⟨hatom, rfl⟩ := Prod.mk.inj heq
        obtain ⟨rfl, hcode⟩ := List.cons.inj (Token.atom.inj hatom)
        unfold atomLength? at hm
        rw [if_neg (by decide), if_pos rfl] at hm
        split at hm
        · rename_i inner _
          obtain ⟨k, hk, rfl⟩ := Option.map_eq_some_iff.mp hm
          have hinner : inner.take (k + 2) = code ++ ['}', '}'] := (List.cons.inj hcode).2
          have hlength := congrArg List.length hinner
          simp only [List.length_take, List.length_append, List.length_cons, List.length_nil]
            at hlength
          have hlead : code ++ ['}'] <+: inner.take (k + 2) := ⟨['}'], by simp [hinner]⟩
          have hshort : code ++ ['}'] <+: inner.take (k + 1) :=
            List.prefix_take_iff.mpr ⟨hlead.trans (List.take_prefix _ _), by simp; omega⟩
          exact fun hin => not_infix_of_find? (by simp) hk (hin.trans hshort.isInfix)
        · cases hm
    · exact ih hrest hmem
  | case4 c cs hspace ht => cases h

/-- The atoms of a tree from the left to the right. -/
def Tree.atoms : Tree → List (List Char)
  | atom text => [text]
  | unary _ operand => operand.atoms
  | binary _ lhs rhs => lhs.atoms ++ rhs.atoms
  | ternary cond yes no => cond.atoms ++ (yes.atoms ++ no.atoms)

/-- A row has the atoms of its tree. -/
theorem Reads.mem_of_mem_atoms {k : Nat} {ts : List Token} {t : Tree} (h : Reads k ts t)
    {text : List Char} (hmem : text ∈ t.atoms) : .atom text ∈ ts := by
  induction h with
  | atom own => simpa [Tree.atoms] using hmem
  | parens h ih => simp [ih hmem]
  | unary hop h ih => simp [ih hmem]
  | binary hk hop ha hb iha ihb =>
    rcases List.mem_append.mp hmem with hmem | hmem
    · simp [iha hmem]
    · simp [ihb hmem]
  | ternary hc hy hn ihc ihy ihn =>
    rcases List.mem_append.mp hmem with hmem | hmem
    · simp [ihc hmem]
    · rcases List.mem_append.mp hmem with hmem | hmem
      · simp [ihy hmem]
      · simp [ihn hmem]

end Js

/-! ## Conditions in braces -/

namespace Lowered

/-- The tree of a condition: its operators around the literals of its values and around its
operands, which are atoms in their braces. -/
def tree : Lowered → Js.Tree
  | value v => v.tree
  | operand code => .atom (Js.braced code.toList)
  | unary op a => .unary op.symbol a.tree
  | binary op a b => .binary op.symbol a.tree b.tree
  | ternary c y n => .ternary c.tree y.tree n.tree

/-- The condition with the braces of its operands as part of their code. -/
def braced : Lowered → Lowered
  | value v => value v
  | operand code => operand (String.ofList (Js.braced code.toList))
  | unary op a => unary op a.braced
  | binary op a b => binary op a.braced b.braced
  | ternary c y n => ternary c.braced y.braced n.braced

/-- The condition is a negation or a negative number. -/
def BeginsWithMinus : Lowered → Prop
  | value v => v.toJs.toList.head? = some '-'
  | unary op _ => op = .neg
  | _ => False

/-- No negation is directly before what begins with a minus itself. -/
def MinusApart : Lowered → Prop
  | value _ | operand _ => True
  | unary op a => a.MinusApart ∧ (op = .neg → ¬ a.BeginsWithMinus)
  | binary _ a b => a.MinusApart ∧ b.MinusApart
  | ternary c y n => c.MinusApart ∧ y.MinusApart ∧ n.MinusApart

theorem isCompound_braced (l : Lowered) : l.braced.isCompound = l.isCompound := by
  cases l <;> rfl

theorem enclose_braced (l : Lowered) (cs : List Char) : l.braced.enclose cs = l.enclose cs := by
  rw [enclose, enclose, isCompound_braced]

theorem code_braced (l : Lowered) : l.braced.code = l.text := by
  unfold code text
  induction l with
  | value v => rfl
  | operand code => simp [braced, write, Js.braced]
  | unary op a ih => simp only [braced, write, enclose_braced, ih]
  | binary op a b iha ihb => simp only [braced, write, enclose_braced, iha, ihb]
  | ternary c y n ihc ihy ihn => simp only [braced, write, enclose_braced, ihc, ihy, ihn]

theorem head_operandCode_braced (l : Lowered) :
    l.braced.operandCode.head? = some '-' ↔ l.BeginsWithMinus := by
  cases l with
  | value v => rfl
  | operand own => simp [braced, operandCode, enclose, isCompound, code, write, Js.braced,
      BeginsWithMinus]
  | unary op a => cases op <;> simp [braced, operandCode, enclose, isCompound, code, write,
      UnaryOp.js, BeginsWithMinus]
  | binary op a b => simp [braced, operandCode, enclose, isCompound, BeginsWithMinus]
  | ternary c y n => simp [braced, operandCode, enclose, isCompound, BeginsWithMinus]

theorem apart_braced_iff (l : Lowered) : l.braced.Apart ↔ l.MinusApart := by
  induction l with
  | value v => rfl
  | operand code => rfl
  | unary op a ih =>
    exact and_congr ih (imp_congr_right fun _ => not_congr a.head_operandCode_braced)
  | binary op a b iha ihb => exact and_congr iha ihb
  | ternary c y n ihc ihy ihn => exact and_congr ihc (and_congr ihy ihn)

/-- The braces of all operands are closed at their ends. -/
def AllClosed (l : Lowered) : Prop := ∀ code ∈ l.operands, Js.Closed code.toList

/-- In braces every operand binds tightly enough for its place. -/
theorem means_braced {l : Lowered} (h : l.AllClosed) :
    l.braced.Means l.tree ∧ ∀ k, l.braced.Fits k := by
  induction l with
  | value v => exact ⟨.value (Js.readsAs_value v), fun _ => trivial⟩
  | operand code =>
    have hreads (k : Nat) : Js.ReadsAs k (String.ofList (Js.braced code.toList)).toList
        (.atom (Js.braced code.toList)) := by
      rw [String.toList_ofList]
      exact Js.readsAs_braced (h code List.mem_cons_self) k
    exact ⟨.operand (hreads 0), fun k => ⟨_, hreads k⟩⟩
  | unary op a ih =>
    obtain ⟨hmeans, hfits⟩ := ih h
    exact ⟨.unary op hmeans, fun _ => hfits _⟩
  | binary op a b iha ihb =>
    obtain ⟨ha, hb⟩ := List.forall_mem_append.mp h
    obtain ⟨hmeans, hfits⟩ := iha ha
    obtain ⟨hmeans', hfits'⟩ := ihb hb
    exact ⟨.binary op hmeans hmeans', fun _ => ⟨hfits _, hfits' _⟩⟩
  | ternary c y n ihc ihy ihn =>
    obtain ⟨hc, h⟩ := List.forall_mem_append.mp h
    obtain ⟨hy, hn⟩ := List.forall_mem_append.mp h
    obtain ⟨hmeans, hfits⟩ := ihc hc
    obtain ⟨hmeans', hfits'⟩ := ihy hy
    obtain ⟨hmeans'', hfits''⟩ := ihn hn
    exact ⟨.ternary hmeans hmeans' hmeans'', fun _ => ⟨hfits _, hfits' _, hfits'' _⟩⟩

theorem braced_mem_atoms {l : Lowered} {code : String} (h : code ∈ l.operands) :
    Js.braced code.toList ∈ l.tree.atoms := by
  induction l with
  | value v => cases h
  | operand own =>
    obtain rfl := List.mem_singleton.mp h
    exact List.mem_cons_self
  | unary op a ih => exact ih h
  | binary op a b iha ihb => exact List.mem_append.mpr ((List.mem_append.mp h).imp iha ihb)
  | ternary c y n ihc ihy ihn =>
    refine List.mem_append.mpr ((List.mem_append.mp h).imp ihc fun h => ?_)
    exact List.mem_append.mpr ((List.mem_append.mp h).imp ihy ihn)

/-- A condition that is read as its tree has all its operands closed. -/
theorem allClosed_of_readsAs {l : Lowered} {k : Nat} {cs : List Char}
    (h : Js.ReadsAs k cs l.tree) : l.AllClosed := by
  obtain ⟨ts, hts, hreads⟩ := h
  intro code hcode
  exact Js.closed_of_mem_tokens hts (hreads.mem_of_mem_atoms (braced_mem_atoms hcode))

end Lowered

/-- Lowering keeps the tree of an expression: what it writes is read as the operators of the
expression around its operands in braces and the literals of its values, exactly if every operand is
closed by its own braces and no minus is directly before another one. -/
theorem lower_reads_iff {σ : Type} {style : StyleMap} {lookup : Lookup σ} {e : Expr} {m m' : σ}
    {text : String} (h : (e.lower style lookup).run.run m = (.ok text, m')) :
    ∃ l, (e.lowered style lookup).run.run m = (.ok l, m') ∧
      (Js.ReadsAs 0 text.toList l.tree ↔ l.AllClosed ∧ l.MinusApart) := by
  rw [e.lower_eq, map_eq_pure_bind] at h
  obtain ⟨l, middle, hl, hpure⟩ := run_bind_eq_ok_iff.mp h
  obtain ⟨rfl, rfl⟩ : text = String.ofList l.text ∧ m' = middle := by
    cases hpure
    exact ⟨rfl, rfl⟩
  refine ⟨l, hl, ?_⟩
  rw [String.toList_ofList, ← l.code_braced, ← l.apart_braced_iff]
  constructor
  · intro hreads
    have hclosed := Lowered.allClosed_of_readsAs hreads
    exact ⟨hclosed, ((Lowered.readsAs_code_iff (Lowered.means_braced hclosed).1).mp hreads).2⟩
  · rintro ⟨hclosed, hapart⟩
    obtain ⟨hmeans, hfits⟩ := Lowered.means_braced hclosed
    exact (Lowered.readsAs_code_iff hmeans).mpr ⟨hfits 0, hapart⟩

/-- A subtraction of a negation inside a conditional keeps its tree: the blank behind the operator
keeps the two minuses apart. -/
theorem lower_reads_difference :
    ∃ e text l, e = Expr.ternary
        (.binary .ne (.dynamic "mode" ⟨0, 8⟩) (.str "dark" ⟨12, 18⟩) ⟨0, 18⟩)
        (.binary .sub (.dynamic "a" ⟨21, 26⟩) (.unary .neg (.dynamic "b" ⟨30, 35⟩) ⟨29, 35⟩)
          ⟨21, 35⟩)
        (.bool false ⟨38, 43⟩) ⟨0, 43⟩ ∧
      (e.lower {} (fun _ _ span => throw (.runtimeOperand span) : Lookup Unit)).run.run () =
        (.ok text, ()) ∧
      text = "(\x7b\x7bmode\x7d\x7d !== \"dark\") ? (\x7b\x7ba\x7d\x7d - -\x7b\x7bb\x7d\x7d) : false" ∧
      (e.lowered {} (fun _ _ span => throw (.runtimeOperand span) : Lookup Unit)).run.run () =
        (.ok l, ()) ∧
      l.AllClosed ∧ l.MinusApart ∧ Js.ReadsAs 0 text.toList l.tree := by
  have hrun : (Expr.lower {} (fun _ _ span => throw (.runtimeOperand span) : Lookup Unit)
      (.ternary (.binary .ne (.dynamic "mode" ⟨0, 8⟩) (.str "dark" ⟨12, 18⟩) ⟨0, 18⟩)
        (.binary .sub (.dynamic "a" ⟨21, 26⟩) (.unary .neg (.dynamic "b" ⟨30, 35⟩) ⟨29, 35⟩)
          ⟨21, 35⟩)
        (.bool false ⟨38, 43⟩) ⟨0, 43⟩)).run.run () =
      (.ok "(\x7b\x7bmode\x7d\x7d !== \"dark\") ? (\x7b\x7ba\x7d\x7d - -\x7b\x7bb\x7d\x7d) : false", ()) :=
    rfl
  obtain ⟨l, hl, hreads⟩ := lower_reads_iff hrun
  obtain rfl : l = .ternary (.binary .ne (.operand "mode") (.value (.str "dark")))
      (.binary .sub (.operand "a") (.unary .neg (.operand "b"))) (.value (.bool false)) := by
    cases hl
    rfl
  have hclosed : Lowered.AllClosed (.ternary
      (.binary .ne (.operand "mode") (.value (.str "dark")))
      (.binary .sub (.operand "a") (.unary .neg (.operand "b"))) (.value (.bool false))) := by
    unfold Lowered.AllClosed Js.Closed
    decide
  have hapart : Lowered.MinusApart (.ternary
      (.binary .ne (.operand "mode") (.value (.str "dark")))
      (.binary .sub (.operand "a") (.unary .neg (.operand "b"))) (.value (.bool false))) :=
    ⟨⟨trivial, trivial⟩, ⟨trivial, trivial, fun _ h => h⟩, trivial⟩
  exact ⟨_, _, _, rfl, hrun, rfl, hl, hclosed, hapart, hreads.mpr ⟨hclosed, hapart⟩⟩

/-- The negation of a negation is written as a decrement, which is no expression at all. -/
theorem lower_writes_decrement :
    ∃ e l, Expr.parse "-(-\x7b\x7ba\x7d\x7d)".toList 0 = .ok e ∧
      (e.lower {} (fun _ _ span => throw (.runtimeOperand span) : Lookup Unit)).run.run () =
        (.ok "--\x7b\x7ba\x7d\x7d", ()) ∧
      (e.lowered {} (fun _ _ span => throw (.runtimeOperand span) : Lookup Unit)).run.run () =
        (.ok l, ()) ∧
      l.tree = .unary .minus (.unary .minus (.atom "\x7b\x7ba\x7d\x7d".toList)) ∧
      ∀ k t, ¬ Js.ReadsAs k "--\x7b\x7ba\x7d\x7d".toList t := by
  have hparse : Expr.parse "-(-\x7b\x7ba\x7d\x7d)".toList 0 =
      .ok (.unary .neg (.unary .neg (.dynamic "a" ⟨3, 8⟩) ⟨1, 9⟩) ⟨0, 9⟩) := by
    rw [String.toList_ofList]
    with_unfolding_all rfl
  have htokens : Js.tokens "--\x7b\x7ba\x7d\x7d".toList =
      some [.symbol .decrement, .atom "\x7b\x7ba\x7d\x7d".toList] := by
    rw [String.toList_ofList, String.toList_ofList]
    decide +kernel
  refine ⟨_, .unary .neg (.unary .neg (.operand "a")), hparse, rfl, rfl, by decide, ?_⟩
  rintro k t ⟨ts, hts, hreads⟩
  rw [htokens] at hts
  cases hts
  exact hreads.decrement_not_mem List.mem_cons_self

end Chtl
