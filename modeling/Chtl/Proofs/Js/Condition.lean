import Chtl.Expr.Parse
import Chtl.Proofs.Js.Literal
import Chtl.Proofs.Outcome
import Chtl.Proofs.Script.Unwrap
import Chtl.Proofs.Style.Lowered

/-!
# What a condition means in the page's code

A condition is lowered with braces around the operands that only the page knows, and the braces come
off when it is written out. Nothing is put around the code of an operand, so the condition keeps its
meaning exactly if every operand binds tightly enough for the place that it stands at and no minus
stands directly before another.
-/

set_option autoImplicit false
set_option linter.all false

namespace Chtl

open Text

def UnaryOp.symbol : UnaryOp → Js.Symbol
  | not => .not
  | neg => .minus

def BinaryOp.symbol : BinaryOp → Js.Symbol
  | or => .or
  | and => .and
  | gt => .gt
  | lt => .lt
  | ge => .ge
  | le => .le
  | eq => .strictEq
  | ne => .strictNe
  | add => .plus
  | sub => .minus
  | mul => .times
  | div => .divide

/-- How tightly the operator binds in the page's code. -/
def BinaryOp.level : BinaryOp → Nat
  | or => 1
  | and => 2
  | eq | ne => 3
  | gt | lt | ge | le => 4
  | add | sub => 5
  | mul | div => 6

theorem UnaryOp.isPrefix_symbol (op : UnaryOp) : op.symbol.isPrefix = true := by
  cases op <;> rfl

theorem BinaryOp.text_symbol (op : BinaryOp) : op.symbol.text = op.js.toList := by
  cases op <;> rfl

theorem BinaryOp.level_symbol (op : BinaryOp) : op.symbol.level? = some op.level := by
  cases op <;> rfl

namespace Lowered

/-- The trees that a condition stands for: its own operators around the trees of its operands and of
the literals of its values. -/
inductive Means : Lowered → Js.Tree → Prop
  | value {v : Value} {t : Js.Tree} (h : Js.ReadsAs Js.tight v.toJs.toList t) : Means (.value v) t
  | operand {code : String} {t : Js.Tree} (h : Js.ReadsAs 0 code.toList t) : Means (.operand code) t
  | unary (op : UnaryOp) {a : Lowered} {t : Js.Tree} (h : Means a t) :
      Means (.unary op a) (.unary op.symbol t)
  | binary (op : BinaryOp) {a b : Lowered} {s t : Js.Tree} (ha : Means a s) (hb : Means b t) :
      Means (.binary op a b) (.binary op.symbol s t)
  | ternary {c y n : Lowered} {r s t : Js.Tree} (hc : Means c r) (hy : Means y s) (hn : Means n t) :
      Means (.ternary c y n) (.ternary r s t)

/-- The code of an operand of an operator. -/
def operandCode (l : Lowered) : List Char := l.enclose l.code

/-- No minus stands directly before another. -/
def Apart : Lowered → Prop
  | value _ | operand _ => True
  | unary op a => a.Apart ∧ (op = .neg → a.operandCode.head? ≠ some '-')
  | binary _ a b => a.Apart ∧ b.Apart
  | ternary c y n => c.Apart ∧ y.Apart ∧ n.Apart

/-- Every operand that is not known binds tightly enough for its place. -/
def Fits : (level : Nat) → Lowered → Prop
  | _, value _ => True
  | level, operand code => ∃ t, Js.ReadsAs level code.toList t
  | _, unary _ a => a.Fits Js.tight
  | _, binary op a b => a.Fits op.level ∧ b.Fits (op.level + 1)
  | _, ternary c y n => c.Fits 1 ∧ y.Fits 0 ∧ n.Fits 0

/-- The braces come off: no literal opens any, and all operands are removable. -/
def Bare : Lowered → Prop
  | value v => Script.OpensNone v.toJs.toList
  | operand code => Script.Removable code.toList
  | unary _ a => a.Bare
  | binary _ a b => a.Bare ∧ b.Bare
  | ternary c y n => c.Bare ∧ y.Bare ∧ n.Bare

/-- The code of the operands that are not known. -/
def operands : Lowered → List String
  | value _ => []
  | operand code => [code]
  | unary _ a => a.operands
  | binary _ a b => a.operands ++ b.operands
  | ternary c y n => c.operands ++ (y.operands ++ n.operands)

/-- A condition has a meaning if its operands have. -/
theorem exists_means {l : Lowered} (h : ∀ code ∈ l.operands, ∃ t, Js.ReadsAs 0 code.toList t) :
    ∃ t, l.Means t := by
  induction l with
  | value v =>
    obtain ⟨t, ht⟩ := Js.exists_readsAs_value v
    exact ⟨t, .value ht⟩
  | operand code =>
    obtain ⟨t, ht⟩ := h code List.mem_cons_self
    exact ⟨t, .operand ht⟩
  | unary op a ih =>
    obtain ⟨t, ht⟩ := ih h
    exact ⟨_, .unary op ht⟩
  | binary op a b iha ihb =>
    obtain ⟨ha, hb⟩ := List.forall_mem_append.mp h
    obtain ⟨s, hs⟩ := iha ha
    obtain ⟨t, ht⟩ := ihb hb
    exact ⟨_, .binary op hs ht⟩
  | ternary c y n ihc ihy ihn =>
    obtain ⟨hc, h⟩ := List.forall_mem_append.mp h
    obtain ⟨hy, hn⟩ := List.forall_mem_append.mp h
    obtain ⟨r, hr⟩ := ihc hc
    obtain ⟨s, hs⟩ := ihy hy
    obtain ⟨t, ht⟩ := ihn hn
    exact ⟨_, .ternary hr hs ht⟩

/-! ## Taking off the braces -/

/-- Taking off the braces leaves the code of the condition, whatever follows. -/
def Unwraps (text code : List Char) : Prop :=
  ∀ rest, Script.unwrapOperands (text ++ rest) = code ++ Script.unwrapOperands rest

theorem Unwraps.append {text code text' code' : List Char} (h : Unwraps text code)
    (h' : Unwraps text' code') : Unwraps (text ++ text') (code ++ code') := fun rest => by
  rw [List.append_assoc, h, h', List.append_assoc]

/-- What has no braces stays as it is. -/
theorem unwraps_plain (cs : List Char) (h : '{' ∉ cs) : Unwraps cs cs := fun rest => by
  refine Script.unwrapOperands_append (fun hin => ?_) rest
  obtain ⟨front, back, heq⟩ := hin
  have hcount := congrArg (List.count '{') heq
  simp only [List.count_append, List.count_cons_self, List.count_nil,
    List.count_eq_zero_of_not_mem h] at hcount
  omega

theorem unwraps_enclose {l : Lowered} (h : Unwraps l.text l.code) :
    Unwraps (l.enclose l.text) (l.enclose l.code) := by
  unfold enclose
  cases l.isCompound with
  | false => exact h
  | true =>
    exact (unwraps_plain ['('] (by decide)).append
      (h.append (unwraps_plain [')'] (by decide)))

theorem unwraps_text {l : Lowered} {t : Js.Tree} (hmeans : l.Means t) (hbare : l.Bare) :
    Unwraps l.text l.code := by
  induction hmeans with
  | value h => exact Script.unwrapOperands_append hbare
  | @operand code t h => 
    intro rest
    simpa [text, Lowered.code, write] using Script.unwrapOperands_operand hbare h.ne_nil rest
  | unary op h ih =>
    have hop : '{' ∉ op.js.toList := by
      cases op <;> decide
    exact (unwraps_plain _ hop).append (unwraps_enclose (ih hbare))
  | @binary op a b s t ha hb iha ihb =>
    have hop : '{' ∉ ' ' :: (op.js.toList ++ [' ']) := by
      cases op <;> decide
    have h := (unwraps_enclose (iha hbare.1)).append
      ((unwraps_plain _ hop).append (unwraps_enclose (ihb hbare.2)))
    simpa [text, Lowered.code, write] using h
  | @ternary c y n r s t hc hy hn ihc ihy ihn =>
    obtain ⟨hc', hy', hn'⟩ := hbare
    have h := (unwraps_enclose (ihc hc')).append
      ((unwraps_plain [' ', '?', ' '] (by decide)).append
        ((unwraps_enclose (ihy hy')).append
          ((unwraps_plain [' ', ':', ' '] (by decide)).append (unwraps_enclose (ihn hn')))))
    simpa [text, Lowered.code, write] using h

/-! ## Rows of tokens -/

theorem tokens_enclose {l : Lowered} {ts : List Js.Token} (h : Js.tokens l.code = some ts) :
    Js.tokens l.operandCode = some
      (if l.isCompound then Js.Token.symbol .leftParen :: (ts ++ [Js.Token.symbol .rightParen])
      else ts) := by
  unfold operandCode enclose
  cases l.isCompound with
  | false => exact h
  | true => exact Js.tokens_parens h

theorem head_operandCode {l : Lowered} {t : Js.Tree} (hmeans : l.Means t) :
    l.operandCode.head? ≠ some '=' := by
  cases hmeans with
  | value h => exact h.head_ne
  | operand h => exact h.head_ne
  | unary op h =>
    cases op <;> (simp [operandCode, enclose, isCompound, code, write, UnaryOp.js])
  | binary op ha hb => simp [operandCode, enclose, isCompound]
  | ternary hc hy hn => simp [operandCode, enclose, isCompound]

/-- The row of an operator before an operand, unless it merges with a minus. -/
theorem tokens_unary {op : UnaryOp} {a : Lowered} {t : Js.Tree} {ts : List Js.Token}
    (hmeans : a.Means t) (h : Js.tokens a.operandCode = some ts)
    (hapart : op = .neg → a.operandCode.head? ≠ some '-') :
    Js.tokens (unary op a).code = some (.symbol op.symbol :: ts) := by
  cases op with
  | not =>
    refine (Js.tokens_not (head_operandCode hmeans)).trans ?_
    rw [h]
    rfl
  | neg =>
    refine (Js.tokens_minus (hapart rfl)).trans ?_
    rw [h]
    rfl

theorem tokens_binary (op : BinaryOp) {a b : Lowered} {ts us : List Js.Token}
    (ha : Js.tokens a.operandCode = some ts) (hb : Js.tokens b.operandCode = some us) :
    Js.tokens (binary op a b).code = some (ts ++ .symbol op.symbol :: us) := by
  have h := Js.tokens_spaced op.symbol ha hb
  rwa [op.text_symbol] at h

theorem tokens_ternary {c y n : Lowered} {ts us vs : List Js.Token}
    (hc : Js.tokens c.operandCode = some ts) (hy : Js.tokens y.operandCode = some us)
    (hn : Js.tokens n.operandCode = some vs) :
    Js.tokens (ternary c y n).code =
      some (ts ++ .symbol .question :: (us ++ .symbol .colon :: vs)) :=
  Js.tokens_spaced .question hc (Js.tokens_spaced .colon hy hn)

/-- A row that counts what its tree counts, and closes what it opens. -/
structure Counts (ts : List Js.Token) (t : Js.Tree) : Prop where
  weight : Js.weight ts = t.weight
  depth : Js.depth ts = 0

theorem Counts.of_reads {k : Nat} {ts : List Js.Token} {t : Js.Tree} (h : Js.Reads k ts t) :
    Counts ts t :=
  ⟨h.weight, h.depth⟩

theorem tokens_operandCode {l : Lowered} {t : Js.Tree}
    (h : ∃ ts, Js.tokens l.code = some ts ∧ Counts ts t) :
    ∃ ts, Js.tokens l.operandCode = some ts ∧ Counts ts t := by
  obtain ⟨ts, hts, hcounts⟩ := h
  refine ⟨_, tokens_enclose hts, ?_⟩
  cases l.isCompound with
  | false => exact hcounts
  | true =>
    refine ⟨?_, ?_⟩
    · simpa [Js.Token.weight] using hcounts.weight
    · simp [Js.Token.opens, hcounts.depth]

/-- The row of a condition counts what its tree counts, and closes what it opens. -/
theorem tokens_code {l : Lowered} {t : Js.Tree} (hmeans : l.Means t) (hapart : l.Apart) :
    ∃ ts, Js.tokens l.code = some ts ∧ Counts ts t := by
  induction hmeans with
  | value h =>
    obtain ⟨ts, hts, hreads⟩ := h
    exact ⟨ts, hts, .of_reads hreads⟩
  | operand h =>
    obtain ⟨ts, hts, hreads⟩ := h
    exact ⟨ts, hts, .of_reads hreads⟩
  | unary op h ih =>
    obtain ⟨ts, hts, hcounts⟩ := tokens_operandCode (ih hapart.1)
    refine ⟨_, tokens_unary h hts hapart.2, ?_, ?_⟩
    · rw [Js.weight_cons, Js.Symbol.weight_of_isPrefix op.isPrefix_symbol, hcounts.weight,
        Js.Tree.weight, Nat.add_comm]
    · rw [Js.depth_cons, Js.Symbol.opens_of_isPrefix op.isPrefix_symbol, hcounts.depth]
      rfl
  | binary op ha hb iha ihb =>
    obtain ⟨ts, hts, hcounts⟩ := tokens_operandCode (iha hapart.1)
    obtain ⟨us, hus, hcounts'⟩ := tokens_operandCode (ihb hapart.2)
    refine ⟨_, tokens_binary op hts hus, ?_, ?_⟩
    · rw [Js.weight_append, Js.weight_cons, Js.Symbol.weight_of_level op.level_symbol,
        hcounts.weight, hcounts'.weight, Js.Tree.weight]
      omega
    · rw [Js.depth_append, Js.depth_cons, Js.Symbol.opens_of_level op.level_symbol, hcounts.depth,
        hcounts'.depth]
      rfl
  | ternary hc hy hn ihc ihy ihn =>
    obtain ⟨ts, hts, hcounts⟩ := tokens_operandCode (ihc hapart.1)
    obtain ⟨us, hus, hcounts'⟩ := tokens_operandCode (ihy hapart.2.1)
    obtain ⟨vs, hvs, hcounts''⟩ := tokens_operandCode (ihn hapart.2.2)
    refine ⟨_, tokens_ternary hts hus hvs, ?_, ?_⟩
    · simp only [Js.weight_append, Js.weight_cons, Js.Token.weight, hcounts.weight, hcounts'.weight,
        hcounts''.weight, Js.Tree.weight]
      omega
    · simp [Js.Token.opens, hcounts.depth, hcounts'.depth, hcounts''.depth]

/-- A minus directly before another shows in the row as a decrement. -/
theorem apart_or_decrement {l : Lowered} {t : Js.Tree} (hmeans : l.Means t) :
    ∃ ts, Js.tokens l.code = some ts ∧ (l.Apart ∨ .symbol .decrement ∈ ts) := by
  have henclose {a : Lowered}
      (h : ∃ ts, Js.tokens a.code = some ts ∧ (a.Apart ∨ .symbol .decrement ∈ ts)) :
      ∃ ts, Js.tokens a.operandCode = some ts ∧ (a.Apart ∨ .symbol .decrement ∈ ts) := by
    obtain ⟨ts, hts, happart⟩ := h
    refine ⟨_, tokens_enclose hts, happart.imp_right fun hmem => ?_⟩
    split_ifs <;> simp [hmem]
  induction hmeans with
  | value h =>
    obtain ⟨ts, hts, -⟩ := h
    exact ⟨ts, hts, .inl trivial⟩
  | operand h =>
    obtain ⟨ts, hts, -⟩ := h
    exact ⟨ts, hts, .inl trivial⟩
  | @unary op a t h ih =>
    obtain ⟨ts, hts, hrest⟩ := henclose ih
    by_cases hmerge : op = .neg ∧ a.operandCode.head? = some '-'
    · obtain ⟨rfl, hhead⟩ := hmerge
      obtain ⟨rest, hcode⟩ := List.head?_eq_some_iff.mp hhead
      obtain ⟨us, hus⟩ := Js.exists_tokens_minus _ hts
      refine ⟨us, hus, .inr ?_⟩
      rw [hcode, Js.tokens_decrement] at hus
      obtain ⟨vs, -, rfl⟩ := Option.map_eq_some_iff.mp hus
      exact List.mem_cons_self
    · have hapart : op = .neg → a.operandCode.head? ≠ some '-' := fun hop hhead =>
        hmerge ⟨hop, hhead⟩
      exact ⟨_, tokens_unary h hts hapart,
        hrest.imp (fun ha => ⟨ha, hapart⟩) (List.mem_cons_of_mem _)⟩
  | binary op ha hb iha ihb =>
    obtain ⟨ts, hts, ha⟩ := henclose iha
    obtain ⟨us, hus, hb⟩ := henclose ihb
    refine ⟨_, tokens_binary op hts hus, ?_⟩
    rcases ha with ha | ha
    · exact hb.imp (fun hb => ⟨ha, hb⟩) fun hb => by simp [hb]
    · exact .inr (by simp [ha])
  | ternary hc hy hn ihc ihy ihn =>
    obtain ⟨ts, hts, hc⟩ := henclose ihc
    obtain ⟨us, hus, hy⟩ := henclose ihy
    obtain ⟨vs, hvs, hn⟩ := henclose ihn
    refine ⟨_, tokens_ternary hts hus hvs, ?_⟩
    rcases hc with hc | hc
    · rcases hy with hy | hy
      · exact hn.imp (fun hn => ⟨hc, hy, hn⟩) fun hn => by simp [hn]
      · exact .inr (by simp [hy])
    · exact .inr (by simp [hc])

/-- A condition that is read as it is meant has no minus directly before another. -/
theorem apart_of_readsAs {l : Lowered} {t t' : Js.Tree} {k : Nat} (hmeans : l.Means t)
    (h : Js.ReadsAs k l.code t') : l.Apart := by
  obtain ⟨ts, hts, hreads⟩ := h
  obtain ⟨us, hus, hapart⟩ := apart_or_decrement hmeans
  rw [hts] at hus
  cases hus
  exact hapart.resolve_right hreads.decrement_not_mem

/-! ## Operands that fit their places -/

/-- Where every operand fits its place, the condition is read as it is meant. -/
theorem readsAs_of_fits {l : Lowered} {t : Js.Tree} (hmeans : l.Means t) (hapart : l.Apart) :
    (∀ k ≤ Js.tight, l.Fits k → Js.ReadsAs k l.operandCode t) ∧
      (l.Fits 0 → Js.ReadsAs 0 l.code t) := by
  -- In parentheses a condition is read at every level.
  have hparens {l : Lowered} {t : Js.Tree} (hl : l.isCompound = true)
      (h : l.Fits 0 → Js.ReadsAs 0 l.code t) (k : Nat) (hfits : l.Fits 0) :
      Js.ReadsAs k l.operandCode t := by
    obtain ⟨ts, hts, hreads⟩ := h hfits
    exact ⟨_, tokens_enclose hts, by simpa [hl] using .parens hreads⟩
  induction hmeans with
  | value h => exact ⟨fun k hk _ => h.mono hk, fun _ => h.mono (Nat.zero_le _)⟩
  | operand h =>
    refine ⟨fun k hk hfits => ?_, fun _ => h⟩
    obtain ⟨t', h'⟩ := hfits
    exact h'.unique h ▸ h'
  | @unary op a t h ih =>
    have hreads (k : Nat) (hfits : a.Fits Js.tight) :
        Js.ReadsAs k (unary op a).code (.unary op.symbol t) := by
      obtain ⟨ts, hts, hreads⟩ := (ih hapart.1).1 Js.tight le_rfl hfits
      exact ⟨_, tokens_unary h hts hapart.2, .unary op.isPrefix_symbol hreads⟩
    exact ⟨fun k _ => hreads k, hreads 0⟩
  | @binary op a b s t ha hb iha ihb =>
    have hlevel := Js.Symbol.level_range op.level_symbol
    have hreads (hfits : (binary op a b).Fits 0) :
        Js.ReadsAs 0 (binary op a b).code (.binary op.symbol s t) := by
      obtain ⟨ts, hts, hleft⟩ := (iha hapart.1).1 op.level hlevel.2.le hfits.1
      obtain ⟨us, hus, hright⟩ := (ihb hapart.2).1 (op.level + 1) hlevel.2 hfits.2
      exact ⟨_, tokens_binary op hts hus, .binary (Nat.zero_le _) op.level_symbol hleft hright⟩
    exact ⟨fun k _ => hparens rfl hreads k, hreads⟩
  | @ternary c y n r s t hc hy hn ihc ihy ihn =>
    have hreads (hfits : (ternary c y n).Fits 0) :
        Js.ReadsAs 0 (ternary c y n).code (.ternary r s t) := by
      obtain ⟨ts, hts, hcond⟩ := (ihc hapart.1).1 1 (by decide) hfits.1
      obtain ⟨us, hus, hyes⟩ := (ihy hapart.2.1).1 0 (by decide) hfits.2.1
      obtain ⟨vs, hvs, hno⟩ := (ihn hapart.2.2).1 0 (by decide) hfits.2.2
      exact ⟨_, tokens_ternary hts hus hvs, .ternary hcond hyes hno⟩
    exact ⟨fun k _ => hparens rfl hreads k, hreads⟩

/-- Where a condition is read as it is meant, every operand fits its place. -/
theorem fits_of_readsAs {l : Lowered} {t : Js.Tree} (hmeans : l.Means t) (hapart : l.Apart) :
    (∀ k, Js.ReadsAs k l.operandCode t → l.Fits k) ∧ (Js.ReadsAs 0 l.code t → l.Fits 0) := by
  induction hmeans with
  | value h => exact ⟨fun _ _ => trivial, fun _ => trivial⟩
  | operand h => exact ⟨fun _ h => ⟨_, h⟩, fun h => ⟨_, h⟩⟩
  | @unary op a t h ih =>
    obtain ⟨ts, hts, -⟩ := tokens_operandCode (tokens_code h hapart.1)
    have hfits (k : Nat) (hreads : Js.ReadsAs k (unary op a).code (.unary op.symbol t)) :
        a.Fits Js.tight := by
      obtain ⟨row, hrow, hreads⟩ := hreads
      rw [tokens_unary h hts hapart.2] at hrow
      cases hrow
      exact (ih hapart.1).1 Js.tight ⟨ts, hts, hreads.operand op.isPrefix_symbol⟩
    exact ⟨hfits, hfits 0⟩
  | @binary op a b s t ha hb iha ihb =>
    obtain ⟨ts, hts, hcounts⟩ := tokens_operandCode (tokens_code ha hapart.1)
    obtain ⟨us, hus, -⟩ := tokens_operandCode (tokens_code hb hapart.2)
    have hrow := tokens_binary op hts hus
    have hboth (h : Js.Reads op.level ts s ∧ Js.Reads (op.level + 1) us t) :
        (binary op a b).Fits 0 :=
      ⟨(iha hapart.1).1 _ ⟨ts, hts, h.1⟩, (ihb hapart.2).1 _ ⟨us, hus, h.2⟩⟩
    refine ⟨fun k hreads => ?_, fun hreads => ?_⟩
    · obtain ⟨row, hrow', hreads⟩ := hreads
      rw [tokens_enclose hrow] at hrow'
      cases hrow'
      exact hboth (hreads.operands_of_parens op.level_symbol hcounts.weight hcounts.depth)
    · obtain ⟨row, hrow', hreads⟩ := hreads
      rw [hrow] at hrow'
      cases hrow'
      exact hboth (hreads.operands op.level_symbol hcounts.weight hcounts.depth)
  | @ternary c y n r s t hc hy hn ihc ihy ihn =>
    obtain ⟨ts, hts, hcounts⟩ := tokens_operandCode (tokens_code hc hapart.1)
    obtain ⟨us, hus, hcounts'⟩ := tokens_operandCode (tokens_code hy hapart.2.1)
    obtain ⟨vs, hvs, -⟩ := tokens_operandCode (tokens_code hn hapart.2.2)
    have hrow := tokens_ternary hts hus hvs
    have hall (h : Js.Reads 1 ts r ∧ Js.Reads 0 us s ∧ Js.Reads 0 vs t) :
        (ternary c y n).Fits 0 :=
      ⟨(ihc hapart.1).1 _ ⟨ts, hts, h.1⟩, (ihy hapart.2.1).1 _ ⟨us, hus, h.2.1⟩,
        (ihn hapart.2.2).1 _ ⟨vs, hvs, h.2.2⟩⟩
    refine ⟨fun k hreads => ?_, fun hreads => ?_⟩
    · obtain ⟨row, hrow', hreads⟩ := hreads
      rw [tokens_enclose hrow] at hrow'
      cases hrow'
      exact hall (hreads.parts_of_parens hcounts.weight hcounts.depth hcounts'.weight)
    · obtain ⟨row, hrow', hreads⟩ := hreads
      rw [hrow] at hrow'
      cases hrow'
      exact hall (hreads.parts hcounts.weight hcounts.depth hcounts'.weight)

theorem readsAs_code_iff {l : Lowered} {t : Js.Tree} (hmeans : l.Means t) :
    Js.ReadsAs 0 l.code t ↔ l.Fits 0 ∧ l.Apart := by
  constructor
  · intro h
    have hapart := apart_of_readsAs hmeans h
    exact ⟨(fits_of_readsAs hmeans hapart).2 h, hapart⟩
  · rintro ⟨hfits, hapart⟩
    exact (readsAs_of_fits hmeans hapart).2 hfits

end Lowered

/-- What becomes of a condition. It is lowered to its own text with braces around the operands; where
the braces come off and every operand is an expression, the code in the page is read as the condition
exactly if all operands fit their places and no minus stands directly before another. -/
theorem unwrapped_lower_reads_iff {σ : Type} {style : StyleMap} {lookup : Lookup σ} {e : Expr}
    {m m' : σ} {text : String} (h : (e.lower style lookup).run.run m = (.ok text, m')) :
    ∃ l, (e.lowered style lookup).run.run m = (.ok l, m') ∧ text = String.ofList l.text ∧
      (l.Bare → (∀ code ∈ l.operands, ∃ t, Js.ReadsAs 0 code.toList t) →
        Script.unwrapped text = String.ofList l.code ∧ ∃ t, l.Means t ∧
          (Js.ReadsAs 0 (Script.unwrapped text).toList t ↔ l.Fits 0 ∧ l.Apart)) := by
  rw [e.lower_eq, map_eq_pure_bind] at h
  obtain ⟨l, middle, hl, hpure⟩ := run_bind_eq_ok_iff.mp h
  obtain ⟨htext, rfl⟩ : text = String.ofList l.text ∧ m' = middle := by
    cases hpure
    exact ⟨rfl, rfl⟩
  refine ⟨l, hl, htext, fun hbare hoperands => ?_⟩
  obtain ⟨t, hmeans⟩ := l.exists_means hoperands
  have hunwrapped : Script.unwrapOperands l.text = l.code := by
    have hwhole := l.unwraps_text hmeans hbare []
    rw [List.append_nil, Script.unwrapOperands, List.append_nil] at hwhole
    exact hwhole
  have hcode : Script.unwrapped text = String.ofList l.code := by
    rw [Script.unwrapped, htext, String.toList_ofList, hunwrapped]
  refine ⟨hcode, t, hmeans, ?_⟩
  rw [hcode, String.toList_ofList]
  exact l.readsAs_code_iff hmeans

/-- A connective in an operand is read as it is meant where the operand is compared on its own, in
parentheses that the condition has around it. -/
theorem unwrapped_lower_reads_mode :
    ∃ e text l t, e = Expr.binary .and
        (.binary .eq (.dynamic "app.mode" ⟨0, 12⟩) (.str "dark" ⟨16, 22⟩) ⟨0, 22⟩)
        (.unary .not (.dynamic "busy" ⟨27, 35⟩) ⟨26, 35⟩) ⟨0, 35⟩ ∧
      (e.lower {} (fun _ _ span => throw (.runtimeOperand span) : Lookup Unit)).run.run () =
        (.ok text, ()) ∧
      text = "(\x7b\x7bapp.mode\x7d\x7d === \"dark\") && !\x7b\x7bbusy\x7d\x7d" ∧
      Script.unwrapped text = "(app.mode === \"dark\") && !busy" ∧
      Lowered.Means l t ∧ Js.ReadsAs 0 (Script.unwrapped text).toList t := by
  have hrun : (Expr.lower {} (fun _ _ span => throw (.runtimeOperand span) : Lookup Unit)
      (.binary .and (.binary .eq (.dynamic "app.mode" ⟨0, 12⟩) (.str "dark" ⟨16, 22⟩) ⟨0, 22⟩)
        (.unary .not (.dynamic "busy" ⟨27, 35⟩) ⟨26, 35⟩) ⟨0, 35⟩)).run.run () =
      (.ok "(\x7b\x7bapp.mode\x7d\x7d === \"dark\") && !\x7b\x7bbusy\x7d\x7d", ()) := rfl
  obtain ⟨l, hl, -, hreads⟩ := unwrapped_lower_reads_iff hrun
  obtain rfl : l = .binary .and (.binary .eq (.operand "app.mode") (.value (.str "dark")))
      (.unary .not (.operand "busy")) := by
    cases hl
    rfl
  have hmode : Js.ReadsAs 3 "app.mode".toList (.atom "app.mode".toList) :=
    ⟨[.atom "app.mode".toList], by rw [String.toList_ofList]; decide +kernel, .atom _⟩
  have hbusy : Js.ReadsAs Js.tight "busy".toList (.atom "busy".toList) :=
    ⟨[.atom "busy".toList], by rw [String.toList_ofList]; decide +kernel, .atom _⟩
  have hmode' : Script.Removable "app.mode".toList :=
    .of_ends rfl rfl (by decide) (by decide) (by decide) (by decide)
  have hbusy' : Script.Removable "busy".toList :=
    .of_ends rfl rfl (by decide) (by decide) (by decide) (by decide)
  have hdark : Script.OpensNone (Value.str "dark").toJs.toList := by
    unfold Script.OpensNone
    decide
  obtain ⟨hcode, t, hmeans, hiff⟩ := hreads ⟨⟨hmode', hdark⟩, hbusy'⟩
    (by simpa [Lowered.operands] using
      ⟨⟨_, hmode.mono (Nat.zero_le _)⟩, ⟨_, hbusy.mono (Nat.zero_le _)⟩⟩)
  refine ⟨_, _, _, t, rfl, hrun, rfl, ?_, hmeans, hiff.mpr ⟨⟨⟨⟨_, hmode⟩, trivial⟩, ⟨_, hbusy⟩⟩,
    ⟨trivial, trivial⟩, trivial, fun h => by cases h⟩⟩
  rw [hcode]
  rfl

/-- An operand that is looser than the operator beside it is split: the connective in its code takes
the other operand of the condition. -/
theorem unwrapped_lower_splits_operand :
    ∃ e l t, Expr.parse "\x7b\x7ba || b\x7d\x7d && \x7b\x7bc\x7d\x7d".toList 0 = .ok e ∧
      (e.lower {} (fun _ _ span => throw (.runtimeOperand span) : Lookup Unit)).run.run () =
        (.ok "\x7b\x7ba || b\x7d\x7d && \x7b\x7bc\x7d\x7d", ()) ∧
      (e.lowered {} (fun _ _ span => throw (.runtimeOperand span) : Lookup Unit)).run.run () =
        (.ok l, ()) ∧
      l.Means t ∧
      t = .binary .and (.binary .or (.atom ['a']) (.atom ['b'])) (.atom ['c']) ∧
      Script.unwrapped "\x7b\x7ba || b\x7d\x7d && \x7b\x7bc\x7d\x7d" = "a || b && c" ∧
      Js.ReadsAs 0 "a || b && c".toList
        (.binary .or (.atom ['a']) (.binary .and (.atom ['b']) (.atom ['c']))) ∧
      ¬ Js.ReadsAs 0 "a || b && c".toList t := by
  have hparse : Expr.parse "\x7b\x7ba || b\x7d\x7d && \x7b\x7bc\x7d\x7d".toList 0 =
      .ok (.binary .and (.dynamic "a || b" ⟨0, 10⟩) (.dynamic "c" ⟨14, 19⟩) ⟨0, 19⟩) := by
    rw [String.toList_ofList]
    with_unfolding_all rfl
  have hor : Js.ReadsAs 0 "a || b".toList (.binary .or (.atom ['a']) (.atom ['b'])) := by
    rw [String.toList_ofList]
    exact ⟨[Js.Token.atom ['a']] ++ Js.Token.symbol .or :: [.atom ['b']], by decide +kernel,
      .binary (Nat.zero_le 1) rfl (.atom ['a']) (.atom ['b'])⟩
  have hname : Js.ReadsAs 0 "c".toList (.atom ['c']) :=
    ⟨[.atom ['c']], by rw [String.toList_ofList]; decide +kernel, .atom ['c']⟩
  have hwhole : Js.ReadsAs 0 "a || b && c".toList
      (.binary .or (.atom ['a']) (.binary .and (.atom ['b']) (.atom ['c']))) := by
    rw [String.toList_ofList]
    exact ⟨[Js.Token.atom ['a']] ++ Js.Token.symbol .or ::
        ([Js.Token.atom ['b']] ++ Js.Token.symbol .and :: [.atom ['c']]),
      by decide +kernel,
      .binary (Nat.zero_le 1) rfl (.atom ['a']) (.binary le_rfl rfl (.atom ['b']) (.atom ['c']))⟩
  refine ⟨_, .binary .and (.operand "a || b") (.operand "c"), _, hparse, rfl, rfl,
    .binary .and (.operand hor) (.operand hname), rfl, ?_, hwhole, fun h => ?_⟩
  · decide +kernel
  · have := h.unique hwhole
    simp at this

end Chtl
