import Chtl.Expr.Parse
import Chtl.Proofs.Text.Basic

/-!
# Spans of expressions

Reading an expression looks at nothing but its text: the spans of all nodes, and of a fault, lie in
the text, and each of them starts before it stops.
-/

set_option autoImplicit false
set_option linter.all false

namespace Chtl

open Text

/-- The span lies between two offsets. -/
def Span.Between (low high : Nat) (s : Span) : Prop :=
  low ≤ s.start ∧ s.start ≤ s.stop ∧ s.stop ≤ high

namespace Span.Between

variable {low high : Nat} {a b : Span}

theorem cover (ha : a.Between low high) (hb : b.Between low high) :
    (a.cover b).Between low high := by
  obtain ⟨hlow, hle, hhigh⟩ := ha
  obtain ⟨hlow', hle', hhigh'⟩ := hb
  unfold Span.cover
  refine ⟨?_, ?_, ?_⟩ <;> dsimp only <;> omega

theorem mono {wide : Nat} (h : a.Between low high) (hwide : high ≤ wide) : a.Between low wide :=
  ⟨h.1, h.2.1, Nat.le_trans h.2.2 hwide⟩

theorem point (hle : low ≤ high) : (Span.point high).Between low high :=
  ⟨hle, Nat.le_refl _, Nat.le_refl _⟩

end Span.Between

namespace Expr

/-- The spans of all nodes are such. -/
def All (spans : Span → Prop) : Expr → Prop
  | number _ _ s | str _ s | bool _ s | ident _ s | reference _ _ s | dynamic _ s => spans s
  | unary _ e s => spans s ∧ e.All spans
  | binary _ lhs rhs s => spans s ∧ lhs.All spans ∧ rhs.All spans
  | ternary cond yes no s => spans s ∧ cond.All spans ∧ yes.All spans ∧ no.All spans

variable {spans : Span → Prop}

theorem All.root {e : Expr} (h : e.All spans) : spans e.span := by
  cases e with
  | unary | binary | ternary => exact h.1
  | _ => exact h

theorem All.withSpan {e : Expr} (h : e.All spans) {s : Span} (hs : spans s) :
    (e.withSpan s).All spans := by
  cases e with
  | unary | binary | ternary => exact ⟨hs, h.2⟩
  | _ => exact hs

theorem All.mono {wide : Span → Prop} {e : Expr} (h : e.All spans) (hwide : ∀ s, spans s → wide s) :
    e.All wide := by
  induction e with
  | unary _ _ _ ih => exact ⟨hwide _ h.1, ih h.2⟩
  | binary _ _ _ _ ihl ihr => exact ⟨hwide _ h.1, ihl h.2.1, ihr h.2.2⟩
  | ternary _ _ _ _ ihc ihy ihn => exact ⟨hwide _ h.1, ihc h.2.1, ihy h.2.2.1, ihn h.2.2.2⟩
  | _ => exact hwide _ h

/-! ## Tokens -/

theorem size_take_le (n : Nat) (cs : List Char) : size (cs.take n) ≤ size cs := by
  have hsplit := congrArg size (List.take_append_drop n cs)
  rw [size_append] at hsplit
  omega

/-- Tokens, and a fault among them, lie in the text. -/
theorem tokens_between (offset : Nat) (cs : List Char) :
    match tokens offset cs with
    | .ok ts => ∀ t ∈ ts, t.span.Between offset (offset + size cs)
    | .error e => e.span.Between offset (offset + size cs) := by
  fun_induction tokens offset cs with
  | case1 => simp
  | case2 offset c rest hblank ih =>
    have hwide {s : Span} (h : s.Between (offset + c.utf8Size) (offset + c.utf8Size + size rest)) :
        s.Between offset (offset + size (c :: rest)) := by
      rw [size_cons]
      exact ⟨Nat.le_trans (Nat.le_add_right _ _) h.1, h.2.1, by have := h.2.2; omega⟩
    split at ih
    · exact fun t ht => hwide (ih t ht)
    · exact hwide ih
  | case3 offset c rest _ fault n herror =>
    have htake := size_take_le n rest
    rw [size_cons, size_cons]
    exact ⟨Nat.le_refl _, Nat.le_add_right _ _, by dsimp only; omega⟩
  | case4 offset c rest _ lexeme n hlexeme stop ih =>
    have htake := size_take_le n rest
    have hdrop := congrArg size (List.take_append_drop n rest)
    rw [size_append] at hdrop
    have hstop : stop + size (rest.drop n) = offset + size (c :: rest) := by
      simp only [stop, size_cons]
      omega
    have hwide {s : Span} (h : s.Between stop (stop + size (rest.drop n))) :
        s.Between offset (offset + size (c :: rest)) := by
      refine ⟨Nat.le_trans (Nat.le_add_right _ _) h.1, h.2.1, ?_⟩
      rw [← hstop]
      exact h.2.2
    have hown : Span.Between offset (offset + size (c :: rest)) ⟨offset, stop⟩ :=
      ⟨Nat.le_refl _, Nat.le_add_right _ _, by dsimp only; omega⟩
    cases htokens : tokens stop (rest.drop n) with
    | error e =>
      rw [htokens] at ih
      exact hwide ih
    | ok ts =>
      rw [htokens] at ih
      exact List.forall_mem_cons.mpr ⟨hown, fun t ht => hwide (ih t ht)⟩

/-! ## Levels -/

/-- The spans of what is read are such: those of the expression and of the tokens that are left, or
that of the fault. -/
def Reads (spans : Span → Prop) : Reading → Prop
  | .ok (e, ts) => e.All spans ∧ ∀ t ∈ ts, spans t.span
  | .error e => spans e.span

section

variable {stop : Span} {nested next : List Token → Reading} {ts : List Token}

theorem nextSpan_of (hstop : spans stop) (hts : ∀ t ∈ ts, spans t.span) :
    spans (nextSpan stop ts) := by
  cases ts with
  | nil => exact hstop
  | cons t ts => exact hts t List.mem_cons_self

theorem attached_of {offset : Nat} {name : String} {last : Span} {more : List Token}
    (h : attached? offset ts = some (name, last, more)) (hts : ∀ t ∈ ts, spans t.span) :
    spans last ∧ ∀ t ∈ more, spans t.span := by
  unfold attached? at h
  split at h
  · split_ifs at h
    cases h
    exact ⟨hts _ List.mem_cons_self, fun t ht => hts t (List.mem_cons_of_mem _ ht)⟩
  · cases h

variable (hcover : ∀ a b, spans a → spans b → spans (a.cover b)) (hstop : spans stop)
  (hnested : ∀ ts, (∀ t ∈ ts, spans t.span) → Reads spans (nested ts))
  (hnext : ∀ ts, (∀ t ∈ ts, spans t.span) → Reads spans (next ts))

include hcover hstop hnested in
theorem reads_operand (hts : ∀ t ∈ ts, spans t.span) : Reads spans (operand stop nested ts) := by
  cases ts with
  | nil => exact hstop
  | cons t rest =>
    obtain ⟨lexeme, span⟩ := t
    obtain ⟨hspan, hrest⟩ := List.forall_mem_cons.mp hts
    cases lexeme with
    | ident name =>
      rw [operand]
      split_ifs
      · exact ⟨hspan, hrest⟩
      · split
        · rename_i hattached
          obtain ⟨hlast, hmore⟩ := attached_of hattached hrest
          exact ⟨hcover _ _ hspan hlast, hmore⟩
        · exact ⟨hspan, hrest⟩
    | hash name =>
      rw [operand]
      split
      · rename_i hattached
        obtain ⟨hlast, hmore⟩ := attached_of hattached hrest
        exact ⟨hcover _ _ hspan hlast, hmore⟩
      · exact hspan
    | dot name =>
      rw [operand]
      split
      · rename_i hattached
        obtain ⟨hlast, hmore⟩ := attached_of hattached hrest
        exact ⟨hcover _ _ hspan hlast, hmore⟩
      · exact hspan
    | leftParen =>
      have hinner := hnested rest hrest
      rw [operand]
      split
      · rename_i hread
        rw [hread] at hinner
        exact hinner
      · rename_i hread
        rw [hread] at hinner
        obtain ⟨hall, hleft⟩ := hinner
        obtain ⟨hclose, hmore⟩ := List.forall_mem_cons.mp hleft
        exact ⟨hall.withSpan (hcover _ _ hspan hclose), hmore⟩
      · rename_i hread
        rw [hread] at hinner
        exact nextSpan_of hstop hinner.2
    | rightParen | sign => exact hspan
    | _ => exact ⟨hspan, hrest⟩

include hcover hstop hnested in
theorem reads_signed (hts : ∀ t ∈ ts, spans t.span) : Reads spans (signed stop nested ts) := by
  have hsign (op : UnaryOp) {span : Span} {rest : List Token} (hspan : spans span)
      (h : Reads spans (signed stop nested rest)) :
      Reads spans ((signed stop nested rest).map fun r =>
        (.unary op r.1 (span.cover r.1.span), r.2)) := by
    cases hread : signed stop nested rest with
    | error e =>
      rw [hread] at h
      exact h
    | ok r =>
      rw [hread] at h
      exact ⟨⟨hcover _ _ hspan h.1.root, h.1⟩, h.2⟩
  fun_induction signed stop nested ts with
  | case1 span rest ih =>
    obtain ⟨hspan, hrest⟩ := List.forall_mem_cons.mp hts
    exact hsign .not hspan (ih hrest)
  | case2 span rest ih =>
    obtain ⟨hspan, hrest⟩ := List.forall_mem_cons.mp hts
    exact hsign .neg hspan (ih hrest)
  | case3 ts => exact reads_operand hcover hstop hnested hts

include hcover hnext in
theorem reads_extend (ops : Sign → Option BinaryOp) (n : Nat) {lhs : Expr} (hlhs : lhs.All spans)
    (hts : ∀ t ∈ ts, spans t.span) : Reads spans (extend ops next n lhs ts) := by
  fun_induction extend ops next n lhs ts with
  | case1 => exact ⟨hlhs, hts⟩
  | case2 n lhs s span rest op _ e hread =>
    have hrest := hnext rest (List.forall_mem_cons.mp hts).2
    rw [hread] at hrest
    exact hrest
  | case3 n lhs s span rest op _ rhs more hread ih =>
    have hrest := hnext rest (List.forall_mem_cons.mp hts).2
    rw [hread] at hrest
    exact ih ⟨hcover _ _ hlhs.root hrest.1.root, hlhs, hrest.1⟩ hrest.2
  | case4 => exact ⟨hlhs, hts⟩

include hcover hnext in
theorem reads_level (ops : Sign → Option BinaryOp) (limit : List Token → Nat)
    (hts : ∀ t ∈ ts, spans t.span) : Reads spans (level ops next limit ts) := by
  have hfirst := hnext ts hts
  unfold level
  split
  · rename_i hread
    rw [hread] at hfirst
    exact hfirst
  · rename_i hread
    rw [hread] at hfirst
    exact reads_extend hcover hnext ops _ hfirst.1 hfirst.2

include hcover hstop hnested in
theorem reads_disjunction (hts : ∀ t ∈ ts, spans t.span) :
    Reads spans (disjunction stop nested ts) :=
  reads_level hcover (fun _ => reads_level hcover (fun _ => reads_level hcover (fun _ =>
    reads_level hcover (fun _ => reads_level hcover
      (fun _ => reads_signed hcover hstop hnested) _ _) _ _) _ _) _ _) _ _ hts

include hcover hstop in
theorem reads_conditional (depth : Nat) (hts : ∀ t ∈ ts, spans t.span) :
    Reads spans (conditional stop depth ts) := by
  induction depth generalizing ts with
  | zero => exact nextSpan_of hstop hts
  | succ depth ih =>
    have hnested (ts : List Token) (hts : ∀ t ∈ ts, spans t.span) := ih hts
    have hcond := reads_disjunction hcover hstop hnested hts
    rw [conditional]
    split
    · rename_i hread
      rw [hread] at hcond
      exact hcond
    · rename_i cond mark rest hread
      rw [hread] at hcond
      have hyes := ih (List.forall_mem_cons.mp hcond.2).2
      split
      · rename_i hread
        rw [hread] at hyes
        exact hyes
      · rename_i yes mark more hread
        rw [hread] at hyes
        have hno := ih (List.forall_mem_cons.mp hyes.2).2
        split
        · rename_i hread
          rw [hread] at hno
          exact hno
        · rename_i no left hread
          rw [hread] at hno
          exact ⟨⟨hcover _ _ hcond.1.root hno.1.root, hcond.1, hyes.1, hno.1⟩, hno.2⟩
      · rename_i hread
        rw [hread] at hyes
        exact nextSpan_of hstop hyes.2
    · rename_i hread
      rw [hread] at hcond
      exact hcond

end

/-- The spans of an expression, or of its fault, lie in its text. -/
theorem parse_between (text : List Char) (base : Nat) :
    match parse text base with
    | .ok e => e.All (·.Between base (base + size text))
    | .error e => e.span.Between base (base + size text) := by
  have htokens := tokens_between base text
  unfold parse
  split at htokens
  · rename_i ts hts
    have hpoint : (Span.point (base + size text)).Between base (base + size text) :=
      .point (Nat.le_add_right _ _)
    have hread := reads_conditional (fun _ _ ha hb => ha.cover hb) hpoint (ts.length + 1) htokens
    rw [hts]
    dsimp only
    unfold ofTokens
    split_ifs
    · exact hpoint
    · cases hcond : conditional (.point (base + size text)) (ts.length + 1) ts with
      | error e =>
        rw [hcond] at hread
        exact hread
      | ok r =>
        obtain ⟨e, left⟩ := r
        rw [hcond] at hread
        cases left with
        | nil => exact hread.1
        | cons extra left => exact hread.2 extra List.mem_cons_self
  · rename_i e herror
    rw [herror]
    exact htokens

end Expr

end Chtl
