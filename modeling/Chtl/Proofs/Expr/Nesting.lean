import Chtl.Proofs.Expr.Reading
import Chtl.Proofs.Expr.Shift

/-!
# Nested spans

The tokens of a text stand one behind the other, and so do the parts of a derivation. An expression
therefore lies around its operands, and these lie apart and in the order of the source, parentheses
included. The induction is on the derivation, for all offsets between which its tokens lie.
-/

set_option autoImplicit false
set_option linter.all false

namespace Chtl

open Text

namespace Span

/-- The other span lies in this one. -/
def Holds (a b : Span) : Prop := a.start ≤ b.start ∧ b.stop ≤ a.stop

theorem Holds.trans {a b c : Span} (hab : a.Holds b) (hbc : b.Holds c) : a.Holds c :=
  ⟨Nat.le_trans hab.1 hbc.1, Nat.le_trans hbc.2 hab.2⟩

theorem Between.within {a : Span} {low high lower higher : Nat} (h : a.Between low high)
    (hlow : lower ≤ low) (hhigh : high ≤ higher) : a.Between lower higher :=
  ⟨Nat.le_trans hlow h.1, h.2.1, Nat.le_trans h.2.2 hhigh⟩

/-- What covers two spans between offsets, one behind the other, lies between the outer offsets. -/
theorem Between.cover_behind {a b : Span} {low mid later high : Nat} (ha : a.Between low mid)
    (hle : mid ≤ later) (hb : b.Between later high) : (a.cover b).Between low high := by
  have hlow : low ≤ mid := Nat.le_trans ha.1 (Nat.le_trans ha.2.1 ha.2.2)
  have hhigh : later ≤ high := Nat.le_trans hb.1 (Nat.le_trans hb.2.1 hb.2.2)
  exact (ha.within (Nat.le_refl _) (Nat.le_trans hle hhigh)).cover
    (hb.within (Nat.le_trans hlow hle) (Nat.le_refl _))

theorem holds_cover_left (a b : Span) : (a.cover b).Holds a :=
  ⟨Nat.min_le_left _ _, Nat.le_max_left _ _⟩

theorem holds_cover_right (a b : Span) : (a.cover b).Holds b :=
  ⟨Nat.min_le_right _ _, Nat.le_max_right _ _⟩

end Span

namespace Expr

/-- Each span holds those of the operands, which lie apart and in the order of the source. -/
def Nested : Expr → Prop
  | unary _ e s => s.Holds e.span ∧ e.Nested
  | binary _ l r s =>
    (s.Holds l.span ∧ s.Holds r.span) ∧ l.span.stop ≤ r.span.start ∧ l.Nested ∧ r.Nested
  | ternary c y no s =>
    (s.Holds c.span ∧ s.Holds y.span ∧ s.Holds no.span) ∧
      (c.span.stop ≤ y.span.start ∧ y.span.stop ≤ no.span.start) ∧ c.Nested ∧ y.Nested ∧ no.Nested
  | _ => True

theorem span_withSpan (e : Expr) (s : Span) : (e.withSpan s).span = s := by
  cases e <;> rfl

/-- A wider span keeps an expression nested. -/
theorem Nested.withSpan {e : Expr} (h : e.Nested) {s : Span} (hs : s.Holds e.span) :
    (e.withSpan s).Nested ∧ (e.withSpan s).span = s := by
  refine ⟨?_, span_withSpan e s⟩
  cases e with
  | unary => exact ⟨hs.trans h.1, h.2⟩
  | binary => exact ⟨⟨hs.trans h.1.1, hs.trans h.1.2⟩, h.2⟩
  | ternary => exact ⟨⟨hs.trans h.1.1, hs.trans h.1.2.1, hs.trans h.1.2.2⟩, h.2⟩
  | _ => trivial

/-! ## Tokens in order -/

/-- The tokens lie between two offsets, each behind the one before. -/
def InOrder : (low high : Nat) → List Token → Prop
  | low, high, [] => low ≤ high
  | low, high, t :: ts =>
    low ≤ t.span.start ∧ t.span.start ≤ t.span.stop ∧ InOrder t.span.stop high ts

variable {low high : Nat}

theorem InOrder.below {lower : Nat} {ts : List Token} (h : InOrder low high ts)
    (hle : lower ≤ low) : InOrder lower high ts := by
  cases ts with
  | nil => exact Nat.le_trans hle h
  | cons t ts => exact ⟨Nat.le_trans hle h.1, h.2⟩

theorem inOrder_append {ts us : List Token} :
    InOrder low high (ts ++ us) ↔ ∃ mid, InOrder low mid ts ∧ InOrder mid high us := by
  induction ts generalizing low with
  | nil => exact ⟨fun h => ⟨low, Nat.le_refl _, h⟩, fun ⟨_, hle, h⟩ => h.below hle⟩
  | cons t ts ih => simp only [List.cons_append, InOrder, ih, and_assoc, exists_and_left]

theorem InOrder.le {ts : List Token} (h : InOrder low high ts) : low ≤ high := by
  induction ts generalizing low with
  | nil => exact h
  | cons t ts ih => exact Nat.le_trans h.1 (Nat.le_trans h.2.1 (ih h.2.2))

theorem tokens_inOrder {offset : Nat} {cs : List Char} {ts : List Token}
    (h : tokens offset cs = .ok ts) : InOrder offset (offset + size cs) ts := by
  fun_induction tokens offset cs generalizing ts with
  | case1 => cases h; exact Nat.le_add_right _ _
  | case2 offset c rest hblank ih =>
    rw [size_cons, ← Nat.add_assoc]
    exact (ih h).below (Nat.le_add_right _ _)
  | case3 => cases h
  | case4 offset c rest hblank lexeme n hlexeme stop =>
    rename_i ih
    obtain ⟨more, hmore, rfl⟩ := map_eq_ok_iff.mp h
    have hsize : stop + size (rest.drop n) = offset + size (c :: rest) := by
      have hsplit := congrArg size (List.take_append_drop n rest)
      rw [size_append] at hsplit
      simp only [stop, size_cons]
      omega
    exact ⟨Nat.le_refl _, Nat.le_add_right _ _, hsize ▸ ih hmore⟩

/-! ## Derivations -/

/-- Between the offsets the expression of a derivation is nested. A tail keeps an operand nested that
ends where the tail begins. -/
def Derivation.Placed (low high : Nat) : {p : Part} → Derivation p → Prop
  | .whole _, d => Nested d.tree ∧ (Expr.span d.tree).Between low high
  | .tail _ _, d => ∀ (lhs : Expr) (first : Nat), lhs.Nested → lhs.span.Between first low →
      (d.tree lhs).Nested ∧ (d.tree lhs).span.Between first high

theorem placed {p : Part} (d : Derivation p) (h : InOrder low high d.tokens) :
    d.Placed low high := by
  induction d generalizing low high with
  | plain cond ih => exact ih h
  | choice cond question yes colon no ihc ihy ihn =>
    obtain ⟨mid, hcond, hquestion, hmark, h⟩ := inOrder_append.mp h
    obtain ⟨later, hyes, hcolon, hmark', hno⟩ := inOrder_append.mp h
    obtain ⟨hcnested, hcspan⟩ := ihc hcond
    obtain ⟨hynested, hyspan⟩ := ihy hyes
    obtain ⟨hnnested, hnspan⟩ := ihn hno
    have hapart : cond.tree.span.stop ≤ yes.tree.span.start :=
      Nat.le_trans hcspan.2.2 (Nat.le_trans hquestion (Nat.le_trans hmark hyspan.1))
    have hapart' : yes.tree.span.stop ≤ no.tree.span.start :=
      Nat.le_trans hyspan.2.2 (Nat.le_trans hcolon (Nat.le_trans hmark' hnspan.1))
    have hinner : (Span.cover cond.tree.span no.tree.span).Holds yes.tree.span :=
      ⟨Nat.le_trans (Nat.min_le_left _ _) (Nat.le_trans hcspan.2.1 hapart),
        Nat.le_trans (Nat.le_trans hapart' hnspan.2.1) (Nat.le_max_right _ _)⟩
    exact ⟨⟨⟨Span.holds_cover_left _ _, hinner, Span.holds_cover_right _ _⟩, ⟨hapart, hapart'⟩,
        hcnested, hynested, hnnested⟩,
      hcspan.cover_behind (Nat.le_trans hquestion (Nat.le_trans hmark (Nat.le_trans hyes.le
        (Nat.le_trans hcolon hmark')))) hnspan⟩
  | row first rest ihf ihr =>
    obtain ⟨mid, hfirst, hrest⟩ := inOrder_append.mp h
    obtain ⟨hnested, hspan⟩ := ihf hfirst
    exact ihr hrest first.tree low hnested hspan
  | done => exact fun lhs first hnested hspan => ⟨hnested, hspan.mono h⟩
  | more s op hop span operand rest iho ihr =>
    intro lhs first hnested hspan
    obtain ⟨hsign, hmark, h⟩ := h
    obtain ⟨mid, hoperand, hrest⟩ := inOrder_append.mp h
    obtain ⟨hright, hrspan⟩ := iho hoperand
    have hle : low ≤ span.stop := Nat.le_trans hsign hmark
    have hapart : lhs.span.stop ≤ operand.tree.span.start :=
      Nat.le_trans hspan.2.2 (Nat.le_trans hle hrspan.1)
    exact ihr hrest _ first
      ⟨⟨Span.holds_cover_left _ _, Span.holds_cover_right _ _⟩, hapart, hnested, hright⟩
      (hspan.cover_behind hle hrspan)
  | signed op span e ih =>
    obtain ⟨hsign, hmark, h⟩ := h
    obtain ⟨hnested, hspan⟩ := ih h
    have hown : span.Between low span.stop := ⟨hsign, hmark, Nat.le_refl _⟩
    exact ⟨⟨Span.holds_cover_right _ _, hnested⟩, hown.cover_behind (Nat.le_refl _) hspan⟩
  | bare e ih => exact ih h
  | number | str | dynamic | bool | ident => exact ⟨trivial, h⟩
  | reference selector hsel span property last touches =>
    obtain ⟨hstart, hname, htouch, hlast, hstop⟩ := h
    have hown : span.Between low span.stop := ⟨hstart, hname, Nat.le_refl _⟩
    exact ⟨trivial, hown.cover_behind htouch ⟨Nat.le_refl _, hlast, hstop⟩⟩
  | parens opening e closing ih =>
    obtain ⟨hopen, hmark, h⟩ := h
    obtain ⟨mid, he, hclose, hmark', hend⟩ := inOrder_append.mp h
    obtain ⟨hnested, hspan⟩ := ih he
    have houter : (opening.cover closing).Holds e.tree.span :=
      ⟨Nat.le_trans (Nat.min_le_left _ _) (Nat.le_trans hmark hspan.1),
        Nat.le_trans hspan.2.2 (Nat.le_trans (Nat.le_trans hclose hmark') (Nat.le_max_right _ _))⟩
    have hown : opening.Between low opening.stop := ⟨hopen, hmark, Nat.le_refl _⟩
    have hspan' : (opening.cover closing).Between low high :=
      hown.cover_behind (Nat.le_trans he.le hclose) ⟨Nat.le_refl _, hmark', hend⟩
    obtain ⟨hwide, heq⟩ := hnested.withSpan houter
    exact ⟨hwide, heq.symm ▸ hspan'⟩

/-- What is read from a text is nested. -/
theorem nested_of_parse {text : List Char} {base : Nat} {e : Expr} (h : parse text base = .ok e) :
    e.Nested := by
  unfold parse at h
  split at h
  · cases h
  · rename_i ts hts
    obtain ⟨d, rfl, rfl⟩ := ofTokens_eq_ok_iff.mp h
    exact (placed d (tokens_inOrder hts)).1

/-- The place of a text moves all spans alike. They lie in the text, none stops before it starts, and
those of an expression are nested, its operands apart and in the order of the source. -/
theorem parse_places (text : List Char) (base : Nat) :
    parse text base = shiftOutcome base (parse text 0) ∧
      match parse text base with
      | .ok e => e.All (·.Between base (base + size text)) ∧ e.Nested
      | .error e => e.span.Between base (base + size text) := by
  refine ⟨parse_shift text base, ?_⟩
  have hbetween := parse_between text base
  cases hparse : parse text base with
  | error e =>
    rw [hparse] at hbetween
    exact hbetween
  | ok e =>
    rw [hparse] at hbetween
    exact ⟨hbetween, nested_of_parse hparse⟩

end Expr

end Chtl
