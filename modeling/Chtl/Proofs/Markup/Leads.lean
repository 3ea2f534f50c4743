import Chtl.Markup.Reader
import Chtl.Proofs.Document.Built
import Chtl.Proofs.Expr.Spans
import Chtl.Proofs.Fragment.Offset
import Chtl.Proofs.Markup.Apart

/-!
# Where readers lead

Whether a reader succeeds or fails, something is known of the outcome: a result is as it should be,
the cursor stands further on in the same text, and a fault has its span in the source. The rules
follow the steps of readers, so what is known of a whole reader is put together from its steps.
-/

set_option autoImplicit false
set_option linter.all false

namespace Chtl

open Text

/-- The span of the fault lies in a source of a size. The offsets of a fault in the text of a
condition are counted in that text, so its span may end behind the source unless texts are read as
they are written. -/
def MarkupError.Placed (plain : Prop) (total : Nat) : MarkupError → Prop
  | .malformedCondition (.malformed _) s => s.start ≤ s.stop ∧ (plain → s.stop ≤ total)
  | e => e.span.Within total

namespace Markup

/-- The cursor stands in the text. -/
def Cursor.In (text : List Char) (c : Cursor) : Prop :=
  ∃ read, text = read ++ c.rest ∧ c.offset = size read ∧ c.before = read.getLast?

namespace Cursor.In

variable {text : List Char} {c : Cursor}

theorem start (text : List Char) : Cursor.In text ⟨none, 0, text⟩ := ⟨[], rfl, rfl, rfl⟩

theorem advance (h : c.In text) (n : Nat) : (c.advance n).In text := by
  obtain ⟨read, hsplit, hoffset, hbefore⟩ := h
  refine ⟨read ++ c.rest.take n, ?_, ?_, ?_⟩
  · rw [hsplit, List.append_assoc, Cursor.advance, List.take_append_drop]
  · rw [Cursor.advance, size_append, hoffset]
  · rw [Cursor.advance, List.getLast?_append, hbefore]

theorem offset_add (h : c.In text) : c.offset + size c.rest = size text := by
  obtain ⟨read, hsplit, hoffset, -⟩ := h
  rw [hsplit, size_append, hoffset]

theorem offset_le (h : c.In text) : c.offset ≤ size text :=
  h.offset_add ▸ Nat.le_add_right _ _

/-- What is left at a later place is left at an earlier one too. -/
theorem suffix {d : Cursor} (hc : c.In text) (hd : d.In text) (hle : c.offset ≤ d.offset) :
    d.rest <:+ c.rest := by
  obtain ⟨read, hsplit, hoffset, -⟩ := hc
  obtain ⟨more, hmore, hlater, -⟩ := hd
  rcases List.append_eq_append_iff.mp (hsplit.symm.trans hmore) with ⟨on, rfl, hrest⟩ | ⟨on, rfl, -⟩
  · exact ⟨on, hrest.symm⟩
  · rw [size_append] at hoffset
    have hnone : on = [] := by
      by_contra hne
      exact absurd (size_pos hne) (by omega)
    subst hnone
    rw [List.append_nil] at hsplit
    rw [List.append_cancel_left (hsplit.symm.trans hmore)]

/-- A place in a text is known by its offset. -/
theorem eq_of_offset {d : Cursor} (hc : c.In text) (hd : d.In text) (h : c.offset = d.offset) :
    c = d := by
  have hrest : c.rest = d.rest :=
    (hd.suffix hc h.ge).eq_of_length_le (hc.suffix hd h.le).length_le
  obtain ⟨read, hsplit, -, hbefore⟩ := hc
  obtain ⟨more, hmore, -, hlater⟩ := hd
  have hread : read = more := by
    rw [hrest] at hsplit
    exact List.append_cancel_right (hsplit.symm.trans hmore)
  obtain ⟨before, offset, rest⟩ := c
  obtain ⟨before', offset', rest'⟩ := d
  simp only at h hrest hbefore hlater
  rw [h, hrest, hbefore, hlater, hread]

end Cursor.In

/-- What readers of a unit work on: the text whose offsets they count, and what is asked of the
elements they build and of the parts of them. In a plain unit every text is read as it is written.
A name that is asked for is one that is read as a whole and is no block's, and a key of a style is
part of a block, or stands in the markup behind the word for a template of styles. -/
structure Ground where
  source : List Char
  unit : Scanned
  scanned : scan source = .ok unit
  text : List Char
  plain : Prop
  unit_plain : plain → unit.Plain ∧ ¬ "@Var".toList <:+: source
  exprs : Expr → Prop
  names : String → Prop
  keys : String → Prop
  parsed : ∀ value base e, (plain → base + size value ≤ size source) →
    Expr.parse value base = .ok e → exprs e
  unnamed : names ""
  named : ∀ read rest name, unit.markup = read ++ rest → read.getLast?.any isNameChar = false →
    name? rest = some name.toList → unit.fragment? name = none → names name
  own : ∀ f ∈ unit.fragments, ∀ key, key <:+: f.text.toList → keys (String.ofList key)
  behind : ∀ read rest key, unit.markup = read ++ rest → "@Style".toList <:+: read →
    key <:+: rest → keys (String.ofList key)
  good : Element → Prop
  kept : Kept ⟨(·.Within (size source)), exprs, names, keys⟩ good
  placed : ∀ e, good e → ∀ a ∈ e.attributes, a.span.Within (size source)
  holds : ∀ e, good e → ∀ d ∈ e.style, d.Holds exprs ∧ keys d.key

/-- The offsets of an origin lead from the text into the source. -/
def Origin.Counts (g : Ground) : Origin → Prop
  | .markup scanned => scanned = g.unit ∧ g.text = g.unit.markup
  | .source base => base + size g.text ≤ size g.source

theorem Origin.Counts.within {g : Ground} {o : Origin} (h : o.Counts g) {start stop : Nat}
    (hle : start ≤ stop) (hstop : stop ≤ size g.text) :
    (o.span start stop).Within (size g.source) := by
  cases o with
  | markup scanned =>
    obtain ⟨rfl, -⟩ := h
    exact Scanned.spanToSource_within g.scanned _
  | source base =>
    have hbase : base + size g.text ≤ size g.source := h
    refine ⟨?_, ?_⟩
    · exact Nat.add_le_add_right hle base
    · show stop + base ≤ _
      omega

theorem Origin.span_start (o : Origin) (start stop : Nat) :
    (o.span start stop).start = o.toSource start := by
  cases o with
  | markup scanned => rfl
  | source base => exact Nat.add_comm start base

/-- In a plain unit there is as much room behind an offset in the source as in the text. -/
theorem Origin.Counts.room {g : Ground} {o : Origin} (h : o.Counts g) (hplain : g.plain)
    {start length : Nat} (hroom : start + length ≤ size g.text) :
    o.toSource start + length ≤ size g.source := by
  cases o with
  | markup scanned =>
    obtain ⟨rfl, htext⟩ := h
    obtain ⟨hunit, -⟩ := g.unit_plain hplain
    rw [htext, Scanned.markup_of_plain g.scanned hunit] at hroom
    rw [Origin.toSource, Scanned.toSource_of_plain g.scanned hunit (by omega)]
    exact hroom
  | source base =>
    have hbase : base + size g.text ≤ size g.source := h
    show base + start + length ≤ _
    omega

/-- Templates hold no block, and groups of variables are not defined in a plain unit. -/
structure Templates.Fit (g : Ground) (t : Templates) : Prop where
  elements : ∀ name nodes, t.element? name = some nodes → ∀ n ∈ nodes, n.Built g.good fun _ => False
  styles : ∀ name ds, t.style? name = some ds → ∀ d ∈ ds, d.Holds g.exprs ∧ g.keys d.key
  groups : g.plain → t.groups = []

/-- The progress of a reader. Only style blocks were consumed. -/
structure Progress.Fits (g : Ground) (p : Progress) : Prop where
  place : p.cursor.In g.text
  apart : p.cursor.Apart
  templates : Templates.Fit g p.templates
  consumed : ∀ q ∈ p.consumed, ∃ f ∈ g.unit.fragments, f.kind = .style ∧ f.placeholder = some q

variable {α β : Type} {g : Ground} {s : Setting} {p : Progress}

/-- The reader ends as described, with a result or with a fault. -/
def Ends (g : Ground) (s : Setting) (x : Reader α) (p : Progress) (done : α → Progress → Prop) :
    Prop :=
  match (x.run s).run p with
  | .ok (a, q) => done a q
  | .error e => e.Placed g.plain (size g.source)

/-- The reader goes on in its text, and its result is fine. -/
abbrev Leads (g : Ground) (s : Setting) (x : Reader α) (p : Progress) (fine : α → Prop) : Prop :=
  Ends g s x p fun a q => fine a ∧ q.Fits g ∧ p.cursor.offset ≤ q.cursor.offset

section

variable {x : Reader α} {f : α → Reader β} {done : α → Progress → Prop}
  {after : β → Progress → Prop} {fine : α → Prop} {good : β → Prop}

theorem Ends.bind (hx : Ends g s x p done) (hf : ∀ a q, done a q → Ends g s (f a) q after) :
    Ends g s (x >>= f) p after := by
  unfold Ends at hx ⊢
  rw [ReaderT.run_bind, StateT.run_bind]
  cases hrun : (x.run s).run p with
  | error e =>
    rw [hrun] at hx
    exact hx
  | ok r =>
    rw [hrun] at hx
    exact hf r.1 r.2 hx

theorem Ends.mono {wider : α → Progress → Prop} (hx : Ends g s x p done)
    (h : ∀ a q, done a q → wider a q) : Ends g s x p wider := by
  unfold Ends at hx ⊢
  cases hrun : (x.run s).run p with
  | error e =>
    rw [hrun] at hx
    exact hx
  | ok r =>
    rw [hrun] at hx
    exact h r.1 r.2 hx

theorem Leads.bind (hx : Leads g s x p fine)
    (hf : ∀ a q, fine a → q.Fits g → p.cursor.offset ≤ q.cursor.offset → Leads g s (f a) q good) :
    Leads g s (x >>= f) p good := by
  refine Ends.bind hx ?_
  rintro a q ⟨ha, hq, hle⟩
  refine (hf a q ha hq hle).mono ?_
  rintro b r ⟨hb, hr, hle'⟩
  exact ⟨hb, hr, Nat.le_trans hle hle'⟩

theorem Leads.mono {wider : α → Prop} (hx : Leads g s x p fine) (h : ∀ a, fine a → wider a) :
    Leads g s x p wider :=
  Ends.mono hx fun a _ ha => ⟨h a ha.1, ha.2⟩

/-- What is read from a later place on is read from an earlier one on. -/
theorem Leads.since {q : Progress} (hx : Leads g s x q fine)
    (hle : p.cursor.offset ≤ q.cursor.offset) :
    Ends g s x q fun a r => fine a ∧ r.Fits g ∧ p.cursor.offset ≤ r.cursor.offset :=
  Ends.mono hx fun _ _ ⟨ha, hr, hle'⟩ => ⟨ha, hr, Nat.le_trans hle hle'⟩

theorem Leads.pure {a : α} (hp : p.Fits g) (ha : fine a) : Leads g s (Pure.pure a) p fine :=
  ⟨ha, hp, Nat.le_refl _⟩

theorem Ends.pure {a : α} (h : done a p) : Ends g s (Pure.pure a) p done := h

theorem Ends.fail {e : MarkupError} (he : e.Placed g.plain (size g.source)) :
    Ends g s (Reader.fail e) p done :=
  he

/-- A step that is only made in some cases. -/
theorem Leads.optional {c : Prop} [Decidable c] (hp : p.Fits g)
    (hx : Leads g s x p fun _ => True) {y : Reader β}
    (hy : ∀ q : Progress, q.Fits g → p.cursor.offset ≤ q.cursor.offset → Leads g s y q good) :
    Leads g s (if c then x >>= fun _ => y else y) p good := by
  split_ifs
  · exact hx.bind fun _ q _ hq hle => hy q hq hle
  · exact hy p hp (Nat.le_refl _)

theorem Leads.ite {c : Prop} [Decidable c] {y z : Reader α} (hy : c → Leads g s y p fine)
    (hz : ¬ c → Leads g s z p fine) : Leads g s (if c then y else z) p fine := by
  split_ifs with hc
  · exact hy hc
  · exact hz hc

end

/-! ## Steps that look without reading -/

section

variable {done : β → Progress → Prop}

namespace Ends

theorem cursor {f : Cursor → Reader β} (h : Ends g s (f p.cursor) p done) :
    Ends g s (Reader.cursor >>= f) p done := h

theorem offset {f : Nat → Reader β} (h : Ends g s (f p.cursor.offset) p done) :
    Ends g s (Reader.offset >>= f) p done := h

theorem rest {f : List Char → Reader β} (h : Ends g s (f p.cursor.rest) p done) :
    Ends g s (Reader.rest >>= f) p done := h

theorem peek? {f : Option Char → Reader β} (h : Ends g s (f p.cursor.peek?) p done) :
    Ends g s (Reader.peek? >>= f) p done := h

theorem atEnd {f : Bool → Reader β} (h : Ends g s (f p.cursor.atEnd) p done) :
    Ends g s (Reader.atEnd >>= f) p done := h

theorem looksAt {lead : List Char} {f : Bool → Reader β}
    (h : Ends g s (f (startsWith p.cursor.rest lead)) p done) :
    Ends g s (Reader.looksAt lead >>= f) p done := h

theorem read {f : Setting → Reader β} (h : Ends g s (f s) p done) :
    Ends g s (MonadReader.read >>= f) p done := h

theorem get {f : Progress → Reader β} (h : Ends g s (f p) p done) :
    Ends g s (MonadState.get >>= f) p done := h

theorem spanOf {start stop : Nat} {f : Span → Reader β}
    (h : Ends g s (f (s.origin.span start stop)) p done) :
    Ends g s (Reader.spanOf start stop >>= f) p done := h

theorem spanFrom {start : Nat} {f : Span → Reader β}
    (h : Ends g s (f (s.origin.span start p.cursor.offset)) p done) :
    Ends g s (Reader.spanFrom start >>= f) p done := h

theorem skip {n : Nat} {f : Unit → Reader β}
    (h : Ends g s (f ()) { p with cursor := p.cursor.advance n } done) :
    Ends g s (Reader.skip n >>= f) p done := h

theorem setCursor {c : Cursor} {f : Unit → Reader β}
    (h : Ends g s (f ()) { p with cursor := c } done) :
    Ends g s (Reader.setCursor c >>= f) p done := h

theorem block? {name : String} {f : Option (Fragment × Placeholder) → Reader β}
    (hnone : s.scanned.fragment? name = none → Ends g s (f none) p done)
    (hsome : ∀ fragment q, s.scanned.fragment? name = some fragment →
      fragment.placeholder = some q → Ends g s (f (some (fragment, q))) p done) :
    Ends g s (Reader.block? name >>= f) p done := by
  have hfound : Ends g s (Reader.block? name) p fun found q => q = p ∧
      found = (s.scanned.fragment? name).bind fun f => f.placeholder.map fun q => (f, q) := by
    unfold Reader.block?
    apply Ends.read
    cases s.scanned.fragment? name with
    | none => exact ⟨rfl, rfl⟩
    | some fragment => exact ⟨rfl, rfl⟩
  refine hfound.bind ?_
  rintro found q ⟨rfl, rfl⟩
  cases hfragment : s.scanned.fragment? name with
  | none => exact hnone hfragment
  | some fragment =>
    cases hplaceholder : fragment.placeholder with
    | none =>
      have htoken := List.find?_some hfragment
      simp [hplaceholder] at htoken
    | some q => simpa [hplaceholder] using hsome fragment q hfragment hplaceholder

theorem withReader {change : Setting → Setting} {x : Reader β}
    (h : Ends g (change s) x p done) : Ends g s (withReader change x) p done := h

end Ends

end

theorem size_foundText_le (cs : List Char) : size (foundText cs) ≤ size cs := by
  cases cs with
  | nil => exact Nat.le_refl _
  | cons c rest =>
    have hsplit := congrArg size (List.takeWhile_append_dropWhile (p := isNameChar) (l := rest))
    rw [size_append] at hsplit
    rw [foundText, size_cons, size_cons]
    omega

theorem Ends.unexpected (hs : s.origin.Counts g) (hp : p.cursor.In g.text)
    {done : α → Progress → Prop} (expected : Expectation) :
    Ends g s (Reader.unexpected expected) p done := by
  have hsize := hp.offset_add
  have hfound := size_foundText_le p.cursor.rest
  unfold Reader.unexpected
  apply Ends.offset
  apply Ends.rest
  split_ifs
  · apply Ends.spanOf
    exact .fail (hs.within (Nat.le_refl _) (by omega))
  · apply Ends.spanOf
    exact .fail (hs.within (Nat.le_add_right _ _) (by omega))

/-! ## Steps that read on -/

/-- A step goes on by some characters to a place between names. -/
def Onward (p q : Progress) : Prop :=
  ∃ n, q = { p with cursor := p.cursor.advance n } ∧ (p.cursor.advance n).Apart

theorem Onward.refl (hp : p.cursor.Apart) : Onward p p :=
  ⟨0, by rw [Cursor.advance_zero], by rwa [Cursor.advance_zero]⟩

theorem Onward.fits {q : Progress} (h : Onward p q) (hp : p.Fits g) :
    q.Fits g ∧ p.cursor.offset ≤ q.cursor.offset := by
  obtain ⟨n, rfl, hapart⟩ := h
  exact ⟨⟨hp.place.advance n, hapart, hp.templates, hp.consumed⟩, Nat.le_add_right _ _⟩

theorem Leads.onward {x : Reader α} {fine : α → Prop} (hp : p.Fits g)
    (h : Ends g s x p fun a q => fine a ∧ Onward p q) : Leads g s x p fine :=
  Ends.mono h fun _ _ ha => ⟨ha.1, ha.2.fits hp⟩

theorem Leads.skipTrivia (hp : p.Fits g) : Leads g s Reader.skipTrivia p fun _ => True :=
  .onward hp ⟨trivial, _, rfl, hp.apart.trivia⟩

theorem Leads.eat (hp : p.Fits g) {x : Char} (hx : isNameChar x = false) :
    Leads g s (Reader.eat x) p fun _ => True := by
  refine .onward hp ?_
  unfold Reader.eat
  apply Ends.peek?
  split_ifs with hhead
  · exact ⟨trivial, 1, rfl, Cursor.apart_advance_one hhead hx⟩
  · exact ⟨trivial, .refl hp.apart⟩

/-- The expected character stands in front of what follows. -/
theorem ends_expect (hs : s.origin.Counts g) (hp : p.Fits g) {x : Char}
    (hx : isNameChar x = false) (expected : Expectation) :
    Ends g s (Reader.expect x expected) p fun _ q =>
      q.Fits g ∧ p.cursor.offset ≤ q.cursor.offset ∧ q.cursor.before = some x := by
  have heat : Ends g s (Reader.eat x) p fun eaten q =>
      Onward p q ∧ (eaten = true → q.cursor.before = some x) := by
    unfold Reader.eat
    apply Ends.peek?
    split_ifs with hhead
    · refine ⟨⟨1, rfl, Cursor.apart_advance_one hhead hx⟩, fun _ => ?_⟩
      obtain ⟨rest, hrest⟩ := List.head?_eq_some_iff.mp hhead
      simp [Cursor.advance, hrest]
    · exact ⟨.refl hp.apart, fun heaten => Bool.noConfusion heaten⟩
  refine heat.bind fun eaten q hended => ?_
  obtain ⟨honward, hbefore⟩ := hended
  obtain ⟨hq, hle⟩ := honward.fits hp
  split_ifs with heaten
  · exact .pure ⟨hq, hle, hbefore heaten⟩
  · exact .unexpected hs hq.place expected

theorem Leads.expect (hs : s.origin.Counts g) (hp : p.Fits g) {x : Char}
    (hx : isNameChar x = false) (expected : Expectation) :
    Leads g s (Reader.expect x expected) p fun _ => True :=
  Ends.mono (ends_expect hs hp hx expected) fun _ _ ⟨hq, hle, _⟩ => ⟨trivial, hq, hle⟩

theorem Leads.takeRaw (hp : p.Fits g) {stops : List Char} (h : stops.any isNameChar = false) :
    Leads g s (Reader.takeRaw stops) p fun r =>
      r.2 = p.cursor.offset ∧ r.2 + size r.1 ≤ size g.text ∧ r.1 <+: p.cursor.rest := by
  have hstop := ((hp.place.advance (rawLength stops p.cursor.before 0 p.cursor.rest)).offset_add)
  refine .onward hp ⟨⟨rfl, ?_, List.take_prefix _ _⟩, _, rfl, Cursor.apart_raw h p.cursor⟩
  exact Nat.le_trans (Nat.le_add_right _ _) (Nat.le_of_eq hstop)

theorem Leads.takeBalanced (hs : s.origin.Counts g) (hp : p.Fits g) :
    Leads g s Reader.takeBalanced p fun _ => True := by
  refine .onward hp ?_
  unfold Reader.takeBalanced
  apply Ends.rest
  split
  · rename_i n hn
    exact ⟨trivial, n + 1, rfl, Cursor.apart_balanced hn⟩
  · apply Ends.skip
    exact .unexpected hs (hp.place.advance _) .closeBrace

theorem Leads.keyword (hp : p.Fits g) (word : String) :
    Leads g s (Reader.keyword word) p fun _ => True := by
  refine .onward hp ?_
  unfold Reader.keyword
  apply Ends.rest
  split
  · rename_i name hname
    split_ifs
    · exact ⟨trivial, name.length, rfl, Cursor.apart_name hname⟩
    · exact ⟨trivial, .refl hp.apart⟩
  · exact ⟨trivial, .refl hp.apart⟩

/-- A name is taken from a place between names. -/
def Named (p : Progress) (name : String) (q : Progress) : Prop :=
  name? p.cursor.rest = some name.toList ∧
    q = { p with cursor := p.cursor.advance name.toList.length }

theorem ends_takeName? :
    Ends g s Reader.takeName? p fun name q =>
      match name with
      | some name => Named p name q ∧ Onward p q
      | none => q = p := by
  unfold Reader.takeName?
  apply Ends.rest
  split
  · rename_i name hname
    refine ⟨⟨by rwa [String.toList_ofList], by rw [String.toList_ofList]⟩, ?_⟩
    exact ⟨name.length, rfl, Cursor.apart_name hname⟩
  · exact rfl

theorem Leads.takeName? (hp : p.Fits g) : Leads g s Reader.takeName? p fun _ => True := by
  refine .onward hp (ends_takeName?.mono ?_)
  rintro (_ | name) q h
  · subst h
    exact ⟨trivial, .refl hp.apart⟩
  · exact ⟨trivial, h.2⟩

theorem ends_takeName (hs : s.origin.Counts g) (hp : p.Fits g) (expected : Expectation) :
    Ends g s (Reader.takeName expected) p fun name q => Named p name q ∧ Onward p q := by
  unfold Reader.takeName
  refine ends_takeName?.bind ?_
  rintro (_ | name) q h
  · subst h
    exact .unexpected hs hp.place expected
  · exact h

theorem Leads.takeName (hs : s.origin.Counts g) (hp : p.Fits g) (expected : Expectation) :
    Leads g s (Reader.takeName expected) p fun _ => True :=
  .onward hp ((ends_takeName hs hp expected).mono fun _ _ h => ⟨trivial, h.2⟩)

theorem Leads.freshId (hp : p.Fits g) : Leads g s Reader.freshId p fun _ => True :=
  ⟨trivial, ⟨hp.place, hp.apart, hp.templates, hp.consumed⟩, Nat.le_refl _⟩

end Markup

end Chtl
