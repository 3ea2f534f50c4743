import Chtl.Markup.Parse
import Chtl.Proofs.Document.Formed
import Chtl.Proofs.Markup.Leads

/-!
# What readers of markup build

Every reader of markup builds elements that are good, with blocks only where they may stand and with
chains as they are written, and its faults have their spans in the source. The theorems follow the
readers one by one.
-/

set_option autoImplicit false
set_option linter.all false

namespace Chtl

open Text

namespace Markup

open Reader

variable {g : Ground} {s : Setting} {p : Progress}

/-! ## Style bodies -/

theorem size_trim_le (cs : List Char) : size (cs.takeWhile isBlank) + size (trim cs) ≤ size cs := by
  have hlead := congrArg size (List.takeWhile_append_dropWhile (p := isBlank) (l := cs))
  have htail (cs : List Char) : size (trimRight cs) ≤ size cs := by
    have hsplit := congrArg (size ∘ List.reverse)
      (List.takeWhile_append_dropWhile (p := isBlank) (l := cs.reverse))
    simp only [Function.comp_apply, List.reverse_append, size_append, List.reverse_reverse]
      at hsplit
    rw [trimRight]
    omega
  have htrim := htail (cs.dropWhile isBlank)
  rw [size_append] at hlead
  simp only [trim, trimLeft]
  omega

theorem trim_part (cs : List Char) : trim cs <:+: cs := by
  have hleft : trimLeft cs <:+ cs := List.dropWhile_suffix _
  have hright : trimRight (trimLeft cs) <+: trimLeft cs := by
    rw [← List.reverse_suffix, trimRight, List.reverse_reverse]
    exact List.dropWhile_suffix _
  exact hright.isInfix.trans hleft.isInfix

/-- Without groups of variables a text stays as it is. -/
theorem expandVariables_of_no_groups {t : Templates} (h : t.groups = []) (cs : List Char) :
    expandVariables t cs = .ok cs := by
  have hnone (group : String) : t.group? group = none := by simp [Templates.group?, h]
  fun_induction expandVariables t cs with
  | case1 => rfl
  | case2 c rest _ ih => rw [ih]; rfl
  | case3 c rest group key n _ more _ ih =>
    rw [ih]
    exact congrArg (fun tail => Except.ok (c :: tail)) (List.take_append_drop (n - 1) rest)
  | case4 _ _ group _ _ _ hgroup => simp [hnone] at hgroup
  | case5 _ _ group _ _ _ _ hgroup => simp [hnone] at hgroup

theorem leads_expandedValue (hp : p.Fits g) (cs : List Char) {span : Span}
    (hspan : span.Within (size g.source)) :
    Leads g s (expandedValue cs span) p fun text => g.plain → text = cs := by
  unfold expandedValue
  apply Ends.get
  split
  · rename_i text hexpand
    refine Leads.pure hp fun hplain => ?_
    rw [expandVariables_of_no_groups (hp.templates.groups hplain)] at hexpand
    exact (Except.ok.inj hexpand).symm
  · exact .fail hspan

/-- A value that is an expression was read as one. -/
theorem parse_of_styleValue {cs : List Char} {base : Nat} {e : Expr}
    (h : styleValue cs base = .expr e) : Expr.parse cs base = .ok e := by
  unfold styleValue at h
  split at h
  · cases h
  · split_ifs at h
    split at h
    · rename_i hparse
      cases h
      exact hparse
    · cases h

theorem leads_declaration (hs : s.origin.Counts g) (hp : p.Fits g) (key raw : List Char)
    {rawStart start : Nat} (hstart : start ≤ rawStart)
    (hraw : rawStart + size raw ≤ size g.text) (conditional : Bool) :
    Leads g s (declaration key raw rawStart start conditional) p fun d =>
      (conditional = true → d.value.isResponsive = false) ∧ d.Holds g.exprs ∧
        d.key = String.ofList key := by
  have htrim := size_trim_le raw
  have hspan := hs.within (Nat.le_add_right (rawStart + size (raw.takeWhile isBlank)) _)
    (show rawStart + size (raw.takeWhile isBlank) + size (trim raw) ≤ size g.text by omega)
  unfold declaration
  apply Ends.spanOf
  split_ifs
  · apply Ends.spanOf
    exact .fail (hs.within (by omega) (by omega))
  · apply Ends.rest
    exact .fail hspan
  · refine (leads_expandedValue hp _ hspan).bind fun text q htext hq _ => ?_
    dsimp only
    split_ifs with hstatic
    · exact .fail hspan
    · apply Ends.spanFrom
      refine Leads.pure hq ⟨fun hconditional => by simpa [hconditional] using hstatic, ?_, rfl⟩
      refine fun e he => g.parsed _ _ e (fun hplain => ?_) (parse_of_styleValue he)
      rw [htext hplain, Origin.span_start]
      exact hs.room hplain (by omega)

section

variable {may : Block → Prop} {owner : Element}

theorem leads_styleUse (hs : s.origin.Counts g) (hp : p.Fits g) (howner : owner.Built g.good may) :
    Leads g s (styleUse owner) p (·.Built g.good may) := by
  unfold styleUse
  apply Ends.offset
  refine (Leads.keyword hp _).bind fun _ p _ hp hle => ?_
  refine Leads.optional hp (Leads.skipTrivia hp) fun p hp hle => ?_
  refine (Leads.expect hs hp (by decide) _).bind fun _ p _ hp hle => ?_
  refine (Leads.keyword hp _).bind fun _ p _ hp hle => ?_
  refine Leads.optional hp (.unexpected hs hp.place _) fun p hp hle => ?_
  refine (Leads.skipTrivia hp).bind fun _ p _ hp hle => ?_
  refine (Leads.takeName hs hp _).bind fun name p _ hp hle => ?_
  refine (Leads.skipTrivia hp).bind fun _ p _ hp hle => ?_
  refine (Leads.eat hp (by decide)).bind fun _ p _ hp hle => ?_
  apply Ends.get
  split
  · rename_i declarations hfound
    have hdeclarations := hp.templates.styles name declarations hfound
    exact Leads.pure hp (howner.setDeclarations g.kept hdeclarations)
  · apply Ends.spanFrom
    exact .fail (hs.within (by omega) hp.place.offset_le)

/-- All that is left at a cursor has the keys that are asked for. -/
def Ground.Keys (g : Ground) (c : Cursor) : Prop :=
  ∀ key, key <:+: c.rest → g.keys (String.ofList key)

theorem Ground.Keys.later (h : g.Keys p.cursor) (hp : p.Fits g) {q : Progress} (hq : q.Fits g)
    (hle : p.cursor.offset ≤ q.cursor.offset) : g.Keys q.cursor :=
  fun key hkey => h key (hkey.trans (hp.place.suffix hq.place hle).isInfix)

theorem leads_styleRule (hs : s.origin.Counts g) (hp : p.Fits g) (howner : owner.Built g.good may)
    (allowed : Bool) : Leads g s (styleRule owner allowed) p (·.Built g.good may) := by
  unfold styleRule
  apply Ends.offset
  refine (Leads.takeRaw hp (by decide)).bind fun (raw, rawStart) p ⟨_, hraw, _⟩ hp _ => ?_
  have htrim := size_trim_le raw
  dsimp only at hraw ⊢
  split_ifs
  · apply Ends.spanOf
    exact .fail (hs.within (Nat.le_add_right _ _) (by simp only [trimAt]; omega))
  · refine (Leads.expect hs hp (by decide) _).bind fun _ p _ hp _ => ?_
    refine (Leads.takeBalanced hs hp).bind fun body p _ hp _ => ?_
    apply Ends.spanFrom
    exact Leads.pure hp (howner.addRule g.kept _)

theorem leads_styleDeclaration (hs : s.origin.Counts g) (hp : p.Fits g)
    (howner : owner.Built g.good may) (hkeys : g.Keys p.cursor) :
    Leads g s (styleDeclaration owner) p (·.Built g.good may) := by
  unfold styleDeclaration
  apply Ends.offset
  refine (Leads.takeRaw hp (by decide)).bind fun (rawKey, _) p ⟨_, hkey, hahead⟩ hp hle => ?_
  have htrim := size_trim_le rawKey
  have hasked : g.keys (String.ofList (trim rawKey)) :=
    hkeys _ ((trim_part rawKey).trans hahead.isInfix)
  dsimp only at hkey ⊢
  refine (Leads.eat hp (by decide)).bind fun colon p _ hp hle => ?_
  split_ifs
  · refine (Leads.takeRaw hp (by decide)).bind fun (raw, _) p ⟨hstart, hraw, _⟩ hp _ => ?_
    dsimp only at hstart hraw ⊢
    refine (Leads.eat hp (by decide)).bind fun _ p _ hp _ => ?_
    refine (leads_declaration hs hp _ raw (by omega) hraw false).bind fun d p hd hp _ => ?_
    obtain ⟨-, hholds, hkey⟩ := hd
    exact Leads.pure hp (howner.setDeclaration g.kept hholds (hkey ▸ hasked))
  · apply Ends.spanOf
    exact .fail (hs.within (Nat.le_add_right _ _) (by simp only [trimAt]; omega))

theorem leads_styleItem (hs : s.origin.Counts g) (hp : p.Fits g) (howner : owner.Built g.good may)
    (hkeys : g.Keys p.cursor) (rules : Bool) :
    Leads g s (styleItem owner rules) p (·.Built g.good may) := by
  unfold styleItem
  apply Ends.cursor
  split_ifs
  · exact leads_styleUse hs hp howner
  · dsimp only
    split_ifs
    · exact leads_styleRule hs hp howner rules
    · exact leads_styleDeclaration hs hp howner hkeys

theorem leads_styleItems (hs : s.origin.Counts g) (hp : p.Fits g)
    (howner : owner.Built g.good may) (hkeys : g.Keys p.cursor) (rules closed : Bool)
    (limit : Nat) : Leads g s (styleItems rules closed limit owner) p (·.Built g.good may) := by
  induction limit generalizing owner p with
  | zero => exact Leads.pure hp howner
  | succ limit ih =>
    have hitem {p : Progress} (hp : p.Fits g) (hkeys : g.Keys p.cursor) (ended : Bool) :
        Leads g s (if ended = true then pure owner
          else do
            if ← atEnd then unexpected .closeBrace
            else styleItems rules closed limit (← styleItem owner rules)) p
          (·.Built g.good may) := by
      split_ifs
      · exact Leads.pure hp howner
      · apply Ends.atEnd
        split_ifs
        · exact .unexpected hs hp.place _
        · exact (leads_styleItem hs hp howner hkeys rules).bind fun _ _ he hq hle =>
            ih hq he (hkeys.later hp hq hle)
    unfold styleItems
    refine (Leads.skipTrivia hp).bind fun _ q _ hq hle => ?_
    have hkeys := hkeys.later hp hq hle
    dsimp only
    split_ifs
    · exact (Leads.eat hq (by decide)).bind fun ended _ _ hr hle =>
        hitem hr (hkeys.later hq hr hle) ended
    · exact Ends.atEnd (hitem hq hkeys _)

theorem leads_styleBody (hs : s.origin.Counts g) (hp : p.Fits g) (howner : owner.Built g.good may)
    (hkeys : g.Keys p.cursor) (rules closed : Bool) :
    Leads g s (styleBody owner rules closed) p (·.Built g.good may) :=
  Ends.rest (leads_styleItems hs hp howner hkeys rules closed _)

end

/-! ## Items -/

/-- The setting reads the markup of the unit. -/
structure Setting.OfUnit (g : Ground) (s : Setting) : Prop where
  scanned : s.scanned = g.unit
  origin : s.origin = .markup g.unit
  text : g.text = g.unit.markup

theorem Setting.OfUnit.counts (hs : s.OfUnit g) : s.origin.Counts g := by
  rw [hs.origin]
  exact ⟨rfl, hs.text⟩

theorem Setting.OfUnit.within (hs : s.OfUnit g) (start stop : Nat) :
    (s.origin.span start stop).Within (size g.source) := by
  rw [hs.origin]
  exact Scanned.spanToSource_within g.scanned _

/-- The block is one of the unit's, and it stands where it was written unless the source holds
marks. -/
def Holds (source : List Char) (unit : Scanned) (b : Block) : Prop :=
  ∃ f ∈ unit.fragments, f.placeholder = some b.placeholder ∧ b.kind = f.kind ∧
    (¬ Placeholder.mark <:+: source → b.span = f.range)

/-- The blocks that may stand in an element. -/
def Setting.Allows (g : Ground) (s : Setting) (b : Block) : Prop :=
  s.inConditional = false ∧ s.inTemplate = false ∧ Holds g.source g.unit b

theorem leads_comment (hp : p.Fits g) {may : Block → Prop} :
    Leads g s comment p (·.Built g.good may) := by
  unfold comment
  apply Ends.offset
  apply Ends.skip
  apply Ends.rest
  apply Ends.skip
  apply Ends.spanFrom
  apply Ends.pure
  refine ⟨.comment _ _, ?_, ?_⟩
  · exact ⟨(hp.place.advance _).advance _, Cursor.apart_line _, hp.templates, hp.consumed⟩
  · exact Nat.le_trans (Nat.le_add_right _ _) (Nat.le_add_right _ _)

theorem leads_textBlock (hs : s.origin.Counts g) (hp : p.Fits g) (start : Nat)
    {may : Block → Prop} : Leads g s (textBlock start) p (·.Built g.good may) := by
  unfold textBlock
  refine (Leads.expect hs hp (by decide) _).bind fun _ p _ hp _ => ?_
  refine (Leads.takeRaw hp (by decide)).bind fun (raw, _) p _ hp _ => ?_
  refine (Leads.expect hs hp (by decide) _).bind fun _ p _ hp _ => ?_
  apply Ends.spanFrom
  exact Leads.pure hp (.text _ _)

theorem leads_elementUse (hs : s.origin.Counts g) (hp : p.Fits g) {may : Block → Prop} :
    Leads g s elementUse p fun nodes => ∀ n ∈ nodes, n.Built g.good may := by
  unfold elementUse
  apply Ends.offset
  refine (Leads.expect hs hp (by decide) _).bind fun _ p _ hp hle => ?_
  refine (Leads.keyword hp _).bind fun _ p _ hp hle => ?_
  refine Leads.optional hp (.unexpected hs hp.place _) fun p hp hle => ?_
  refine (Leads.skipTrivia hp).bind fun _ p _ hp hle => ?_
  refine (Leads.takeName hs hp _).bind fun name p _ hp hle => ?_
  refine (Leads.skipTrivia hp).bind fun _ p _ hp hle => ?_
  refine (Leads.eat hp (by decide)).bind fun _ p _ hp hle => ?_
  apply Ends.get
  split
  · apply Ends.spanFrom
    exact .fail (hs.within (by omega) hp.place.offset_le)
  · rename_i nodes hnodes
    apply Ends.get
    refine ⟨?_, ⟨hp.place, hp.apart, hp.templates, hp.consumed⟩, Nat.le_refl _⟩
    intro n hn
    obtain ⟨m, hm, k, rfl⟩ := exists_of_mem_renumberNodes hn
    have hbuilt := hp.templates.elements name nodes hnodes m hm
    exact (hbuilt.renumber g.kept k).mono fun _ => False.elim

/-- Another text of the source is read, and the cursor comes back. -/
theorem Leads.within {x : Reader Element} {fine : Element → Prop} {origin : Origin}
    {text : List Char} (hp : p.Fits g)
    (h : ∀ q : Progress, q.Fits { g with text := text } →
      Leads { g with text := text } { s with origin := origin } x q fine) :
    Leads g s (Reader.within origin text x) p fine := by
  have hinner := h { p with cursor := ⟨none, 0, text⟩ }
    ⟨.start text, .inl rfl, ⟨hp.templates.elements, hp.templates.styles, hp.templates.groups⟩,
      hp.consumed⟩
  unfold Reader.within
  apply Ends.cursor
  apply Ends.setCursor
  refine Ends.bind hinner ?_
  rintro e q ⟨he, hq, -⟩
  have htemplates := hq.templates
  exact ⟨he, ⟨hp.place, hp.apart, ⟨htemplates.elements, htemplates.styles, htemplates.groups⟩,
    hq.consumed⟩, Nat.le_refl _⟩

/-- The interior of a block lies in the source. -/
theorem Ground.counts_body (g : Ground) {f : Fragment} (hf : f ∈ g.unit.fragments)
    (hk : f.kind ≠ .markup) :
    (Origin.source f.bodyRange.start).Counts { g with text := f.text.toList } := by
  have hat := Scanned.at_of_scan g.scanned hf
  rw [if_neg hk] at hat
  obtain ⟨_, _, _, -, -, before, after, hsource, hstart, -⟩ := hat
  show f.bodyRange.start + size f.text.toList ≤ size g.source
  rw [hstart, hsource]
  simp only [size_append]
  omega

theorem leads_addBlock (hp : p.Fits g) {e : Element}
    (he : e.Built g.good (s.Allows g)) {f : Fragment} {q : Placeholder} {span : Span}
    (hf : f ∈ g.unit.fragments) (hq : f.placeholder = some q)
    (hholds : Holds g.source g.unit ⟨q, f.kind, span⟩) (hspan : span.Within (size g.source)) :
    Leads g s (addBlock e f q span) p (·.Built g.good (s.Allows g)) := by
  have hkind : f.kind ≠ .markup := by
    rw [Ne, Scanned.kind_eq_markup_iff g.scanned hf, hq]
    simp
  unfold addBlock
  apply Ends.read
  split_ifs with hconditional hstyle htemplate
  · exact .fail hspan
  · have hbody : Leads g s (Reader.within (.source f.bodyRange.start) f.text.toList
        (styleBody e true false)) p (·.Built g.good (s.Allows g)) := by
      refine Leads.within hp fun r hr => ?_
      obtain ⟨read, hsplit, -⟩ := hr.place
      exact leads_styleBody (g.counts_body hf hkind) hr he (fun key hkey => g.own f hf key
        (hkey.trans ⟨read, [], by rw [List.append_nil]; exact hsplit.symm⟩)) true false
    refine hbody.bind fun styled r hstyled hr _ => ?_
    refine ⟨hstyled, ⟨hr.place, hr.apart, hr.templates, ?_⟩, Nat.le_refl _⟩
    intro other hother
    rcases Reader.mem_insertAscending.mp hother with rfl | hother
    · exact ⟨f, hf, hstyle, hq⟩
    · exact hr.consumed other hother
  · exact .fail hspan
  · have hscript : f.kind = .script := by
      cases hk : f.kind <;> simp_all
    refine Leads.pure hp (he.addChildren g.kept ?_)
    intro n hn
    obtain rfl := List.mem_singleton.mp hn
    exact .placeholder ⟨by simpa using hconditional, by simpa [hscript] using htemplate, hholds⟩

theorem leads_addAttribute (hs : s.OfUnit g) (hp : p.Fits g) {may : Block → Prop}
    {e : Element} (he : e.Built g.good may) {name : String} (hname : g.names name) (start : Nat) :
    Leads g s (addAttribute e name start) p (·.Built g.good may) := by
  unfold addAttribute
  refine (Leads.takeRaw hp (by decide)).bind fun (raw, rawStart) p _ hp _ => ?_
  refine (Leads.eat hp (by decide)).bind fun _ p _ hp _ => ?_
  apply Ends.spanFrom
  apply Ends.spanOf
  refine (leads_expandedValue hp _ (hs.within _ _)).bind fun text p _ hp _ => ?_
  dsimp only
  split_ifs
  · refine Leads.pure hp (he.addChildren g.kept ?_)
    simpa using Node.Built.text _ _
  · split
    · exact Leads.pure hp (he.setAttribute g.kept (hs.within _ _) hname)
    · exact Leads.pure hp (he.setAttribute g.kept (hs.within _ _) hname)

/-- What is known of a branch: no block stands in it, its declarations are static, and its
expressions are as they should be. -/
structure Ground.Branches (g : Ground) (b : Branch) : Prop where
  children : ∀ n ∈ b.children, n.Built g.good fun _ => False
  static : ∀ d ∈ b.body, d.value.isResponsive = false
  holds : b.Holds g.exprs
  names : ∀ d ∈ b.body, g.names d.key

theorem leads_branchCondition (hs : s.origin.Counts g) (hp : p.Fits g) {b : Branch}
    (hb : g.Branches b) (conditional : Bool) {raw : List Char} {rawStart start : Nat}
    (hraw : rawStart + size raw ≤ size g.text) (hstart : start ≤ p.cursor.offset) :
    Leads g s (branchCondition b conditional raw rawStart start) p g.Branches := by
  have hspan := hs.within hstart hp.place.offset_le
  unfold branchCondition
  apply Ends.spanFrom
  split_ifs
  · exact .fail hspan
  · exact .fail hspan
  · have htrim := size_trim_le raw
    have hroom (hplain : g.plain) : s.origin.toSource (rawStart + size (raw.takeWhile isBlank)) +
        size (trim raw) ≤ size g.source :=
      hs.room hplain (by omega)
    have hbetween := Expr.parse_between (trim raw)
      (s.origin.toSource (rawStart + size (raw.takeWhile isBlank)))
    dsimp only
    apply Ends.read
    split
    · rename_i e hparse
      refine Leads.pure hp ⟨hb.children, hb.static, ⟨fun c hc => ?_, hb.holds.body⟩, hb.names⟩
      cases hc
      exact g.parsed _ _ e hroom hparse
    · rename_i e hparse
      simp only [trimAt] at hparse
      rw [hparse] at hbetween
      exact .fail ⟨hbetween.2.1, fun hplain => Nat.le_trans hbetween.2.2 (hroom hplain)⟩

theorem leads_branchProperty (hs : s.origin.Counts g) (hp : p.Fits g) {b : Branch}
    (hb : g.Branches b) (conditional : Bool) {name : String} (hname : g.names name) {start : Nat}
    (hstart : start ≤ p.cursor.offset) :
    Leads g s (branchProperty b conditional name start) p g.Branches := by
  unfold branchProperty
  refine (Leads.takeRaw hp (by decide)).bind fun (raw, rawStart) p ⟨hfrom, hraw, _⟩ hp _ => ?_
  dsimp only at hfrom hraw ⊢
  refine (Leads.eat hp (by decide)).bind fun _ p _ hp _ => ?_
  refine Leads.optional hp (Leads.eat (x := ';') hp (by decide)) fun p hp _ => ?_
  split_ifs
  · exact leads_branchCondition hs hp hb conditional hraw (by omega)
  · refine (leads_declaration hs hp _ raw (by omega) hraw true).bind fun d p hd hp _ => ?_
    obtain ⟨hstatic, hholds, hkey⟩ := hd
    rw [String.ofList_toList] at hkey
    refine Leads.pure hp ⟨hb.children, ?_, ⟨hb.holds.condition, ?_⟩, ?_⟩
    · exact List.forall_mem_append.mpr ⟨hb.static, by simpa using hstatic rfl⟩
    · exact List.forall_mem_append.mpr ⟨hb.holds.body, by simpa using hholds⟩
    · exact List.forall_mem_append.mpr ⟨hb.names, by simpa [hkey] using hname⟩

/-- A block is held where its name is read as a whole. -/
theorem holds_of_named (hs : s.OfUnit g) (hp : p.Fits g) {name : String} {q : Progress}
    (hname : Named p name q) {f : Fragment} {b : Placeholder}
    (hf : s.scanned.fragment? name = some f) (hb : f.placeholder = some b) :
    f ∈ g.unit.fragments ∧
      Holds g.source g.unit ⟨b, f.kind, s.origin.span p.cursor.offset q.cursor.offset⟩ := by
  rw [hs.scanned, Scanned.fragment?_eq_some_iff (Scanned.nodup_placeholders g.scanned), hb] at hf
  obtain ⟨hmem, htoken⟩ := hf
  obtain rfl : b = ⟨name⟩ := Option.some.inj htoken
  refine ⟨hmem, f, hmem, hb, rfl, fun hmark => ?_⟩
  obtain ⟨hread, rfl⟩ := hname
  obtain ⟨read, hsplit, hoffset, hbefore⟩ := hp.place
  have hwhole := (eq_takeWhile_of_name? hread).1
  have happart : read.getLast?.any isNameChar = false := by
    rw [← hbefore]
    exact hp.apart.before_of_name hread
  have hrange := Scanned.spanToSource_name hmark g.scanned (hs.text ▸ hsplit) happart hmem hb
    hwhole.symm
  rw [hs.origin, ← hrange]
  simp only [Origin.span, Cursor.advance, take_of_name? hread, hoffset]

/-- A name that is read in the markup and is no block's is one that is asked for. -/
theorem names_of_named (hs : s.OfUnit g) (hp : p.Fits g) {name : String} {q : Progress}
    (hname : Named p name q) (hnone : s.scanned.fragment? name = none) : g.names name := by
  obtain ⟨read, hsplit, -, hbefore⟩ := hp.place
  refine g.named read p.cursor.rest name (hs.text ▸ hsplit) ?_ hname.1 (hs.scanned ▸ hnone)
  rw [← hbefore]
  exact hp.apart.before_of_name hname.1

section

variable {α : Type} {fine : α → Prop} {may : Block → Prop}

/-- A character that stands ahead and is part of no name is passed over. -/
theorem Leads.skip_one (hp : p.Fits g) {x : Char} (hhead : p.cursor.peek? = some x)
    (hx : isNameChar x = false) {f : Unit → Reader α}
    (h : ∀ q : Progress, q.Fits g → p.cursor.offset ≤ q.cursor.offset → Leads g s (f ()) q fine) :
    Leads g s (Reader.skip 1 >>= f) p fine := by
  have hskip : Leads g s (Reader.skip 1) p fun _ => True :=
    .onward hp ⟨trivial, 1, rfl, Cursor.apart_advance_one hhead hx⟩
  exact hskip.bind fun _ q _ hq hle => h q hq hle

/-- A name that is read in the markup may be a block's, which then stands where it is read. -/
theorem leads_named (hs : s.OfUnit g) (hp : p.Fits g) (expected : Expectation)
    {more : String → Option (Fragment × Placeholder) → Reader α}
    (hnone : ∀ name q, g.names name → Progress.Fits g q → p.cursor.offset ≤ q.cursor.offset →
      Leads g s (more name none) q fine)
    (hsome : ∀ name f b q, Progress.Fits g q → f ∈ g.unit.fragments → f.placeholder = some b →
      Holds g.source g.unit ⟨b, f.kind, s.origin.span p.cursor.offset q.cursor.offset⟩ →
      Leads g s (more name (some (f, b))) q fine) :
    Leads g s (do
      let name ← takeName expected
      more name (← block? name)) p fine := by
  refine Ends.bind (ends_takeName hs.counts hp expected) ?_
  rintro name q ⟨hname, honward⟩
  obtain ⟨hq, hle⟩ := honward.fits hp
  have hlook : Leads g s (block? name >>= more name) q fine := by
    refine Ends.block? (fun hno => hnone name q (names_of_named hs hp hname hno) hq hle)
      fun f b hf hb => ?_
    obtain ⟨hmem, hholds⟩ := holds_of_named hs hp hname hf hb
    exact hsome name f b q hq hmem hb hholds
  exact Ends.mono hlook fun _ _ ⟨ha, hr, hle'⟩ => ⟨ha, hr, Nat.le_trans hle hle'⟩

/-- A body ends with its brace. Comments and uses of templates may stand among its items. -/
theorem leads_item (hs : s.OfUnit g) (hp : p.Fits g) {done : Reader α}
    (more : List Node → Reader α) {named : Nat → Reader α}
    (hdone : ∀ q, Progress.Fits g q → Leads g s done q fine)
    (hmore : ∀ nodes q, Progress.Fits g q → (∀ n ∈ nodes, n.Built g.good may) →
      Leads g s (more nodes) q fine)
    (hnamed : ∀ q, Progress.Fits g q → Leads g s (named q.cursor.offset) q fine) :
    Leads g s (do
      skipTrivia
      if ← eat '}' then done
      else if ← atEnd then unexpected .closeBrace
      else
        let start ← offset
        if ← looksAt ['-', '-'] then more [← comment]
        else if (← peek?) = some '@' then more (← elementUse)
        else named start) p fine := by
  refine (Leads.skipTrivia hp).bind fun _ p _ hp _ => ?_
  refine (Leads.eat hp (by decide)).bind fun closed p _ hp _ => ?_
  refine .ite (fun _ => hdone p hp) fun _ => ?_
  apply Ends.atEnd
  refine Leads.ite (fun _ => .unexpected hs.counts hp.place _) fun _ => ?_
  apply Ends.offset
  apply Ends.looksAt
  refine Leads.ite (fun _ => ?_) fun _ => ?_
  · have hcomment : Leads g s comment p (·.Built g.good may) := leads_comment hp
    refine hcomment.bind fun n p hn hp _ => hmore [n] p hp ?_
    simpa using hn
  apply Ends.peek?
  refine Leads.ite (fun _ => ?_) fun _ => hnamed p hp
  exact (leads_elementUse hs.counts hp).bind fun nodes p hnodes hp _ => hmore nodes p hp hnodes

end

/-- Inside a branch the same unit is read. -/
theorem Setting.OfUnit.conditional (hs : s.OfUnit g) :
    Setting.OfUnit g { s with inConditional := true } :=
  ⟨hs.scanned, hs.origin, hs.text⟩

theorem Setting.OfUnit.template (hs : s.OfUnit g) :
    Setting.OfUnit g { s with inTemplate := true } :=
  ⟨hs.scanned, hs.origin, hs.text⟩

/-- The branches behind the first one: all but the last have a condition. -/
structure Ground.Continues (g : Ground) (bs : List Branch) : Prop where
  branches : ∀ b ∈ bs, g.Branches b
  earlier : ∀ b ∈ bs.dropLast, b.condition.isSome

theorem Ground.Continues.cons {b : Branch} {bs : List Branch} (h : g.Continues bs)
    (hb : g.Branches b) (hcondition : b.condition.isSome) : g.Continues (b :: bs) := by
  refine ⟨List.forall_mem_cons.mpr ⟨hb, h.branches⟩, ?_⟩
  cases bs with
  | nil => simp
  | cons c cs =>
    rw [List.dropLast_cons_of_ne_nil (List.cons_ne_nil c cs)]
    exact List.forall_mem_cons.mpr ⟨hcondition, h.earlier⟩

-- One theorem for each reader, along their recursion.
mutual

theorem leads_element {g : Ground} {s : Setting} (hs : s.OfUnit g) : (limit : Nat) →
    {tag : String} → g.names tag → (start : Nat) → {p : Progress} → p.Fits g →
    Leads g s (element limit tag start) p (·.Built g.good (s.Allows g))
  | 0, _, _, _, _, hp => .unexpected hs.counts hp.place _
  | limit + 1, tag, htag, start, p, hp => by
    unfold element
    refine (Leads.freshId hp).bind fun id p _ hp _ => ?_
    refine (Leads.expect hs.counts hp (by decide) _).bind fun _ p _ hp _ => ?_
    apply Ends.spanFrom
    have hopened : Element.Built g.good (s.Allows g)
        ⟨id, tag, [], [], [], [], [], s.origin.span start p.cursor.offset⟩ :=
      .opened g.kept id (hs.within start p.cursor.offset) htag
    refine (leads_elementItems hs limit hp hopened).bind fun e p he hp _ => ?_
    apply Ends.spanFrom
    exact Leads.pure hp (he.closed g.kept (hs.within _ _))

theorem leads_elementItems {g : Ground} {s : Setting} (hs : s.OfUnit g) : (limit : Nat) →
    {p : Progress} → {e : Element} → p.Fits g → e.Built g.good (s.Allows g) →
    Leads g s (elementItems limit e) p (·.Built g.good (s.Allows g))
  | 0, _, _, hp, _ => .unexpected hs.counts hp.place _
  | limit + 1, p, e, hp, he => by
    have hone {n : Node} (hn : n.Built g.good (s.Allows g)) (q : Progress) (hq : q.Fits g) :
        Leads g s (elementItems limit (e.addChildren [n])) q (·.Built g.good (s.Allows g)) :=
      leads_elementItems hs limit hq (he.addChildren g.kept (by simpa using hn))
    refine leads_item hs hp (fun nodes => elementItems limit (e.addChildren nodes))
      (fun q hq => Leads.pure hq he)
      (fun nodes q hq hnodes => leads_elementItems hs limit hq (he.addChildren g.kept hnodes))
      fun p hp => ?_
    refine leads_named hs hp _ (fun name q hname hq _ => ?_) fun name f b q hq hf hb hholds => ?_
    · dsimp only
      refine (Leads.skipTrivia hq).bind fun _ p _ hp _ => ?_
      apply Ends.peek?
      refine Leads.ite (fun hsep => ?_) fun _ => Leads.ite (fun _ => ?_) fun _ =>
        .unexpected hs.counts hp.place _
      · obtain ⟨x, hhead, hx⟩ := exists_separator hsep
        refine .skip_one hp hhead hx fun p hp _ => ?_
        exact (leads_addAttribute hs hp he hname _).bind fun e p he hp _ =>
          leads_elementItems hs limit hp he
      refine Leads.ite (fun _ => ?_) fun _ => Leads.ite (fun _ => ?_) fun _ =>
        Leads.ite (fun _ => ?_) fun _ => ?_
      · exact (leads_textBlock hs.counts hp _).bind fun n p hn hp _ => hone hn p hp
      · refine (leads_branch hs limit true _ hp).bind fun first p hfirst hp _ => ?_
        refine (leads_laterBranches hs limit hp).bind fun more p hmore hp _ => ?_
        have hall := hmore.cons hfirst.1 (hfirst.2 rfl)
        refine leads_elementItems hs limit hp (he.addChain g.kept ?_ ?_ ?_)
        · exact ⟨⟨first, rfl, hfirst.2 rfl⟩, hall.earlier, fun b hb => (hall.branches b hb).static,
            fun b hb => (hall.branches b hb).holds⟩
        · exact fun b hb => (hall.branches b hb).names
        · exact fun b hb => (hall.branches b hb).children
      · apply Ends.spanFrom
        exact .fail (hs.within _ _)
      · exact (leads_element hs limit hname _ hp).bind fun child p hchild hp _ => hone hchild p hp
    · apply Ends.spanFrom
      exact (leads_addBlock hq he hf hb hholds (hs.within _ _)).bind fun e p he hp _ =>
        leads_elementItems hs limit hp he

theorem leads_laterBranches {g : Ground} {s : Setting} (hs : s.OfUnit g) : (limit : Nat) →
    {p : Progress} → p.Fits g → Leads g s (laterBranches limit) p g.Continues
  | 0, _, hp => Leads.pure hp ⟨by simp, by simp⟩
  | limit + 1, p, hp => by
    have hone {start : Nat} {q : Progress} (hq : q.Fits g) :
        Leads g s (do return [← branch limit false start]) q g.Continues :=
      (leads_branch hs limit false start hq).bind fun b r hb hr _ =>
        Leads.pure hr ⟨by simpa using hb.1, by simp⟩
    have hmore {start : Nat} {q : Progress} (hq : q.Fits g) :
        Leads g s (do
          let b ← branch limit true start
          return b :: (← laterBranches limit)) q g.Continues :=
      (leads_branch hs limit true start hq).bind fun b r hb hr _ =>
        (leads_laterBranches hs limit hr).bind fun bs t hbs ht _ =>
          Leads.pure ht (hbs.cons hb.1 (hb.2 rfl))
    unfold laterBranches
    apply Ends.cursor
    -- without an `else` the blanks are given back, so the cursor is followed here
    refine Ends.bind (Leads.skipTrivia hp) fun _ q ⟨_, hq, hle⟩ => ?_
    apply Ends.offset
    refine Ends.bind (Leads.keyword hq _) fun isElse r ⟨_, hr, hle'⟩ => ?_
    split_ifs
    · have helse : Leads g s (do
          skipTrivia
          if ← keyword "if" then
            skipTrivia
            let b ← branch limit true q.cursor.offset
            return b :: (← laterBranches limit)
          else return [← branch limit false q.cursor.offset]) r g.Continues := by
        refine (Leads.skipTrivia hr).bind fun _ p _ hp _ => ?_
        refine (Leads.keyword hp _).bind fun isIf p _ hp _ => ?_
        split_ifs
        · exact (Leads.skipTrivia hp).bind fun _ _ _ hq _ => hmore hq
        · exact hone hp
      refine Ends.mono helse fun bs t ⟨hbs, ht, hle''⟩ => ⟨hbs, ht, ?_⟩
      omega
    · apply Ends.setCursor
      exact ⟨⟨by simp, by simp⟩, ⟨hp.place, hp.apart, hr.templates, hr.consumed⟩, Nat.le_refl _⟩

theorem leads_branch {g : Ground} {s : Setting} (hs : s.OfUnit g) : (limit : Nat) →
    (conditional : Bool) → (start : Nat) → {p : Progress} → p.Fits g →
    Leads g s (branch limit conditional start) p fun b =>
      g.Branches b ∧ (conditional = true → b.condition.isSome)
  | 0, _, _, _, hp => .unexpected hs.counts hp.place _
  | limit + 1, conditional, start, p, hp => by
    unfold branch
    refine (Leads.expect hs.counts hp (by decide) _).bind fun _ p _ hp _ => ?_
    have hitems : Leads g s (withReader (fun s => { s with inConditional := true })
        (branchItems limit conditional ⟨none, [], [], .point 0⟩)) p g.Branches :=
      .withReader (leads_branchItems hs.conditional rfl limit hp
        ⟨by simp, by simp, ⟨by simp, by simp⟩, by simp⟩)
    refine hitems.bind fun b p hb hp _ => ?_
    apply Ends.spanFrom
    split_ifs with hmissing
    · exact .fail (hs.within _ _)
    · refine Leads.pure hp ⟨⟨hb.children, hb.static, ⟨hb.holds.condition, hb.holds.body⟩, hb.names⟩,
        fun hconditional => ?_⟩
      simpa [hconditional, Option.isSome_iff_ne_none] using hmissing

theorem leads_branchItems {g : Ground} {s : Setting} (hs : s.OfUnit g)
    (hinside : s.inConditional = true) : (limit : Nat) → {conditional : Bool} → {p : Progress} →
    {b : Branch} → p.Fits g → g.Branches b →
    Leads g s (branchItems limit conditional b) p g.Branches
  | 0, _, _, _, hp, _ => .unexpected hs.counts hp.place _
  | limit + 1, conditional, p, b, hp, hb => by
    have hmore (nodes : List Node) (q : Progress) (hq : q.Fits g)
        (hnodes : ∀ n ∈ nodes, n.Built g.good fun _ => False) :
        Leads g s (branchItems limit conditional { b with children := b.children ++ nodes }) q
          g.Branches :=
      leads_branchItems hs hinside limit hq
        ⟨List.forall_mem_append.mpr ⟨hb.children, hnodes⟩, hb.static,
          ⟨hb.holds.condition, hb.holds.body⟩, hb.names⟩
    refine leads_item hs hp
      (fun nodes => branchItems limit conditional { b with children := b.children ++ nodes })
      (fun q hq => Leads.pure hq hb) hmore fun p hp => ?_
    refine leads_named hs hp _ (fun name q hname hq hle => ?_) fun name f b q hq _ _ _ => ?_
    · dsimp only
      refine (Leads.skipTrivia hq).bind fun _ p _ hp _ => ?_
      apply Ends.peek?
      refine Leads.ite (fun hcolon => ?_) fun _ => Leads.ite (fun _ => ?_) fun _ =>
        .unexpected hs.counts hp.place _
      · refine .skip_one hp hcolon (by decide) fun p hp _ => ?_
        exact (leads_branchProperty hs.counts hp hb conditional hname (by omega)).bind
          fun b p hb hp _ => leads_branchItems hs hinside limit hp hb
      refine Leads.ite (fun _ => ?_) fun _ => Leads.ite (fun _ => ?_) fun _ => ?_
      · exact (leads_textBlock hs.counts hp _).bind fun n p hn hp _ =>
          hmore [n] p hp (by simpa using hn)
      · apply Ends.spanFrom
        exact .fail (hs.within _ _)
      · refine (leads_element hs limit hname _ hp).bind fun child p hchild hp _ =>
          hmore [.element child] p hp ?_
        have hnone : Element.Built g.good (fun _ => False) child :=
          hchild.mono fun block hallows => by simp [Setting.Allows, hinside] at hallows
        simpa using hnone
    · apply Ends.spanFrom
      exact .fail (hs.within _ _)

end

/-! ## Templates and documents -/

theorem leads_variableItems (hs : s.origin.Counts g) (hp : p.Fits g) (limit : Nat)
    (values : List (String × String)) :
    Leads g s (variableItems limit values) p fun _ => True := by
  induction limit generalizing p values with
  | zero => exact Leads.pure hp trivial
  | succ limit ih =>
    unfold variableItems
    refine (Leads.skipTrivia hp).bind fun _ p _ hp _ => ?_
    refine (Leads.eat hp (by decide)).bind fun closed p _ hp _ => ?_
    split_ifs
    · exact Leads.pure hp trivial
    refine (Leads.takeName hs hp _).bind fun key p _ hp _ => ?_
    refine (Leads.skipTrivia hp).bind fun _ p _ hp _ => ?_
    refine (Leads.expect hs hp (by decide) _).bind fun _ p _ hp _ => ?_
    refine (Leads.takeRaw hp (by decide)).bind fun (raw, _) p _ hp _ => ?_
    exact (Leads.eat hp (by decide)).bind fun _ p _ hp _ => ih hp _

/-- A template of elements holds nodes that are built and no block, and one of style expressions as
they should be. A plain unit defines no group. -/
def Ground.Defines (g : Ground) : Template → Prop
  | .element nodes => ∀ n ∈ nodes, n.Built g.good fun _ => False
  | .style ds => ∀ d ∈ ds, d.Holds g.exprs ∧ g.keys d.key
  | .group _ => ¬ g.plain

theorem leads_templateBody (hs : s.OfUnit g) (hinside : s.inTemplate = true) (hp : p.Fits g)
    {kind : TemplateKind} (hkind : kind = .group → ¬ g.plain)
    (hkeys : kind = .style → g.Keys p.cursor) (start : Nat) :
    Leads g s (templateBody kind start) p g.Defines := by
  unfold templateBody
  apply Ends.spanFrom
  have hholder : Element.Built g.good (s.Allows g)
      ⟨0, "", [], [], [], [], [], s.origin.span start p.cursor.offset⟩ :=
    .opened g.kept 0 (hs.within start p.cursor.offset) g.unnamed
  apply Ends.rest
  cases kind with
  | style =>
    exact (leads_styleBody hs.counts hp hholder (hkeys rfl) false true).bind fun e p he hp _ =>
      Leads.pure hp (g.holds e he.own)
  | element =>
    refine (leads_elementItems hs _ hp hholder).bind fun filled p hfilled hp _ => ?_
    split
    · rename_i a more hattributes
      exact .fail (g.placed filled hfilled.own a (by simp [hattributes]))
    · split_ifs
      · refine Leads.pure hp fun n hn => ?_
        refine (hfilled.inner.1 n hn).mono fun block hallows => ?_
        simp [Setting.Allows, hinside] at hallows
      · apply Ends.spanFrom
        exact .fail (hs.within _ _)
  | group => exact (leads_variableItems hs.counts hp _ _).bind fun values p _ hp _ =>
      Leads.pure hp (hkind rfl)

/-- The word for a group of variables stands behind a sign that a plain unit has not in front of
it. -/
theorem not_plain_of_group (hs : s.OfUnit g) (hp : p.Fits g) (hbefore : p.cursor.before = some '@')
    {q : Progress} (hname : Named p "Var" q) : ¬ g.plain := by
  intro hplain
  obtain ⟨hunit, hnone⟩ := g.unit_plain hplain
  obtain ⟨read, hsplit, -, hlast⟩ := hp.place
  obtain ⟨front, rfl⟩ := List.getLast?_eq_some_iff.mp (hlast.symm.trans hbefore)
  refine hnone ⟨front, p.cursor.rest.drop "Var".toList.length, ?_⟩
  conv_rhs => rw [← Scanned.markup_of_plain g.scanned hunit, ← hs.text, hsplit,
    eq_append_of_name? hname.1]
  simp

/-- Behind the word for a template of styles the keys are those that are asked for. -/
theorem keys_of_style (hs : s.OfUnit g) (hp : p.Fits g) (hbefore : p.cursor.before = some '@')
    {q : Progress} (hname : Named p "Style" q) : g.Keys q.cursor := by
  obtain ⟨hread, rfl⟩ := hname
  obtain ⟨read, hsplit, -, hlast⟩ := hp.place
  obtain ⟨front, rfl⟩ := List.getLast?_eq_some_iff.mp (hlast.symm.trans hbefore)
  intro key hkey
  refine g.behind (front ++ ['@'] ++ "Style".toList) (p.cursor.rest.drop "Style".toList.length) key
    ?_ ⟨front, [], by simp⟩ hkey
  conv_lhs => rw [← hs.text, hsplit, eq_append_of_name? hread]
  exact (List.append_assoc _ _ _).symm

/-- A kind of template is read. A plain unit has no group, and behind the word for styles the keys
are those that are asked for. -/
theorem ends_templateKind (hs : s.OfUnit g) (hp : p.Fits g)
    (hbefore : p.cursor.before = some '@') :
    Ends g s templateKind p fun kind q => (kind = .group → ¬ g.plain) ∧
      (kind = .style → g.Keys q.cursor) ∧ q.Fits g ∧ p.cursor.offset ≤ q.cursor.offset := by
  unfold templateKind
  refine Ends.bind ends_takeName? ?_
  rintro (_ | name) q h
  · subst h
    exact .unexpected hs.counts hp.place _
  · obtain ⟨hname, honward⟩ := h
    obtain ⟨hq, hle⟩ := honward.fits hp
    split
    · rename_i hstyle
      cases hstyle
      exact .pure ⟨nofun, fun _ => keys_of_style hs hp hbefore hname, hq, hle⟩
    · exact .pure ⟨nofun, nofun, hq, hle⟩
    · rename_i hvar
      cases hvar
      exact .pure ⟨fun _ => not_plain_of_group hs hp hbefore hname, nofun, hq, hle⟩
    · exact .unexpected hs.counts hq.place _

/-- A definition is kept for later uses. -/
theorem leads_define (hp : p.Fits g) (name : String) {template : Template}
    (htemplate : g.Defines template) :
    Leads g s (modify fun p => { p with templates := p.templates.define name template }) p
      fun _ => True := by
  obtain ⟨helements, hstyles, hgroups⟩ := hp.templates
  refine ⟨trivial, ⟨hp.place, hp.apart, ?_, hp.consumed⟩, Nat.le_refl _⟩
  cases template with
  | element nodes =>
    refine ⟨fun other found hfound => ?_, hstyles, hgroups⟩
    rw [Templates.element?_define] at hfound
    split_ifs at hfound
    · cases hfound
      exact htemplate
    · exact helements other found hfound
  | style declarations =>
    refine ⟨helements, fun other found hfound => ?_, hgroups⟩
    rw [Templates.style?_define] at hfound
    split_ifs at hfound
    · cases hfound
      exact htemplate
    · exact hstyles other found hfound
  | group values => exact ⟨helements, hstyles, fun hplain => absurd hplain htemplate⟩

theorem leads_templateDefinition (hs : s.OfUnit g) (hp : p.Fits g) :
    Leads g s templateDefinition p fun _ => True := by
  have hrest {start : Nat} {p : Progress} (hp : p.Fits g) : Leads g s (do
      expect ']' .closeBracket
      skipTrivia
      expect '@' .templateKind
      let kind ← templateKind
      skipTrivia
      let name ← takeName .templateName
      skipTrivia
      expect '{' .openBrace
      let template ← withReader (fun s => { s with inTemplate := true }) (templateBody kind start)
      modify fun p => { p with templates := p.templates.define name template }) p
      fun _ => True := by
    refine (Leads.expect hs.counts hp (by decide) _).bind fun _ p _ hp _ => ?_
    refine (Leads.skipTrivia hp).bind fun _ p _ hp _ => ?_
    refine Ends.bind (ends_expect hs.counts hp (by decide) _) fun _ q ⟨hq, hle, hbefore⟩ => ?_
    refine Leads.since ?_ hle
    refine Ends.bind (ends_templateKind hs hq hbefore) fun kind r ⟨hkind, hkeys, hr, hle⟩ => ?_
    refine Leads.since ?_ hle
    refine (Leads.skipTrivia hr).bind fun _ p _ hp hskip => ?_
    refine (Leads.takeName hs.counts hp _).bind fun name p _ hp hname => ?_
    refine (Leads.skipTrivia hp).bind fun _ p _ hp hskip' => ?_
    refine (Leads.expect hs.counts hp (by decide) _).bind fun _ p _ hp hopen => ?_
    have hbody : Leads g s (withReader (fun s => { s with inTemplate := true })
        (templateBody kind start)) p g.Defines :=
      .withReader (leads_templateBody hs.template rfl hp hkind
        (fun hstyle => (hkeys hstyle).later hr hp (by omega)) start)
    exact hbody.bind fun template p htemplate hp _ => leads_define hp name htemplate
  unfold templateDefinition
  apply Ends.offset
  refine (Leads.expect hs.counts hp (by decide) _).bind fun _ p _ hp _ => ?_
  refine (Leads.takeName? hp).bind fun word p _ hp _ => ?_
  dsimp only
  split
  · exact hrest hp
  · exact hrest hp
  · exact Ends.bind (Ends.unexpected hs.counts hp.place _) fun _ _ (h : False) => h.elim

theorem leads_rootItem (hs : s.OfUnit g) (hconditional : s.inConditional = false)
    (htemplate : s.inTemplate = false) (hp : p.Fits g) (limit : Nat) :
    Leads g s (rootItem limit) p fun nodes => ∀ n ∈ nodes, n.Built g.good (s.Allows g) := by
  have hone {x : Reader Node} {p : Progress} (hx : Leads g s x p (·.Built g.good (s.Allows g))) :
      Leads g s (do return [← x]) p fun nodes => ∀ n ∈ nodes, n.Built g.good (s.Allows g) :=
    hx.bind fun n p hn hp _ => Leads.pure hp (by simpa using hn)
  unfold rootItem
  apply Ends.offset
  apply Ends.looksAt
  refine Leads.ite (fun _ => hone (leads_comment hp)) fun _ => ?_
  apply Ends.peek?
  refine Leads.ite (fun _ => ?_) fun _ => ?_
  · exact (leads_templateDefinition hs hp).bind fun _ p _ hp _ => Leads.pure hp (by simp)
  apply Ends.peek?
  refine Leads.ite (fun _ => leads_elementUse hs.counts hp) fun _ => ?_
  refine leads_named hs hp _ (fun name p hname hp _ => ?_) fun name f b p hp hf hb hholds => ?_
  · dsimp only
    refine (Leads.skipTrivia hp).bind fun _ p _ hp _ => ?_
    apply Ends.peek?
    refine Leads.ite (fun _ => ?_) fun _ => .unexpected hs.counts hp.place _
    refine Leads.ite (fun _ => hone (leads_textBlock hs.counts hp _)) fun _ => ?_
    refine (leads_element hs limit hname _ hp).bind fun e p he hp _ => Leads.pure hp ?_
    simpa using he
  · apply Ends.spanFrom
    refine Leads.pure hp ?_
    simpa using Node.Built.placeholder ⟨hconditional, htemplate, hholds⟩

theorem leads_rootItems (hs : s.OfUnit g) (hconditional : s.inConditional = false)
    (htemplate : s.inTemplate = false) (hp : p.Fits g) (limit : Nat) {nodes : List Node}
    (hnodes : ∀ n ∈ nodes, n.Built g.good (s.Allows g)) :
    Leads g s (rootItems limit nodes) p fun nodes =>
      ∀ n ∈ nodes, n.Built g.good (s.Allows g) := by
  induction limit generalizing p nodes with
  | zero => exact Leads.pure hp hnodes
  | succ limit ih =>
    unfold rootItems
    refine (Leads.skipTrivia hp).bind fun _ p _ hp _ => ?_
    apply Ends.atEnd
    refine Leads.ite (fun _ => Leads.pure hp hnodes) fun _ => ?_
    exact (leads_rootItem hs hconditional htemplate hp limit).bind fun more p hmore hp _ =>
      ih hp (List.forall_mem_append.mpr ⟨hnodes, hmore⟩)

end Markup

/-- Every text of the unit is read as it is written: none holds a block, and no group of variables
is defined. -/
def Scanned.AsWritten (source : List Char) (s : Scanned) : Prop :=
  s.Plain ∧ ¬ "@Var".toList <:+: source

/-- No span of the expression is turned around, and none ends behind the source if texts are read as
they are written. -/
def Expr.Placed (source : List Char) (unit : Scanned) : Expr → Prop :=
  Expr.All fun s => s.start ≤ s.stop ∧ (unit.AsWritten source → s.stop ≤ size source)

variable {source : List Char} {scanned : Scanned}

/-- What is asked of the parts of elements in a unit: they stand in the source, and their
expressions are placed. -/
def Markup.asked (source : List Char) (scanned : Scanned) (names keys : String → Prop) : Asked where
  spans := (·.Within (size source))
  exprs := Expr.Placed source scanned
  names := names
  keys := keys

/-- What is asked of the parts of elements if names and keys may be any. -/
abbrev Markup.located (source : List Char) (scanned : Scanned) : Asked :=
  asked source scanned (fun _ => True) fun _ => True

/-- What is asked of a unit in which names and keys are such: its elements are formed. -/
def Markup.Ground.ofScan (h : scan source = .ok scanned) (names keys : String → Prop)
    (words : (Markup.asked source scanned names keys).Words) (unnamed : names "")
    (named : ∀ read rest name, scanned.markup = read ++ rest →
      read.getLast?.any isNameChar = false → Markup.name? rest = some name.toList →
      scanned.fragment? name = none → names name)
    (own : ∀ f ∈ scanned.fragments, ∀ key, key <:+: f.text.toList → keys (String.ofList key))
    (behind : ∀ read rest key, scanned.markup = read ++ rest → "@Style".toList <:+: read →
      key <:+: rest → keys (String.ofList key)) : Markup.Ground where
  source := source
  unit := scanned
  scanned := h
  text := scanned.markup
  plain := scanned.AsWritten source
  unit_plain hplain := hplain
  exprs := Expr.Placed source scanned
  names := names
  keys := keys
  parsed value base e hroom hparse := by
    have hbetween := Expr.parse_between value base
    rw [hparse] at hbetween
    exact hbetween.mono fun s hs =>
      ⟨hs.2.1, fun hplain => Nat.le_trans hs.2.2 (hroom hplain)⟩
  unnamed := unnamed
  named := named
  own := own
  behind := behind
  good := Element.Formed (Markup.asked source scanned names keys)
  kept := kept_formed words
  placed _ hformed := hformed.attributes
  holds _ hformed := hformed.style

/-- In every unit elements are formed, whatever their names are. -/
def Markup.Ground.anyNames (h : scan source = .ok scanned) : Markup.Ground :=
  .ofScan h (fun _ => True) (fun _ => True) ⟨trivial, trivial⟩ trivial
    (fun _ _ _ _ _ _ _ => trivial) (fun _ _ _ _ => trivial) (fun _ _ _ _ _ _ => trivial)

/-- What is kept besides is asked of the elements too. -/
def Markup.Ground.adding (g : Markup.Ground) {more : Element → Prop}
    (hmore : Kept ⟨(·.Within (size g.source)), g.exprs, g.names, g.keys⟩ more) : Markup.Ground :=
  { g with
    good := fun e => g.good e ∧ more e
    kept := g.kept.and hmore
    placed := fun e he => g.placed e he.1
    holds := fun e he => g.holds e he.1 }

namespace Document

/-- A document is built of good elements and of blocks of its unit, and only style blocks became
part of an element. A fault has its place. -/
theorem leads_ofScanned (g : Markup.Ground) (htext : g.text = g.unit.markup) :
    match ofScanned g.unit with
    | .ok d => (∀ n ∈ d.children, n.Built g.good (Markup.Holds g.source g.unit)) ∧
        ∀ q ∈ d.consumedStyles, ∃ f ∈ g.unit.fragments, f.kind = .style ∧ f.placeholder = some q
    | .error e => e.Placed g.plain (size g.source) := by
  let s : Markup.Setting := { scanned := g.unit, origin := .markup g.unit }
  let p : Markup.Progress := { cursor := { rest := g.unit.markup } }
  have hunit : s.OfUnit g := ⟨rfl, rfl, htext⟩
  have hstart : p.Fits g := by
    refine ⟨?_, .inl rfl, ?_, by simp [p]⟩
    · rw [htext]
      exact .start _
    · exact ⟨by simp [p, Templates.element?], by simp [p, Templates.style?], fun _ => rfl⟩
  have hread := Markup.leads_rootItems hunit rfl rfl hstart (2 * g.unit.markup.length + 2)
    (List.forall_mem_nil _)
  unfold Markup.Leads Markup.Ends at hread
  unfold ofScanned
  dsimp only
  split at hread
  · rename_i nodes q hrun
    obtain ⟨hnodes, hq, -⟩ := hread
    simp only [s, p] at hrun
    rw [hrun]
    exact ⟨fun n hn => (hnodes n hn).mono fun b hb => hb.2.2, hq.consumed⟩
  · rename_i e hrun
    simp only [s, p] at hrun
    rw [hrun]
    exact hread

/-- Every element of a document, be it in a branch, is good. -/
theorem good_of_ofScanned (g : Markup.Ground) (htext : g.text = g.unit.markup) {d : Document}
    (h : ofScanned g.unit = .ok d) {e : Element} (he : e ∈ d.elements) :
    ∃ may, e.Built g.good may := by
  have hread := leads_ofScanned g htext
  rw [h] at hread
  obtain ⟨walk, hwalk, hx⟩ := mem_entered_flatten.mp he
  rw [eventsOfNodes_eq_map] at hwalk
  obtain ⟨n, hn, rfl⟩ := List.mem_map.mp hwalk
  exact (hread.1 n hn).entered hx

/-- The elements of a document are formed, and its blocks are those of its unit. -/
theorem built_of_ofScanned (hs : scan source = .ok scanned) {d : Document}
    (h : ofScanned scanned = .ok d) :
    (∀ n ∈ d.children, n.Built (Element.Formed (Markup.located source scanned))
      (Markup.Holds source scanned)) ∧
      ∀ q ∈ d.consumedStyles, ∃ f ∈ scanned.fragments, f.kind = .style ∧
        f.placeholder = some q := by
  have hread := leads_ofScanned (.anyNames hs) rfl
  change match ofScanned scanned with | .ok _ => _ | .error _ => _ at hread
  rw [h] at hread
  exact hread

/-- The fault of a markup lies in the source. -/
theorem placed_of_ofScanned (hs : scan source = .ok scanned) {e : MarkupError}
    (h : ofScanned scanned = .error e) : e.Placed (scanned.AsWritten source) (size source) := by
  have hread := leads_ofScanned (.anyNames hs) rfl
  change match ofScanned scanned with | .ok _ => _ | .error _ => _ at hread
  rw [h] at hread
  exact hread

/-- The elements of a document, those in branches included, are formed, and hold only blocks of
their unit, none of them in a branch. -/
theorem formed_of_ofScanned (hs : scan source = .ok scanned) {d : Document}
    (h : ofScanned scanned = .ok d) {e : Element} (he : e ∈ d.elements) :
    ∃ may, e.Built (Element.Formed (Markup.located source scanned)) may :=
  good_of_ofScanned (.anyNames hs) rfl h he

/-- What every step keeps is true of the elements of a document. -/
theorem kept_of_ofScanned {good : Element → Prop} (hs : scan source = .ok scanned)
    (hkept : Kept (Markup.located source scanned) good) {d : Document}
    (h : ofScanned scanned = .ok d) {e : Element} (he : e ∈ d.elements) : good e := by
  obtain ⟨may, hbuilt⟩ :=
    good_of_ofScanned ((Markup.Ground.anyNames hs).adding hkept) rfl h he
  exact hbuilt.own.2

end Document

end Chtl
