import Chtl.Proofs.Fragment.Boundary
import Chtl.Proofs.Markup.Building
import Chtl.Proofs.Markup.Pieces

/-!
# Blocks in names

A placeholder is spelled like a name. It is taken for the block it stands for only if it is read as
a whole name, and a name that goes on behind it swallows the block. So tags, attributes and what
branches set hold a placeholder exactly if a block touches a name character or another block behind
it. The keys of styles are parts of blocks, which hold no placeholder, or they are raw text behind
the word for a template of styles.
-/

set_option autoImplicit false
set_option linter.all false

namespace Chtl

open Text

/-- What is read over a name: the tag, the attributes and what branches set. -/
def Element.names (e : Element) : List String :=
  e.tag :: (e.attributes.map (·.name) ++
    e.chains.flatMap fun c => c.branches.flatMap fun b => b.body.map (·.key))

theorem Element.forall_mem_names {e : Element} {p : String → Prop} (htag : p e.tag)
    (hattributes : ∀ a ∈ e.attributes, p a.name)
    (hset : ∀ c ∈ e.chains, ∀ b ∈ c.branches, ∀ d ∈ b.body, p d.key) :
    ∀ name ∈ e.names, p name := by
  refine List.forall_mem_cons.mpr ⟨htag, List.forall_mem_append.mpr ⟨?_, ?_⟩⟩
  · exact List.forall_mem_map.mpr hattributes
  · intro name hname
    obtain ⟨c, hc, hname⟩ := List.mem_flatMap.mp hname
    obtain ⟨b, hb, hname⟩ := List.mem_flatMap.mp hname
    exact List.forall_mem_map.mpr (hset c hc b hb) name hname

namespace Scanned

/-- A placeholder of the unit is a part of the text. -/
def HoldsBlock (s : Scanned) (text : List Char) : Prop :=
  ∃ p ∈ placeholders s.fragments, p.token.toList <:+: text

instance (s : Scanned) (text : List Char) : Decidable (s.HoldsBlock text) :=
  inferInstanceAs (Decidable (∃ p ∈ placeholders s.fragments, p.token.toList <:+: text))

/-- The text is a placeholder and the rest of a name that goes on behind it: right behind the block
stands a fragment that begins like the rest of a name. -/
def RunsOn (s : Scanned) (text : List Char) : Prop :=
  ∃ before f g after p, s.fragments = before ++ f :: g :: after ∧ f.placeholder = some p ∧
    g.image.head?.any isNameChar = true ∧
    text = p.token.toList ++ ((g :: after).flatMap Fragment.image).takeWhile isNameChar

/-- The text is a stretch of the markup behind the word for a template of styles. -/
def BehindStyles (s : Scanned) (text : List Char) : Prop :=
  ∃ read rest, s.markup = read ++ rest ∧ "@Style".toList <:+: read ∧ text <:+: rest

variable {source : List Char} {s : Scanned} {text : List Char}

theorem HoldsBlock.mark (hs : scan source = .ok s) (h : s.HoldsBlock text) :
    Placeholder.mark <:+: text := by
  obtain ⟨p, hp, hpart⟩ := h
  exact (isWord_of_mem_placeholders hs hp).2.trans hpart

theorem RunsOn.holdsBlock (h : s.RunsOn text) : s.HoldsBlock text := by
  obtain ⟨before, f, g, after, p, hfragments, hp, -, rfl⟩ := h
  refine ⟨p, List.mem_filterMap.mpr ⟨f, by simp [hfragments], hp⟩, ?_⟩
  exact (List.prefix_append _ _).isInfix

theorem image_ne_nil (hs : scan source = .ok s) {f : Fragment} (hf : f ∈ s.fragments) :
    f.image ≠ [] := by
  have hpos := (sized_of_scan hs hf).pos
  rw [← f.size_image] at hpos
  rintro hnil
  rw [hnil] at hpos
  cases hpos

/-- A name that is read as a whole, holds a placeholder and is none goes on behind a block. -/
theorem runsOn_of_name (hmark : ¬ Placeholder.mark <:+: source) (hs : scan source = .ok s)
    {read rest : List Char} {name : String} (hsplit : s.markup = read ++ rest)
    (hread : read.getLast?.any isNameChar = false)
    (hname : Markup.name? rest = some name.toList) (hnone : s.fragment? name = none)
    (h : s.HoldsBlock name.toList) : s.RunsOn name.toList := by
  have hmarked := marked_of_scan hmark hs
  have hrun := (Markup.eq_takeWhile_of_name? hname).1
  have hpart := h.mark hs
  rw [hrun] at hpart
  obtain ⟨before, f, after, p, hfragments, hp, hrest⟩ :=
    hmarked.split_of_mark (parted_of_scan hs) hsplit hread hpart
  have hmem : f ∈ s.fragments := by simp [hfragments]
  have hnames := (hmarked.token p (List.mem_filterMap.mpr ⟨f, hmem, hp⟩)).1
  rw [hrest, List.takeWhile_append_of_pos hnames] at hrun
  have hmore : (after.flatMap Fragment.image).takeWhile isNameChar ≠ [] := by
    intro hnil
    rw [hnil, List.append_nil] at hrun
    have htoken : p = ⟨name⟩ := congrArg Placeholder.mk (String.toList_inj.mp hrun.symm)
    exact fragment?_eq_none_iff.mp hnone f hmem (htoken ▸ hp)
  cases after with
  | nil => exact absurd rfl hmore
  | cons g after =>
    refine ⟨before, f, g, after, p, hfragments, hp, ?_, hrun⟩
    obtain ⟨c, cs, himage⟩ :=
      List.exists_cons_of_ne_nil (image_ne_nil hs (f := g) (by simp [hfragments]))
    rw [List.flatMap_cons, himage, List.cons_append, List.takeWhile_cons] at hmore
    rw [himage, List.head?_cons, Option.any_some]
    by_contra hc
    exact hmore (if_neg hc)

/-- A part of what a fragment holds has no placeholder. -/
theorem not_holdsBlock_of_part (hmark : ¬ Placeholder.mark <:+: source) (hs : scan source = .ok s)
    {f : Fragment} (hf : f ∈ s.fragments) (hpart : text <:+: f.text.toList) :
    ¬ s.HoldsBlock text :=
  fun h => hmark ((h.mark hs).trans (hpart.trans (text_part hs hf)))

end Scanned

namespace Document

variable {source : List Char} {s : Scanned}

/-- What is asked of the names and the keys of a unit. -/
def blockAsked (hmark : ¬ Placeholder.mark <:+: source) (hs : scan source = .ok s) :
    Markup.Ground :=
  .ofScan hs (fun name => s.HoldsBlock name.toList → s.RunsOn name.toList)
    (fun key => s.HoldsBlock key.toList → s.BehindStyles key.toList)
    ⟨fun h => absurd (h.mark hs) (by decide), fun h => absurd (h.mark hs) (by decide)⟩
    (fun h => absurd (h.mark hs) (by decide))
    (fun _ _ _ hsplit hread hname hnone h => s.runsOn_of_name hmark hs hsplit hread hname hnone h)
    (fun f hf key hkey h => by
      rw [String.toList_ofList] at h
      exact absurd h (Scanned.not_holdsBlock_of_part hmark hs hf hkey))
    (fun read rest key hsplit hstyle hkey _ => by
      rw [String.toList_ofList]
      exact ⟨read, rest, hsplit, hstyle, hkey⟩)

/-- Tags, attributes and what branches set hold a placeholder exactly if they run on behind a block,
and a key of a style that holds one stands behind the word for a template of styles. -/
theorem names_holdsBlock_iff (hmark : ¬ Placeholder.mark <:+: source) (hs : scan source = .ok s)
    {d : Document} (hd : ofScanned s = .ok d) {e : Element} (he : e ∈ d.elements) :
    (∀ name ∈ e.names, s.HoldsBlock name.toList ↔ s.RunsOn name.toList) ∧
      ∀ decl ∈ e.style, s.HoldsBlock decl.key.toList → s.BehindStyles decl.key.toList := by
  obtain ⟨may, hbuilt⟩ := good_of_ofScanned (blockAsked hmark hs) rfl hd he
  have hformed : Element.Formed _ e := hbuilt.own
  have hnames : ∀ name ∈ e.names, s.HoldsBlock name.toList → s.RunsOn name.toList :=
    Element.forall_mem_names hformed.tag hformed.names hformed.set
  exact ⟨fun name hname => ⟨hnames name hname, Scanned.RunsOn.holdsBlock⟩,
    fun decl hdecl => (hformed.style decl hdecl).2⟩

/-- A block that an attribute runs on behind, in an element with another name and a key without
blocks. -/
theorem names_holdsBlock_iff_attribute :
    ∃ source s d e, source =
        "div \x7b style \x7b color: red; \x7dx: 1; style \x7b width: 1px; \x7d \x7d".toList ∧
      ¬ Placeholder.mark <:+: source ∧ scan source = .ok s ∧ ofScanned s = .ok d ∧
      e ∈ d.elements ∧ e.tag = "div" ∧ e.style.map (·.key) = ["width"] ∧
      (∃ a ∈ e.attributes, s.HoldsBlock a.name.toList ∧ s.RunsOn a.name.toList) ∧
      (∀ name ∈ e.names, s.HoldsBlock name.toList ↔ s.RunsOn name.toList) ∧
      ∀ decl ∈ e.style, s.HoldsBlock decl.key.toList → s.BehindStyles decl.key.toList := by
  obtain ⟨source, hsource⟩ : ∃ source, source =
      "div \x7b style \x7b color: red; \x7dx: 1; style \x7b width: 1px; \x7d \x7d".toList :=
    ⟨_, rfl⟩
  have hmark : ¬ Placeholder.mark <:+: source := by
    rw [hsource, String.toList_ofList]
    decide +kernel
  have hok : ∃ s, scan source = .ok s ∧ ∃ d, ofScanned s = .ok d ∧ ∃ e ∈ d.elements,
      e.tag = "div" ∧ e.style.map (·.key) = ["width"] ∧
        ∃ a ∈ e.attributes, s.HoldsBlock a.name.toList := by
    rw [hsource, String.toList_ofList]
    decide +kernel
  obtain ⟨s, hs, d, hd, e, he, htag, hkeys, a, ha, hholds⟩ := hok
  obtain ⟨hnames, hstyle⟩ := names_holdsBlock_iff hmark hs hd he
  have hmem : a.name ∈ e.names :=
    List.mem_cons_of_mem _ (List.mem_append_left _ (List.mem_map_of_mem ha))
  exact ⟨source, s, d, e, hsource, hmark, hs, hd, he, htag, hkeys,
    ⟨a, ha, hholds, (hnames a.name hmem).mp hholds⟩, hnames, hstyle⟩

/-- A tag and an attribute that run on behind a block, and a key behind the word for a template of
styles that takes a block in. -/
theorem names_hold_touching_block :
    (∃ source, source = "style \x7b\x7da \x7b\x7d".toList ∧ ¬ Placeholder.mark <:+: source ∧
      ∃ s, scan source = .ok s ∧ ∃ d, ofScanned s = .ok d ∧
        ∃ e ∈ d.elements, s.HoldsBlock e.tag.toList) ∧
    (∃ source, source = "div \x7b style \x7b color: red; \x7dx: 1; \x7d".toList ∧
      ¬ Placeholder.mark <:+: source ∧ ∃ s, scan source = .ok s ∧ ∃ d, ofScanned s = .ok d ∧
        ∃ e ∈ d.elements, ∃ a ∈ e.attributes, s.HoldsBlock a.name.toList) ∧
    ∃ source, source = ("[Template] @Style S \x7b color style \x7b\x7d: red; \x7d ".toList ++
        "div \x7b style \x7b @Style S; \x7d \x7d".toList) ∧
      ¬ Placeholder.mark <:+: source ∧ ∃ s, scan source = .ok s ∧ ∃ d, ofScanned s = .ok d ∧
        ∃ e ∈ d.elements, ∃ decl ∈ e.style, s.HoldsBlock decl.key.toList := by
  refine ⟨⟨_, rfl, ?_⟩, ⟨_, rfl, ?_⟩, _, rfl, ?_⟩
  · rw [String.toList_ofList]
    decide +kernel
  · rw [String.toList_ofList]
    decide +kernel
  · rw [String.toList_ofList, String.toList_ofList]
    decide +kernel

end Document

end Chtl
