import Chtl.Proofs.Script.Covering
import Chtl.Script.Lower
import Mathlib

/-!
# What scripts keep

The code of a script is the code of its items in their order, and text is its own code. A script
without additions is made of text and declarations only, so nothing of it changes but the blanks in
its declarations, and of those whose variable the page follows only the name is left.
-/

set_option autoImplicit false
set_option linter.all false

namespace Chtl.Script

open Text

/-! ## The code of items -/

section

variable {s : Surroundings} {items more : List Item} {item : Item} {code rest : String}

/-- The code of an item. Text is kept as it is. -/
def Item.LowersTo (s : Surroundings) : Item → String → Prop
  | .raw text, code => code = text
  | item, code => item.lower s = .ok code

theorem lower_eq_ok_iff : item.lower s = .ok code ↔ item.LowersTo s code := by
  cases item with
  | raw text => rw [Item.lower, Item.LowersTo, Except.ok.injEq, eq_comm]
  | _ => rfl

theorem lowerItems_cons_eq_ok_iff : lowerItems s (item :: items) = .ok code ↔
    ∃ own more, item.lower s = .ok own ∧ lowerItems s items = .ok more ∧ own ++ more = code := by
  rw [lowerItems]
  simp only [bind_eq_ok_iff, Except.ok.injEq]
  grind

/-- The code of items is that of each of them, one after the other. -/
theorem lowerItems_eq_ok_iff : lowerItems s items = .ok code ↔
    ∃ codes, List.Forall₂ (Item.LowersTo s) items codes ∧ code = String.join codes := by
  induction items generalizing code with
  | nil =>
    rw [lowerItems]
    constructor
    · rintro ⟨⟩
      exact ⟨[], .nil, rfl⟩
    · rintro ⟨_, ⟨⟩, rfl⟩
      rfl
  | cons item items ih =>
    rw [lowerItems_cons_eq_ok_iff]
    constructor
    · rintro ⟨own, more, hown, hmore, rfl⟩
      obtain ⟨codes, hcodes, rfl⟩ := ih.mp hmore
      exact ⟨own :: codes, .cons (lower_eq_ok_iff.mp hown) hcodes, String.join_cons.symm⟩
    · rintro ⟨_, hall, rfl⟩
      cases hall with
      | cons hown hcodes =>
        exact ⟨_, _, lower_eq_ok_iff.mpr hown, ih.mpr ⟨_, hcodes, rfl⟩, String.join_cons.symm⟩

theorem lowerItems_append_eq_ok_iff : lowerItems s (items ++ more) = .ok code ↔
    ∃ front back, lowerItems s items = .ok front ∧ lowerItems s more = .ok back ∧
      front ++ back = code := by
  induction items generalizing code with
  | nil => simp [lowerItems]
  | cons item items ih =>
    rw [List.cons_append, lowerItems_cons_eq_ok_iff]
    constructor
    · rintro ⟨own, _, hown, hrest, rfl⟩
      obtain ⟨front, back, hfront, hback, rfl⟩ := ih.mp hrest
      exact ⟨own ++ front, back, lowerItems_cons_eq_ok_iff.mpr ⟨own, front, hown, hfront, rfl⟩,
        hback, String.append_assoc⟩
    · rintro ⟨_, back, hfirst, hback, rfl⟩
      obtain ⟨own, front, hown, hfront, rfl⟩ := lowerItems_cons_eq_ok_iff.mp hfirst
      exact ⟨own, front ++ back, hown, ih.mpr ⟨front, back, hfront, hback, rfl⟩,
        String.append_assoc.symm⟩

theorem lowerItems_singleton (s : Surroundings) (item : Item) :
    lowerItems s [item] = item.lower s := by
  rw [lowerItems]
  cases item.lower s <;> simp [lowerItems, bind, Except.bind]

theorem lowerItems_concat_eq_ok_iff : lowerItems s (items ++ [item]) = .ok code ↔
    ∃ front own, lowerItems s items = .ok front ∧ item.lower s = .ok own ∧ front ++ own = code := by
  rw [lowerItems_append_eq_ok_iff, lowerItems_singleton]

end

/-! ## Drafts -/

namespace Draft

/-- The code of a draft: that of its items, and the waiting characters as they are. -/
def Emits (d : Draft) (s : Surroundings) (code : String) : Prop :=
  ∃ settled, lowerItems s d.items.reverse = .ok settled ∧
    code = settled ++ String.ofList d.pending.reverse

variable {d : Draft} {s : Surroundings} {code : String}

theorem Emits.pass (h : d.Emits s code) (taken : List Char) :
    (d.pass taken).Emits s (code ++ String.ofList taken) := by
  obtain ⟨settled, hsettled, rfl⟩ := h
  refine ⟨settled, hsettled, ?_⟩
  simp [Draft.pass, String.append_assoc, String.ofList_append]

theorem Emits.settle (h : d.Emits s code) : lowerItems s d.settle.reverse = .ok code := by
  obtain ⟨settled, hsettled, rfl⟩ := h
  obtain ⟨items, pending⟩ := d
  dsimp only at hsettled ⊢
  unfold Draft.settle
  dsimp only
  split
  · next hempty =>
    obtain rfl := List.isEmpty_iff.mp hempty
    simpa using hsettled
  · split
    · next before older =>
      rw [List.reverse_cons, lowerItems_concat_eq_ok_iff] at hsettled
      obtain ⟨front, own, hfront, hown, rfl⟩ := hsettled
      cases lower_eq_ok_iff.mp hown
      rw [List.reverse_cons, lowerItems_concat_eq_ok_iff]
      exact ⟨front, before ++ String.ofList pending.reverse, hfront, rfl, String.append_assoc.symm⟩
    · rw [List.reverse_cons]
      exact lowerItems_concat_eq_ok_iff.mpr ⟨settled, _, hsettled, rfl, rfl⟩

theorem Emits.add {item : Item} {own : String} (h : d.Emits s code)
    (hitem : item.lower s = .ok own) : (d.add item).Emits s (code ++ own) := by
  refine ⟨code ++ own, ?_, by simp [Draft.add]⟩
  simp only [Draft.add, List.reverse_cons]
  exact lowerItems_concat_eq_ok_iff.mpr ⟨code, own, h.settle, hitem, rfl⟩

end Draft

/-! ## Scripts without additions -/

/-- Whether an addition begins here. A word that goes on from in front is none. -/
def opensAddition (before : Option Char) (cs : List Char) : Bool :=
  startsWith cs ['{', '{'] || startsWith cs ['&', '-', '>'] || startsWith cs ['-', '>'] ||
    (!before.any isWordChar && String.ofList (cs.takeWhile isWordChar) == "Animate" &&
      ((cs.dropWhile isWordChar).dropWhile isBlank).head? == some '{')

/-- The keyword, the blanks and the name of a declaration that begins here. -/
def declarationAt? (before : Option Char) (cs : List Char) :
    Option (List Char × List Char × List Char) :=
  let keyword := cs.takeWhile isWordChar
  let after := cs.dropWhile isWordChar
  if !before.any isWordChar && String.ofList keyword ∈ ["let", "const", "var"] then
    (declaredName? after).map fun (name, _) => (keyword, after.takeWhile isBlank, name)
  else none

/-- The parts of a script up to its first addition outside strings and comments. -/
inductive Chunk where
  | kept (text : List Char)
  | declared (keyword blanks name : List Char)
  | addition
  deriving DecidableEq

namespace Chunk

def source : Chunk → List Char
  | kept text => text
  | declared keyword blanks name => keyword ++ (blanks ++ name)
  | addition => []

/-- What becomes of a part. The blanks of a declaration become one, and a variable that the page
follows is no longer declared. -/
def code (facts : Facts) : Chunk → List Char
  | kept text => text
  | declared keyword _ name =>
    if facts.isResponsive (String.ofList name) then name else keyword ++ ' ' :: name
  | addition => []

end Chunk

/-- Cuts a script into its parts. -/
def chunks (before : Option Char) (cs : List Char) : List Chunk :=
  match cs with
  | [] => []
  | c :: rest =>
    match literalLength? (c :: rest) with
    | some n =>
      let text := c :: rest.take (n - 1)
      .kept text :: chunks text.getLast? (rest.drop (n - 1))
    | none =>
      if opensAddition before (c :: rest) then [.addition]
      else
        match declarationAt? before (c :: rest) with
        | some (keyword, blanks, name) =>
          .declared keyword blanks name ::
            chunks name.getLast? (rest.drop ((keyword ++ (blanks ++ name)).length - 1))
        | none => .kept [c] :: chunks (some c) rest
termination_by cs.length
decreasing_by all_goals simp only [List.length_cons, List.length_drop]; omega

/-! ## Parts of scripts -/

section

variable {before : Option Char} {cs : List Char}

theorem ne_of_isWordChar {c x : Char} (hc : isWordChar c = true) (hx : isWordChar x = false) :
    c ≠ x := by
  rintro rfl
  exact Bool.noConfusion (hc.symm.trans hx)

theorem not_literal_of_isWordChar {c : Char} (hc : isWordChar c = true) (rest : List Char) :
    literalLength? (c :: rest) = none := by
  have hne (x : Char) (hx : isWordChar x = false) : c ≠ x := ne_of_isWordChar hc hx
  simp [literalLength?, hne '"' (by decide), hne '\x27' (by decide), hne '\x60' (by decide),
    hne '/' (by decide)]

/-- No addition begins with a character of a word, but the animation. -/
theorem not_startsWith_of_isWordChar {c : Char} (hc : isWordChar c = true) {x : Char}
    (hx : isWordChar x = false) (rest lead : List Char) :
    startsWith (c :: rest) (x :: lead) = false :=
  startsWith_cons_of_ne (ne_of_isWordChar hc hx).symm lead rest

/-- A declaration begins with its keyword, where a word begins. -/
theorem exists_declaration {keyword blanks name : List Char}
    (h : declarationAt? before cs = some (keyword, blanks, name)) :
    before.any isWordChar = false ∧ String.ofList keyword ∈ ["let", "const", "var"] ∧
      cs.takeWhile isWordChar = keyword ∧ name ≠ [] ∧
      ∃ rest, cs = (keyword ++ (blanks ++ name)) ++ rest := by
  unfold declarationAt? at h
  dsimp only at h
  split_ifs at h with hkeyword
  obtain ⟨⟨_, n⟩, hname, heq⟩ := Option.map_eq_some_iff.mp h
  cases heq
  simp only [Bool.and_eq_true, Bool.not_eq_true', decide_eq_true_eq] at hkeyword
  obtain ⟨blanks, rest, hafter, -, hblanks, -, -, c, more, rfl, -⟩ := exists_declaredName hname
  refine ⟨hkeyword.1, hkeyword.2, rfl, List.cons_ne_nil _ _, rest, ?_⟩
  rw [hblanks, List.append_assoc, ← hafter, List.takeWhile_append_dropWhile]

theorem ne_nil_of_keyword {keyword : List Char}
    (h : String.ofList keyword ∈ ["let", "const", "var"]) : keyword ≠ [] := by
  rintro rfl
  exact absurd h (by decide)

theorem chunks_literal {n : Nat} (h : literalLength? cs = some n) :
    chunks before cs = .kept (cs.take n) :: chunks (cs.take n).getLast? (cs.drop n) := by
  obtain ⟨hpos, hle⟩ := literalLength?_bounds h
  obtain ⟨c, rest, rfl⟩ := List.exists_cons_of_length_pos (hpos.trans_le hle)
  obtain ⟨n, rfl⟩ := Nat.exists_eq_succ_of_ne_zero hpos.ne'
  rw [chunks, h]
  rfl

theorem chunks_char {c : Char} {rest : List Char} (hliteral : literalLength? (c :: rest) = none)
    (hopens : opensAddition before (c :: rest) = false)
    (hdeclares : declarationAt? before (c :: rest) = none) :
    chunks before (c :: rest) = .kept [c] :: chunks (some c) rest := by
  rw [chunks, hliteral, hopens, hdeclares]
  rfl

theorem chunks_declaration {keyword blanks name : List Char}
    (hopens : opensAddition before cs = false)
    (hdeclares : declarationAt? before cs = some (keyword, blanks, name)) :
    chunks before cs = .declared keyword blanks name ::
      chunks name.getLast? (cs.drop (keyword ++ (blanks ++ name)).length) := by
  obtain ⟨-, hmem, hword, -, rest, rfl⟩ := exists_declaration hdeclares
  obtain ⟨c, keyword, rfl⟩ := List.exists_cons_of_ne_nil (ne_nil_of_keyword hmem)
  have hc : isWordChar c = true :=
    List.all_eq_true.mp (hword ▸ List.all_takeWhile) c List.mem_cons_self
  simp only [List.cons_append] at hopens hdeclares ⊢
  rw [chunks, not_literal_of_isWordChar hc, hopens, hdeclares]
  rfl

/-- Inside a word no addition and no declaration begins. -/
theorem not_opens_inside {c : Char} (hc : isWordChar c = true)
    (hbefore : before.any isWordChar = true) (rest : List Char) :
    opensAddition before (c :: rest) = false ∧ declarationAt? before (c :: rest) = none := by
  have hstarts {x : Char} (hx : isWordChar x = false) (lead : List Char) :
      startsWith (c :: rest) (x :: lead) = false := not_startsWith_of_isWordChar hc hx rest lead
  constructor
  · rw [opensAddition, hstarts (by decide), hstarts (by decide), hstarts (by decide), hbefore]
    rfl
  · rw [declarationAt?, hbefore]
    rfl

/-- A word that declares nothing is taken character by character. -/
theorem chunks_word {word after : List Char} (hword : ∀ c ∈ word, isWordChar c = true)
    (hne : word ≠ []) (hopens : opensAddition before (word ++ after) = false)
    (hdeclares : declarationAt? before (word ++ after) = none) :
    chunks before (word ++ after) =
      word.map (fun c => Chunk.kept [c]) ++ chunks word.getLast? after := by
  induction word generalizing before with
  | nil => exact absurd rfl hne
  | cons c word ih =>
    obtain ⟨hc, hmore⟩ := List.forall_mem_cons.mp hword
    rw [List.cons_append] at hopens hdeclares
    rw [List.cons_append, chunks_char (not_literal_of_isWordChar hc _) hopens hdeclares]
    cases word with
    | nil => rfl
    | cons c' word =>
      obtain ⟨hopens', hdeclares'⟩ := not_opens_inside (List.forall_mem_cons.mp hmore).1
        (show (some c).any isWordChar = true by simpa using hc) (word ++ after)
      rw [ih hmore (List.cons_ne_nil _ _) hopens' hdeclares', List.getLast?_cons_cons]
      rfl

theorem not_opens_of_not_mem (hliteral : literalLength? cs = none) (hne : cs ≠ [])
    (hnone : .addition ∉ chunks before cs) : opensAddition before cs = false := by
  obtain ⟨c, rest, rfl⟩ := List.exists_cons_of_ne_nil hne
  rw [Bool.eq_false_iff]
  intro hopens
  rw [chunks, hliteral] at hnone
  simp [hopens] at hnone

theorem start_of_declarationAt? {keyword blanks name : List Char}
    (h : declarationAt? before cs = some (keyword, blanks, name)) :
    cs.head?.any isWordStart = true := by
  obtain ⟨-, hmem, rfl, -, rest, hcs⟩ := exists_declaration h
  have hstart : ∀ k ∈ ["let", "const", "var"], k.toList.head?.any isWordStart = true := by decide
  have hhead := hstart _ hmem
  rw [String.toList_ofList] at hhead
  generalize cs.takeWhile isWordChar = keyword at hcs hhead
  cases keyword with
  | nil => cases hhead
  | cons c keyword => rwa [hcs]

/-- Nothing of a script without additions is lost when it is cut. -/
theorem flatMap_source (hnone : .addition ∉ chunks before cs) :
    (chunks before cs).flatMap Chunk.source = cs := by
  fun_induction chunks before cs with
  | case1 => rfl
  | case2 before c rest n hliteral text ih =>
    rw [List.flatMap_cons, ih (fun h => hnone (List.mem_cons_of_mem _ h))]
    simp [Chunk.source, text]
  | case3 before c rest hliteral hopens => simp at hnone
  | case4 before c rest hliteral hopens keyword blanks name hdeclares ih =>
    obtain ⟨-, hmem, -, -, more, hcs⟩ := exists_declaration hdeclares
    obtain ⟨k, keyword, rfl⟩ := List.exists_cons_of_ne_nil (ne_nil_of_keyword hmem)
    obtain ⟨rfl, rfl⟩ := List.cons.inj hcs
    rw [List.flatMap_cons, ih (fun h => hnone (List.mem_cons_of_mem _ h))]
    simp [Chunk.source]
  | case5 before c rest hliteral hopens hdeclares ih =>
    rw [List.flatMap_cons, ih (fun h => hnone (List.mem_cons_of_mem _ h))]
    rfl

end

/-! ## Reading scripts without additions -/

/-- Whatever variables were noted before, there is a result, and it has the property. -/
def Returns {α : Type} (x : Reading α) (p : α → Prop) : Prop :=
  ∀ noted, ∃ r, x.run noted = .ok r ∧ p r.1

namespace Returns

variable {α β : Type} {p : α → Prop} {q : β → Prop}

theorem pure {a : α} (h : p a) : Returns (Pure.pure a) p := fun noted => ⟨(a, noted), rfl, h⟩

theorem bind {x : Reading α} {f : α → Reading β} (hx : Returns x p)
    (hf : ∀ a, p a → Returns (f a) q) : Returns (x >>= f) q := by
  intro noted
  obtain ⟨⟨a, middle⟩, hrun, ha⟩ := hx noted
  obtain ⟨r, hrest, hr⟩ := hf a ha middle
  exact ⟨r, by rw [StateT.run_bind, hrun]; exact hrest, hr⟩

theorem noteVariable (name after : List Char) :
    Returns (Script.noteVariable name after) fun _ => True := by
  intro noted
  unfold Script.noteVariable
  split
  · exact ⟨_, rfl, trivial⟩
  · exact ⟨_, rfl, trivial⟩

end Returns

section

variable {read : ItemReader} {d : Draft} {before : Option Char} {offset : Nat} {cs : List Char}

/-- A step takes parts from the front of the text and puts their code behind the draft. -/
def Keeps (d : Draft) (before : Option Char) (cs : List Char) (r : Draft × Nat) : Prop :=
  0 < r.2 ∧ ∃ parts, chunks before cs = parts ++ chunks (cs.take r.2).getLast? (cs.drop r.2) ∧
    ∀ ⦃s code⦄, d.Emits s code →
      r.1.Emits s (code ++ String.ofList (parts.flatMap (Chunk.code s.facts)))

theorem keeps_pass {n : Nat} (parts : List Chunk) (hn : 0 < n)
    (hchunks : chunks before cs = parts ++ chunks (cs.take n).getLast? (cs.drop n))
    (hcode : ∀ facts, parts.flatMap (Chunk.code facts) = cs.take n) :
    Keeps d before cs (d.pass (cs.take n), n) := by
  refine ⟨hn, parts, hchunks, fun s code h => ?_⟩
  rw [hcode]
  exact h.pass _

theorem code_declared (s : Surroundings) (keyword blanks name : List Char) :
    String.ofList ((Chunk.declared keyword blanks name).code s.facts) =
      s.declaration (String.ofList keyword) (String.ofList name) := by
  rw [Chunk.code, Surroundings.declaration]
  split_ifs
  · rfl
  · simp [String.ofList_append, String.append_assoc, String.ofList_cons]

theorem drop_blankLength (cs : List Char) : cs.drop (blankLength cs) = cs.dropWhile isBlank := by
  have hdrop : (cs.takeWhile isBlank ++ cs.dropWhile isBlank).drop (blankLength cs) =
      cs.dropWhile isBlank := List.drop_left
  rwa [List.takeWhile_append_dropWhile] at hdrop

theorem not_animation_of_not_opens (h : opensAddition before cs = false)
    (hbefore : before.any isWordChar = false) :
    ¬ (String.ofList (cs.takeWhile isWordChar) = "Animate" ∧
      ((cs.dropWhile isWordChar).dropWhile isBlank).head? = some '{') := by
  rintro ⟨hword, hbrace⟩
  rw [opensAddition, hword] at h
  simp [hbefore, hbrace] at h

theorem keeps_declaration {keyword blanks name : List Char}
    (hopens : opensAddition before cs = false)
    (hdeclares : declarationAt? before cs = some (keyword, blanks, name)) :
    Keeps d before cs
      (d.add (.declaration (String.ofList keyword) (String.ofList name)),
        (keyword ++ (blanks ++ name)).length) := by
  obtain ⟨-, -, -, hname, rest, rfl⟩ := exists_declaration hdeclares
  have hlast : (keyword ++ (blanks ++ name)).getLast? = name.getLast? := by
    rw [List.getLast?_append_of_ne_nil _ (by simp [hname]), List.getLast?_append_of_ne_nil _ hname]
  refine ⟨List.length_pos_iff.mpr (by simp [hname]), [.declared keyword blanks name], ?_,
    fun s code h => ?_⟩
  · rw [chunks_declaration hopens hdeclares, List.take_left, hlast]
    rfl
  · rw [List.flatMap_singleton, code_declared]
    exact h.add rfl

theorem returns_wordStep (hstart : cs.head?.any isWordStart = true)
    (hbefore : before.any isWordChar = false) (hopens : opensAddition before cs = false) :
    Returns (wordStep read d offset cs) (Keeps d before cs) := by
  obtain ⟨word, after, rfl, hword, hafter, hne⟩ := exists_word hstart
  have hchars : ∀ c ∈ word, isWordChar c = true := List.all_eq_true.mp (hword ▸ List.all_takeWhile)
  have hpass (hdeclares : declarationAt? before (word ++ after) = none) :
      Returns (pure (d.pass word, word.length)) (Keeps d before (word ++ after)) := by
    have htake : (word ++ after).take word.length = word := List.take_left
    have hkeeps : Keeps d before (word ++ after)
        (d.pass ((word ++ after).take word.length), word.length) := by
      refine keeps_pass (word.map fun c => .kept [c]) (List.length_pos_iff.mpr hne) ?_
        fun facts => ?_
      · rw [htake, List.drop_left]
        exact chunks_word hchars hne hopens hdeclares
      · rw [htake]
        simp [List.flatMap_map, Chunk.code]
    rw [htake] at hkeeps
    exact .pure hkeeps
  have hbrace : (word ++ after).drop (word.length + blankLength after) =
      after.dropWhile isBlank := by
    rw [← List.drop_drop, List.drop_left]
    exact drop_blankLength after
  have hanimate : ¬ (String.ofList word = "Animate" ∧
      (after.dropWhile isBlank).head? = some '{') := by
    rintro ⟨hname, hhead⟩
    refine not_animation_of_not_opens hopens hbefore ?_
    rw [hword, hafter]
    exact ⟨hname, hhead⟩
  unfold wordStep
  dsimp only
  rw [hword, List.drop_left, hbrace, if_neg (by simpa using hanimate)]
  split_ifs with hkeyword
  · have hmem : String.ofList word ∈ ["let", "const", "var"] := by simpa [or_assoc] using hkeyword
    have hdeclaration : declarationAt? before (word ++ after) =
        (declaredName? after).map fun (name, _) => (word, after.takeWhile isBlank, name) := by
      rw [declarationAt?, hword, hafter, hbefore]
      exact if_pos (by simpa using hmem)
    cases hname : declaredName? after with
    | none => exact hpass (by rw [hdeclaration, hname]; rfl)
    | some named =>
      obtain ⟨name, n⟩ := named
      obtain ⟨blanks, rest, -, rfl, hblanks, -⟩ := exists_declaredName hname
      rw [hname, hblanks] at hdeclaration
      refine (Returns.noteVariable name _).bind fun _ _ => .pure ?_
      rw [← List.length_append]
      exact keeps_declaration hopens hdeclaration
  · refine hpass ?_
    rw [declarationAt?, hword]
    exact if_neg (by simpa [or_assoc] using fun _ => hkeyword)

theorem returns_step (hne : cs ≠ []) (hnone : .addition ∉ chunks before cs) :
    Returns (step read d before offset cs) (Keeps d before cs) := by
  have hdeclares (h : ¬ (cs.head?.any isWordStart = true ∧ before.any isWordChar = false)) :
      declarationAt? before cs = none := by
    by_contra hsome
    obtain ⟨⟨keyword, blanks, name⟩, hdeclares⟩ := Option.ne_none_iff_exists'.mp hsome
    exact h ⟨start_of_declarationAt? hdeclares, (exists_declaration hdeclares).1⟩
  unfold step
  cases hliteral : literalLength? cs with
  | some n =>
    exact .pure (keeps_pass [.kept (cs.take n)] (literalLength?_bounds hliteral).1
      (chunks_literal hliteral) fun facts => List.append_nil _)
  | none =>
    have hopens := not_opens_of_not_mem hliteral hne hnone
    have hnot := hopens
    simp only [opensAddition, Bool.or_eq_false_iff] at hnot
    obtain ⟨⟨⟨hbraces, hoperator⟩, harrow⟩, -⟩ := hnot
    dsimp only
    rw [hbraces, hoperator, harrow]
    simp only [Bool.false_eq_true, if_false]
    split_ifs with hword
    · simp only [Bool.and_eq_true, Bool.not_eq_true'] at hword
      exact returns_wordStep hword.1 hword.2 hopens
    · obtain ⟨c, rest, rfl⟩ := List.exists_cons_of_ne_nil hne
      refine .pure (keeps_pass [.kept [c]] Nat.one_pos ?_ fun facts => rfl)
      exact chunks_char hliteral hopens (hdeclares (by simpa using hword))

/-- Where no addition begins, reading succeeds, and the code of the items is that of the parts. -/
theorem returns_itemsFrom (hnone : .addition ∉ chunks before cs) :
    Returns (itemsFrom read d before offset cs) fun items => ∀ ⦃s code⦄, d.Emits s code →
      lowerItems s items =
        .ok (code ++ String.ofList ((chunks before cs).flatMap (Chunk.code s.facts))) := by
  induction hlength : cs.length using Nat.strong_induction_on generalizing d before offset cs with
  | _ length ih =>
    cases cs with
    | nil =>
      rw [itemsFrom]
      refine .pure fun s code h => ?_
      simpa [chunks] using h.settle
    | cons c rest =>
      rw [itemsFrom]
      refine (returns_step (List.cons_ne_nil _ _) hnone).bind ?_
      rintro ⟨d', n⟩ ⟨hn, parts, hchunks, hemits⟩
      obtain ⟨n, rfl⟩ := Nat.exists_eq_succ_of_ne_zero hn.ne'
      have hshorter : (rest.drop n).length < length := by
        rw [← hlength, List.length_drop, List.length_cons]
        omega
      rw [hchunks] at hnone ⊢
      have hrest := fun h => hnone (List.mem_append_right parts h)
      intro noted
      obtain ⟨r, hrun, hcode⟩ := ih _ hshorter hrest rfl noted
      refine ⟨r, hrun, fun s code h => ?_⟩
      rw [hcode (hemits h), List.flatMap_append, String.ofList_append, String.append_assoc]

end

/-! ## Whole scripts -/

theorem segmented_itemsWithin (depth base : Nat) (text : List Char) :
    Yields (itemsWithin (depth + 1) base text) fun items => Segmented [] base items text :=
  yields_itemsFrom (Draft.covers_empty base text) none

theorem lower_itemsWithin (depth base : Nat) {text : List Char}
    (hnone : .addition ∉ chunks none text) :
    Returns (itemsWithin (depth + 1) base text) fun items => ∀ facts placeholder,
      lower items facts placeholder =
        .ok (String.ofList ((chunks none text).flatMap (Chunk.code facts))) := by
  intro noted
  obtain ⟨r, hrun, hcode⟩ := returns_itemsFrom hnone noted
  refine ⟨r, hrun, fun facts placeholder => ?_⟩
  have hempty : Draft.Emits {} ⟨facts, placeholder.bind facts.context?⟩ "" := ⟨"", rfl, rfl⟩
  rw [lower, hcode hempty, String.empty_append]

/-- What is read from a script is the script, segment by segment, and its code is that of the items
one after the other. A script in which no addition begins is read, and its code is the script itself
but for its declarations. -/
theorem parse_keeps_text (text : List Char) (base : Nat) :
    (∀ items noted, parse text base = .ok (items, noted) →
      Segmented [] base items text ∧ ∀ facts placeholder code,
        lower items facts placeholder = .ok code ↔ ∃ codes,
          List.Forall₂ (Item.LowersTo ⟨facts, placeholder.bind facts.context?⟩) items codes ∧
            code = String.join codes) ∧
    (.addition ∉ chunks none text →
      (chunks none text).flatMap Chunk.source = text ∧
      ∃ items noted, parse text base = .ok (items, noted) ∧ ∀ facts placeholder,
        lower items facts placeholder =
          .ok (String.ofList ((chunks none text).flatMap (Chunk.code facts)))) := by
  constructor
  · intro items noted hparse
    exact ⟨segmented_itemsWithin _ base text hparse,
      fun facts placeholder code => lowerItems_eq_ok_iff⟩
  · intro hnone
    obtain ⟨⟨items, noted⟩, hparse, hcode⟩ := lower_itemsWithin text.length base hnone []
    exact ⟨flatMap_source hnone, items, noted, hparse, hcode⟩

/-- Text around a selector, and additions that stand in a comment. -/
theorem parse_keeps_text_around : Segmented [] 0
      [.raw "f(", .selector ⟨.id "a", ⟨2, 8⟩⟩, .raw ");"] "f(\x7b\x7b#a\x7d\x7d);".toList ∧
    .addition ∉ chunks none "let\ty; // \x7b\x7b&\x7d\x7d->".toList ∧
    ∃ items noted, parse "let\ty; // \x7b\x7b&\x7d\x7d->".toList 0 = .ok (items, noted) ∧
      lower items {} none = .ok "let y; // \x7b\x7b&\x7d\x7d->" := by
  have hparse : parse "f(\x7b\x7b#a\x7d\x7d);".toList 0 =
      .ok ([.raw "f(", .selector ⟨.id "a", ⟨2, 8⟩⟩, .raw ");"], []) := by
    rw [String.toList_ofList]
    with_unfolding_all rfl
  have hnone : .addition ∉ chunks none "let\ty; // \x7b\x7b&\x7d\x7d->".toList := by
    have hcontains :
        (chunks none "let\ty; // \x7b\x7b&\x7d\x7d->".toList).contains .addition = false := by
      rw [String.toList_ofList]
      decide +kernel
    simpa using hcontains
  obtain ⟨-, items, noted, hread, hlower⟩ := (parse_keeps_text _ 0).2 hnone
  exact ⟨((parse_keeps_text _ 0).1 _ _ hparse).1, hnone, items, noted, hread, by
    rw [hlower, String.toList_ofList]
    decide +kernel⟩

/-- A variable that the page follows is declared elsewhere, so its keyword goes with its blanks. -/
theorem lower_without_keyword : .addition ∉ chunks none "let  x = 1;".toList ∧
    ∃ items noted, parse "let  x = 1;".toList 0 = .ok (items, noted) ∧
      lower items (({} : Bridge).recordResponsive "x" ⟨"e", "width", "px"⟩).facts none =
        .ok "x = 1;" ∧ "x = 1;" ≠ "let x = 1;" := by
  refine ⟨?_, [.declaration "let" "x", .raw " = 1;"], [("x", "1")], ?_, ?_, by decide⟩
  · have hcontains : (chunks none "let  x = 1;".toList).contains .addition = false := by
      rw [String.toList_ofList]
      decide +kernel
    simpa using hcontains
  · rw [String.toList_ofList]
    with_unfolding_all rfl
  · decide +kernel

end Chtl.Script
