import Chtl.Proofs.Script.Segments

/-!
# Reading loses nothing

Each step of reading takes characters from the front of the text and puts the segment of an item, or
the characters themselves, behind the draft. So when reading succeeds, the segments of the items are
the text.
-/

set_option autoImplicit false
set_option linter.all false

namespace Chtl.Script

open Text

/-- Whatever variables were noted before, a result has the property. -/
def Yields {α : Type} (x : Reading α) (p : α → Prop) : Prop :=
  ∀ ⦃noted r⦄, x.run noted = .ok r → p r.1

namespace Yields

variable {α β : Type} {p : α → Prop} {q : β → Prop}

theorem pure {a : α} (h : p a) : Yields (Pure.pure a) p := by
  rintro noted _ ⟨⟩
  exact h

theorem bind {x : Reading α} {f : α → Reading β} (hx : Yields x p)
    (hf : ∀ a, p a → Yields (f a) q) : Yields (x >>= f) q := by
  intro noted r h
  rw [StateT.run_bind] at h
  obtain ⟨⟨a, middle⟩, ha, hrest⟩ := bind_eq_ok_iff.mp h
  exact hf a (hx ha) hrest

theorem any (x : Reading α) : Yields x fun _ => True := fun _ _ _ => trivial

theorem throw {e : ScriptError} : Yields (MonadExcept.throw e) p := by
  rintro noted _ ⟨⟩

theorem malformed {construct : Construct} {fault : BlockFault} {span : Span} :
    Yields (Script.malformed construct fault span) p := by
  rintro noted _ ⟨⟩

theorem orFail {r : Except ScriptError α} (h : ∀ a, r = .ok a → p a) :
    Yields (Script.orFail r) p := by
  cases r with
  | ok a => exact .pure (h a rfl)
  | error e => exact .throw

theorem ite {c : Prop} [Decidable c] {x y : Reading α} (hx : c → Yields x p)
    (hy : ¬ c → Yields y p) : Yields (if c then x else y) p := by
  split_ifs with hc
  · exact hx hc
  · exact hy hc

end Yields

/-! ## Lengths -/

section

variable {cs : List Char} {n : Nat}

theorem exists_blanks (cs : List Char) :
    ∃ blanks rest, cs = blanks ++ rest ∧ blankLength cs = blanks.length ∧ Blank blanks :=
  ⟨cs.takeWhile isBlank, cs.dropWhile isBlank, List.takeWhile_append_dropWhile.symm, rfl,
    List.all_eq_true.mp List.all_takeWhile⟩

theorem stringTailLength_le (quote : Char) (cs : List Char) :
    stringTailLength quote cs ≤ cs.length := by
  fun_induction stringTailLength quote cs <;>
    simp only [List.length_nil, List.length_cons] <;> omega

theorem lengthThrough_le (needle cs : List Char) : lengthThrough needle cs ≤ cs.length := by
  unfold lengthThrough
  split
  · next n hfind => exact (find?_append hfind []).2
  · exact Nat.le_refl _

theorem literalLength?_bounds (h : literalLength? cs = some n) : 0 < n ∧ n ≤ cs.length := by
  unfold literalLength? at h
  split at h
  · cases h
  · next c rest =>
    split_ifs at h
    · cases h
      have hle := stringTailLength_le c rest
      rw [List.length_cons]
      omega
    · split at h
      · next more =>
        cases h
        have hle : lineLength more ≤ more.length := (List.takeWhile_sublist _).length_le
        simp only [List.length_cons]
        omega
      · next more =>
        cases h
        have hle := lengthThrough_le ['*', '/'] more
        simp only [List.length_cons]
        omega
      · cases h

/-- A handler does not go beyond its text. -/
theorem clauseLength_le (last : Option Char) (depth : Nat) (cs : List Char) :
    clauseLength last depth cs ≤ cs.length := by
  fun_induction clauseLength last depth cs with
  | case1 => exact Nat.le_refl _
  | case2 last depth c rest n hliteral ih =>
    have hbounds := literalLength?_bounds hliteral
    simp only [List.length_drop, List.length_cons] at ih hbounds ⊢
    omega
  | case3 => exact Nat.zero_le _
  | case4 last depth c rest hliteral ends hends deeper ih =>
    rw [List.length_cons]
    omega

theorem drop_groupLength? {depth : Nat} (h : groupLength? depth cs = some n) :
    ∃ k, n = k + 1 ∧ cs.drop k = '}' :: cs.drop (k + 1) := by
  -- The group ends in what is left behind the first `1 + j` characters.
  have hlater {c : Char} {rest : List Char} (j : Nat) {left : Option Nat} {n : Nat}
      (h : left.map (· + (1 + j)) = some n) (ih : ∀ {m}, left = some m →
        ∃ k, m = k + 1 ∧ (rest.drop j).drop k = '}' :: (rest.drop j).drop (k + 1)) :
      ∃ k, n = k + 1 ∧ (c :: rest).drop k = '}' :: (c :: rest).drop (k + 1) := by
    obtain ⟨m, hm, rfl⟩ := Option.map_eq_some_iff.mp h
    obtain ⟨k, rfl, hdrop⟩ := ih hm
    refine ⟨j + k + 1, by omega, ?_⟩
    rw [List.drop_drop, List.drop_drop] at hdrop
    rwa [List.drop_succ_cons, List.drop_succ_cons]
  fun_induction groupLength? depth cs generalizing n with
  | case1 => cases h
  | case2 depth c rest m hliteral ih => exact hlater (m - 1) h ih
  | case3 depth rest hliteral ih => exact hlater 0 h ih
  | case4 =>
    cases h
    exact ⟨0, rfl, rfl⟩
  | case5 depth rest _ _ _ ih => exact hlater 0 h ih
  | case6 depth c rest _ _ _ ih => exact hlater 0 h ih

/-- A group of braces begins and ends with one. -/
theorem exists_group (h : bracedLength? cs = some n) :
    ∃ group rest, cs = group ++ rest ∧ n = group.length ∧ Group rest group := by
  have hgroup := h
  unfold bracedLength? at hgroup
  split_ifs at hgroup with hbrace
  obtain ⟨inner, rfl⟩ := List.head?_eq_some_iff.mp hbrace
  obtain ⟨k, rfl, hdrop⟩ := drop_groupLength? hgroup
  cases k with
  | zero => cases hdrop
  | succ k =>
    rw [List.drop_succ_cons, List.drop_succ_cons] at hdrop
    have hinner : inner = inner.take k ++ '}' :: inner.drop (k + 1) := by
      rw [← hdrop, List.take_append_drop]
    have hlength : (inner.take k).length = k := by
      have hle := congrArg List.length hdrop
      rw [List.length_drop, List.length_cons] at hle
      rw [List.length_take]
      omega
    refine ⟨'{' :: (inner.take k ++ ['}']), inner.drop (k + 1), ?_, by simp [hlength], ?_, _, rfl⟩
    · simpa using hinner
    · rw [List.cons_append, List.append_assoc, List.singleton_append, ← hinner, h]
      simp [hlength]

theorem exists_selector {offset : Nat} {s : Selector} (hstart : startsWith cs ['{', '{'] = true)
    (h : selectorAt offset cs = .ok (s, n)) :
    ∃ text rest, cs = text ++ rest ∧ n = text.length ∧ s.Written offset rest text := by
  obtain ⟨more, rfl⟩ := startsWith_iff.mp hstart
  unfold selectorAt at h
  rw [show (['{', '{'] ++ more).drop 2 = more from rfl] at h
  split at h
  · cases h
  · next m hfind =>
    dsimp only at h
    split_ifs at h with hempty
    cases h
    obtain ⟨rest, hclose⟩ := drop_of_find? hfind
    have hmore : more = more.take m ++ '}' :: '}' :: rest := by
      conv_lhs => rw [← List.take_append_drop m more, ← hclose]
      rfl
    have hlength : (more.take m).length = m := by
      have hle : m + 2 ≤ more.length := (find?_append hfind []).2
      rw [List.length_take]
      omega
    have htext : ['{', '{'] ++ more =
        ('{' :: '{' :: (more.take m ++ ['}', '}'])) ++ rest := by
      conv_lhs => rw [hmore]
      simp
    refine ⟨'{' :: '{' :: (more.take m ++ ['}', '}']), rest, htext, by simp [hlength], ?_, ?_⟩
    · exact ⟨more.take m, rfl, by rw [← hmore, hlength, hfind], by simpa using hempty, rfl⟩
    · rw [htext, List.take_left' (by simp [hlength])]

end

/-! ## Additions -/

section

variable {read : ItemReader} {offset : Nat} {cs : List Char}

theorem yields_listenBlock (target : Selector) (body : List Char) :
    Yields (listenBlock read target offset body) fun item => ∃ hs, item = .listen target hs := by
  unfold listenBlock
  exact (Yields.any _).bind fun _ _ => (Yields.any _).bind fun hs _ => .pure ⟨hs, rfl⟩

theorem yields_delegateBlock (parent : Selector) (body : List Char) :
    Yields (delegateBlock read parent offset body) fun item =>
      ∃ targets hs, item = .delegate parent targets hs := by
  unfold delegateBlock
  refine (Yields.any _).bind fun es _ => ?_
  split
  · exact .malformed
  · refine (Yields.any _).bind fun targets _ => .ite (fun _ => .malformed) fun _ => ?_
    exact (Yields.any _).bind fun hs _ => .pure ⟨targets, hs, rfl⟩

theorem yields_animationEntry (a : Animation) (e : Entry) :
    Yields (animationEntry read a e) fun b => b.span = a.span := by
  unfold animationEntry
  dsimp only
  split
  · exact (Yields.any _).bind fun _ _ => .pure rfl
  iterate 5
    · split
      · exact .pure rfl
      · exact .malformed
  iterate 4
    · exact (Yields.any _).bind fun _ _ => .pure rfl
  · exact .malformed

theorem yields_animation (span : Span) (body : List Char) :
    Yields (animation read span offset body) fun a => a.span = span := by
  have hentries (a : Animation) (es : List Entry) :
      Yields (animationEntries read a es) fun b => b.span = a.span := by
    induction es generalizing a with
    | nil => exact .pure rfl
    | cons e es ih =>
      rw [animationEntries]
      exact (yields_animationEntry a e).bind fun b hb => hb ▸ ih b
  unfold animation
  refine (Yields.any _).bind fun es _ => (hentries _ es).bind fun a ha => ?_
  exact .ite (fun _ => .malformed) fun _ => .pure ha

/-- A clause of events goes up to the end of its handler. -/
theorem yields_bindClause :
    Yields (bindClause read offset cs) fun r => ∃ clause rest, cs = clause ++ rest ∧
      r.2 = clause.length ∧ Clause rest clause := by
  unfold bindClause
  dsimp only
  generalize hnames :
    cs.takeWhile (fun c => !(c == ':' || c == ';' || c == '{' || c == '\n')) = names
  have hcolon : ':' ∉ names := by
    intro hmem
    have := List.all_eq_true.mp (hnames ▸ List.all_takeWhile) _ hmem
    simp at this
  obtain ⟨behind, hcs⟩ : ∃ behind, cs = names ++ behind := by
    obtain ⟨behind, h⟩ := List.takeWhile_prefix (l := cs) _
    exact ⟨behind, (hnames ▸ h).symm⟩
  rw [hcs, List.drop_left]
  refine .ite (fun _ => .malformed) fun hhead => ?_
  obtain ⟨after, rfl⟩ : ∃ after, behind = ':' :: after :=
    List.head?_eq_some_iff.mp (by simpa using hhead)
  rw [List.drop_one, List.tail_cons]
  have hlength : (after.take (clauseLength none 0 after)).length = clauseLength none 0 after := by
    rw [List.length_take]
    have := clauseLength_le none 0 after
    omega
  split
  · exact .malformed
  · refine .ite (fun _ => .malformed) fun _ => (Yields.any _).bind fun body _ => .pure ?_
    refine ⟨names ++ ':' :: after.take (clauseLength none 0 after),
      after.drop (clauseLength none 0 after), by simp, ?_, .handler hcolon ?_⟩
    · rw [List.length_append, List.length_cons, hlength]
      omega
    · rw [List.take_append_drop, hlength]

theorem yields_bindTail (hstart : startsWith cs ['&', '-', '>'] = true) :
    Yields (bindTail read offset cs) fun r => ∃ text rest, cs = text ++ rest ∧ r.2 = text.length ∧
      Bound rest text := by
  obtain ⟨more, rfl⟩ := startsWith_iff.mp hstart
  obtain ⟨blanks, after, rfl, hblanks, hblank⟩ := exists_blanks more
  have hdrop : (['&', '-', '>'] ++ (blanks ++ after)).drop (3 + blanks.length) = after := by
    rw [← List.append_assoc]
    exact List.drop_left' (by simp; omega)
  unfold bindTail
  dsimp only
  rw [show (['&', '-', '>'] ++ (blanks ++ after)).drop 3 = blanks ++ after from rfl, hblanks, hdrop]
  have hbound {clause rest : List Char} (hafter : after = clause ++ rest)
      (hclause : Clause rest clause) :
      ∃ text rest, ['&', '-', '>'] ++ (blanks ++ after) = text ++ rest ∧
        3 + blanks.length + clause.length = text.length ∧ Bound rest text := by
    refine ⟨'&' :: '-' :: '>' :: (blanks ++ clause), rest, by simp [hafter], ?_,
      blanks, clause, rfl, hblank, hclause⟩
    simp only [List.length_cons, List.length_append]
    omega
  refine .ite (fun _ => ?_) fun _ => ?_
  · split
    · exact .throw
    · next n hbraced =>
      obtain ⟨group, rest, hafter, rfl, hgroup⟩ := exists_group hbraced
      refine (Yields.any _).bind fun es _ => (Yields.any _).bind fun hs _ => .pure ?_
      exact hbound hafter (.group hgroup)
  · refine yields_bindClause.bind ?_
    rintro ⟨hs, n⟩ ⟨clause, rest, hafter, rfl, hclause⟩
    exact .pure (hbound hafter hclause)

/-- The clauses of bindings are in front of what is left of the text. -/
def Binds (offset : Nat) (target : Selector) (cs : List Char) (r : List Binding × Nat) : Prop :=
  ∃ text rest, cs = text ++ rest ∧ r.2 = text.length ∧ Clauses rest offset target r.1 text

/-- A statement that goes on behind `front`, with the clauses that are written there. -/
theorem yields_goOn {target other : Selector} {hs : List Handler} {front tail : List Char}
    (hother : Yields (bindStatement read other (offset + size front) tail)
      (Binds (offset + size front) other tail))
    (hwritten : ∀ {bindings later left}, tail = later ++ left →
      Clauses left (offset + size front) other bindings later →
      Clauses left offset target (⟨target, hs⟩ :: bindings) (front ++ later)) :
    Yields (do
      let later ← bindStatement read other (offset + size front) tail
      pure (⟨target, hs⟩ :: later.1, front.length + later.2))
        (Binds offset target (front ++ tail)) := by
  refine hother.bind ?_
  rintro ⟨bindings, n⟩ ⟨later, left, rfl, rfl, hlater⟩
  exact .pure ⟨front ++ later, left, (List.append_assoc ..).symm, (List.length_append ..).symm,
    hwritten rfl hlater⟩

theorem take_front {c : Char} {rest front tail : List Char} (h : c :: rest = front ++ tail)
    (hne : front ≠ []) :
    (c :: rest).take front.length = front ∧ rest.drop (front.length - 1) = tail := by
  obtain ⟨x, front, rfl⟩ := List.exists_cons_of_ne_nil hne
  obtain ⟨rfl, rfl⟩ := List.cons.inj h
  exact ⟨List.take_left, List.drop_left⟩

/-- A binding statement goes up to the end of its last clause. -/
theorem yields_bindStatement (target : Selector) (hstart : startsWith cs ['&', '-', '>'] = true) :
    Yields (bindStatement read target offset cs) (Binds offset target cs) := by
  induction hlength : cs.length using Nat.strong_induction_on generalizing cs offset target with
  | _ length ih =>
    cases cs with
    | nil => cases hstart
    | cons c rest =>
      rw [bindStatement]
      refine (yields_bindTail hstart).bind ?_
      rintro ⟨hs, n⟩ ⟨text, after, hcs, rfl, hbound⟩
      have halone : Yields (pure ([⟨target, hs⟩], text.length)) (Binds offset target (c :: rest)) :=
        .pure ⟨text, after, hcs, rfl, .last hbound⟩
      have hgoOn {other : Selector} {front tail : List Char} (hfront : c :: rest = front ++ tail)
          (hne : front ≠ []) (htail : startsWith tail ['&', '-', '>'] = true)
          (hwritten : ∀ {bindings later left}, tail = later ++ left →
            Clauses left (offset + size front) other bindings later →
            Clauses left offset target (⟨target, hs⟩ :: bindings) (front ++ later)) :
          Yields (do
            let later ← bindStatement read other (offset + size ((c :: rest).take front.length))
              (rest.drop (front.length - 1))
            pure (⟨target, hs⟩ :: later.1, front.length + later.2))
              (Binds offset target (c :: rest)) := by
        obtain ⟨htake, hdrop⟩ := take_front hfront hne
        have hshorter : tail.length < length := by
          have hpos := List.length_pos_iff.mpr hne
          rw [← hlength, hfront, List.length_append]
          omega
        rw [htake, hdrop, hfront]
        exact yields_goOn (ih tail.length hshorter other htail rfl) hwritten
      dsimp only
      rw [show (c :: rest).drop text.length = after by rw [hcs, List.drop_left]]
      refine .ite (fun _ => halone) fun hcomma => ?_
      obtain ⟨more, rfl⟩ : ∃ more, after = ',' :: more :=
        List.head?_eq_some_iff.mp (by simpa using hcomma)
      rw [List.drop_one, List.tail_cons]
      obtain ⟨gap, ahead, rfl, hgap, hblank⟩ := exists_blanks more
      have hnext : text.length + 1 + gap.length = (text ++ ',' :: gap).length := by
        rw [List.length_append, List.length_cons]
        omega
      have hfront : c :: rest = (text ++ ',' :: gap) ++ ahead := by simp [hcs]
      rw [hgap, hnext, show (c :: rest).drop (text ++ ',' :: gap).length = ahead by
        rw [hfront, List.drop_left]]
      refine .ite (fun hoperator => ?_) fun _ => .ite (fun hbraces => ?_) fun _ => halone
      · refine hgoOn hfront (by simp) hoperator fun htail hlater => ?_
        rw [List.append_assoc, List.cons_append]
        exact .same (htail ▸ hbound) hblank hlater
      · rw [show (c :: rest).take (text ++ ',' :: gap).length = text ++ ',' :: gap by
          rw [hfront, List.take_left]]
        refine (Yields.orFail fun r hr => exists_selector hbraces hr).bind ?_
        rintro ⟨s, k⟩ ⟨name, behind, rfl, rfl, hname⟩
        obtain ⟨space, tail, rfl, hspace, hblank'⟩ := exists_blanks behind
        have haim : c :: rest = (text ++ ',' :: (gap ++ (name ++ space))) ++ tail := by simp [hcs]
        have hlength' : (text ++ ',' :: gap).length + name.length + space.length =
            (text ++ ',' :: (gap ++ (name ++ space))).length := by
          simp only [List.length_append, List.length_cons]
          omega
        dsimp only
        rw [List.drop_left, hspace, hlength', show (c :: rest).drop
          (text ++ ',' :: (gap ++ (name ++ space))).length = tail by rw [haim, List.drop_left]]
        refine .ite (fun hoperator => ?_) fun _ => .malformed
        refine hgoOn haim (by simp) hoperator fun htail hlater => ?_
        subst htail
        rw [List.append_assoc, List.cons_append, List.append_assoc]
        refine .other ?_ hblank ⟨name, space, rfl, hname, hblank'⟩ hlater
        simpa using hbound

end

/-! ## Steps -/

section

variable {read : ItemReader} {d : Draft} {base : Nat} {front cs : List Char}

/-- What is taken from the front of the text stands behind the draft. -/
def Advances (base : Nat) (front cs : List Char) (r : Draft × Nat) : Prop :=
  0 < r.2 ∧ r.1.Covers base (front ++ cs.take r.2) (cs.drop r.2)

theorem advances_of_covers {taken rest : List Char} (hcs : cs = taken ++ rest) (hne : taken ≠ [])
    (h : d.Covers base (front ++ taken) rest) : Advances base front cs (d, taken.length) := by
  refine ⟨List.length_pos_iff.mpr hne, ?_⟩
  rwa [hcs, List.take_left, List.drop_left]

theorem advances_pass (h : d.Covers base front cs) {n : Nat} (hn : 0 < n) :
    Advances base front cs (d.pass (cs.take n), n) :=
  ⟨hn, Draft.Covers.pass (by rwa [List.take_append_drop])⟩

theorem exists_keyword {keyword : String}
    (hstart : startsWith (cs.drop (blankLength cs)) keyword.toList = true) :
    ∃ blanks space rest, cs = (blanks ++ (keyword.toList ++ space)) ++ rest ∧
      blankLength cs + keyword.toList.length +
        blankLength ((cs.drop (blankLength cs)).drop keyword.toList.length) =
          (blanks ++ (keyword.toList ++ space)).length ∧ Blank blanks ∧ Blank space := by
  obtain ⟨blanks, more, rfl, hblanks, hblank⟩ := exists_blanks cs
  rw [hblanks, List.drop_left] at hstart ⊢
  obtain ⟨behind, rfl⟩ := startsWith_iff.mp hstart
  obtain ⟨space, rest, rfl, hspaces, hspace⟩ := exists_blanks behind
  rw [List.drop_left, hspaces]
  refine ⟨blanks, space, rest, by simp, ?_, hblank, hspace⟩
  simp only [List.length_append]
  omega

/-- Where a block follows an arrow, there are its keyword and blanks in front of its brace. -/
theorem exists_behavior {construct : Construct} {n : Nat} (h : behavior? cs = some (construct, n)) :
    ∃ blanks space rest, ∃ keyword : String, cs = (blanks ++ (keyword.toList ++ space)) ++ rest ∧
      n = (blanks ++ (keyword.toList ++ space)).length ∧ Blank blanks ∧ Blank space ∧
      (construct = .listen ∧ keyword = "Listen" ∨
        construct = .delegate ∧ keyword = "Delegate") := by
  unfold behavior? at h
  dsimp only at h
  by_cases hlisten : startsWith (cs.drop (blankLength cs)) "Listen".toList = true
  · rw [if_pos hlisten] at h
    dsimp only at h
    split_ifs at h
    cases h
    obtain ⟨blanks, space, rest, hcs, hlength, hblank, hspace⟩ := exists_keyword hlisten
    exact ⟨blanks, space, rest, "Listen", hcs, hlength, hblank, hspace, .inl ⟨rfl, rfl⟩⟩
  · rw [if_neg hlisten] at h
    by_cases hdelegate : startsWith (cs.drop (blankLength cs)) "Delegate".toList = true
    · rw [if_pos hdelegate] at h
      dsimp only at h
      split_ifs at h
      cases h
      obtain ⟨blanks, space, rest, hcs, hlength, hblank, hspace⟩ := exists_keyword hdelegate
      exact ⟨blanks, space, rest, "Delegate", hcs, hlength, hblank, hspace, .inr ⟨rfl, rfl⟩⟩
    · rw [if_neg hdelegate] at h
      cases h

/-- The arrow, the keyword and the group of braces are the block. -/
theorem exists_block {construct : Construct} {brace n : Nat}
    (hstart : startsWith cs ['-', '>'] = true)
    (hbehavior : behavior? (cs.drop 2) = some (construct, brace))
    (hbraced : bracedLength? (cs.drop (2 + brace)) = some n) :
    ∃ text rest, ∃ keyword : String, cs = text ++ rest ∧ 2 + brace + n = text.length ∧
      Block keyword rest text ∧
      (construct = .listen ∧ keyword = "Listen" ∨
        construct = .delegate ∧ keyword = "Delegate") := by
  obtain ⟨more, rfl⟩ := startsWith_iff.mp hstart
  rw [show (['-', '>'] ++ more).drop 2 = more from rfl] at hbehavior
  obtain ⟨blanks, space, behind, keyword, rfl, rfl, hblank, hspace, hkeyword⟩ :=
    exists_behavior hbehavior
  have hdrop : (['-', '>'] ++ ((blanks ++ (keyword.toList ++ space)) ++ behind)).drop
      (2 + (blanks ++ (keyword.toList ++ space)).length) = behind := by
    rw [Nat.add_comm]
    exact List.drop_left
  rw [hdrop] at hbraced
  obtain ⟨group, rest, rfl, rfl, hgroup⟩ := exists_group hbraced
  refine ⟨'-' :: '>' :: (blanks ++ (keyword.toList ++ (space ++ group))), rest, keyword,
    by simp, ?_, ⟨blanks, space, group, rfl, hblank, hspace, hgroup⟩, hkeyword⟩
  simp only [List.length_cons, List.length_append]
  omega

theorem yields_arrowStep (h : d.Covers base front cs) (hstart : startsWith cs ['-', '>'] = true) :
    Yields (arrowStep read d (base + size front) cs) (Advances base front cs) := by
  unfold arrowStep
  split
  · obtain ⟨more, rfl⟩ := startsWith_iff.mp hstart
    exact .pure (advances_of_covers rfl (List.cons_ne_nil _ _) (h.add .arrow))
  · next construct brace hbehavior =>
    dsimp only
    split
    · exact .throw
    · next n hbraced =>
      split
      · exact .malformed
      · next target before htake =>
        obtain ⟨early, aim, rfl, hearly, haims⟩ := h.takeTarget? htake
        obtain ⟨text, rest, keyword, rfl, hlength, hblock, hkeyword⟩ :=
          exists_block hstart hbehavior hbraced
        have hne : text ≠ [] := by
          obtain ⟨_, _, _, rfl, -⟩ := hblock
          exact List.cons_ne_nil _ _
        have hadd {item : Item} (hitem : item.Written (base + size early) rest (aim ++ text)) :
            Advances base (early ++ aim) (text ++ rest) (before.add item, text.length) := by
          refine advances_of_covers rfl hne ?_
          rw [List.append_assoc]
          exact Draft.Covers.add (by simpa using hearly) hitem
        rw [hlength]
        rcases hkeyword with ⟨rfl, rfl⟩ | ⟨rfl, rfl⟩
        · refine (yields_listenBlock target _).bind ?_
          rintro _ ⟨handlers, rfl⟩
          exact .pure (hadd (.listen haims hblock))
        · refine (yields_delegateBlock target _).bind ?_
          rintro _ ⟨targets, handlers, rfl⟩
          exact .pure (hadd (.delegate haims hblock))

theorem yields_bindStep (h : d.Covers base front cs)
    (hstart : startsWith cs ['&', '-', '>'] = true) :
    Yields (bindStep read d (base + size front) cs) (Advances base front cs) := by
  unfold bindStep
  split
  · exact .malformed
  · next target before htake =>
    obtain ⟨early, aim, rfl, hearly, haims⟩ := h.takeTarget? htake
    refine (yields_bindStatement target hstart).bind ?_
    rintro ⟨bindings, n⟩ ⟨text, rest, rfl, rfl, hclauses⟩
    have hne : text ≠ [] := by
      cases hclauses with
      | last hbound => obtain ⟨_, _, rfl, -⟩ := hbound; exact List.cons_ne_nil _ _
      | same => simp
      | other => simp
    refine .pure (advances_of_covers rfl hne ?_)
    rw [List.append_assoc]
    refine Draft.Covers.add (by simpa using hearly) (.bind haims ?_)
    rwa [size_append, ← Nat.add_assoc] at hclauses

theorem exists_word (hstart : cs.head?.any isWordStart = true) :
    ∃ word after, cs = word ++ after ∧ cs.takeWhile isWordChar = word ∧
      cs.dropWhile isWordChar = after ∧ word ≠ [] := by
  cases cs with
  | nil => cases hstart
  | cons c rest =>
    have hchar : isWordChar c = true := by
      simp only [List.head?_cons, Option.any_some, isWordStart, isWordChar, isAsciiAlnum,
        Bool.or_eq_true] at hstart ⊢
      tauto
    refine ⟨_, _, List.takeWhile_append_dropWhile.symm, rfl, rfl, ?_⟩
    rw [List.takeWhile_cons_of_pos hchar]
    exact List.cons_ne_nil _ _

theorem exists_declaredName {name : List Char} {n : Nat} (h : declaredName? cs = some (name, n)) :
    ∃ blanks rest, cs = (blanks ++ name) ++ rest ∧ n = (blanks ++ name).length ∧
      cs.takeWhile isBlank = blanks ∧ blanks ≠ [] ∧ Blank blanks ∧ IsName rest name := by
  have hsplit : cs = cs.takeWhile isBlank ++ cs.dropWhile isBlank :=
    List.takeWhile_append_dropWhile.symm
  unfold declaredName? blankLength at h
  dsimp only at h
  generalize hblanks : cs.takeWhile isBlank = blanks at h hsplit
  rw [hsplit, List.drop_left] at h
  split at h
  · next c rest hmore =>
    split_ifs at h with hnone
    cases h
    simp only [Bool.or_eq_true, decide_eq_true_eq, Bool.not_eq_true', not_or,
      Bool.not_eq_false] at hnone
    refine ⟨blanks, rest.dropWhile isWordChar, ?_, by simp, rfl, ?_, ?_, c, _, rfl, hnone.2, ?_⟩
    · rw [hsplit, hmore]
      simp
    · rintro rfl
      exact hnone.1 rfl
    · exact List.all_eq_true.mp (hblanks ▸ List.all_takeWhile)
    · rw [List.takeWhile_append_dropWhile]
  · cases h

theorem yields_wordStep (h : d.Covers base front cs) (hstart : cs.head?.any isWordStart = true) :
    Yields (wordStep read d (base + size front) cs) (Advances base front cs) := by
  obtain ⟨word, after, rfl, hword, -, hne⟩ := exists_word hstart
  have hpass : Yields (pure (d.pass word, word.length)) (Advances base front (word ++ after)) :=
    .pure (advances_of_covers rfl hne h.pass)
  unfold wordStep
  dsimp only
  rw [hword, List.drop_left]
  refine .ite (fun hanimate => ?_) fun _ => .ite (fun hkeyword => ?_) fun _ => hpass
  · simp only [Bool.and_eq_true, decide_eq_true_eq] at hanimate
    obtain ⟨blanks, more, rfl, hblanks, hblank⟩ := exists_blanks after
    have hdrop : (word ++ (blanks ++ more)).drop (word.length + blanks.length) = more := by
      rw [← List.append_assoc, ← List.length_append]
      exact List.drop_left
    rw [hblanks, hdrop]
    split
    · exact .throw
    · next n hbraced =>
      obtain ⟨group, rest, rfl, rfl, hgroup⟩ := exists_group hbraced
      refine (yields_animation _ _).bind fun a ha => .pure ?_
      have hanimation : word = "Animate".toList := by rw [← hanimate.1, String.toList_ofList]
      have hcs : word ++ (blanks ++ (group ++ rest)) = (word ++ (blanks ++ group)) ++ rest := by
        simp
      have hlength : word.length + blanks.length + group.length =
          (word ++ (blanks ++ group)).length := by
        simp only [List.length_append]
        omega
      rw [hcs, hlength, List.take_left] at ha
      rw [hcs, hlength]
      refine advances_of_covers rfl (by simp [hne]) (Draft.Covers.add (hcs ▸ h) ?_)
      rw [hanimation] at ha ⊢
      exact .animate hblank hgroup ha
  · split
    · next name n hname =>
      obtain ⟨blanks, rest, rfl, rfl, -, hblanks, hblank, hisName⟩ := exists_declaredName hname
      refine (Yields.any _).bind fun _ _ => .pure ?_
      rw [← List.length_append, ← List.append_assoc]
      refine advances_of_covers rfl (by simp [hne]) (Draft.Covers.add (by simpa using h) ?_)
      have hmem : String.ofList word ∈ ["let", "const", "var"] := by
        simpa [or_assoc] using hkeyword
      have hwritten : (Item.declaration (String.ofList word) (String.ofList name)).Written
          (base + size front) rest ((String.ofList word).toList ++ (blanks ++ name)) :=
        .declaration hmem hblanks hblank hisName
      rwa [String.toList_ofList] at hwritten
    · exact hpass

theorem yields_step (h : d.Covers base front cs) (hne : cs ≠ []) (before : Option Char) :
    Yields (step read d before (base + size front) cs) (Advances base front cs) := by
  unfold step
  split
  · next n hliteral => exact .pure (advances_pass h (literalLength?_bounds hliteral).1)
  · refine .ite (fun hbraces => ?_) fun _ => .ite (fun hoperator => yields_bindStep h hoperator)
      fun _ => .ite (fun harrow => yields_arrowStep h harrow) fun _ =>
        .ite (fun hword => ?_) fun _ => .pure (advances_pass h Nat.one_pos)
    · refine (Yields.orFail fun r hr => exists_selector hbraces hr).bind ?_
      rintro ⟨s, n⟩ ⟨text, rest, rfl, rfl, hwritten⟩
      have htext : text ≠ [] := by
        obtain ⟨inner, rfl, -⟩ := hwritten.braces
        simp
      exact .pure (advances_of_covers rfl htext (h.add (.selector hwritten)))
    · rw [Bool.and_eq_true] at hword
      exact yields_wordStep h hword.1

/-- The segments of the items that are read are the text, whatever reads inner scripts. -/
theorem yields_itemsFrom (h : d.Covers base front cs) (before : Option Char) :
    Yields (itemsFrom read d before (base + size front) cs) fun items =>
      Segmented [] base items (front ++ cs) := by
  induction hlength : cs.length using Nat.strong_induction_on generalizing d front cs before with
  | _ length ih =>
    cases cs with
    | nil =>
      rw [itemsFrom, List.append_nil]
      exact .pure h.settle
    | cons c rest =>
      rw [itemsFrom]
      refine (yields_step h (List.cons_ne_nil _ _) before).bind ?_
      rintro ⟨d', n⟩ ⟨hn, hcovers⟩
      obtain ⟨n, rfl⟩ := Nat.exists_eq_succ_of_ne_zero hn.ne'
      have hshorter : (rest.drop n).length < length := by
        rw [← hlength, List.length_drop, List.length_cons]
        omega
      have hrest := ih (rest.drop n).length hshorter hcovers ((c :: rest.take n).getLast?) rfl
      rw [List.append_assoc, List.take_append_drop, size_append, ← Nat.add_assoc] at hrest
      exact hrest

end

end Chtl.Script
