import Chtl.Proofs.Script.Selectors
import Chtl.Proofs.Script.Stretch
import Chtl.Script.Parse

/-!
# Where scripts are read

A script and everything in it is read from stretches of its text. So the fault of a script lies in
its text, and so do all selectors, at whatever depth they stand.
-/

set_option autoImplicit false
set_option linter.all false

namespace Chtl.Script

open Text

/-- A result is fine, or the fault lies in the text. -/
def Found (text : List Char) (base : Nat) {α : Type} (r : Except ScriptError α) (fine : α → Prop) :
    Prop :=
  match r with
  | .ok a => fine a
  | .error e => e.span.Between base (base + size text)

/-- Reading ends so, whatever variables were noted before. -/
def Finds (text : List Char) (base : Nat) {α : Type} (x : Reading α) (fine : α → Prop) : Prop :=
  ∀ noted, Found text base (x.run noted) fun r => fine r.1

section

variable {text : List Char} {base : Nat} {α β : Type} {fine : α → Prop} {good : β → Prop}

theorem Found.bind {r : Except ScriptError α} {f : α → Except ScriptError β}
    (h : Found text base r fine) (hf : ∀ a, fine a → Found text base (f a) good) :
    Found text base (r >>= f) good := by
  cases r with
  | ok a => exact hf a h
  | error e => exact h

theorem Found.map {r : Except ScriptError α} {f : α → β} (h : Found text base r fine)
    (hf : ∀ a, fine a → good (f a)) : Found text base (r.map f) good := by
  cases r with
  | ok a => exact hf a h
  | error e => exact h

theorem Found.mono {wider : α → Prop} {r : Except ScriptError α} (h : Found text base r fine)
    (hwider : ∀ a, fine a → wider a) : Found text base r wider := by
  cases r with
  | ok a => exact hwider a h
  | error e => exact h

/-- Items that are found one by one are found together. -/
theorem Found.mapM {f : α → Except ScriptError β} {as : List α}
    (h : ∀ a ∈ as, Found text base (f a) good) :
    Found text base (as.mapM f) fun bs => ∀ b ∈ bs, good b := by
  induction as with
  | nil => exact fun b hb => by cases hb
  | cons a as ih =>
    obtain ⟨hfirst, hrest⟩ := List.forall_mem_cons.mp h
    rw [List.mapM_cons]
    exact hfirst.bind fun b hb => (ih hrest).bind fun bs hbs => List.forall_mem_cons.mpr ⟨hb, hbs⟩

namespace Finds

theorem pure {a : α} (h : fine a) : Finds text base (Pure.pure a) fine := fun _ => h

theorem bind {x : Reading α} {f : α → Reading β} (h : Finds text base x fine)
    (hf : ∀ a, fine a → Finds text base (f a) good) : Finds text base (x >>= f) good := by
  intro noted
  rw [StateT.run_bind]
  exact (h noted).bind fun r hr => hf r.1 hr r.2

theorem mono {wider : α → Prop} {x : Reading α} (h : Finds text base x fine)
    (hwider : ∀ a, fine a → wider a) : Finds text base x wider :=
  fun noted => (h noted).mono fun r hr => hwider r.1 hr

theorem throw {e : ScriptError} (h : e.span.Between base (base + size text)) :
    Finds text base (MonadExcept.throw e) fine :=
  fun _ => h

theorem malformed {construct : Construct} {fault : BlockFault} {span : Span}
    (h : span.Between base (base + size text)) :
    Finds text base (Script.malformed construct fault span) fine :=
  fun _ => h

theorem orFail {r : Except ScriptError α} (h : Found text base r fine) :
    Finds text base (Script.orFail r) fine := by
  cases r with
  | ok a => exact .pure h
  | error e => exact .throw h

theorem ite {c : Prop} [Decidable c] {x y : Reading α} (hx : c → Finds text base x fine)
    (hy : ¬ c → Finds text base y fine) : Finds text base (if c then x else y) fine := by
  split_ifs with hc
  · exact hx hc
  · exact hy hc

end Finds

end

variable {text : List Char} {base : Nat}

/-- Selectors that are read from stretches of the text are good. -/
def Accepts (text : List Char) (base : Nat) (good : Selector → Prop) : Prop :=
  ∀ {offset : Nat} {cs : List Char}, Stretch text base offset cs → startsWith cs ['{', '{'] = true →
    Found text base (selectorAt offset cs) fun r => good r.1

theorem accepts_between (text : List Char) (base : Nat) :
    Accepts text base fun s => s.span.Between base (base + size text) := by
  intro offset cs h _
  unfold selectorAt
  split
  · exact h.span
  · dsimp only
    split_ifs
    · exact h.span_take _
    · exact h.span_take _

/-! ## Entries -/

section

variable {offset : Nat} {cs : List Char}

/-- An entry of a body: its value is a stretch, and its span lies in the text. -/
structure Entry.Placed (text : List Char) (base : Nat) (e : Entry) : Prop where
  value : Stretch text base e.valueStart e.value
  span : e.span.Between base (base + size text)

theorem found_entryAt (construct : Construct) (h : Stretch text base offset cs) :
    Found text base (entryAt construct offset cs) (Entry.Placed text base) := by
  have hjoin := intercalate_splitTopLevel ':' 0 cs
  unfold entryAt
  dsimp only
  split
  · rename_i key next parts hparts
    rw [hparts] at hjoin
    have hsplit : cs = (key ++ [':']) ++ [':'].intercalate (next :: parts) := by
      rw [← hjoin]
      simp [List.intercalate]
    have hdrop : cs.drop (key.length + 1) = [':'].intercalate (next :: parts) := by
      conv_lhs => rw [hsplit]
      exact List.drop_left' (by simp)
    refine ⟨?_, h.span⟩
    rw [hsplit] at h
    have hvalue := h.behind.trim
    rw [size_append] at hvalue
    dsimp only
    rw [hdrop]
    simpa [Nat.add_assoc, show ':'.utf8Size = 1 from rfl] using hvalue
  · exact h.span

theorem found_entries (construct : Construct) (h : Stretch text base offset cs) :
    Found text base (entries construct offset cs) fun es => ∀ e ∈ es, e.Placed text base :=
  .mapM fun p hp => found_entryAt construct
    (stretch_partsAt rfl h p (List.mem_filter.mp hp).1)

theorem found_objectEntries (h : Stretch text base offset cs) {span : Span}
    (hspan : span.Between base (base + size text)) :
    Found text base (objectEntries cs offset span) fun es => ∀ e ∈ es, e.Placed text base := by
  unfold objectEntries
  split
  · rename_i inner hinner
    exact found_entries .animate (stretch_between? rfl hinner h)
  · exact hspan

variable {good : Selector → Prop} (hgood : Accepts text base good) {e : Entry}
  (he : e.Placed text base)

include hgood in
theorem found_listedSelector (construct : Construct) (h : Stretch text base offset cs) :
    Found text base (listedSelector construct offset cs) good := by
  unfold listedSelector
  split_ifs with hstart
  · have hread := hgood h hstart
    split
    · rename_i herror
      rw [herror] at hread
      exact hread
    · rename_i hok
      rw [hok] at hread
      split_ifs
      · exact hread
      · exact h.span
  · exact h.span

include hgood he in
theorem found_selectorList (construct : Construct) :
    Found text base (selectorList construct e) fun sels => ∀ s ∈ sels, good s := by
  have hlist : ∀ {offset : Nat} {cs : List Char}, Stretch text base offset cs →
      Found text base ((listItems offset cs).mapM fun p => listedSelector construct p.1 p.2)
        fun sels => ∀ s ∈ sels, good s :=
    fun h => .mapM fun p hp => found_listedSelector hgood construct (stretch_listItems h p hp)
  unfold selectorList
  split
  rename_i list offset hsplit
  split at hsplit
  · rename_i inner hinner
    cases hsplit
    exact hlist (stretch_between? rfl hinner he.value)
  · cases hsplit
    exact hlist he.value

include he in
theorem found_frame : Found text base (frame e) fun _ => True :=
  (found_objectEntries he.value he.span).map fun _ _ => trivial

theorem found_keyframe (h : Stretch text base offset cs) :
    Found text base (keyframe offset cs) fun _ => True := by
  have hobject := found_objectEntries h h.span
  unfold keyframe
  dsimp only
  split
  · rename_i herror
    rw [herror] at hobject
    exact hobject
  · split
    · split_ifs
      · exact trivial
      · exact h.span
    · exact h.span

include he in
theorem found_keyframes : Found text base (keyframes e) fun _ => True := by
  unfold keyframes
  split
  · rename_i list hlist
    have hall : Found text base ((listItems (e.valueStart + 1) list).mapM fun p => keyframe p.1 p.2)
        fun bs => ∀ b ∈ bs, True :=
      Found.mapM fun p hp =>
        found_keyframe (stretch_listItems (stretch_between? rfl hlist he.value) p hp)
    exact hall.mono fun _ _ => trivial
  · exact he.span

end

/-! ## Additions -/

/-- Scripts are read from stretches of the text, and their selectors are good. -/
def ItemReader.Finds (text : List Char) (base : Nat) (good : Selector → Prop) (read : ItemReader) :
    Prop :=
  ∀ {offset : Nat} {cs : List Char}, Stretch text base offset cs →
    Script.Finds text base (read offset cs) fun items => ∀ s ∈ selectorsOf items, good s

section

variable {good : Selector → Prop} (hgood : Accepts text base good) {read : ItemReader}
  (hread : read.Finds text base good) {offset : Nat} {cs : List Char}

include hread in
theorem finds_handlers {es : List Entry} (hes : ∀ e ∈ es, e.Placed text base) :
    Finds text base (handlers read es) fun hs => ∀ s ∈ selectorsOfHandlers hs, good s := by
  induction es with
  | nil => exact .pure (by simp [selectorsOfHandlers])
  | cons e es ih =>
    obtain ⟨he, hrest⟩ := List.forall_mem_cons.mp hes
    rw [handlers]
    refine (hread he.value).bind fun body hbody => (ih hrest).bind fun more hmore => .pure ?_
    rw [selectorsOfHandlers, Handler.selectors]
    exact List.forall_mem_append.mpr ⟨hbody, hmore⟩

include hread in
theorem finds_listenBlock {target : Selector} (htarget : good target)
    (h : Stretch text base offset cs) :
    Finds text base (listenBlock read target offset cs) fun item => ∀ s ∈ item.selectors, good s := by
  unfold listenBlock
  refine (Finds.orFail (found_entries .listen h)).bind fun es hes => ?_
  refine (finds_handlers hread hes).bind fun hs hhs => .pure ?_
  rw [Item.selectors]
  exact List.forall_mem_cons.mpr ⟨htarget, hhs⟩

include hgood hread in
theorem finds_delegateBlock {parent : Selector} (hparent : good parent)
    (h : Stretch text base offset cs) :
    Finds text base (delegateBlock read parent offset cs) fun item =>
      ∀ s ∈ item.selectors, good s := by
  unfold delegateBlock
  refine (Finds.orFail (found_entries .delegate h)).bind fun es hes => ?_
  split
  · exact .malformed h.span
  · rename_i e hfind
    have he := hes e (List.mem_of_find?_eq_some hfind)
    refine (Finds.orFail (found_selectorList hgood he .delegate)).bind fun targets htargets => ?_
    refine .ite (fun _ => .malformed he.span) fun _ => ?_
    have hrest : ∀ e ∈ es.eraseP (·.key == "target"), e.Placed text base :=
      fun e he => hes e (List.mem_of_mem_eraseP he)
    refine (finds_handlers hread hrest).bind fun hs hhs => .pure ?_
    rw [Item.selectors]
    exact List.forall_mem_append.mpr ⟨htargets, List.forall_mem_cons.mpr ⟨hparent, hhs⟩⟩

include hgood hread in
theorem finds_animationEntry {a : Animation} (ha : ∀ s ∈ a.selectors, good s) {e : Entry}
    (he : e.Placed text base) :
    Finds text base (animationEntry read a e) fun a => ∀ s ∈ a.selectors, good s := by
  rw [Animation.selectors_eq, List.forall_mem_append] at ha
  have hkeeps {b : Animation} (htargets : b.targets = a.targets) (hcallback : b.callback = a.callback) :
      Finds text base (pure b) fun b => ∀ s ∈ b.selectors, good s := by
    refine .pure ?_
    rw [Animation.selectors_eq, htargets, hcallback]
    exact List.forall_mem_append.mpr ha
  unfold animationEntry
  dsimp only
  split
  · refine (Finds.orFail (found_selectorList hgood he .animate)).bind fun sels hsels => .pure ?_
    rw [Animation.selectors_eq]
    exact List.forall_mem_append.mpr ⟨hsels, ha.2⟩
  · split
    · exact hkeeps rfl rfl
    · exact .malformed he.span
  · split
    · exact hkeeps rfl rfl
    · exact .malformed he.span
  · split
    · exact hkeeps rfl rfl
    · exact .malformed he.span
  · split
    · exact hkeeps rfl rfl
    · exact .malformed he.span
  · split
    · exact hkeeps rfl rfl
    · exact .malformed he.span
  · exact (Finds.orFail (found_frame he)).bind fun _ _ => hkeeps rfl rfl
  · exact (Finds.orFail (found_frame he)).bind fun _ _ => hkeeps rfl rfl
  · exact (Finds.orFail (found_keyframes he)).bind fun _ _ => hkeeps rfl rfl
  · refine (hread he.value).bind fun items hitems => .pure ?_
    rw [Animation.selectors_eq]
    exact List.forall_mem_append.mpr ⟨ha.1, hitems⟩
  · exact .malformed he.span

include hgood hread in
theorem finds_animationEntries {a : Animation} (ha : ∀ s ∈ a.selectors, good s) {es : List Entry}
    (hes : ∀ e ∈ es, e.Placed text base) :
    Finds text base (animationEntries read a es) fun a => ∀ s ∈ a.selectors, good s := by
  induction es generalizing a with
  | nil => exact .pure ha
  | cons e es ih =>
    obtain ⟨he, hrest⟩ := List.forall_mem_cons.mp hes
    rw [animationEntries]
    exact (finds_animationEntry hgood hread ha he).bind fun a ha => ih ha hrest

include hgood hread in
theorem finds_animation {span : Span} (hspan : span.Between base (base + size text))
    (h : Stretch text base offset cs) :
    Finds text base (animation read span offset cs) fun a => ∀ s ∈ a.selectors, good s := by
  have hnew : ∀ s ∈ Animation.selectors { span := span }, good s := by
    rw [Animation.selectors_eq]
    simp [selectorsOfCallback]
  unfold animation
  refine (Finds.orFail (found_entries .animate h)).bind fun es hes => ?_
  refine (finds_animationEntries hgood hread hnew hes).bind fun a ha => ?_
  exact .ite (fun _ => .malformed hspan) fun _ => .pure ha

/-! ## Bindings -/

include hread in
theorem finds_bindClause (h : Stretch text base offset cs) :
    Finds text base (bindClause read offset cs) fun r => ∀ s ∈ selectorsOfHandlers r.1, good s := by
  obtain ⟨rest, hrest⟩ := List.takeWhile_prefix
    (fun c => !(c == ':' || c == ';' || c == '{' || c == '\n')) (l := cs)
  unfold bindClause
  dsimp only
  generalize hnames : cs.takeWhile (fun c => !(c == ':' || c == ';' || c == '{' || c == '\n')) =
    names at hrest ⊢
  have hdrop : cs.drop names.length = rest := by rw [← hrest, List.drop_left]
  have hsize : size cs = size names + size rest := by rw [← hrest, size_append]
  have hhead : Span.Between base (base + size text) ⟨offset, offset + size names⟩ :=
    h.between (by omega)
  rw [hdrop]
  refine .ite (fun _ => .malformed hhead) fun hcolon => ?_
  obtain ⟨after, rfl⟩ : ∃ after, rest = ':' :: after :=
    List.head?_eq_some_iff.mp (by simpa using hcolon)
  have hafter : Stretch text base (offset + size names + 1) after :=
    (Stretch.behind (hrest ▸ h)).tail rfl
  split
  · exact .malformed hhead
  · rw [List.drop_one, List.tail_cons]
    have htake := Expr.size_take_le (clauseLength none 0 after) after
    have hspan : Span.Between base (base + size text) ⟨offset, offset + size names + 1 +
        size (after.take (clauseLength none 0 after))⟩ := by
      have hcolon : ':'.utf8Size = 1 := rfl
      rw [Nat.add_assoc, Nat.add_assoc]
      refine h.between ?_
      rw [size_cons] at hsize
      omega
    refine .ite (fun _ => .malformed hspan) fun _ => ?_
    refine (hread (hafter.take _).trim).bind fun body hbody => .pure fun s hs => ?_
    obtain ⟨handler, hhandler, hs⟩ := mem_selectorsOfHandlers.mp hs
    obtain ⟨name, -, rfl⟩ := List.mem_map.mp hhandler
    exact hbody s hs

include hread in
theorem finds_bindTail (h : Stretch text base offset cs) :
    Finds text base (bindTail read offset cs) fun r => ∀ s ∈ selectorsOfHandlers r.1, good s := by
  have hafter := h.drop (3 + blankLength (cs.drop 3))
  unfold bindTail
  dsimp only
  generalize cs.drop (3 + blankLength (cs.drop 3)) = after at hafter ⊢
  refine .ite (fun hbrace => ?_) fun _ => ?_
  · obtain ⟨inner, rfl⟩ := List.head?_eq_some_iff.mp hbrace
    split
    · exact .throw h.span
    · rename_i n _
      have hinner := (hafter.tail rfl).take (n - 2)
      refine (Finds.orFail (found_entries .bind hinner)).bind fun es hes => ?_
      exact (finds_handlers hread hes).bind fun hs hhs => .pure hhs
  · exact (finds_bindClause hread hafter).bind fun r hr => .pure hr

include hgood hread in
theorem finds_bindStatement {target : Selector} (htarget : good target)
    (h : Stretch text base offset cs) :
    Finds text base (bindStatement read target offset cs) fun r =>
      ∀ s ∈ selectorsOfBindings r.1, good s := by
  induction hlength : cs.length using Nat.strong_induction_on generalizing cs offset target with
  | _ length ih =>
    cases cs with
    | nil =>
      rw [bindStatement]
      exact .pure (by simp [selectorsOfBindings])
    | cons c rest =>
      rw [bindStatement]
      refine (finds_bindTail hread h).bind fun r hr => ?_
      obtain ⟨hs, n⟩ := r
      have hown : ∀ s ∈ Binding.selectors ⟨target, hs⟩, good s := by
        rw [Binding.selectors]
        exact List.forall_mem_cons.mpr ⟨htarget, hr⟩
      have halone (k : Nat) : Finds text base (pure ([⟨target, hs⟩], k)) fun r : List Binding × Nat =>
          ∀ s ∈ selectorsOfBindings r.1, good s :=
        .pure (by simpa [selectorsOfBindings] using hown)
      have hgoOn {other : Selector} (hother : good other) {m : Nat} (hm : 0 < m) :
          Finds text base (do
            let later ← bindStatement read other (offset + size ((c :: rest).take m))
              (rest.drop (m - 1))
            pure (⟨target, hs⟩ :: later.1, m + later.2)) fun r =>
              ∀ s ∈ selectorsOfBindings r.1, good s := by
        obtain ⟨m, rfl⟩ := Nat.exists_eq_succ_of_ne_zero (Nat.pos_iff_ne_zero.mp hm)
        have hlater := ih (rest.drop m).length (by simp at hlength ⊢; omega) hother
          (h.drop (m + 1)) rfl
        refine hlater.bind fun r hr => .pure ?_
        rw [selectorsOfBindings]
        exact List.forall_mem_append.mpr ⟨hown, hr⟩
      dsimp only
      refine .ite (fun _ => halone n) fun _ => .ite (fun _ => hgoOn htarget (by omega)) fun _ =>
        .ite (fun hstart => ?_) fun _ => halone n
      have hahead := h.drop (n + 1 + blankLength (((c :: rest).drop n).drop 1))
      refine (Finds.orFail (hgood hahead hstart)).bind fun r hr => ?_
      refine .ite (fun _ => hgoOn hr (by omega)) fun _ => .malformed ?_
      exact h.span_between_takes (by omega)

/-! ## Steps -/

/-- The items of a draft have good selectors. -/
def Draft.Good (good : Selector → Prop) (d : Draft) : Prop := ∀ s ∈ selectorsOf d.items, good s

theorem Draft.Good.settle {d : Draft} (h : d.Good good) : ∀ s ∈ selectorsOf d.settle, good s := by
  unfold Draft.settle
  split_ifs
  · exact h
  · dsimp only
    split
    · rename_i hitems
      unfold Draft.Good at h
      rw [hitems] at h
      simpa [selectorsOf, Item.selectors] using h
    · simpa [selectorsOf, Item.selectors, Draft.Good] using h

theorem Draft.Good.add {d : Draft} (h : d.Good good) {item : Item}
    (hitem : ∀ s ∈ item.selectors, good s) : (d.add item).Good good := by
  unfold Draft.Good Draft.add
  rw [selectorsOf]
  exact List.forall_mem_append.mpr ⟨hitem, h.settle⟩

theorem Draft.Good.takeTarget? {d before : Draft} (h : d.Good good) {target : Selector}
    (htake : d.takeTarget? = some (target, before)) : good target ∧ before.Good good := by
  unfold Draft.takeTarget? at htake
  split at htake
  · rename_i s rest hrest
    cases htake
    have hall : ∀ t ∈ selectorsOf (.selector target :: rest), good t := by
      intro t ht
      rw [← hrest] at ht
      obtain ⟨item, hitem, ht⟩ := mem_selectorsOf.mp ht
      exact h.settle t (mem_selectorsOf.mpr ⟨item, (List.dropWhile_suffix _).subset hitem, ht⟩)
    rw [selectorsOf, Item.selectors] at hall
    exact ⟨hall target (by simp), fun t ht => hall t (List.mem_append_right _ ht)⟩
  · cases htake

variable {d : Draft} (hd : d.Good good)

theorem Draft.Good.pass (hd : d.Good good) (taken : List Char) : (d.pass taken).Good good := hd

include hgood hread hd in
theorem finds_arrowStep (h : Stretch text base offset cs) :
    Finds text base (arrowStep read d offset cs) fun r => r.1.Good good := by
  unfold arrowStep
  split
  · exact .pure (hd.add (by simp [Item.selectors]))
  · rename_i construct brace _
    dsimp only
    split
    · exact .throw h.span
    · rename_i n _
      split
      · exact .malformed (h.span_take _)
      · rename_i target before htake
        obtain ⟨htarget, hbefore⟩ := hd.takeTarget? htake
        have hbody := (h.drop (2 + brace + 1)).take (n - 2)
        cases construct with
        | listen =>
          exact (finds_listenBlock hread htarget hbody).bind fun item hitem =>
            .pure (hbefore.add hitem)
        | _ =>
          exact (finds_delegateBlock hgood hread htarget hbody).bind fun item hitem =>
            .pure (hbefore.add hitem)

include hgood hread hd in
theorem finds_bindStep (h : Stretch text base offset cs)
    (hstart : startsWith cs ['&', '-', '>'] = true) :
    Finds text base (bindStep read d offset cs) fun r => r.1.Good good := by
  unfold bindStep
  split
  · refine .malformed (h.between ?_)
    obtain ⟨rest, hrest⟩ := Option.isSome_iff_exists.mp hstart
    rw [after?_eq_some_iff.mp hrest]
    simp only [size_append, size_cons, size_nil, show '&'.utf8Size = 1 from rfl,
      show '-'.utf8Size = 1 from rfl, show '>'.utf8Size = 1 from rfl]
    omega
  · rename_i target before htake
    obtain ⟨htarget, hbefore⟩ := hd.takeTarget? htake
    refine (finds_bindStatement hgood hread htarget h).bind fun r hr => .pure (hbefore.add ?_)
    rw [Item.selectors]
    exact hr

include hgood hread hd in
theorem finds_wordStep (h : Stretch text base offset cs) :
    Finds text base (wordStep read d offset cs) fun r => r.1.Good good := by
  unfold wordStep
  dsimp only
  refine .ite (fun _ => ?_) fun _ => .ite (fun _ => ?_) fun _ => .pure hd
  · split
    · exact .throw h.span
    · have hbody := (h.drop ((cs.takeWhile isWordChar).length +
        blankLength (cs.drop (cs.takeWhile isWordChar).length) + 1))
      refine (finds_animation hgood hread (h.span_take _) (hbody.take _)).bind fun a ha =>
        .pure (hd.add ?_)
      rw [Item.selectors]
      exact ha
  · split
    · rename_i name n _
      have hnote : Finds text base (noteVariable name
          ((cs.drop (cs.takeWhile isWordChar).length).drop n)) fun _ => True := by
        unfold noteVariable
        split
        · exact fun _ => trivial
        · exact .pure trivial
      exact hnote.bind fun _ _ => .pure (hd.add (by simp [Item.selectors]))
    · exact .pure hd

include hgood hread hd in
theorem finds_step (before : Option Char) (h : Stretch text base offset cs) :
    Finds text base (step read d before offset cs) fun r => r.1.Good good := by
  unfold step
  split
  · exact .pure hd
  · refine .ite (fun hstart => ?_) fun _ => .ite (fun hstart => ?_) fun _ =>
      .ite (fun _ => finds_arrowStep hgood hread hd h) fun _ =>
        .ite (fun _ => finds_wordStep hgood hread hd h) fun _ => .pure hd
    · refine (Finds.orFail (hgood h hstart)).bind fun r hr => .pure (hd.add ?_)
      simpa [Item.selectors] using hr
    · exact finds_bindStep hgood hread hd h hstart

include hgood hread in
theorem finds_itemsFrom {d : Draft} (hd : d.Good good) (before : Option Char)
    (h : Stretch text base offset cs) :
    Finds text base (itemsFrom read d before offset cs) fun items =>
      ∀ s ∈ selectorsOf items, good s := by
  induction hlength : cs.length using Nat.strong_induction_on generalizing cs offset before d with
  | _ length ih =>
    cases cs with
    | nil =>
      rw [itemsFrom]
      refine .pure fun s hs => ?_
      obtain ⟨item, hitem, hs⟩ := mem_selectorsOf.mp hs
      exact hd.settle s (mem_selectorsOf.mpr ⟨item, List.mem_reverse.mp hitem, hs⟩)
    | cons c rest =>
      rw [itemsFrom]
      refine (finds_step hgood hread hd before h).bind fun r hr => ?_
      exact ih (rest.drop (r.2 - 1)).length (by simp at hlength ⊢; omega) hr _
        (h.drop (r.2 - 1 + 1)) rfl

end

/-- Reading a script leads to good selectors, or to a fault in the text. -/
theorem finds_itemsWithin {good : Selector → Prop} (hgood : Accepts text base good) (depth : Nat) :
    ItemReader.Finds text base good (itemsWithin depth) := by
  induction depth with
  | zero =>
    intro offset cs _
    exact .pure (by simp [selectorsOf])
  | succ depth ih =>
    intro offset cs h
    exact finds_itemsFrom hgood ih (by simp [Draft.Good, selectorsOf]) none h

/-- The fault of a script, and its selectors, lie in its text. -/
theorem parse_between (text : List Char) (base : Nat) :
    Found text base (parse text base) fun r =>
      ∀ s ∈ selectorsOf r.1, s.span.Between base (base + size text) :=
  finds_itemsWithin (fun h hstart => accepts_between text base h hstart) (text.length + 1)
    (.whole text base) []

end Chtl.Script
