import Chtl.Proofs.Script.Spans

/-!
# Scripts in scripts

Handlers and callbacks are scripts again, and each is shorter than the text it stands in. So a script
is read alike by any two readers of inner scripts that agree on shorter texts, and the depth that
bounds the nesting is never reached.
-/

set_option autoImplicit false
set_option linter.all false

namespace Chtl.Script

open Text

/-- Two readers do the same with every text of fewer than `n` characters. -/
def AgreeBelow (n : Nat) (read read' : ItemReader) : Prop :=
  ∀ offset cs, cs.length < n → read offset cs = read' offset cs

theorem AgreeBelow.mono {m n : Nat} {read read' : ItemReader} (h : AgreeBelow n read read')
    (hmn : m ≤ n) : AgreeBelow m read read' :=
  fun offset cs hlength => h offset cs (Nat.lt_of_lt_of_le hlength hmn)

theorem orFail_bind_congr {α β : Type} {r : Except ScriptError α} {f g : α → Reading β}
    (h : ∀ a, r = .ok a → f a = g a) : orFail r >>= f = orFail r >>= g := by
  cases r with
  | ok a => simpa only [orFail, pure_bind] using h a rfl
  | error e => rfl

/-! ## Lengths of inner texts -/

theorem length_le_of_stretch {text cs : List Char} {base offset : Nat}
    (h : Stretch text base offset cs) : cs.length ≤ text.length := by
  obtain ⟨before, after, rfl, -⟩ := h
  simp only [List.length_append]
  omega

theorem length_trim_le (cs : List Char) : (trim cs).length ≤ cs.length :=
  length_le_of_stretch (Stretch.whole cs 0).trim

theorem length_inner_lt {cs : List Char} (hne : cs ≠ []) (lead n : Nat) :
    ((cs.drop (lead + 1)).take n).length < cs.length := by
  have hpos := List.length_pos_iff.mpr hne
  refine Nat.lt_of_le_of_lt (List.length_take_le' _ _) ?_
  rw [List.length_drop]
  omega

theorem length_value_le {construct : Construct} {offset : Nat} {body : List Char}
    {es : List Entry} (h : entries construct offset body = .ok es) :
    ∀ e ∈ es, e.value.length ≤ body.length := by
  have hfound := found_entries construct (Stretch.whole body offset)
  rw [h] at hfound
  exact fun e he => length_le_of_stretch (hfound e he).value

/-! ## Additions -/

section

variable {read read' : ItemReader} {offset n : Nat} {cs : List Char}

theorem handlers_congr {es : List Entry}
    (h : ∀ e ∈ es, read e.valueStart e.value = read' e.valueStart e.value) :
    handlers read es = handlers read' es := by
  induction es with
  | nil => rfl
  | cons e es ih =>
    obtain ⟨hfirst, hrest⟩ := List.forall_mem_cons.mp h
    rw [handlers, handlers, hfirst, ih hrest]

theorem agree_values (h : AgreeBelow n read read') (hbody : cs.length < n) {construct : Construct}
    {es : List Entry} (hes : entries construct offset cs = .ok es) :
    ∀ e ∈ es, read e.valueStart e.value = read' e.valueStart e.value :=
  fun e he => h _ _ (Nat.lt_of_le_of_lt (length_value_le hes e he) hbody)

theorem listenBlock_congr (h : AgreeBelow n read read') (hbody : cs.length < n)
    (target : Selector) :
    listenBlock read target offset cs = listenBlock read' target offset cs := by
  unfold listenBlock
  refine orFail_bind_congr fun es hes => ?_
  rw [handlers_congr (agree_values h hbody hes)]

theorem delegateBlock_congr (h : AgreeBelow n read read') (hbody : cs.length < n)
    (parent : Selector) :
    delegateBlock read parent offset cs = delegateBlock read' parent offset cs := by
  unfold delegateBlock
  refine orFail_bind_congr fun es hes => ?_
  have hrest : handlers read (es.eraseP (·.key == "target")) =
      handlers read' (es.eraseP (·.key == "target")) :=
    handlers_congr fun e he => agree_values h hbody hes e (List.mem_of_mem_eraseP he)
  rw [hrest]

theorem animationEntry_congr {e : Entry}
    (h : read e.valueStart e.value = read' e.valueStart e.value) (a : Animation) :
    animationEntry read a e = animationEntry read' a e := by
  unfold animationEntry
  rw [h]

theorem animationEntries_congr {es : List Entry}
    (h : ∀ e ∈ es, read e.valueStart e.value = read' e.valueStart e.value) (a : Animation) :
    animationEntries read a es = animationEntries read' a es := by
  induction es generalizing a with
  | nil => rfl
  | cons e es ih =>
    obtain ⟨hfirst, hrest⟩ := List.forall_mem_cons.mp h
    rw [animationEntries, animationEntries, animationEntry_congr hfirst]
    exact bind_congr fun a => ih hrest a

theorem animation_congr (h : AgreeBelow n read read') (hbody : cs.length < n) (span : Span) :
    animation read span offset cs = animation read' span offset cs := by
  unfold animation
  refine orFail_bind_congr fun es hes => ?_
  rw [animationEntries_congr (agree_values h hbody hes)]

/-! ## Bindings -/

theorem bindClause_congr (h : AgreeBelow cs.length read read') :
    bindClause read offset cs = bindClause read' offset cs := by
  unfold bindClause
  dsimp only
  generalize (cs.takeWhile fun c => !(c == ':' || c == ';' || c == '{' || c == '\n')) = names
  split_ifs with hcolon hblank
  · rfl
  · split <;> rfl
  · split
    · rfl
    · have hrest : (cs.drop names.length).length ≠ 0 := by
        intro hzero
        rw [List.length_eq_zero_iff.mp hzero] at hcolon
        exact hcolon (by decide)
      have hshorter (k : Nat) :
          (trim (((cs.drop names.length).drop 1).take k)).length < cs.length := by
        refine Nat.lt_of_le_of_lt (Nat.le_trans (length_trim_le _) (List.length_take_le' _ _)) ?_
        rw [List.length_drop] at hrest ⊢
        rw [List.length_drop]
        omega
      rw [h _ _ (hshorter _)]

theorem bindTail_congr (h : AgreeBelow cs.length read read') :
    bindTail read offset cs = bindTail read' offset cs := by
  unfold bindTail
  dsimp only
  have hle : (cs.drop (3 + blankLength (cs.drop 3))).length ≤ cs.length := by
    rw [List.length_drop]
    omega
  generalize cs.drop (3 + blankLength (cs.drop 3)) = after at hle ⊢
  split_ifs with hbrace
  · obtain ⟨inner, rfl⟩ := List.head?_eq_some_iff.mp hbrace
    split
    · rfl
    · rename_i k _
      have hinner : (((('{' :: inner).drop 1).take (k - 2))).length < cs.length :=
        Nat.lt_of_le_of_lt (List.length_take_le' _ _) hle
      refine orFail_bind_congr fun es hes => ?_
      rw [handlers_congr (agree_values h hinner hes)]
  · rw [bindClause_congr (h.mono hle)]

theorem bindStatement_congr (h : AgreeBelow cs.length read read') (target : Selector) :
    bindStatement read target offset cs = bindStatement read' target offset cs := by
  induction hlength : cs.length using Nat.strong_induction_on generalizing cs offset target with
  | _ length ih =>
    cases cs with
    | nil => rw [bindStatement, bindStatement]
    | cons c rest =>
      have hlater (m : Nat) (other : Selector) (start : Nat) :
          bindStatement read other start (rest.drop (m - 1)) =
            bindStatement read' other start (rest.drop (m - 1)) :=
        ih _ (by simp at hlength ⊢; omega) (h.mono (by simp; omega)) other rfl
      rw [bindStatement, bindStatement, bindTail_congr h]
      simp only [hlater]

/-! ## Steps -/

theorem arrowStep_congr (h : AgreeBelow cs.length read read') (hne : cs ≠ []) (d : Draft) :
    arrowStep read d offset cs = arrowStep read' d offset cs := by
  unfold arrowStep
  simp only [listenBlock_congr h (length_inner_lt hne _ _),
    delegateBlock_congr h (length_inner_lt hne _ _)]

theorem bindStep_congr (h : AgreeBelow cs.length read read') (d : Draft) :
    bindStep read d offset cs = bindStep read' d offset cs := by
  unfold bindStep
  simp only [bindStatement_congr h]

theorem wordStep_congr (h : AgreeBelow cs.length read read') (hne : cs ≠ []) (d : Draft) :
    wordStep read d offset cs = wordStep read' d offset cs := by
  unfold wordStep
  simp only [animation_congr h (length_inner_lt hne _ _)]

theorem step_congr (h : AgreeBelow cs.length read read') (hne : cs ≠ []) (d : Draft)
    (before : Option Char) : step read d before offset cs = step read' d before offset cs := by
  unfold step
  rw [bindStep_congr h, arrowStep_congr h hne, wordStep_congr h hne]

/-- What is read from a text depends on the reader of inner scripts for shorter texts only. -/
theorem itemsFrom_congr (h : AgreeBelow cs.length read read') (d : Draft) (before : Option Char) :
    itemsFrom read d before offset cs = itemsFrom read' d before offset cs := by
  induction hlength : cs.length using Nat.strong_induction_on generalizing cs offset before d with
  | _ length ih =>
    cases cs with
    | nil => rw [itemsFrom, itemsFrom]
    | cons c rest =>
      rw [itemsFrom, itemsFrom, step_congr h (List.cons_ne_nil c rest)]
      refine bind_congr fun r => ?_
      exact ih _ (by simp at hlength ⊢; omega) (h.mono (by simp; omega)) _ _ rfl

end

/-- Every depth above the length of a script reads the same. -/
theorem itemsWithin_congr {m n : Nat} (offset : Nat) {cs : List Char} (hm : cs.length < m)
    (hn : cs.length < n) : itemsWithin m offset cs = itemsWithin n offset cs := by
  induction m generalizing n offset cs with
  | zero => exact absurd hm (Nat.not_lt_zero _)
  | succ m ih =>
    cases n with
    | zero => exact absurd hn (Nat.not_lt_zero _)
    | succ n =>
      refine itemsFrom_congr (fun offset inner hinner => ?_) {} none
      exact ih offset (by omega) (by omega)

end Chtl.Script
