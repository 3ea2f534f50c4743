import Chtl.Proofs.Extension.Pass
import Chtl.Proofs.Fragment.Tiling

/-!
# Where the characters of a changed script come from

Extensions change a script step by step, and each error is placed in the script as it has become by
then. Here every character carries the offset at which it stood in the script as it was given, if it
did. What has stood there is still in order, so the place of an error can be compared with the place
of its occurrence: they agree exactly if the extensions put in as much as they took out, in front of
the occurrence and inside it.
-/

set_option autoImplicit false
set_option linter.all false

namespace Chtl.Extension

open Text
open scoped List

/-- A character of a script that extensions change. The origin is its offset in the script as it was
given; a character that an extension put in has none. -/
structure Traced where
  char : Char
  origin : Option Nat
  deriving DecidableEq

def chars (cs : List Traced) : List Char := cs.map (·.char)

/-- A script as it is given, from an offset on. -/
def given (offset : Nat) : List Char → List Traced
  | [] => []
  | c :: cs => ⟨c, some offset⟩ :: given (offset + c.utf8Size) cs

/-- A text that an extension puts in. -/
def broughtIn (cs : List Char) : List Traced := cs.map (⟨·, none⟩)

/-- What has stood in the script as it was given. -/
def kept (cs : List Traced) : List Traced := cs.filter (·.origin.isSome)

/-- What extensions have put in. -/
def gained (cs : List Traced) : List Char := chars (cs.filter (·.origin.isNone))

/-- What extensions have taken out of a stretch of the script. -/
def lost (offset : Nat) (cs : List Char) (now : List Traced) : List Char :=
  chars ((given offset cs).filter fun m => !now.contains m)

section

variable (as bs : List Traced) (offset : Nat) (cs ds : List Char)

@[simp] theorem chars_append : chars (as ++ bs) = chars as ++ chars bs := List.map_append

@[simp] theorem kept_append : kept (as ++ bs) = kept as ++ kept bs := List.filter_append ..

@[simp] theorem chars_given : chars (given offset cs) = cs := by
  induction cs generalizing offset with
  | nil => rfl
  | cons c cs ih => exact congrArg (c :: ·) (ih _)

@[simp] theorem chars_broughtIn : chars (broughtIn cs) = cs := by
  simp [chars, broughtIn, Function.comp_def]

@[simp] theorem kept_given : kept (given offset cs) = given offset cs := by
  induction cs generalizing offset with
  | nil => rfl
  | cons c cs ih => exact congrArg (⟨c, some offset⟩ :: ·) (ih _)

@[simp] theorem kept_broughtIn : kept (broughtIn cs) = [] := by
  simp [kept, broughtIn]

theorem given_append :
    given offset (cs ++ ds) = given offset cs ++ given (offset + size cs) ds := by
  induction cs generalizing offset with
  | nil => rfl
  | cons c cs ih => simp [given, ih, Nat.add_assoc]

/-- A character of the script has what stands before it as its origin. -/
theorem mem_given {m : Traced} : m ∈ given offset cs ↔
    ∃ before c after, cs = before ++ c :: after ∧ m = ⟨c, some (offset + size before)⟩ := by
  constructor
  · intro h
    induction cs generalizing offset with
    | nil => cases h
    | cons c cs ih =>
      rcases List.mem_cons.mp h with rfl | h
      · exact ⟨[], c, cs, rfl, rfl⟩
      · obtain ⟨before, d, after, rfl, rfl⟩ := ih _ h
        exact ⟨c :: before, d, after, rfl, by rw [size_cons, Nat.add_assoc]⟩
  · rintro ⟨before, c, after, rfl, rfl⟩
    rw [given_append]
    exact List.mem_append_right _ List.mem_cons_self

theorem nodup_given : (given offset cs).Nodup := by
  induction cs generalizing offset with
  | nil => exact List.nodup_nil
  | cons c cs ih =>
    refine List.nodup_cons.mpr ⟨fun h => ?_, ih _⟩
    obtain ⟨before, d, after, -, hm⟩ := (mem_given _ _).mp h
    have := c.utf8Size_pos
    simp only [Traced.mk.injEq, Option.some.injEq] at hm
    omega

theorem size_chars_eq : size (chars as) = size (chars (kept as)) + size (gained as) := by
  induction as with
  | nil => rfl
  | cons m as ih =>
    obtain ⟨c, origin⟩ := m
    simp only [chars, kept, gained] at ih
    cases origin <;> simp [chars, kept, gained] <;> omega

end

/-- What is left of a list without duplicates, and what is not, make up its characters. -/
theorem size_of_sublist {now all : List Traced} (h : now <+ all) (hnodup : all.Nodup) :
    size (chars all) = size (chars now) + size (chars (all.filter fun m => !now.contains m)) := by
  induction h with
  | slnil => rfl
  | cons m hsub ih =>
    obtain ⟨hnot, hnodup⟩ := List.nodup_cons.mp hnodup
    rw [List.filter_cons_of_pos (by simpa using fun hm => hnot (hsub.subset hm))]
    have := ih hnodup
    simp only [chars, List.map_cons, size_cons] at this ⊢
    omega
  | cons_cons m hsub ih =>
    rename_i as bs
    obtain ⟨hnot, hnodup⟩ := List.nodup_cons.mp hnodup
    have hfilter : bs.filter (fun n => !(m :: as).contains n) =
        bs.filter fun n => !as.contains n := by
      refine List.filter_congr fun n hn => ?_
      have hne : n ≠ m := fun heq => hnot (heq ▸ hn)
      simp [hne]
    rw [List.filter_cons_of_neg (by simp), hfilter]
    have := ih hnodup
    simp only [chars, List.map_cons, size_cons] at this ⊢
    omega

/-- What has stood in a stretch of the script is still there or was taken out. -/
theorem size_of_kept {now : List Traced} {offset : Nat} {cs : List Char}
    (h : kept now <+ given offset cs) :
    size cs = size (chars (kept now)) + size (lost offset cs now) := by
  have hfilter : (given offset cs).filter (fun m => !now.contains m) =
      (given offset cs).filter fun m => !(kept now).contains m := by
    refine List.filter_congr fun m hm => ?_
    obtain ⟨before, c, after, -, rfl⟩ := (mem_given _ _).mp hm
    simp [kept]
  have hsize := size_of_sublist h (nodup_given _ _)
  rwa [chars_given, ← hfilter] at hsize

/-- A stretch of the script has kept its size exactly if as much was put in as was taken out. -/
theorem size_eq_iff {now : List Traced} {offset : Nat} {cs : List Char}
    (h : kept now <+ given offset cs) :
    size (chars now) = size cs ↔ size (gained now) = size (lost offset cs now) := by
  rw [size_chars_eq, size_of_kept h]
  omega

/-- A part of a list without duplicates, cut at one of its entries, is made up of parts on both
sides of that entry. -/
theorem sublists_of_nodup {α : Type} {a : α} {as bs us vs : List α}
    (hnodup : (us ++ a :: vs).Nodup) (h : as ++ a :: bs <+ us ++ a :: vs) :
    as <+ us ∧ bs <+ vs := by
  obtain ⟨us', rest, hcut, has, hrest⟩ := List.append_sublist_iff.mp h
  obtain ⟨first, vs', rfl, hmem, hbs⟩ := List.cons_sublist_iff.mp hrest
  obtain ⟨before, after, rfl⟩ := List.append_of_mem hmem
  have hnot := (List.nodup_cons.mp (List.nodup_middle.mp hnodup)).1
  rw [List.mem_append, not_or] at hnot
  have hends : us ++ a :: vs = (us' ++ before) ++ a :: (after ++ vs') := by simpa using hcut
  obtain ⟨rfl, -, rfl⟩ := (List.append_cons_inj_of_notMem hnot.1 hnot.2).mp hends
  exact ⟨has.trans (List.sublist_append_left _ _), hbs.trans (List.sublist_append_right _ _)⟩

/-! ## The steps of extensions -/

/-- The fault of an extension with what stands in front of the occurrence, and the occurrence. -/
structure Failure where
  error : ExtensionError
  front : List Traced
  occurrence : List Traced
  deriving DecidableEq

/-- The pass of an extension over what stands ahead, behind what it has gone over. -/
def trace (x : Extension) (base : Nat) (front ahead : List Traced) :
    Except Failure (List Traced) :=
  match ahead with
  | [] => .ok front
  | m :: rest =>
    match occurrence? x.keyword.toList (chars (m :: rest)) with
    | none => .ok (front ++ m :: rest)
    | some o =>
      let front := front ++ (m :: rest).take o.before.length
      match x.expand o with
      | .error reason =>
        let start := base + size (chars front)
        .error ⟨⟨x.keyword, reason, ⟨start, start + size o.text⟩⟩, front,
          ((m :: rest).drop o.before.length).take o.text.length⟩
      | .ok expansion =>
        x.trace base (front ++ broughtIn expansion.toList) (rest.drop (o.length - 1))
termination_by ahead.length
decreasing_by simp only [List.length_cons, List.length_drop]; omega

section

variable {x : Extension} {base : Nat} {front : List Traced}

theorem trace_none {ahead : List Traced} (h : occurrence? x.keyword.toList (chars ahead) = none) :
    x.trace base front ahead = .ok (front ++ ahead) := by
  cases ahead with
  | nil => rw [trace, List.append_nil]
  | cons m ahead => rw [trace, h]

theorem trace_some {before text rest : List Traced} {body : List Char} (hne : chars text ≠ [])
    (h : occurrence? x.keyword.toList (chars (before ++ (text ++ rest))) =
      some ⟨chars before, chars text, body⟩) :
    x.trace base front (before ++ (text ++ rest)) =
      match x.expand ⟨chars before, chars text, body⟩ with
      | .error reason =>
        .error ⟨⟨x.keyword, reason, ⟨base + size (chars (front ++ before)),
          base + size (chars (front ++ before)) + size (chars text)⟩⟩, front ++ before, text⟩
      | .ok expansion => x.trace base (front ++ before ++ broughtIn expansion.toList) rest := by
  have hbefore : (chars before).length = before.length := List.length_map _
  have htext : (chars text).length = text.length := List.length_map _
  cases hcs : before ++ (text ++ rest) with
  | nil =>
    simp only [List.append_eq_nil_iff] at hcs
    exact absurd (congrArg chars hcs.2.1) hne
  | cons m more =>
    have hrest := drop_of_append_eq_cons (fun hnil => hne (congrArg chars hnil)) hcs
    rw [hcs] at h
    rw [trace, h]
    simp only [hbefore, htext, hrest, Occurrence.length, ← hcs, List.take_left, List.drop_left]

/-- The occurrences in a script are stretches of it as it is traced. -/
theorem trace_induction {motive : List Traced → Prop} (keyword : List Char)
    (clear : ∀ cs, occurrence? keyword (chars cs) = none → motive cs)
    (found : ∀ before text rest body,
      Occurrence.Written keyword ⟨chars before, chars text, body⟩ →
      occurrence? keyword (chars (before ++ (text ++ rest))) =
        some ⟨chars before, chars text, body⟩ →
      motive rest → motive (before ++ (text ++ rest)))
    (cs : List Traced) : motive cs := by
  induction hcs : chars cs using occurrence_induction keyword generalizing cs with
  | clear _ hnone => exact clear cs (hcs ▸ hnone)
  | found o rest hwritten hsome ih =>
    obtain ⟨before, more, rfl, hbefore, hmore⟩ := List.map_eq_append_iff.mp hcs
    obtain ⟨text, rest, rfl, htext, rfl⟩ := List.map_eq_append_iff.mp hmore
    obtain ⟨_, _, body⟩ := o
    dsimp only at hbefore htext
    subst hbefore htext
    exact found before text rest body hwritten (hcs ▸ hsome) (ih rest rfl)

/-- A run without the origins. -/
def erased (run : Except Failure (List Traced)) : Except ExtensionError (List Char) :=
  (run.map chars).mapError (·.error)

theorem erased_eq_error_iff {run : Except Failure (List Traced)} {e : ExtensionError} :
    erased run = .error e ↔ ∃ f, run = .error f ∧ f.error = e := by
  cases run <;> simp [erased, Except.map]

theorem erased_trace (ahead : List Traced) :
    erased (x.trace base front ahead) =
      (x.expandFrom (base + size (chars front)) (chars ahead)).map (chars front ++ ·) := by
  induction ahead using trace_induction x.keyword.toList generalizing front with
  | clear cs hnone =>
    rw [trace_none hnone, expandFrom_none hnone]
    simp [erased, Except.map]
  | found before text rest body hwritten hsome ih =>
    have hchars : chars (before ++ (text ++ rest)) =
        chars before ++ (chars text ++ chars rest) := by
      rw [chars_append, chars_append]
    rw [trace_some hwritten.ne_nil hsome, hchars, expandFrom_some hwritten.ne_nil (hchars ▸ hsome)]
    cases x.expand ⟨chars before, chars text, body⟩ with
    | error reason =>
      have hspan : (⟨base + size (chars (front ++ before)),
          base + size (chars (front ++ before)) + size (chars text)⟩ : Span) =
          (Occurrence.mk (chars before) (chars text) body).range.shift
            (base + size (chars front)) := by
        simp only [Occurrence.range, Span.shift, chars_append, size_append, Span.mk.injEq]
        omega
      dsimp only
      rw [hspan]
      rfl
    | ok expansion =>
      dsimp only
      rw [ih]
      simp only [chars_append, chars_broughtIn, size_append, Nat.add_assoc]
      cases x.expandFrom _ (chars rest) <;> simp [Except.map]

/-- What is known of a failure: what stands in front of the occurrence and in it has kept the order
of the script, the span is that of the occurrence in the script as it has become, and the occurrence
is written with the keyword of the extension that refused it. -/
structure Failure.Follows (entries : List Extension) (text : List Char) (base : Nat) (f : Failure) :
    Prop where
  order : kept (f.front ++ f.occurrence) <+ given 0 text
  span : f.error.span = ⟨base + size (chars f.front),
    base + size (chars f.front) + size (chars f.occurrence)⟩
  refused : ∃ x ∈ entries, ∃ o : Occurrence, x.keyword = f.error.keyword ∧
    x.expand o = .error f.error.reason ∧ o.Written x.keyword.toList ∧ o.text = chars f.occurrence

/-- What stands in the script while it is changed has kept the order of the script. -/
def Follows (entries : List Extension) (text : List Char) (base : Nat) :
    Except Failure (List Traced) → Prop
  | .ok cs => kept cs <+ given 0 text
  | .error f => f.Follows entries text base

theorem follows_trace {entries : List Extension} {text : List Char} {ahead : List Traced}
    (hx : x ∈ entries) (h : kept (front ++ ahead) <+ given 0 text) :
    Follows entries text base (x.trace base front ahead) := by
  induction ahead using trace_induction x.keyword.toList generalizing front with
  | clear cs hnone =>
    rw [trace_none hnone]
    exact h
  | found before occurrence rest body hwritten hsome ih =>
    rw [trace_some hwritten.ne_nil hsome]
    have hfront : kept (front ++ before ++ occurrence) <+ given 0 text := by
      refine .trans ?_ h
      simp only [kept_append, ← List.append_assoc]
      exact List.sublist_append_left _ _
    cases hexpand : x.expand ⟨chars before, chars occurrence, body⟩ with
    | error reason => exact ⟨hfront, rfl, x, hx, _, rfl, hexpand, hwritten, rfl⟩
    | ok expansion =>
      refine ih (.trans ?_ h)
      simp only [kept_append, kept_broughtIn, List.append_nil, ← List.append_assoc]
      exact (List.sublist_append_left _ _).append_right _

end

/-! ## Occurrences in the script as it was given -/

section

variable {offset : Nat} {cs : List Char}

/-- A character of the script cuts it, and what has stood on both sides of it is on those sides. -/
theorem exists_cut {as bs : List Traced} {m : Traced} (h : as ++ m :: bs <+ given offset cs) :
    ∃ before c after, cs = before ++ c :: after ∧ m = ⟨c, some (offset + size before)⟩ ∧
      as <+ given offset before ∧ bs <+ given (offset + size before + c.utf8Size) after := by
  have hmem : m ∈ given offset cs :=
    h.subset (List.mem_append_right _ List.mem_cons_self)
  obtain ⟨before, c, after, rfl, rfl⟩ := (mem_given _ _).mp hmem
  have hnodup := nodup_given offset (before ++ c :: after)
  rw [given_append, given] at h hnodup
  exact ⟨before, c, after, rfl, rfl, sublists_of_nodup hnodup h⟩

/-- A text that has stood from the front of the script on, each character at its place, is what the
script begins with. -/
theorem prefix_of_given {word : List Char} (h : given offset word <+ given offset cs) :
    word <+: cs := by
  induction word generalizing offset cs with
  | nil => exact List.nil_prefix
  | cons c word ih =>
    have hfirst : [] ++ ⟨c, some offset⟩ :: given (offset + c.utf8Size) word <+ given offset cs := h
    obtain ⟨before, d, after, rfl, hm, -, hword⟩ := exists_cut hfirst
    simp only [Traced.mk.injEq, Option.some.injEq] at hm
    obtain ⟨rfl, hoffset⟩ := hm
    obtain rfl : before = [] := by
      by_contra hne
      have := size_pos hne
      omega
    exact List.cons_prefix_cons.mpr ⟨rfl, ih hword⟩

end

/-- The keyword of the occurrence and the bracket that closes it stand in the script as it was
given, from the start of the span on and at its end. -/
def Failure.StandsAt (f : Failure) (span : Span) : Prop :=
  ∃ middle right close, f.occurrence =
      given span.start f.error.keyword.toList ++ (middle ++ [⟨right, some close⟩]) ∧
    span.stop = close + 1

theorem Occurrence.Written.getLast {keyword : List Char} {o : Occurrence} (h : o.Written keyword) :
    ∃ right ∈ [')', '\x7d'], o.text.getLast? = some right := by
  obtain ⟨-, blanks, left, right, hkind, htext⟩ := h
  refine ⟨right, ?_, ?_⟩
  · rcases List.mem_pair.mp hkind with heq | heq <;> cases heq <;> simp
  · rw [htext, ← List.cons_append, ← List.append_assoc, ← List.append_assoc, List.getLast?_concat]

/-- The stretch of the script at which the occurrence of a failure stood. -/
theorem Failure.Follows.exists_stretch {entries : List Extension} {text : List Char} {base : Nat}
    {f : Failure} {span : Span} (h : f.Follows entries text base) (hstands : f.StandsAt span) :
    ∃ before inner right after,
      text = before ++ ((f.error.keyword.toList ++ (inner ++ [right])) ++ after) ∧
      right ∈ [')', '\x7d'] ∧
      span = ⟨size before, size before + size (f.error.keyword.toList ++ (inner ++ [right]))⟩ ∧
      kept f.front <+ given 0 before ∧
      kept f.occurrence <+ given (size before) (f.error.keyword.toList ++ (inner ++ [right])) := by
  obtain ⟨x, -, o, hkeyword, -, hwritten, htext⟩ := h.refused
  rw [hkeyword] at hwritten
  obtain ⟨middle, right, close, hoccurrence, hstop⟩ := hstands
  obtain ⟨right', hright, hlast⟩ := hwritten.getLast
  obtain rfl : right = right' := by
    rw [htext, hoccurrence, chars_append, chars_append, ← List.append_assoc] at hlast
    exact Option.some.inj (List.getLast?_concat.symm.trans hlast)
  have hkept : kept f.occurrence = given span.start f.error.keyword.toList ++
      (kept middle ++ [⟨right, some close⟩]) := by
    rw [hoccurrence, kept_append, kept_given, kept_append]
    rfl
  have horder := h.order
  rw [kept_append, hkept] at horder
  -- The first letter of the keyword cuts the script, and the closing bracket what is behind.
  obtain ⟨k, word, hword⟩ := List.exists_cons_of_ne_nil hwritten.1
  rw [hword, given] at horder
  obtain ⟨before, c, behind, rfl, hm, hfront, hbehind⟩ := exists_cut horder
  simp only [Traced.mk.injEq, Option.some.injEq, Nat.zero_add] at hm
  obtain ⟨rfl, hstart⟩ := hm
  have hstretch : (given (size before) (k :: word) ++ kept middle) ++ [⟨right, some close⟩] <+
      given (size before) (k :: behind) := by
    rw [Nat.zero_add, ← hstart] at hbehind
    simpa [given, ← hstart] using hbehind
  obtain ⟨stretch, d, after, hcut, hm, hinner, -⟩ := exists_cut hstretch
  simp only [Traced.mk.injEq, Option.some.injEq] at hm
  obtain ⟨rfl, hclose⟩ := hm
  obtain ⟨inner, rfl⟩ := prefix_of_given ((List.sublist_append_left _ _).trans hinner)
  have hone : right.utf8Size = 1 := by
    rcases List.mem_pair.mp hright with rfl | rfl <;> rfl
  rw [hkept, hword, hstart]
  refine ⟨before, inner, right, after, ?_, hright, ?_, hfront, ?_⟩
  · rw [hcut]
    simp
  · obtain ⟨start, stop⟩ := span
    simp only [size_append, size_cons, size_nil, Span.mk.injEq] at hstart hstop hclose ⊢
    omega
  · rw [← List.append_assoc, ← List.append_assoc, given_append]
    refine hinner.append ?_
    rw [hclose]
    exact List.Sublist.refl _

end Chtl.Extension

namespace Chtl.Extensions

open Text Extension
open scoped List

/-- Extensions expand a script with the origins of its characters. -/
def trace (r : Extensions) (script : List Char) (base : Nat) : Except Failure (List Traced) :=
  r.entries.foldlM (fun cs x => x.trace base [] cs) (given 0 script)

theorem erased_foldlM (entries : List Extension) (base : Nat) (cs : List Traced) :
    erased (entries.foldlM (fun cs x => x.trace base [] cs) cs) =
      entries.foldlM (fun text x => x.expandFrom base text) (chars cs) := by
  induction entries generalizing cs with
  | nil => rfl
  | cons x entries ih =>
    have hstep : erased (x.trace base [] cs) = x.expandFrom base (chars cs) := by
      rw [Extension.erased_trace]
      change (x.expandFrom base (chars cs)).map ([] ++ ·) = _
      cases x.expandFrom base (chars cs) <;> rfl
    rw [List.foldlM_cons, List.foldlM_cons, ← hstep]
    cases x.trace base [] cs with
    | error f => rfl
    | ok more => exact ih more

theorem erased_trace (r : Extensions) (script : List Char) (base : Nat) :
    erased (r.trace script base) = r.apply script base := by
  rw [trace, erased_foldlM, chars_given, apply]

theorem follows_foldlM {entries more : List Extension} {script : List Char} {base : Nat}
    {cs : List Traced} (hmore : more ⊆ entries) (h : kept cs <+ given 0 script) :
    Follows entries script base (more.foldlM (fun cs x => x.trace base [] cs) cs) := by
  induction more generalizing cs with
  | nil => exact h
  | cons x more ih =>
    obtain ⟨hx, hmore⟩ := List.cons_subset.mp hmore
    have hstep : Follows entries script base (x.trace base [] cs) := Extension.follows_trace hx h
    rw [List.foldlM_cons]
    cases hpass : x.trace base [] cs with
    | error f =>
      rw [hpass] at hstep
      exact hstep
    | ok passed =>
      rw [hpass] at hstep
      exact ih hmore hstep

theorem follows_trace (r : Extensions) (script : List Char) (base : Nat) :
    Follows r.entries script base (r.trace script base) :=
  follows_foldlM (List.Subset.refl _) (by rw [kept_given])

/-- An error has the place of its occurrence in the script as it was given exactly if the extensions
put in as much as they took out, in front of the occurrence and inside it. The occurrence has a
place there if its keyword and its closing bracket stood in the script; that stretch of the script
begins with the keyword and ends with the bracket. -/
theorem apply_points_iff {r : Extensions} {script : List Char} {base : Nat} {e : ExtensionError}
    (h : r.apply script base = .error e) :
    ∃ f, r.trace script base = .error f ∧ f.error = e ∧
      (∃ x ∈ r.entries, ∃ o : Occurrence, x.keyword = e.keyword ∧
        x.expand o = .error e.reason ∧ o.Written x.keyword.toList ∧
        o.text = chars f.occurrence) ∧
      ∀ span, f.StandsAt span → ∃ before occurrence after,
        script = before ++ (occurrence ++ after) ∧
        span = ⟨Text.size before, Text.size before + Text.size occurrence⟩ ∧
        (∃ inner, ∃ right ∈ [')', '\x7d'], occurrence = e.keyword.toList ++ (inner ++ [right])) ∧
        kept f.occurrence <+ given (Text.size before) occurrence ∧
        (e.span = span.shift base ↔
          Text.size (gained f.front) = Text.size (lost 0 before f.front) ∧
          Text.size (gained f.occurrence) =
            Text.size (lost (Text.size before) occurrence f.occurrence)) := by
  rw [← erased_trace, erased_eq_error_iff] at h
  obtain ⟨f, hfail, rfl⟩ := h
  have hfollows : f.Follows r.entries script base := by
    have hrun := follows_trace r script base
    rwa [hfail] at hrun
  refine ⟨f, hfail, rfl, hfollows.refused, fun span hstands => ?_⟩
  obtain ⟨before, inner, right, after, htext, hright, hspan, hfront, hinner⟩ :=
    hfollows.exists_stretch hstands
  refine ⟨before, _, after, htext, hspan, ⟨inner, right, hright, rfl⟩, hinner, ?_⟩
  rw [← size_eq_iff hfront, ← size_eq_iff hinner, hfollows.span, hspan]
  simp only [Span.shift, Span.mk.injEq]
  omega

/-- An extension with one argument. -/
def logging : Extension where
  keyword := "log"
  expand o := match o.args with
    | [value] => .ok ("console.log(" ++ String.ofList value ++ ")")
    | args => .error ("expected 1 arguments, got " ++ toString args.length)

/-- An extension whose text is as long as an occurrence without arguments. -/
def stamping : Extension where
  keyword := "now"
  expand _ := .ok "'now'"

/-- Behind a text that is as long as its occurrence an error has the place of its own occurrence. -/
theorem apply_points_iff_same_size :
    apply ⟨[stamping, logging]⟩ "now(); log()".toList 100 =
        .error ⟨"log", "expected 1 arguments, got 0", (⟨7, 12⟩ : Span).shift 100⟩ ∧
      ∃ f, trace ⟨[stamping, logging]⟩ "now(); log()".toList 100 = .error f ∧ f.StandsAt ⟨7, 12⟩ ∧
        ∃ before occurrence after, "now(); log()".toList = before ++ (occurrence ++ after) ∧
          Text.size before = 7 ∧
          Text.size (gained f.front) = Text.size (lost 0 before f.front) := by
  have htrace : trace ⟨[stamping, logging]⟩ "now(); log()".toList 100 =
      .error ⟨⟨"log", "expected 1 arguments, got 0", (⟨7, 12⟩ : Span).shift 100⟩,
        broughtIn "'now'".toList ++ given 5 "; ".toList, given 7 "log()".toList⟩ := by
    decide +kernel
  have happly : apply ⟨[stamping, logging]⟩ "now(); log()".toList 100 =
      .error ⟨"log", "expected 1 arguments, got 0", (⟨7, 12⟩ : Span).shift 100⟩ := by
    rw [← erased_trace, htrace]
    rfl
  obtain ⟨f, hf, -, -, hplaces⟩ := apply_points_iff happly
  have hstands : f.StandsAt ⟨7, 12⟩ := by
    cases htrace.symm.trans hf
    exact ⟨given 10 ['('], ')', 11, rfl, rfl⟩
  obtain ⟨before, occurrence, after, hscript, hspan, -, -, hiff⟩ := hplaces _ hstands
  exact ⟨happly, f, hf, hstands, before, occurrence, after, hscript,
    (congrArg Span.start hspan).symm, (hiff.mp rfl).1⟩

/-- Behind a text that is longer than its occurrence an error lies past the end of the script. -/
theorem apply_points_behind_script :
    apply ⟨[logging]⟩ "log(1); log()".toList 0 =
        .error ⟨"log", "expected 1 arguments, got 0", ⟨16, 21⟩⟩ ∧
      (∃ f, trace ⟨[logging]⟩ "log(1); log()".toList 0 = .error f ∧
        f.occurrence = given 8 "log()".toList ∧ f.StandsAt ⟨8, 13⟩) ∧
      Occupies "log(1); log()".toList "log()".toList ⟨8, 13⟩ ∧
      Text.size "log(1); log()".toList = 13 := by
  have htrace : trace ⟨[logging]⟩ "log(1); log()".toList 0 =
      .error ⟨⟨"log", "expected 1 arguments, got 0", ⟨16, 21⟩⟩,
        broughtIn "console.log(1)".toList ++ given 6 "; ".toList, given 8 "log()".toList⟩ := by
    decide +kernel
  have happly : apply ⟨[logging]⟩ "log(1); log()".toList 0 =
      .error ⟨"log", "expected 1 arguments, got 0", ⟨16, 21⟩⟩ := by
    rw [← erased_trace, htrace]
    rfl
  refine ⟨happly, ⟨_, htrace, rfl, given 11 ['('], ')', 12, rfl, rfl⟩, ?_, rfl⟩
  exact ⟨"log(1); ".toList, [], rfl, rfl, rfl⟩

end Chtl.Extensions
