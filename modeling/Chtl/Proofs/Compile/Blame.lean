import Chtl.Proofs.Compile.Parts
import Chtl.Proofs.Html.Faults
import Chtl.Proofs.Markup.Building
import Chtl.Proofs.Script.Spans

/-!
# Where a compilation fails

A fault is reported with the fragment it lies in. Main statement: the fragment is the right one as
long as the fault lies in the source at all. Only the faults of expressions may end behind it, for
their offsets are counted in the text that was read, in which placeholders stand for blocks and
values for variables.
-/

set_option autoImplicit false
set_option linter.all false

namespace Chtl

open Text

/-- The fragment to blame for an offset: the offset is in its range, or it is the end of the source
and the fragment the last one. -/
def Scanned.Bears (s : Scanned) (range : Span) (offset : Nat) : Prop :=
  range.contains offset = true ∨
    offset = s.sourceSize ∧ s.fragments.getLast?.map (·.range) = some range

/-- A fault lies in the source, and its range is that of the fragment to blame. -/
def Scanned.Locates (s : Scanned) (range : Span) (cause : FragmentFault) : Prop :=
  cause.span.Within s.sourceSize ∧ s.Bears range cause.span.start

/-- Faults whose offsets are counted in the text of an expression. -/
def FragmentFault.inExpression : FragmentFault → Bool
  | .eval _ | .markup (.malformedCondition (.malformed _) _) => true
  | _ => false

/-- Where the cause of a fault stands in a unit: no span is turned around, and it lies in the source
unless it is counted in an expression that was not read as it was written. -/
structure FragmentFault.Placed (source : List Char) (unit : Scanned) (cause : FragmentFault) :
    Prop where
  ordered : cause.span.start ≤ cause.span.stop
  other : cause.inExpression = false → cause.span.stop ≤ size source
  plain : unit.AsWritten source → cause.span.stop ≤ size source

theorem FragmentFault.Placed.of_within {source : List Char} {unit : Scanned} {cause : FragmentFault}
    (h : cause.span.Within (size source)) : cause.Placed source unit :=
  ⟨h.1, fun _ => h.2, fun _ => h.2⟩

/-! ## Blame -/

namespace Scanned

variable {source : List Char} {scanned : Scanned}

/-- A fault in the source is put on the fragment to blame for its start. -/
theorem locates_of_blame (hs : scan source = .ok scanned) (hne : scanned.fragments ≠ [])
    {cause cause' : FragmentFault} {range : Span} {kind : FragmentKind}
    (hblame : scanned.blame cause' = .fragment range kind cause)
    (hwithin : cause.span.Within (size source)) : scanned.Locates range cause := by
  have hsize := sourceSize_of_scan hs
  obtain rfl : cause' = cause := by
    unfold blame at hblame
    split at hblame <;> cases hblame <;> rfl
  obtain ⟨f, -, hfind, hbears⟩ := find?_reverse_of_consecutive (consecutive_of_scan hs) hne
    (Nat.zero_le cause'.span.start) (Nat.le_trans hwithin.1 hwithin.2)
  rw [blame, fragmentAt?, hfind] at hblame
  cases hblame
  refine ⟨hsize ▸ hwithin, hbears.imp_right ?_⟩
  rintro ⟨hend, hlast⟩
  exact ⟨hsize ▸ hend, by rw [hlast]; rfl⟩

/-- A stretch of the interior of a block lies in its fragment. -/
theorem locates_of_body (hs : scan source = .ok scanned) {f : Fragment} (hf : f ∈ scanned.fragments)
    (hkind : f.kind ≠ .markup) {cause : FragmentFault}
    (hspan : cause.span.Between f.bodyRange.start (f.bodyRange.start + size f.text.toList)) :
    scanned.Locates f.range cause := by
  have hat := at_of_scan hs hf
  rw [if_neg hkind] at hat
  obtain ⟨opening, -, -, hstart, hstop, before, after, -, hbody, hbody'⟩ := hat
  have hwithin := (consecutive_of_scan hs).range_within hf
  obtain ⟨hlow, hle, hhigh⟩ := hspan
  obtain ⟨-, hrange⟩ := hwithin
  refine ⟨⟨hle, ?_⟩, .inl ?_⟩
  · rw [sourceSize_of_scan hs]
    omega
  · simp only [Span.contains, Bool.and_eq_true, decide_eq_true_eq]
    omega

end Scanned

/-! ## Stages -/

section

variable {source : List Char} {scanned : Scanned}

theorem ofScanned_nil : Document.ofScanned ⟨[], 0⟩ = .ok {} := by
  have htrivia : Markup.triviaLength [] = 0 := by rw [Markup.triviaLength.eq_def]
  have hskip (s : Markup.Setting) : (Markup.Reader.skipTrivia.run s).run { cursor := { rest := [] } } =
      .ok ((), { cursor := { rest := [] } }) := by
    change Except.ok ((), Markup.Progress.mk
      (Markup.Cursor.advance { rest := [] } (Markup.triviaLength [])) {} 0 []) = _
    rw [htrivia]
    rfl
  have hread (s : Markup.Setting) : ((Markup.rootItems 2 []).run s).run { cursor := { rest := [] } } =
      .ok ([], { cursor := { rest := [] } }) := by
    rw [Markup.rootItems, ReaderT.run_bind, StateT.run_bind, hskip]
    rfl
  unfold Document.ofScanned
  rw [show Scanned.markup ⟨[], 0⟩ = [] from rfl]
  dsimp only [List.length_nil, Nat.mul_zero, Nat.zero_add]
  rw [hread]

/-- A unit without fragments is empty. -/
theorem eq_nil_of_fragments (hs : scan source = .ok scanned) (hempty : scanned.fragments = []) :
    scanned = ⟨[], 0⟩ := by
  have hconsecutive := Scanned.consecutive_of_scan hs
  rw [hempty] at hconsecutive
  have hsize : scanned.sourceSize = 0 := (Scanned.sourceSize_of_scan hs).trans hconsecutive.symm
  cases scanned
  cases hempty
  cases hsize
  rfl

theorem placed_of_markup (hs : scan source = .ok scanned) {e : MarkupError}
    (h : Document.ofScanned scanned = .error e) :
    FragmentFault.Placed source scanned (.markup e) := by
  have hplaced := Document.placed_of_ofScanned hs h
  unfold MarkupError.Placed at hplaced
  split at hplaced
  · exact ⟨hplaced.1, by simp [FragmentFault.inExpression], hplaced.2⟩
  · exact .of_within hplaced

theorem placed_of_generate (hs : scan source = .ok scanned) {d : Document}
    (hd : Document.ofScanned scanned = .ok d) {e : EvalError} (h : d.generate {} = .error e) :
    FragmentFault.Placed source scanned (.eval e) := by
  obtain ⟨hbuilt, -⟩ := Document.built_of_ofScanned hs hd
  have hgood (e : Element) (he : e.Formed (Markup.located source scanned)) :
      e.Evaluated fun s => s.start ≤ s.stop ∧ (scanned.AsWritten source → s.stop ≤ size source) :=
    ⟨⟨he.span.1, fun _ => he.span.2⟩, fun d hd => (he.style d hd).1,
      fun c hc => (he.chains c hc).holds⟩
  obtain ⟨hle, hplain⟩ := Document.span_of_generate hbuilt hgood h
  exact ⟨hle, by simp [FragmentFault.inExpression], hplain⟩

theorem apply_nil (text : List Char) (base : Nat) : ({} : Extensions).apply text base = .ok text :=
  rfl

theorem locates_of_readScripts (hs : scan source = .ok scanned) {bridge : Bridge} {index : Nat}
    {fs : List Fragment} (hfs : ∀ f ∈ fs, f ∈ scanned.fragments) {range : Span}
    {kind : FragmentKind} {cause : FragmentFault}
    (h : readScripts {} bridge index fs = .error (.fragment range kind cause)) :
    scanned.Locates range cause ∧ cause.inExpression = false := by
  induction fs generalizing bridge index with
  | nil => cases h
  | cons f fs ih =>
    obtain ⟨hf, hrest⟩ := List.forall_mem_cons.mp hfs
    rw [readScripts] at h
    split_ifs at h with hkind
    · rcases bind_eq_error_iff.mp h with h | ⟨own, -, h⟩
      · unfold Fragment.readScript at h
        rcases bind_eq_error_iff.mp h with h | ⟨text, htext, h⟩
        · rw [apply_nil] at h
          cases h
        · rw [apply_nil] at htext
          cases htext
          rcases bind_eq_error_iff.mp h with h | ⟨_, _, ⟨⟩⟩
          obtain ⟨e, hparse, he⟩ := mapError_eq_error_iff.mp h
          have hbetween := Script.parse_between f.text.toList f.bodyRange.start
          rw [hparse] at hbetween
          cases he
          exact ⟨Scanned.locates_of_body hs hf (by simp [hkind]) hbetween, rfl⟩
      · rcases bind_eq_error_iff.mp h with h | ⟨_, _, ⟨⟩⟩
        exact ih hrest h
    · exact ih hrest h

/-- A script as it was read from its fragment. -/
def ReadScript.ReadFrom (fs : List Fragment) (s : ReadScript) : Prop :=
  s.fragment ∈ fs ∧ s.fragment.kind = .script ∧
    ∃ declared, Script.parse s.fragment.text.toList s.fragment.bodyRange.start =
      .ok (s.items, declared)

theorem readFrom_of_readScripts {bridge bridge' : Bridge} {index : Nat} {fs : List Fragment}
    {scripts : List ReadScript} (h : readScripts {} bridge index fs = .ok (scripts, bridge')) :
    ∀ s ∈ scripts, s.ReadFrom fs := by
  induction fs generalizing bridge bridge' index scripts with
  | nil =>
    cases h
    simp
  | cons f fs ih =>
    have hmono {s : ReadScript} (hs : s.ReadFrom fs) : s.ReadFrom (f :: fs) :=
      ⟨List.mem_cons_of_mem f hs.1, hs.2⟩
    rw [readScripts] at h
    split_ifs at h with hkind
    · obtain ⟨⟨items, middle⟩, hread, h⟩ := bind_eq_ok_iff.mp h
      obtain ⟨⟨more, last⟩, hmore, h⟩ := bind_eq_ok_iff.mp h
      cases h
      obtain ⟨text, htext, hread⟩ := bind_eq_ok_iff.mp hread
      rw [apply_nil] at htext
      cases htext
      obtain ⟨⟨read, declared⟩, hparse, hread⟩ := bind_eq_ok_iff.mp hread
      cases hread
      refine List.forall_mem_cons.mpr ⟨?_, fun s hs => hmono (ih hmore s hs)⟩
      exact ⟨List.mem_cons_self, hkind, declared, mapError_eq_ok_iff.mp hparse⟩
    · exact fun s hs => hmono (ih h s hs)

theorem locates_of_lowerScripts (hs : scan source = .ok scanned) {facts : Facts}
    {scripts : List ReadScript} (hscripts : ∀ s ∈ scripts, s.ReadFrom scanned.fragments)
    {range : Span} {kind : FragmentKind} {cause : FragmentFault}
    (h : lowerScripts facts scripts = .error (.fragment range kind cause)) :
    scanned.Locates range cause ∧ cause.inExpression = false := by
  induction scripts with
  | nil => cases h
  | cons s scripts ih =>
    obtain ⟨⟨hf, hkind, declared, hparse⟩, hrest⟩ := List.forall_mem_cons.mp hscripts
    rcases bind_eq_error_iff.mp h with h | ⟨code, -, h⟩
    · obtain ⟨e, hlower, he⟩ := mapError_eq_error_iff.mp h
      obtain ⟨sel, hsel, rfl⟩ := Script.misses_of_lowerItems s.items hlower
      have hbetween := Script.parse_between s.fragment.text.toList s.fragment.bodyRange.start
      rw [hparse] at hbetween
      cases he
      exact ⟨Scanned.locates_of_body hs hf (by simp [hkind]) (hbetween sel hsel), rfl⟩
    · rcases bind_eq_error_iff.mp h with h | ⟨_, _, ⟨⟩⟩
      exact ih hrest h

end

/-- What is known of a fault once it has been put on a fragment. -/
structure Scanned.Settles (source : List Char) (scanned : Scanned) (range : Span)
    (cause : FragmentFault) : Prop where
  placed : cause.Placed source scanned
  located : cause.span.stop ≤ size source → scanned.Locates range cause

theorem Scanned.Settles.of_locates {source : List Char} {scanned : Scanned} {range : Span}
    {cause : FragmentFault} (hs : scan source = .ok scanned) (h : scanned.Locates range cause) :
    scanned.Settles source range cause :=
  ⟨.of_within (sourceSize_of_scan hs ▸ h.1), fun _ => h⟩

theorem Scanned.Settles.of_blame {source : List Char} {scanned : Scanned} {range : Span}
    {kind : FragmentKind} {cause cause' : FragmentFault} (hs : scan source = .ok scanned)
    (hne : scanned.fragments ≠ []) (hplaced : cause'.Placed source scanned)
    (h : scanned.blame cause' = .fragment range kind cause) :
    scanned.Settles source range cause := by
  obtain rfl : cause' = cause := by
    unfold blame at h
    split at h <;> cases h <;> rfl
  exact ⟨hplaced, fun hstop => locates_of_blame hs hne h ⟨hplaced.ordered, hstop⟩⟩

theorem settles_of_compileParts {source : List Char} {emitRuntime : Bool} {range : Span}
    {kind : FragmentKind} {cause : FragmentFault}
    (h : compileParts source {} emitRuntime = .error (.fragment range kind cause)) :
    ∃ scanned, scan source = .ok scanned ∧ scanned.Settles source range cause := by
  unfold compileParts at h
  rcases bind_eq_error_iff.mp h with h | ⟨scanned, hs, h⟩
  · obtain ⟨_, -, ⟨⟩⟩ := mapError_eq_error_iff.mp h
  have hs := mapError_eq_ok_iff.mp hs
  refine ⟨scanned, hs, ?_⟩
  rcases bind_eq_error_iff.mp h with h | ⟨document, hd, h⟩
  · obtain ⟨e, hfault, hblame⟩ := mapError_eq_error_iff.mp h
    refine .of_blame hs (fun hempty => ?_) (placed_of_markup hs hfault) hblame
    rw [eq_nil_of_fragments hs hempty, ofScanned_nil] at hfault
    cases hfault
  have hd := mapError_eq_ok_iff.mp hd
  rcases bind_eq_error_iff.mp h with h | ⟨⟨page, bridge⟩, -, h⟩
  · obtain ⟨e, hfault, hblame⟩ := mapError_eq_error_iff.mp h
    refine .of_blame hs (fun hempty => ?_) (placed_of_generate hs hd hfault) hblame
    rw [eq_nil_of_fragments hs hempty, ofScanned_nil] at hd
    cases hd
    cases hfault
  rcases bind_eq_error_iff.mp h with h | ⟨⟨scripts, bridge'⟩, hscripts, h⟩
  · exact .of_locates hs (locates_of_readScripts hs (fun f hf => hf) h).1
  rcases bind_eq_error_iff.mp h with h | ⟨lowered, -, h⟩
  · exact .of_locates hs (locates_of_lowerScripts hs (readFrom_of_readScripts hscripts) h).1
  rcases bind_eq_error_iff.mp h with h | ⟨_, _, ⟨⟩⟩
  obtain ⟨_, -, ⟨⟩⟩ := mapError_eq_error_iff.mp h

/-- Where a failed compilation puts a fault. Its fragment is the one that the fault lies in, exactly
if the fault ends in the source; and that only a fault of an expression may fail to do, in a unit
that has a block or a use of a variable. -/
theorem compile_fault_located {source : List Char} {options : Options} {range : Span}
    {kind : FragmentKind} {cause : FragmentFault}
    (h : compile source options = .error (.fragment range kind cause)) :
    ∃ scanned, scan source = .ok scanned ∧ cause.span.start ≤ cause.span.stop ∧
      (scanned.Locates range cause ↔ cause.span.stop ≤ size source) ∧
      (cause.inExpression = false → scanned.Locates range cause) ∧
      (scanned.AsWritten source → scanned.Locates range cause) := by
  rcases bind_eq_error_iff.mp h with h | ⟨parts, -, h⟩
  · obtain ⟨scanned, hs, hplaced, hlocated⟩ := settles_of_compileParts h
    refine ⟨scanned, hs, hplaced.ordered, ⟨fun hl => ?_, hlocated⟩,
      fun hother => hlocated (hplaced.other hother), fun hplain => hlocated (hplaced.plain hplain)⟩
    exact Scanned.sourceSize_of_scan hs ▸ hl.1.2
  · rcases bind_eq_error_iff.mp h with h | ⟨_, _, ⟨⟩⟩
    obtain ⟨_, -, ⟨⟩⟩ := mapError_eq_error_iff.mp h

/-- A reference in a condition of plain markup is blamed where it stands. -/
theorem compile_fault_located_condition :
    ∃ source range cause scanned,
      source = "b \x7b if \x7b condition: #z.w > 1, width: 1px; \x7d \x7d".toList ∧
      compile source {} = .error (.fragment range .markup cause) ∧
      cause = .eval (.unresolvedReference "#z.w" ⟨20, 24⟩) ∧ scan source = .ok scanned ∧
      scanned.AsWritten source ∧ scanned.Locates range cause := by
  obtain ⟨source, hsource⟩ : ∃ source : List Char,
      source = "b \x7b if \x7b condition: #z.w > 1, width: 1px; \x7d \x7d".toList := ⟨_, rfl⟩
  have hfails : compile source {} = .error
      (.fragment ⟨0, 45⟩ .markup (.eval (.unresolvedReference "#z.w" ⟨20, 24⟩))) := by
    rw [hsource, String.toList_ofList]
    decide +kernel
  have hwritten : ∃ scanned, scan source = .ok scanned ∧
      (∀ f ∈ scanned.fragments, f.kind = .markup) ∧ ¬ "@Var".toList <:+: source := by
    rw [hsource, String.toList_ofList]
    decide +kernel
  obtain ⟨scanned, hs, hwritten⟩ := hwritten
  obtain ⟨scanned', hs', -, -, -, hlocated⟩ := compile_fault_located hfails
  rw [hs] at hs'
  cases hs'
  exact ⟨source, ⟨0, 45⟩, _, scanned, hsource, hfails, rfl, hs, hwritten, hlocated hwritten⟩

/-- A variable whose value is longer than its use moves a fault behind the source, to a fragment
that has nothing to do with it. -/
theorem compile_fault_behind_source :
    ∃ source scanned,
      source = ("[Template] @Var V \x7b k: 0.00000000000000000000001px; \x7d " ++
        "b \x7b style \x7b w: V(k) + #z.w; \x7d \x7d").toList ∧
      compile source {} = .error
        (.fragment ⟨83, 85⟩ .markup (.eval (.unresolvedReference "#z.w" ⟨99, 103⟩))) ∧
      scan source = .ok scanned ∧ size source = 85 ∧
      (∃ f ∈ scanned.fragments, f.kind = .style ∧ f.range = ⟨58, 83⟩) ∧
      ¬ scanned.Locates ⟨83, 85⟩ (.eval (.unresolvedReference "#z.w" ⟨99, 103⟩)) := by
  obtain ⟨source, hsource⟩ : ∃ source : List Char,
      source = ("[Template] @Var V \x7b k: 0.00000000000000000000001px; \x7d " ++
        "b \x7b style \x7b w: V(k) + #z.w; \x7d \x7d").toList := ⟨_, rfl⟩
  have hfails : compile source {} = .error
      (.fragment ⟨83, 85⟩ .markup (.eval (.unresolvedReference "#z.w" ⟨99, 103⟩))) := by
    rw [hsource, String.toList_append, String.toList_ofList, String.toList_ofList]
    decide +kernel
  have hscan : ∃ scanned, scan source = .ok scanned ∧ size source = 85 ∧
      scanned.sourceSize = 85 ∧
      ∃ f ∈ scanned.fragments, f.kind = .style ∧ f.range = ⟨58, 83⟩ := by
    rw [hsource, String.toList_append, String.toList_ofList, String.toList_ofList]
    decide +kernel
  obtain ⟨scanned, hs, hsize, htotal, hstyle⟩ := hscan
  refine ⟨source, scanned, hsource, hfails, hs, hsize, hstyle, fun hlocates => ?_⟩
  have hstop : 103 ≤ scanned.sourceSize := hlocates.1.2
  omega

end Chtl
