import Chtl.Markup.Reader
import Chtl.Proofs.Document.Copies
import Chtl.Proofs.Markup.Apart

/-!
# What reading pays for copies

A ledger says how many copies of a placeholder the text that is left can still give, and what has
been spent on style blocks that became part of an element. A reader spends from it: what its result
holds, what was spent on blocks and what is left afterwards together are no more than before. The
rules follow the steps of readers, so the account of a whole reader is put together from its steps.
-/

set_option autoImplicit false
set_option linter.all false

namespace Chtl.Markup

open Text

/-- An account of the copies of a placeholder. A name that is read gives credit for some. -/
structure Ledger where
  token : String
  left : Cursor → Nat
  spent : List Placeholder → Nat
  credit : String → Nat
  left_advance_le : ∀ c n, left (c.advance n) ≤ left c
  credit_le : ∀ c name, c.Apart → name? c.rest = some name →
    credit (String.ofList name) + left (c.advance name.length) ≤ left c

namespace Ledger

/-- Every run of the text that is left pays for one copy, or for a block that is consumed. -/
def runs (token : String) : Ledger where
  token := token
  left := Cursor.runs token.toList
  spent consumed := if ⟨token⟩ ∈ consumed then 1 else 0
  credit name := if name.toList = token.toList then 1 else 0
  left_advance_le := Cursor.runs_advance_le token.toList
  credit_le c name hc hname := by
    rw [String.toList_ofList]
    exact Cursor.runs_name_le token.toList hc hname

/-- Nothing pays for a copy. -/
def nothing (token : String) : Ledger :=
  ⟨token, fun _ => 0, fun _ => 0, fun _ => 0, fun _ _ => Nat.le_refl _, fun _ _ _ _ => Nat.le_refl _⟩

/-- The account inside another text, where nothing is left to pay with. -/
def inner (l : Ledger) : Ledger :=
  ⟨l.token, fun _ => 0, l.spent, fun _ => 0, fun _ _ => Nat.le_refl _, fun _ _ _ _ => Nat.le_refl _⟩

/-- What the name of a block pays for: the copy where the block may stand in the document, or the
block becoming part of an element. -/
structure Pays (l : Ledger) (s : Setting) (name : String) (p : Placeholder) : Prop where
  copy : s.inConditional = false → s.inTemplate = false →
    (if p.token = l.token then 1 else 0) ≤ l.credit name
  block : ∀ consumed, l.spent (Reader.consume.insertAscending p consumed) ≤
    l.credit name + l.spent consumed

end Ledger

/-- Every block is paid for by its name. -/
def Ledger.Permits (l : Ledger) (s : Setting) : Prop :=
  ∀ name f p, s.scanned.fragment? name = some f → f.placeholder = some p →
    f.kind ≠ .markup ∧ l.Pays s name p

/-- A reader stands between names, and templates hold no copy of the placeholder. -/
structure Progress.Sound (token : String) (p : Progress) : Prop where
  apart : p.cursor.Apart
  templates : ∀ name nodes, p.templates.element? name = some nodes → copiesInNodes token nodes = 0

variable {α β : Type} {l : Ledger} {s : Setting}

/-- Where no block may stand, nothing has to pay for one. -/
theorem Ledger.Permits.nothing (hl : l.Permits s)
    (h : s.inConditional = true ∨ s.inTemplate = true) : (Ledger.nothing l.token).Permits s := by
  intro name f p hf hp
  refine ⟨(hl name f p hf hp).1, ⟨fun hconditional htemplate => ?_, fun _ => Nat.le_refl _⟩⟩
  simp [hconditional, htemplate] at h

theorem Ledger.Permits.conditional (hl : l.Permits s) :
    l.Permits { s with inConditional := true } :=
  fun name f p hf hp => ⟨(hl name f p hf hp).1, nofun, (hl name f p hf hp).2.block⟩

theorem Ledger.Permits.template (hl : l.Permits s) : l.Permits { s with inTemplate := true } :=
  fun name f p hf hp => ⟨(hl name f p hf hp).1, fun _ => nofun, (hl name f p hf hp).2.block⟩

/-- What a progress has spent and has left. -/
def Ledger.total (l : Ledger) (p : Progress) : Nat := l.spent p.consumed + l.left p.cursor

/-- From places as described, the reader pays for its result: `held` copies are in hand before it,
and `weight` counts those in the result. -/
def SpendsAt (l : Ledger) (s : Setting) (here : Cursor → Prop) (held : Nat) (x : Reader α)
    (weight : α → Nat) : Prop :=
  ∀ p a p', here p.cursor → p.Sound l.token → (x.run s).run p = .ok (a, p') →
    p'.Sound l.token ∧ weight a + l.total p' ≤ held + l.total p

def Spends (l : Ledger) (s : Setting) (held : Nat) (x : Reader α) (weight : α → Nat) : Prop :=
  SpendsAt l s (fun _ => True) held x weight

/-- The reader spends nothing on its result. -/
def Keeps (l : Ledger) (s : Setting) (x : Reader α) : Prop := Spends l s 0 x fun _ => 0

theorem run_bind_eq_ok {x : Reader α} {f : α → Reader β} {p p' : Progress} {b : β} :
    ((x >>= f).run s).run p = .ok (b, p') ↔
      ∃ a q, (x.run s).run p = .ok (a, q) ∧ ((f a).run s).run q = .ok (b, p') := by
  rw [ReaderT.run_bind, StateT.run_bind, bind_eq_ok_iff]
  exact Prod.exists

theorem run_unexpected_ne (expected : Expectation) {p p' : Progress} {a : α} :
    ((Reader.unexpected expected).run s).run p ≠ .ok (a, p') := by
  intro hrun
  obtain ⟨_, _, ⟨⟩, hrun⟩ := run_bind_eq_ok.mp hrun
  obtain ⟨_, _, ⟨⟩, hrun⟩ := run_bind_eq_ok.mp hrun
  split_ifs at hrun <;> cases hrun

section

variable {held more : Nat} {x : Reader α} {f : α → Reader β} {weight : α → Nat} {price : β → Nat}
  {here : Cursor → Prop}

theorem SpendsAt.bind (hx : SpendsAt l s here held x weight)
    (hf : ∀ a, Spends l s (weight a) (f a) price) : SpendsAt l s here held (x >>= f) price := by
  intro p b p' hhere hp hrun
  obtain ⟨a, q, hfirst, hrest⟩ := run_bind_eq_ok.mp hrun
  obtain ⟨hq, hle⟩ := hx p a q hhere hp hfirst
  obtain ⟨hp', hle'⟩ := hf a q b p' trivial hq hrest
  exact ⟨hp', by omega⟩

theorem Spends.at (hx : Spends l s held x weight) : SpendsAt l s here held x weight :=
  fun p a p' _ hp hrun => hx p a p' trivial hp hrun

theorem Spends.bind (hx : Spends l s held x weight)
    (hf : ∀ a, Spends l s (weight a) (f a) price) : Spends l s held (x >>= f) price :=
  SpendsAt.bind hx hf

theorem Spends.frame (hx : Spends l s held x weight) (more : Nat) :
    Spends l s (held + more) x fun a => weight a + more := by
  intro p a p' hhere hp hrun
  obtain ⟨hp', hle⟩ := hx p a p' hhere hp hrun
  refine ⟨hp', ?_⟩
  dsimp only
  omega

theorem Spends.mono {price : α → Nat} (hx : Spends l s held x weight) (hheld : held ≤ more)
    (hprice : ∀ a, price a ≤ weight a) : Spends l s more x price := by
  intro p a p' hhere hp hrun
  obtain ⟨hp', hle⟩ := hx p a p' hhere hp hrun
  have hprice := hprice a
  exact ⟨hp', by omega⟩

/-- Credit that is not used is lost. -/
theorem Spends.forgo (hx : Spends l s held x weight) (more : Nat) :
    Spends l s (held + more) x weight :=
  hx.mono (Nat.le_add_right held more) fun _ => Nat.le_refl _

/-- A reader that spends nothing even where nothing is left gives nothing, however it is weighed. -/
theorem Spends.free (hx : Spends l s 0 x weight) (hnone : Spends (.nothing l.token) s 0 x weight)
    (factor : Nat) : Spends l s 0 x fun a => factor * weight a := by
  intro p a p' hhere hp hrun
  obtain ⟨hp', hle⟩ := hx p a p' hhere hp hrun
  obtain ⟨-, hzero⟩ := hnone p a p' hhere hp hrun
  have hweight : weight a = 0 := by simpa [Ledger.total, Ledger.nothing] using hzero
  refine ⟨hp', ?_⟩
  dsimp only
  rw [hweight, Nat.mul_zero]
  omega

/-- What a step spends comes to what is in hand. -/
theorem Spends.add (hx : Spends l s 0 x weight)
    (hf : ∀ a, Spends l s (held + weight a) (f a) price) : Spends l s held (x >>= f) price := by
  have hframed := hx.frame held
  rw [Nat.zero_add] at hframed
  refine hframed.bind fun a => ?_
  rw [Nat.add_comm]
  exact hf a

/-- A step that spends nothing. -/
theorem Keeps.bind (hx : Keeps l s x) (hf : ∀ a, Spends l s held (f a) price) :
    Spends l s held (x >>= f) price :=
  Spends.add hx hf

theorem Spends.pure {a : α} (h : weight a ≤ held) : Spends l s held (Pure.pure a) weight := by
  rintro p _ _ - hp ⟨⟩
  exact ⟨hp, by omega⟩

theorem SpendsAt.ite {c : Prop} [Decidable c] {y z : Reader α}
    (hy : c → SpendsAt l s here held y weight) (hz : ¬ c → SpendsAt l s here held z weight) :
    SpendsAt l s here held (if c then y else z) weight := by
  split_ifs with hc
  · exact hy hc
  · exact hz hc

theorem Spends.ite {c : Prop} [Decidable c] {y z : Reader α} (hy : c → Spends l s held y weight)
    (hz : ¬ c → Spends l s held z weight) : Spends l s held (if c then y else z) weight :=
  SpendsAt.ite hy hz

theorem Spends.fail (e : MarkupError) : Spends l s held (Reader.fail e) weight := by
  rintro p a p' - - ⟨⟩

theorem Spends.unexpected (expected : Expectation) :
    Spends l s held (Reader.unexpected expected) weight := by
  intro p a p' _ _ hrun
  exact absurd hrun (run_unexpected_ne expected)

/-- A step that is only made in some cases. -/
theorem Keeps.optional {c : Prop} [Decidable c] {y : Reader β} (hy : Keeps l s y)
    (hx : Spends l s held x weight) :
    Spends l s held (if c then y >>= fun _ => x else x) weight := by
  split_ifs
  · exact hy.bind fun _ => hx
  · exact hx

theorem Spends.withReader {g : Setting → Setting} (h : Spends l (g s) held x weight) :
    Spends l s held (withReader g x) weight := h

theorem Spends.read {g : Setting → Reader α} (h : Spends l s held (g s) weight) :
    Spends l s held (read >>= g) weight := h

/-- What is known of the progress so far may be used. -/
theorem Spends.get {g : Progress → Reader α}
    (h : ∀ p : Progress, p.Sound l.token → Spends l s held (g p) weight) :
    Spends l s held (get >>= g) weight :=
  fun p a p' hhere hp hrun => h p hp p a p' hhere hp hrun

theorem Spends.peek {g : Option Char → Reader α}
    (h : ∀ next, SpendsAt l s (fun c => c.peek? = next) held (g next) weight) :
    Spends l s held (Reader.peek? >>= g) weight :=
  fun p a p' _ hp hrun => h p.cursor.peek? p a p' rfl hp hrun

theorem Spends.block {name : String} {g : Option (Fragment × Placeholder) → Reader α}
    (hnone : Spends l s held (g none) weight)
    (hsome : ∀ fragment q, s.scanned.fragment? name = some fragment →
      fragment.placeholder = some q → Spends l s held (g (some (fragment, q))) weight) :
    Spends l s held (Reader.block? name >>= g) weight := by
  intro p a p' hhere hp hrun
  obtain ⟨found, q, hfound, hrun⟩ := run_bind_eq_ok.mp hrun
  obtain ⟨_, _, ⟨⟩, hfound⟩ := run_bind_eq_ok.mp hfound
  split at hfound
  · rename_i fragment hfragment
    cases hfound
    cases hplaceholder : fragment.placeholder with
    | none =>
      rw [hplaceholder] at hrun
      exact hnone p a p' hhere hp hrun
    | some q =>
      rw [hplaceholder] at hrun
      exact hsome fragment q hfragment hplaceholder p a p' hhere hp hrun
  · cases hfound
    exact hnone p a p' hhere hp hrun

/-- Another text pays for nothing, and the cursor comes back. -/
theorem Spends.within {origin : Origin} {text : List Char}
    (h : Spends l.inner { s with origin := origin } held x weight) :
    Spends l s held (Reader.within origin text x) weight := by
  intro p a p' _ hp hrun
  obtain ⟨_, _, ⟨⟩, hrun⟩ := run_bind_eq_ok.mp hrun
  obtain ⟨_, _, ⟨⟩, hrun⟩ := run_bind_eq_ok.mp hrun
  obtain ⟨b, q, hinner, hrun⟩ := run_bind_eq_ok.mp hrun
  cases hrun
  have hstart : Progress.Sound l.token { p with cursor := ⟨none, 0, text⟩ } :=
    ⟨.inl rfl, hp.templates⟩
  obtain ⟨hq, hle⟩ := h _ _ _ trivial hstart hinner
  have hle : weight a + l.spent q.consumed ≤ held + l.spent p.consumed := hle
  refine ⟨⟨hp.apart, hq.templates⟩, ?_⟩
  unfold Ledger.total
  dsimp only
  omega

end

namespace Keeps

/-- A step that changes nothing but the next node id. -/
theorem of_same {x : Reader α}
    (h : ∀ p a p', (x.run s).run p = .ok (a, p') →
      p'.cursor = p.cursor ∧ p'.templates = p.templates ∧ p'.consumed = p.consumed) :
    Keeps l s x := by
  intro p a p' _ hp hrun
  obtain ⟨hcursor, htemplates, hconsumed⟩ := h p a p' hrun
  refine ⟨⟨hcursor ▸ hp.apart, htemplates ▸ hp.templates⟩, ?_⟩
  rw [Ledger.total, Ledger.total, hcursor, hconsumed]

/-- A step that goes on to a place between names. -/
theorem of_advance {x : Reader α}
    (h : ∀ p a p', (x.run s).run p = .ok (a, p') → p.cursor.Apart →
      ∃ n, p' = { p with cursor := p.cursor.advance n } ∧ (p.cursor.advance n).Apart) :
    Keeps l s x := by
  intro p a p' _ hp hrun
  obtain ⟨n, rfl, hapart⟩ := h p a p' hrun hp.apart
  have hle := l.left_advance_le p.cursor n
  refine ⟨⟨hapart, hp.templates⟩, ?_⟩
  unfold Ledger.total
  dsimp only
  omega

theorem cursor : Keeps l s Reader.cursor := of_same <| by rintro p _ _ ⟨⟩; exact ⟨rfl, rfl, rfl⟩

theorem offset : Keeps l s Reader.offset := of_same <| by rintro p _ _ ⟨⟩; exact ⟨rfl, rfl, rfl⟩

theorem rest : Keeps l s Reader.rest := of_same <| by rintro p _ _ ⟨⟩; exact ⟨rfl, rfl, rfl⟩

theorem peek? : Keeps l s Reader.peek? := of_same <| by rintro p _ _ ⟨⟩; exact ⟨rfl, rfl, rfl⟩

theorem atEnd : Keeps l s Reader.atEnd := of_same <| by rintro p _ _ ⟨⟩; exact ⟨rfl, rfl, rfl⟩

theorem looksAt (lead : List Char) : Keeps l s (Reader.looksAt lead) :=
  of_same <| by rintro p _ _ ⟨⟩; exact ⟨rfl, rfl, rfl⟩

theorem spanOf (start stop : Nat) : Keeps l s (Reader.spanOf start stop) :=
  of_same <| by rintro p _ _ ⟨⟩; exact ⟨rfl, rfl, rfl⟩

theorem spanFrom (start : Nat) : Keeps l s (Reader.spanFrom start) :=
  of_same <| by rintro p _ _ ⟨⟩; exact ⟨rfl, rfl, rfl⟩

theorem freshId : Keeps l s Reader.freshId := of_same <| by rintro p _ _ ⟨⟩; exact ⟨rfl, rfl, rfl⟩

theorem skipTrivia : Keeps l s Reader.skipTrivia :=
  of_advance <| by rintro p _ _ ⟨⟩ hp; exact ⟨_, rfl, hp.trivia⟩

theorem eat {x : Char} (hx : isNameChar x = false) : Keeps l s (Reader.eat x) := by
  refine of_advance ?_
  intro p a p' hrun hp
  obtain ⟨_, _, ⟨⟩, hrun⟩ := run_bind_eq_ok.mp hrun
  split_ifs at hrun with hhead
  · cases hrun
    exact ⟨1, rfl, Cursor.apart_advance_one hhead hx⟩
  · cases hrun
    exact ⟨0, by rw [Cursor.advance_zero], by rwa [Cursor.advance_zero]⟩

theorem takeRaw {stops : List Char} (h : stops.any isNameChar = false) :
    Keeps l s (Reader.takeRaw stops) :=
  of_advance <| by rintro p _ _ ⟨⟩ hp; exact ⟨_, rfl, Cursor.apart_raw h p.cursor⟩

theorem expect {x : Char} (hx : isNameChar x = false) (expected : Expectation) :
    Keeps l s (Reader.expect x expected) := by
  refine (eat hx).bind fun eaten => ?_
  split_ifs
  · exact .pure (Nat.le_refl _)
  · exact .unexpected expected

theorem keyword (word : String) : Keeps l s (Reader.keyword word) := by
  refine of_advance ?_
  intro p a p' hrun hp
  have hstay : ∃ n, p = { p with cursor := p.cursor.advance n } ∧ (p.cursor.advance n).Apart :=
    ⟨0, by rw [Cursor.advance_zero], by rwa [Cursor.advance_zero]⟩
  obtain ⟨_, _, ⟨⟩, hrun⟩ := run_bind_eq_ok.mp hrun
  split at hrun
  · rename_i name hname
    split_ifs at hrun
    · cases hrun
      exact ⟨name.length, rfl, Cursor.apart_name hname⟩
    · cases hrun
      exact hstay
  · cases hrun
    exact hstay

theorem takeBalanced : Keeps l s Reader.takeBalanced := by
  refine of_advance ?_
  intro p a p' hrun hp
  obtain ⟨_, _, ⟨⟩, hrun⟩ := run_bind_eq_ok.mp hrun
  split at hrun
  · rename_i n hn
    cases hrun
    exact ⟨n + 1, rfl, Cursor.apart_balanced hn⟩
  · obtain ⟨_, q, ⟨⟩, hrun⟩ := run_bind_eq_ok.mp hrun
    exact absurd hrun (run_unexpected_ne .closeBrace)

end Keeps

/-- A name comes with its credit. -/
theorem Spends.takeName? :
    Spends l s 0 Reader.takeName? fun name => (name.map l.credit).getD 0 := by
  intro p a p' _ hp hrun
  obtain ⟨_, _, ⟨⟩, hrun⟩ := run_bind_eq_ok.mp hrun
  split at hrun
  · rename_i name hname
    cases hrun
    have hle := l.credit_le p.cursor name hp.apart hname
    refine ⟨⟨Cursor.apart_name hname, hp.templates⟩, ?_⟩
    simp only [Option.map_some, Option.getD_some, Ledger.total]
    omega
  · cases hrun
    exact ⟨hp, Nat.le_refl _⟩

theorem Spends.takeName (expected : Expectation) :
    Spends l s 0 (Reader.takeName expected) l.credit := by
  refine Spends.takeName?.bind fun name => ?_
  cases name with
  | none => exact .unexpected expected
  | some name => exact .pure (Nat.le_refl _)

theorem Keeps.takeName (expected : Expectation) : Keeps l s (Reader.takeName expected) :=
  (Spends.takeName expected).mono (Nat.le_refl _) fun _ => Nat.zero_le _

theorem Keeps.takeName? : Keeps l s Reader.takeName? :=
  Spends.takeName?.mono (Nat.le_refl _) fun _ => Nat.zero_le _

/-- The name of a block pays for the block becoming part of an element. -/
theorem Spends.consume {name : String} {q : Placeholder} (h : l.Pays s name q) :
    Spends l s (l.credit name) (Reader.consume q) fun _ => 0 := by
  rintro p _ _ - hp ⟨⟩
  have hle := h.block p.consumed
  refine ⟨⟨hp.apart, hp.templates⟩, ?_⟩
  unfold Ledger.total
  dsimp only
  omega

/-- A character that stands ahead and is part of no name is passed over. -/
theorem SpendsAt.skip_one {f : Unit → Reader α} {held : Nat} {weight : α → Nat} {x : Char}
    (hx : isNameChar x = false) (h : Spends l s held (f ()) weight) :
    SpendsAt l s (fun c => c.peek? = some x) held (Reader.skip 1 >>= f) weight := by
  intro p a p' hhead hp hrun
  obtain ⟨_, _, ⟨⟩, hrun⟩ := run_bind_eq_ok.mp hrun
  have hpassed : Progress.Sound l.token { p with cursor := p.cursor.advance 1 } :=
    ⟨Cursor.apart_advance_one hhead hx, hp.templates⟩
  obtain ⟨hp', hle⟩ := h _ _ _ trivial hpassed hrun
  have hadvance := l.left_advance_le p.cursor 1
  unfold Ledger.total at hle ⊢
  dsimp only at hle
  exact ⟨hp', by omega⟩

end Chtl.Markup
