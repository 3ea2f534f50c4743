import Chtl.Proofs.Output.Placement
import Chtl.Proofs.Text.Word

/-!
# Words in the channels of a page

Trimming, joining and laying out add no word and take none away: a word is in one of the texts that
a bundle holds exactly if it is in the erased page or in a piece of a channel.
-/

set_option autoImplicit false
set_option linter.all false

namespace Chtl.Text.IsWord

open Output

variable {p : List Char}

theorem intercalate_iff (hp : IsWord p) (pieces : List (List Char)) :
    p <:+: List.intercalate ['\n'] pieces ↔ ∃ piece ∈ pieces, p <:+: piece := by
  induction pieces with
  | nil => simp [List.intercalate, hp.not_infix_nil]
  | cons piece rest ih =>
    cases rest with
    | nil => simp [List.intercalate]
    | cons next more =>
      rw [List.intercalate_cons_cons, List.append_assoc, List.singleton_append,
        infix_append_cons_iff (hp.not_mem rfl), ih]
      simp

theorem joinChannel_iff (hp : IsWord p) (pieces : List String) :
    p <:+: (joinChannel pieces).toList ↔ Held p pieces := by
  rw [joinChannel, String.toList_intercalate]
  change p <:+: List.intercalate ['\n'] _ ↔ _
  rw [hp.intercalate_iff]
  constructor
  · rintro ⟨t, ht, h⟩
    obtain ⟨s, hs, rfl⟩ := List.mem_map.mp ht
    obtain ⟨piece, hpiece, rfl⟩ := List.mem_map.mp (List.mem_filter.mp hs).1
    exact ⟨piece, hpiece, by simpa [hp.trim_iff] using h⟩
  · rintro ⟨piece, hpiece, h⟩
    have ht : p <:+: trim piece.toList := (hp.trim_iff _).mpr h
    refine ⟨trim piece.toList,
      List.mem_map.mpr ⟨String.ofList (trim piece.toList), ?_, by simp⟩, ht⟩
    refine List.mem_filter.mpr ⟨List.mem_map.mpr ⟨piece, hpiece, rfl⟩, ?_⟩
    rw [bne_iff_ne]
    intro hempty
    have hnil : trim piece.toList = [] := by simpa using hempty
    exact hp.not_infix_nil (hnil ▸ ht)

theorem channelTag_iff (hp : IsWord p) (tag : String) (ht : 'H' ∉ tag.toList) (channel : String) :
    p <:+: (channelTag tag channel).toList ↔ p <:+: channel.toList := by
  unfold channelTag
  split_ifs with hempty
  · rw [hempty]
  · have hlist : ("<" ++ tag ++ ">" ++ channel ++ "</" ++ tag ++ ">").toList =
        (('<' :: tag.toList) ++ ['>']) ++
          (channel.toList ++ ('<' :: '/' :: (tag.toList ++ ['>']))) := by
      simp
    rw [hlist, hp.code_append (by simp [ht]) (endsApart_concat _ _),
      hp.append_code (by simp [ht]) rfl]

theorem startsApart_channelTag (tag channel : String) :
    startsApart (channelTag tag channel).toList = true := by
  unfold channelTag
  split_ifs
  · rfl
  · simp only [String.toList_append, List.append_assoc]
    rfl

theorem endsApart_channelTag (tag channel : String) :
    endsApart (channelTag tag channel).toList = true := by
  unfold channelTag
  split_ifs
  · rfl
  · rw [String.toList_append]
    exact endsApart_concat _ _

theorem inlineHead_iff (hp : IsWord p) (layout : Layout) (css : String) :
    p <:+: (if layout.defaultStruct then "<head>" ++ channelTag "style" css ++ "</head>"
      else channelTag "style" css).toList ↔ p <:+: css.toList := by
  have hstyle := hp.channelTag_iff "style" (by decide) css
  split_ifs
  · rw [String.toList_append, String.toList_append, hp.append_code (by decide) rfl,
      hp.code_append (by decide) rfl, hstyle]
  · exact hstyle

theorem endsApart_inlineHead (layout : Layout) (css : String) :
    endsApart (if layout.defaultStruct then "<head>" ++ channelTag "style" css ++ "</head>"
      else channelTag "style" css).toList = true := by
  split_ifs
  · rw [String.toList_append, endsApart_append_of_ne_nil (by decide)]
    rfl
  · exact endsApart_channelTag _ _

theorem inlinePage_iff (hp : IsWord p) (layout : Layout) (body css js : String) :
    p <:+: (inlinePage layout body css js).toList ↔
      p <:+: body.toList ∨ p <:+: css.toList ∨ p <:+: js.toList := by
  have htail : p <:+: body.toList ++ ((channelTag "script" js).toList ++ "</html>".toList) ↔
      p <:+: body.toList ∨ p <:+: js.toList := by
    rw [hp.append_iff_of_startsApart (startsApart_append (startsApart_channelTag _ _) rfl),
      hp.append_code (by decide) rfl, hp.channelTag_iff "script" (by decide)]
  unfold inlinePage
  simp only [String.toList_append, List.append_assoc]
  rw [hp.code_append (by decide) rfl, hp.append_iff_of_endsApart (endsApart_inlineHead layout css),
    hp.inlineHead_iff, htail, or_left_comm]

/-- A bundle holds the words of the erased page and of the pieces of its channels, and no others. -/
theorem laidOut_iff (hp : IsWord p) (markup : String) (outputs : FragmentOutputs)
    (preludes : Preludes) (layout : Layout) :
    (p <:+: (laidOut markup outputs preludes layout).html.toList ∨
        p <:+: (laidOut markup outputs preludes layout).css.toList ∨
        p <:+: (laidOut markup outputs preludes layout).js.toList) ↔
      p <:+: mapTokens (fun _ => []) markup.toList ∨
        Held p (preludes.css :: outputs.textsOf .style) ∨
        Held p (preludes.js :: outputs.textsOf .script) := by
  unfold laidOut
  cases layout.inlineHtml
  · simp [hp.joinChannel_iff]
  · simp [hp.inlinePage_iff, hp.joinChannel_iff, hp.not_infix_nil]

end Chtl.Text.IsWord
