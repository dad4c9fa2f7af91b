import Stencil.Proofs.Append
import Stencil.Proofs.Text.Words

/-!
# Changing the delimiters

A tag can set any delimiters, whichever are in force: what marks the end of the tag is an equals sign, and no delimiter holds
one. Alone on a line, such a tag leaves nothing behind but the delimiters it sets (`parse_change`).
-/

namespace Stencil

open Text

namespace Delimiters

theorem equals_not_mem (d : Delimiters) : '=' ∉ d.opener.toList ∧ '=' ∉ d.closer.toList :=
  ⟨fun h => (d.opener_isDelimiter.2 _ h).2 rfl, fun h => (d.closer_isDelimiter.2 _ h).2 rfl⟩

theorem fault?_eq_none (d : Delimiters) : fault? d.opener d.closer = none := by
  obtain ⟨hopener, hmarks⟩ := d.opener_isDelimiter
  obtain ⟨hcloser, hmarks'⟩ := d.closer_isDelimiter
  have hblank : (d.opener.toList ++ d.closer.toList).any isBlank = false := by
    rw [List.any_append, Bool.or_eq_false_iff]
    simp only [List.any_eq_false, Bool.not_eq_true]
    exact ⟨fun c hc => (hmarks c hc).1, fun c hc => (hmarks' c hc).1⟩
  simp [fault?, hopener, hcloser, hblank, d.equals_not_mem]

theorem ofTexts_eq_ok (d : Delimiters) : ofTexts d.opener d.closer = .ok d := by
  unfold ofTexts
  split
  · next fault h =>
    rw [d.fault?_eq_none] at h
    cases h
  · rfl

theorem toList_display (d : Delimiters) : d.display.toList = d.opener.toList ++ ' ' :: d.closer.toList := by
  change (d.opener ++ " " ++ d.closer).toList = _
  rw [String.toList_append, String.toList_append, List.append_assoc]
  rfl

end Delimiters

namespace Tag

theorem delimitersOf_display (d : Delimiters) : delimitersOf d.display.toList = .ok d := by
  have hopener : words d.opener.toList = [d.opener.toList] :=
    words_word d.opener_toList_ne_nil d.not_isBlank_of_mem_opener
  have hcloser : words d.closer.toList = [d.closer.toList] :=
    words_word d.closer_toList_ne_nil d.not_isBlank_of_mem_closer
  have hwords : words d.display.toList = [d.opener.toList, d.closer.toList] := by
    rw [d.toList_display, words_append_cons (by decide), hopener, hcloser]
    rfl
  rw [delimitersOf, hwords]
  simp only [String.ofList_toList, d.ofTexts_eq_ok]

/-- The tag that sets the delimiters `d`, without the opening delimiter in front of it. -/
theorem inside_change (e d : Delimiters) :
    Inside e (.delimiters d) ('=' :: (d.display.toList ++ '=' :: e.closer.toList)) := by
  have hcontent : '=' ∉ d.display.toList := by
    rw [d.toList_display, List.mem_append, List.mem_cons]
    simp [d.equals_not_mem]
  refine ⟨[], '=', d.display.toList ++ '=' :: e.closer.toList, rfl, by simp, by decide, ?_, ?_⟩
  · -- The closing delimiter does not start with an equals sign, so the tag is not empty.
    intro hprefix
    obtain ⟨c, closer, hcloser⟩ := List.exists_cons_of_ne_nil e.closer_toList_ne_nil
    rw [hcloser, List.cons_prefix_cons] at hprefix
    apply e.equals_not_mem.2
    rw [hcloser, hprefix.1]
    exact List.mem_cons_self
  · refine ⟨d.display.toList, rfl, clear_of_not_mem hcontent e.closer.toList, ?_⟩
    change (delimitersOf d.display.toList).map delimiters = .ok (.delimiters d)
    rw [delimitersOf_display]
    rfl

end Tag

/-- The line of a tag that sets the delimiters `d` while `e` are in force. -/
def Segment.change (e d : Delimiters) : Segment where
  text := []
  indent := []
  tag := .delimiters d
  spelling := e.opener.toList ++ '=' :: (d.display.toList ++ '=' :: e.closer.toList)
  trailing := ['\n']
  alone := true

theorem Segment.change_fits (e d : Delimiters) (rest : List Char) : (change e d).Fits e true rest := by
  refine ⟨⟨clear_nil _, _, rfl, Tag.inside_change e d⟩, rfl, rfl, ?_, [], ['\n'], rfl, ?_, .feed rest⟩
  · exact List.forall_mem_nil _
  · exact List.forall_mem_nil _

theorem Segment.count_change (e d : Delimiters) : (change e d).source.count '\n' = 1 := by
  have hforeign (d : Delimiters) : d.opener.toList.count '\n' = 0 ∧ d.closer.toList.count '\n' = 0 := by
    refine ⟨List.count_eq_zero.mpr fun h => ?_, List.count_eq_zero.mpr fun h => ?_⟩
    · exact Bool.noConfusion (d.not_isBlank_of_mem_opener _ h)
    · exact Bool.noConfusion (d.not_isBlank_of_mem_closer _ h)
  simp [source, change, d.toList_display, hforeign]

/-- A line that sets the delimiters to `d` is as good as starting with them, whichever delimiters `e` the line is written
with: the same nodes, or the same fault one line further down. -/
theorem parse_change (e d : Delimiters) (t : String) :
    parse e (e.opener ++ "=" ++ d.display ++ "=" ++ e.closer ++ "\n" ++ t) =
      match parse d t with
      | .ok nodes => .ok nodes
      | .error fault => .error (fault.down 1) := by
  let line := Segment.change e d
  have hsource : (e.opener ++ "=" ++ d.display ++ "=" ++ e.closer ++ "\n" ++ t).toList = line.source ++ t.toList := by
    simp [line, Segment.source, Segment.change]
  have hnext : Segment.next e true (line.source ++ t.toList) = .ok (some (line, t.toList)) :=
    Segment.next_eq_some_iff.mpr ⟨rfl, Segment.change_fits e d t.toList⟩
  have hlast : ∀ c ∈ line.source.getLast?, c = '\n' := by
    intro c hc
    rw [Segment.source, List.getLast?_append] at hc
    exact (Option.some.inj hc).symm
  have hread : Descent.read none 0 e [] (.start (line.source ++ t.toList)) =
      Descent.read none 0 d [] ((Descent.Place.start t.toList).down 1) := by
    rw [Descent.read_of_plain hnext rfl, Descent.Place.start_past hlast, Segment.count_change]
    rfl
  have hdown := Descent.read_down none 0 d [] [] (.start t.toList) 1
  rw [Node.fuse_nil_left] at hdown
  change Descent.read none 0 d [] _ = _ at hdown
  rw [Descent.parse_eq_read, Descent.parse_eq_read, hsource, hread, hdown]
  cases Descent.read none 0 d [] (.start t.toList) with
  | error fault => rfl
  | ok region => rfl

end Stencil
