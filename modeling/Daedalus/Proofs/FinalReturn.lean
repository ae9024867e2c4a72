import Mathlib.Data.List.TakeWhile
import Daedalus.Recovery.Body

/-! # The final return

A text that ends with the line of a return without a value loses this line, and only this line, in
`dropFinalReturn`. -/

namespace Daedalus

open Text

/-- The characters of lines. -/
theorem toList_unlines (lines : List String) :
    (unlines lines).toList = lines.flatMap fun line => line.toList ++ ['\n'] := by
  simp [unlines, List.flatMap_map]

/-- Lines can be put together in two parts. -/
theorem unlines_append (left right : List String) :
    unlines (left ++ right) = unlines left ++ unlines right := by
  rw [← String.toList_inj, String.toList_append]
  simp [toList_unlines]

/-- Backwards, the characters of lines start with a line end, if there are any. -/
theorem reverse_unlines (lines : List String) :
    (unlines lines).toList.reverse = [] ∨
      ∃ rest, (unlines lines).toList.reverse = '\n' :: rest := by
  rcases List.eq_nil_or_concat lines with rfl | ⟨init, last, rfl⟩
  · exact .inl rfl
  · exact .inr ⟨last.toList.reverse ++ (unlines init).toList.reverse, by simp [toList_unlines]⟩

/-- Blanks in front of a text are trimmed. -/
theorem trimmed_indented (indent : Nat) (cs : List Char) :
    trimmed (List.replicate indent ' ' ++ cs) = trimmed cs := by
  have hblank : ∀ c ∈ List.replicate indent ' ', isBlank c = true := by
    intro c hc
    rw [List.eq_of_mem_replicate hc]
    decide
  rw [trimmed, trimmed, List.dropWhile_append_of_pos hblank]

/-- The last line of a text is dropped if it is a return without a value, and only then. -/
theorem dropFinalReturn_unlines_concat {last : String} (hline : '\n' ∉ last.toList) (hne : last ≠ "")
    (lines : List String) :
    dropFinalReturn (unlines (lines ++ [last])) =
      if trimmed last.toList = "return;".toList then unlines lines
      else unlines (lines ++ [last]) := by
  have hall : ∀ c ∈ last.toList.reverse, (c != '\n') = true := by
    intro c hc
    rw [bne_iff_ne]
    rintro rfl
    exact hline (List.mem_reverse.mp hc)
  -- The text is taken apart from its end: line end, last line, and the lines before.
  have hbackwards : (unlines (lines ++ [last])).toList.reverse.dropWhile (· == '\n') =
      last.toList.reverse ++ (unlines lines).toList.reverse := by
    have hcons : last.toList.reverse ≠ [] := by simpa using hne
    obtain ⟨c, cs, hcs⟩ := List.exists_cons_of_ne_nil hcons
    have hc : c ≠ '\n' := bne_iff_ne.mp (hall c (hcs ▸ List.mem_cons_self))
    simp [toList_unlines, hcs, hc]
  -- The lines before end with a line end, or there are none, so the last line starts there.
  have hrest : (unlines lines).toList.reverse.takeWhile (· != '\n') = [] ∧
      (unlines lines).toList.reverse.dropWhile (· != '\n') = (unlines lines).toList.reverse := by
    rcases reverse_unlines lines with h | ⟨rest, h⟩ <;> rw [h] <;> simp
  have hlast : (last.toList.reverse ++ (unlines lines).toList.reverse).takeWhile (· != '\n') =
      last.toList.reverse := by
    rw [List.takeWhile_append_of_pos hall, hrest.1, List.append_nil]
  simp only [dropFinalReturn, hbackwards, hlast, List.reverse_reverse,
    List.dropWhile_append_of_pos hall, hrest.2, String.ofList_toList]

/-- The line of a return without a value is dropped at the end of a text. -/
theorem dropFinalReturn_unlines (indent : Nat) (lines : List String) :
    dropFinalReturn (unlines (lines ++ [spaces indent ++ "return;"])) = unlines lines := by
  have hline : '\n' ∉ (spaces indent ++ "return;").toList := by
    simp [spaces, List.mem_replicate]
  have hne : spaces indent ++ "return;" ≠ "" := by simp
  have htrimmed : trimmed (spaces indent ++ "return;").toList = "return;".toList := by
    rw [String.toList_append, spaces, String.toList_ofList, trimmed_indented]
    rfl
  rw [dropFinalReturn_unlines_concat hline hne, if_pos htrimmed]

/-- Only blanks are trimmed. -/
theorem isBlank_or_mem_trimmed {c : Char} {cs : List Char} (h : c ∈ cs) :
    isBlank c = true ∨ c ∈ trimmed cs := by
  have hsplit {ds : List Char} (hc : c ∈ ds) : isBlank c = true ∨ c ∈ ds.dropWhile isBlank := by
    rw [← List.takeWhile_append_dropWhile (p := isBlank) (l := ds)] at hc
    exact (List.mem_append.mp hc).imp_left List.mem_takeWhile_imp
  rcases hsplit h with hblank | hc
  · exact .inl hblank
  · exact (hsplit (List.mem_reverse.mpr hc)).imp_right List.mem_reverse.mpr

/-- A text is what is left without its final return, and behind it blanks and the letters of the
return. -/
theorem exists_append_dropFinalReturn (text : String) :
    ∃ tail : List Char, text.toList = (dropFinalReturn text).toList ++ tail ∧
      ∀ c ∈ tail, isBlank c = true ∨ c ∈ "return;".toList := by
  unfold dropFinalReturn
  extract_lets backwards lastLine
  split
  · next hreturn =>
    -- What is dropped is the last line with the line ends behind it.
    refine ⟨lastLine ++ (text.toList.reverse.takeWhile (· == '\n')).reverse, ?_, fun c hc => ?_⟩
    · rw [String.toList_ofList, ← List.append_assoc, ← List.reverse_append,
        List.takeWhile_append_dropWhile, ← List.reverse_append, List.takeWhile_append_dropWhile,
        List.reverse_reverse]
    · rcases List.mem_append.mp hc with hline | hend
      · rw [← hreturn]
        exact isBlank_or_mem_trimmed hline
      · have hbreak := List.mem_takeWhile_imp (List.mem_reverse.mp hend)
        rw [eq_of_beq hbreak]
        exact .inl (by decide)
  · exact ⟨[], (List.append_nil _).symm, by simp⟩

end Daedalus
