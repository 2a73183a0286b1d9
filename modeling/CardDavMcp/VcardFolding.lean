import CardDavMcp.VcardFold

namespace CardDavMcp.VcardFolding

open Library.Utf8Text VcardFold

/-- One turn of the loop cuts at a boundary behind the first character, so
the search for it stops above zero and less is left for the next turn. -/
theorem split_progress (first : Bool) {remaining : Text} (h : remaining ≠ []) :
    1 ≤ split first remaining ∧ isCharBoundary remaining (split first remaining) ∧
      (dropBytes remaining (split first remaining)).length < remaining.length := by
  obtain ⟨c, rest, rfl⟩ := List.exists_cons_of_ne_nil h
  have hle := utf8Size_le_split first c rest
  refine ⟨c.utf8Size_pos.trans_le hle, isCharBoundary_floor _ _, ?_⟩
  exact dropBytes_length_lt c rest hle

theorem physical_lines {line : Text} (hcr : '\r' ∉ line) :
    ∀ physical ∈ splitCrLf (foldVcardLine line), byteLen physical ≤ 75 := by
  obtain ⟨folded, rfl, hfold, -, hlen⟩ := foldVcardLine_rows line
  have hrows := not_mem_row (x := '\r') (by decide) (by decide) hcr
  rw [hfold, FoldedLine.text, splitCrLf_intercalate (by simp [FoldedLine.rows]) hrows]
  exact hlen

theorem unfold_fold {line : Text} (hcr : '\r' ∉ line) (hlf : '\n' ∉ line) (hstart : Starts line) :
    unfoldVcardLines (foldVcardLine line) = [line] := by
  obtain ⟨folded, rfl, hfold, -, -⟩ := foldVcardLine_rows line
  have hrows := unfoldVcardLines_rows (List.cons_ne_nil folded []) (by simpa using hcr)
    (by simpa using hlf) (by simpa using hstart)
  simpa [hfold, FoldedLine.text] using hrows

/-- Folding ends, keeps to 75 bytes a line, cuts between characters only and
is undone by unfolding. -/
theorem fold_lossless (line : Text) (hcr : '\r' ∉ line) (hlf : '\n' ∉ line)
    (hsp : line.head? ≠ some ' ') (htab : line.head? ≠ some '\t') :
    (∀ first remaining, remaining ≠ [] →
      1 ≤ split first remaining ∧ isCharBoundary remaining (split first remaining) ∧
        (dropBytes remaining (split first remaining)).length < remaining.length) ∧
      (∀ physical ∈ splitCrLf (foldVcardLine line), byteLen physical ≤ 75) ∧
      unfoldVcardLines (foldVcardLine line) = [line] ∧
      (byteLen line ≤ 75 → foldVcardLine line = line) := by
  have hstart : Starts line := by
    intro c hc
    exact ⟨fun he => hsp (he ▸ hc), fun he => htab (he ▸ hc)⟩
  refine ⟨fun first remaining => split_progress first, physical_lines hcr,
    unfold_fold hcr hlf hstart, ?_⟩
  intro hlen
  rw [foldVcardLine, if_pos hlen]

def wideNote : Text := "NOTE:".toList ++ List.replicate 30 '界'

theorem fold_lossless_wide : 75 < byteLen wideNote ∧
    (∀ physical ∈ splitCrLf (foldVcardLine wideNote), byteLen physical ≤ 75) ∧
      unfoldVcardLines (foldVcardLine wideNote) = [wideNote] := by
  have h := fold_lossless wideNote (by decide +kernel) (by decide +kernel) (by decide +kernel)
    (by decide +kernel)
  exact ⟨by decide +kernel, h.2.1, h.2.2.1⟩

end CardDavMcp.VcardFolding
