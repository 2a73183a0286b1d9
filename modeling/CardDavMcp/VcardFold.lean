import CardDavMcp.Library.Utf8Text

namespace CardDavMcp.VcardFold

open Library.Utf8Text

/-- Where the next physical line ends: the last character boundary that the
limit and the rest of the line allow. -/
def split (first : Bool) (remaining : Text) : Nat :=
  floorCharBoundary remaining (min (byteLen remaining) (if first then 75 else 74))

/-- Both limits admit one character of any width, so a cut makes progress. -/
theorem utf8Size_le_split (first : Bool) (c : Char) (rest : Text) :
    c.utf8Size ≤ split first (c :: rest) := by
  have h4 := c.utf8Size_le_four
  refine le_floorCharBoundary _ (isCharBoundary_head c rest) (le_min ?_ ?_)
  · simp
  · cases first <;> simp <;> omega

def foldLoop (first : Bool) (remaining output : Text) : Text :=
  match remaining with
  | [] => output
  | c :: rest =>
      foldLoop false (dropBytes (c :: rest) (split first (c :: rest)))
        (output ++ (if first then [] else "\r\n ".toList) ++
          takeBytes (c :: rest) (split first (c :: rest)))
termination_by remaining.length
decreasing_by exact dropBytes_length_lt c rest (utf8Size_le_split first c rest)

def foldVcardLine (line : Text) : Text :=
  if byteLen line ≤ 75 then line else foldLoop true line []

/-- A raw line that starts with a blank continues the line before it. -/
def unfoldStep (lines : List Text) (raw : Text) : List Text :=
  match raw with
  | ' ' :: rest | '\t' :: rest =>
      match lines.getLast? with
      | some previous => lines.dropLast ++ [previous ++ rest]
      | none => lines
  | raw => lines ++ [trimEndMatches '\r' raw]

def unfoldVcardLines (vcard : Text) : List Text :=
  ((replaceCrLf vcard).splitOn '\n').foldl unfoldStep []

/-- Continuation lines as they stand in a folded text. -/
def continuations (segments : List Text) : Text :=
  segments.flatMap (fun s => "\r\n ".toList ++ s)

theorem takeBytes_ne_nil (first : Bool) (c : Char) (rest : Text) :
    takeBytes (c :: rest) (split first (c :: rest)) ≠ [] := by
  simp [takeBytes, utf8Size_le_split first c rest]

theorem byteLen_takeBytes_split (first : Bool) (s : Text) :
    byteLen (takeBytes s (split first s)) ≤ if first then 75 else 74 := by
  rw [split, byteLen_takeBytes _ _ (isCharBoundary_floor _ _)]
  exact (floorCharBoundary_le _ _).trans (min_le_right _ _)

theorem foldLoop_segments (remaining output : Text) :
    ∃ segments : List Text, foldLoop false remaining output = output ++ continuations segments ∧
      segments.flatten = remaining ∧ ∀ s ∈ segments, byteLen s ≤ 74 := by
  generalize hf : false = first
  induction first, remaining, output using foldLoop.induct with
  | case1 first output => exact ⟨[], by simp [foldLoop, continuations], rfl, by simp⟩
  | case2 first output c rest ih =>
    subst hf
    obtain ⟨segments, he, hr, hl⟩ := ih rfl
    refine ⟨takeBytes (c :: rest) (split false (c :: rest)) :: segments, ?_, ?_, ?_⟩
    · rw [foldLoop]
      simpa [continuations] using he
    · rw [List.flatten_cons, hr, takeBytes_append_dropBytes]
    · intro s hs
      rcases List.mem_cons.mp hs with rfl | hs
      · exact byteLen_takeBytes_split false _
      · exact hl s hs

/-- A folded line is the line itself, cut into a first part of at most 75
bytes and continuations of at most 74 bytes each. -/
theorem foldVcardLine_segments (line : Text) :
    ∃ (head : Text) (tail : List Text), foldVcardLine line = head ++ continuations tail ∧
      head ++ tail.flatten = line ∧ (line ≠ [] → head ≠ []) ∧
      byteLen head ≤ 75 ∧ ∀ s ∈ tail, byteLen s ≤ 74 := by
  by_cases h : byteLen line ≤ 75
  · exact ⟨line, [], by simp [foldVcardLine, h, continuations], by simp, id, h, by simp⟩
  · cases line with
    | nil => simp at h
    | cons c rest =>
      obtain ⟨segments, he, hr, hl⟩ :=
        foldLoop_segments (dropBytes (c :: rest) (split true (c :: rest)))
          (takeBytes (c :: rest) (split true (c :: rest)))
      refine ⟨takeBytes (c :: rest) (split true (c :: rest)), segments, ?_, ?_, ?_, ?_, hl⟩
      · rw [foldVcardLine, if_neg h, foldLoop]
        simpa using he
      · rw [hr, takeBytes_append_dropBytes]
      · exact fun _ => takeBytes_ne_nil true c rest
      · exact byteLen_takeBytes_split true _

/-- A line that folding and unfolding carry as one: it holds no line break
and does not look like a continuation. -/
structure ContentLine (line : Text) : Prop where
  noCr : '\r' ∉ line
  noLf : '\n' ∉ line
  start : ∃ c rest, line = c :: rest ∧ c ≠ ' ' ∧ c ≠ '\t'

/-- The text of a card: every line folded and ended by a line break. -/
def joinLines (lines : List Text) : Text :=
  lines.flatMap (fun line => foldVcardLine line ++ "\r\n".toList)

/-- A line as it may stand in a text: the parts after the first begin a row
of their own, behind one blank. -/
structure FoldedLine where
  head : Text
  tail : List (Char × Text)
  blank : ∀ p ∈ tail, p.1 = ' ' ∨ p.1 = '\t'

def FoldedLine.line (folded : FoldedLine) : Text := folded.head ++ folded.tail.flatMap Prod.snd

def FoldedLine.rows (folded : FoldedLine) : List Text :=
  folded.head :: folded.tail.map (fun p => p.1 :: p.2)

def FoldedLine.text (folded : FoldedLine) : Text := crLf.intercalate folded.rows

/-- A text of lines, each with its break. -/
def endLines (lines : List FoldedLine) : Text := lines.flatMap (fun f => f.text ++ crLf)

/-- The text is not taken for the continuation of what stands before it. -/
def Starts (text : Text) : Prop := ∀ c ∈ text.head?, c ≠ ' ' ∧ c ≠ '\t'

theorem mem_line_of_mem_row {folded : FoldedLine} {row : Text} (hrow : row ∈ folded.rows) {x : Char}
    (hx : x ∈ row) : x ∈ folded.line ∨ x = ' ' ∨ x = '\t' := by
  rw [FoldedLine.line, List.mem_append, List.mem_flatMap]
  rcases List.mem_cons.mp hrow with rfl | hrow
  · exact Or.inl (Or.inl hx)
  · obtain ⟨p, hp, rfl⟩ := List.mem_map.mp hrow
    rcases List.mem_cons.mp hx with rfl | hx
    · exact Or.inr (folded.blank p hp)
    · exact Or.inl (Or.inr ⟨p, hp, hx⟩)

theorem not_mem_row {folded : FoldedLine} {x : Char} (hs : x ≠ ' ') (ht : x ≠ '\t')
    (h : x ∉ folded.line) : ∀ row ∈ folded.rows, x ∉ row := by
  intro row hrow hx
  have hmem := mem_line_of_mem_row hrow hx
  simp [h, hs, ht] at hmem

theorem append_continuations (head : Text) (tail : List Text) :
    head ++ continuations tail = crLf.intercalate (head :: tail.map (' ' :: ·)) := by
  induction tail generalizing head with
  | nil => simp [continuations]
  | cons s tail ih =>
    rw [List.map_cons, List.intercalate_cons_cons, ← ih]
    simp [continuations, crLf]

/-- What `foldVcardLine` writes is the line cut into rows of at most 75
bytes. -/
theorem foldVcardLine_rows (line : Text) :
    ∃ folded : FoldedLine, folded.line = line ∧ foldVcardLine line = folded.text ∧
      (line ≠ [] → folded.head ≠ []) ∧ ∀ row ∈ folded.rows, byteLen row ≤ 75 := by
  obtain ⟨head, tail, hfold, hflat, hne, hhead, htail⟩ := foldVcardLine_segments line
  have hblank : ∀ p ∈ tail.map (fun s => (' ', s)), p.1 = ' ' ∨ p.1 = '\t' := by
    intro p hp
    obtain ⟨s, -, rfl⟩ := List.mem_map.mp hp
    exact Or.inl rfl
  refine ⟨⟨head, tail.map (fun s => (' ', s)), hblank⟩, ?_, ?_, hne, ?_⟩
  · rw [← hflat, FoldedLine.line, List.flatMap_def, List.map_map]
    exact congrArg (head ++ ·.flatten) (List.map_id tail)
  · rw [hfold, append_continuations, FoldedLine.text, FoldedLine.rows, List.map_map]
    rfl
  · intro row hrow
    rcases List.mem_cons.mp hrow with rfl | hrow
    · exact hhead
    · simp only [List.map_map, List.mem_map, Function.comp_apply] at hrow
      obtain ⟨s, hs, rfl⟩ := hrow
      have hs := htail s hs
      rw [byteLen_cons]
      have hsp : ' '.utf8Size = 1 := rfl
      omega

theorem unfoldVcardLines_intercalate {rows : List Text} (hne : rows ≠ [])
    (hr : ∀ r ∈ rows, '\r' ∉ r) (hn : ∀ r ∈ rows, '\n' ∉ r) :
    unfoldVcardLines (crLf.intercalate rows) = rows.foldl unfoldStep [] := by
  rw [unfoldVcardLines, replaceCrLf_intercalate hr, List.splitOn_intercalate '\n' hn hne]

theorem unfoldStep_start (acc : List Text) {line : Text} (hcr : '\r' ∉ line)
    (hstart : Starts line) :
    unfoldStep acc line = acc ++ [line] := by
  rw [unfoldStep.eq_def]
  split
  · exact absurd rfl (hstart ' ' rfl).1
  · exact absurd rfl (hstart '\t' rfl).2
  · rw [trimEndMatches_of_not_mem hcr]

theorem unfoldStep_blank (acc : List Text) (previous : Text) {b : Char} (hb : b = ' ' ∨ b = '\t')
    (s : Text) : unfoldStep (acc ++ [previous]) (b :: s) = acc ++ [previous ++ s] := by
  rcases hb with rfl | rfl <;> simp [unfoldStep]

/-- The rows of a folded line are read as that line. -/
theorem foldl_unfoldStep_rows (acc : List Text) (folded : FoldedLine) (hcr : '\r' ∉ folded.head)
    (hstart : Starts folded.head) : folded.rows.foldl unfoldStep acc = acc ++ [folded.line] := by
  obtain ⟨head, tail, hblank⟩ := folded
  rw [FoldedLine.rows, List.foldl_cons, unfoldStep_start acc hcr hstart, FoldedLine.line]
  clear hcr hstart
  induction tail generalizing head with
  | nil => simp
  | cons p tail ih =>
    have ih := ih (head ++ p.2) (fun q hq => hblank q (List.mem_cons_of_mem _ hq))
    have hp := unfoldStep_blank acc head (hblank p List.mem_cons_self) p.2
    simp only [List.map_cons, List.foldl_cons, List.flatMap_cons] at ih ⊢
    rw [hp, ih, List.append_assoc]

theorem foldl_unfoldStep_lines (acc : List Text) (lines : List FoldedLine)
    (hcr : ∀ f ∈ lines, '\r' ∉ f.head) (hstart : ∀ f ∈ lines, Starts f.head) :
    (lines.flatMap FoldedLine.rows).foldl unfoldStep acc = acc ++ lines.map FoldedLine.line := by
  induction lines generalizing acc with
  | nil => simp
  | cons f lines ih =>
    have ih := ih (acc ++ [f.line]) (fun g hg => hcr g (List.mem_cons_of_mem _ hg))
      (fun g hg => hstart g (List.mem_cons_of_mem _ hg))
    rw [List.flatMap_cons, List.foldl_append, foldl_unfoldStep_rows acc f
      (hcr f List.mem_cons_self) (hstart f List.mem_cons_self), ih]
    simp

theorem starts_head {folded : FoldedLine} (h : Starts folded.line) : Starts folded.head := by
  intro c hc
  apply h c
  rw [FoldedLine.line, List.head?_append]
  simp [Option.mem_def.mp hc]

/-- A line is read back from its rows, whatever the cuts. -/
theorem unfoldVcardLines_rows {lines : List FoldedLine} (hne : lines ≠ [])
    (hr : ∀ f ∈ lines, '\r' ∉ f.line) (hn : ∀ f ∈ lines, '\n' ∉ f.line)
    (hstart : ∀ f ∈ lines, Starts f.line) :
    unfoldVcardLines (crLf.intercalate (lines.flatMap FoldedLine.rows)) =
      lines.map FoldedLine.line := by
  have hrows : ∀ x : Char, x ≠ ' ' → x ≠ '\t' → (∀ f ∈ lines, x ∉ f.line) →
      ∀ r ∈ lines.flatMap FoldedLine.rows, x ∉ r := by
    intro x hs ht hx r hmem
    obtain ⟨f, hf, hmem⟩ := List.mem_flatMap.mp hmem
    exact not_mem_row hs ht (hx f hf) r hmem
  have hnonempty : lines.flatMap FoldedLine.rows ≠ [] := by
    obtain ⟨f, fs, rfl⟩ := List.exists_cons_of_ne_nil hne
    simp [FoldedLine.rows]
  rw [unfoldVcardLines_intercalate hnonempty (hrows '\r' (by decide) (by decide) hr)
    (hrows '\n' (by decide) (by decide) hn), foldl_unfoldStep_lines]
  · rfl
  · exact fun f hf => not_mem_row (by decide) (by decide) (hr f hf) _ List.mem_cons_self
  · exact fun f hf => starts_head (hstart f hf)

theorem endLines_rows (lines : List FoldedLine) :
    endLines lines = crLf.intercalate (lines.flatMap FoldedLine.rows ++ [[]]) := by
  induction lines with
  | nil => rfl
  | cons f lines ih =>
    have hrows : f.rows ≠ [] := by simp [FoldedLine.rows]
    have hrest : lines.flatMap FoldedLine.rows ++ [[]] ≠ [] := by simp
    rw [endLines, List.flatMap_cons, ← endLines, ih, List.flatMap_cons, List.append_assoc f.rows,
      intercalate_append hrows hrest]
    rfl

/-- The break after the last line leaves an empty one. -/
theorem unfoldVcardLines_endLines (lines : List FoldedLine) (hr : ∀ f ∈ lines, '\r' ∉ f.line)
    (hn : ∀ f ∈ lines, '\n' ∉ f.line) (hstart : ∀ f ∈ lines, Starts f.line) :
    unfoldVcardLines (endLines lines) = lines.map FoldedLine.line ++ [[]] := by
  have hmem : ∀ (P : Text → Prop), P [] → (∀ f ∈ lines, P f.line) →
      ∀ f ∈ lines ++ [⟨[], [], by simp⟩], P f.line := by
    intro P hnil hlines f hf
    rcases List.mem_append.mp hf with hf | hf
    · exact hlines f hf
    · rw [List.mem_singleton.mp hf]
      exact hnil
  have hrows := unfoldVcardLines_rows (by simp) (hmem ('\r' ∉ ·) (by simp) hr)
    (hmem ('\n' ∉ ·) (by simp) hn) (hmem Starts (by simp [Starts]) hstart)
  rw [List.flatMap_append, List.map_append] at hrows
  rw [endLines_rows]
  exact hrows

theorem joinLines_eq_endLines (lines : List Text) : ∃ folded : List FoldedLine,
    folded.map FoldedLine.line = lines ∧ joinLines lines = endLines folded := by
  induction lines with
  | nil => exact ⟨[], rfl, rfl⟩
  | cons line lines ih =>
    obtain ⟨folded, hlines, hjoin⟩ := ih
    obtain ⟨f, hf, hfold, -, -⟩ := foldVcardLine_rows line
    refine ⟨f :: folded, by rw [List.map_cons, hf, hlines], ?_⟩
    rw [joinLines, List.flatMap_cons, ← joinLines, hfold, hjoin]
    rfl

/-- The lines of a card are read back as they were written, whatever folding
did to them. -/
theorem unfoldVcardLines_joinLines (lines : List Text) (h : ∀ l ∈ lines, ContentLine l) :
    unfoldVcardLines (joinLines lines) = lines ++ [[]] := by
  obtain ⟨folded, rfl, hjoin⟩ := joinLines_eq_endLines lines
  have hline : ∀ f ∈ folded, ContentLine f.line := fun f hf => h f.line (List.mem_map_of_mem hf)
  rw [hjoin]
  apply unfoldVcardLines_endLines folded
  · exact fun f hf => (hline f hf).noCr
  · exact fun f hf => (hline f hf).noLf
  · intro f hf x hx
    obtain ⟨c, rest, hc, hstart⟩ := (hline f hf).start
    rw [hc, List.head?_cons, Option.mem_some_iff] at hx
    exact hx ▸ hstart

end CardDavMcp.VcardFold
