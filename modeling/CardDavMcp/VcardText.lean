import CardDavMcp.Library.Utf8Text

namespace CardDavMcp.VcardText

open Library.Utf8Text

def escapeVcardText (value : Text) : Text :=
  replaceChar ',' "\\,".toList
    (replaceChar ';' "\\;".toList
      (replaceChar '\n' "\\n".toList
        (replaceChar '\r' "".toList
          (replaceChar '\\' "\\\\".toList value))))

def unescapeVcardText : Text → Text
  | [] => []
  | ['\\'] => ['\\']
  | '\\' :: next :: rest =>
      (if next = 'n' ∨ next = 'N' then '\n' else next) :: unescapeVcardText rest
  | character :: rest => character :: unescapeVcardText rest

/-- What the five replacements make of one character. -/
def escapeChar (c : Char) : Text :=
  if c = '\\' then ['\\', '\\'] else if c = '\r' then [] else if c = '\n' then ['\\', 'n']
  else if c = ';' then ['\\', ';'] else if c = ',' then ['\\', ','] else [c]

/-- Escaping drops carriage returns and keeps every other character. -/
def strip (s : Text) : Text := s.filter (· ≠ '\r')

/-- No pass of the escaping sees a character that an earlier pass wrote as
one it has to replace, so the passes act on each character alone. -/
theorem escapeVcardText_cons (c : Char) (s : Text) :
    escapeVcardText (c :: s) = escapeChar c ++ escapeVcardText s := by
  by_cases hb : c = '\\'
  · subst c; simp [escapeVcardText, escapeChar]
  by_cases hr : c = '\r'
  · subst c; simp [escapeVcardText, escapeChar]
  by_cases hn : c = '\n'
  · subst c; simp [escapeVcardText, escapeChar]
  by_cases hs : c = ';'
  · subst c; simp [escapeVcardText, escapeChar]
  by_cases hc : c = ','
  · subst c; simp [escapeVcardText, escapeChar]
  · simp [escapeVcardText, escapeChar, hb, hr, hn, hs, hc]

theorem escapeVcardText_nil : escapeVcardText [] = [] := rfl

theorem strip_cons (c : Char) (s : Text) :
    strip (c :: s) = if c = '\r' then strip s else c :: strip s := by
  by_cases h : c = '\r' <;> simp [strip, h]

theorem unescape_backslash (c : Char) (s : Text) :
    unescapeVcardText ('\\' :: c :: s) =
      (if c = 'n' ∨ c = 'N' then '\n' else c) :: unescapeVcardText s := by
  simp [unescapeVcardText]

theorem unescape_plain {c : Char} (h : c ≠ '\\') (s : Text) :
    unescapeVcardText (c :: s) = c :: unescapeVcardText s := by
  rw [unescapeVcardText.eq_def]
  split <;> simp_all

/-- The value before a suffix is restored from its escaped form, and the
suffix is read from a fresh start: no escape pair straddles the end. -/
theorem unescape_escape_append (s t : Text) :
    unescapeVcardText (escapeVcardText s ++ t) = strip s ++ unescapeVcardText t := by
  induction s with
  | nil => rfl
  | cons c s ih =>
    rw [escapeVcardText_cons, strip_cons, List.append_assoc]
    by_cases hb : c = '\\'
    · subst c; simp [escapeChar, unescape_backslash, ih]
    by_cases hr : c = '\r'
    · subst c; simpa [escapeChar] using ih
    by_cases hn : c = '\n'
    · subst c; simp [escapeChar, unescape_backslash, ih]
    by_cases hs : c = ';'
    · subst c; simp [escapeChar, unescape_backslash, ih]
    by_cases hc : c = ','
    · subst c; simp [escapeChar, unescape_backslash, ih]
    · simp [escapeChar, hb, hr, hn, hs, hc, unescape_plain hb, ih]

theorem unescape_escape (s : Text) : unescapeVcardText (escapeVcardText s) = strip s := by
  simpa [unescapeVcardText] using unescape_escape_append s []

theorem mem_escapeVcardText {x : Char} {s : Text} (h : x ∈ escapeVcardText s) :
    x ≠ '\r' ∧ x ≠ '\n' := by
  induction s with
  | nil => simp [escapeVcardText_nil] at h
  | cons c s ih =>
    rw [escapeVcardText_cons, List.mem_append] at h
    rcases h with h | h
    · rw [escapeChar] at h
      grind
    · exact ih h

theorem strip_eq_self {s : Text} (h : '\r' ∉ s) : strip s = s := by
  rw [strip, List.filter_eq_self]
  intro c hc
  have hne : c ≠ '\r' := fun he => h (he ▸ hc)
  simpa using hne

/-- Escaped text holds a semicolon only where the value does. -/
theorem semicolon_mem_escape {s : Text} : ';' ∈ escapeVcardText s ↔ ';' ∈ s := by
  induction s with
  | nil => simp [escapeVcardText_nil]
  | cons c s ih =>
    rw [escapeVcardText_cons, List.mem_append, ih, List.mem_cons]
    apply or_congr_left
    rw [escapeChar]
    split_ifs <;> simp_all

theorem escapeVcardText_append (s t : Text) :
    escapeVcardText (s ++ t) = escapeVcardText s ++ escapeVcardText t := by
  simp [escapeVcardText]

end CardDavMcp.VcardText
