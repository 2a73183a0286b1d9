import Mathlib.Algebra.GroupWithZero.Nat
import Mathlib.Data.List.DropRight
import Mathlib.Data.List.Basic
import Mathlib.Tactic.Common

namespace CardDavMcp.Library.Utf8Text

/-- A string is the sequence of its Unicode scalar values; its length in
bytes is that of its UTF-8 form. -/
abbrev Text := List Char

def byteLen (s : Text) : Nat := (s.map Char.utf8Size).sum

@[simp] theorem byteLen_nil : byteLen [] = 0 := rfl

@[simp] theorem byteLen_cons (c : Char) (s : Text) : byteLen (c :: s) = c.utf8Size + byteLen s := by
  simp [byteLen]

/-- A byte offset is a boundary when it is the length of a prefix. -/
def isCharBoundary : Text → Nat → Bool
  | _, 0 => true
  | [], _ + 1 => false
  | c :: s, n + 1 => c.utf8Size ≤ n + 1 && isCharBoundary s (n + 1 - c.utf8Size)

def takeBytes : Text → Nat → Text
  | [], _ => []
  | c :: s, n => if c.utf8Size ≤ n then c :: takeBytes s (n - c.utf8Size) else []

def dropBytes : Text → Nat → Text
  | [], _ => []
  | c :: s, n => if c.utf8Size ≤ n then dropBytes s (n - c.utf8Size) else c :: s

/-- Step back from an offset to the nearest boundary at or before it. -/
def floorCharBoundary (s : Text) : Nat → Nat
  | 0 => 0
  | n + 1 => if isCharBoundary s (n + 1) then n + 1 else floorCharBoundary s n

theorem takeBytes_append_dropBytes (s : Text) (n : Nat) : takeBytes s n ++ dropBytes s n = s := by
  induction s generalizing n with
  | nil => rfl
  | cons c s ih =>
    by_cases h : c.utf8Size ≤ n
    · simp [takeBytes, dropBytes, h, ih]
    · simp [takeBytes, dropBytes, h]

theorem byteLen_takeBytes (s : Text) (n : Nat) (h : isCharBoundary s n) :
    byteLen (takeBytes s n) = n := by
  induction s generalizing n with
  | nil => cases n with
    | zero => rfl
    | succ n => simp [isCharBoundary] at h
  | cons c s ih =>
    cases n with
    | zero => simp [takeBytes, Nat.not_le.mpr c.utf8Size_pos]
    | succ n =>
      simp only [isCharBoundary, Bool.and_eq_true, decide_eq_true_eq] at h
      rw [takeBytes, if_pos h.1, byteLen_cons, ih _ h.2]
      omega

theorem isCharBoundary_floor (s : Text) (n : Nat) : isCharBoundary s (floorCharBoundary s n) := by
  induction n with
  | zero => cases s <;> rfl
  | succ n ih =>
    by_cases h : isCharBoundary s (n + 1)
    · simp [floorCharBoundary, h]
    · simpa [floorCharBoundary, h] using ih

theorem floorCharBoundary_le (s : Text) (n : Nat) : floorCharBoundary s n ≤ n := by
  induction n with
  | zero => exact le_rfl
  | succ n ih =>
    by_cases h : isCharBoundary s (n + 1)
    · simp [floorCharBoundary, h]
    · simp only [floorCharBoundary, h, Bool.false_eq_true, ↓reduceIte]
      omega

/-- The search never passes a boundary on its way back. -/
theorem le_floorCharBoundary (s : Text) {m n : Nat} (hm : isCharBoundary s m) (hmn : m ≤ n) :
    m ≤ floorCharBoundary s n := by
  induction n with
  | zero => omega
  | succ n ih =>
    by_cases h : isCharBoundary s (n + 1)
    · simpa [floorCharBoundary, h] using hmn
    · have hne : m ≠ n + 1 := fun he => h (he ▸ hm)
      simpa [floorCharBoundary, h] using ih (by omega)

theorem isCharBoundary_head (c : Char) (s : Text) : isCharBoundary (c :: s) c.utf8Size := by
  have hp := c.utf8Size_pos
  obtain ⟨n, hn⟩ : ∃ n, c.utf8Size = n + 1 := ⟨c.utf8Size - 1, by omega⟩
  have hz : isCharBoundary s 0 := by cases s <;> rfl
  rw [hn, isCharBoundary, hn]
  simpa using hz

theorem dropBytes_length_lt (c : Char) (s : Text) {n : Nat} (h : c.utf8Size ≤ n) :
    (dropBytes (c :: s) n).length < (c :: s).length := by
  have hs : (dropBytes s (n - c.utf8Size)).length ≤ s.length := by
    have he := congrArg List.length (takeBytes_append_dropBytes s (n - c.utf8Size))
    rw [List.length_append] at he
    omega
  simpa [dropBytes, h] using Nat.lt_succ_of_le hs

/-- The characters with the Unicode property White_Space. -/
def isWhitespace (c : Char) : Bool :=
  (9 ≤ c.val && c.val ≤ 13) || c.val == 0x20 || c.val == 0x85 || c.val == 0xA0 || c.val == 0x1680 ||
    (0x2000 ≤ c.val && c.val ≤ 0x200A) || c.val == 0x2028 || c.val == 0x2029 || c.val == 0x202F ||
    c.val == 0x205F || c.val == 0x3000

/-- The characters of the Unicode category Cc. -/
def isControl (c : Char) : Bool := c.val ≤ 0x1F || (0x7F ≤ c.val && c.val ≤ 0x9F)

def trim (s : Text) : Text := (s.dropWhile isWhitespace).rdropWhile isWhitespace

theorem filter_dropWhile (s : Text) :
    (s.dropWhile isWhitespace).filter (!isWhitespace ·) = s.filter (!isWhitespace ·) := by
  induction s with
  | nil => rfl
  | cons c s ih =>
    cases hc : isWhitespace c with
    | true =>
      rw [List.dropWhile_cons_of_pos hc, List.filter_cons_of_neg (by simp [hc])]
      exact ih
    | false => rw [List.dropWhile_cons_of_neg (by simp [hc])]

/-- Trimming keeps every character that is not white space. -/
theorem filter_trim (s : Text) :
    (trim s).filter (!isWhitespace ·) = s.filter (!isWhitespace ·) := by
  rw [trim, List.rdropWhile, List.filter_reverse, filter_dropWhile, ← List.filter_reverse,
    List.reverse_reverse, filter_dropWhile]

theorem mem_trim {c : Char} {s : Text} (hc : isWhitespace c = false) (h : c ∈ s) : c ∈ trim s := by
  have hmem : c ∈ s.filter (!isWhitespace ·) := List.mem_filter.mpr ⟨h, by rw [hc]; rfl⟩
  rw [← filter_trim] at hmem
  exact List.mem_of_mem_filter hmem

theorem rdropWhile_append {p : Char → Bool} {t : Text} (h : ∀ c ∈ t, p c = true) (s : Text) :
    (s ++ t).rdropWhile p = s.rdropWhile p := by
  have hrev : ∀ c ∈ t.reverse, p c = true := fun c hc => h c (List.mem_reverse.mp hc)
  rw [List.rdropWhile, List.reverse_append, List.dropWhile_append_of_pos hrev]
  rfl

/-- What follows a text is lost in trimming exactly if it is white space. -/
theorem trim_append_iff (s t : Text) : trim (s ++ t) = trim s ↔ ∀ c ∈ t, isWhitespace c = true := by
  constructor
  · intro h c hc
    have hfilter := congrArg (List.filter (!isWhitespace ·)) h
    rw [filter_trim, filter_trim, List.filter_append, List.append_right_eq_self,
      List.filter_eq_nil_iff] at hfilter
    simpa using hfilter c hc
  · intro h
    rw [trim, trim, List.dropWhile_append]
    split_ifs with hempty
    · have hblank : t.dropWhile isWhitespace = [] := List.dropWhile_eq_nil_iff.mpr h
      rw [hblank, List.isEmpty_iff.mp hempty]
    · exact rdropWhile_append h _

theorem trimBoth_of_forall {p : Char → Bool} {s : Text} (h : ∀ c ∈ s, p c = false) :
    (s.dropWhile p).rdropWhile p = s := by
  have hdrop : s.dropWhile p = s :=
    List.dropWhile_eq_self_iff.mpr fun hpos => by simp [h _ (List.getElem_mem hpos)]
  rw [hdrop]
  exact List.rdropWhile_eq_self_iff.mpr fun hne => by simp [h _ (List.getLast_mem hne)]

theorem trim_of_forall {s : Text} (h : ∀ c ∈ s, isWhitespace c = false) : trim s = s :=
  trimBoth_of_forall h

def trimEndMatches (c : Char) (s : Text) : Text := s.rdropWhile (· == c)

theorem trimEndMatches_of_not_mem {c : Char} {s : Text} (h : c ∉ s) : trimEndMatches c s = s := by
  rw [trimEndMatches, List.rdropWhile_eq_self_iff]
  intro hne heq
  exact h ((beq_iff_eq.mp heq) ▸ List.getLast_mem hne)

def replaceChar (c : Char) (by' : Text) (s : Text) : Text :=
  s.flatMap (fun x => if x = c then by' else [x])

@[simp] theorem replaceChar_nil (c : Char) (r : Text) : replaceChar c r [] = [] := rfl

@[simp] theorem replaceChar_cons (c x : Char) (r s : Text) :
    replaceChar c r (x :: s) = (if x = c then r else [x]) ++ replaceChar c r s := rfl

@[simp] theorem replaceChar_append (c : Char) (r s t : Text) :
    replaceChar c r (s ++ t) = replaceChar c r s ++ replaceChar c r t := by
  simp [replaceChar]

/-- Every line break written as carriage return and line feed becomes a
bare line feed. -/
def replaceCrLf : Text → Text
  | '\r' :: '\n' :: s => '\n' :: replaceCrLf s
  | c :: s => c :: replaceCrLf s
  | [] => []

theorem replaceCrLf_cons {c : Char} (h : c ≠ '\r') (s : Text) :
    replaceCrLf (c :: s) = c :: replaceCrLf s := by
  rw [replaceCrLf]
  rintro s' rfl
  exact absurd rfl h

theorem replaceCrLf_append {s : Text} (h : '\r' ∉ s) (t : Text) :
    replaceCrLf (s ++ t) = s ++ replaceCrLf t := by
  induction s with
  | nil => rfl
  | cons c s ih =>
    simp only [List.mem_cons, not_or] at h
    rw [List.cons_append, replaceCrLf_cons (Ne.symm h.1), ih h.2, List.cons_append]

theorem replaceCrLf_of_not_mem {s : Text} (h : '\r' ∉ s) : replaceCrLf s = s := by
  simpa [replaceCrLf] using replaceCrLf_append h []

def crLf : Text := ['\r', '\n']

/-- The parts of a text between its line breaks. -/
def splitCrLf : Text → List Text
  | '\r' :: '\n' :: s => [] :: splitCrLf s
  | c :: s => (splitCrLf s).modifyHead (c :: ·)
  | [] => [[]]

theorem splitCrLf_append {s : Text} (h : '\r' ∉ s) (t : Text) :
    splitCrLf (s ++ t) = (splitCrLf t).modifyHead (s ++ ·) := by
  induction s with
  | nil => exact (List.modifyHead_id ▸ rfl)
  | cons c s ih =>
    simp only [List.mem_cons, not_or] at h
    rw [List.cons_append, splitCrLf, ih h.2, List.modifyHead_modifyHead]
    · rfl
    · rintro s' rfl
      exact absurd rfl h.1

theorem replaceCrLf_intercalate {rows : List Text} (h : ∀ r ∈ rows, '\r' ∉ r) :
    replaceCrLf (crLf.intercalate rows) = ['\n'].intercalate rows := by
  induction rows with
  | nil => rfl
  | cons r rows ih =>
    have hr := h r List.mem_cons_self
    cases rows with
    | nil => simpa using replaceCrLf_of_not_mem hr
    | cons r' rows =>
      have ih := ih (fun x hx => h x (List.mem_cons_of_mem _ hx))
      rw [List.intercalate_cons_cons, List.intercalate_cons_cons, List.append_assoc,
        replaceCrLf_append hr, ← ih, List.append_assoc]
      rfl

theorem splitCrLf_intercalate {rows : List Text} (hne : rows ≠ []) (h : ∀ r ∈ rows, '\r' ∉ r) :
    splitCrLf (crLf.intercalate rows) = rows := by
  induction rows with
  | nil => exact absurd rfl hne
  | cons r rows ih =>
    have hr := h r List.mem_cons_self
    cases rows with
    | nil => simpa [splitCrLf] using splitCrLf_append hr []
    | cons r' rows =>
      have ih := ih (by simp) (fun x hx => h x (List.mem_cons_of_mem _ hx))
      have hbreak : splitCrLf (crLf ++ crLf.intercalate (r' :: rows)) =
          [] :: splitCrLf (crLf.intercalate (r' :: rows)) := rfl
      rw [List.intercalate_cons_cons, List.append_assoc, splitCrLf_append hr, hbreak, ih]
      simp

theorem intercalate_append {sep : Text} {xs ys : List Text} (hx : xs ≠ []) (hy : ys ≠ []) :
    sep.intercalate (xs ++ ys) = sep.intercalate xs ++ sep ++ sep.intercalate ys := by
  induction xs with
  | nil => exact absurd rfl hx
  | cons x xs ih =>
    cases xs with
    | nil => simp [List.intercalate_cons_of_ne_nil hy]
    | cons x' xs =>
      rw [List.cons_append, List.cons_append, List.intercalate_cons_cons,
        List.intercalate_cons_cons, ← List.cons_append, ih (by simp)]
      simp

/-- The parts of a text around the first occurrence of a character. -/
def splitOnce (c : Char) : Text → Option (Text × Text)
  | [] => none
  | x :: s => if x = c then some ([], s) else (splitOnce c s).map (fun p => (x :: p.1, p.2))

theorem splitOnce_append {c : Char} {s : Text} (h : c ∉ s) (t : Text) :
    splitOnce c (s ++ c :: t) = some (s, t) := by
  induction s with
  | nil => simp [splitOnce]
  | cons x s ih =>
    simp only [List.mem_cons, not_or] at h
    simp [splitOnce, Ne.symm h.1, ih h.2]

theorem splitOnce_of_not_mem {c : Char} {s : Text} (h : c ∉ s) : splitOnce c s = none := by
  induction s with
  | nil => rfl
  | cons x s ih =>
    simp only [List.mem_cons, not_or] at h
    rw [splitOnce, if_neg (Ne.symm h.1), ih h.2, Option.map_none]

theorem splitOnce_eq_none {c : Char} {s : Text} : splitOnce c s = none ↔ c ∉ s := by
  refine ⟨fun h hmem => ?_, splitOnce_of_not_mem⟩
  obtain ⟨before, after, rfl, hbefore⟩ := List.eq_append_cons_of_mem hmem
  rw [splitOnce_append hbefore] at h
  cases h

/-- The text without a leading prefix, where it has that prefix. -/
def stripPrefix (pre s : Text) : Text := (s.dropPrefix? pre).getD s

theorem stripPrefix_eq_self {pre s : Text} (h : ¬ pre <+: s) : stripPrefix pre s = s := by
  cases hdrop : s.dropPrefix? pre with
  | none => rw [stripPrefix, hdrop, Option.getD_none]
  | some rest =>
    obtain ⟨p, rfl, hp⟩ := List.dropPrefix?_eq_some_iff.mp hdrop
    rw [beq_iff_eq] at hp
    exact absurd (hp ▸ List.prefix_append p rest) h

def toAsciiUppercase (s : Text) : Text := s.map Char.toUpper

end CardDavMcp.Library.Utf8Text
