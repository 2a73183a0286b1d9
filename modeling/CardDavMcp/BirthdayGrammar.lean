import CardDavMcp.Birthdays

namespace CardDavMcp.BirthdayGrammar

open Library.Utf8Text Library.Calendar Birthdays

variable {v date time m d : Text} {y : Option Text} {b : Birthday}

/-- The four documented ways to write a date: the year may be omitted, and so
may the hyphens. -/
inductive Form : Text → Option Text → Text → Text → Prop
  | extended {y m d : Text} (hy : Digits 4 y) (hm : Digits 2 m) (hd : Digits 2 d) :
      Form (y ++ '-' :: (m ++ '-' :: d)) (some y) m d
  | basic {y m d : Text} (hy : Digits 4 y) (hm : Digits 2 m) (hd : Digits 2 d) :
      Form (y ++ (m ++ d)) (some y) m d
  | extendedNoYear {m d : Text} (hm : Digits 2 m) (hd : Digits 2 d) :
      Form ('-' :: '-' :: (m ++ '-' :: d)) none m d
  | basicNoYear {m d : Text} (hm : Digits 2 m) (hd : Digits 2 d) :
      Form ('-' :: '-' :: (m ++ d)) none m d

/-- What may follow a date: nothing, or `T` and anything. -/
def IsTime (time : Text) : Prop := ∀ c, time.head? = some c → c = 'T' ∨ c = 't'

/-- A day of the calendar, in the year that is recorded if there is one. -/
def Denotes (b : Birthday) : Prop :=
  ∃ year, (∀ born, b.year = some born → year = born) ∧ ValidDate year b.month b.day

/-- The documented meaning of a value. -/
def Documented (v : Text) (b : Birthday) : Prop :=
  ∃ date time y m d, trim v = date ++ time ∧ IsTime time ∧ Form date y m d ∧
    b = birthdayOf (trim v) y m d ∧ Denotes b

/-- The digits of a text, whatever stands between them, are those of a date. -/
def Spells (date : Text) : Option Text → Text → Text → Prop
  | none, m, d => ['-', '-'] <+: date ∧ date.filter Char.isDigit = m ++ d ∧
    m.length = 2 ∧ d.length = 2
  | some y, m, d => ¬ ['-', '-'] <+: date ∧ date.filter Char.isDigit = y ++ (m ++ d) ∧
    y.length = 4 ∧ m.length = 2 ∧ d.length = 2

theorem dateDigits_eq_some : dateDigits date = some (y, m, d) ↔ Spells date y m d := by
  constructor
  · intro h
    obtain ⟨hy, hm, hd⟩ := dateDigits_digits h
    rw [dateDigits] at h
    split_ifs at h with hyear hlength hlength <;> cases h
    · refine ⟨List.isPrefixOf_iff_prefix.mp hyear, ?_, hm.length, hd.length⟩
      rw [List.take_of_length_le (l := List.drop 2 _) (by rw [List.length_drop]; omega),
        List.take_append_drop]
    · refine ⟨mt List.isPrefixOf_iff_prefix.mpr hyear, ?_, (hy _ rfl).length, hm.length, hd.length⟩
      have hdrop : (date.filter Char.isDigit).drop 6 =
        ((date.filter Char.isDigit).drop 4).drop 2 := by
        rw [List.drop_drop]
      rw [List.take_of_length_le (l := List.drop 6 _) (by rw [List.length_drop]; omega), hdrop,
        List.take_append_drop, List.take_append_drop]
  · intro h
    rw [dateDigits]
    cases y with
    | none =>
      obtain ⟨hyear, hdigits, hm, hd⟩ := h
      rw [if_pos (List.isPrefixOf_iff_prefix.mpr hyear), hdigits]
      simp [hm, hd, List.take_of_length_le hd.le]
    | some y =>
      obtain ⟨hyear, hdigits, hy, hm, hd⟩ := h
      rw [if_neg (mt List.isPrefixOf_iff_prefix.mp hyear), hdigits]
      simp [hy, hm, hd, List.drop_append, List.drop_of_length_le, List.take_of_length_le hd.le]

theorem Spells.digits (h : Spells date y m d) :
    (∀ digits, y = some digits → Digits 4 digits) ∧ Digits 2 m ∧ Digits 2 d :=
  dateDigits_digits (dateDigits_eq_some.mpr h)

/-- For a year of four digits, the date is checked as it should be. -/
theorem realDate_iff_denotes (hy : ∀ digits, y = some digits → Digits 4 digits) (raw m d : Text) :
    RealDate (birthdayOf raw y m d).year (decimal m) (decimal d) ↔
      Denotes (birthdayOf raw y m d) := by
  constructor
  · rintro ⟨hleap, hborn⟩
    cases y with
    | none => exact ⟨2024, nofun, hleap⟩
    | some digits => exact ⟨_, fun born heq => Option.some.inj heq, (hborn _ rfl).1⟩
  · rintro ⟨year, hyear, hvalid⟩
    refine ⟨(hvalid.in_year 2024).resolve_right fun h =>
      absurd h.2.2 (by decide), fun born hborn => ?_⟩
    obtain rfl := hyear born hborn
    refine ⟨hvalid, ?_⟩
    obtain ⟨digits, rfl, rfl⟩ := Option.map_eq_some_iff.mp hborn
    have hlt := decimal_lt (hy digits rfl)
    rw [Representable, MIN_YEAR, MAX_YEAR]
    omega

theorem filter_digits {n : Nat} {s : Text} (h : Digits n s) : s.filter Char.isDigit = s :=
  List.filter_eq_self.mpr (List.all_eq_true.mp h.digits)

theorem not_hyphens {n : Nat} {s : Text} (h : Digits (n + 1) s) (rest : Text) :
    ¬ ['-', '-'] <+: s ++ rest := by
  cases s with
  | nil => cases h.length
  | cons c s =>
    rintro ⟨t, ht⟩
    obtain rfl : '-' = c := (List.cons.inj ht).1
    exact absurd (h.isDigit (List.mem_cons_self ..)) (by decide)

/-- A date in a documented form spells its own digits. -/
theorem Form.spells (h : Form date y m d) : Spells date y m d := by
  cases h with
  | extended hy hm hd =>
    refine ⟨not_hyphens hy _, ?_, hy.length, hm.length, hd.length⟩
    simp [filter_digits hy, filter_digits hm, filter_digits hd]
  | basic hy hm hd =>
    refine ⟨not_hyphens hy _, ?_, hy.length, hm.length, hd.length⟩
    simp [filter_digits hy, filter_digits hm, filter_digits hd]
  | extendedNoYear hm hd =>
    refine ⟨⟨_, rfl⟩, ?_, hm.length, hd.length⟩
    simp [filter_digits hm, filter_digits hd]
  | basicNoYear hm hd =>
    refine ⟨⟨_, rfl⟩, ?_, hm.length, hd.length⟩
    simp [filter_digits hm, filter_digits hd]

theorem Form.chars (h : Form date y m d) {c : Char} (hc : c ∈ date) : c.isDigit ∨ c = '-' := by
  cases h with
  | extended hy hm hd =>
    simp only [List.mem_append, List.mem_cons] at hc
    obtain hc | rfl | hc | rfl | hc := hc
    exacts [.inl (hy.isDigit hc), .inr rfl, .inl (hm.isDigit hc), .inr rfl, .inl (hd.isDigit hc)]
  | basic hy hm hd =>
    simp only [List.mem_append] at hc
    obtain hc | hc | hc := hc
    exacts [.inl (hy.isDigit hc), .inl (hm.isDigit hc), .inl (hd.isDigit hc)]
  | extendedNoYear hm hd =>
    simp only [List.mem_append, List.mem_cons] at hc
    obtain rfl | rfl | hc | rfl | hc := hc
    exacts [.inr rfl, .inr rfl, .inl (hm.isDigit hc), .inr rfl, .inl (hd.isDigit hc)]
  | basicNoYear hm hd =>
    simp only [List.mem_append, List.mem_cons] at hc
    obtain rfl | rfl | hc | hc := hc
    exacts [.inr rfl, .inr rfl, .inl (hm.isDigit hc), .inl (hd.isDigit hc)]

/-- A date ends where its time begins. -/
theorem datePart_eq (h : Form date y m d) (htime : IsTime time) :
    datePart (date ++ time) = date := by
  have hdate : ∀ c ∈ date, decide (c ≠ 'T' ∧ c ≠ 't') = true := by
    intro c hc
    rw [decide_eq_true_eq]
    constructor <;> rintro rfl <;> exact absurd (h.chars hc) (by decide)
  rw [datePart, List.takeWhile_append_of_pos hdate]
  cases time with
  | nil => simp
  | cons c time =>
    obtain rfl | rfl := htime c rfl <;> simp

theorem datePart_append (raw : Text) : ∃ time, raw = datePart raw ++ time ∧ IsTime time := by
  refine ⟨_, List.takeWhile_append_dropWhile.symm, fun c hc => ?_⟩
  by_contra hne
  have hstop := List.head?_dropWhile_not (fun c => decide (c ≠ 'T' ∧ c ≠ 't')) raw
  rw [hc] at hstop
  simp only [not_or] at hne
  simp [hne] at hstop

/-- Every documented value is parsed. -/
theorem parseBday_of_documented (h : Documented v b) : parseBday v = some b := by
  obtain ⟨date, time, y, m, d, htrim, htime, hform, rfl, hdenotes⟩ := h
  rw [parseBday_eq_some, htrim, datePart_eq hform htime, ← htrim]
  refine ⟨y, m, d, dateDigits_eq_some.mpr hform.spells, rfl, ?_⟩
  exact (realDate_iff_denotes hform.spells.digits.1 _ _ _).mpr hdenotes

/-- A value is parsed as documented. -/
def Agrees (v : Text) : Prop := ∀ b, parseBday v = some b ↔ Documented v b

/-- The date is in a documented form, or its digits are not those of a date. -/
def Conforms (v : Text) : Prop :=
  (∃ y m d, Form (datePart (trim v)) y m d) ∨
    ∀ y m d, Spells (datePart (trim v)) y m d → ¬ Denotes (birthdayOf (trim v) y m d)

theorem accepts_grammar_iff (v : Text) : Agrees v ↔ Conforms v := by
  constructor
  · intro hagrees
    refine or_iff_not_imp_left.mpr fun hform y m d hspells hdenotes => hform ?_
    have hparse : parseBday v = some (birthdayOf (trim v) y m d) := by
      refine parseBday_eq_some.mpr ⟨y, m, d, dateDigits_eq_some.mpr hspells, rfl, ?_⟩
      exact (realDate_iff_denotes hspells.digits.1 _ _ _).mpr hdenotes
    obtain ⟨date, time, y, m, d, htrim, htime, hform, -, -⟩ := (hagrees _).mp hparse
    rw [htrim, datePart_eq hform htime]
    exact ⟨y, m, d, hform⟩
  · intro hconforms b
    refine ⟨fun hparse => ?_, parseBday_of_documented⟩
    obtain ⟨y, m, d, hdigits, rfl, hreal⟩ := parseBday_eq_some.mp hparse
    have hspells := dateDigits_eq_some.mp hdigits
    have hdenotes := (realDate_iff_denotes hspells.digits.1 _ _ _).mp hreal
    obtain ⟨y', m', d', hform⟩ | hnone := hconforms
    · obtain ⟨time, htrim, htime⟩ := datePart_append (trim v)
      rw [dateDigits_eq_some.mpr hform.spells] at hdigits
      cases hdigits
      exact ⟨_, time, y, m, d, htrim, htime, hform, rfl, hdenotes⟩
    · exact absurd hdenotes (hnone y m d hspells)

/-- A date with slashes is not documented, but it is parsed. -/
theorem slashes_parsed : ¬ Agrees "1984/03/17".toList := by
  intro hagrees
  have hparse : parseBday "1984/03/17".toList = some ⟨"1984/03/17".toList, 3, 17, some 1984⟩ := by
    decide +kernel
  obtain ⟨date, time, y, m, d, htrim, htime, hform, -, -⟩ := (hagrees _).mp hparse
  have hdate := datePart_eq hform htime
  rw [← htrim] at hdate
  have hslash : '/' ∈ date := hdate ▸ (by decide +kernel)
  exact absurd (hform.chars hslash) (by decide)

end CardDavMcp.BirthdayGrammar
