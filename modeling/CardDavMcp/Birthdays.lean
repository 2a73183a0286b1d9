import CardDavMcp.Library.Calendar
import CardDavMcp.Library.Utf8Text
import Mathlib.Order.Bounds.Basic

namespace CardDavMcp.Birthdays

open Library.Utf8Text Library.Calendar

def MIN_YEAR : Int := -262143

def MAX_YEAR : Int := 262142

def U32_MAX : Nat := 2 ^ 32 - 1

def Representable (year : Int) : Prop := MIN_YEAR ≤ year ∧ year ≤ MAX_YEAR

instance (year : Int) : Decidable (Representable year) := inferInstanceAs (Decidable (_ ∧ _))

/-- The dates of a range of years. -/
abbrev NaiveDate := { d : Date // Representable d.year }

namespace NaiveDate

def year (d : NaiveDate) : Int := d.1.year

def fromYmdOpt (year : Int) (month day : Nat) : Option NaiveDate :=
  if h : ValidDate year month day ∧ Representable year then
    some ⟨⟨year, month, day, h.1⟩, h.2⟩ else none

def numDays (later earlier : NaiveDate) : Int := later.1.number - earlier.1.number

/-- The date some days later. There is none, and the addition panics, after the
last year. -/
def addDays (d : NaiveDate) (days : Nat) : Option NaiveDate :=
  if h : Representable (d.1.plus days).year then some ⟨d.1.plus days, h⟩ else none

theorem addDays_eq_some {d e : NaiveDate} {days : Nat} :
    d.addDays days = some e ↔ e.1.number = d.1.number + days := by
  rw [← plus_eq_iff, addDays]
  constructor
  · intro h
    split_ifs at h
    exact congrArg Subtype.val (Option.some.inj h)
  · intro h
    rw [dif_pos (h ▸ e.2)]
    exact congrArg some (Subtype.ext h)

theorem fromYmdOpt_eq_some {year : Int} {month day : Nat} {d : NaiveDate} :
    fromYmdOpt year month day = some d ↔ d.1.year = year ∧ d.1.month = month ∧ d.1.day = day := by
  constructor
  · intro h
    rw [fromYmdOpt] at h
    split_ifs at h
    obtain rfl := Option.some.inj h
    exact ⟨rfl, rfl, rfl⟩
  · rintro ⟨rfl, rfl, rfl⟩
    exact dif_pos ⟨d.1.valid, d.2⟩

theorem isSome_fromYmdOpt {year : Int} {month day : Nat} :
    (fromYmdOpt year month day).isSome ↔ ValidDate year month day ∧ Representable year := by
  rw [fromYmdOpt]
  split_ifs with h <;> simp [h]

end NaiveDate

structure Birthday where
  raw : Text
  month : Nat
  day : Nat
  year : Option Int
deriving DecidableEq, Repr

def decimal (digits : Text) : Nat := digits.foldl (fun n c => 10 * n + (c.toNat - '0'.toNat)) 0

def parseDigits (bound : Nat) (digits : Text) : Option Nat :=
  if !digits.isEmpty && digits.all Char.isDigit && decimal digits < bound then some (decimal digits)
  else none

/-- A number of 32 bits in decimal, after an optional plus sign. -/
def parseU32 (s : Text) : Option Nat := parseDigits (2 ^ 32) (stripPrefix ['+'] s)

/-- A signed number of 32 bits in decimal, after an optional sign. -/
def parseI32 : Text → Option Int
  | '-' :: digits => (parseDigits (2 ^ 31 + 1) digits).map fun n => -n
  | s => (parseDigits (2 ^ 31) (stripPrefix ['+'] s)).map fun n => n

/-- The text before the first `T` or `t`. -/
def datePart (raw : Text) : Text := raw.takeWhile fun c => c ≠ 'T' ∧ c ≠ 't'

/-- The digits of the year, unless it is omitted, of the month and of the day. -/
def dateDigits (date : Text) : Option (Option Text × Text × Text) :=
  let digits := date.filter Char.isDigit
  if ['-', '-'].isPrefixOf date then
    if digits.length ≠ 4 then none else some (none, digits.take 2, (digits.drop 2).take 2)
  else if digits.length ≠ 8 then none
  else some (some (digits.take 4), (digits.drop 4).take 2, (digits.drop 6).take 2)

def parseYear : Option Text → Option (Option Int)
  | none => some none
  | some digits => (parseI32 digits).map some

def parseBday (value : Text) : Option Birthday :=
  let raw := trim value
  if raw.isEmpty then none
  else do
    let (year, month, day) ← dateDigits (datePart raw)
    let year ← parseYear year
    let month ← parseU32 month
    let day ← parseU32 day
    -- A leap year, so that 29 February without a year is a birthday.
    if (NaiveDate.fromYmdOpt 2024 month day).isSome &&
        year.all (fun y => (NaiveDate.fromYmdOpt y month day).isSome) then
      some { raw, month, day, year }
    else none

/-- A text of so many digits. -/
structure Digits (n : Nat) (s : Text) : Prop where
  length : s.length = n
  digits : s.all Char.isDigit

theorem Digits.isDigit {n : Nat} {s : Text} (h : Digits n s) {c : Char} (hc : c ∈ s) : c.isDigit :=
  List.all_eq_true.mp h.digits c hc

theorem Digits.take {n : Nat} {s : Text} (h : Digits n s) {k : Nat} (hk : k ≤ n) :
    Digits k (s.take k) where
  length := by rw [List.length_take, h.length, Nat.min_eq_left hk]
  digits := List.all_eq_true.mpr fun _ hc => h.isDigit (List.mem_of_mem_take hc)

theorem Digits.drop {n : Nat} {s : Text} (h : Digits n s) (k : Nat) :
    Digits (n - k) (s.drop k) where
  length := by rw [List.length_drop, h.length]
  digits := List.all_eq_true.mpr fun _ hc => h.isDigit (List.mem_of_mem_drop hc)

theorem digits_filter (date : Text) :
    Digits (date.filter Char.isDigit).length (date.filter Char.isDigit) :=
  ⟨rfl, List.all_eq_true.mpr fun _ hc => (List.mem_filter.mp hc).2⟩

theorem decimal_lt {n : Nat} {s : Text} (h : Digits n s) : decimal s < 10 ^ n := by
  induction s using List.reverseRecOn generalizing n with
  | nil =>
    obtain rfl : 0 = n := h.length
    exact Nat.one_pos
  | append_singleton s c ih =>
    obtain ⟨rfl, hdigits⟩ := h
    rw [List.all_append, Bool.and_eq_true] at hdigits
    have hs := ih ⟨rfl, hdigits.1⟩
    have hc : c.toNat - '0'.toNat < 10 := by
      have hdigit := hdigits.2
      simp only [List.all_cons, List.all_nil, Bool.and_true, Char.isDigit,
        Bool.and_eq_true, ge_iff_le, decide_eq_true_eq] at hdigit
      have hle : c.toNat ≤ 57 := hdigit.2
      have hzero : '0'.toNat = 48 := rfl
      omega
    have hdecimal : decimal (s ++ [c]) = 10 * decimal s + (c.toNat - '0'.toNat) := by
      rw [decimal, decimal, List.foldl_append, List.foldl_cons, List.foldl_nil]
    rw [hdecimal, List.length_append, List.length_singleton, pow_succ]
    omega

theorem parseDigits_eq {n bound : Nat} {s : Text} (h : Digits (n + 1) s)
    (hbound : 10 ^ (n + 1) ≤ bound) :
    parseDigits bound s = some (decimal s) := by
  have hne : s.isEmpty = false := by
    cases s with
    | nil => cases h.length
    | cons => rfl
  have hlt := (decimal_lt h).trans_le hbound
  simp [parseDigits, hne, h.digits, hlt]

/-- Digits have no sign. -/
theorem Digits.stripPrefix {n : Nat} {s : Text} (h : Digits n s) : stripPrefix ['+'] s = s := by
  cases s with
  | nil => rfl
  | cons c s =>
    have hc : c ≠ '+' := by
      rintro rfl
      exact absurd (h.isDigit (List.mem_cons_self ..)) (by decide)
    simp [Library.Utf8Text.stripPrefix, List.dropPrefix?, hc]

theorem parseU32_eq {s : Text} (h : Digits 2 s) : parseU32 s = some (decimal s) := by
  rw [parseU32, h.stripPrefix]
  exact parseDigits_eq h (by decide)

theorem parseI32_eq {s : Text} (h : Digits 4 s) : parseI32 s = some (decimal s : Int) := by
  rw [parseI32.eq_def]
  split
  · next digits =>
    exact absurd (h.isDigit (List.mem_cons_self ..)) (by decide)
  · rw [h.stripPrefix, parseDigits_eq h (by decide)]
    rfl

/-- The fields that `dateDigits` returns are digits of the right number. -/
theorem dateDigits_digits {date m d : Text} {y : Option Text}
    (h : dateDigits date = some (y, m, d)) :
    (∀ digits, y = some digits → Digits 4 digits) ∧ Digits 2 m ∧ Digits 2 d := by
  have hdigits := digits_filter date
  rw [dateDigits] at h
  split_ifs at h with hyear hlength hlength
  all_goals
    rw [not_not] at hlength
    rw [hlength] at hdigits
    cases h
  · exact ⟨nofun, hdigits.take (by decide), (hdigits.drop 2).take (by decide)⟩
  · refine ⟨?_, (hdigits.drop 4).take (by decide), (hdigits.drop 6).take (by decide)⟩
    rintro digits ⟨⟩
    exact hdigits.take (by decide)

/-- A month and day of some year, of the year that is recorded if there is one. -/
def RealDate (year : Option Int) (month day : Nat) : Prop :=
  ValidDate 2024 month day ∧ ∀ born, year = some born → ValidDate born month day ∧
    Representable born

theorem realDate_iff {year : Option Int} {month day : Nat} :
    ((NaiveDate.fromYmdOpt 2024 month day).isSome &&
      year.all (fun y => (NaiveDate.fromYmdOpt y month day).isSome)) = true ↔
        RealDate year month day := by
  have hyear : Representable 2024 := by decide
  simp [NaiveDate.isSome_fromYmdOpt, RealDate, hyear, Option.all_eq_true]

/-- The numbers that the fields of a date write. -/
def birthdayOf (raw : Text) (y : Option Text) (m d : Text) : Birthday :=
  ⟨raw, decimal m, decimal d, y.map fun digits => (decimal digits : Int)⟩

theorem parseBday_eq_some {v : Text} {b : Birthday} : parseBday v = some b ↔
    ∃ y m d, dateDigits (datePart (trim v)) = some (y, m, d) ∧ b = birthdayOf (trim v) y m d ∧
      RealDate b.year b.month b.day := by
  by_cases hempty : (trim v).isEmpty
  · rw [List.isEmpty_iff] at hempty
    simp [parseBday, hempty, datePart, dateDigits]
  rw [parseBday, if_neg hempty]
  cases hdigits : dateDigits (datePart (trim v)) with
  | none => simp
  | some fields =>
    obtain ⟨y, m, d⟩ := fields
    obtain ⟨hy, hm, hd⟩ := dateDigits_digits hdigits
    have hyear : parseYear y = some (y.map fun digits => (decimal digits : Int)) := by
      cases y with
      | none => rfl
      | some digits => rw [parseYear, parseI32_eq (hy digits rfl)]; rfl
    simp only [bind, Option.bind, hyear, parseU32_eq hm, parseU32_eq hd]
    split_ifs with hreal <;> rw [realDate_iff] at hreal
    · constructor
      · intro h
        obtain rfl := Option.some.inj h
        exact ⟨y, m, d, rfl, rfl, hreal⟩
      · rintro ⟨_, _, _, heq, rfl, -⟩
        cases heq
        rfl
    · refine ⟨nofun, ?_⟩
      rintro ⟨_, _, _, heq, rfl, h⟩
      cases heq
      exact absurd h hreal

/-- The date of a birthday in a year. -/
def occurrenceIn (birthday : Birthday) (year : Int) : Option NaiveDate :=
  (NaiveDate.fromYmdOpt year birthday.month birthday.day).or <|
    if birthday.month = 2 ∧ birthday.day = 29 then NaiveDate.fromYmdOpt year 3 1 else none

def daysUntilIn (birthday : Birthday) (today : NaiveDate) : List Int → Nat
  | [] => U32_MAX
  | year :: years =>
    match occurrenceIn birthday year with
    | none => daysUntilIn birthday today years
    | some occurrence =>
      if today ≤ occurrence then
        let days := occurrence.numDays today
        if 0 ≤ days ∧ days ≤ U32_MAX then days.toNat else U32_MAX
      else daysUntilIn birthday today years

def firstYear (birthday : Birthday) (today : NaiveDate) : Int :=
  match birthday.year with
  | none => today.year
  | some born => max born today.year

/-- The days until the next birthday. -/
def daysUntil (birthday : Birthday) (today : NaiveDate) : Nat :=
  let first := firstYear birthday today
  daysUntilIn birthday today [first, first + 1]

def withinWindow (birthday : Birthday) (today : NaiveDate) (days : Nat) : Option Nat :=
  let remaining := daysUntil birthday today
  if remaining ≤ days then some remaining else none

/-- The age at the next birthday, if a year is recorded; nothing at all if the
addition of dates panics. -/
def turning (birthday : Birthday) (today : NaiveDate) : Option (Option Int) :=
  match birthday.year with
  | none => some none
  | some born => do
    let next ← today.addDays (daysUntil birthday today)
    some (some (next.year - born))

end CardDavMcp.Birthdays
