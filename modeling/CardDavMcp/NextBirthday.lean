import CardDavMcp.Birthdays

namespace CardDavMcp.NextBirthday

open Library.Utf8Text Library.Calendar Birthdays

variable {b : Birthday} {today occurrence : NaiveDate} {year : Int}

/-- A 29 February that a year does not have. -/
def Missing (b : Birthday) (year : Int) : Prop := b.month = 2 ∧ b.day = 29 ∧ isLeap year = false

instance (b : Birthday) (year : Int) : Decidable (Missing b year) :=
  inferInstanceAs (Decidable (_ ∧ _))

/-- The date on which a birthday falls in a year. -/
def FallsOn (b : Birthday) (year : Int) (occurrence : NaiveDate) : Prop :=
  occurrence.year = year ∧
    (occurrence.1.month, occurrence.1.day) = if Missing b year then (3, 1) else (b.month, b.day)

theorem fromYmdOpt_eq_none {month day : Nat} (h : ¬ Representable year) :
    NaiveDate.fromYmdOpt year month day = none := dif_neg fun hvalid => h hvalid.2

theorem occurrenceIn_eq (h : RealDate b.year b.month b.day) : occurrenceIn b year =
    if Missing b year then NaiveDate.fromYmdOpt year 3 1
    else NaiveDate.fromYmdOpt year b.month b.day := by
  rw [occurrenceIn]
  split_ifs with hleap hmissing hmissing
  · have hnone : NaiveDate.fromYmdOpt year b.month b.day = none := by
      refine dif_neg fun hvalid => not_leapDay hmissing.2.2 ?_
      rw [← hleap.1, ← hleap.2]
      exact hvalid.1
    rw [hnone, Option.none_or]
  · by_cases hrep : Representable year
    · have hvalid := (h.1.in_year year).resolve_right hmissing
      have hsome := NaiveDate.isSome_fromYmdOpt.mpr ⟨hvalid, hrep⟩
      exact Option.or_of_isSome hsome
    · rw [fromYmdOpt_eq_none hrep, fromYmdOpt_eq_none hrep]
      rfl
  · exact absurd ⟨hmissing.1, hmissing.2.1⟩ hleap
  · exact Option.or_none

theorem occurrenceIn_eq_some (h : RealDate b.year b.month b.day) :
    occurrenceIn b year = some occurrence ↔ FallsOn b year occurrence := by
  rw [occurrenceIn_eq h, FallsOn]
  split_ifs <;> rw [NaiveDate.fromYmdOpt_eq_some, Prod.mk.injEq] <;> rfl

/-- A birthday falls on a date in every year. -/
theorem exists_fallsOn (h : RealDate b.year b.month b.day) (hyear : Representable year) :
    ∃ occurrence, FallsOn b year occurrence := by
  have hsome : (occurrenceIn b year).isSome := by
    rw [occurrenceIn_eq h]
    split_ifs with hmissing
    · exact NaiveDate.isSome_fromYmdOpt.mpr
        ⟨⟨Nat.le_refl 1, daysInMonth_pos _ (by decide) (by decide)⟩, hyear⟩
    · exact NaiveDate.isSome_fromYmdOpt.mpr ⟨(h.1.in_year year).resolve_right hmissing, hyear⟩
  obtain ⟨occurrence, hoccurrence⟩ := Option.isSome_iff_exists.mp hsome
  exact ⟨occurrence, (occurrenceIn_eq_some h).mp hoccurrence⟩

theorem FallsOn.unique {other : NaiveDate} (h : FallsOn b year occurrence)
    (h' : FallsOn b year other) :
    occurrence = other := by
  obtain ⟨hmonth, hday⟩ := Prod.mk.inj (h.2.trans h'.2.symm)
  exact Subtype.ext (Date.ext (h.1.trans h'.1.symm) hmonth hday)

/-- Birthdays of later years come later. -/
theorem FallsOn.lt {year' : Int} {other : NaiveDate} (h : FallsOn b year occurrence)
    (h' : FallsOn b year' other) (hlt : year < year') : occurrence < other := by
  apply lt_of_year_lt
  exact h.1.trans_lt (hlt.trans_eq h'.1.symm)

theorem FallsOn.le {year' : Int} {other : NaiveDate} (h : FallsOn b year occurrence)
    (h' : FallsOn b year' other) (hle : year ≤ year') : occurrence ≤ other := by
  obtain rfl | hlt := Int.le_iff_eq_or_lt.mp hle
  · exact (h.unique h').le
  · exact (h.lt h' hlt).le

/-- The day of the year of a birthday, in leap years and in others. -/
def birthdayOfYear (b : Birthday) (leap : Bool) : Nat :=
  if b.month = 2 ∧ b.day = 29 then 60 else dayOfYear leap b.month b.day

theorem FallsOn.number (h : FallsOn b year occurrence) :
    occurrence.1.number = daysBeforeYear year + birthdayOfYear b (isLeap year) := by
  obtain ⟨hyear, hday⟩ := h
  have hyear : occurrence.1.year = year := hyear
  rw [Date.number, hyear, birthdayOfYear]
  split_ifs at hday with hmissing
  · obtain ⟨hmonth, hday⟩ := Prod.mk.inj hday
    rw [if_pos ⟨hmissing.1, hmissing.2.1⟩, hmonth, hday, hmissing.2.2]
    rfl
  · obtain ⟨hmonth, hday⟩ := Prod.mk.inj hday
    rw [hmonth, hday]
    split_ifs with hleap
    · have htrue : isLeap year = true :=
        Bool.of_not_eq_false fun hfalse => hmissing ⟨hleap.1, hleap.2, hfalse⟩
      rw [htrue, hleap.1, hleap.2]
      rfl
    · rfl

/-- A birthday comes at most 366 days after the one before. -/
theorem FallsOn.number_succ {other : NaiveDate} (h : FallsOn b year occurrence)
    (h' : FallsOn b (year + 1) other) : other.1.number ≤ occurrence.1.number + 366 := by
  have hleap : birthdayOfYear b false ≤ birthdayOfYear b true ∧
      birthdayOfYear b true ≤ birthdayOfYear b false + 1 := by
    rw [birthdayOfYear, birthdayOfYear, dayOfYear_leap]
    split_ifs <;> omega
  rw [h.number, h'.number, daysBeforeYear_succ]
  cases isLeap year <;> cases isLeap (year + 1) <;> simp only
    [yearLength, if_true, Bool.false_eq_true, if_false] <;> omega

/-- Any two dates are less than 2^32 days apart. -/
theorem numDays_le (d e : NaiveDate) : d.numDays e ≤ U32_MAX := by
  have hd : d.1.number ≤ daysBeforeYear (MAX_YEAR + 1) := by
    have hyear := daysBeforeYear_le (Int.add_le_add_right d.2.2 1)
    rw [daysBeforeYear_succ] at hyear
    have hday := d.1.dayOfYear_le
    rw [Date.number]
    omega
  have he : daysBeforeYear MIN_YEAR ≤ e.1.number := by
    have hyear := daysBeforeYear_le e.2.1
    rw [Date.number]
    omega
  have hrange : daysBeforeYear (MAX_YEAR + 1) - daysBeforeYear MIN_YEAR ≤ U32_MAX := by decide
  rw [NaiveDate.numDays]
  omega

/-- The years in which a birthday may be celebrated: not before its own. -/
def NotBefore (b : Birthday) (year : Int) : Prop := ∀ born, b.year = some born → born ≤ year

theorem notBefore_firstYear (b : Birthday) (today : NaiveDate) :
    NotBefore b (firstYear b today) ∧ today.year ≤ firstYear b today := by
  rw [NotBefore, firstYear]
  cases b.year with
  | none => exact ⟨nofun, Int.le_refl _⟩
  | some born =>
    refine ⟨?_, Int.le_max_right ..⟩
    rintro _ ⟨⟩
    exact Int.le_max_left ..

theorem firstYear_le (hnot : NotBefore b year) (hyear : today.year ≤ year) :
    firstYear b today ≤ year := by
  rw [firstYear]
  cases hborn : b.year with
  | none => exact hyear
  | some born => exact Int.max_le.mpr ⟨hnot born hborn, hyear⟩

theorem daysUntilIn_cons (h : RealDate b.year b.month b.day)
    (hoccurrence : FallsOn b year occurrence)
    (today : NaiveDate) (years : List Int) : (daysUntilIn b today (year :: years) : Int) =
      if today ≤ occurrence then occurrence.numDays today else daysUntilIn b today years := by
  rw [daysUntilIn, (occurrenceIn_eq_some h).mpr hoccurrence]
  dsimp only
  split_ifs with hle hdays
  · exact Int.toNat_of_nonneg hdays.1
  · have hnonneg : 0 ≤ occurrence.numDays today := Int.sub_nonneg_of_le (number_le.mpr hle)
    exact absurd ⟨hnonneg, numDays_le occurrence today⟩ hdays
  · rfl

/-- Unless there is none, the days lead to an occurrence. -/
theorem daysUntilIn_occurrence (h : RealDate b.year b.month b.day) {years : List Int}
    (hlt : daysUntilIn b today years < U32_MAX) : ∃ year occurrence, FallsOn b year occurrence ∧
      today.addDays (daysUntilIn b today years) = some occurrence := by
  induction years with
  | nil => exact absurd hlt (lt_irrefl _)
  | cons year years ih =>
    rw [daysUntilIn] at hlt ⊢
    cases hoccurrence : occurrenceIn b year with
    | none =>
      rw [hoccurrence] at hlt
      exact ih hlt
    | some occurrence =>
      rw [hoccurrence] at hlt
      dsimp only at hlt ⊢
      split_ifs at hlt ⊢ with hle hdays
      · refine ⟨year, occurrence, (occurrenceIn_eq_some h).mp hoccurrence, ?_⟩
        rw [NaiveDate.addDays_eq_some, Int.toNat_of_nonneg hdays.1, NaiveDate.numDays]
        omega
      · exact absurd hlt (lt_irrefl _)
      · exact ih hlt

/-- The occurrence that `daysUntil` finds: the first that is not over. -/
theorem daysUntil_spec (h : RealDate b.year b.month b.day)
    (hyear : Representable (firstYear b today + 1)) :
    ∃ year occurrence, FallsOn b year occurrence ∧ firstYear b today ≤ year ∧ today ≤ occurrence ∧
      occurrence.1.number = today.1.number + daysUntil b today ∧
      (year = firstYear b today ∨ year = firstYear b today + 1 ∧
        ∃ last, FallsOn b (firstYear b today) last ∧ last < today) := by
  have hle := (notBefore_firstYear b today).2
  have hfirst : Representable (firstYear b today) :=
    ⟨today.2.1.trans hle, (Int.le_add_one (Int.le_refl _)).trans hyear.2⟩
  obtain ⟨first, hfalls⟩ := exists_fallsOn h hfirst
  obtain ⟨next, hnext⟩ := exists_fallsOn h hyear
  have hdays := daysUntilIn_cons h hfalls today [firstYear b today + 1]
  by_cases htoday : today ≤ first
  · rw [if_pos htoday, NaiveDate.numDays] at hdays
    refine ⟨_, first, hfalls, Int.le_refl _, htoday, ?_, .inl rfl⟩
    rw [daysUntil]
    omega
  · have hlater : today ≤ next := le_of_lt (lt_of_year_lt (by
      have hnext := hnext.1
      change today.year < next.year
      omega))
    rw [if_neg htoday, daysUntilIn_cons h hnext, if_pos hlater, NaiveDate.numDays] at hdays
    refine ⟨_, next, hnext, Int.le_add_one (Int.le_refl _), hlater, ?_,
      .inr ⟨rfl, first, hfalls, not_le.mp htoday⟩⟩
    rw [daysUntil]
    omega

/-- A birthday is celebrated some days from a date, in a year that is not before its own. -/
def Celebrated (b : Birthday) (today : NaiveDate) (year : Int) (days : Nat) : Prop :=
  NotBefore b year ∧ ∃ occurrence, occurrenceIn b year = some occurrence ∧
    today.addDays days = some occurrence

/-- What the next birthday is, and what is computed about it. -/
structure Exact (b : Birthday) (today : NaiveDate) : Prop where
  occurs : ∀ year, Representable year → ∃ occurrence, occurrenceIn b year = some occurrence ∧
    FallsOn b year occurrence
  least : IsLeast {days | ∃ year, Celebrated b today year days} (daysUntil b today)
  within_year : NotBefore b today.year → daysUntil b today ≤ 365
  window : ∀ days < U32_MAX, withinWindow b today days =
    if daysUntil b today ≤ days then some (daysUntil b today) else none
  ageless : b.year = none → turning b today = some none
  age : ∀ born, b.year = some born → ∃ year birth, Celebrated b today year (daysUntil b today) ∧
    turning b today = some (some (year - born)) ∧ 0 ≤ year - born ∧
    NaiveDate.fromYmdOpt born b.month b.day = some birth ∧
    (today ≤ birth → year - born = 0) ∧ (birth < today → 1 ≤ year - born)

theorem celebrated_daysUntil (h : RealDate b.year b.month b.day)
    (hyear : Representable (firstYear b today + 1)) :
    ∃ year occurrence, Celebrated b today year (daysUntil b today) ∧
      FallsOn b year occurrence ∧ today.addDays (daysUntil b today) = some occurrence := by
  obtain ⟨year, occurrence, hfalls, hfirst, -, hnumber, -⟩ := daysUntil_spec h hyear
  have hadd := NaiveDate.addDays_eq_some.mpr hnumber
  refine ⟨year, occurrence,
    ⟨fun born hborn => ?_, occurrence, (occurrenceIn_eq_some h).mpr hfalls, hadd⟩, hfalls, hadd⟩
  exact ((notBefore_firstYear b today).1 born hborn).trans hfirst

theorem daysUntil_least (h : RealDate b.year b.month b.day)
    (hyear : Representable (firstYear b today + 1))
    {days : Nat} (hcelebrated : Celebrated b today year days) : daysUntil b today ≤ days := by
  obtain ⟨y, occurrence, hfalls, hfirst, htoday, hnumber, hcase⟩ := daysUntil_spec h hyear
  obtain ⟨hnot, other, hother, hdays⟩ := hcelebrated
  have hother := (occurrenceIn_eq_some h).mp hother
  have hdays := NaiveDate.addDays_eq_some.mp hdays
  have hlater : today ≤ other := number_le.mp (by omega)
  have hle : firstYear b today ≤ year := firstYear_le hnot ((year_le hlater).trans_eq hother.1)
  have hearliest : occurrence ≤ other := by
    obtain rfl | ⟨rfl, last, hlast, hover⟩ := hcase
    · exact hfalls.le hother hle
    obtain rfl | hlt := Int.le_iff_eq_or_lt.mp hle
    · exact absurd (hover.trans_le hlater) (hlast.unique hother).not_lt
    · exact hfalls.le hother (Int.add_one_le_of_lt hlt)
  have hnumbers : occurrence.1.number ≤ other.1.number := number_le.mpr hearliest
  omega

theorem daysUntil_le (h : RealDate b.year b.month b.day)
    (hyear : Representable (firstYear b today + 1))
    (hnot : NotBefore b today.year) : daysUntil b today ≤ 365 := by
  obtain ⟨y, occurrence, hfalls, hfirst, htoday, hnumber, hcase⟩ := daysUntil_spec h hyear
  have hthis : firstYear b today = today.year :=
    Int.le_antisymm (firstYear_le hnot (Int.le_refl _)) (notBefore_firstYear b today).2
  obtain rfl | ⟨rfl, last, hlast, hover⟩ := hcase
  · have hsame : occurrence.1.year = today.1.year := hfalls.1.trans hthis
    have htoday := today.1.dayOfYear_le
    have hday := occurrence.1.dayOfYear_le
    have hlength : yearLength (isLeap today.1.year) ≤ 366 := by cases isLeap today.1.year <;> decide
    rw [hsame] at hday
    rw [Date.number, Date.number, hsame] at hnumber
    omega
  · have hsucc := hlast.number_succ hfalls
    have hlt : last.1.number < today.1.number := number_lt.mpr hover
    omega

/-- If the birth is still to come, it is the next birthday. -/
theorem daysUntil_birth (h : RealDate b.year b.month b.day)
    (hyear : Representable (firstYear b today + 1))
    {born : Int} (hborn : b.year = some born) {birth : NaiveDate} (hbirth : FallsOn b born birth)
    (hle : today ≤ birth) : daysUntil b today ≤ birth.numDays today := by
  have hnumber : 0 ≤ birth.numDays today := Int.sub_nonneg_of_le (number_le.mpr hle)
  have hadd : today.addDays (birth.numDays today).toNat = some birth := by
    rw [NaiveDate.addDays_eq_some, Int.toNat_of_nonneg hnumber, NaiveDate.numDays]
    omega
  have hnot : NotBefore b born := by
    rintro _ hsome
    exact (Option.some.inj (hsome.symm.trans hborn)).le
  have hleast := daysUntil_least h hyear ⟨hnot, birth, (occurrenceIn_eq_some h).mpr hbirth, hadd⟩
  omega

theorem turning_eq {born : Int} (hborn : b.year = some born) (hfalls : FallsOn b year occurrence)
    (hadd : today.addDays (daysUntil b today) = some occurrence) :
    turning b today = some (some (year - born)) := by
  rw [turning, hborn]
  dsimp only
  rw [hadd]
  exact congrArg (fun y => some (some (y - born))) hfalls.1

theorem next_birthday (v : Text) (b : Birthday) (today : NaiveDate) (h : parseBday v = some b)
    (hyear : Representable (firstYear b today + 1)) : Exact b today := by
  obtain ⟨-, -, -, -, -, hreal⟩ := parseBday_eq_some.mp h
  obtain ⟨year, occurrence, hcelebrated, hfalls, hadd⟩ := celebrated_daysUntil hreal hyear
  have hnumber := NaiveDate.addDays_eq_some.mp hadd
  constructor
  · intro year hrep
    obtain ⟨occurrence, hfalls⟩ := exists_fallsOn hreal hrep
    exact ⟨occurrence, (occurrenceIn_eq_some hreal).mpr hfalls, hfalls⟩
  · exact ⟨⟨year, hcelebrated⟩, fun days ⟨_, hdays⟩ => daysUntil_least hreal hyear hdays⟩
  · exact daysUntil_le hreal hyear
  · exact fun _ _ => rfl
  · intro hnone
    rw [turning, hnone]
  · intro born hborn
    have hborn_le : born ≤ year := hcelebrated.1 born hborn
    obtain ⟨hvalid, hrep⟩ := hreal.2 born hborn
    obtain ⟨birth, hbirth⟩ :=
      Option.isSome_iff_exists.mp (NaiveDate.isSome_fromYmdOpt.mpr ⟨hvalid, hrep⟩)
    have hbirth_falls : FallsOn b born birth := by
      rw [← occurrenceIn_eq_some hreal, occurrenceIn, hbirth, Option.some_or]
    refine ⟨year, birth, hcelebrated, turning_eq hborn hfalls hadd,
      Int.sub_nonneg_of_le hborn_le, hbirth, fun hle => ?_, fun hlt => ?_⟩
    · have hdays := daysUntil_birth hreal hyear hborn hbirth_falls hle
      rw [NaiveDate.numDays] at hdays
      have hfirst : occurrence ≤ birth := number_le.mp (by omega)
      have hyears : occurrence.year ≤ birth.year := year_le hfirst
      rw [hfalls.1, hbirth_falls.1] at hyears
      omega
    · by_contra hzero
      obtain rfl : born = year := by omega
      have hlater : today ≤ occurrence := number_le.mp (by omega)
      exact absurd (hlt.trans_le hlater) (hbirth_falls.unique hfalls).not_lt

theorem next_birthday_leap_day : ∃ b today, parseBday "1996-02-29T09:00Z".toList = some b ∧
    today.1 = ⟨2100, 1, 31, by decide⟩ ∧ daysUntil b today = 29 ∧ Exact b today := by
  refine ⟨⟨"1996-02-29T09:00Z".toList, 2, 29, some 1996⟩, ⟨⟨2100, 1, 31, by decide⟩, by decide⟩,
    ?_, rfl, ?_, ?_⟩
  · decide +kernel
  · decide +kernel
  · exact next_birthday "1996-02-29T09:00Z".toList _ _ (by decide +kernel) (by decide)

end CardDavMcp.NextBirthday
