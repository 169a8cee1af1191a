import Mathlib.Tactic.IntervalCases
import ReviewQuorum.Calendar

/-! # Days and dates

`Date.ofDays` finds the date of a day: what it finds is a date of the calendar
(`Date.isValid_ofDays`), and `Date.toDays` counts back to the day (`Date.toDays_ofDays`).

Both rest on the year of an era that a day belongs to. The quotient that gives it never falls from
one day to the next, and it is right on the first and the last day of each of the 400 years; so it
is right on the days between (`Date.yearOfEra_spec`). -/

namespace ReviewQuorum.Date

/-! ### Years of an era -/

/-- The days of an era before a year of it. -/
def startOfYear (year : Nat) : Nat := 365 * year + year / 4 - year / 100 + year / 400

/-- The year of an era that a day of it belongs to. -/
def yearOfEra (day : Nat) : Nat := (day - day / 1460 + day / 36524 - day / 146096) / 365

theorem yearOfEra_succ {day : Nat} (h : day + 1 < daysPerEra) :
    yearOfEra day ≤ yearOfEra (day + 1) := by
  unfold yearOfEra
  rw [daysPerEra] at h
  refine Nat.div_le_div_right ?_
  omega

theorem yearOfEra_mono {a b : Nat} (hab : a ≤ b) (hb : b < daysPerEra) :
    yearOfEra a ≤ yearOfEra b := by
  induction hab with
  | refl => exact Nat.le_refl _
  | step _ ih => exact Nat.le_trans (ih (Nat.lt_of_succ_lt hb)) (yearOfEra_succ hb)

theorem yearOfEra_ends : ∀ year < 400, startOfYear (year + 1) ≤ daysPerEra ∧
    yearOfEra (startOfYear year) = year ∧ yearOfEra (startOfYear (year + 1) - 1) = year := by
  decide +kernel

theorem exists_year (day : Nat) : ∀ n, day < startOfYear n →
    ∃ year < n, startOfYear year ≤ day ∧ day < startOfYear (year + 1)
  | 0, h => absurd h (Nat.not_lt_zero day)
  | n + 1, h => by
    by_cases hn : day < startOfYear n
    · obtain ⟨year, hyear, hdays⟩ := exists_year day n hn
      exact ⟨year, Nat.lt_succ_of_lt hyear, hdays⟩
    · exact ⟨n, Nat.lt_succ_self n, Nat.not_lt.mp hn, h⟩

/-- **A day lies in its year.** -/
theorem yearOfEra_spec {day : Nat} (h : day < daysPerEra) :
    yearOfEra day < 400 ∧ startOfYear (yearOfEra day) ≤ day ∧
      day < startOfYear (yearOfEra day + 1) := by
  obtain ⟨year, hyear, hstart, hend⟩ := exists_year day 400 h
  obtain ⟨hlast, hfirst, hlast'⟩ := yearOfEra_ends year hyear
  have hle : year ≤ yearOfEra day := hfirst ▸ yearOfEra_mono hstart h
  have hge : yearOfEra day ≤ year := by
    rw [← hlast']
    exact yearOfEra_mono (by omega) (by omega)
  rw [Nat.le_antisymm hge hle]
  exact ⟨hyear, hstart, hend⟩

/-- The last day of a long year comes before the March of a leap year. -/
theorem isLeapYear_of_long {year : Nat} (era : Int)
    (h : startOfYear year + 365 < startOfYear (year + 1)) :
    isLeapYear (era * 400 + year + 1) = true := by
  unfold startOfYear at h
  have hleap : (era * 400 + year + 1) % 4 = 0 ∧
      ((era * 400 + year + 1) % 100 ≠ 0 ∨ (era * 400 + year + 1) % 400 = 0) := by omega
  simpa [isLeapYear] using hleap

/-! ### Days -/

/-- The parts that the date of a day is made of: the era, the year of it and the day of that year.
-/
structure Parts (days : Int) (era : Int) (year day : Nat) : Prop where
  shifted : days + epochOffset = era * daysPerEra + (dayOfEra year day : Nat)
  year_lt : year < 400
  day_le : day ≤ 365
  long : day = 365 → isLeapYear (era * 400 + year + 1) = true

/-- The month in a place of a year that starts in March. -/
def monthAt (place : Nat) : Nat := if place < 10 then place + 3 else place - 9

theorem dayOfYear_monthAt {place day : Nat} (hplace : place ≤ 11)
    (hday : (153 * place + 2) / 5 ≤ day) :
    dayOfYear (monthAt place) (day - (153 * place + 2) / 5 + 1) = day := by
  have hback : (monthAt place + 9) % 12 = place := by
    unfold monthAt
    split <;> omega
  unfold dayOfYear
  rw [hback]
  omega

/-- The date of the parts. -/
def ofParts (era : Int) (year day : Nat) : Date :=
  let place := (5 * day + 2) / 153
  ⟨if monthAt place ≤ 2 then era * 400 + year + 1 else era * 400 + year, monthAt place,
    day - (153 * place + 2) / 5 + 1⟩

/-- **The date of a day is made of its parts.** -/
theorem exists_parts (days : Int) : ∃ era year day, Parts days era year day ∧
    ofDays days = ofParts era year day := by
  let shifted := days + epochOffset
  let doe := (shifted % daysPerEra).toNat
  have hpos : (0 : Int) < daysPerEra := by decide
  have hnonneg := Int.emod_nonneg shifted (Int.ne_of_gt hpos)
  have hlt := Int.emod_lt_of_pos shifted hpos
  have hdoe : doe < daysPerEra := by omega
  obtain ⟨hyear, hstart, hend⟩ := yearOfEra_spec hdoe
  have hday : startOfYear (yearOfEra doe) =
      365 * yearOfEra doe + yearOfEra doe / 4 - yearOfEra doe / 100 := by
    unfold startOfYear
    omega
  have hlength : startOfYear (yearOfEra doe + 1) ≤ startOfYear (yearOfEra doe) + 366 := by
    unfold startOfYear
    omega
  refine ⟨shifted / daysPerEra, yearOfEra doe, doe - startOfYear (yearOfEra doe), ⟨?_, hyear, ?_,
    ?_⟩, ?_⟩
  · have hsplit := Int.ediv_mul_add_emod shifted daysPerEra
    unfold dayOfEra
    rw [← hday]
    omega
  · omega
  · intro hlast
    exact isLeapYear_of_long _ (by omega)
  · rw [hday]
    rfl

variable {days era : Int} {year day : Nat}

theorem toDays_eq {date : Date} (hyear : year < 400)
    (hmarch : (if date.month ≤ 2 then date.year - 1 else date.year) = era * 400 + year)
    (hday : dayOfYear date.month date.day = day) :
    date.toDays = era * daysPerEra + (dayOfEra year day : Nat) - epochOffset := by
  have hera : (era * 400 + (year : Int)) / 400 = era := by omega
  have hyearOfEra : ((era * 400 + (year : Int)) % 400).toNat = year := by omega
  simp only [toDays, hmarch, hday, hera, hyearOfEra]

/-- **Counting leads back to the day.** -/
theorem Parts.toDays (h : Parts days era year day) : (ofParts era year day).toDays = days := by
  have hday := h.day_le
  have hback : dayOfYear (ofParts era year day).month (ofParts era year day).day = day :=
    dayOfYear_monthAt (by omega) (by omega)
  have hmarch : (if (ofParts era year day).month ≤ 2 then (ofParts era year day).year - 1
      else (ofParts era year day).year) = era * 400 + year := by
    unfold ofParts
    dsimp only
    split <;> omega
  have hshifted := h.shifted
  rw [toDays_eq h.year_lt hmarch hback]
  omega

/-- **The parts make a date of the calendar.** -/
theorem Parts.isValid (h : Parts days era year day) : (ofParts era year day).isValid = true := by
  obtain ⟨-, -, hday, hlong⟩ := h
  have hplace : (5 * day + 2) / 153 ≤ 11 := by omega
  unfold ofParts Date.isValid daysInMonth monthAt
  generalize hm : (5 * day + 2) / 153 = place at hplace ⊢
  -- Only the last month, February, may be longer in one year than in another.
  rcases Nat.lt_or_ge place 11 with hlt | hge
  · interval_cases place <;> simp <;> omega
  · obtain rfl : place = 11 := by omega
    have hfebruary : day = 365 ∨ day ≤ 364 := by omega
    rcases hfebruary with hlast | hbefore
    · simp [hlong hlast, hlast]
    · have hdays : 28 ≤ if isLeapYear (era * 400 + year + 1) = true then 29 else 28 := by
        split <;> omega
      simp
      omega

/-- **The day of the date of a day.** -/
theorem toDays_ofDays (days : Int) : (ofDays days).toDays = days := by
  obtain ⟨era, year, day, hparts, hdate⟩ := exists_parts days
  rw [hdate, hparts.toDays]

/-- **The date of a day is a date of the calendar.** -/
theorem isValid_ofDays (days : Int) : (ofDays days).isValid = true := by
  obtain ⟨era, year, day, hparts, hdate⟩ := exists_parts days
  rw [hdate, hparts.isValid]

end ReviewQuorum.Date
