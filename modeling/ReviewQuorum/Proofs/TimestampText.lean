import ReviewQuorum.Proofs.CivilCalendar
import ReviewQuorum.Proofs.Decimals
import ReviewQuorum.Timestamp.Text

/-! # Instants come back from their text

An instant is `Civil` if its year is in range and if it is no leap second, or one at the end of a
minute. The text of such an instant is read as the instant itself (`Timestamp.ofText?_toText`), and
that of no other one (`Timestamp.ofText?_toText_iff`): a leap second elsewhere is written as the
second after it. One lemma for each part of the text says that it is read off from the front. -/

namespace ReviewQuorum

/-! ### Blanks -/

namespace Text

theorem isBlank_of_isDigit {c : Char} (h : c.isDigit = true) : isBlank c = false := by
  simp only [Char.isDigit, Bool.and_eq_true, decide_eq_true_eq] at h
  obtain ⟨hle, hge⟩ := h
  have hle : 48 ≤ c.toNat := hle
  have hge : c.toNat ≤ 57 := hge
  simp only [isBlank, Bool.or_eq_false_iff, Bool.and_eq_false_iff, decide_eq_false_iff_not,
    beq_eq_false_iff_ne]
  omega

theorem trimLeft_cons {c : Char} (h : isBlank c = false) (cs : List Char) :
    trimLeft (c :: cs) = c :: cs := by
  rw [trimLeft, List.dropWhile_cons_of_neg (by simp [h])]

theorem trimLeft_digits {ds : List Char} (hds : ∀ c ∈ ds, c.isDigit = true) (hne : ds ≠ [])
    (cs : List Char) : trimLeft (ds ++ cs) = ds ++ cs := by
  cases ds with
  | nil => exact absurd rfl hne
  | cons d ds => exact trimLeft_cons (isBlank_of_isDigit (hds d List.mem_cons_self)) _

end Text

namespace Timestamp

open Decimal (padded)

/-- The instants with a year in range; only the last second of a minute is followed by a leap
second. -/
structure Civil (t : Timestamp) : Prop where
  year : yearInRange (Date.ofDays (t.second / secondsPerDay)).year = true
  leap : t.nanos < nanosPerSecond ∨ t.second % 60 = 59

instance (t : Timestamp) : Decidable t.Civil :=
  decidable_of_iff (yearInRange (Date.ofDays (t.second / secondsPerDay)).year = true ∧
      (t.nanos < nanosPerSecond ∨ t.second % 60 = 59))
    ⟨fun h => ⟨h.1, h.2⟩, fun h => ⟨h.year, h.leap⟩⟩

/-! ### Numbers -/

variable {cs : List Char}

/-- **A number of digits** is read up to where it stops, or up to the most digits that it may have.
-/
theorem number?_digits {most : Nat} {ds : List Char} (hds : ∀ c ∈ ds, c.isDigit = true)
    (hne : ds ≠ []) (hmost : ds.length ≤ most) (hcs : ds.length = most ∨ Decimal.Stops cs) :
    number? most (ds ++ cs) = some (ds.foldl Decimal.pushDigit 0, cs) := by
  have hstops : Decimal.Stops (cs.take (most - ds.length)) := by
    rcases hcs with hfull | hcs
    · rw [hfull, Nat.sub_self]
      exact Decimal.stops_nil
    · intro c hc
      cases cs with
      | nil => simp at hc
      | cons d cs =>
        cases hk : most - ds.length with
        | zero => simp [hk] at hc
        | succ k => exact hcs c (by simpa [hk] using hc)
  have htake : ((ds ++ cs).take most).takeWhile Char.isDigit = ds := by
    rw [List.take_append, List.take_of_length_le hmost, Decimal.takeWhile_digits hds hstops]
  simp [number?, htake, hne]

theorem padded_ne_nil (width n : Nat) : padded width n ≠ [] := by
  simp [padded, Nat.toDigits_ne_nil]

theorem number?_padded {width n : Nat} (hpos : 0 < width) (hn : n < 10 ^ width) (cs : List Char) :
    number? width (padded width n ++ cs) = some (n, cs) := by
  have hlength := Decimal.length_padded hpos hn
  rw [number?_digits (fun _ => Decimal.isDigit_of_mem_padded) (padded_ne_nil _ _) hlength.le
    (.inl hlength), Decimal.foldl_padded]

theorem field?_padded {least largest n : Nat} (hleast : least ≤ n) (hlargest : n ≤ largest)
    (hn : n < 100) (cs : List Char) :
    field? least largest (padded 2 n ++ cs) = some (n, cs) := by
  have htrim : Text.trimLeft (padded 2 n ++ cs) = padded 2 n ++ cs :=
    Text.trimLeft_digits (fun _ => Decimal.isDigit_of_mem_padded) (padded_ne_nil _ _) cs
  rw [field?, htrim, number?_padded (by decide) hn]
  simp [hleast, hlargest]

theorem separator?_cons {c : Char} (h : Text.isBlank c = false) (cs : List Char) :
    separator? c (c :: cs) = some cs := by
  rw [separator?, Text.trimLeft_cons h]
  simp [Text.dropPrefix?]

/-! ### Dates -/

theorem year?_padded {n : Nat} (hn : n < 10000) (cs : List Char) :
    year? (padded 4 n ++ cs) = some ((n : Int), cs) := by
  have hdigits : ∀ c ∈ padded 4 n, c.isDigit = true := fun _ => Decimal.isDigit_of_mem_padded
  have hsign {c : Char} {rest : List Char} (hc : c.isDigit = false) :
      padded 4 n ++ cs ≠ c :: rest := by
    intro heq
    cases hds : padded 4 n with
    | nil => exact padded_ne_nil _ _ hds
    | cons d ds =>
      rw [hds] at heq hdigits
      obtain rfl : d = c := (List.cons.inj heq).1
      exact Bool.false_ne_true (hc.symm.trans (hdigits _ List.mem_cons_self))
  rw [year?, Text.trimLeft_digits hdigits (padded_ne_nil _ _) cs]
  split
  · exact absurd ‹_› (hsign (by decide))
  · exact absurd ‹_› (hsign (by decide))
  · rw [number?_padded (by decide) hn, Option.map_some]

/-- **A year**, which has a sign unless it has four digits. -/
theorem year?_yearText (year : Int) (hcs : Decimal.Stops cs) :
    year? (yearText year ++ cs) = some (year, cs) := by
  have hnumber : number? (padded 4 year.natAbs ++ cs).length (padded 4 year.natAbs ++ cs) =
      some (year.natAbs, cs) := by
    rw [number?_digits (fun _ => Decimal.isDigit_of_mem_padded) (padded_ne_nil _ _) (by simp)
      (.inr hcs), Decimal.foldl_padded]
  unfold yearText
  split_ifs with hdigits hneg
  · rw [year?_padded (by omega), Int.toNat_of_nonneg hdigits.1]
  · have habs : -(year.natAbs : Int) = year := by omega
    rw [List.cons_append, year?, Text.trimLeft_cons (by decide)]
    simp only [hnumber, Option.map_some, habs]
  · have habs : (year.natAbs : Int) = year := by omega
    rw [List.cons_append, year?, Text.trimLeft_cons (by decide)]
    simp only [hnumber, Option.map_some, habs]

theorem daysInMonth_le (year : Int) (month : Nat) : Date.daysInMonth year month ≤ 31 := by
  unfold Date.daysInMonth
  split
  · split <;> decide
  · split <;> decide

/-- **A date**, whose year has to be in range. -/
theorem date?_chars {date : Date} (hvalid : date.isValid = true) (cs : List Char) :
    date? (yearText date.year ++ '-' :: (padded 2 date.month ++ '-' :: (padded 2 date.day ++ cs))) =
      if yearInRange date.year then some (date, cs) else none := by
  have hparts := hvalid
  simp only [Date.isValid, Bool.and_eq_true, decide_eq_true_eq] at hparts
  obtain ⟨⟨⟨hmonth, hmonth'⟩, hday⟩, hday'⟩ := hparts
  have hday' : date.day ≤ 31 := hday'.trans (daysInMonth_le _ _)
  rw [date?, year?_yearText _ (Decimal.stops_cons (by decide))]
  simp only [Option.bind_eq_bind, Option.bind_some, separator?_cons (c := '-') (by decide),
    field?_padded hmonth hmonth' (by omega), field?_padded hday hday' (by omega)]
  simp only [hvalid, and_true]

/-! ### Times of day -/

theorem fraction?_padded (width : Nat) {nanos : Nat} (hpos : 0 < width) (hwidth : width ≤ 9)
    (hnanos : nanos < 1000000000) (hexact : nanos % 10 ^ (9 - width) = 0)
    (hcs : Decimal.Stops cs) :
    fraction? ('.' :: (padded width (nanos / 10 ^ (9 - width)) ++ cs)) = some (nanos, cs) := by
  have hpow : 10 ^ width * 10 ^ (9 - width) = 1000000000 := by
    rw [← Nat.pow_add, Nat.add_sub_cancel' hwidth]
  have hlt : nanos / 10 ^ (9 - width) < 10 ^ width :=
    Nat.div_lt_of_lt_mul (by rw [Nat.mul_comm, hpow]; exact hnanos)
  have hlength : (padded width (nanos / 10 ^ (9 - width))).length = width :=
    Decimal.length_padded hpos hlt
  have hdigits : ∀ c ∈ padded width (nanos / 10 ^ (9 - width)), c.isDigit = true :=
    fun _ => Decimal.isDigit_of_mem_padded
  have hnumber : number? 9 (padded width (nanos / 10 ^ (9 - width)) ++ cs) =
      some (nanos / 10 ^ (9 - width), cs) := by
    rw [number?_digits hdigits (padded_ne_nil _ _) (hlength.le.trans hwidth) (.inr hcs),
      Decimal.foldl_padded]
  have hback : nanos / 10 ^ (9 - width) * Nat.pow 10 (9 - width) = nanos :=
    Nat.div_mul_cancel (Nat.dvd_of_mod_eq_zero hexact)
  have hdrop : ([] ++ cs).dropWhile Char.isDigit = cs :=
    Decimal.dropWhile_digits (fun _ hc => absurd hc List.not_mem_nil) hcs
  rw [fraction?, hnumber]
  simp only [Option.bind_eq_bind, Option.bind_some, List.length_append, hlength,
    Nat.add_sub_cancel, hback]
  exact congrArg (fun rest => some (nanos, rest)) hdrop

/-- **A fraction of a second.** -/
theorem fraction?_fractionText {nanos : Nat} (hnanos : nanos < 1000000000) (cs : List Char) :
    fraction? (fractionText nanos ++ 'Z' :: cs) = some (nanos, 'Z' :: cs) := by
  have hstops : Decimal.Stops ('Z' :: cs) := Decimal.stops_cons (by decide)
  unfold fractionText
  split
  · rename_i hzero
    rw [hzero]
    rfl
  · split
    · exact fraction?_padded 3 (by decide) (by decide) hnanos ‹_› hstops
    · split
      · exact fraction?_padded 6 (by decide) (by decide) hnanos ‹_› hstops
      · have h := fraction?_padded 9 (by decide) (by decide) hnanos
          (Nat.mod_one nanos) hstops
        rwa [Nat.sub_self, Nat.pow_zero, Nat.div_one] at h

/-- **A time of day**, with a leap second or none. -/
theorem timeOfDay?_chars {time leap nanos : Nat} (htime : time < secondsPerDay)
    (hleap : leap = 0 ∨ leap = 1 ∧ time % 60 = 59) (hnanos : nanos < 1000000000)
    (cs : List Char) :
    timeOfDay? (padded 2 (time / 3600) ++ ':' :: (padded 2 (time / 60 % 60) ++
      ':' :: (padded 2 (time % 60 + leap) ++ (fractionText nanos ++ 'Z' :: cs)))) =
      some ((time, nanos + leap * nanosPerSecond), 'Z' :: cs) := by
  rw [secondsPerDay] at htime
  have hsecond : (time % 60 + leap) / 60 = leap := by omega
  have hsum : time / 3600 * 3600 + time / 60 % 60 * 60 + (time % 60 + leap - leap) = time := by
    omega
  rw [timeOfDay?, field?_padded (Nat.zero_le _) (by omega) (by omega)]
  simp only [Option.bind_eq_bind, Option.bind_some, separator?_cons (c := ':') (by decide)]
  rw [field?_padded (Nat.zero_le _) (by omega) (by omega)]
  simp only [Option.bind_some, separator?_cons (c := ':') (by decide)]
  rw [field?_padded (Nat.zero_le _) (by omega) (by omega)]
  simp only [Option.bind_some, fraction?_fractionText hnanos, hsecond, hsum]

/-! ### Instants -/

theorem chars_eq (t : Timestamp) :
    let date := Date.ofDays (t.second / secondsPerDay)
    let time := (t.second % secondsPerDay).toNat
    let leap := t.nanos / nanosPerSecond
    t.chars = yearText date.year ++ '-' :: (padded 2 date.month ++ '-' :: (padded 2 date.day ++
      'T' :: (padded 2 (time / 3600) ++ ':' :: (padded 2 (time / 60 % 60) ++
        ':' :: (padded 2 (time % 60 + leap) ++
          (fractionText (t.nanos % nanosPerSecond) ++ ['Z'])))))) := by
  simp only [chars, List.append_assoc, List.cons_append]

theorem ofParts_second_nanos (t : Timestamp) : ofParts t.second t.nanos = t := by
  obtain ⟨ticks⟩ := t
  have hpos : (0 : Int) < ticksPerSecond := by decide
  have hnonneg := Int.emod_nonneg ticks (Int.ne_of_gt hpos)
  have hsplit := Int.ediv_mul_add_emod ticks ticksPerSecond
  simp only [ofParts, second, nanos, Timestamp.mk.injEq]
  omega

theorem nanos_lt (t : Timestamp) : t.nanos < ticksPerSecond := by
  have hpos : (0 : Int) < ticksPerSecond := by decide
  have hnonneg := Int.emod_nonneg t.ticks (Int.ne_of_gt hpos)
  have hlt := Int.emod_lt_of_pos t.ticks hpos
  unfold nanos
  omega

/-- **Instants come back from their text.** -/
theorem ofText?_toText {t : Timestamp} (h : t.Civil) : ofText? t.toText = some t := by
  have hpos : (0 : Int) < secondsPerDay := by decide
  have hnonneg := Int.emod_nonneg t.second (Int.ne_of_gt hpos)
  have hlt := Int.emod_lt_of_pos t.second hpos
  have hsplit := Int.ediv_mul_add_emod t.second secondsPerDay
  have htime : (t.second % secondsPerDay).toNat < secondsPerDay := by omega
  have hnanos : t.nanos % nanosPerSecond < 1000000000 := Nat.mod_lt _ (by decide)
  have hleap : t.nanos / nanosPerSecond = 0 ∨ t.nanos / nanosPerSecond = 1 ∧
      (t.second % secondsPerDay).toNat % 60 = 59 := by
    have hticks := t.nanos_lt
    have hleap := h.leap
    simp only [secondsPerDay, ticksPerSecond, nanosPerSecond] at *
    omega
  have hdate := Date.isValid_ofDays (t.second / secondsPerDay)
  have hdays := Date.toDays_ofDays (t.second / secondsPerDay)
  rw [ofText?, toText, String.toList_ofList, chars_eq, ofChars?,
    date?_chars hdate, if_pos h.year]
  simp only [Option.bind_eq_bind, Option.bind_some]
  rw [timeOfDay?_chars htime hleap hnanos]
  have hutc : (Date.ofDays (t.second / secondsPerDay)).toDays * secondsPerDay +
      (t.second % secondsPerDay).toNat - 0 * 60 = t.second := by
    rw [hdays]
    omega
  have hoffset : offset? (Text.trimLeft ['Z']) = some (0, []) := by decide
  have hend : (!(Text.trimLeft []).isEmpty) = false := by decide
  simp only [Option.bind_some, hoffset, hend, hutc, h.year, Nat.mod_add_div',
    ofParts_second_nanos]
  rfl

/-- A leap second has passed in the next second. -/
theorem nextSecond_of_leap {t : Timestamp} (h : nanosPerSecond ≤ t.nanos) :
    t.nextSecond.second = t.second + 1 ∧ t.nextSecond.nanos = t.nanos - nanosPerSecond := by
  rw [nextSecond, if_neg (Nat.not_lt.mpr h)]
  simp only [second, nanos, ticksPerSecond, nanosPerSecond] at h ⊢
  omega

theorem day_succ {second : Int} (h : second % 60 ≠ 59) :
    (second + 1) / secondsPerDay = second / secondsPerDay ∧
      ((second + 1) % secondsPerDay).toNat = (second % secondsPerDay).toNat + 1 := by
  simp only [secondsPerDay]
  omega

/-- A leap second that is not at the end of a minute is written as the second after it. -/
theorem toText_nextSecond {t : Timestamp} (hnanos : nanosPerSecond ≤ t.nanos)
    (hsecond : t.second % 60 ≠ 59) : t.nextSecond.toText = t.toText := by
  have hfields (n : Nat) (hn : n % 60 ≠ 59) : (n + 1) / 3600 = n / 3600 ∧
      (n + 1) / 60 % 60 = n / 60 % 60 ∧ (n + 1) % 60 = n % 60 + 1 := by omega
  have hminute : (t.second % secondsPerDay).toNat % 60 ≠ 59 := by
    rw [secondsPerDay]
    omega
  have hlt := t.nanos_lt
  have hnext := nextSecond_of_leap hnanos
  simp only [ticksPerSecond, nanosPerSecond] at hlt hnanos hnext
  have hleap : t.nanos / 1000000000 = 1 ∧ (t.nanos - 1000000000) / 1000000000 = 0 ∧
      (t.nanos - 1000000000) % 1000000000 = t.nanos % 1000000000 := by omega
  simp only [toText, chars, nanosPerSecond, hnext, day_succ hsecond, hfields _ hminute, hleap,
    Nat.add_zero]

/-- **The civil instants are the ones that come back from their text.** -/
theorem ofText?_toText_iff {t : Timestamp} : ofText? t.toText = some t ↔ t.Civil := by
  refine ⟨fun h => ?_, ofText?_toText⟩
  have hyear : yearInRange (Date.ofDays (t.second / secondsPerDay)).year = true := by
    by_contra hyear
    rw [ofText?, toText, String.toList_ofList, chars_eq, ofChars?,
      date?_chars (Date.isValid_ofDays _), if_neg hyear] at h
    cases h
  refine ⟨hyear, ?_⟩
  by_contra hleap
  obtain ⟨hnanos, hsecond⟩ := not_or.mp hleap
  have hnanos := Nat.not_lt.mp hnanos
  obtain ⟨hnext, hnextNanos⟩ := nextSecond_of_leap hnanos
  have hcivil : t.nextSecond.Civil := by
    refine ⟨by rw [hnext, (day_succ hsecond).1, hyear], .inl ?_⟩
    have hlt := t.nanos_lt
    rw [ticksPerSecond] at hlt
    omega
  -- Both instants have one text, which is read as the later one.
  have hsame := ofText?_toText hcivil
  rw [toText_nextSecond hnanos hsecond, h] at hsame
  exact Int.ne_of_lt t.ticks_lt_nextSecond (congrArg ticks (Option.some.inj hsame))

-- The clock stops where the calendar does: the text of the next second is no longer read.
example : (ofParts lastSecond 0).toText = "+262142-12-31T23:59:59Z" ∧
    ofText? (ofParts lastSecond 0).nextSecond.toText = none := by decide +kernel

end Timestamp

end ReviewQuorum
