import ReviewQuorum.Text.Decimal

/-! # Decimal digits

The digits of a number lead back to it, also with zeros before them. A text that begins with digits
and goes on with something else is cut in the right place (`takeWhile_digits`). -/

namespace ReviewQuorum.Decimal

/-- What follows a number: it does not begin with a digit. -/
def Stops (cs : List Char) : Prop := ∀ c ∈ cs.head?, c.isDigit = false

theorem stops_nil : Stops [] := nofun

theorem stops_cons {c : Char} {cs : List Char} (h : c.isDigit = false) : Stops (c :: cs) :=
  fun _ hc => Option.some.inj hc ▸ h

variable {ds cs : List Char}

theorem takeWhile_digits (hds : ∀ c ∈ ds, c.isDigit = true) (hcs : Stops cs) :
    (ds ++ cs).takeWhile Char.isDigit = ds := by
  rw [List.takeWhile_append_of_pos hds]
  cases cs with
  | nil => simp
  | cons c cs => simp [hcs c rfl]

theorem dropWhile_digits (hds : ∀ c ∈ ds, c.isDigit = true) (hcs : Stops cs) :
    (ds ++ cs).dropWhile Char.isDigit = cs := by
  rw [List.dropWhile_append_of_pos hds]
  cases cs with
  | nil => rfl
  | cons c cs => rw [List.dropWhile_cons_of_neg]; simp [hcs c rfl]

theorem foldl_pushDigit (cs : List Char) (n : Nat) :
    cs.foldl pushDigit n = Nat.ofDigitChars 10 cs n := Nat.ofDigitChars_eq_foldl.symm

theorem isDigit_of_mem_toDigits {n : Nat} {c : Char} (h : c ∈ Nat.toDigits 10 n) :
    c.isDigit = true := Nat.isDigit_of_mem_toDigits (by decide) (by decide) h

/-- **Digits lead back to the number.** -/
theorem foldl_toDigits (n : Nat) : (Nat.toDigits 10 n).foldl pushDigit 0 = n := by
  rw [foldl_pushDigit, Nat.ofDigitChars_ten_toDigits]

theorem ofNat_injective {m n : Nat} (h : ofNat m = ofNat n) : m = n := by
  have hdigits : Nat.toDigits 10 m = Nat.toDigits 10 n := by
    simpa [ofNat] using congrArg String.toList h
  rw [← foldl_toDigits m, hdigits, foldl_toDigits]

theorem isDigit_of_mem_ofNat {n : Nat} {c : Char} (h : c ∈ (ofNat n).toList) :
    c.isDigit = true := by
  rw [ofNat, String.toList_ofList] at h
  exact isDigit_of_mem_toDigits h

theorem head?_toDigits {n : Nat} (h : 0 < n) : (Nat.toDigits 10 n).head? ≠ some '0' := by
  induction n using Nat.strongRecOn with
  | ind n ih =>
    rcases Nat.lt_or_ge n 10 with hlt | hge
    · rw [Nat.toDigits_of_lt_base hlt]
      simpa [Nat.digitChar_eq_zero] using Nat.ne_of_gt h
    · have hhead := ih (n / 10) (by omega) (by omega)
      rw [Nat.toDigits_of_base_le (by decide) hge]
      cases hds : Nat.toDigits 10 (n / 10) with
      | nil => exact absurd hds Nat.toDigits_ne_nil
      | cons d ds =>
        rw [hds] at hhead
        exact hhead

/-! ### Digits after zeros -/

theorem isDigit_of_mem_padded {width n : Nat} {c : Char} (h : c ∈ padded width n) :
    c.isDigit = true := by
  rcases List.mem_append.mp h with hc | hc
  · rw [List.eq_of_mem_replicate hc]
    decide
  · exact isDigit_of_mem_toDigits hc

/-- **Digits after zeros lead back to the number.** -/
theorem foldl_padded (width n : Nat) : (padded width n).foldl pushDigit 0 = n := by
  rw [padded, foldl_pushDigit, Nat.ofDigitChars_append, Nat.ofDigitChars_replicate_zero,
    Nat.mul_zero, Nat.ofDigitChars_ten_toDigits]

theorem length_padded {width n : Nat} (hpos : 0 < width) (h : n < Nat.pow 10 width) :
    (padded width n).length = width := by
  have hlength := (Nat.length_toDigits_le_iff (b := 10) (n := n) (by decide) hpos).mpr h
  rw [padded, List.length_append, List.length_replicate]
  omega

end ReviewQuorum.Decimal
