import ReviewQuorum.Grammar
import ReviewQuorum.Proofs.Decimals
import ReviewQuorum.Proofs.Spacing

/-! # The lines that are commands

What a line is read as, told by what the line is put together from. A line that `Calls` has the
trigger behind blanks or at its beginning, with the end or a blank after it. If it writes a number
of reviewers, and perhaps the name of a role, it `Asks` for them. Every other line that calls
`Fails`, in one of four ways: without a word, with words that cannot be read, with a word that names
no role, or with a number out of bounds.

These are all the outcomes, and each of them is that of the lines which are put together so
(`line_outcomes`); a line that does not call is no command. -/

namespace ReviewQuorum

open Text

/-! ### Integers -/

namespace Decimal

/-- One ASCII digit or more. -/
structure IsDigits (ds : List Char) : Prop where
  ne_nil : ds ≠ []
  digits : ∀ c ∈ ds, c.isDigit = true

/-- **What writes an integer**: a sign or none, then digits. Zeros may come first. -/
inductive Writes : List Char → Int → Prop
  | unsigned {ds : List Char} (h : IsDigits ds) : Writes ds (Nat.ofDigitChars 10 ds 0)
  | plus {ds : List Char} (h : IsDigits ds) : Writes ('+' :: ds) (Nat.ofDigitChars 10 ds 0)
  | minus {ds : List Char} (h : IsDigits ds) : Writes ('-' :: ds) (-(Nat.ofDigitChars 10 ds 0))

variable {ds w : List Char} {n : Int}

theorem toNat?_eq_some_iff {n : Nat} :
    toNat? ds = some n ↔ IsDigits ds ∧ n = Nat.ofDigitChars 10 ds 0 := by
  rw [toNat?, foldl_pushDigit]
  constructor
  · intro h
    split_ifs at h with hds
    rw [Bool.and_eq_true, Bool.not_eq_true', List.isEmpty_eq_false_iff, List.all_eq_true] at hds
    exact ⟨⟨hds.1, hds.2⟩, (Option.some.inj h).symm⟩
  · rintro ⟨⟨hne, hdigits⟩, rfl⟩
    rw [if_pos]
    rw [Bool.and_eq_true, Bool.not_eq_true', List.isEmpty_eq_false_iff, List.all_eq_true]
    exact ⟨hne, hdigits⟩

/-- **`toInt?` reads what writes an integer.** -/
theorem toInt?_eq_some_iff : toInt? w = some n ↔ Writes w n := by
  constructor
  · intro h
    unfold toInt? at h
    split at h
    all_goals
      obtain ⟨m, hm, rfl⟩ := Option.map_eq_some_iff.mp h
      obtain ⟨hds, rfl⟩ := toNat?_eq_some_iff.mp hm
    · exact .plus hds
    · exact .minus hds
    · exact .unsigned hds
  · intro h
    cases h with
    | plus h => simp [toInt?, toNat?_eq_some_iff.mpr ⟨h, rfl⟩]
    | minus h => simp [toInt?, toNat?_eq_some_iff.mpr ⟨h, rfl⟩]
    | unsigned h =>
      have hplain : toInt? w = (toNat? w).map Int.ofNat := by
        -- a digit is no sign
        unfold toInt?
        split
        · exact absurd (h.digits '+' List.mem_cons_self) (by decide)
        · exact absurd (h.digits '-' List.mem_cons_self) (by decide)
        · rfl
      rw [hplain, toNat?_eq_some_iff.mpr ⟨h, rfl⟩]
      rfl

theorem IsDigits.unbroken (h : IsDigits ds) : Unbroken ds :=
  fun c hc => isBlank_of_isDigit (h.digits c hc)

theorem Writes.isWord (h : Writes w n) : IsWord w := by
  cases h with
  | unsigned h => exact ⟨h.ne_nil, h.unbroken⟩
  | plus h => exact ⟨List.cons_ne_nil _ _, List.forall_mem_cons.mpr ⟨by decide, h.unbroken⟩⟩
  | minus h => exact ⟨List.cons_ne_nil _ _, List.forall_mem_cons.mpr ⟨by decide, h.unbroken⟩⟩

end Decimal

/-! ### Names of roles -/

namespace Role

/-- **A name stands for the role that has it**; no two roles share one. -/
theorem ofName?_eq_some_iff {s : String} {r : Role} : ofName? s = some r ↔ s ∈ r.names := by
  constructor
  · intro h
    simpa using List.find?_some h
  · have hnames : ∀ s ∈ r.names, ofName? s = some r := by cases r <;> decide
    exact hnames s

theorem ofName?_eq_none_iff {s : String} : ofName? s = none ↔ ∀ r, s ∉ Role.names r := by
  rw [Option.eq_none_iff_forall_ne_some]
  exact forall_congr' fun r => not_congr ofName?_eq_some_iff

theorem isWord_of_mem_names {s : String} {r : Role} (h : s ∈ r.names) : IsWord s.toList := by
  have hnames : ∀ s ∈ r.names, s.toList ≠ [] ∧ Unbroken s.toList := by cases r <;> decide
  exact ⟨(hnames s h).1, (hnames s h).2⟩

end Role

/-! ### What lines are put together from -/

/-- A line that begins, blanks aside, with the trigger; what is left is empty or begins with a
blank. -/
structure Calls (line rest : List Char) : Prop where
  split : ∃ before, line = before ++ (trigger.toList ++ rest) ∧ Blanks before
  apart : Apart rest

/-- A word that can be read as a number: an integer of 64 bits. -/
structure Counts (w : List Char) (n : Int) : Prop where
  writes : Decimal.Writes w n
  least : -(2 ^ 63) ≤ n
  greatest : n < 2 ^ 63

/-- A number that has overrun a bound. -/
def Bound.Overrun (n : Int) : Bound → Prop
  | .upper => 10 < n
  | .lower => n < 0

/-- The words for a role, or for none. -/
inductive NamesRole : List (List Char) → Option Role → Prop
  | none : NamesRole [] .none
  | some {name : String} {r : Role} (h : name ∈ r.names) : NamesRole [name.toList] (.some r)

/-- **The lines that ask for reviewers.** -/
inductive Asks : List Char → Request → Prop
  | ofNumber {before gap count after : List Char} {n : Nat} (hbefore : Blanks before)
      (hgap : Gap gap) (hcount : Decimal.Writes count n) (hn : n ≤ 10) (hafter : Blanks after) :
      Asks (before ++ trigger.toList ++ gap ++ count ++ after) ⟨n, none⟩
  | ofRole {before gap count gap' after : List Char} {name : String} {n : Nat} {r : Role}
      (hbefore : Blanks before) (hgap : Gap gap) (hcount : Decimal.Writes count n) (hn : n ≤ 10)
      (hgap' : Gap gap') (hname : name ∈ r.names) (hafter : Blanks after) :
      Asks (before ++ trigger.toList ++ gap ++ count ++ gap' ++ name.toList ++ after) ⟨n, some r⟩

/-- **The failures** of what stands after the trigger. -/
inductive Fails (rest : List Char) : Outcome → Prop
  | noWords (h : Spaced [] rest) : Fails rest .helpRequested
  | manyWords {ws : List (List Char)} {arguments : String} (h : Spaced ws rest)
      (hmany : 3 ≤ ws.length) (harguments : Trimmed rest arguments.toList) :
      Fails rest (.malformed arguments)
  | noNumber {w : List Char} {ws : List (List Char)} {arguments : String}
      (h : Spaced (w :: ws) rest) (hw : ∀ n, ¬ Counts w n)
      (harguments : Trimmed rest arguments.toList) : Fails rest (.malformed arguments)
  | noRole {w : List Char} {token : String} {n : Int} (h : Spaced [w, token.toList] rest)
      (hw : Counts w n) (htoken : ∀ r : Role, token ∉ r.names) : Fails rest (.unknownRole token)
  | outOfRange {w : List Char} {ws : List (List Char)} {n : Int} {role : Option Role}
      {bound : Bound} (h : Spaced (w :: ws) rest) (hw : Counts w n) (hrole : NamesRole ws role)
      (hbound : bound.Overrun n) : Fails rest (.outOfRange n bound (role.getD .authors))

/-- **What a line says.** -/
inductive Outcome.Told (line : List Char) : Outcome → Prop
  | asked {q : Request} (h : Asks line q) : Told line (.parsed q)
  | failed {rest : List Char} {o : Outcome} (h : Calls line rest) (ho : Fails rest o) : Told line o

/-! ### A line and its words -/

namespace Outcome

variable {line rest w : List Char} {ws : List (List Char)} {n : Int}

theorem trim_of_calls {before : List Char} (hbefore : Blanks before) (rest : List Char) :
    trim (before ++ (trigger.toList ++ rest)) = trigger.toList ++ trimRight rest := by
  have hhead : ∀ c ∈ (trigger.toList ++ rest).head?, isBlank c = false := by
    intro c hc
    have hslash : c = '/' := (Option.some.inj hc).symm
    rw [hslash]
    decide
  rw [trim, trimLeft_blanks_append hbefore, trimLeft_of_head hhead]
  exact trimRight_append ⟨'s', by decide, by decide⟩ rest

/-- **A line that calls** is read word by word. -/
theorem ofChars?_of_calls (h : Calls line rest) (hws : Spaced ws rest) :
    ofChars? line = some (ofWords rest ws) := by
  obtain ⟨⟨before, rfl, hbefore⟩, hapart⟩ := h
  have hwords : words (trimRight rest) = ws := hws.trimRight.words_eq
  have hdrop : dropPrefix? trigger.toList (trim (before ++ (trigger.toList ++ rest))) =
      some (trimRight rest) := by
    rw [trim_of_calls hbefore]
    exact dropPrefix?_eq_some_iff.mpr rfl
  have hwhole : ofWords (trimRight rest) ws = ofWords rest ws := by
    unfold ofWords
    rw [trim_trimRight]
  rw [ofChars?, hdrop]
  cases hright : trimRight rest with
  | nil =>
    rw [hright] at hwords hwhole
    rw [← hwhole, ← hwords]
    rfl
  | cons c cs =>
    have hc : isBlank c = true := hapart.trimRight c (by rw [hright]; rfl)
    rw [hright] at hwords hwhole
    simp only [if_pos hc]
    rw [hwords, hwhole]

/-- The lines that call are those that are, without the blanks at their ends, the trigger alone or
the trigger with a blank after it. -/
theorem exists_calls_iff :
    (∃ rest, Calls line rest) ↔ ∃ rest, trim line = trigger.toList ++ rest ∧ Apart rest := by
  constructor
  · rintro ⟨rest, ⟨before, rfl, hbefore⟩, hapart⟩
    exact ⟨trimRight rest, trim_of_calls hbefore rest, hapart.trimRight⟩
  · rintro ⟨rest, htrim, hapart⟩
    obtain ⟨⟨before, after, hsplit, hbefore, hafter⟩, -, -⟩ := trimmed_trim line
    rw [htrim, List.append_assoc] at hsplit
    refine ⟨rest ++ after, ⟨before, hsplit, hbefore⟩, ?_⟩
    cases rest with
    | nil => exact hafter.apart
    | cons c cs => exact fun d hd => hapart d hd

/-- **Every command calls.** -/
theorem exists_calls {o : Outcome} (h : ofChars? line = some o) : ∃ rest, Calls line rest := by
  rw [exists_calls_iff]
  cases hdrop : dropPrefix? trigger.toList (trim line) with
  | none => simp [ofChars?, hdrop] at h
  | some rest =>
    refine ⟨rest, dropPrefix?_eq_some_iff.mp hdrop, ?_⟩
    cases rest with
    | nil => exact blanks_nil.apart
    | cons c cs =>
      rw [ofChars?, hdrop] at h
      simp only [Option.ite_none_right_eq_some] at h
      intro d hd
      exact Option.some.inj hd ▸ h.1

end Outcome

/-! ### The words of a call -/

theorem fitsInt64_iff {n : Int} : fitsInt64 n = true ↔ -(2 ^ 63) ≤ n ∧ n < 2 ^ 63 := by
  simp only [fitsInt64, Bool.and_eq_true, decide_eq_true_eq]
  norm_num

theorem readCount?_eq_some_iff {w : List Char} {n : Int} :
    readCount? w = some n ↔ Counts w n := by
  rw [readCount?, Option.filter_eq_some_iff, Decimal.toInt?_eq_some_iff, fitsInt64_iff]
  exact ⟨fun h => ⟨h.1, h.2.1, h.2.2⟩, fun h => ⟨h.writes, h.least, h.greatest⟩⟩

theorem readCount?_eq_none_iff {w : List Char} : readCount? w = none ↔ ∀ n, ¬ Counts w n := by
  rw [Option.eq_none_iff_forall_ne_some]
  exact forall_congr' fun n => not_congr readCount?_eq_some_iff

theorem counts_of_writes {w : List Char} {n : Nat} (h : Decimal.Writes w n) (hn : n ≤ 10) :
    Counts w n :=
  ⟨h, by omega, by omega⟩

/-- The lines that ask are those that call with a number in bounds, and perhaps a role. -/
theorem asks_iff {line : List Char} {q : Request} : Asks line q ↔ ∃ rest w ws,
    Calls line rest ∧ Spaced (w :: ws) rest ∧ Decimal.Writes w q.count ∧ q.count ≤ 10 ∧
      NamesRole ws q.role := by
  constructor
  · intro h
    cases h with
    | @ofNumber before gap w after n hbefore hgap hw hn hafter =>
      refine ⟨gap ++ (w ++ after), w, [], ⟨⟨before, by simp, hbefore⟩, hgap.apart _⟩, ?_, hw, hn,
        .none⟩
      exact .cons hgap hw.isWord (.nil hafter)
    | @ofRole before gap w gap' after name n r hbefore hgap hw hn hgap' hname hafter =>
      refine ⟨gap ++ (w ++ (gap' ++ (name.toList ++ after))), w, [name.toList],
        ⟨⟨before, by simp, hbefore⟩, hgap.apart _⟩, ?_, hw, hn, .some hname⟩
      exact .cons hgap hw.isWord (.cons hgap' (Role.isWord_of_mem_names hname) (.nil hafter))
  · rintro ⟨rest, w, ws, ⟨⟨before, rfl, hbefore⟩, -⟩, hws, hw, hn, hrole⟩
    obtain ⟨n, role⟩ := q
    cases hws with
    | @cons gap _ rest _ hgap _ hrest =>
      cases hrole with
      | none =>
        cases hrest with
        | nil hafter => simpa using Asks.ofNumber hbefore hgap hw hn hafter
      | some hname =>
        cases hrest with
        | cons hgap' _ hlast =>
          cases hlast with
          | nil hafter => simpa using Asks.ofRole hbefore hgap hw hn hgap' hname hafter

namespace Outcome

variable {line rest w : List Char} {ws : List (List Char)} {n : Int} {role : Option Role}

theorem ofWords_of_counts (hw : Counts w n) (hrole : NamesRole ws role) :
    ofWords rest (w :: ws) = ofCount n role := by
  have hread : readCount? w = some n := readCount?_eq_some_iff.mpr hw
  cases hrole with
  | none => simp [ofWords, hread, ofCountAndToken]
  | some hname => simp [ofWords, hread, ofCountAndToken, Role.ofName?_eq_some_iff.mpr hname]

theorem ofWords_of_noNumber (hw : ∀ n, ¬ Counts w n) :
    ofWords rest (w :: ws) = .malformed (String.ofList (trim rest)) := by
  simp [ofWords, readCount?_eq_none_iff.mpr hw]

theorem ofWords_of_manyWords (h : 3 ≤ ws.length) :
    ofWords rest ws = .malformed (String.ofList (trim rest)) := by
  match ws, h with
  | _ :: _ :: _ :: _, _ => rfl

theorem ofWords_of_noRole {token : String} (hw : Counts w n)
    (htoken : ∀ r : Role, token ∉ r.names) :
    ofWords rest [w, token.toList] = .unknownRole token := by
  have hread : readCount? w = some n := readCount?_eq_some_iff.mpr hw
  simp [ofWords, hread, ofCountAndToken, Role.ofName?_eq_none_iff.mpr htoken]

theorem ofCount_of_overrun {bound : Bound} (h : bound.Overrun n) :
    ofCount n role = .outOfRange n bound (role.getD .authors) := by
  cases bound with
  | upper => exact if_pos h
  | lower =>
    have hupper : ¬ (maxReviewers : Int) < n := by
      have hneg : n < 0 := h
      simp only [maxReviewers]
      omega
    exact (if_neg hupper).trans (if_pos h)

theorem ofCount_of_le {n : Nat} (h : n ≤ 10) : ofCount n role = .parsed ⟨n, role⟩ := by
  have hupper : ¬ (maxReviewers : Int) < n := by
    simp only [maxReviewers]
    omega
  have hlower : ¬ (n : Int) < 0 := by omega
  rw [ofCount, if_neg hupper, if_neg hlower, Int.toNat_natCast]

theorem told_ofCount (h : Calls line rest) (hws : Spaced (w :: ws) rest) (hw : Counts w n)
    (hrole : NamesRole ws role) : Told line (ofCount n role) := by
  by_cases hupper : 10 < n
  · have hbound : Bound.Overrun n .upper := hupper
    rw [ofCount_of_overrun hbound]
    exact .failed h (.outOfRange hws hw hrole hbound)
  · by_cases hlower : n < 0
    · have hbound : Bound.Overrun n .lower := hlower
      rw [ofCount_of_overrun hbound]
      exact .failed h (.outOfRange hws hw hrole hbound)
    · obtain ⟨m, rfl⟩ := Int.eq_ofNat_of_zero_le (Int.not_lt.mp hlower)
      have hm : m ≤ 10 := by omega
      rw [ofCount_of_le hm]
      exact .asked (asks_iff.mpr ⟨rest, w, ws, h, hws, hw.writes, hm, hrole⟩)

theorem told_of_token {token : List Char} (h : Calls line rest) (hws : Spaced [w, token] rest)
    (hw : Counts w n) : Told line (ofWords rest [w, token]) := by
  obtain ⟨name, rfl⟩ : ∃ name : String, token = name.toList :=
    ⟨String.ofList token, String.toList_ofList.symm⟩
  cases hname : Role.ofName? name with
  | none =>
    have hnone := Role.ofName?_eq_none_iff.mp hname
    rw [ofWords_of_noRole hw hnone]
    exact .failed h (.noRole hws hw hnone)
  | some r =>
    have hrole : NamesRole [name.toList] (some r) := .some (Role.ofName?_eq_some_iff.mp hname)
    rw [ofWords_of_counts hw hrole]
    exact told_ofCount h hws hw hrole

/-- **What the words of a call are read as is what the line says.** -/
theorem told_ofWords (h : Calls line rest) (hws : Spaced ws rest) :
    Told line (ofWords rest ws) := by
  have hrest : Trimmed rest (String.ofList (trim rest)).toList := by
    rw [String.toList_ofList]
    exact trimmed_trim rest
  cases ws with
  | nil => exact .failed h (.noWords hws)
  | cons w ws =>
    cases hread : readCount? w with
    | none =>
      have hw := readCount?_eq_none_iff.mp hread
      rw [ofWords_of_noNumber hw]
      exact .failed h (.noNumber hws hw hrest)
    | some n =>
      have hw := readCount?_eq_some_iff.mp hread
      rcases ws with _ | ⟨token, _ | ⟨third, ws⟩⟩
      · rw [ofWords_of_counts hw .none]
        exact told_ofCount h hws hw .none
      · exact told_of_token h hws hw
      · have hmany : 3 ≤ (w :: token :: third :: ws).length := by simp
        rw [ofWords_of_manyWords hmany]
        exact .failed h (.manyWords hws hmany hrest)

/-- **What a line says is what it is read as.** -/
theorem ofChars?_of_told {o : Outcome} (h : Told line o) : ofChars? line = some o := by
  cases h with
  | asked h =>
    obtain ⟨rest, w, ws, hcalls, hws, hw, hn, hrole⟩ := asks_iff.mp h
    rw [ofChars?_of_calls hcalls hws, ofWords_of_counts (counts_of_writes hw hn) hrole,
      ofCount_of_le hn]
  | failed hcalls ho =>
    cases ho with
    | noWords hws => rw [ofChars?_of_calls hcalls hws, ofWords]
    | manyWords hws hmany harguments =>
      rw [ofChars?_of_calls hcalls hws, ofWords_of_manyWords hmany, harguments.trim_eq,
        String.ofList_toList]
    | noNumber hws hw harguments =>
      rw [ofChars?_of_calls hcalls hws, ofWords_of_noNumber hw, harguments.trim_eq,
        String.ofList_toList]
    | noRole hws hw htoken => rw [ofChars?_of_calls hcalls hws, ofWords_of_noRole hw htoken]
    | outOfRange hws hw hrole hbound =>
      rw [ofChars?_of_calls hcalls hws, ofWords_of_counts hw hrole, ofCount_of_overrun hbound]

theorem ofChars?_eq_some_iff {o : Outcome} : ofChars? line = some o ↔ Told line o := by
  constructor
  · intro h
    obtain ⟨rest, hcalls⟩ := exists_calls h
    obtain ⟨ws, hws⟩ := exists_spaced rest hcalls.apart
    have ho : ofWords rest ws = o := Option.some.inj ((ofChars?_of_calls hcalls hws).symm.trans h)
    exact ho ▸ told_ofWords hcalls hws
  · exact ofChars?_of_told

end Outcome

/-- **What every line is read as.** A line is read as a request iff it asks for it, as any outcome
iff it says that, and as no command iff it does not call. -/
theorem line_outcomes (line : String) :
    (∀ q, Outcome.ofLine? line = some (.parsed q) ↔ Asks line.toList q) ∧
      (∀ o, Outcome.ofLine? line = some o ↔ Outcome.Told line.toList o) ∧
      (Outcome.ofLine? line = none ↔ ∀ rest, ¬ Calls line.toList rest) := by
  refine ⟨fun q => ?_, fun o => Outcome.ofChars?_eq_some_iff, ?_⟩
  · constructor
    · intro h
      cases Outcome.ofChars?_eq_some_iff.mp h with
      | asked hq => exact hq
      | failed _ hfails => cases hfails
    · exact fun h => Outcome.ofChars?_of_told (.asked h)
  · constructor
    · intro h rest hcalls
      obtain ⟨ws, hws⟩ := exists_spaced rest hcalls.apart
      have hread := Outcome.ofChars?_of_calls hcalls hws
      rw [show Outcome.ofChars? line.toList = none from h] at hread
      cases hread
    · intro h
      by_contra hsome
      obtain ⟨o, ho⟩ := Option.ne_none_iff_exists'.mp hsome
      obtain ⟨rest, hcalls⟩ := Outcome.exists_calls ho
      exact h rest hcalls

/-- The word that names no role is reported, and not the number out of bounds. -/
example : Outcome.ofLine? " /reviewers  +011 boss" = some (.unknownRole "boss") := by decide

end ReviewQuorum
