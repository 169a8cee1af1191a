import ReviewQuorum.Proofs.Markers
import ReviewQuorum.Proofs.TimestampText

/-! # Texts put together from words and blanks

`Text.trim` and `Text.words` take a text apart at its blanks. What they find is told here by what
the text is put together from. A text is `Trimmed` to what is left between the blanks at its ends,
and it is `Spaced` if words stand in it, each after a gap of one blank or more, and perhaps blanks
behind them. These are the results of the two functions: `trim_eq_iff` for every text, and
`words_eq_iff` for a text that is empty or begins with a blank, as what follows the trigger of a
command does. -/

namespace ReviewQuorum.Text

/-- Nothing but blanks, or nothing at all. -/
def Blanks (cs : List Char) : Prop := ∀ c ∈ cs, isBlank c = true

/-- One blank or more. -/
structure Gap (cs : List Char) : Prop where
  ne_nil : cs ≠ []
  blanks : Blanks cs

/-- One character or more, none of them blank. -/
structure IsWord (w : List Char) : Prop where
  ne_nil : w ≠ []
  unbroken : Unbroken w

/-- A text that is empty or begins with a blank. -/
def Apart (cs : List Char) : Prop := ∀ c ∈ cs.head?, isBlank c = true

/-- **What is left of a text** without the blanks at its ends. -/
structure Trimmed (whole middle : List Char) : Prop where
  split : ∃ before after, whole = before ++ (middle ++ after) ∧ Blanks before ∧ Blanks after
  head : ∀ c ∈ middle.head?, isBlank c = false
  last : ∀ c ∈ middle.getLast?, isBlank c = false

/-- **Words in a text**, each after a gap, and then perhaps blanks. -/
inductive Spaced : List (List Char) → List Char → Prop
  | nil {cs : List Char} (h : Blanks cs) : Spaced [] cs
  | cons {gap w rest : List Char} {ws : List (List Char)} (hgap : Gap gap) (hw : IsWord w)
      (hrest : Spaced ws rest) : Spaced (w :: ws) (gap ++ (w ++ rest))

variable {cs before after middle w rest : List Char} {ws : List (List Char)}

theorem blanks_nil : Blanks [] := nofun

theorem Blanks.append {ds : List Char} (h : Blanks cs) (h' : Blanks ds) : Blanks (cs ++ ds) :=
  List.forall_mem_append.mpr ⟨h, h'⟩

theorem Gap.apart (h : Gap before) (cs : List Char) : Apart (before ++ cs) := by
  obtain ⟨b, bs, rfl⟩ := List.exists_cons_of_ne_nil h.ne_nil
  intro c hc
  rw [← Option.some.inj hc]
  exact h.blanks b List.mem_cons_self

theorem Blanks.apart (h : Blanks cs) : Apart cs := fun c hc => h c (List.mem_of_head? hc)

theorem Spaced.apart (h : Spaced ws cs) : Apart cs := by
  cases h with
  | nil h => exact h.apart
  | cons hgap _ _ => exact hgap.apart _

theorem IsWord.exists_last (h : IsWord w) : ∃ c ∈ w.getLast?, isBlank c = false :=
  ⟨w.getLast h.ne_nil, List.getLast?_eq_some_getLast h.ne_nil, h.unbroken _ (List.getLast_mem _)⟩

/-! ### The blanks at the ends -/

theorem Blanks.reverse (h : Blanks cs) : Blanks cs.reverse :=
  fun c hc => h c (List.mem_reverse.mp hc)

theorem exists_trimLeft (cs : List Char) : ∃ before, Blanks before ∧ cs = before ++ trimLeft cs :=
  ⟨cs.takeWhile isBlank, List.all_eq_true.mp List.all_takeWhile,
    List.takeWhile_append_dropWhile.symm⟩

theorem head_trimLeft (cs : List Char) : ∀ c ∈ (trimLeft cs).head?, isBlank c = false := by
  intro c hc
  have hhead := List.head?_dropWhile_not isBlank cs
  change (trimLeft cs).head? = some c at hc
  rw [trimLeft] at hc
  rwa [hc] at hhead

theorem trimLeft_blanks_append (h : Blanks before) (cs : List Char) :
    trimLeft (before ++ cs) = trimLeft cs :=
  List.dropWhile_append_of_pos h

theorem trimLeft_of_head (h : ∀ c ∈ cs.head?, isBlank c = false) : trimLeft cs = cs := by
  cases cs with
  | nil => rfl
  | cons c cs => exact trimLeft_cons (h c rfl) cs

theorem trimRight_eq (cs : List Char) : trimRight cs = (trimLeft cs.reverse).reverse := rfl

theorem exists_trimRight (cs : List Char) : ∃ after, Blanks after ∧ cs = trimRight cs ++ after := by
  obtain ⟨before, hbefore, hsplit⟩ := exists_trimLeft cs.reverse
  refine ⟨before.reverse, hbefore.reverse, ?_⟩
  rw [trimRight_eq, ← List.reverse_append, ← hsplit, List.reverse_reverse]

theorem head?_trimRight {c : Char} (h : (trimRight cs).head? = some c) : cs.head? = some c := by
  obtain ⟨after, -, hcs⟩ := exists_trimRight cs
  rw [hcs, List.head?_append, h]
  rfl

theorem Apart.trimRight (h : Apart cs) : Apart (trimRight cs) :=
  fun c hc => h c (head?_trimRight hc)

theorem last_trimRight (cs : List Char) : ∀ c ∈ (trimRight cs).getLast?, isBlank c = false := by
  rw [trimRight_eq, List.getLast?_reverse]
  exact head_trimLeft cs.reverse

theorem trimRight_append_blanks (h : Blanks after) (cs : List Char) :
    trimRight (cs ++ after) = trimRight cs := by
  rw [trimRight_eq, List.reverse_append, trimLeft_blanks_append h.reverse, ← trimRight_eq]

theorem trimRight_blanks (h : Blanks cs) : trimRight cs = [] := trimRight_append_blanks h []

theorem trimRight_of_last (h : ∀ c ∈ cs.getLast?, isBlank c = false) : trimRight cs = cs := by
  have hhead : ∀ c ∈ cs.reverse.head?, isBlank c = false := by
    rw [List.head?_reverse]
    exact h
  rw [trimRight_eq, trimLeft_of_head hhead, List.reverse_reverse]

theorem trimRight_append (h : ∃ c ∈ before.getLast?, isBlank c = false) (cs : List Char) :
    trimRight (before ++ cs) = before ++ trimRight cs := by
  obtain ⟨after, hafter, hcs⟩ := exists_trimRight cs
  have hlast : ∀ c ∈ (before ++ trimRight cs).getLast?, isBlank c = false := by
    obtain ⟨b, hb, hblank⟩ := h
    intro c hc
    cases hright : (trimRight cs).getLast? with
    | none =>
      have hbefore : (before ++ trimRight cs).getLast? = some b := by
        rw [List.getLast?_append, hright, hb]
        rfl
      rw [hbefore] at hc
      exact Option.some.inj hc ▸ hblank
    | some d =>
      rw [List.getLast?_append, hright] at hc
      exact last_trimRight cs c (hright ▸ hc)
  calc trimRight (before ++ cs)
      = trimRight ((before ++ trimRight cs) ++ after) := by rw [List.append_assoc, ← hcs]
    _ = before ++ trimRight cs := by
      rw [trimRight_append_blanks hafter, trimRight_of_last hlast]

theorem Trimmed.trim_eq (h : Trimmed cs middle) : trim cs = middle := by
  obtain ⟨⟨before, after, rfl, hbefore, hafter⟩, hhead, hlast⟩ := h
  rw [trim, trimLeft_blanks_append hbefore]
  cases middle with
  | nil =>
    obtain ⟨b, hb, hsplit⟩ := exists_trimLeft after
    refine trimRight_blanks fun c hc => hafter c ?_
    rw [hsplit]
    exact List.mem_append_right _ hc
  | cons c middle =>
    have hleft : trimLeft (c :: middle ++ after) = c :: middle ++ after :=
      trimLeft_cons (hhead c rfl) _
    rw [hleft, trimRight_append_blanks hafter, trimRight_of_last hlast]

theorem trimmed_trim (cs : List Char) : Trimmed cs (trim cs) := by
  obtain ⟨before, hbefore, hleft⟩ := exists_trimLeft cs
  obtain ⟨after, hafter, hright⟩ := exists_trimRight (trimLeft cs)
  refine ⟨⟨before, after, by rw [trim, ← hright, ← hleft], hbefore, hafter⟩, fun c hc => ?_,
    last_trimRight _⟩
  exact head_trimLeft cs c (head?_trimRight hc)

/-- **`trim` leaves what stands between the blanks at the ends.** -/
theorem trim_eq_iff : trim cs = middle ↔ Trimmed cs middle := by
  constructor
  · rintro rfl
    exact trimmed_trim cs
  · exact Trimmed.trim_eq

theorem trim_trimRight (cs : List Char) : trim (trimRight cs) = trim cs := by
  obtain ⟨blanks, hblanks, hcs⟩ := exists_trimRight cs
  obtain ⟨⟨before, after, hsplit, hbefore, hafter⟩, hhead, hlast⟩ := trimmed_trim (trimRight cs)
  have htrimmed : Trimmed cs (trim (trimRight cs)) := by
    refine ⟨⟨before, after ++ blanks, ?_, hbefore, hafter.append hblanks⟩, hhead, hlast⟩
    rw [← List.append_assoc, ← List.append_assoc, List.append_assoc before, ← hsplit, ← hcs]
  exact htrimmed.trim_eq.symm

/-! ### Words -/

theorem words_cons_of_blank {c : Char} (h : isBlank c = true) (cs : List Char) :
    words (c :: cs) = words cs := by
  cases cs <;> simp [words, h]

theorem words_blanks_append (h : Blanks before) (cs : List Char) :
    words (before ++ cs) = words cs := by
  induction before with
  | nil => rfl
  | cons b before ih =>
    rw [List.cons_append, words_cons_of_blank (h b List.mem_cons_self)]
    exact ih fun c hc => h c (List.mem_cons_of_mem _ hc)

theorem words_blanks (h : Blanks cs) : words cs = [] := by
  rw [← List.append_nil cs, words_blanks_append h]
  rfl

theorem words_word_append (hw : IsWord w) (hrest : Apart rest) :
    words (w ++ rest) = w :: words rest := by
  obtain ⟨hne, hunbroken⟩ := hw
  induction w with
  | nil => exact absurd rfl hne
  | cons c w ih =>
    have hc : ¬ isBlank c = true := by simp [hunbroken c List.mem_cons_self]
    cases w with
    | nil =>
      cases rest with
      | nil => simp [words, hc]
      | cons d rest =>
        have hd : isBlank d = true := hrest d rfl
        simp [words, hc, hd]
    | cons d w =>
      have htail : Unbroken (d :: w) := fun e he => hunbroken e (List.mem_cons_of_mem _ he)
      have hd : ¬ isBlank d = true := by simp [htail d List.mem_cons_self]
      have hih := ih (List.cons_ne_nil d w) htail
      rw [List.cons_append, List.cons_append, words, if_neg hc]
      simp only [if_neg hd]
      rw [← List.cons_append, hih, growFirst]

theorem Spaced.words_eq (h : Spaced ws cs) : words cs = ws := by
  induction h with
  | nil h => exact words_blanks h
  | cons hgap hw hrest ih =>
    rw [words_blanks_append hgap.blanks, words_word_append hw hrest.apart, ih]

theorem exists_word {c : Char} (hc : isBlank c = false) (cs : List Char) :
    ∃ w rest, c :: cs = w ++ rest ∧ IsWord w ∧ Apart rest := by
  let w := c :: cs.takeWhile fun d => !isBlank d
  let rest := cs.dropWhile fun d => !isBlank d
  have hsplit : c :: cs = w ++ rest := by
    rw [List.cons_append, List.takeWhile_append_dropWhile]
  refine ⟨w, rest, hsplit, ⟨List.cons_ne_nil _ _, fun d hd => ?_⟩, fun d hd => ?_⟩
  · rcases List.mem_cons.mp hd with rfl | hd
    · exact hc
    · simpa using List.all_eq_true.mp List.all_takeWhile d hd
  · have hstop := List.head?_dropWhile_not (fun d => !isBlank d) cs
    rw [show (cs.dropWhile fun d => !isBlank d).head? = some d from hd] at hstop
    simpa using hstop

theorem exists_spaced (cs : List Char) (h : Apart cs) : ∃ ws, Spaced ws cs := by
  obtain ⟨gap, hgap, hcs⟩ := exists_trimLeft cs
  cases hleft : trimLeft cs with
  | nil => exact ⟨[], .nil (by rwa [hcs, hleft, List.append_nil])⟩
  | cons c ds =>
    have hc : isBlank c = false := head_trimLeft cs c (by rw [hleft]; rfl)
    have hgap : Gap gap := by
      refine ⟨fun hnil => ?_, hgap⟩
      have hblank : isBlank c = true := h c (by rw [hcs, hleft, hnil]; rfl)
      rw [hc] at hblank
      cases hblank
    obtain ⟨w, rest, hsplit, hw, hrest⟩ := exists_word hc ds
    have hcs : cs = gap ++ (w ++ rest) := by rw [hcs, hleft, hsplit]
    have hshorter : rest.length < cs.length := by
      have hpos : 0 < gap.length := List.length_pos_iff.mpr hgap.ne_nil
      rw [hcs, List.length_append, List.length_append]
      omega
    obtain ⟨ws, hws⟩ := exists_spaced rest hrest
    exact ⟨w :: ws, hcs ▸ .cons hgap hw hws⟩
termination_by cs.length

/-- **`words` finds the words that a text is put together from.** -/
theorem words_eq_iff (h : Apart cs) : words cs = ws ↔ Spaced ws cs := by
  constructor
  · rintro rfl
    obtain ⟨ws, hws⟩ := exists_spaced cs h
    rwa [hws.words_eq]
  · exact Spaced.words_eq

theorem Spaced.trimRight (h : Spaced ws cs) : Spaced ws (trimRight cs) := by
  induction h with
  | nil h => exact .nil (by rw [trimRight_blanks h]; exact blanks_nil)
  | @cons gap w rest ws hgap hw hrest ih =>
    have hlast : ∃ c ∈ (gap ++ w).getLast?, isBlank c = false := by
      obtain ⟨c, hc, hblank⟩ := hw.exists_last
      refine ⟨c, ?_, hblank⟩
      rw [List.getLast?_append, hc]
      rfl
    rw [← List.append_assoc, trimRight_append hlast, List.append_assoc]
    exact .cons hgap hw ih

end ReviewQuorum.Text
