import Mathlib.Data.List.DropRight
import Mathlib.Tactic.SplitIfs
import ReviewQuorum.Json.Printer
import ReviewQuorum.Json.Reader
import ReviewQuorum.Proofs.Decimals

/-! # JSON values come back from their text

A value is `Plain` if nothing in it is unreadable, its numbers are whole and below `2 ^ 64`, and it
is not nested too deep. The text of such a value on indented lines is read as the value itself
(`Json.ofText?_pretty`).

Each part of the text is read off from its front: blanks, numbers, strings, and the items and
members behind the first one. What follows a value in a text is a comma, a line end or nothing
(`Json.Ends`). -/

namespace ReviewQuorum.Json

open Reader

/-- The values that come back from their text, nested in at most so many levels. -/
inductive Plain : Nat → Json → Prop
  | null (left : Nat) : Plain left null
  | bool (left : Nat) (b : Bool) : Plain left (bool b)
  | int (left : Nat) {n : Int} (h : n.natAbs < UInt64.size) : Plain left (int n)
  | str (left : Nat) (s : String) : Plain left (str s)
  | arr {left : Nat} {items : List Json} (h : ∀ v ∈ items, Plain left v) :
    Plain (left + 1) (arr items)
  | obj {left : Nat} {members : List (String × Json)} (h : ∀ m ∈ members, Plain left m.2) :
    Plain (left + 1) (obj members)

/-- What may follow a value in a text. -/
def Ends (cs : List Char) : Prop := ∀ c ∈ cs.head?, c = ',' ∨ c = '\n'

theorem ends_cons {c : Char} (h : c = ',' ∨ c = '\n') (cs : List Char) : Ends (c :: cs) :=
  fun _ hd => Option.some.inj hd ▸ h

/-! ### Blanks -/

/-- A line end and the blanks of a level. -/
def indent (level : Nat) : List Char := '\n' :: List.replicate (2 * level) ' '

theorem toList_newline (level : Nat) : (newline level).toList = indent level := by
  rw [newline, String.toList_ofList, indent]

theorem skip_cons {c : Char} (h : isSpace c = false) (cs : List Char) :
    skip (c :: cs) = c :: cs := by
  rw [skip, List.dropWhile_cons_of_neg (by simp [h])]

theorem skip_append {blanks : List Char} (h : ∀ c ∈ blanks, isSpace c = true) (cs : List Char) :
    skip (blanks ++ cs) = skip cs := List.dropWhile_append_of_pos h

theorem isSpace_of_mem_indent {level : Nat} {c : Char} (h : c ∈ indent level) :
    isSpace c = true := by
  rcases List.mem_cons.mp h with rfl | hc
  · decide
  · rw [List.eq_of_mem_replicate hc]
    decide

theorem skip_indent (level : Nat) (cs : List Char) : skip (indent level ++ cs) = skip cs :=
  skip_append (fun _ => isSpace_of_mem_indent) cs

/-- Blanks before a value are passed over. -/
theorem value?_append {blanks : List Char} (h : ∀ c ∈ blanks, isSpace c = true) (n depth : Nat)
    (cs : List Char) : value? n depth (blanks ++ cs) = value? n depth cs := by
  cases n with
  | zero => rfl
  | succ n => rw [value?, value?, skip_append h]

/-! ### Strings -/

theorem hexNumber?_escape {n : Nat} (h : n < 32) :
    Hex.number? 0 ['0', '0', Nat.digitChar (n / 16), Nat.digitChar (n % 16)] = some n := by
  have hall : ∀ n < 32,
    Hex.number? 0 ['0', '0', Nat.digitChar (n / 16), Nat.digitChar (n % 16)] = some n := by decide
  exact hall n h

/-- **An escaped character** is read as the character. -/
theorem string?_escapeChar (n : Nat) (seen : List Char) (c : Char) (cs : List Char) :
    string? (n + 1) (some seen) (escapeChar c ++ cs) = string? n (some (c :: seen)) cs := by
  unfold escapeChar
  split_ifs with hquote hbackslash hnewline hreturn htab hbackspace hfeed hcontrol
  · subst hquote
    rfl
  · subst hbackslash
    rfl
  · subst hnewline
    rfl
  · subst hreturn
    rfl
  · subst htab
    rfl
  · obtain rfl : c = '\x08' := Char.toNat_inj.mp hbackspace
    rfl
  · obtain rfl : c = '\x0c' := Char.toNat_inj.mp hfeed
    rfl
  · have hunit : codeUnit? ('0' :: '0' :: Nat.digitChar (c.toNat / 16) ::
        Nat.digitChar (c.toNat % 16) :: cs) = some (c.toNat, cs) := by
      rw [codeUnit?, hexNumber?_escape hcontrol]
      rfl
    have hescape : unicodeEscape? ('0' :: '0' :: Nat.digitChar (c.toNat / 16) ::
        Nat.digitChar (c.toNat % 16) :: cs) = some (some c, cs) := by
      rw [unicodeEscape?, hunit]
      simp only [Option.bind_eq_bind, Option.bind_some]
      rw [if_pos (by omega), Char.ofNat_toNat]
    change (unicodeEscape? ('0' :: '0' :: _ :: _ :: cs) >>= fun x =>
      string? n (push (some seen) x.1) x.2) = _
    rw [hescape]
    rfl
  · rw [List.singleton_append, string?]
    · rw [if_neg hcontrol]
      rfl
    · exact hquote
    · exact hbackslash

/-- **Escaped characters** are read as the characters, up to the quotation mark. -/
theorem string?_escaped {n : Nat} {s : List Char} (h : s.length < n) (seen cs : List Char) :
    string? n (some seen) (s.flatMap escapeChar ++ '"' :: cs) =
      some (some (String.ofList (seen.reverse ++ s)), cs) := by
  induction s generalizing n seen with
  | nil =>
    cases n with
    | zero => exact absurd h (Nat.not_lt_zero _)
    | succ n => simp [string?]
  | cons c s ih =>
    cases n with
    | zero => exact absurd h (Nat.not_lt_zero _)
    | succ n =>
      rw [List.flatMap_cons, List.append_assoc, string?_escapeChar,
        ih (Nat.lt_of_succ_lt_succ h)]
      simp

theorem toList_quote (s : String) :
    (quote s).toList = '"' :: (s.toList.flatMap escapeChar ++ ['"']) := by
  simp [quote]

theorem length_le_flatMap_escapeChar (s : List Char) :
    s.length ≤ (s.flatMap escapeChar).length := by
  induction s with
  | nil => exact Nat.le_refl _
  | cons c s ih =>
    have hpos : 0 < (escapeChar c).length := by
      unfold escapeChar
      split_ifs <;> simp
    rw [List.flatMap_cons, List.length_append, List.length_cons]
    omega

/-! ### Numbers -/

theorem le_foldl_pushDigit (n : Nat) (ds : List Char) : n ≤ ds.foldl Decimal.pushDigit n := by
  induction ds generalizing n with
  | nil => exact Nat.le_refl _
  | cons d ds ih =>
    have hstep : n ≤ Decimal.pushDigit n d := by
      unfold Decimal.pushDigit
      omega
    exact Nat.le_trans hstep (ih _)

theorem gather_eq {word : Nat} {ds : List Char}
    (h : ds.foldl Decimal.pushDigit word < UInt64.size) :
    Magnitude.gather word ds = (ds.foldl Decimal.pushDigit word, []) := by
  induction ds generalizing word with
  | nil => rfl
  | cons d ds ih =>
    have hnext : Decimal.pushDigit word d < UInt64.size :=
      Nat.lt_of_le_of_lt (le_foldl_pushDigit _ ds) h
    rw [Magnitude.gather, if_pos hnext, ih h]
    rfl

theorem nearest_le (n : Nat) : Double.nearest n ≤ 2 * n + 1 := by
  have hunit : Nat.pow 2 (n.log2 - 52) ≤ n + 1 := by
    by_cases hn : n = 0
    · subst hn
      decide
    · have hpow : Nat.pow 2 (n.log2 - 52) ≤ 2 ^ n.log2 :=
        Nat.pow_le_pow_right (by decide) (Nat.sub_le _ _)
      have := Nat.log2_self_le hn
      omega
  have hle := Nat.div_mul_le_self n (Nat.pow 2 (n.log2 - 52))
  unfold Double.nearest
  dsimp only
  split
  · rw [Nat.succ_mul]
    omega
  · omega

theorem isTooLarge_digits {n : Nat} (h : n < UInt64.size) :
    (Magnitude.ofDigits (Nat.toDigits 10 n) [] 0).isTooLarge = false := by
  have hfold : (Nat.toDigits 10 n).foldl Decimal.pushDigit 0 = n := Decimal.foldl_toDigits n
  have hgather : Magnitude.gather 0 (Nat.toDigits 10 n) = (n, []) := by
    rw [gather_eq (hfold.symm ▸ h), hfold]
  have hmagnitude : Magnitude.ofDigits (Nat.toDigits 10 n) [] 0 = ⟨n, 0⟩ := by
    rw [Magnitude.ofDigits, hgather]
    rfl
  have hproduct : Double.productExceeds n (Nat.pow 10 0) = false := by
    have hone : Double.nearest (Nat.pow 10 0) = 1 := by decide +kernel
    have hlimit : 2 * UInt64.size ≤ Double.limit := by decide +kernel
    have hbound : Double.nearest n * Double.nearest (Nat.pow 10 0) < 2 * UInt64.size := by
      rw [hone, Nat.mul_one]
      exact Nat.lt_of_le_of_lt (nearest_le n) (by omega)
    simp only [Double.productExceeds, decide_eq_false_iff_not, Nat.not_le]
    exact Nat.lt_of_lt_of_le hbound hlimit
  have hpower : decide (Magnitude.maxPower < (0 : Int)) = false := by decide
  rw [hmagnitude, Magnitude.isTooLarge, hpower, Bool.false_or, Int.toNat_zero, hproduct, ite_self]

/-! ### Whole numbers -/

theorem stops_of_ends {cs : List Char} (h : Ends cs) : Decimal.Stops cs := by
  intro c hc
  rcases h c hc with rfl | rfl <;> decide

theorem integerPart?_toDigits (n : Nat) {cs : List Char} (h : Ends cs) :
    integerPart? (Nat.toDigits 10 n ++ cs) = some (Nat.toDigits 10 n, cs) := by
  have hdigits : digits? (Nat.toDigits 10 n ++ cs) = some (Nat.toDigits 10 n, cs) := by
    have hds : ∀ c ∈ Nat.toDigits 10 n, c.isDigit = true :=
      fun _ => Decimal.isDigit_of_mem_toDigits
    rw [digits?, Decimal.takeWhile_digits hds (stops_of_ends h),
      Decimal.dropWhile_digits hds (stops_of_ends h)]
    simp [Nat.toDigits_ne_nil]
  rw [integerPart?, hdigits]
  split
  · rename_i d ds rest heq
    obtain ⟨hds, -⟩ := Prod.mk.inj (Option.some.inj heq)
    by_cases hn : n = 0
    · subst hn
      cases hds
    · exact absurd (by rw [hds]; rfl) (Decimal.head?_toDigits (Nat.pos_of_ne_zero hn))
  · rfl

theorem fractionPart?_of_ends {cs : List Char} (h : Ends cs) :
    fractionPart? cs = some ([], cs) := by
  unfold fractionPart?
  split
  · rename_i cs
    exact absurd (h '.' rfl) (by decide)
  · rfl

theorem exponentPart?_of_ends {cs : List Char} (h : Ends cs) :
    exponentPart? cs = some (([], 0), cs) := by
  cases cs with
  | nil => rfl
  | cons c cs =>
    have hc : ¬ (c = 'e' ∨ c = 'E') := by
      rcases h c rfl with rfl | rfl <;> decide
    rw [exponentPart?, if_neg hc]

theorem numberOfParts_digits {k : Nat} (hk : k < UInt64.size) (negative : Bool)
    (hzero : negative = true → k ≠ 0) :
    numberOfParts negative (Nat.toDigits 10 k) [] [] 0 =
      int (if negative then -(k : Int) else k) := by
  have hlarge : (Magnitude.ofDigits (Nat.toDigits 10 k) (List.drop 1 []) 0).isTooLarge = false :=
    isTooLarge_digits hk
  have hsign : (negative && k == 0) = false := by
    cases negative
    · rfl
    · simpa using hzero rfl
  rw [numberOfParts, hlarge, Decimal.foldl_toDigits]
  dsimp only
  rw [hsign]
  rfl

/-- **A whole number** is read behind its sign. -/
theorem number?_ofInt {n : Int} (hn : n.natAbs < UInt64.size) {cs : List Char} (h : Ends cs) :
    number? ((Decimal.ofInt n).toList ++ cs) = some (int n, cs) := by
  cases n with
  | ofNat k =>
    have hsign : ∀ rest, Nat.toDigits 10 k ++ cs ≠ '-' :: rest := by
      intro rest heq
      cases hds : Nat.toDigits 10 k with
      | nil => exact Nat.toDigits_ne_nil hds
      | cons d ds =>
        have hd : d.isDigit = true :=
          Decimal.isDigit_of_mem_toDigits (hds.symm ▸ List.mem_cons_self)
        rw [hds, List.cons_append] at heq
        rw [(List.cons.inj heq).1] at hd
        exact absurd hd (by decide)
    rw [Decimal.ofInt, Decimal.ofNat, String.toList_ofList, number?]
    · simp only [Option.bind_eq_bind, integerPart?_toDigits _ h, fractionPart?_of_ends h,
        exponentPart?_of_ends h, Option.bind_some]
      rw [numberOfParts_digits (k := k) hn false fun h => absurd h Bool.false_ne_true]
      rfl
    · exact hsign
  | negSucc k =>
    have hk : k + 1 < UInt64.size := hn
    have htext : (Decimal.ofInt (.negSucc k)).toList ++ cs =
        '-' :: (Nat.toDigits 10 (k + 1) ++ cs) := by
      simp [Decimal.ofInt, Decimal.ofNat]
    rw [htext, number?]
    simp only [Option.bind_eq_bind, integerPart?_toDigits _ h, fractionPart?_of_ends h,
      exponentPart?_of_ends h, Option.bind_some,
      numberOfParts_digits hk true fun _ => Nat.succ_ne_zero k]
    rfl

theorem value?_number {c : Char} (hc : c.isDigit = true ∨ c = '-') (n depth : Nat)
    (cs : List Char) : value? (n + 1) depth (c :: cs) = number? (c :: cs) := by
  have hspace : isSpace c = false := by
    rcases hc with hc | rfl
    · simp only [isSpace, Bool.or_eq_false_iff, beq_eq_false_iff_ne]
      refine ⟨⟨⟨?_, ?_⟩, ?_⟩, ?_⟩ <;> (rintro rfl; exact absurd hc (by decide))
    · decide
  have hne {d : Char} (hdigit : d.isDigit = false) (hminus : d ≠ '-') {cs ds : List Char} :
      c :: cs ≠ d :: ds := by
    intro heq
    rw [(List.cons.inj heq).1] at hc
    exact hc.elim (by simp [hdigit]) hminus
  rw [value?, skip_cons hspace]
  split
  · exact absurd ‹_› (hne (by decide) (by decide))
  · exact absurd ‹_› (hne (by decide) (by decide))
  · exact absurd ‹_› (hne (by decide) (by decide))
  · exact absurd ‹_› (hne (by decide) (by decide))
  · exact absurd ‹_› (hne (by decide) (by decide))
  · exact absurd ‹_› (hne (by decide) (by decide))
  · rfl

theorem value?_ofInt {i : Int} (hi : i.natAbs < UInt64.size) {cs : List Char} (h : Ends cs)
    (n depth : Nat) : value? (n + 1) depth ((Decimal.ofInt i).toList ++ cs) = some (int i, cs) := by
  obtain ⟨c, ds, htext, hc⟩ : ∃ c ds, (Decimal.ofInt i).toList = c :: ds ∧
      (c.isDigit = true ∨ c = '-') := by
    cases i with
    | ofNat k =>
      rw [Decimal.ofInt, Decimal.ofNat, String.toList_ofList]
      cases hds : Nat.toDigits 10 k with
      | nil => exact absurd hds Nat.toDigits_ne_nil
      | cons d ds =>
        exact ⟨d, ds, rfl, .inl (Decimal.isDigit_of_mem_toDigits (hds.symm ▸ List.mem_cons_self))⟩
    | negSucc k => exact ⟨'-', _, by simp [Decimal.ofInt, Decimal.ofNat]; rfl, .inr rfl⟩
  have hread := number?_ofInt hi h
  rw [htext, List.cons_append] at hread ⊢
  rw [value?_number hc, hread]

/-! ### Items and members -/

theorem skip_skip (cs : List Char) : skip (skip cs) = skip cs :=
  List.dropWhile_idempotent isSpace cs

theorem value?_skip (n depth : Nat) (cs : List Char) :
    value? n depth (skip cs) = value? n depth cs := by
  cases n with
  | zero => rfl
  | succ n => rw [value?, value?, skip_skip]

theorem value?_bracket (n depth : Nat) (cs : List Char) : value? n depth (']' :: cs) = none := by
  cases n <;> rfl

theorem array?_of_value? {n depth bound : Nat} {cs rest : List Char} {v : Json}
    (h : value? n depth cs = some (v, rest)) :
    array? (value? n depth) bound cs =
      (items? (value? n depth) bound [v] rest).map fun (vs, rest) => (arr vs, rest) := by
  rw [← value?_skip] at h
  unfold array?
  split
  · rename_i rest heq
    rw [heq, value?_bracket] at h
    cases h
  · rw [Option.bind_eq_bind, h]
    cases hitems : items? (value? n depth) bound [v] rest <;> simp [hitems]

theorem member?_skip (read : List Char → Option (Json × List Char)) (bound : Nat)
    (cs : List Char) : member? read bound (skip cs) = member? read bound cs := by
  rw [member?, member?, skip_skip]

theorem object?_of_member? {read : List Char → Option (Json × List Char)} {bound : Nat}
    {cs rest : List Char} {m : Option String × Json} (h : member? read bound cs = some (m, rest)) :
    object? read bound cs =
      (members? read bound bound [m] rest).map fun (ms, rest) => (ofMembers ms, rest) := by
  rw [← member?_skip] at h
  unfold object?
  split
  · rename_i rest heq
    rw [heq] at h
    cases h
  · rw [Option.bind_eq_bind, h]
    cases hmembers : members? read bound bound [m] rest <;> simp [hmembers]

theorem member?_quote {read : List Char → Option (Json × List Char)} {bound : Nat} {name : String}
    (hname : name.toList.length < bound) {blanks cs rest : List Char} {v : Json}
    (hblanks : ∀ c ∈ blanks, isSpace c = true) (h : read (' ' :: cs) = some (v, rest)) :
    member? read bound (blanks ++ ((quote name).toList ++ (':' :: ' ' :: cs))) =
      some ((some name, v), rest) := by
  have hquote : skip (blanks ++ ((quote name).toList ++ (':' :: ' ' :: cs))) =
      '"' :: (name.toList.flatMap escapeChar ++ '"' :: (':' :: ' ' :: cs)) := by
    rw [skip_append hblanks, toList_quote, List.cons_append, skip_cons (by decide)]
    simp
  rw [member?, hquote]
  simp only [Option.bind_eq_bind, string?_escaped hname, Option.bind_some,
    skip_cons (show isSpace ':' = false by decide), h, List.reverse_nil, List.nil_append,
    String.ofList_toList]

/-- The entries of a sequence from its second on, each behind a comma. -/
def tail {α : Type} (text : α → List Char) (entries : List α) : List Char :=
  entries.flatMap fun a => ',' :: text a

theorem tail_cons {α : Type} (text : α → List Char) (a : α) (entries : List α) :
    tail text (a :: entries) = ',' :: (text a ++ tail text entries) := by
  rw [tail, List.flatMap_cons, List.cons_append, tail]

theorem length_le_length_tail {α : Type} (text : α → List Char) (entries : List α) :
    entries.length ≤ (tail text entries).length := by
  induction entries with
  | nil => exact Nat.le_refl _
  | cons a entries ih =>
    simp only [tail_cons, List.length_append, List.length_cons]
    omega

theorem ends_tail {α : Type} (text : α → List Char) (entries : List α) (level : Nat)
    (cs : List Char) : Ends (tail text entries ++ (indent level ++ cs)) := by
  cases entries with
  | nil => exact ends_cons (.inr rfl) _
  | cons b entries => exact ends_cons (.inl rfl) _

/-- **The rest of a sequence** is read entry by entry, up to what closes it. -/
theorem loop_entries {α β : Type} {loop : Nat → List β → List Char → Option (List β × List Char)}
    {read : List Char → Option (β × List Char)} {bound level : Nat} {closing : Char}
    (hclose : ∀ n seen rest, loop (n + 1) seen (indent level ++ closing :: rest) =
      some (seen.reverse, rest))
    (hcomma : ∀ n seen cs b rest, read cs = some (b, rest) →
      loop (n + 1) seen (',' :: cs) = loop n (b :: seen) rest)
    {entries : List α} {text : α → List Char} {value : α → β}
    (hread : ∀ a ∈ entries, ∀ rest, Ends rest → (text a ++ rest).length < bound →
      read (text a ++ rest) = some (value a, rest))
    {n : Nat} (hn : entries.length < n) (seen : List β) {rest : List Char}
    (hbound : (tail text entries ++ (indent level ++ closing :: rest)).length ≤ bound) :
    loop n seen (tail text entries ++ (indent level ++ closing :: rest)) =
      some (seen.reverse ++ entries.map value, rest) := by
  -- Each entry takes one step of the loop; what is left of the text stays within the bound.
  induction entries generalizing n seen with
  | nil =>
    obtain ⟨n, rfl⟩ := Nat.exists_eq_succ_of_ne_zero (Nat.ne_of_gt hn)
    rw [tail, List.flatMap_nil, List.nil_append, hclose, List.map_nil, List.append_nil]
  | cons a entries ih =>
    obtain ⟨n, rfl⟩ := Nat.exists_eq_succ_of_ne_zero (Nat.ne_of_gt (Nat.zero_lt_of_lt hn))
    simp only [tail_cons, List.cons_append, List.append_assoc, List.length_cons] at hbound ⊢
    rw [hcomma _ _ _ _ _ (hread a List.mem_cons_self _ (ends_tail text entries level _) hbound),
      ih (fun b hb => hread b (List.mem_cons_of_mem _ hb)) (Nat.lt_of_succ_lt_succ hn)]
    · simp
    · rw [List.length_append] at hbound
      omega

/-! ### Indented lines -/

theorem prettyItems_eq (level : Nat) (items : List Json) :
    prettyItems level items = items.map (prettyAt level) := by
  induction items with
  | nil => rfl
  | cons v vs ih => rw [prettyItems, ih, List.map_cons]

/-- A member on indented lines. -/
def prettyMember (level : Nat) (m : String × Json) : String :=
  quote m.1 ++ ": " ++ prettyAt level m.2

theorem prettyMembers_eq (level : Nat) (members : List (String × Json)) :
    prettyMembers level members = members.map (prettyMember level) := by
  induction members with
  | nil => rfl
  | cons m ms ih =>
    obtain ⟨name, v⟩ := m
    rw [prettyMembers, ih, List.map_cons, prettyMember]

/-- The lines of an entry, with the line end before them. -/
def part {α : Type} (pretty : Nat → α → String) (level : Nat) (a : α) : List Char :=
  indent level ++ (pretty level a).toList

theorem toList_block {α : Type} (pretty : Nat → α → String) (opening closing : String)
    (level : Nat) (a : α) (entries : List α) :
    (block opening closing level ((a :: entries).map (pretty (level + 1)))).toList =
      opening.toList ++ (part pretty (level + 1) a ++
        (tail (part pretty (level + 1)) entries ++ (indent level ++ closing.toList))) := by
  have hentries : (String.intercalate ("," ++ newline (level + 1))
      ((a :: entries).map (pretty (level + 1)))).toList =
      (pretty (level + 1) a).toList ++ tail (part pretty (level + 1)) entries := by
    induction entries generalizing a with
    | nil => simp [tail]
    | cons b entries ih =>
      rw [List.map_cons, List.map_cons, String.intercalate_cons_cons, ← List.map_cons,
        String.toList_append, ih b]
      simp [tail_cons, part, toList_newline]
  rw [block, List.map_cons, List.isEmpty_cons, ← List.map_cons]
  simp only [Bool.false_eq_true, if_false, String.toList_append, hentries, toList_newline, part,
    List.append_assoc]

/-! ### Arrays and objects -/

/-- The lines of a value are read from the front of every text that is short enough. -/
def Readable (n depth level : Nat) (v : Json) : Prop :=
  ∀ rest, Ends rest → ((prettyAt level v).toList ++ rest).length < n →
    value? n depth ((prettyAt level v).toList ++ rest) = some (v, rest)

theorem Readable.part {n depth level : Nat} {v : Json} (h : Readable n depth level v)
    {rest : List Char} (hrest : Ends rest)
    (hbound : (Json.part prettyAt level v ++ rest).length < n) :
    value? n depth (Json.part prettyAt level v ++ rest) = some (id v, rest) := by
  rw [Json.part, List.append_assoc] at hbound ⊢
  rw [List.length_append] at hbound
  rw [value?_append fun _ => isSpace_of_mem_indent]
  exact h rest hrest (by omega)

theorem items?_close (read : List Char → Option (Json × List Char)) (level n : Nat)
    (seen : List Json) (rest : List Char) :
    items? read (n + 1) seen (indent level ++ ']' :: rest) = some (seen.reverse, rest) := by
  rw [items?, skip_indent, skip_cons (by decide)]
  rfl

theorem items?_comma {read : List Char → Option (Json × List Char)} (n : Nat) (seen : List Json)
    (cs : List Char) (v : Json) (rest : List Char) (h : read cs = some (v, rest)) :
    items? read (n + 1) seen (',' :: cs) = items? read n (v :: seen) rest := by
  rw [items?, skip_cons (by decide)]
  simp only [Option.bind_eq_bind, h, Option.bind_some]

/-- **The items of an array** are read if each of them is. -/
theorem array?_items {n depth level : Nat} {v : Json} {vs : List Json} {rest : List Char}
    (hread : ∀ w ∈ v :: vs, Readable n depth (level + 1) w)
    (hbound : (part prettyAt (level + 1) v ++ (tail (part prettyAt (level + 1)) vs ++
      (indent level ++ ']' :: rest))).length < n) :
    array? (value? n depth) n (part prettyAt (level + 1) v ++
      (tail (part prettyAt (level + 1)) vs ++ (indent level ++ ']' :: rest))) =
      some (arr (v :: vs), rest) := by
  have hlength := length_le_length_tail (part prettyAt (level + 1)) vs
  rw [array?_of_value? ((hread v List.mem_cons_self).part (ends_tail _ _ _ _) hbound)]
  simp only [List.length_append] at hbound
  rw [loop_entries (items?_close _ _) (fun _ _ _ _ _ => items?_comma _ _ _ _ _)
    (fun w hw _ => (hread w (List.mem_cons_of_mem _ hw)).part) (by omega) [id v]
    (by simp only [List.length_append]; omega), List.map_id]
  rfl

/-- A member with a name that is readable. -/
def named (m : String × Json) : Option String × Json := (some m.1, m.2)

theorem Readable.member {n depth level : Nat} {m : String × Json}
    (h : Readable n depth level m.2) {rest : List Char} (hrest : Ends rest)
    (hbound : (Json.part prettyMember level m ++ rest).length < n) :
    member? (value? n depth) n (Json.part prettyMember level m ++ rest) = some (named m, rest) := by
  have htext : Json.part prettyMember level m ++ rest = indent level ++ ((quote m.1).toList ++
      (':' :: ' ' :: ((prettyAt level m.2).toList ++ rest))) := by
    simp [Json.part, prettyMember]
  have hname := length_le_flatMap_escapeChar m.1.toList
  rw [htext] at hbound ⊢
  simp only [List.length_append, List.length_cons, toList_quote] at hbound
  refine member?_quote (by omega) (fun _ => isSpace_of_mem_indent) ?_
  rw [← List.singleton_append, value?_append (by simp [isSpace])]
  exact h rest hrest (by rw [List.length_append]; omega)

theorem members?_close (read : List Char → Option (Json × List Char)) (bound level n : Nat)
    (seen : List (Option String × Json)) (rest : List Char) :
    members? read bound (n + 1) seen (indent level ++ '\x7d' :: rest) =
      some (seen.reverse, rest) := by
  rw [members?, skip_indent, skip_cons (by decide)]
  rfl

theorem members?_comma {read : List Char → Option (Json × List Char)} {bound : Nat} (n : Nat)
    (seen : List (Option String × Json)) (cs : List Char) (m : Option String × Json)
    (rest : List Char) (h : member? read bound cs = some (m, rest)) :
    members? read bound (n + 1) seen (',' :: cs) = members? read bound n (m :: seen) rest := by
  rw [members?, skip_cons (by decide)]
  simp only [Option.bind_eq_bind, h, Option.bind_some]

theorem ofMembers_named (members : List (String × Json)) :
    ofMembers (members.map named) = obj members := by
  have hmapM : (members.map named).mapM (fun m => m.1.map fun name => (name, m.2)) =
      some members := by
    induction members with
    | nil => rfl
    | cons m ms ih => simp [ih, named]
  rw [ofMembers, hmapM]

/-- **The members of an object** are read if the value of each of them is. -/
theorem object?_members {n depth level : Nat} {m : String × Json} {ms : List (String × Json)}
    {rest : List Char}
    (hread : ∀ w ∈ m :: ms, Readable n depth (level + 1) w.2)
    (hbound : (part prettyMember (level + 1) m ++ (tail (part prettyMember (level + 1)) ms ++
      (indent level ++ '\x7d' :: rest))).length < n) :
    object? (value? n depth) n (part prettyMember (level + 1) m ++
      (tail (part prettyMember (level + 1)) ms ++ (indent level ++ '\x7d' :: rest))) =
      some (obj (m :: ms), rest) := by
  have hlength := length_le_length_tail (part prettyMember (level + 1)) ms
  rw [object?_of_member? ((hread m List.mem_cons_self).member (ends_tail _ _ _ _) hbound)]
  simp only [List.length_append] at hbound
  rw [loop_entries (members?_close _ _ _) (fun _ _ _ _ _ => members?_comma _ _ _ _ _)
    (fun w hw _ => (hread w (List.mem_cons_of_mem _ hw)).member) (by omega) [named m]
    (by simp only [List.length_append]; omega)]
  exact congrArg (fun v => some (v, rest)) (ofMembers_named (m :: ms))

/-! ### Values -/

variable {n depth level : Nat} {rest : List Char}

theorem value?_null :
    value? (n + 1) depth ((prettyAt level null).toList ++ rest) = some (null, rest) := by
  simp [prettyAt, value?, skip_cons, isSpace]

theorem value?_bool (b : Bool) :
    value? (n + 1) depth ((prettyAt level (bool b)).toList ++ rest) = some (bool b, rest) := by
  cases b <;> simp [prettyAt, value?, skip_cons, isSpace]

theorem value?_quote {s : String} (hbound : ((quote s).toList ++ rest).length ≤ n) :
    value? (n + 1) depth ((quote s).toList ++ rest) = some (str s, rest) := by
  have htext : (quote s).toList ++ rest =
      '"' :: (s.toList.flatMap escapeChar ++ '"' :: rest) := by simp [toList_quote]
  have hlength := length_le_flatMap_escapeChar s.toList
  rw [htext] at hbound ⊢
  simp only [List.length_cons, List.length_append] at hbound
  rw [value?, skip_cons (by decide)]
  simp only [string?_escaped (show s.toList.length < n by omega), Option.map_some, ofString,
    List.reverse_nil, List.nil_append, String.ofList_toList]

/-- **An array is read** if its items are. -/
theorem value?_arr {items : List Json} (hdepth : depth < maxDepth)
    (hread : ∀ w ∈ items, Readable n (depth + 1) (level + 1) w)
    (hbound : ((prettyAt level (arr items)).toList ++ rest).length ≤ n) :
    value? (n + 1) depth ((prettyAt level (arr items)).toList ++ rest) =
      some (arr items, rest) := by
  have hinside : inside depth (arr items) = arr items := if_pos hdepth
  cases items with
  | nil =>
    have htext : (prettyAt level (arr [])).toList ++ rest = '[' :: ']' :: rest := by
      simp [prettyAt, prettyItems, block]
    rw [htext, value?, skip_cons (by decide)]
    simp only [array?, skip_cons (show isSpace ']' = false by decide), Option.map_some, hinside]
  | cons v vs =>
    have htext : (prettyAt level (arr (v :: vs))).toList ++ rest =
        '[' :: (part prettyAt (level + 1) v ++
          (tail (part prettyAt (level + 1)) vs ++ (indent level ++ ']' :: rest))) := by
      rw [prettyAt, prettyItems_eq, toList_block prettyAt]
      simp
    rw [htext, List.length_cons] at hbound
    rw [htext, value?, skip_cons (by decide)]
    simp only [array?_items hread hbound, Option.map_some, hinside]

/-- **An object is read** if the values of its members are. -/
theorem value?_obj {members : List (String × Json)} (hdepth : depth < maxDepth)
    (hread : ∀ w ∈ members, Readable n (depth + 1) (level + 1) w.2)
    (hbound : ((prettyAt level (obj members)).toList ++ rest).length ≤ n) :
    value? (n + 1) depth ((prettyAt level (obj members)).toList ++ rest) =
      some (obj members, rest) := by
  have hinside : inside depth (obj members) = obj members := if_pos hdepth
  cases members with
  | nil =>
    have htext : (prettyAt level (obj [])).toList ++ rest = '\x7b' :: '\x7d' :: rest := by
      simp [prettyAt, prettyMembers, block]
    rw [htext, value?, skip_cons (by decide)]
    simp only [object?, skip_cons (show isSpace '\x7d' = false by decide), Option.map_some,
      hinside]
  | cons m ms =>
    have htext : (prettyAt level (obj (m :: ms))).toList ++ rest =
        '\x7b' :: (part prettyMember (level + 1) m ++
          (tail (part prettyMember (level + 1)) ms ++ (indent level ++ '\x7d' :: rest))) := by
      rw [prettyAt, prettyMembers_eq, toList_block prettyMember]
      simp
    rw [htext, List.length_cons] at hbound
    rw [htext, value?, skip_cons (by decide)]
    simp only [object?_members hread hbound, Option.map_some, hinside]

/-- **A value is read from the front of a text** that begins with its lines. -/
theorem value?_prettyAt {left : Nat} {v : Json} (h : Plain left v)
    (hdepth : depth + left ≤ maxDepth)
    (hbound : ((prettyAt level v).toList ++ rest).length ≤ n) (hrest : Ends rest) :
    value? (n + 1) depth ((prettyAt level v).toList ++ rest) = some (v, rest) := by
  -- Every level of nesting takes one step from the bound, and at least its bracket from the text.
  induction h generalizing n depth level rest with
  | null left => exact value?_null
  | bool left b => exact value?_bool b
  | int left hi => exact value?_ofInt hi hrest n depth
  | str left s =>
    rw [prettyAt] at hbound ⊢
    exact value?_quote hbound
  | @arr left items h ih =>
    refine value?_arr (by omega) (fun w hw rest hrest hlength => ?_) hbound
    obtain ⟨n, rfl⟩ := Nat.exists_eq_succ_of_ne_zero (Nat.ne_of_gt (Nat.zero_lt_of_lt hlength))
    exact ih w hw (by omega) (Nat.le_of_lt_succ hlength) hrest
  | @obj left members h ih =>
    refine value?_obj (by omega) (fun w hw rest hrest hlength => ?_) hbound
    obtain ⟨n, rfl⟩ := Nat.exists_eq_succ_of_ne_zero (Nat.ne_of_gt (Nat.zero_lt_of_lt hlength))
    exact ih w hw (by omega) (Nat.le_of_lt_succ hlength) hrest

/-- **A value comes back from its text**, also with a line end behind it. -/
theorem ofText?_pretty {v : Json} (h : Plain maxDepth v) {blanks : String}
    (hblanks : blanks = "" ∨ blanks = "\n") : ofText? (v.pretty ++ blanks) = some v := by
  have hends : Ends blanks.toList := by
    rcases hblanks with rfl | rfl
    · nofun
    · exact ends_cons (.inr rfl) []
  have hskip : skip blanks.toList = [] := by
    rcases hblanks with rfl | rfl <;> decide
  rw [ofText?, String.toList_append]
  simp only [pretty, value?_prettyAt h (Nat.le_of_eq (Nat.zero_add _)) (Nat.le_refl _) hends,
    hskip, List.isEmpty_nil, if_true]

end ReviewQuorum.Json
