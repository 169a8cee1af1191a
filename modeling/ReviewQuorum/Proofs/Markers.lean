import Mathlib.Tactic.SplitIfs
import ReviewQuorum.Marker

/-! # Where markers stand

The scan of a text finds exactly the markers that stand in it (`mem_keysIn`): a key is found iff it
has a character, has no blank, and stands somewhere between the two ends of a marker. The scan goes
on behind a marker that it has found, but nothing is missed by that, because no marker begins inside
another one (`holding_infix_append`): a marker has a `<` only at its beginning and in its key, and
what follows the key is no beginning of a marker.

A marker has no line end, so it stands on one side of each (`infix_append_cons`), and it does not
reach into a text that has no `<`, or out of one that has no `>` (`holding_infix_append_left`,
`holding_infix_append_right`). -/

namespace ReviewQuorum

/-- A text without blanks. -/
def Text.Unbroken (cs : List Char) : Prop := ∀ c ∈ cs, Text.isBlank c = false

instance (cs : List Char) : Decidable (Text.Unbroken cs) :=
  List.decidableBAll _ cs

/-- Two texts that agree have the same first character of a kind. -/
theorem Text.eq_of_first {p : Char → Bool} {a b x y : List Char} {c d : Char}
    (ha : ∀ e ∈ a, p e = false) (hb : ∀ e ∈ b, p e = false) (hc : p c = true) (hd : p d = true)
    (h : a ++ c :: x = b ++ d :: y) : a = b ∧ c = d ∧ x = y := by
  have hcut {a x : List Char} {c : Char} (ha : ∀ e ∈ a, p e = false) (hc : p c = true) :
      (a ++ c :: x).takeWhile (!p ·) = a := by
    rw [List.takeWhile_append_of_pos fun e he => by rw [ha e he]; rfl,
      List.takeWhile_cons_of_neg (by rw [hc]; decide), List.append_nil]
  obtain rfl : a = b := by rw [← hcut ha hc (x := x), h, hcut hb hd]
  obtain ⟨rfl, rfl⟩ := List.cons.inj (List.append_cancel_left h)
  exact ⟨rfl, rfl, rfl⟩

namespace Marker

open Text (Unbroken)

/-- What can be the key of a marker: one character or more, none of them blank. -/
structure IsKey (key : List Char) : Prop where
  ne_nil : key ≠ []
  unbroken : Unbroken key

/-- The marker that holds a key. -/
def holding (key : List Char) : List Char := opening.toList ++ (key ++ closing.toList)

theorem opening_toList : opening.toList = ['<', '!', '-', '-'] ++ ' ' ::
    (['r', 'e', 'v', 'g', 'a', 't', 'e', '-', 'r', 'e', 'p', 'l', 'y', ':'] ++ [' ']) := by decide

theorem closing_toList : closing.toList = [] ++ ' ' :: ['-', '-', '>'] := by decide

/-! ### One marker -/

theorem here?_eq_some_iff {cs key behind : List Char} :
    here? cs = some (key, behind) ↔ IsKey key ∧ cs = holding key ++ behind := by
  constructor
  · intro h
    unfold here? at h
    split at h
    · cases h
    · rename_i rest hrest
      simp only at h
      split_ifs at h with hempty
      obtain ⟨b, hb, hkb⟩ := Option.map_eq_some_iff.mp h
      obtain ⟨rfl, rfl⟩ := Prod.mk.inj hkb
      have hopen := Text.dropPrefix?_eq_some_iff.mp hrest
      have hclose := Text.dropPrefix?_eq_some_iff.mp hb
      refine ⟨⟨fun h0 => hempty (by rw [h0]; rfl), fun c hc => ?_⟩, ?_⟩
      · simpa using List.all_eq_true.mp List.all_takeWhile c hc
      · rw [hopen, holding, List.append_assoc, List.append_assoc, ← hclose,
          List.takeWhile_append_dropWhile]
  · rintro ⟨hkey, rfl⟩
    have hopen : Text.dropPrefix? opening.toList (holding key ++ behind) =
        some (key ++ (closing.toList ++ behind)) := by
      rw [Text.dropPrefix?_eq_some_iff, holding, List.append_assoc, List.append_assoc]
    have hpos : ∀ c ∈ key, (!Text.isBlank c) = true := fun c hc => by simp [hkey.unbroken c hc]
    have hblank : Text.isBlank ' ' = true := by decide
    have htake :
        (key ++ (closing.toList ++ behind)).takeWhile (fun c => !Text.isBlank c) = key := by
      rw [List.takeWhile_append_of_pos hpos, closing_toList]
      simp [hblank]
    have hdrop : (key ++ (closing.toList ++ behind)).dropWhile (fun c => !Text.isBlank c) =
        closing.toList ++ behind := by
      rw [List.dropWhile_append_of_pos hpos, closing_toList]
      simp [hblank]
    unfold here?
    rw [hopen]
    simp only [htake, hdrop]
    rw [if_neg (by simpa using hkey.ne_nil), Text.dropPrefix?_eq_some_iff.mpr rfl]
    rfl

theorem eq_of_holding_append {key k x y : List Char} (hkey : IsKey key) (hk : IsKey k)
    (h : holding key ++ x = holding k ++ y) : key = k := by
  have h1 := here?_eq_some_iff.mpr ⟨hkey, h.symm⟩
  rw [here?_eq_some_iff.mpr ⟨hk, rfl⟩] at h1
  simpa using (congrArg (Option.map Prod.fst) h1).symm

theorem not_holding_cons {c : Char} {cs k y : List Char} (hc : c ≠ '<') :
    c :: cs ≠ holding k ++ y := by
  rw [holding, opening_toList]
  intro h
  exact hc (List.cons.inj h).1

theorem not_holding_closing {b x k y : List Char} (hb : Unbroken b) :
    b ++ (closing.toList ++ x) ≠ holding k ++ y := by
  rw [holding, opening_toList, closing_toList]
  intro h
  have h' : b ++ ' ' :: (['-', '-', '>'] ++ x) = ['<', '!', '-', '-'] ++ ' ' :: ((['r', 'e', 'v',
      'g', 'a', 't', 'e', '-', 'r', 'e', 'p', 'l', 'y', ':'] ++ [' ']) ++
        (k ++ (' ' :: ['-', '-', '>'])) ++ y) := by simpa using h
  obtain ⟨-, -, h3⟩ := Text.eq_of_first hb (by simp [Text.isBlank]) (by decide) (by decide) h'
  exact absurd (List.cons.inj h3).1 (by decide)

/-- No marker begins inside another one. -/
theorem not_holding_within {key k before rest behind x : List Char} {c : Char} (hkey : IsKey key)
    (hne : before ≠ []) (h : holding key = before ++ c :: rest) :
    c :: rest ++ behind ≠ holding k ++ x := by
  intro hx
  rw [holding] at h
  rcases List.append_eq_append_iff.mp h with ⟨b, rfl, hb⟩ | ⟨b, hb, hrest⟩
  · rcases List.append_eq_append_iff.mp hb with ⟨d, rfl, hd⟩ | ⟨d, rfl, hd⟩
    · -- it would begin in the closing
      have hclose : '<' ∉ closing.toList := by decide
      exact not_holding_cons (ne_of_mem_of_not_mem (by simp [hd]) hclose) hx
    · -- it would begin in the key
      refine not_holding_closing (b := d) (x := behind) (k := k) (y := x)
        (fun c hc => hkey.unbroken c (List.mem_append_right _ hc)) ?_
      rw [← hx, hd, List.append_assoc]
  · cases b with
    | nil =>
      -- it would begin right behind the opening
      refine not_holding_closing (x := behind) (k := k) (y := x) hkey.unbroken ?_
      rw [← hx, hrest, List.nil_append, List.append_assoc]
    | cons d b =>
      -- it would begin in the opening, after its first character
      obtain ⟨rfl, -⟩ := List.cons.inj hrest
      obtain ⟨e, before, rfl⟩ := List.exists_cons_of_ne_nil hne
      have htail : '<' ∉ opening.toList.tail := by decide
      exact not_holding_cons (ne_of_mem_of_not_mem (by simp [hb]) htail) hx

/-- **What stands in a text that begins with a marker** is that marker or stands behind it. -/
theorem holding_infix_append {key k behind : List Char} (hkey : IsKey key) (hk : IsKey k) :
    holding k <:+: holding key ++ behind ↔ k = key ∨ holding k <:+: behind := by
  constructor
  · rintro ⟨before, x, h⟩
    rw [List.append_assoc] at h
    cases before with
    | nil => exact .inl (eq_of_holding_append hk hkey h)
    | cons e before =>
      refine .inr ?_
      rcases List.append_eq_append_iff.mp h.symm with ⟨b, -, hb⟩ | ⟨rest, hrest, hx⟩
      · exact ⟨b, x, by rw [hb, List.append_assoc]⟩
      · cases rest with
        | nil => exact ⟨[], x, hx⟩
        | cons c rest => exact absurd hx.symm (not_holding_within hkey (List.cons_ne_nil _ _) hrest)
  · rintro (rfl | h)
    · exact List.infix_append [] (holding k) behind
    · exact h.trans (List.suffix_append _ _).isInfix

theorem holding_infix_cons {c : Char} {cs k : List Char} (h : here? (c :: cs) = none)
    (hk : IsKey k) : holding k <:+: c :: cs ↔ holding k <:+: cs := by
  rw [List.infix_cons_iff, or_iff_right]
  rintro ⟨x, hx⟩
  rw [here?_eq_some_iff.mpr ⟨hk, hx.symm⟩] at h
  cases h

theorem not_holding_infix_nil {k : List Char} : ¬ holding k <:+: [] := by
  rw [List.infix_nil, holding, opening_toList]
  exact List.cons_ne_nil _ _

theorem eq_of_holding_suffix {k k' cs : List Char} (hk : IsKey k) (hk' : IsKey k')
    (h : holding k <:+ cs) (h' : holding k' <:+ cs) : k = k' := by
  obtain ⟨x, rfl⟩ := h
  obtain ⟨y, h⟩ := h'
  have hsplit (z k : List Char) : (z ++ holding k).reverse = ['>', '-', '-'] ++ ' ' ::
      (k.reverse ++ ' ' ::
        ([':', 'y', 'l', 'p', 'e', 'r', '-', 'e', 't', 'a', 'g', 'v', 'e', 'r'] ++
          ' ' :: (['-', '-', '!', '<'] ++ z.reverse))) := by
    simp [holding, opening_toList, closing_toList]
  have hend : Unbroken ['>', '-', '-'] := by decide
  have hblank : Text.isBlank ' ' = true := by decide
  have hrev {k : List Char} (hk : IsKey k) : Unbroken k.reverse := fun c hc =>
    hk.unbroken c (List.mem_reverse.mp hc)
  have heq := congrArg List.reverse h
  rw [hsplit, hsplit] at heq
  obtain ⟨-, -, heq⟩ := Text.eq_of_first hend hend hblank hblank heq
  obtain ⟨heq, -⟩ := Text.eq_of_first (hrev hk') (hrev hk) hblank hblank heq
  exact (List.reverse_inj.mp heq).symm

/-! ### The scan -/

/-- **The scan finds exactly the markers that stand in a text.** -/
theorem mem_keysIn {k : String} {cs : List Char} :
    k ∈ keysIn cs ↔ IsKey k.toList ∧ holding k.toList <:+: cs := by
  fun_induction keysIn cs with
  | case1 cs key behind h _ ih =>
    obtain ⟨hkey, rfl⟩ := here?_eq_some_iff.mp h
    rw [List.mem_cons, ih]
    constructor
    · rintro (rfl | ⟨hk, hin⟩)
      · rw [String.toList_ofList]
        exact ⟨hkey, (holding_infix_append hkey hkey).mpr (.inl rfl)⟩
      · exact ⟨hk, (holding_infix_append hkey hk).mpr (.inr hin)⟩
    · rintro ⟨hk, hin⟩
      rcases (holding_infix_append hkey hk).mp hin with heq | hin
      · exact .inl (by rw [← heq, String.ofList_toList])
      · exact .inr ⟨hk, hin⟩
  | case2 h =>
    simp only [List.not_mem_nil, false_iff, not_and]
    exact fun _ => not_holding_infix_nil
  | case3 c cs h ih =>
    rw [ih]
    exact and_congr_right fun hk => (holding_infix_cons h hk).symm

theorem mem_keysIn_of_suffix {k : String} {cs : List Char} (hk : IsKey k.toList)
    (h : holding k.toList <:+ cs) : k ∈ keysIn cs :=
  mem_keysIn.mpr ⟨hk, h.isInfix⟩

theorem mem_answeredKeys {k : String} {comments : List Comment} {bot : Account} :
    k ∈ answeredKeys comments bot ↔
      ∃ c ∈ comments, c.author = bot ∧ k ∈ keysIn c.body.toList := by
  simp only [answeredKeys, List.mem_flatMap, List.mem_filter, beq_iff_eq, and_assoc]

/-! ### Where no marker stands -/

/-- What has no `c` stands on one side of every `c`. -/
theorem infix_append_cons {c : Char} {l a b : List Char} (hc : c ∉ l) :
    l <:+: a ++ c :: b ↔ l <:+: a ∨ l <:+: b := by
  constructor
  · intro h
    rcases List.infix_append_iff_ne_nil.mp h with h | h | ⟨l₁, l₂, -, hne, rfl, -, h⟩
    · exact .inl h
    · rcases List.infix_cons_iff.mp h with h | h
      · rcases List.prefix_cons_iff.mp h with rfl | ⟨t, rfl, -⟩
        · exact .inl List.nil_infix
        · exact absurd List.mem_cons_self hc
      · exact .inr h
    · rcases List.prefix_cons_iff.mp h with rfl | ⟨t, rfl, -⟩
      · exact absurd rfl hne
      · exact absurd (List.mem_append_right _ List.mem_cons_self) hc
  · rintro (h | h)
    · exact h.trans (List.prefix_append _ _).isInfix
    · exact h.trans ((List.suffix_cons c b).trans (List.suffix_append a _)).isInfix

theorem mem_holding {c : Char} {k : List Char} :
    c ∈ holding k ↔ c ∈ opening.toList ∨ c ∈ k ∨ c ∈ closing.toList := by
  rw [holding, List.mem_append, List.mem_append]

theorem not_holding_infix_of_notMem {k cs : List Char} (h : '!' ∉ cs) :
    ¬ holding k <:+: cs := fun hin =>
  h (hin.subset (mem_holding.mpr (.inl (by decide))))

theorem not_holding_infix_word {k w : List Char} (hw : Unbroken w) :
    ¬ holding k <:+: w := fun hin => by
  have := hw ' ' (hin.subset (mem_holding.mpr (.inl (by decide))))
  revert this; decide

theorem infix_append_of_notMem {c : Char} {l a b : List Char} (ha : c ∉ a) :
    c :: l <:+: a ++ b ↔ c :: l <:+: b := by
  refine ⟨fun h => ?_, fun h => h.trans (List.suffix_append _ _).isInfix⟩
  rcases List.infix_append_iff_ne_nil.mp h with h | h | ⟨l₁, l₂, hne, -, hl, h, -⟩
  · exact absurd (h.subset List.mem_cons_self) ha
  · exact h
  · obtain ⟨d, l₁, rfl⟩ := List.exists_cons_of_ne_nil hne
    obtain ⟨rfl, -⟩ := List.cons.inj hl
    exact absurd (h.subset List.mem_cons_self) ha

theorem holding_infix_append_left {k a b : List Char} (ha : '<' ∉ a) :
    holding k <:+: a ++ b ↔ holding k <:+: b := by
  rw [holding, opening_toList]
  exact infix_append_of_notMem ha

theorem holding_infix_append_right {k a b : List Char} (hb : '>' ∉ b) :
    holding k <:+: a ++ b ↔ holding k <:+: a := by
  refine ⟨fun h => ?_, fun h => h.trans (List.prefix_append _ _).isInfix⟩
  rcases List.infix_append_iff_ne_nil.mp h with h | h | ⟨l₁, l₂, -, hne, hl, -, h⟩
  · exact h
  · exact absurd (h.subset (mem_holding.mpr (.inr (.inr (by decide))))) hb
  · have hlast : l₂.getLast hne = '>' := by
      have := congrArg List.getLast? hl
      rw [List.getLast?_append, List.getLast?_eq_some_getLast hne, holding, closing_toList] at this
      simpa using this.symm
    exact absurd (h.subset (hlast ▸ List.getLast_mem hne)) hb

/-- What a marker begins with, up to its second blank. -/
def lead : String := "<!-- revgate-reply:"

/-- A text in which no marker begins. -/
def Unopened (cs : List Char) : Prop := ¬ lead.toList <:+: cs

instance (cs : List Char) : Decidable (Unopened cs) :=
  inferInstanceAs (Decidable ¬ lead.toList <:+: cs)

theorem lead_toList : lead.toList = ['<', '!', '-', '-'] ++ ' ' ::
    ['r', 'e', 'v', 'g', 'a', 't', 'e', '-', 'r', 'e', 'p', 'l', 'y', ':'] := by decide

theorem holding_eq (k : List Char) :
    holding k = lead.toList ++ ' ' :: (k ++ closing.toList) := by
  rw [holding, opening_toList, lead_toList]
  simp

theorem Unopened.mono {cs ds : List Char} (h : Unopened cs) (hd : ds <:+: cs) : Unopened ds :=
  fun hin => h (hin.trans hd)

theorem Unopened.not_holding_infix {k cs : List Char} (h : Unopened cs) : ¬ holding k <:+: cs :=
  fun hin => h ((holding_eq k ▸ List.prefix_append _ _).isInfix.trans hin)

theorem unopened_of_unbroken {w : List Char} (hw : Unbroken w) : Unopened w := fun hin => by
  have := hw ' ' (hin.subset (by decide))
  revert this; decide

theorem eq_of_lead_eq {a b : List Char} (h : lead.toList = a ++ ' ' :: b) :
    b = ['r', 'e', 'v', 'g', 'a', 't', 'e', '-', 'r', 'e', 'p', 'l', 'y', ':'] := by
  have hleft : ' ' ∉ ['<', '!', '-', '-'] := by decide
  have hright : ' ' ∉ ['r', 'e', 'v', 'g', 'a', 't', 'e', '-', 'r', 'e', 'p', 'l', 'y', ':'] := by
    decide
  rw [lead_toList] at h
  rcases List.append_eq_append_iff.mp h with ⟨c, rfl, hc⟩ | ⟨c, hc, hb⟩
  · cases c with
    | nil => exact (List.cons.inj hc).2.symm
    | cons d c =>
      have htail := (List.cons.inj hc).2
      exact absurd (htail ▸ List.mem_append_right _ List.mem_cons_self) hright
  · cases c with
    | nil => exact (List.cons.inj hb).2
    | cons d c =>
      obtain ⟨rfl, -⟩ := List.cons.inj hb
      exact absurd (hc ▸ List.mem_append_right _ List.mem_cons_self) hleft

/-- No marker reaches from a text in which none begins over a blank, unless what follows there is
`revgate-reply:`. -/
theorem holding_infix_append_blank {k w m : List Char} (hw : Unopened w)
    (hm : m.head? ≠ some 'r') : holding k <:+: w ++ ' ' :: m ↔ holding k <:+: m := by
  refine ⟨fun h => ?_, fun h => h.trans
    ((List.suffix_cons ' ' m).trans (List.suffix_append w _)).isInfix⟩
  rcases List.infix_append_iff_ne_nil.mp h with h | h | ⟨l₁, l₂, -, hne, hl, hs, hp⟩
  · exact absurd h hw.not_holding_infix
  · rcases List.infix_cons_iff.mp h with ⟨x, hx⟩ | h
    · exact absurd hx.symm (not_holding_cons (by decide))
    · exact h
  · rcases List.prefix_cons_iff.mp hp with rfl | ⟨t, rfl, ht⟩
    · exact absurd rfl hne
    · exfalso
      rw [holding_eq] at hl
      rcases List.append_eq_append_iff.mp hl with ⟨c, rfl, hc⟩ | ⟨c, hc, ht'⟩
      · -- the beginning of the marker stands in the text before the blank
        exact hw ((List.prefix_append _ _).isInfix.trans hs.isInfix)
      · cases c with
        | nil =>
          rw [List.append_nil] at hc
          exact hw (hc ▸ hs.isInfix)
        | cons d c =>
          obtain ⟨rfl, rfl⟩ := List.cons.inj ht'
          obtain ⟨x, rfl⟩ := ht
          exact hm (by rw [eq_of_lead_eq hc]; rfl)

end Marker

end ReviewQuorum
