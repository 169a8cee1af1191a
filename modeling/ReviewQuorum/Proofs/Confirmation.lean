import ReviewQuorum.Proofs.GateAnswer
import ReviewQuorum.Proofs.PolicyShape
import ReviewQuorum.Proofs.ReplyMarkers
import ReviewQuorum.Proofs.TimestampText

/-! # What a confirmation promises

The reply to a command that was carried out says how many reviews are required now, and of which
roles. Such a statement comes in one of two forms, a sentence for the minimum of a role or a bracket
behind the total, and each begins with a character that stands nowhere else in the reply. So the
statements of a reply can be told: they are the minimums of the policy, or one reviewer if it has
none and a total above one (`Reply.promises_success_iff`).

The gate keeps the minimums. It knows nothing of that one reviewer, whose approval is promised and
not required (`confirmation_kept_iff`). -/

namespace ReviewQuorum

open Marker
open Text (Unbroken)

theorem Role.eq_of_name_prefix {r r' : Role} (h : r.name.toList <+: r'.name.toList) : r = r' := by
  revert h
  cases r <;> cases r' <;> decide

namespace Reply

/-! ### Statements about roles -/

/-- The forms in which a reply says how many approvals of a role are needed. -/
inductive Form
  | sentence
  | bracket

namespace Form

/-- What stands before the number. -/
def before : Form → String
  | sentence => "At least "
  | bracket => "(with at least "

/-- What stands between the number and the role. -/
def between : Form → String
  | sentence => " of them must have the role "
  | bracket => " of role "

/-- The statement that so many approvals of a role are needed. -/
def say (f : Form) (k : Nat) (r : Role) : String :=
  f.before ++ Decimal.ofNat k ++ f.between ++ r.name

/-- The character that a statement begins with. -/
def mark : Form → Char
  | sentence => 'A'
  | bracket => '('

variable {f : Form} {k k' : Nat} {r r' : Role} {a b : List Char}

theorem say_toList (f : Form) (k : Nat) (r : Role) : (f.say k r).toList =
    f.before.toList ++ ((Decimal.ofNat k).toList ++ (f.between.toList ++ r.name.toList)) := by
  simp [say]

theorem mark_notMem_ofNat (f : Form) (k : Nat) : f.mark ∉ (Decimal.ofNat k).toList := fun h => by
  have hdigit := Decimal.isDigit_of_mem_ofNat h
  cases f <;> exact absurd hdigit (by decide)

/-- A statement has its mark at the beginning and nowhere else. -/
theorem exists_say (f : Form) (k : Nat) (r : Role) :
    ∃ rest, (f.say k r).toList = f.mark :: rest ∧ f.mark ∉ rest := by
  have hmark : f.before.toList = f.mark :: f.before.toList.tail := by cases f <;> decide
  have hbefore : f.mark ∉ f.before.toList.tail := by cases f <;> decide
  have hbetween : f.mark ∉ f.between.toList := by cases f <;> decide
  have hname : f.mark ∉ r.name.toList := by cases f <;> cases r <;> decide
  refine ⟨_, by rw [say_toList, hmark, List.cons_append], ?_⟩
  simp only [List.mem_append, not_or]
  exact ⟨hbefore, f.mark_notMem_ofNat k, hbetween, hname⟩

/-- **A statement can be told from the others** of its form. -/
theorem eq_of_say_prefix (h : (f.say k r).toList <+: (f.say k' r').toList ++ b) :
    k = k' ∧ r = r' := by
  have hword (n : Nat) : Unbroken (Decimal.ofNat n).toList := fun c hc =>
    Text.isBlank_of_isDigit (Decimal.isDigit_of_mem_ofNat hc)
  have hblank : f.between.toList = ' ' :: f.between.toList.tail := by cases f <;> decide
  rw [say_toList, say_toList, hblank, List.append_assoc, List.prefix_append_right_inj] at h
  obtain ⟨rest, hrest⟩ := h
  simp only [List.append_assoc, List.cons_append] at hrest
  obtain ⟨hdigits, -, hbehind⟩ :=
    Text.eq_of_first (hword k) (hword k') (by decide) (by decide) hrest
  have hname : r.name.toList <+: r'.name.toList ++ b :=
    ⟨rest, List.append_cancel_left hbehind⟩
  refine ⟨Decimal.ofNat_injective (String.toList_inj.mp hdigits), ?_⟩
  rcases List.prefix_or_prefix_of_prefix hname (List.prefix_append _ _) with h | h
  · exact Role.eq_of_name_prefix h
  · exact (Role.eq_of_name_prefix h).symm

/-- Behind a text without the mark, a statement comes first or stands further behind. -/
theorem say_infix_iff (ha : f.mark ∉ a) :
    (f.say k r).toList <:+: a ++ ((f.say k' r').toList ++ b) ↔
      (k = k' ∧ r = r') ∨ (f.say k r).toList <:+: b := by
  obtain ⟨rest, hrest, -⟩ := f.exists_say k r
  obtain ⟨rest', hrest', hmark⟩ := f.exists_say k' r'
  constructor
  · intro h
    rw [hrest, infix_append_of_notMem ha, hrest', List.cons_append, List.infix_cons_iff,
      infix_append_of_notMem hmark, ← List.cons_append, ← hrest', ← hrest] at h
    exact h.imp_left eq_of_say_prefix
  · rintro (⟨rfl, rfl⟩ | h)
    · exact (List.prefix_append _ _).isInfix.trans (List.suffix_append _ _).isInfix
    · exact h.trans ((List.suffix_append _ _).trans (List.suffix_append _ _)).isInfix

theorem not_say_infix (ha : f.mark ∉ a) : ¬ (f.say k r).toList <:+: a := fun h => by
  obtain ⟨rest, hrest, -⟩ := f.exists_say k r
  exact ha (h.subset (hrest ▸ List.mem_cons_self))

end Form

/-- **The statements of a text** about the approvals of roles. -/
def Promises (text : String) (k : Nat) (r : Role) : Prop :=
  ∃ f : Form, (f.say k r).toList <:+: text.toList

/-! ### The statements of a confirmation -/

variable {p : Policy} {k : Nat} {r : Role}

theorem minimumSentence_toList (e : Role × Nat) : (minimumSentence e).toList =
    [' '] ++ ((Form.sentence.say e.2 e.1).toList ++ ['.']) := by
  simp [minimumSentence, Form.say, Form.before, Form.between]

theorem say_infix_sentences {es : List (Role × Nat)} :
    (Form.sentence.say k r).toList <:+: (String.join (es.map minimumSentence)).toList ↔
      (r, k) ∈ es := by
  induction es with
  | nil => simpa using Form.not_say_infix (f := .sentence) List.not_mem_nil
  | cons e es ih =>
    have hsplit : (String.join ((e :: es).map minimumSentence)).toList =
        [' '] ++ ((Form.sentence.say e.2 e.1).toList ++
          (['.'] ++ (String.join (es.map minimumSentence)).toList)) := by
      rw [List.map_cons, String.join_cons, String.toList_append, minimumSentence_toList]
      simp
    obtain ⟨rest, hrest, -⟩ := Form.sentence.exists_say k r
    have hperiod {b : List Char} : (Form.sentence.say k r).toList <:+: ['.'] ++ b ↔
        (Form.sentence.say k r).toList <:+: b := by
      rw [hrest]
      exact infix_append_of_notMem (by decide)
    rw [hsplit, Form.say_infix_iff (by decide), hperiod, ih, List.mem_cons, Prod.ext_iff]
    exact or_congr_left And.comm

/-- What a confirmation says of the total. -/
def totalText (n : Nat) : String :=
  "The number of required reviews for this PR is now set to " ++ Decimal.ofNat n

theorem mark_notMem_totalText (f : Form) (n : Nat) : f.mark ∉ (totalText n).toList :=
  notMem_append (by cases f <;> decide) (f.mark_notMem_ofNat n)

theorem bracket_notMem_sentences {es : List (Role × Nat)} :
    Form.bracket.mark ∉ (String.join (es.map minimumSentence)).toList := by
  rw [String.toList_join, List.mem_flatMap]
  rintro ⟨s, hs, hmem⟩
  obtain ⟨e, -, rfl⟩ := List.mem_map.mp hs
  have hname : Form.bracket.mark ∉ e.1.name.toList := by cases e.1 <;> decide
  exact notMem_append (notMem_append (notMem_append (notMem_append (by decide)
    (Form.bracket.mark_notMem_ofNat e.2)) (by decide)) hname) (by decide) hmem

theorem promises_bracketed {n : Nat} :
    Promises (totalText n ++ " (with at least 1 of role reviewers).") k r ↔
      k = 1 ∧ r = .reviewers := by
  have hbracket : " (with at least 1 of role reviewers).".toList =
      [' '] ++ ((Form.bracket.say 1 .reviewers).toList ++ [')', '.']) := by decide
  have hsplit : (totalText n ++ " (with at least 1 of role reviewers).").toList =
      ((totalText n).toList ++ [' ']) ++
        ((Form.bracket.say 1 .reviewers).toList ++ [')', '.']) := by
    rw [String.toList_append, hbracket, List.append_assoc]
  have hbefore : Form.bracket.mark ∉ (totalText n).toList ++ [' '] := by
    simpa using ⟨mark_notMem_totalText .bracket n, by decide⟩
  constructor
  · rintro ⟨f, hf⟩
    cases f with
    | sentence =>
      have hmark : Form.sentence.mark ∉
          (totalText n ++ " (with at least 1 of role reviewers).").toList :=
        notMem_append (mark_notMem_totalText .sentence n) (by decide)
      exact absurd hf (Form.not_say_infix hmark)
    | bracket =>
      rw [hsplit, Form.say_infix_iff hbefore] at hf
      exact hf.resolve_right (Form.not_say_infix (by decide))
  · rintro ⟨rfl, rfl⟩
    refine ⟨.bracket, ?_⟩
    rw [hsplit, Form.say_infix_iff hbefore]
    exact .inl ⟨rfl, rfl⟩

theorem promises_sentences {n : Nat} {es : List (Role × Nat)} :
    Promises (totalText n ++ "." ++ String.join (es.map minimumSentence)) k r ↔ (r, k) ∈ es := by
  have hbefore (f : Form) : f.mark ∉ (totalText n ++ ".").toList :=
    notMem_append (mark_notMem_totalText f n) (by cases f <;> decide)
  obtain ⟨rest, hrest, -⟩ := Form.sentence.exists_say k r
  have hsentence : (Form.sentence.say k r).toList <:+:
      (totalText n ++ "." ++ String.join (es.map minimumSentence)).toList ↔ (r, k) ∈ es := by
    rw [String.toList_append, hrest, infix_append_of_notMem (hbefore .sentence), ← hrest]
    exact say_infix_sentences
  constructor
  · rintro ⟨f, hf⟩
    cases f with
    | sentence => exact hsentence.mp hf
    | bracket =>
      exact absurd hf (Form.not_say_infix
        (notMem_append (hbefore .bracket) bracket_notMem_sentences))
  · exact fun h => ⟨.sentence, hsentence.mpr h⟩

theorem success_of_bare (h : p.hasMinimums = false ∧ 1 < p.total) :
    success p = totalText p.total ++ " (with at least 1 of role reviewers)." := by
  have hbare : (!p.hasMinimums && decide (1 < p.total)) = true := by simpa using h
  rw [success, if_pos hbare]
  rfl

theorem success_of_not_bare (h : ¬ (p.hasMinimums = false ∧ 1 < p.total)) :
    success p =
      totalText p.total ++ "." ++ String.join (p.minimums.toList.reverse.map minimumSentence) := by
  have hbare : ¬ (!p.hasMinimums && decide (1 < p.total)) = true := by simpa using h
  rw [success, if_neg hbare]
  rfl

/-- **The statements of a confirmation** are the minimums of the policy, or one reviewer if there
are none and more than one review is required. -/
theorem promises_success_iff : Promises (success p) k r ↔
    p.minimums.get? r = some k ∨
      (p.hasMinimums = false ∧ 1 < p.total ∧ k = 1 ∧ r = .reviewers) := by
  by_cases h : p.hasMinimums = false ∧ 1 < p.total
  · have hnone : p.minimums.get? r ≠ some k := by
      rw [Policy.hasMinimums_eq_false.mp h.1]
      exact nofun
    rw [success_of_bare h, promises_bracketed, or_iff_right hnone, and_iff_right h.1,
      and_iff_right h.2]
  · have hbare : ¬ (p.hasMinimums = false ∧ 1 < p.total ∧ k = 1 ∧ r = .reviewers) :=
      fun hall => h ⟨hall.1, hall.2.1⟩
    rw [success_of_not_bare h, promises_sentences, List.mem_reverse, RoleMap.mem_toList,
      or_iff_left hbare]

end Reply

/-! ### What the gate keeps -/

/-- **What a confirmation promises, and what the gate keeps of it.** The statements about roles in
the confirmation of a policy are its minimums, or that of one reviewer if it has none and a total
above one. If a change request is ready, all of them are true of the accounts that approve, if and
only if one of these accounts is a reviewer or the lead in the latter case. -/
theorem confirmation_kept_iff (p : Policy) (reviews : List Review)
    (roleOf : Account → Option Role) :
    (∀ k r, Reply.Promises (Reply.success p) k r ↔ p.minimums.get? r = some k ∨
      (p.hasMinimums = false ∧ 1 < p.total ∧ k = 1 ∧ r = .reviewers)) ∧
    ((p.readiness reviews roleOf).ready = true →
      ((∀ k r, Reply.Promises (Reply.success p) k r →
          k ≤ ((approvers reviews).filter fun a => ∃ role ∈ roleOf a, r ≤ role).card) ↔
        (p.hasMinimums = false → 1 < p.total →
          ∃ a ∈ approvers reviews, ∃ role ∈ roleOf a, Role.reviewers ≤ role))) := by
  refine ⟨fun k r => Reply.promises_success_iff, fun hready => ?_⟩
  have hmet := Policy.metBy_of_ready hready
  have hone : 1 ≤ ((approvers reviews).filter fun a => ∃ role ∈ roleOf a,
      Role.reviewers ≤ role).card ↔
        ∃ a ∈ approvers reviews, ∃ role ∈ roleOf a, Role.reviewers ≤ role := by
    rw [Nat.succ_le_iff, Finset.card_pos, Finset.filter_nonempty_iff]
  simp only [Reply.promises_success_iff]
  constructor
  · intro h hnone htotal
    exact hone.mp (h 1 .reviewers (.inr ⟨hnone, htotal, rfl, rfl⟩))
  · rintro h k r (hk | ⟨hnone, htotal, rfl, rfl⟩)
    · exact hmet.minimums r k hk
    · exact hone.mpr (h hnone htotal)

/-- Two approvals, the second by an account that nothing is known of. -/
def approvedTwice (first : Account) : List Review :=
  [⟨first, .approved, ⟨⟨1⟩, 1⟩⟩, ⟨"new", .approved, ⟨⟨2⟩, 2⟩⟩]

/-- A table in which rev is a reviewer and ann an author. -/
def smallTable : RoleTable := (RoleTable.empty.insert "rev" .reviewers).insert "ann" .authors

/-- Two reviews are required, and of the two accounts that approve rev is a reviewer. -/
theorem confirmation_kept_iff_rev :
    let p : Policy := ⟨2, {}⟩
    let reviews := approvedTwice "rev"
    let roleOf := smallTable.roleOf
    (p.readiness reviews roleOf).ready = true ∧
      Reply.Promises (Reply.success p) 1 .reviewers ∧
      ∀ k r, Reply.Promises (Reply.success p) k r →
        k ≤ ((approvers reviews).filter fun a => ∃ role ∈ roleOf a, r ≤ role).card := by
  intro p reviews roleOf
  obtain ⟨hpromises, hkept⟩ := confirmation_kept_iff p reviews roleOf
  have hready : (p.readiness reviews roleOf).ready = true := by decide +kernel
  have hrev : "rev" ∈ approvers reviews := by
    rw [Approval.approvers_eq_toFinset]
    decide +kernel
  refine ⟨hready, (hpromises 1 .reviewers).mpr (.inr ⟨by decide, by decide, rfl, rfl⟩), ?_⟩
  exact (hkept hready).mpr fun _ _ => ⟨"rev", hrev, .reviewers, by decide, by decide⟩

/-- An author and an account without a role are enough for the gate, but one reviewer at least has
been promised. -/
theorem promised_reviewer_missing :
    let p : Policy := ⟨2, {}⟩
    let reviews := approvedTwice "ann"
    let roleOf := smallTable.roleOf
    (p.readiness reviews roleOf).ready = true ∧
      Reply.Promises (Reply.success p) 1 .reviewers ∧
      ¬ 1 ≤ ((approvers reviews).filter fun a =>
        ∃ role ∈ roleOf a, Role.reviewers ≤ role).card := by
  refine ⟨by decide +kernel, ?_, ?_⟩
  · exact Reply.promises_success_iff.mpr (.inr ⟨by decide, by decide, rfl, rfl⟩)
  · rw [Approval.approvers_eq_toFinset]
    decide +kernel

end ReviewQuorum
