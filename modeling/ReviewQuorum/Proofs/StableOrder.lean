import ReviewQuorum.ChangeRequest
import ReviewQuorum.Command

/-! # Putting lists in order, piece by piece

Commands and comments are put in order by a stable sort, so elements that tie keep the order in
which they came. The sort of a list is that of its tail with the head put in front of everything
that is not below it (`mergeSort_cons_eq`), and one more at its end comes behind everything that is
not above it (`mergeSort_concat_eq`). If everything in a first list is at or below everything in a
second one, the two are sorted on their own (`mergeSort_append`); for commands and comments this
says that a history is taken before what comes after it (`Command.inOrder_append`,
`Comment.inOrder_append`). What lies below everything else comes first, wherever it stood
(`mergeSort_of_least`). What is taken out of a list is taken out of its sort and moves nothing
else (`mergeSort_filter`). If nothing ties, the sort does not depend on the order in which the
elements came (`mergeSort_eq_of_perm`). -/

namespace ReviewQuorum.StableOrder

section Pieces
variable {α : Type} {le : α → α → Bool}
  (trans : ∀ a b c : α, le a b = true → le b c = true → le a c = true)
  (total : ∀ a b : α, (le a b || le b a) = true)
include trans total

/-- **The sort of a list from that of its tail.** -/
theorem mergeSort_cons_eq (a : α) (l : List α) :
    (a :: l).mergeSort le =
      (l.mergeSort le).filter (fun b => !le a b) ++ a :: (l.mergeSort le).filter (le a) := by
  obtain ⟨l₁, l₂, h1, h2, h3⟩ := List.mergeSort_cons trans total a l
  have hs := List.pairwise_mergeSort trans total (a :: l)
  rw [h1, List.pairwise_append, List.pairwise_cons] at hs
  obtain ⟨-, ⟨h4, -⟩, -⟩ := hs
  have below : l₁.filter (le a) = [] := by
    rw [List.filter_eq_nil_iff]
    intro b hb
    simpa using h3 b hb
  have above : l₂.filter (fun b => !le a b) = [] := by
    rw [List.filter_eq_nil_iff]
    intro b hb
    simpa using h4 b hb
  rw [h1, h2, List.filter_append, List.filter_append, below, above,
    List.filter_eq_self.mpr h3, List.filter_eq_self.mpr h4]
  simp

/-- **Two lists of which the first lies below the second are sorted on their own.** -/
theorem mergeSort_append (l m : List α) (h : ∀ a ∈ l, ∀ b ∈ m, le a b = true) :
    (l ++ m).mergeSort le = l.mergeSort le ++ m.mergeSort le := by
  induction l with
  | nil => simp
  | cons a l ih =>
    have hm : ∀ b ∈ m.mergeSort le, le a b = true := fun b hb =>
      h a List.mem_cons_self b (List.mem_mergeSort.mp hb)
    have hnone : (m.mergeSort le).filter (fun b => !le a b) = [] := by
      rw [List.filter_eq_nil_iff]
      intro b hb
      simp [hm b hb]
    rw [List.cons_append, mergeSort_cons_eq trans total, mergeSort_cons_eq trans total,
      ih fun b hb c hc => h b (List.mem_cons_of_mem _ hb) c hc, List.filter_append,
      List.filter_append, hnone, List.filter_eq_self.mpr hm]
    simp

/-- **What lies below everything else comes first**, wherever it stood. -/
theorem mergeSort_of_least (l m : List α) (a : α)
    (h : ∀ b ∈ l ++ m, le a b = true ∧ le b a = false) :
    (l ++ a :: m).mergeSort le = a :: (l ++ m).mergeSort le := by
  induction l with
  | nil =>
    have habove : ∀ b ∈ m.mergeSort le, le a b = true := fun b hb =>
      (h b (List.mem_mergeSort.mp hb)).1
    have hnone : (m.mergeSort le).filter (fun b => !le a b) = [] := by
      rw [List.filter_eq_nil_iff]
      intro b hb
      simp [habove b hb]
    rw [List.nil_append, List.nil_append, mergeSort_cons_eq trans total, hnone,
      List.filter_eq_self.mpr habove, List.nil_append]
  | cons b l ih =>
    obtain ⟨⟨-, hb⟩, htail⟩ := List.forall_mem_cons.mp h
    rw [List.cons_append, List.cons_append, mergeSort_cons_eq trans total, ih htail,
      mergeSort_cons_eq trans total]
    simp [hb]

/-- **The sort of a part of a list** is that part of its sort. -/
theorem mergeSort_filter (p : α → Bool) (l : List α) :
    (l.filter p).mergeSort le = (l.mergeSort le).filter p := by
  induction l with
  | nil => simp
  | cons a l ih =>
    by_cases hp : p a = true
    · have hcomm (q : α → Bool) : ((l.mergeSort le).filter p).filter q =
          ((l.mergeSort le).filter q).filter p := by
        rw [List.filter_filter, List.filter_filter]
        exact List.filter_congr fun b _ => Bool.and_comm _ _
      rw [List.filter_cons_of_pos hp, mergeSort_cons_eq trans total, ih, hcomm, hcomm,
        mergeSort_cons_eq trans total, List.filter_append, List.filter_cons_of_pos hp]
    · obtain ⟨l₁, l₂, h1, h2, -⟩ := List.mergeSort_cons trans total a l
      rw [List.filter_cons_of_neg hp, ih, h1, h2, List.filter_append, List.filter_append,
        List.filter_cons_of_neg hp]

/-- **A sort forgets the order in which a list came** if nothing in it ties. -/
theorem mergeSort_eq_of_perm {l m : List α} (h : l.Perm m)
    (antisymm : ∀ a ∈ m, ∀ b ∈ m, le a b = true → le b a = true → a = b) :
    l.mergeSort le = m.mergeSort le := by
  have hperm : (l.mergeSort le).Perm (m.mergeSort le) :=
    ((List.mergeSort_perm l le).trans h).trans (List.mergeSort_perm m le).symm
  have hl := List.pairwise_mergeSort trans total l
  have hm := List.pairwise_mergeSort trans total m
  refine List.Perm.eq_of_pairwise ?_ hl hm hperm
  intro a b ha hb hab hba
  have ha' : a ∈ m := h.mem_iff.mp (List.mem_mergeSort.mp ha)
  have hb' : b ∈ m := List.mem_mergeSort.mp hb
  exact antisymm a ha' b hb' hab hba

/-- **The sort of a list with one more at its end** from that of the list. -/
theorem mergeSort_concat_eq (l : List α) (a : α) :
    (l ++ [a]).mergeSort le =
      (l.mergeSort le).filter (fun b => le b a) ++
        a :: (l.mergeSort le).filter fun b => !le b a := by
  induction l with
  | nil => simp
  | cons b l ih =>
    rw [List.cons_append, mergeSort_cons_eq trans total, ih, mergeSort_cons_eq trans total]
    simp only [List.filter_append, List.filter_cons, List.filter_filter]
    by_cases hba : le b a = true
    · -- what is above the new one is above the head as well
      have habove (c : α) (h : le c a = false) : le b c = true :=
        trans b a c hba <| (Bool.or_eq_true _ _ |>.mp (total c a)).resolve_left (by simp [h])
      have hnone : (l.mergeSort le).filter (fun c => !le b c && !le c a) = [] := by
        rw [List.filter_eq_nil_iff]
        intro c _ hc
        simp only [Bool.and_eq_true, Bool.not_eq_true'] at hc
        simp [habove c hc.2] at hc
      have hall : (l.mergeSort le).filter (fun c => le b c && !le c a) =
          (l.mergeSort le).filter fun c => !le c a := by
        refine List.filter_congr fun c _ => ?_
        cases h : le c a
        · simp [habove c h]
        · simp
      simp [hba, hnone, hall, Bool.and_comm]
    · -- what is at or below the new one is below the head
      have hab : le a b = true := (Bool.or_eq_true _ _ |>.mp (total b a)).resolve_left hba
      have hbelow (c : α) (h : le c a = true) : le b c = false := by
        rw [Bool.eq_false_iff]
        exact fun hbc => hba (trans b c a hbc h)
      have hnone : (l.mergeSort le).filter (fun c => le b c && le c a) = [] := by
        rw [List.filter_eq_nil_iff]
        intro c _ hc
        simp only [Bool.and_eq_true] at hc
        simp [hbelow c hc.2] at hc
      simp [hba, hnone, Bool.and_comm]

/-- The last one of a sorted list with one more at its end is the new one, unless the last one of
the list is above it. -/
theorem getLast?_mergeSort_concat (l : List α) (a : α) :
    ((l ++ [a]).mergeSort le).getLast? =
      some ((l.mergeSort le).getLast?.elim a fun b => if le b a then a else b) := by
  rw [mergeSort_concat_eq trans total]
  rcases List.eq_nil_or_concat (l.mergeSort le) with h | ⟨init, b, h⟩
  · simp [h]
  · rw [List.concat_eq_append] at h
    have hpair := List.pairwise_mergeSort trans total l
    rw [h] at hpair ⊢
    have hinit : ∀ c ∈ init, le c b = true := fun c hc =>
      (List.pairwise_append.mp hpair).2.2 c hc b List.mem_cons_self
    by_cases hba : le b a = true
    · have hnone : (init ++ [b]).filter (fun c => !le c a) = [] := by
        rw [List.filter_eq_nil_iff]
        intro c hc
        rcases List.mem_append.mp hc with hc | hc
        · simp [trans c b a (hinit c hc) hba]
        · simp [List.mem_singleton.mp hc, hba]
      simp [hnone, hba]
    · have hlast : (init ++ [b]).filter (fun c => !le c a) =
          init.filter (fun c => !le c a) ++ [b] := by
        simp [List.filter_append, hba]
      rw [hlast, ← List.cons_append, ← List.append_assoc, List.getLast?_concat,
        List.getLast?_concat]
      simp [hba]

end Pieces

end ReviewQuorum.StableOrder

namespace ReviewQuorum

theorem Command.inOrder_append {h e : List Command}
    (hsep : ∀ a ∈ h, ∀ b ∈ e, a.notAfter b = true) :
    Command.inOrder (h ++ e) = Command.inOrder h ++ Command.inOrder e :=
  StableOrder.mergeSort_append Command.notAfter_trans Command.notAfter_total h e hsep

theorem Comment.pairwise_inOrder (cs : List Comment) :
    (Comment.inOrder cs).Pairwise fun a b => a.moment.le b.moment = true :=
  List.pairwise_mergeSort (Moment.le_trans_of Comment.moment) (Moment.le_total_of _) cs

theorem Comment.inOrder_filter (p : Comment → Bool) (cs : List Comment) :
    Comment.inOrder (cs.filter p) = (Comment.inOrder cs).filter p :=
  StableOrder.mergeSort_filter (Moment.le_trans_of Comment.moment) (Moment.le_total_of _) p cs

theorem Comment.inOrder_of_first {cs ds : List Comment} {c : Comment}
    (h : ∀ a ∈ cs ++ ds, c.moment.lt a.moment = true) :
    Comment.inOrder (cs ++ c :: ds) = c :: Comment.inOrder (cs ++ ds) := by
  refine StableOrder.mergeSort_of_least (Moment.le_trans_of Comment.moment)
    (Moment.le_total_of _) cs ds c fun a ha => ?_
  have hbehind : a.moment.le c.moment = false := by simpa [Moment.lt] using h a ha
  have htotal := Moment.le_total c.moment a.moment
  rw [hbehind, Bool.or_false] at htotal
  exact ⟨htotal, hbehind⟩

theorem Comment.inOrder_append {cs ds : List Comment}
    (h : ∀ a ∈ cs, ∀ b ∈ ds, a.moment.le b.moment = true) :
    Comment.inOrder (cs ++ ds) = Comment.inOrder cs ++ Comment.inOrder ds :=
  StableOrder.mergeSort_append (Moment.le_trans_of Comment.moment) (Moment.le_total_of _) cs ds h

end ReviewQuorum
