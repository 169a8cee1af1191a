import Mathlib.Data.List.Induction

/-! # Events since which nothing has happened

A history is a list of events, the last one at its end. `Since p barred es e later` says that an
event `e` of the kind `p` has happened, that `later` happened after it, and that none of that was of
the kind `barred`. What one more event changes is said by `since_concat`, and so whatever is told by
the last event of some kind can be followed from one event to the next. -/

namespace ReviewQuorum

variable {α : Type} {p barred : α → Prop} {es later : List α} {e c : α}

/-- **An event of one kind** since which there has been none of another, and what came after it. -/
structure Since (p barred : α → Prop) (es : List α) (e : α) (later : List α) : Prop where
  ending : e :: later <:+ es
  kind : p e
  clear : ∀ d ∈ later, ¬ barred d

/-- There has been an event of one kind since which there has been none of another. -/
def HappenedSince (p barred : α → Prop) (es : List α) : Prop := ∃ e later, Since p barred es e later

theorem not_happenedSince_nil : ¬ HappenedSince p barred [] := by
  rintro ⟨e, later, hending, -, -⟩
  cases List.eq_nil_of_suffix_nil hending

/-- **One more event.** -/
theorem since_concat : Since p barred (es ++ [c]) e later ↔
    (p c ∧ e = c ∧ later = []) ∨
      (¬ barred c ∧ ∃ rest, later = rest ++ [c] ∧ Since p barred es e rest) := by
  constructor
  · rintro ⟨hending, hkind, hclear⟩
    obtain ⟨es', hes', hsuffix⟩ := (List.suffix_concat_iff.mp hending).resolve_left
      (List.cons_ne_nil e later)
    cases es' with
    | nil =>
      obtain ⟨rfl, rfl⟩ := List.cons.inj hes'
      exact .inl ⟨hkind, rfl, rfl⟩
    | cons d rest =>
      obtain ⟨rfl, rfl⟩ := List.cons.inj hes'
      have hrest : ∀ d ∈ rest, ¬ barred d := fun d hd => hclear d (List.mem_append_left _ hd)
      exact .inr ⟨hclear c (by simp), rest, rfl, hsuffix, hkind, hrest⟩
  · rintro (⟨hc, rfl, rfl⟩ | ⟨hc, rest, rfl, hsuffix, hkind, hclear⟩)
    · exact ⟨List.suffix_append es [e], hc, by simp⟩
    · refine ⟨?_, hkind, fun d hd => ?_⟩
      · obtain ⟨before, rfl⟩ := hsuffix
        exact ⟨before, by simp⟩
      · rcases List.mem_append.mp hd with hd | hd
        · exact hclear d hd
        · rw [List.mem_singleton.mp hd]
          exact hc

theorem happenedSince_concat :
    HappenedSince p barred (es ++ [c]) ↔ p c ∨ (¬ barred c ∧ HappenedSince p barred es) := by
  constructor
  · rintro ⟨e, later, h⟩
    rcases since_concat.mp h with ⟨hc, -, -⟩ | ⟨hc, rest, -, hrest⟩
    · exact .inl hc
    · exact .inr ⟨hc, e, rest, hrest⟩
  · rintro (hc | ⟨hc, e, rest, h⟩)
    · exact ⟨c, [], since_concat.mpr (.inl ⟨hc, rfl, rfl⟩)⟩
    · exact ⟨e, rest ++ [c], since_concat.mpr (.inr ⟨hc, rest, rfl, h⟩)⟩

/-- If there has been an event of a kind, there is a last one. -/
theorem HappenedSince.last (h : HappenedSince p barred es) : HappenedSince p p es := by
  induction es using List.reverseRecOn with
  | nil => exact absurd h not_happenedSince_nil
  | append_singleton es c ih =>
    rw [happenedSince_concat] at h ⊢
    by_cases hc : p c
    · exact .inl hc
    · exact .inr ⟨hc, ih (h.resolve_left hc).2⟩

end ReviewQuorum
