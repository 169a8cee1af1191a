import Mathlib.Tactic.SplitIfs
import ReviewQuorum.Proofs.Decimals
import ReviewQuorum.Reply

/-! # The characters of messages

In words of its own a message has no characters but the blank and the visible ones of ASCII, and no
exclamation mark among them. So no line ends in these words, and no marker begins there. Only what a
message repeats of what a user wrote may have other characters: a word that names no role, and
arguments that could not be read. -/

namespace ReviewQuorum.Reply

/-- The characters of the words that messages are made of. -/
def isWording (c : Char) : Bool := ' ' ≤ c && c ≤ '~' && c != '!'

/-- A text in the words that messages are made of. -/
def Worded (s : String) : Prop := ∀ c ∈ s.toList, isWording c = true

instance (s : String) : Decidable (Worded s) := List.decidableBAll _ s.toList

namespace Worded

variable {s t : String} {c : Char}

theorem append (hs : Worded s) (ht : Worded t) : Worded (s ++ t) := fun c hc => by
  rw [String.toList_append, List.mem_append] at hc
  exact hc.elim (hs c) (ht c)

theorem join {ss : List String} (h : ∀ s ∈ ss, Worded s) : Worded (String.join ss) := fun c hc => by
  rw [String.toList_join, List.mem_flatMap] at hc
  obtain ⟨s, hs, hc⟩ := hc
  exact h s hs c hc

theorem notMem (hs : Worded s) (hc : isWording c = false) : c ∉ s.toList := fun hmem => by
  rw [hs c hmem] at hc
  cases hc

end Worded

theorem notMem_append {c : Char} {s t : String} (hs : c ∉ s.toList) (ht : c ∉ t.toList) :
    c ∉ (s ++ t).toList := by
  rw [String.toList_append, List.mem_append, not_or]
  exact ⟨hs, ht⟩

theorem isWording_of_isDigit {c : Char} (h : c.isDigit = true) : isWording c = true := by
  simp only [Char.isDigit, Bool.and_eq_true, decide_eq_true_eq] at h
  have hne : c ≠ '!' := by rintro rfl; exact absurd h (by decide)
  simp only [isWording, Bool.and_eq_true, decide_eq_true_eq, bne_iff_ne]
  exact ⟨⟨Char.le_trans (by decide) h.1, Char.le_trans h.2 (by decide)⟩, hne⟩

theorem worded_ofNat (n : Nat) : Worded (Decimal.ofNat n) := fun _ hc =>
  isWording_of_isDigit (Decimal.isDigit_of_mem_ofNat hc)

theorem worded_ofInt : ∀ n : Int, Worded (Decimal.ofInt n)
  | .ofNat n => worded_ofNat n
  | .negSucc n => Worded.append (by decide) (worded_ofNat (n + 1))

theorem worded_roleName (r : Role) : Worded r.name := by cases r <;> decide

theorem worded_roleNames : Worded roleNames := by decide +kernel

theorem worded_help : Worded help := by
  have husage : Worded (
      "Usage: `/reviewers <n> [<role>]` where `<n>` is the number of required reviewers and " ++
      "`<role>` is an optional role (one of " ++ roleNames) :=
    (Worded.append (by decide) (by decide)).append worded_roleNames
  exact ((((husage.append (by decide)).append (worded_ofNat _)).append (by decide)).append
    (worded_ofNat _)).append (by decide)

theorem worded_denial (d : Denial) : Worded (denial d) := by
  cases d <;> decide +kernel

theorem worded_minimumSentence (e : Role × Nat) : Worded (minimumSentence e) := by
  have hcount : Worded (" At least " ++ Decimal.ofNat e.2) :=
    Worded.append (by decide) (worded_ofNat e.2)
  exact ((hcount.append (by decide)).append (worded_roleName e.1)).append (by decide)

theorem worded_success (p : Policy) : Worded (success p) := by
  have htotal : Worded ("The number of required reviews for this PR is now set to " ++
      Decimal.ofNat p.total) := Worded.append (by decide) (worded_ofNat p.total)
  unfold success
  split_ifs
  · exact htotal.append (by decide)
  · refine (htotal.append (by decide)).append (Worded.join fun s hs => ?_)
    obtain ⟨e, -, rfl⟩ := List.mem_map.mp hs
    exact worded_minimumSentence e

theorem worded_ruled (ruling : Option Ruling) : Worded (ruled ruling) := by
  unfold ruled
  split
  · exact worded_help
  · split
    · exact worded_success _
    · exact worded_denial _

theorem worded_outOfRange (n : Int) (b : Bound) (r : Role) (ruling : Option Ruling) :
    Worded (message (.outOfRange n b r) ruling) := by
  cases b with
  | upper =>
    have hlimit : Worded ("Cannot increase the required number of reviewers above " ++
        Decimal.ofNat Bound.upper.limit) := Worded.append (by decide) (worded_ofNat _)
    exact ((hlimit.append (by decide)).append (worded_ofInt n)).append (by decide)
  | lower =>
    have hrole : Worded ("Number of required reviewers of role " ++ r.name) :=
      Worded.append (by decide) (worded_roleName r)
    exact (hrole.append (by decide)).append (worded_ofNat _)

end ReviewQuorum.Reply
