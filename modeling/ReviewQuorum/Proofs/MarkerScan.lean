import Mathlib.Algebra.GroupWithZero.Nat
import Mathlib.Data.List.Infix
import ReviewQuorum.Proofs.ReplyMarkers

/-! # The scan for markers is exact

A text is scanned for markers from the left, and the scan goes on behind a marker that it has found.
Nothing is lost by that: no marker begins inside another one, so the keys that are found are those
of the markers at all places of the text, one by one (`keysIn_eq_filterMap`). A marker that stands
in a text several times is found as often (`count_keysIn`).

Of the comments of the bot these are the keys that have been answered. The key of an invocation
comes back from a reply to it, whatever a user has written in front of the marker, unless the key
has a blank in it (`answeredKeys_exact`). -/

namespace ReviewQuorum

open Text (Unbroken)

namespace Marker

/-! ### All places of a text -/

/-- What is looked for at every place of a text is found behind a beginning at whose places it is
not. -/
theorem filterMap_tails_append {α β : Type} {f : List α → Option β} {a b : List α}
    (h : ∀ c rest, c :: rest <:+ a → f (c :: rest ++ b) = none) :
    (a ++ b).tails.filterMap f = b.tails.filterMap f := by
  induction a with
  | nil => rfl
  | cons c a ih =>
    have hhead : f (c :: (a ++ b)) = none := h c a (List.suffix_refl _)
    rw [List.cons_append, List.tails_cons, List.filterMap_cons, hhead]
    exact ih fun d rest hrest => h d rest (hrest.trans (List.suffix_cons c a))

/-- The key of the marker that a text begins with. -/
def keyHere? (cs : List Char) : Option String := (here? cs).map fun found => String.ofList found.1

theorem keyHere?_eq_some_iff {k : String} {cs : List Char} :
    keyHere? cs = some k ↔ IsKey k.toList ∧ holding k.toList <+: cs := by
  rw [keyHere?, Option.map_eq_some_iff]
  constructor
  · rintro ⟨⟨key, behind⟩, h, rfl⟩
    obtain ⟨hkey, rfl⟩ := here?_eq_some_iff.mp h
    rw [String.toList_ofList]
    exact ⟨hkey, List.prefix_append _ _⟩
  · rintro ⟨hkey, behind, rfl⟩
    exact ⟨(k.toList, behind), here?_eq_some_iff.mpr ⟨hkey, rfl⟩, String.ofList_toList⟩

/-- No marker begins at a place inside another one. -/
theorem keyHere?_within {key before rest behind : List Char} {c : Char} (hkey : IsKey key)
    (hne : before ≠ []) (h : holding key = before ++ c :: rest) :
    keyHere? (c :: rest ++ behind) = none := by
  rw [Option.eq_none_iff_forall_ne_some]
  intro k hk
  obtain ⟨-, x, hx⟩ := keyHere?_eq_some_iff.mp hk
  exact not_holding_within hkey hne h hx.symm

/-- **The scan finds the markers at all places of a text**, from left to right. -/
theorem keysIn_eq_filterMap (cs : List Char) : keysIn cs = cs.tails.filterMap keyHere? := by
  fun_induction keysIn cs with
  | case1 cs key behind h _ ih =>
    obtain ⟨hkey, rfl⟩ := here?_eq_some_iff.mp h
    have hfound : keyHere? (holding key ++ behind) = some (String.ofList key) := by
      rw [keyHere?, h]
      rfl
    obtain ⟨c, inside, hmarker⟩ : ∃ c inside, holding key = c :: inside :=
      ⟨_, _, by rw [holding, opening_toList]; rfl⟩
    -- behind its first character no marker begins before it is over
    have hinside :
        (inside ++ behind).tails.filterMap keyHere? = behind.tails.filterMap keyHere? := by
      refine filterMap_tails_append fun d rest hrest => ?_
      obtain ⟨before, hbefore⟩ := hrest
      exact keyHere?_within hkey (List.cons_ne_nil c before) (by rw [hmarker, ← hbefore]; rfl)
    rw [hmarker, List.cons_append] at hfound ⊢
    rw [List.tails_cons, List.filterMap_cons, hfound, hinside, ih]
  | case2 h =>
    have hnone : keyHere? [] = none := by rw [keyHere?, h]; rfl
    rw [List.tails, List.filterMap_cons, hnone, List.filterMap_nil]
  | case3 c cs h ih =>
    have hnone : keyHere? (c :: cs) = none := by rw [keyHere?, h]; rfl
    rw [List.tails_cons, List.filterMap_cons, hnone, ih]

/-- **A marker is found as often as it stands in a text.** -/
theorem count_keysIn {k : String} (hk : IsKey k.toList) (cs : List Char) :
    (keysIn cs).count k = cs.tails.countP fun rest => holding k.toList <+: rest := by
  rw [keysIn_eq_filterMap, List.count_eq_countP, List.countP_filterMap]
  refine List.countP_congr fun rest _ => ?_
  have hhere : keyHere? rest = some k ↔ holding k.toList <+: rest := by
    rw [keyHere?_eq_some_iff, and_iff_right hk]
  cases h : keyHere? rest with
  | none => simpa [h] using hhere
  | some key => simpa [h] using hhere

theorem holding_eq_toList (k : String) : holding k.toList = (opening ++ k ++ closing).toList := by
  rw [holding, String.toList_append, String.toList_append, List.append_assoc]

theorem isKey_toList_iff {k : String} : IsKey k.toList ↔ k ≠ "" ∧ Unbroken k.toList := by
  have hempty : k.toList = [] ↔ k = "" := String.toList_eq_nil_iff
  exact ⟨fun h => ⟨fun hk => h.ne_nil (hempty.mpr hk), h.unbroken⟩,
    fun ⟨hne, h⟩ => ⟨fun hk => hne (hempty.mp hk), h⟩⟩

theorem isKey_source_iff {s : Source} : IsKey s.key.toList ↔ Unbroken s.key.toList := by
  refine ⟨fun h => h.unbroken, fun h => isKey_toList_iff.mpr ⟨?_, h⟩⟩
  cases s with
  | description => decide
  | comment id => simp [Source.key]

end Marker

open Marker

/-- **The scan for markers is exact.** The keys that comments of the bot have answered are the words
that stand in one of them between the two ends of a marker, and each is found as often as its marker
stands there. So the key of an invocation comes back from a comment with the reply to it, whatever
stands around and before its marker, if and only if it has no blank. -/
theorem answeredKeys_exact (comments : List Comment) (bot : Account) :
    (∀ k, k ∈ answeredKeys comments bot ↔ k ≠ "" ∧ Unbroken k.toList ∧
      ∃ c ∈ comments, c.author = bot ∧ (opening ++ k ++ closing).toList <:+: c.body.toList) ∧
    (∀ k, k ≠ "" → Unbroken k.toList → (answeredKeys comments bot).count k =
      ((comments.filter fun c => c.author == bot).map fun c =>
        c.body.toList.tails.countP fun rest => (opening ++ k ++ closing).toList <+: rest).sum) ∧
    ∀ (i : Invocation) (ruling : Option Ruling), ∀ c ∈ comments, c.author = bot →
      (Reply.render i ruling).toList <:+: c.body.toList →
      (i.source.key ∈ answeredKeys comments bot ↔ Unbroken i.source.key.toList) := by
  refine ⟨fun k => ?_, fun k hne hk => ?_, fun i ruling c hc hauthor hreply => ?_⟩
  · simp only [mem_answeredKeys, mem_keysIn, isKey_toList_iff, holding_eq_toList]
    constructor
    · rintro ⟨c, hc, hauthor, ⟨hne, hk⟩, hin⟩
      exact ⟨hne, hk, c, hc, hauthor, hin⟩
    · rintro ⟨hne, hk, c, hc, hauthor, hin⟩
      exact ⟨c, hc, hauthor, ⟨hne, hk⟩, hin⟩
  · have hcount (c : Comment) := count_keysIn (isKey_toList_iff.mpr ⟨hne, hk⟩) c.body.toList
    rw [answeredKeys, List.count_flatMap]
    simp only [Function.comp_def, hcount, holding_eq_toList]
  · constructor
    · intro h
      obtain ⟨d, -, -, hkey⟩ := mem_answeredKeys.mp h
      exact (mem_keysIn.mp hkey).1.unbroken
    · intro hkey
      have hmarker : holding i.source.key.toList <:+: c.body.toList :=
        (Reply.holding_suffix_render i ruling).isInfix.trans hreply
      exact mem_answeredKeys.mpr
        ⟨c, hc, hauthor, mem_keysIn.mpr ⟨isKey_source_iff.mpr hkey, hmarker⟩⟩

/-- A comment of the bot with a marker that is cut off and two in a row. -/
def crowdedComment : Comment :=
  ⟨"c0", "bot", "<!-- revgate-reply: <!-- revgate-reply: k --><!-- revgate-reply: k -->", ⟨⟨0⟩, 0⟩⟩

/-- Both markers in a row are found, and that of a reply which repeats the beginning of one more. -/
theorem answeredKeys_exact_crowdedComment :
    let i := misread "<!-- revgate-reply: x"
    let reply := replyTo i
    ("k" ≠ "" ∧ Unbroken "k".toList ∧ reply.author = "bot" ∧
      (Reply.render i none).toList <:+: reply.body.toList ∧ Unbroken i.source.key.toList) ∧
    (answeredKeys [crowdedComment] "bot").count "k" = 2 ∧
    i.source.key ∈ answeredKeys [crowdedComment, reply] "bot" := by
  intro i reply
  have hreply : (Reply.render i none).toList <:+: reply.body.toList := List.infix_rfl
  have hcount := (answeredKeys_exact [crowdedComment] "bot").2.1
  have hkey := (answeredKeys_exact [crowdedComment, reply] "bot").2.2
  refine ⟨⟨by decide, by decide, rfl, hreply, by decide⟩, ?_, ?_⟩
  · rw [hcount "k" (by decide) (by decide)]
    decide +kernel
  · exact (hkey i none reply (by simp) rfl hreply).mpr (by decide)

end ReviewQuorum
