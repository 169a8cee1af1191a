import ReviewQuorum.Proofs.ReplyMarkers

/-! # Change requests without markers

A reply repeats the arguments of a command that could not be read, and these stand in the text of
the command (`Invocation.infix_of_firstLine?_malformed`). So if no marker begins in the texts and
the accounts of a change request, each of its replies marks one source, its own
(`Snapshot.Unmarked.mem_keysIn_render`). -/

namespace ReviewQuorum

open Marker
open Text (Unbroken)

/-! ### What a text gives to its first command -/

namespace Text

theorem trim_infix (cs : List Char) : trim cs <:+: cs := by
  have hright (cs : List Char) : trimRight cs <+: cs := by
    rw [trimRight, ← List.reverse_suffix, List.reverse_reverse]
    exact List.dropWhile_suffix _
  exact (hright _).isInfix.trans (List.dropWhile_suffix _).isInfix

theorem head?_lines_prefix (cs : List Char) : ∀ w ∈ (lines cs).head?, w <+: cs := by
  fun_induction lines cs with
  | case1 => simp
  | case2 cs ih => simp
  | case3 cs ih => simp
  | case4 c cs h₁ h₂ ih =>
    intro w hw
    cases hls : lines cs with
    | nil =>
      rw [hls, growFirst, List.head?_cons, Option.mem_some_iff] at hw
      exact hw ▸ (List.cons_prefix_cons.mpr ⟨rfl, List.nil_prefix⟩)
    | cons v vs =>
      rw [hls, growFirst, List.head?_cons, Option.mem_some_iff] at hw
      rw [hls] at ih
      exact hw ▸ (List.cons_prefix_cons.mpr ⟨rfl, ih v rfl⟩)

theorem infix_of_mem_lines {cs w : List Char} (h : w ∈ lines cs) : w <:+: cs := by
  fun_induction lines cs generalizing w with
  | case1 => cases h
  | case2 cs ih =>
    rcases List.mem_cons.mp h with rfl | h
    · exact List.nil_infix
    · exact (ih h).trans (List.suffix_cons _ _).isInfix
  | case3 cs ih =>
    rcases List.mem_cons.mp h with rfl | h
    · exact List.nil_infix
    · exact (ih h).trans ((List.suffix_cons _ _).trans (List.suffix_cons _ _)).isInfix
  | case4 c cs h₁ h₂ ih =>
    cases hls : lines cs with
    | nil =>
      rw [hls, growFirst, List.mem_singleton] at h
      exact h ▸ (List.cons_prefix_cons.mpr ⟨rfl, List.nil_prefix⟩).isInfix
    | cons v vs =>
      rw [hls] at h ih
      rcases List.mem_cons.mp h with rfl | h
      · have hv : v <+: cs := head?_lines_prefix cs v (by rw [hls]; rfl)
        exact (List.cons_prefix_cons.mpr ⟨rfl, hv⟩).isInfix
      · exact (ih (List.mem_cons_of_mem _ h)).trans (List.suffix_cons _ _).isInfix

end Text

namespace Outcome

theorem ofCount_ne_malformed (n : Int) (role : Option Role) (a : String) :
    ofCount n role ≠ .malformed a := by
  unfold ofCount
  split_ifs <;> exact nofun

theorem ofCountAndToken_ne_malformed (n : Int) (token : Option (List Char)) (a : String) :
    ofCountAndToken n token ≠ .malformed a := by
  unfold ofCountAndToken
  split
  · exact ofCount_ne_malformed _ _ _
  · split
    · exact nofun
    · exact ofCount_ne_malformed _ _ _

theorem eq_of_ofWords_malformed {whole : List Char} {ws : List (List Char)} {a : String}
    (h : ofWords whole ws = .malformed a) : a.toList = Text.trim whole := by
  unfold ofWords at h
  split at h
  · cases h
  · split at h
    · exact absurd h (ofCountAndToken_ne_malformed _ _ _)
    · exact absurd h (ofCountAndToken_ne_malformed _ _ _)
    · rw [← Outcome.malformed.inj h, String.toList_ofList]

theorem infix_of_ofChars?_malformed {line : List Char} {a : String}
    (h : ofChars? line = some (.malformed a)) : a.toList <:+: line := by
  unfold ofChars? at h
  split at h
  · cases h
  · cases h
  · rename_i c rest hdrop
    split_ifs at h
    rw [eq_of_ofWords_malformed (Option.some.inj h)]
    have hsuffix : c :: rest <:+ Text.trim line :=
      ⟨_, (Text.dropPrefix?_eq_some_iff.mp hdrop).symm⟩
    exact (Text.trim_infix _).trans (hsuffix.isInfix.trans (Text.trim_infix line))

end Outcome

namespace Invocation

theorem infix_of_firstLine?_malformed {text line a : String}
    (h : firstLine? text = some (line, .malformed a)) : a.toList <:+: text.toList := by
  obtain ⟨cs, hcs, ho⟩ := exists_line_of_firstLine? h
  exact (Outcome.infix_of_ofChars?_malformed ho).trans (Text.infix_of_mem_lines hcs)

end Invocation

/-! ### Replies -/

/-- A change request on which no marker begins in an account or a text, replies of the bot aside. -/
structure Snapshot.Unmarked (bot : Account) (s : Snapshot) : Prop where
  author : Unopened s.change.author.toList
  description : Unopened s.change.description.toList
  comments : ∀ c ∈ s.comments, c.author ≠ bot → Unopened c.author.toList ∧ Unopened c.body.toList

instance (bot : Account) (s : Snapshot) : Decidable (s.Unmarked bot) :=
  decidable_of_iff (Unopened s.change.author.toList ∧ Unopened s.change.description.toList ∧
      ∀ c ∈ s.comments, c.author ≠ bot → Unopened c.author.toList ∧ Unopened c.body.toList)
    ⟨fun ⟨h₁, h₂, h₃⟩ => ⟨h₁, h₂, h₃⟩, fun h => ⟨h.author, h.description, h.comments⟩⟩

/-- **Where no marker begins, a reply marks its own source alone.** -/
theorem Snapshot.Unmarked.mem_keysIn_render {bot : Account} {s : Snapshot} (h : s.Unmarked bot)
    (hids : ∀ c ∈ s.comments, Unbroken c.id.toList) {i : Invocation}
    (hi : i ∈ Invocation.extract s.change s.comments bot) (ruling : Option Ruling) {k : String} :
    k ∈ keysIn (Reply.render i ruling).toList ↔ k = i.source.key := by
  have hactor : Unopened i.actor.toList := by
    rcases Invocation.actor_of_mem_extract hi with ha | ⟨c, hc, hbot, ha⟩
    · exact ha ▸ h.author
    · exact ha ▸ (h.comments c hc hbot).1
  have hquotable : i.Quotable := ⟨hactor, Invocation.isKey_of_mem_extract hids hi,
    fun _ => Invocation.token_of_mem_extract hi⟩
  rw [Reply.mem_keysIn_render hquotable]
  refine or_iff_left ?_
  rintro ⟨arguments, ho, hk⟩
  have harguments : Unopened arguments.toList := by
    rcases Invocation.line_of_mem_extract hi with hl | ⟨c, hc, hbot, hl⟩
    · exact h.description.mono (Invocation.infix_of_firstLine?_malformed (ho ▸ hl))
    · exact (h.comments c hc hbot).2.mono (Invocation.infix_of_firstLine?_malformed (ho ▸ hl))
  exact harguments.not_holding_infix (mem_keysIn.mp hk).2

end ReviewQuorum
