import ReviewQuorum.Proofs.CommandGrammar
import ReviewQuorum.Proofs.StableOrder
import ReviewQuorum.Proofs.Unmarked

/-! # The lines of a reply

A command is a line, so whether a reply could be taken for one is a matter of how its lines begin. A
text is `Silent` if none of its lines is a command. A line that begins neither with a blank nor with
the first character of the trigger is none, however it goes on, and a reply is put together from
such lines: the first has the mention in front of whatever it repeats, arguments that could not be
read have the help below them (`Reply.message_lines`), and the last is the marker.

What a reply repeats of a text stands in a line of it and so has no line feed. If there is none in
the account that a reply mentions and in the comment that it answers either, the reply is silent,
and whoever posts it, no command is found in it (`reply_unheard`). -/

namespace ReviewQuorum

/-! ### Lines -/

namespace Text

variable {a cs line : List Char} {c : Char}

theorem lines_cons (hc : c ≠ '\n') (hreturn : ¬ (c = '\r' ∧ cs.head? = some '\n')) :
    lines (c :: cs) = growFirst c (lines cs) := by
  rw [lines]
  · exact hc
  · rintro ds rfl rfl
    exact hreturn ⟨rfl, rfl⟩

theorem newline_notMem_of_mem_lines (cs : List Char) : ∀ line ∈ lines cs, '\n' ∉ line := by
  fun_induction lines cs with
  | case1 => exact List.forall_mem_nil _
  | case2 cs ih => exact List.forall_mem_cons.mpr ⟨List.not_mem_nil, ih⟩
  | case3 cs ih => exact List.forall_mem_cons.mpr ⟨List.not_mem_nil, ih⟩
  | case4 c cs hc _ ih =>
    have hne : '\n' ≠ c := fun h => hc h.symm
    exact forall_mem_growFirst List.not_mem_nil
      (fun w hw => List.not_mem_cons_of_ne_of_not_mem hne hw) ih

/-- What stands before a line feed begins with the first line; the others stand behind it. -/
theorem lines_append_newline (ha : '\n' ∉ a) (b : List Char) :
    ∃ first, first <+: a ∧ lines (a ++ '\n' :: b) = first :: lines b := by
  induction a with
  | nil => exact ⟨[], List.nil_prefix, rfl⟩
  | cons c a ih =>
    rw [List.mem_cons, not_or] at ha
    by_cases hreturn : c = '\r' ∧ a = []
    · obtain ⟨rfl, rfl⟩ := hreturn
      exact ⟨[], List.nil_prefix, rfl⟩
    · have hinside : ¬ (c = '\r' ∧ (a ++ '\n' :: b).head? = some '\n') := by
        rintro ⟨rfl, hhead⟩
        cases a with
        | nil => exact hreturn ⟨rfl, rfl⟩
        | cons d a => exact ha.2 (Option.some.inj hhead ▸ List.mem_cons_self)
      obtain ⟨first, hfirst, hlines⟩ := ih ha.2
      refine ⟨c :: first, List.cons_prefix_cons.mpr ⟨rfl, hfirst⟩, ?_⟩
      rw [List.cons_append, lines_cons (Ne.symm ha.1) hinside, hlines, growFirst]

theorem lines_of_notMem (ha : '\n' ∉ a) (hne : a ≠ []) : lines a = [a] := by
  induction a with
  | nil => exact absurd rfl hne
  | cons c a ih =>
    rw [List.mem_cons, not_or] at ha
    have hinside : ¬ (c = '\r' ∧ a.head? = some '\n') :=
      fun h => ha.2 (List.mem_of_head? h.2)
    rw [lines_cons (Ne.symm ha.1) hinside]
    cases a with
    | nil => rfl
    | cons d a => rw [ih ha.2 (List.cons_ne_nil d a), growFirst]

end Text

/-! ### Texts without a command -/

namespace Outcome

/-- A line that begins as no command does. It may be empty. -/
def Uncalled (line : List Char) : Prop := ∀ c ∈ line.head?, Text.isBlank c = false ∧ c ≠ '/'

variable {line : List Char}

theorem uncalled_nil : Uncalled [] := nofun

theorem Uncalled.of_prefix {v : List Char} (h : Uncalled line) (hv : v <+: line) :
    Uncalled v := by
  obtain ⟨rest, rfl⟩ := hv
  cases v with
  | nil => exact uncalled_nil
  | cons c v => exact fun d hd => h d hd

theorem Uncalled.ofChars?_eq_none (h : Uncalled line) : ofChars? line = none := by
  by_contra hsome
  obtain ⟨o, ho⟩ := Option.ne_none_iff_exists'.mp hsome
  obtain ⟨rest, ⟨before, rfl, hbefore⟩, -⟩ := exists_calls ho
  cases before with
  | nil => exact (h '/' (by rw [List.nil_append, List.head?_append]; rfl)).2 rfl
  | cons b before =>
    have hblank := hbefore b List.mem_cons_self
    rw [(h b rfl).1] at hblank
    cases hblank

end Outcome

open Outcome (Uncalled)

namespace Invocation

/-- A text in which no line is a command. -/
def Silent (cs : List Char) : Prop := ∀ line ∈ Text.lines cs, Outcome.ofChars? line = none

theorem firstLine?_eq_none_iff {text : String} : firstLine? text = none ↔ Silent text.toList := by
  rw [firstLine?, List.findSome?_eq_none_iff]
  exact forall₂_congr fun line _ => Option.map_eq_none_iff

variable {a b : List Char}

theorem silent_of_notMem (ha : '\n' ∉ a) (h : Uncalled a) : Silent a := by
  intro line hline
  by_cases hne : a = []
  · rw [hne] at hline
    cases hline
  · rw [Text.lines_of_notMem ha hne, List.mem_singleton] at hline
    exact hline ▸ h.ofChars?_eq_none

theorem Silent.append_newline (ha : '\n' ∉ a) (h : Uncalled a) (hb : Silent b) :
    Silent (a ++ '\n' :: b) := by
  obtain ⟨first, hfirst, hlines⟩ := Text.lines_append_newline ha b
  intro line hline
  rw [hlines] at hline
  rcases List.mem_cons.mp hline with rfl | hline
  · exact (h.of_prefix hfirst).ofChars?_eq_none
  · exact hb line hline

end Invocation

/-! ### Replies -/

namespace Reply

open Invocation (Silent silent_of_notMem)

theorem newline_notMem_help : '\n' ∉ help.toList := worded_help.notMem (by decide)

/-- **The lines of a message.** What is read from a line leads to a message of one line, or to one
with an empty line and the help below it. -/
theorem message_lines {line : List Char} (hline : '\n' ∉ line) {o : Outcome}
    (ho : Outcome.ofChars? line = some o) (ruling : Option Ruling) :
    ∃ first, '\n' ∉ first ∧ ((message o ruling).toList = first ∨
      (message o ruling).toList = first ++ '\n' :: '\n' :: help.toList) := by
  have hworded {s : String} (hs : Worded s) : '\n' ∉ s.toList := hs.notMem (by decide)
  cases o with
  | helpRequested => exact ⟨_, newline_notMem_help, .inl rfl⟩
  | parsed q => exact ⟨_, hworded (worded_ruled ruling), .inl rfl⟩
  | outOfRange n b r => exact ⟨_, hworded (worded_outOfRange n b r ruling), .inl rfl⟩
  | unknownRole t =>
    have htoken : '\n' ∉ t.toList := fun h => by
      have hblank := Outcome.unbroken_of_ofChars? ho '\n' h
      revert hblank
      decide
    exact ⟨_, notMem_append (notMem_append (notMem_append (notMem_append (by decide) htoken)
      (by decide)) (hworded worded_roleNames)) (by decide), .inl rfl⟩
  | malformed arguments =>
    have harguments : '\n' ∉ arguments.toList := fun h =>
      hline ((Outcome.infix_of_ofChars?_malformed ho).subset h)
    refine ⟨("Could not parse `" ++ arguments ++ "` as a number of reviewers.").toList, ?_, .inr ?_⟩
    · exact notMem_append (notMem_append (by decide) harguments) (by decide)
    · change ("Could not parse `" ++ arguments ++ "` as a number of reviewers.\n\n" ++
        help).toList = _
      have hend : "` as a number of reviewers.\n\n".toList =
          "` as a number of reviewers.".toList ++ ['\n', '\n'] := by decide
      simp only [String.toList_append, List.append_assoc, hend, List.cons_append, List.nil_append]

theorem silent_ofSource {s : Source} (hs : '\n' ∉ s.key.toList) :
    Silent (Marker.ofSource s).toList := by
  rw [ofSource_toList]
  refine silent_of_notMem ?_ ?_
  · rw [Marker.mem_holding]
    rintro (h | h | h)
    · revert h; decide
    · exact hs h
    · revert h; decide
  · intro c hc
    rw [Marker.holding, Marker.opening_toList] at hc
    rw [← Option.some.inj hc]
    decide

/-- **No line of a reply is a command**, whatever the reply repeats of the line that it answers. -/
theorem silent_render {i : Invocation} {line : List Char} (hline : '\n' ∉ line)
    (ho : Outcome.ofChars? line = some i.outcome) (hactor : '\n' ∉ i.actor.toList)
    (hkey : '\n' ∉ i.source.key.toList) (ruling : Option Ruling) :
    Silent (render i ruling).toList := by
  have hmarker : Silent (Marker.ofSource i.source).toList := silent_ofSource hkey
  have hmention {first : List Char} (hfirst : '\n' ∉ first) :
      '\n' ∉ '@' :: (i.actor.toList ++ ' ' :: first) := by
    simp [hactor, hfirst]
  have hat {rest : List Char} : Uncalled ('@' :: rest) := by
    intro c hc
    rw [← Option.some.inj hc]
    decide
  have hsplit : (render i ruling).toList = '@' :: (i.actor.toList ++
      ' ' :: (message i.outcome ruling).toList) ++ '\n' :: (Marker.ofSource i.source).toList := by
    simp [render]
  rw [hsplit]
  obtain ⟨first, hfirst, hmessage | hmessage⟩ := message_lines hline ho ruling
  · rw [hmessage]
    exact hmarker.append_newline (hmention hfirst) hat
  · have hhelp : Uncalled help.toList := by
      intro c hc
      rw [← Option.some.inj (head?_help.symm.trans hc)]
      decide
    have hbelow : Silent ('\n' :: (help.toList ++ '\n' :: (Marker.ofSource i.source).toList)) :=
      (hmarker.append_newline newline_notMem_help hhelp).append_newline List.not_mem_nil
        Outcome.uncalled_nil
    have happend : '@' :: (i.actor.toList ++ ' ' :: (first ++ '\n' :: '\n' :: help.toList)) ++
        '\n' :: (Marker.ofSource i.source).toList = '@' :: (i.actor.toList ++ ' ' :: first) ++
          '\n' :: '\n' :: (help.toList ++ '\n' :: (Marker.ofSource i.source).toList) := by simp
    rw [hmessage, happend]
    exact hbelow.append_newline (hmention hfirst) hat

end Reply

namespace Invocation

theorem extract_insert {c : Comment} (hc : ofComment? c = none) (change : ChangeRequest)
    (front back : List Comment) (bot : Account) :
    extract change (front ++ c :: back) bot = extract change (front ++ back) bot := by
  have hheard (cs : List Comment) : (Comment.inOrder cs).filterMap ofComment? =
      (Comment.inOrder (cs.filter fun c => (ofComment? c).isSome)).filterMap ofComment? := by
    rw [Comment.inOrder_filter, List.filterMap_filter]
    congr 1
    funext c
    cases ofComment? c <;> rfl
  simp only [extract, List.filter_append, List.filter_cons]
  split_ifs with hbot
  · rw [hheard, hheard (_ ++ _)]
    simp [hc]
  · rfl

end Invocation

/-- **Replies are not heard.** No line of the reply to an invocation is a command, if there is no
line feed in the account it mentions and in the comment it answers. So whoever has posted it, and
wherever it stands, no account of bots is needed to pass it over: with it and without it the same
invocations are found. -/
theorem reply_unheard {change : ChangeRequest} {comments : List Comment} {bot : Account}
    {i : Invocation} (hi : i ∈ Invocation.extract change comments bot)
    (hactor : '\n' ∉ i.actor.toList) (hid : ∀ id, i.source = .comment id → '\n' ∉ id.toList)
    (ruling : Option Ruling) :
    Invocation.firstLine? (Reply.render i ruling) = none ∧
    ∀ reply : Comment, reply.body = Reply.render i ruling → ∀ change' front back bot',
      Invocation.extract change' (front ++ reply :: back) bot' =
        Invocation.extract change' (front ++ back) bot' := by
  have hline : ∃ line, '\n' ∉ line ∧ Outcome.ofChars? line = some i.outcome := by
    rcases Invocation.line_of_mem_extract hi with h | ⟨c, -, -, h⟩ <;>
      obtain ⟨line, hmem, ho⟩ := Invocation.exists_line_of_firstLine? h
    · exact ⟨line, Text.newline_notMem_of_mem_lines _ line hmem, ho⟩
    · exact ⟨line, Text.newline_notMem_of_mem_lines _ line hmem, ho⟩
  have hkey : '\n' ∉ i.source.key.toList := by
    cases hs : i.source with
    | description => decide
    | comment id => exact Reply.notMem_append (by decide) (hid id hs)
  obtain ⟨line, hline, ho⟩ := hline
  have hsilent := Invocation.firstLine?_eq_none_iff.mpr
    (Reply.silent_render hline ho hactor hkey ruling)
  refine ⟨hsilent, fun reply hbody change' front back bot' => ?_⟩
  have hreply : Invocation.ofComment? reply = none := by
    rw [Invocation.ofComment?, hbody, hsilent]
    rfl
  exact Invocation.extract_insert hreply change' front back bot'

/-- The reply to a command that has one more command for its arguments, posted by carol. -/
theorem reply_unheard_quotedTrigger :
    let i := misread "/reviewers 9"
    let comments := [mallorys "/reviewers 9"]
    let reply := { replyTo i with author := "carol" }
    (i ∈ Invocation.extract plainChange comments "bot" ∧ '\n' ∉ i.actor.toList ∧
      (∀ id, i.source = .comment id → '\n' ∉ id.toList) ∧ reply.body = Reply.render i none) ∧
    Invocation.firstLine? (Reply.render i none) = none ∧
    Invocation.extract plainChange (comments ++ [reply]) "bot" = [i] := by
  intro i comments reply
  have hextract : Invocation.extract plainChange comments "bot" = [i] := by decide +kernel
  have hi : i ∈ Invocation.extract plainChange comments "bot" := by
    rw [hextract]
    exact List.mem_singleton_self i
  have hactor : '\n' ∉ i.actor.toList := by decide
  have hid : ∀ id, i.source = .comment id → '\n' ∉ id.toList := by
    rintro id ⟨⟩
    decide
  obtain ⟨hsilent, hposted⟩ := reply_unheard hi hactor hid none
  refine ⟨⟨hi, hactor, hid, rfl⟩, hsilent, ?_⟩
  rw [hposted reply rfl plainChange comments [] "bot", List.append_nil, hextract]

end ReviewQuorum
