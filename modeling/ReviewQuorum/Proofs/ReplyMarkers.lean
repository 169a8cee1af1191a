import ReviewQuorum.Proofs.Markers
import ReviewQuorum.Proofs.Wording

/-! # The markers of a reply

A reply ends with the marker of the source it answers. What stands in front of that marker is the
mention of the account and a message, and the message may repeat what a user wrote: the word that
names no role, or the arguments that could not be read. A word has no blank and so no marker, but
the arguments may have one, and it is found in the reply (`mem_keysIn_render`). So a reply marks its
own source alone iff the arguments it repeats hold no marker of another one
(`answeredKeys_render_iff`). -/

namespace ReviewQuorum

open Marker

/-! ### What an invocation is made of -/

/-- What holds of the words, of none of their characters and of one more in front holds when the
first word grows. -/
theorem Text.forall_mem_growFirst {P : List Char → Prop} {c : Char} {ws : List (List Char)}
    (hnil : P []) (hcons : ∀ w, P w → P (c :: w)) (h : ∀ w ∈ ws, P w) :
    ∀ w ∈ growFirst c ws, P w := by
  cases ws with
  | nil => exact List.forall_mem_singleton.mpr (hcons [] hnil)
  | cons v vs =>
    obtain ⟨hv, hvs⟩ := List.forall_mem_cons.mp h
    exact List.forall_mem_cons.mpr ⟨hcons v hv, hvs⟩

theorem Text.unbroken_of_mem_words (cs : List Char) : ∀ w ∈ words cs, Unbroken w := by
  have hnil : Unbroken [] := nofun
  have hcons {c : Char} (hc : ¬ isBlank c = true) (w : List Char) (hw : Unbroken w) :
      Unbroken (c :: w) := List.forall_mem_cons.mpr ⟨by simpa using hc, hw⟩
  fun_induction words cs with
  | case1 => exact nofun
  | case2 c cs hc ih => exact ih
  | case3 c hc => exact List.forall_mem_singleton.mpr (hcons hc [] hnil)
  | case4 c hc d cs hd ih => exact List.forall_mem_cons.mpr ⟨hcons hc [] hnil, ih⟩
  | case5 c hc d cs hd ih => exact forall_mem_growFirst hnil (hcons hc) ih

open Text (Unbroken)

namespace Invocation

/-- An invocation whose account, source and unknown role are words. -/
structure Plain (i : Invocation) : Prop where
  actor : Unbroken i.actor.toList
  key : IsKey i.source.key.toList
  token : ∀ t, i.outcome = .unknownRole t → Unbroken t.toList

/-- An invocation in whose account no marker begins, and whose source and unknown role are words. -/
structure Quotable (i : Invocation) : Prop where
  actor : Unopened i.actor.toList
  key : IsKey i.source.key.toList
  token : ∀ t, i.outcome = .unknownRole t → Unbroken t.toList

theorem Plain.quotable {i : Invocation} (h : i.Plain) : i.Quotable :=
  ⟨unopened_of_unbroken h.actor, h.key, h.token⟩

end Invocation

namespace Outcome

theorem ofCount_ne_unknownRole (n : Int) (role : Option Role) (t : String) :
    ofCount n role ≠ .unknownRole t := by
  unfold ofCount
  split_ifs <;> exact nofun

theorem unbroken_of_ofCountAndToken {n : Int} {token : List Char} {t : String}
    (htoken : Unbroken token) (h : ofCountAndToken n (some token) = .unknownRole t) :
    Unbroken t.toList := by
  unfold ofCountAndToken at h
  simp only at h
  split at h
  · cases h
    rwa [String.toList_ofList]
  · exact absurd h (ofCount_ne_unknownRole _ _ _)

theorem unbroken_of_ofWords {whole : List Char} {ws : List (List Char)} {t : String}
    (hws : ∀ w ∈ ws, Unbroken w) (h : ofWords whole ws = .unknownRole t) : Unbroken t.toList := by
  unfold ofWords at h
  split at h
  · cases h
  · split at h
    · exact absurd h (ofCount_ne_unknownRole _ _ _)
    · exact unbroken_of_ofCountAndToken (hws _ (by simp)) h
    · cases h

theorem unbroken_of_ofChars? {line : List Char} {t : String}
    (h : ofChars? line = some (.unknownRole t)) : Unbroken t.toList := by
  unfold ofChars? at h
  split at h
  · cases h
  · exact unbroken_of_ofWords (fun w hw => by cases hw) (Option.some.inj h)
  · split_ifs at h
    exact unbroken_of_ofWords (Text.unbroken_of_mem_words _) (Option.some.inj h)

end Outcome

namespace Invocation

/-- What is read from a text is read from one of its lines. -/
theorem exists_line_of_firstLine? {text line : String} {o : Outcome}
    (h : firstLine? text = some (line, o)) :
    ∃ cs ∈ Text.lines text.toList, Outcome.ofChars? cs = some o := by
  obtain ⟨cs, hcs, h⟩ := List.exists_of_findSome?_eq_some h
  obtain ⟨o', ho, heq⟩ := Option.map_eq_some_iff.mp h
  obtain ⟨-, rfl⟩ := Prod.mk.inj heq
  exact ⟨cs, hcs, ho⟩

theorem unbroken_of_firstLine? {text line t : String}
    (h : firstLine? text = some (line, .unknownRole t)) : Unbroken t.toList := by
  obtain ⟨cs, -, ho⟩ := exists_line_of_firstLine? h
  exact Outcome.unbroken_of_ofChars? ho

theorem isKey_comment {id : String} (h : Unbroken id.toList) :
    IsKey (Source.comment id).key.toList := by
  have hc : Unbroken "comment:".toList := by decide
  rw [Source.key, String.toList_append]
  refine ⟨fun h0 => ?_, fun c h1 => (List.mem_append.mp h1).elim (hc c) (h c)⟩
  exact absurd (List.append_eq_nil_iff.mp h0).1 (by decide)

theorem isKey_description : IsKey Source.description.key.toList := ⟨by decide, by decide⟩

theorem of_mem_extract {change : ChangeRequest} {comments : List Comment} {bot : Account}
    {i : Invocation} (hi : i ∈ extract change comments bot) :
    ofDescription? change = some i ∨ ∃ c ∈ comments, c.author ≠ bot ∧ ofComment? c = some i := by
  rcases List.mem_append.mp hi with hi | hi
  · exact .inl (Option.mem_toList.mp hi)
  · obtain ⟨c, hc, hi⟩ := List.mem_filterMap.mp hi
    have hc := List.mem_filter.mp ((List.mergeSort_perm _ _).mem_iff.mp hc)
    exact .inr ⟨c, hc.1, by simpa using hc.2, hi⟩

theorem isKey_of_mem_extract {change : ChangeRequest} {comments : List Comment} {bot : Account}
    (hcomments : ∀ c ∈ comments, Unbroken c.id.toList) {i : Invocation}
    (hi : i ∈ extract change comments bot) : IsKey i.source.key.toList := by
  rcases of_mem_extract hi with hi | ⟨c, hc, -, hi⟩
  · obtain ⟨-, -, rfl⟩ := Option.map_eq_some_iff.mp hi
    exact isKey_description
  · obtain ⟨-, -, rfl⟩ := Option.map_eq_some_iff.mp hi
    exact isKey_comment (hcomments c hc)

theorem actor_of_mem_extract {change : ChangeRequest} {comments : List Comment} {bot : Account}
    {i : Invocation} (hi : i ∈ extract change comments bot) :
    i.actor = change.author ∨ ∃ c ∈ comments, c.author ≠ bot ∧ i.actor = c.author := by
  rcases of_mem_extract hi with hi | ⟨c, hc, hbot, hi⟩
  · obtain ⟨-, -, rfl⟩ := Option.map_eq_some_iff.mp hi
    exact .inl rfl
  · obtain ⟨-, -, rfl⟩ := Option.map_eq_some_iff.mp hi
    exact .inr ⟨c, hc, hbot, rfl⟩

theorem line_of_mem_extract {change : ChangeRequest} {comments : List Comment} {bot : Account}
    {i : Invocation} (hi : i ∈ extract change comments bot) :
    firstLine? change.description = some (i.rawText, i.outcome) ∨
      ∃ c ∈ comments, c.author ≠ bot ∧ firstLine? c.body = some (i.rawText, i.outcome) := by
  rcases of_mem_extract hi with hi | ⟨c, hc, hbot, hi⟩
  · obtain ⟨line, hl, rfl⟩ := Option.map_eq_some_iff.mp hi
    exact .inl hl
  · obtain ⟨line, hl, rfl⟩ := Option.map_eq_some_iff.mp hi
    exact .inr ⟨c, hc, hbot, hl⟩

theorem token_of_mem_extract {change : ChangeRequest} {comments : List Comment} {bot : Account}
    {i : Invocation} (hi : i ∈ extract change comments bot) {t : String}
    (ht : i.outcome = .unknownRole t) : Unbroken t.toList := by
  rcases line_of_mem_extract hi with hl | ⟨c, -, -, hl⟩
  · exact unbroken_of_firstLine? (ht ▸ hl)
  · exact unbroken_of_firstLine? (ht ▸ hl)

/-- **The invocations of a change request** in which accounts and comments are named by words. -/
theorem plain_of_mem_extract {change : ChangeRequest} {comments : List Comment} {bot : Account}
    (hauthor : Unbroken change.author.toList)
    (hcomments : ∀ c ∈ comments, Unbroken c.author.toList ∧ Unbroken c.id.toList)
    {i : Invocation} (hi : i ∈ extract change comments bot) : Plain i := by
  refine ⟨?_, isKey_of_mem_extract (fun c hc => (hcomments c hc).2) hi,
    fun _ => token_of_mem_extract hi⟩
  rcases actor_of_mem_extract hi with h | ⟨c, hc, -, h⟩
  · exact h ▸ hauthor
  · exact h ▸ (hcomments c hc).1

end Invocation

namespace Reply

/-! ### Messages -/

theorem not_mem_holding_newline {k : List Char} (hk : IsKey k) : '\n' ∉ holding k := by
  rw [mem_holding]
  rintro (h | h | h)
  · revert h; decide
  · have := hk.unbroken _ h
    revert this; decide
  · revert h; decide

theorem Worded.not_holding_infix {s : String} (h : Worded s) {k : List Char} :
    ¬ holding k <:+: s.toList := not_holding_infix_of_notMem (h.notMem (by decide))

theorem not_holding_infix_unknownRole {t : String} {k : List Char} (ht : Unbroken t.toList)
    (ruling : Option Ruling) : ¬ holding k <:+: (message (.unknownRole t) ruling).toList := by
  have hsplit : (message (.unknownRole t) ruling).toList = "Unknown role `".toList ++
      (t.toList ++ ("` specified. Valid roles are " ++ roleNames ++ ".").toList) := by
    change ("Unknown role `" ++ t ++ "` specified. Valid roles are " ++ roleNames ++ ".").toList = _
    simp only [String.toList_append, List.append_assoc]
  rw [hsplit, holding_infix_append_left (by decide), holding_infix_append_right (by decide +kernel)]
  exact not_holding_infix_word ht

theorem holding_infix_malformed {arguments : String} {k : List Char} (hk : IsKey k)
    (ruling : Option Ruling) :
    holding k <:+: (message (.malformed arguments) ruling).toList ↔
      holding k <:+: arguments.toList := by
  have hsplit : (message (.malformed arguments) ruling).toList = "Could not parse `".toList ++
      ((arguments.toList ++ "` as a number of reviewers.".toList) ++
        '\n' :: '\n' :: help.toList) := by
    change ("Could not parse `" ++ arguments ++ "` as a number of reviewers.\n\n" ++
      help).toList = _
    have hlit : "` as a number of reviewers.\n\n".toList =
        "` as a number of reviewers.".toList ++ ['\n', '\n'] := by decide
    simp only [String.toList_append, List.append_assoc, hlit, List.cons_append, List.nil_append]
  have hend : '!' ∉ '\n' :: help.toList := by
    rw [List.mem_cons, not_or]
    exact ⟨by decide, worded_help.notMem (by decide)⟩
  rw [hsplit, holding_infix_append_left (by decide), infix_append_cons (not_mem_holding_newline hk),
    or_iff_left (not_holding_infix_of_notMem hend), holding_infix_append_right (by decide)]

/-- **The markers in a message** are those in the arguments that could not be read. -/
theorem holding_infix_message {i : Invocation} (hi : i.Quotable) (ruling : Option Ruling)
    {k : List Char} (hk : IsKey k) : holding k <:+: (message i.outcome ruling).toList ↔
      ∃ arguments, i.outcome = .malformed arguments ∧ holding k <:+: arguments.toList := by
  cases ho : i.outcome with
  | helpRequested =>
    have h : ¬ holding k <:+: (message .helpRequested ruling).toList :=
      worded_help.not_holding_infix
    simpa using h
  | parsed q =>
    have h : ¬ holding k <:+: (message (.parsed q) ruling).toList :=
      Worded.not_holding_infix (worded_ruled ruling)
    simpa using h
  | outOfRange n b r =>
    have h : ¬ holding k <:+: (message (.outOfRange n b r) ruling).toList :=
      Worded.not_holding_infix (worded_outOfRange n b r ruling)
    simpa using h
  | unknownRole t => simpa using not_holding_infix_unknownRole (hi.token t ho) ruling
  | malformed arguments => simpa using holding_infix_malformed hk ruling

theorem head?_append {s t : String} {c : Char} (h : s.toList.head? = some c) :
    (s ++ t).toList.head? = some c := by
  rw [String.toList_append, List.head?_append, h]
  rfl

theorem head?_success (p : Policy) : (success p).toList.head? = some 'T' := by
  have h (n : Nat) : ("The number of required reviews for this PR is now set to " ++
      Decimal.ofNat n).toList.head? = some 'T' := head?_append (by decide)
  unfold success
  split_ifs
  · exact head?_append (h _)
  · exact head?_append (head?_append (h _))

theorem head?_denial : ∀ d : Denial, (denial d).toList.head? = some 'C' ∨
    (denial d).toList.head? = some 'O'
  | .notPermitted => .inr (by decide)
  | .authorCannotDecrease => .inl (head?_append (by decide))
  | .decreaseNotPermitted => .inl (head?_append (by decide))

theorem head?_help : help.toList.head? = some 'U' := by
  unfold help
  exact head?_append (head?_append (head?_append (head?_append (head?_append (head?_append
    (head?_append (by decide)))))))

theorem head?_message (o : Outcome) (ruling : Option Ruling) :
    (message o ruling).toList.head? ≠ some 'r' := by
  have hne {s : String} {c : Char} (hc : c ≠ 'r') (h : s.toList.head? = some c) :
      s.toList.head? ≠ some 'r' := by simpa [h] using hc
  have help : help.toList.head? ≠ some 'r' := hne (by decide) head?_help
  cases o with
  | helpRequested => exact help
  | parsed q =>
    rcases ruling with _ | ⟨_, _, _, _, p, b | d⟩
    · exact help
    · exact hne (by decide) (head?_success p)
    · exact (head?_denial d).elim (hne (by decide)) (hne (by decide))
  | outOfRange n b r =>
    cases b with
    | upper =>
      change ("Cannot increase the required number of reviewers above " ++ _ ++ _ ++ _ ++
        _).toList.head? ≠ _
      exact hne (c := 'C') (by decide) (head?_append (head?_append (head?_append (head?_append
        (by decide)))))
    | lower =>
      change ("Number of required reviewers of role " ++ _ ++ _ ++ _).toList.head? ≠ _
      exact hne (c := 'N') (by decide) (head?_append (head?_append (head?_append (by decide))))
  | unknownRole t =>
    change ("Unknown role `" ++ _ ++ _ ++ _ ++ _).toList.head? ≠ _
    exact hne (c := 'U') (by decide) (head?_append (head?_append (head?_append (head?_append
      (by decide)))))
  | malformed a =>
    change ("Could not parse `" ++ _ ++ _ ++ _).toList.head? ≠ _
    exact hne (c := 'C') (by decide) (head?_append (head?_append (head?_append (by decide))))

/-! ### Replies -/

theorem ofSource_toList (s : Source) : (Marker.ofSource s).toList = holding s.key.toList := by
  simp [Marker.ofSource, holding]

theorem holding_suffix_render (i : Invocation) (ruling : Option Ruling) :
    holding i.source.key.toList <:+ (render i ruling).toList := by
  rw [render, String.toList_append, ofSource_toList]
  exact List.suffix_append _ _

/-- **The markers in a reply** are that of its source and those in the arguments that could not be
read. -/
theorem mem_keysIn_render {i : Invocation} (hi : i.Quotable) (ruling : Option Ruling) {k : String} :
    k ∈ keysIn (render i ruling).toList ↔
      k = i.source.key ∨ ∃ arguments, i.outcome = .malformed arguments ∧
        k ∈ keysIn arguments.toList := by
  have hsplit : (render i ruling).toList =
      ("@" ++ i.actor).toList ++ ' ' :: (message i.outcome ruling).toList ++
        '\n' :: (holding i.source.key.toList ++ []) := by
    rw [List.append_nil, ← ofSource_toList]
    simp [render]
  have hname : Unopened ("@" ++ i.actor).toList := fun hin => by
    rw [String.toList_append, show "@".toList = ['@'] from by decide, List.singleton_append,
      List.infix_cons_iff, lead_toList] at hin
    rcases hin with ⟨x, hx⟩ | hin
    · exact absurd (List.cons.inj hx).1 (by decide)
    · exact hi.actor (lead_toList ▸ hin)
  simp only [mem_keysIn]
  constructor
  · rintro ⟨hk, h⟩
    rw [hsplit, infix_append_cons (not_mem_holding_newline hk), holding_infix_append hi.key hk,
      holding_infix_append_blank hname (head?_message _ _), holding_infix_message hi ruling hk] at h
    rcases h with ⟨arguments, ho, h⟩ | h | h
    · exact .inr ⟨arguments, ho, hk, h⟩
    · exact .inl (String.toList_inj.mp h)
    · exact absurd h not_holding_infix_nil
  · rintro (rfl | ⟨arguments, ho, hk, h⟩)
    · exact ⟨hi.key, (holding_suffix_render i ruling).isInfix⟩
    · refine ⟨hk, ?_⟩
      rw [hsplit, infix_append_cons (not_mem_holding_newline hk),
        holding_infix_append_blank hname (head?_message _ _), holding_infix_message hi ruling hk]
      exact .inl ⟨arguments, ho, h⟩

/-- **The sources that a reply marks** are its own and those that the arguments which could not be
read name in a marker. -/
theorem mem_answeredKeys_render {i : Invocation} (hi : i.Plain) (ruling : Option Ruling)
    {c : Comment} (hbody : c.body = render i ruling) {k : String} :
    k ∈ answeredKeys [c] c.author ↔
      k = i.source.key ∨ ∃ arguments, i.outcome = .malformed arguments ∧
        k ∈ keysIn arguments.toList := by
  rw [mem_answeredKeys, ← mem_keysIn_render hi.quotable ruling, ← hbody]
  simp

end Reply

/-- **A reply marks its own source alone iff the arguments it repeats name no other one.** -/
theorem answeredKeys_render_iff {change : ChangeRequest} {comments : List Comment} {bot : Account}
    (hauthor : Unbroken change.author.toList)
    (hcomments : ∀ c ∈ comments, Unbroken c.author.toList ∧ Unbroken c.id.toList)
    {i : Invocation} (hi : i ∈ Invocation.extract change comments bot) (ruling : Option Ruling)
    {reply : Comment} (hbot : reply.author = bot) (hbody : reply.body = Reply.render i ruling) :
    (∀ k, k ∈ answeredKeys [reply] bot ↔ k = i.source.key) ↔
      ∀ arguments, i.outcome = .malformed arguments →
        ∀ k ∈ keysIn arguments.toList, k = i.source.key := by
  subst hbot
  have hplain := Invocation.plain_of_mem_extract hauthor hcomments hi
  simp only [Reply.mem_answeredKeys_render hplain ruling hbody]
  constructor
  · exact fun h arguments ho k hk => (h k).mp (.inr ⟨arguments, ho, hk⟩)
  · refine fun h k => ⟨?_, .inl⟩
    rintro (rfl | ⟨arguments, ho, hk⟩)
    · rfl
    · exact h arguments ho k hk

/-! ### A marker in a command -/

/-- A change request without a command in its description. -/
def plainChange : ChangeRequest := ⟨"cr-1", "alice", "", ⟨0⟩, Dict.empty⟩

/-- A command of mallory's with arguments. -/
def mallorys (arguments : String) : Comment :=
  ⟨"c1", "mallory", "/reviewers " ++ arguments, ⟨⟨1⟩, 1⟩⟩

/-- What is read from a command of mallory's with arguments that are neither number nor role. -/
def misread (arguments : String) : Invocation :=
  ⟨.comment "c1", "mallory", "/reviewers " ++ arguments, .malformed arguments, ⟨⟨1⟩, 1⟩⟩

/-- The reply of the bot to an invocation. -/
def replyTo (i : Invocation) : Comment := ⟨"c2", "bot", Reply.render i none, ⟨⟨2⟩, 2⟩⟩

theorem answeredKeys_render_many :
    misread "many" ∈ Invocation.extract plainChange [mallorys "many"] "bot" ∧
    ∀ k, k ∈ answeredKeys [replyTo (misread "many")] "bot" ↔ k = "comment:c1" := by
  have hauthor : Unbroken plainChange.author.toList := by decide
  have hcomments : ∀ c ∈ [mallorys "many"], Unbroken c.author.toList ∧ Unbroken c.id.toList := by
    decide
  have hi : misread "many" ∈ Invocation.extract plainChange [mallorys "many"] "bot" := by
    decide +kernel
  have hbot : (replyTo (misread "many")).author = "bot" := rfl
  refine ⟨hi, (answeredKeys_render_iff hauthor hcomments hi none hbot rfl).mpr ?_⟩
  intro arguments ho k hk
  obtain rfl : "many" = arguments := Outcome.malformed.inj ho
  exact absurd (mem_keysIn.mp hk).2 (not_holding_infix_of_notMem (by decide))

/-- The reply to a command that names another comment in a marker counts as the reply to that
comment, too. -/
theorem answeredKeys_render_marker :
    let arguments := "<!-- revgate-reply: comment:c3 -->"
    Unbroken plainChange.author.toList ∧
    (∀ c ∈ [mallorys arguments], Unbroken c.author.toList ∧ Unbroken c.id.toList) ∧
    misread arguments ∈ Invocation.extract plainChange [mallorys arguments] "bot" ∧
    (replyTo (misread arguments)).author = "bot" ∧
    (replyTo (misread arguments)).body = Reply.render (misread arguments) none ∧
    "comment:c3" ∈ answeredKeys [replyTo (misread arguments)] "bot" ∧
    (misread arguments).source.key ≠ "comment:c3" := by
  refine ⟨by decide, by decide, by decide +kernel, rfl, rfl, ?_, by decide⟩
  have hplain : Invocation.Plain (misread "<!-- revgate-reply: comment:c3 -->") :=
    ⟨by decide, Invocation.isKey_comment (by decide), nofun⟩
  refine (Reply.mem_answeredKeys_render hplain none rfl).mpr (.inr ⟨_, rfl, ?_⟩)
  exact mem_keysIn_of_suffix ⟨by decide, by decide⟩ ⟨[], by decide⟩

end ReviewQuorum
