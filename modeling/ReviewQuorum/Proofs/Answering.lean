import ReviewQuorum.Proofs.ReplyMarkers
import ReviewQuorum.Proofs.Run

/-! # Every command is answered once

Two things keep a pass from answering a command again: the marker in the reply that stands already,
and the watermark. Neither keeps it from answering a command that has no reply yet, because the
watermark only passes commands that are answered, and never exceeds the largest number of a comment,
so that whatever comes later is above it. `Answering` is what holds between passes; a pass preserves
it whether it completes or breaks off (`Answering.pass`), and so does what users do
(`Answering.grow`). A run of any length then posts one reply for a source at most, and none for a
source that was answered before, and a pass that completes leaves every command that it saw
answered (`answered_once`). -/

namespace ReviewQuorum

open Marker
open Text (Unbroken)

/-! ### Sources -/

theorem Source.key_injective {s s' : Source} (h : s.key = s'.key) : s = s' := by
  have hne (id : String) : "description" ≠ "comment:" ++ id := fun h => by
    have := congrArg (fun s => s.toList.head?) h
    simp at this
  cases s with
  | description =>
    cases s' with
    | description => rfl
    | comment id => exact absurd h (hne id)
  | comment id =>
    cases s' with
    | description => exact absurd h.symm (hne id)
    | comment id' => rw [String.append_right_inj _ |>.mp h]

namespace Invocation

variable {change : ChangeRequest} {comments : List Comment} {bot : Account} {i : Invocation}

theorem of_ofComment? {c : Comment} (h : ofComment? c = some i) :
    i.source = .comment c.id ∧ i.moment = c.moment := by
  obtain ⟨-, -, rfl⟩ := Option.map_eq_some_iff.mp h
  exact ⟨rfl, rfl⟩

theorem of_ofDescription? (h : ofDescription? change = some i) : i.source = .description := by
  obtain ⟨-, -, rfl⟩ := Option.map_eq_some_iff.mp h
  rfl

theorem mem_extract_of_comment {c : Comment} (hc : c ∈ comments) (hauthor : c.author ≠ bot)
    (hi : ofComment? c = some i) : i ∈ extract change comments bot := by
  refine List.mem_append_right _ (List.mem_filterMap.mpr ⟨c, ?_, hi⟩)
  refine (List.mergeSort_perm _ _).mem_iff.mpr (List.mem_filter.mpr ⟨hc, ?_⟩)
  simpa using hauthor

/-- **The sources of invocations are distinct** if the comments are. -/
theorem nodup_sources (h : (comments.map (·.id)).Nodup) :
    ((extract change comments bot).map (·.source)).Nodup := by
  rw [extract, List.map_append, List.nodup_append]
  refine ⟨?_, ?_, ?_⟩
  · cases ofDescription? change <;> simp
  · rw [List.Nodup, List.pairwise_map, List.pairwise_filterMap]
    have hperm : (Comment.inOrder (comments.filter fun c => c.author != bot)).Perm
        (comments.filter fun c => c.author != bot) := List.mergeSort_perm _ _
    have hids : (comments.filter fun c => c.author != bot).Pairwise fun a b => a.id ≠ b.id :=
      (List.pairwise_map.mp h).filter _
    refine (hperm.symm.pairwise hids fun {x y} h => h.symm).imp fun {a b} hab i hi j hj heq => ?_
    rw [(of_ofComment? hi).1, (of_ofComment? hj).1] at heq
    exact hab (Source.comment.inj heq)
  · intro s hs s' hs' heq
    obtain ⟨i, hi, rfl⟩ := List.mem_map.mp hs
    obtain ⟨j, hj, rfl⟩ := List.mem_map.mp hs'
    obtain ⟨c, -, hj⟩ := List.mem_filterMap.mp hj
    rw [of_ofDescription? (Option.mem_toList.mp hi), (of_ofComment? hj).1] at heq
    cases heq

end Invocation

/-! ### Comments that may hold commands -/

namespace Comment

/-- The comments of others than the bot. -/
def ofOthers (bot : Account) (cs : List Comment) : List Comment :=
  cs.filter fun c => c.author != bot

/-- Comments whose identifiers are distinct words. -/
structure Named (cs : List Comment) : Prop where
  ids : (cs.map (·.id)).Nodup
  words : ∀ c ∈ cs, Unbroken c.id.toList

instance (cs : List Comment) : Decidable (Named cs) :=
  decidable_of_iff ((cs.map (·.id)).Nodup ∧ ∀ c ∈ cs, Unbroken c.id.toList)
    ⟨fun ⟨h₁, h₂⟩ => ⟨h₁, h₂⟩, fun h => ⟨h.ids, h.words⟩⟩

theorem Named.sublist {cs ds : List Comment} (h : Named ds) (hsub : cs.Sublist ds) : Named cs :=
  ⟨h.ids.sublist (hsub.map _), fun c hc => h.words c (hsub.subset hc)⟩

end Comment

theorem Invocation.extract_ofOthers (change : ChangeRequest) (cs : List Comment) (bot : Account) :
    extract change (Comment.ofOthers bot cs) bot = extract change cs bot := by
  simp only [extract, Comment.ofOthers, List.filter_filter, Bool.and_self]

/-! ### Replies -/

namespace Reply

/-- Whether a text is a reply to a source: it ends with its marker. -/
def answers (s : Source) (body : String) : Bool :=
  (Marker.ofSource s).toList.isSuffixOf body.toList

theorem answers_render {i : Invocation} {s : Source} (hi : IsKey i.source.key.toList)
    (hs : IsKey s.key.toList) (ruling : Option Ruling) :
    answers s (render i ruling) = true ↔ i.source = s := by
  rw [answers, List.isSuffixOf_iff_suffix, ofSource_toList]
  constructor
  · intro h
    have := eq_of_holding_suffix hi hs (holding_suffix_render i ruling) h
    exact Source.key_injective (String.toList_inj.mp this)
  · rintro rfl
    exact holding_suffix_render i ruling

theorem mem_answeredKeys_of_answers {s : Source} (hs : IsKey s.key.toList) {c : Comment}
    {comments : List Comment} {bot : Account} (hc : c ∈ comments) (hbot : c.author = bot)
    (h : answers s c.body = true) : s.key ∈ answeredKeys comments bot := by
  rw [answers, List.isSuffixOf_iff_suffix, ofSource_toList] at h
  exact mem_answeredKeys.mpr ⟨c, hc, hbot, mem_keysIn_of_suffix hs h⟩

end Reply

theorem Marker.answeredKeys_mono {cs ds : List Comment} {bot : Account} (h : cs ⊆ ds) {k : String}
    (hk : k ∈ answeredKeys cs bot) : k ∈ answeredKeys ds bot := by
  obtain ⟨c, hc, hck⟩ := mem_answeredKeys.mp hk
  exact mem_answeredKeys.mpr ⟨c, h hc, hck⟩

/-! ### Comments of a run -/

namespace Comment

/-- Comments of a run that began with `cs₀`: their identifiers are distinct words, and no number has
come after the last one of 64 bits, which would have been zero. -/
structure Orderly (cs₀ cs : List Comment) : Prop where
  ids : (cs.map (·.id)).Nodup
  words : ∀ c ∈ cs, Unbroken c.id.toList
  fits : ∀ c ∈ cs₀, c.moment.sequence < UInt64.size
  numbered : ∀ c ∈ cs.drop cs₀.length, c.moment.sequence ≠ 0

instance (cs₀ cs : List Comment) : Decidable (Orderly cs₀ cs) :=
  decidable_of_iff ((cs.map (·.id)).Nodup ∧ (∀ c ∈ cs, Unbroken c.id.toList) ∧
      (∀ c ∈ cs₀, c.moment.sequence < UInt64.size) ∧
      ∀ c ∈ cs.drop cs₀.length, c.moment.sequence ≠ 0)
    ⟨fun ⟨h₁, h₂, h₃, h₄⟩ => ⟨h₁, h₂, h₃, h₄⟩, fun h => ⟨h.ids, h.words, h.fits, h.numbered⟩⟩

/-- Whatever is in the second list only has a larger number than everything in the first. -/
def NumberedAfter (cs ds : List Comment) : Prop :=
  ∀ a ∈ cs, ∀ b ∈ ds, b ∈ cs ∨ a.moment.sequence < b.moment.sequence

variable {who : Account → Prop} {cs₀ cs ds : List Comment}

theorem Orderly.of_continues (ho : Orderly cs₀ ds) (h₀ : Continues who cs₀ cs)
    (h : Continues who cs ds) : Orderly cs₀ cs := by
  obtain ⟨added, rfl, -⟩ := h.exists_append
  obtain ⟨added₀, rfl, -⟩ := h₀.exists_append
  have hnumbered := ho.numbered
  rw [List.append_assoc, List.drop_left] at hnumbered
  refine ⟨?_, fun c hc => ho.words c (List.mem_append_left _ hc), ho.fits, ?_⟩
  · have := ho.ids
    rw [List.map_append] at this
    exact (List.nodup_append.mp this).1
  · rw [List.drop_left]
    exact fun c hc => hnumbered c (List.mem_append_left _ hc)

theorem Orderly.numberedAfter (ho : Orderly cs₀ ds) (h₀ : Continues who cs₀ cs)
    (h : Continues who cs ds) : NumberedAfter cs ds := by
  have hfits := (h₀.numbered ho.fits (ho.of_continues h₀ h).numbered).1
  have hpos : ∀ c ∈ ds.drop cs.length, c.moment.sequence ≠ 0 := by
    obtain ⟨added, rfl, -⟩ := h.exists_append
    obtain ⟨added₀, rfl, -⟩ := h₀.exists_append
    have hnumbered := ho.numbered
    rw [List.append_assoc, List.drop_left] at hnumbered
    rw [List.drop_left]
    exact fun c hc => hnumbered c (List.mem_append_right _ hc)
  intro a ha b hb
  have hb' : b ∈ cs ++ ds.drop cs.length := by
    obtain ⟨added, rfl, -⟩ := h.exists_append
    rwa [List.drop_left]
  exact (List.mem_append.mp hb').imp_right ((h.numbered hfits hpos).2 a ha b)

end Comment

/-! ### The watermark -/

/-- **A sound watermark** does not exceed the largest number, and the commands up to it are
answered. -/
structure SoundWatermark (bot : Account) (watermark : Option Nat) (cs : List Comment) : Prop where
  reached : ∀ m, watermark = some m → ∃ c ∈ cs, m ≤ c.moment.sequence
  passed : ∀ m, watermark = some m → ∀ c ∈ cs, c.author ≠ bot → (Invocation.ofComment? c).isSome →
    c.moment.sequence ≤ m → (Source.comment c.id).key ∈ answeredKeys cs bot

namespace SoundWatermark

variable {bot : Account} {watermark : Option Nat} {cs ds : List Comment}

theorem fresh {m : Memory} {id : String} (hm : m = .empty) :
    SoundWatermark bot (m.contextOf id).watermark cs := by
  rw [hm]
  exact ⟨nofun, nofun⟩

theorem mem_of_le (h : SoundWatermark bot watermark cs) (hafter : Comment.NumberedAfter cs ds)
    {m : Nat} (hm : watermark = some m) {c : Comment} (hc : c ∈ ds) (hle : c.moment.sequence ≤ m) :
    c ∈ cs := by
  obtain ⟨a, ha, hma⟩ := h.reached m hm
  exact (hafter a ha c hc).resolve_right (by omega)

theorem grow (h : SoundWatermark bot watermark cs) (hsub : cs ⊆ ds)
    (hafter : Comment.NumberedAfter cs ds) : SoundWatermark bot watermark ds where
  reached m hm := by
    obtain ⟨c, hc, hle⟩ := h.reached m hm
    exact ⟨c, hsub hc, hle⟩
  passed m hm c hc hauthor hcommand hle :=
    answeredKeys_mono hsub (h.passed m hm c (h.mem_of_le hafter hm hc hle) hauthor hcommand hle)

/-- **The next watermark** is sound once the commands among the comments that were seen are
answered. -/
theorem next (h : SoundWatermark bot watermark cs) {seen : List Comment} (hseen : cs ⊆ seen)
    (hsub : seen ⊆ ds) (hafter : Comment.NumberedAfter seen ds)
    (hanswered : ∀ c ∈ seen, c.author ≠ bot → (Invocation.ofComment? c).isSome →
      (Source.comment c.id).key ∈ answeredKeys ds bot) :
    SoundWatermark bot (Plan.laterWatermark (Comment.lastSequence? seen) watermark) ds := by
  have hreached : ∀ m, Plan.laterWatermark (Comment.lastSequence? seen) watermark = some m →
      ∃ c ∈ seen, m ≤ c.moment.sequence := by
    intro m hm
    have hold : ∀ m, watermark = some m → ∃ c ∈ seen, m ≤ c.moment.sequence := fun m hm => by
      obtain ⟨c, hc, hle⟩ := h.reached m hm
      exact ⟨c, hseen hc, hle⟩
    cases hlast : Comment.lastSequence? seen with
    | none => exact hold m (by rwa [hlast] at hm)
    | some n =>
      obtain ⟨c, hc, rfl⟩ := List.mem_map.mp (List.max?_eq_some_iff.mp hlast).1
      rw [hlast] at hm
      cases hw : watermark with
      | none =>
        rw [hw] at hm
        cases hm
        exact ⟨c, hc, Nat.le_refl _⟩
      | some k =>
        rw [hw] at hm
        cases hm
        rcases Nat.le_total k c.moment.sequence with hle | hle
        · exact ⟨c, hc, by omega⟩
        · obtain ⟨d, hd, hkd⟩ := hold k hw
          exact ⟨d, hd, by omega⟩
  refine ⟨fun m hm => ?_, fun m hm c hc hauthor hcommand hle => ?_⟩
  · obtain ⟨c, hc, hle⟩ := hreached m hm
    exact ⟨c, hsub hc, hle⟩
  · obtain ⟨a, ha, hma⟩ := hreached m hm
    exact hanswered c ((hafter a ha c hc).resolve_right (by omega)) hauthor hcommand

end SoundWatermark

/-! ### One pass -/

/-- A reply that is not owed has been given, or is for a comment up to the watermark. -/
theorem Plan.not_isOwed {watermark : Option Nat} {answered : List String} {i : Invocation}
    (h : Plan.isOwed watermark answered i ≠ true) (hnot : i.source.key ∉ answered) :
    ∃ id m, i.source = .comment id ∧ watermark = some m ∧ i.moment.sequence ≤ m := by
  cases hs : i.source with
  | description => simp [isOwed, hs, hs ▸ hnot] at h
  | comment id =>
    cases watermark with
    | none => simp [isOwed, hs, hs ▸ hnot] at h
    | some m => exact ⟨id, m, rfl, rfl, by simpa [isOwed, hs, hs ▸ hnot] using h⟩

/-- **A plan has one reply to a source at most**, and none to a source that is answered. -/
theorem Plan.countP_replies_le {settings : Settings} {facts : Facts}
    (hnamed : Comment.Named (Comment.ofOthers settings.botAccount facts.comments)) {source : Source}
    (hsource : IsKey source.key.toList) (context : Context) :
    ((make settings context facts).replies.map (·.2)).countP (Reply.answers source) ≤
      if source.key ∈ answeredKeys facts.comments settings.botAccount then 0 else 1 := by
  let invocations := Invocation.extract facts.change facts.comments settings.botAccount
  let ledger := Ledger.replay .default (Invocation.commands invocations) facts.change.author
    facts.roles.roleOf
  let answered := answeredKeys facts.comments settings.botAccount
  let owed := invocations.filter (isOwed context.watermark answered)
  have hextract : invocations = Invocation.extract facts.change
      (Comment.ofOthers settings.botAccount facts.comments) settings.botAccount :=
    (Invocation.extract_ofOthers _ _ _).symm
  have hreplies : (make settings context facts).replies = Reply.renderAll owed ledger := rfl
  have hcount : ((make settings context facts).replies.map (·.2)).countP (Reply.answers source) =
      owed.countP fun i => i.source = source := by
    rw [hreplies, Reply.renderAll, List.map_map, List.countP_map]
    refine List.countP_congr fun i hi => ?_
    have hkey := Invocation.isKey_of_mem_extract hnamed.words
      (hextract ▸ (List.mem_filter.mp hi).1)
    simpa using Reply.answers_render hkey hsource (ledger.rulingFor? i.source)
  rw [hcount]
  split
  · rename_i hanswered
    rw [Nat.le_zero, List.countP_eq_zero]
    intro i hi heq
    obtain rfl : i.source = source := by simpa using heq
    have howed := (List.mem_filter.mp hi).2
    simp [isOwed, answered, hanswered] at howed
  · have hnodup : (invocations.map (·.source)).Nodup :=
      hextract ▸ Invocation.nodup_sources hnamed.ids
    calc owed.countP (fun i => i.source = source)
        ≤ invocations.countP fun i => i.source = source := List.filter_sublist.countP_le
      _ = (invocations.map (·.source)).count source := by
          rw [List.count_eq_countP, List.countP_map]
          exact List.countP_congr fun i _ => by simp
      _ ≤ 1 := List.nodup_iff_count.mp hnodup source

/-- **Replies that stand and then those of a plan** are at most one for a source, because what
stands when the plan is made counts as answered. -/
theorem Reply.countP_append_le {bot : Account} {cs₀ cs : List Comment} {earlier sent : List String}
    {source : Source} (hsource : IsKey source.key.toList) (hsub : cs₀ ⊆ cs)
    (hstand : ∀ body ∈ earlier, ∃ c ∈ cs, c.author = bot ∧ c.body = body)
    (hearlier : earlier.countP (answers source) ≤
      if source.key ∈ answeredKeys cs₀ bot then 0 else 1)
    (hsent : sent.countP (answers source) ≤ if source.key ∈ answeredKeys cs bot then 0 else 1) :
    (earlier ++ sent).countP (answers source) ≤
      if source.key ∈ answeredKeys cs₀ bot then 0 else 1 := by
  rw [List.countP_append]
  by_cases hanswered : source.key ∈ answeredKeys cs bot
  · rw [if_pos hanswered] at hsent
    omega
  · have hnone : earlier.countP (answers source) = 0 := by
      rw [List.countP_eq_zero]
      intro body hb hanswers
      obtain ⟨c, hc, hauthor, rfl⟩ := hstand body hb
      exact hanswered (mem_answeredKeys_of_answers hsource hc hauthor hanswers)
    rw [if_neg hanswered] at hsent
    rw [if_neg fun h => hanswered (answeredKeys_mono hsub h), hnone]
    omega

namespace Pass

variable {who : Account → Prop} {settings : Settings} {context : Context} {w : World}
  {s s' : Snapshot} {t : Trace} {facts : Facts} {sent unsent : List (String × String)}

theorem Carried.orderly_seen (h : Carried who settings context w s t facts sent unsent s')
    {cs₀ : List Comment} (h₀ : Comment.Continues who cs₀ s.comments)
    (ho : Comment.Orderly cs₀ s'.comments) :
    Comment.Continues who s.comments facts.comments ∧
      Comment.Continues who facts.comments s'.comments ∧ Comment.Orderly cs₀ facts.comments := by
  obtain ⟨s₁, s₂, h₁, -, h₂, hcomments, h₃⟩ := h.gathered.seen
  rw [hcomments]
  have hseen := (h₁.trans h₂).comments
  exact ⟨hseen, h₃.comments, ho.of_continues (h₀.trans hseen) h₃.comments⟩

/-- **One pass posts one reply to a source at most**, and none to a source that is answered. -/
theorem Carried.countP_posted_le (h : Carried who settings context w s t facts sent unsent s')
    (hids : (facts.comments.map (·.id)).Nodup) (hwords : ∀ c ∈ facts.comments, Unbroken c.id.toList)
    {source : Source} (hsource : IsKey source.key.toList) :
    (postedIn t).countP (Reply.answers source) ≤
      if source.key ∈ answeredKeys facts.comments settings.botAccount then 0 else 1 := by
  have hnamed : Comment.Named (Comment.ofOthers settings.botAccount facts.comments) :=
    Comment.Named.sublist ⟨hids, hwords⟩ List.filter_sublist
  refine Nat.le_trans ?_ (Plan.countP_replies_le hnamed hsource context)
  rw [h.posted, h.replies, List.map_append]
  exact (List.sublist_append_left _ _).countP_le

/-- **A pass that completes leaves what it saw answered.** -/
theorem Carried.answered (h : Carried who settings context w s t facts sent [] s')
    (hbot : w.forge.bot = settings.botAccount)
    (hsound : SoundWatermark settings.botAccount context.watermark s.comments)
    (hafter : Comment.NumberedAfter s.comments facts.comments)
    (hsub : s.comments ⊆ facts.comments) (hsub' : facts.comments ⊆ s'.comments)
    (hwords : ∀ c ∈ facts.comments, Unbroken c.id.toList) :
    ∀ i ∈ Invocation.extract facts.change facts.comments settings.botAccount,
      i.source.key ∈ answeredKeys s'.comments settings.botAccount := by
  intro i hi
  have hkey := Invocation.isKey_of_mem_extract hwords hi
  by_cases howed : Plan.isOwed context.watermark
      (answeredKeys facts.comments settings.botAccount) i = true
  · -- the reply was posted
    have hsent : ∃ ruling, (i.source.key, Reply.render i ruling) ∈ sent := by
      rw [← List.append_nil sent, ← h.replies]
      exact ⟨_, List.mem_map.mpr ⟨i, List.mem_filter.mpr ⟨hi, howed⟩, rfl⟩⟩
    obtain ⟨ruling, hsent⟩ := hsent
    obtain ⟨c, hc, hauthor, hbody⟩ := h.stands _ hsent
    refine Reply.mem_answeredKeys_of_answers hkey hc (hauthor.trans hbot) ?_
    rw [hbody]
    exact (Reply.answers_render hkey hkey _).mpr rfl
  · -- it is answered already, or below the watermark
    by_cases hmem : i.source.key ∈ answeredKeys facts.comments settings.botAccount
    · exact answeredKeys_mono hsub' hmem
    obtain ⟨id, m, hid, hm, hle⟩ := Plan.not_isOwed howed hmem
    rcases Invocation.of_mem_extract hi with hd | ⟨c, hc, hauthor, hi⟩
    · rw [Invocation.of_ofDescription? hd] at hid
      cases hid
    · obtain ⟨hsource, hmoment⟩ := Invocation.of_ofComment? hi
      rw [hmoment] at hle
      have hc := hsound.mem_of_le hafter hm hc hle
      rw [hsource]
      exact answeredKeys_mono (fun _ h => hsub' (hsub h))
        (hsound.passed m hm c hc hauthor (by rw [hi]; rfl) hle)

end Pass

/-! ### Runs -/

/-- **What holds between the passes of a run** that began with the comments `cs₀` and has posted
`bodies`: the replies stand, no source has got a second one, and the watermark is sound. -/
structure Answering (bot : Account) (id : String) (cs₀ : List Comment) (w : World) (s : Snapshot)
    (bodies : List String) : Prop where
  stand : ∀ body ∈ bodies, ∃ c ∈ s.comments, c.author = bot ∧ c.body = body
  once : ∀ source : Source, IsKey source.key.toList →
    bodies.countP (Reply.answers source) ≤ if source.key ∈ answeredKeys cs₀ bot then 0 else 1
  sound : SoundWatermark bot (w.memory.contextOf id).watermark s.comments

namespace Answering

variable {bot : Account} {id : String} {cs₀ : List Comment} {w w' : World} {s s' : Snapshot}
  {bodies : List String}

/-- The replies go on standing while the change request grows. -/
theorem stand_of_subset (h : Answering bot id cs₀ w s bodies) {ds : List Comment}
    (hsub : s.comments ⊆ ds) :
    ∀ body ∈ bodies, ∃ c ∈ ds, c.author = bot ∧ c.body = body := fun body hb => by
  obtain ⟨c, hc, hcb⟩ := h.stand body hb
  exact ⟨c, hsub hc, hcb⟩

/-- Where nothing is posted and the context stays, growth preserves it. -/
theorem grow (h : Answering bot id cs₀ w s bodies)
    (hcontext : w'.memory.contextOf id = w.memory.contextOf id) (hsub : s.comments ⊆ s'.comments)
    (hafter : Comment.NumberedAfter s.comments s'.comments) :
    Answering bot id cs₀ w' s' bodies :=
  ⟨h.stand_of_subset hsub, h.once, hcontext ▸ h.sound.grow hsub hafter⟩

variable {who : Account → Prop} {r : Reconciler} {t : Pass.Trace}

/-- **What a pass posts** are first replies, which stand. -/
theorem posted {context : Context} {facts : Facts} {sent unsent : List (String × String)}
    (h : Answering bot id cs₀ w s bodies)
    (hc : Pass.Carried who r.settings context w s t facts sent unsent s')
    (hbot : bot = r.settings.botAccount) (hforge : w.forge.bot = bot)
    (h₀ : Comment.Continues who cs₀ s.comments) (ho : Comment.Orderly cs₀ s'.comments) :
    (∀ body ∈ bodies ++ Pass.postedIn t, ∃ c ∈ s'.comments, c.author = bot ∧ c.body = body) ∧
      ∀ source : Source, IsKey source.key.toList →
        (bodies ++ Pass.postedIn t).countP (Reply.answers source) ≤
          if source.key ∈ answeredKeys cs₀ bot then 0 else 1 := by
  obtain ⟨hseen, hrest, ho'⟩ := hc.orderly_seen h₀ ho
  constructor
  · intro body hb
    rcases List.mem_append.mp hb with hb | hb
    · exact h.stand_of_subset (hseen.trans hrest).subset body hb
    · rw [hc.posted] at hb
      obtain ⟨x, hx, rfl⟩ := List.mem_map.mp hb
      obtain ⟨c, hcs, hauthor, hbody⟩ := hc.stands x hx
      exact ⟨c, hcs, hauthor.trans hforge, hbody⟩
  · intro source hsource
    have hsent := hc.countP_posted_le ho'.ids ho'.words hsource
    rw [← hbot] at hsent
    exact Reply.countP_append_le hsource (h₀.trans hseen).subset
      (h.stand_of_subset hseen.subset) (h.once source hsource) hsent

/-- What a pass that completed has left: every command that it saw is answered. -/
def Settled (bot : Account) (id : String) (p : PassRecord) : Prop :=
  ∀ report, p.result = .ok (.completed report) → ∃ change comments s,
    Pass.changesIn p.trace = [change] ∧ Pass.commentsIn p.trace = [comments] ∧
    p.after.forge.snapshot? id = some s ∧
    ∀ i ∈ Invocation.extract change comments bot, i.source.key ∈ answeredKeys s.comments bot

/-- **A pass preserves it**, however it ends; if it completes, what it saw is answered. -/
theorem pass (h : Answering bot id cs₀ w s bodies)
    (h₀ : Comment.Continues who cs₀ s.comments) (hbot : bot = r.settings.botAccount)
    (hforge : w.forge.bot = bot) {result : Except Failure PassResult}
    (hkept : Reconciler.Kept who id w s w' s') (ho : Comment.Orderly cs₀ s'.comments)
    (hends : Reconciler.Ends who r id w s t w' s' result) :
    Answering bot id cs₀ w' s' (bodies ++ Pass.postedIn t) ∧ Settled bot id ⟨w, t, result, w'⟩ := by
  have hsub := hkept.grows.comments.subset
  have hafter := ho.numberedAfter h₀ hkept.grows.comments
  cases hends with
  | fruitless e hposted hcontext =>
    rw [hposted, List.append_nil]
    exact ⟨h.grow hcontext hsub hafter, fun report hr => by cases hr⟩
  | @broken e facts sent unsent hc hcontext =>
    obtain ⟨hstand, honce⟩ := h.posted hc hbot hforge h₀ ho
    exact ⟨⟨hstand, honce, hcontext ▸ h.sound.grow hsub hafter⟩, fun report hr => by cases hr⟩
  | @completed facts sent hc hcontext =>
    obtain ⟨hstand, honce⟩ := h.posted hc hbot hforge h₀ ho
    obtain ⟨hseen, hrest, ho'⟩ := hc.orderly_seen h₀ ho
    have hanswered := hc.answered (hforge.trans hbot) (hbot ▸ h.sound) (ho'.numberedAfter h₀ hseen)
      hseen.subset hrest.subset ho'.words
    rw [← hbot] at hanswered
    refine ⟨⟨hstand, honce, ?_⟩, fun report hr => ⟨facts.change, facts.comments, s',
      hc.gathered.changes, hc.gathered.comments, hkept.hosts.snapshot, hanswered⟩⟩
    rw [hcontext]
    refine h.sound.next hseen.subset hrest.subset (ho.numberedAfter (h₀.trans hseen) hrest)
      fun c hcs hauthor hcommand => ?_
    obtain ⟨i, hi⟩ := Option.isSome_iff_exists.mp hcommand
    rw [← (Invocation.of_ofComment? hi).1]
    exact hanswered i (Invocation.mem_extract_of_comment hcs hauthor hi)

/-- The replies that the passes of a run have posted. -/
def postedBy (ps : List PassRecord) : List String := ps.flatMap fun p => Pass.postedIn p.trace

/-- **A run preserves it.** -/
theorem run {users : Account → Prop} (husers : ∀ a, users a → who a) {w₀ : World} {s₀ : Snapshot}
    {ps : List PassRecord} (hs : w₀.Hosts who id s₀) (hm : w₀.memory = .empty)
    (hbot : w₀.forge.bot = r.settings.botAccount) (h : Run users r id w₀ ps w) :
    ∃ s, Reconciler.Kept who id w₀ s₀ w s ∧ (Comment.Orderly s₀.comments s.comments →
      Answering w₀.forge.bot id s₀.comments w s (postedBy ps) ∧
        ∀ p ∈ ps, Settled w₀.forge.bot id p) := by
  refine Reconciler.invariant_run (P := fun ps w s => Comment.Orderly s₀.comments s.comments →
    Answering w₀.forge.bot id s₀.comments w s (postedBy ps) ∧
      ∀ p ∈ ps, Settled w₀.forge.bot id p)
    husers hs (hm ▸ Memory.wellPlaced_empty) ?start ?act ?restart ?pass h
  case start => exact fun _ => ⟨⟨by simp [postedBy], fun _ _ => Nat.zero_le _, .fresh hm⟩, by simp⟩
  case act =>
    intro ps w s w' s' hk hk' hmemory ih ho
    have hc := hk'.grows.comments
    obtain ⟨hanswering, hsettled⟩ := ih (ho.of_continues hk.grows.comments hc)
    exact ⟨hanswering.grow (by rw [hmemory]) hc.subset (ho.numberedAfter hk.grows.comments hc),
      hsettled⟩
  case restart =>
    intro ps w s hk ih ho
    obtain ⟨hanswering, hsettled⟩ := ih ho
    exact ⟨⟨hanswering.stand, hanswering.once, .fresh rfl⟩, hsettled⟩
  case pass =>
    intro ps w s t result w' s' hk hk' hends ih ho
    obtain ⟨hanswering, hsettled⟩ := ih (ho.of_continues hk.grows.comments hk'.grows.comments)
    obtain ⟨hpass, hlast⟩ := hanswering.pass hk.grows.comments hbot hk.bot hk' ho hends
    refine ⟨by simpa [postedBy] using hpass, fun p hp => ?_⟩
    rcases List.mem_append.mp hp with hp | hp
    · exact hsettled p hp
    · exact List.mem_singleton.mp hp ▸ hlast

end Answering

/-- **A run answers every command once.** Whatever users write between the questions of its passes,
whatever calls fail and however often the reconciler is replaced, at most one reply is posted for a
source and none for one that was answered before; a pass that completes leaves what it saw answered;
and the watermark does not exceed the largest number of a comment. -/
theorem answered_once {r : Reconciler} {id : String} {forge : Forge} {census : RoleTable}
    {s final : Snapshot} {ps : List PassRecord} {w : World} (hs : forge.snapshot? id = some s)
    (hbot : forge.bot = r.settings.botAccount)
    (hrun : Run (fun _ => True) r id (World.start forge census) ps w)
    (hfinal : w.forge.snapshot? id = some final)
    (horderly : Comment.Orderly s.comments final.comments) :
    (∀ source : Source, IsKey source.key.toList →
      (Answering.postedBy ps).countP (Reply.answers source) ≤
        if source.key ∈ answeredKeys s.comments forge.bot then 0 else 1) ∧
    (∀ p ∈ ps, Answering.Settled forge.bot id p) ∧
    ∀ m, (w.memory.contextOf id).watermark = some m →
      ∃ c ∈ final.comments, m ≤ c.moment.sequence := by
  have hhosts : (World.start forge census).Hosts (fun _ => True) id s := ⟨hs, trivial, rfl⟩
  obtain ⟨final', hk, h⟩ := Answering.run (fun _ h => h) hhosts rfl hbot hrun
  obtain rfl : final' = final := Option.some.inj (hk.hosts.snapshot.symm.trans hfinal)
  obtain ⟨hanswering, hsettled⟩ := h horderly
  exact ⟨hanswering.once, hsettled, hanswering.sound.reached⟩

/-! ### A comment that arrives during a pass -/

/-- A forge with a change request of alice's on which nobody has written anything. -/
def quietForge : Forge :=
  (Forge.empty "revgate-bot").insert ⟨⟨"1", "alice", "", ⟨0⟩, Dict.empty⟩, [], []⟩

/-- A reconciler with default settings. -/
def plainReconciler : Reconciler := .ofSettings {}

/-- How the first pass over the change request ends, and the world right before it closes. -/
def firstPass : Except Failure PassEnd × World :=
  let e := Reconciler.enter "1" (World.start quietForge .empty)
  (plainReconciler.program (e.2.2.memory.slotAt e.1).context).run (World.answer "1" e.1 e.2.1) e.2.2

/-- The world after a first pass during which bob has written a command, too late to be fetched. -/
def afterFirstPass : World :=
  (Reconciler.close "1" 0 1 firstPass.1 (firstPass.2.comment "1" "bob" "/reviewers 2")).2

theorem run_afterFirstPass : ∃ ps, Run (fun _ => True) plainReconciler "1"
    (World.start quietForge .empty) ps afterFirstPass :=
  ⟨_, .pass .start (.intro (.trail (.ofRun _ _) (.single (.comment trivial "/reviewers 2"))))⟩

/-- The world after a second pass, by a fresh reconciler. -/
def afterSecondPass : World := (plainReconciler.runPass "1" afterFirstPass.restart).2

/-- Bob's command is answered once, and the reply stands. -/
theorem answered_once_afterSecondPass : ∃ ps, Run (fun _ => True) plainReconciler "1"
      (World.start quietForge .empty) ps afterSecondPass ∧
    (Answering.postedBy ps).countP (Reply.answers (.comment "c1")) = 1 ∧
    (∃ c ∈ afterSecondPass.forge.botComments "1", Reply.answers (.comment "c1") c.body = true) ∧
    ∀ p ∈ ps, Answering.Settled "revgate-bot" "1" p := by
  obtain ⟨ps, hrun⟩ := run_afterFirstPass
  have hfinal : (afterSecondPass.forge.snapshot? "1").any
      (fun final => decide (Comment.Orderly [] final.comments)) = true := by decide +kernel
  obtain ⟨final, hfinal, horderly⟩ := Option.any_eq_true _ _ |>.mp hfinal
  have hrun' := Reconciler.run_record hrun.restart
  obtain ⟨honce, hsettled, -⟩ := answered_once rfl rfl hrun' hfinal (of_decide_eq_true horderly)
  have hatMost := honce (.comment "c1") (Invocation.isKey_comment (by decide))
  have hsecond : 1 ≤ (Pass.postedIn
      (plainReconciler.record "1" afterFirstPass.restart).trace).countP
        (Reply.answers (.comment "c1")) := by decide +kernel
  have hatLeast : 1 ≤ (Answering.postedBy
      (ps ++ [plainReconciler.record "1" afterFirstPass.restart])).countP
        (Reply.answers (.comment "c1")) := by
    rw [Answering.postedBy, List.flatMap_append, List.countP_append, List.flatMap_singleton]
    exact Nat.le_add_left_of_le hsecond
  exact ⟨_, hrun', Nat.le_antisymm hatMost hatLeast, by decide +kernel, hsettled⟩

end ReviewQuorum
