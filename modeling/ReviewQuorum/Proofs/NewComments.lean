import ReviewQuorum.Proofs.PastRulings
import ReviewQuorum.Proofs.Resumption

/-! # New comments

A forge names a new comment after the number it gets, one more than the largest there is, and dates
it after everything that has happened. Its date is always new. Its number is new unless the numbers
of 64 bits run out, and so is its identifier as far as the comments are concerned that the forge has
named itself. But it has been filled with comments of any identifiers, and one of these may be that
of a number to come. Comments that are written one after another are new, each to the snapshot it is
written to, if and only if there is room for them (`Snapshot.all_newTo_iff`).

Where a comment is new, nothing that was decided or answered before is taken for its own
(`Comment.TakenForNone`); this holds for every comment that the calls of a forge write, as long as
there is room for it (`new_comments_iff`). -/

namespace ReviewQuorum

open Marker

/-! ### Calls that write comments -/

/-- A call to a forge that writes a comment. -/
inductive ForgeCall
  | add (author : Account) (body : String)
  | post (body : String)

namespace ForgeCall

/-- Who writes a comment, and what it says; posts are those of the forge's own account. -/
def text (bot : Account) : ForgeCall → Account × String
  | add author body => (author, body)
  | post body => (bot, body)

/-- The world after a call. -/
def make (id : String) (w : World) : ForgeCall → World
  | add author body => w.comment id author body
  | post body => (w.post id body).2

/-- The world after calls, one after another. -/
def makeAll (id : String) (w : World) (calls : List ForgeCall) : World := calls.foldl (make id) w

end ForgeCall

namespace Snapshot

/-- Comments that are written one after another, each with the snapshot it is written to. -/
def writings (s : Snapshot) : List (Account × String) → List (Snapshot × Comment)
  | [] => []
  | text :: texts =>
    (s, s.nextComment text.1 text.2) :: (s.commented text.1 text.2).writings texts

/-- The snapshot after comments have been written. -/
def written (s : Snapshot) (texts : List (Account × String)) : Snapshot :=
  { s with comments := s.comments ++ (s.writings texts).map (·.2) }

theorem written_nil (s : Snapshot) : s.written [] = s := by
  simp [written, writings]

theorem written_cons (s : Snapshot) (text : Account × String) (texts : List (Account × String)) :
    s.written (text :: texts) = (s.commented text.1 text.2).written texts := by
  simp [written, writings]

end Snapshot

/-- **One call** leaves the snapshot as it is, with a fault or where no second is left, or adds its
comment. -/
theorem ForgeCall.make_cases {id : String} {w : World} {s : Snapshot}
    (hs : w.forge.snapshot? id = some s) (call : ForgeCall) :
    (call.make id w).forge.bot = w.forge.bot ∧
      ((w.faults ≠ [] ∧ (call.make id w).forge.snapshot? id = some s) ∨
        (call.make id w).faults = w.faults ∧ (call.make id w).forge.snapshot? id =
          some (if 0 < s.secondsLeft then
            s.commented (call.text w.forge.bot).1 (call.text w.forge.bot).2 else s)) := by
  cases call with
  | add author body =>
    rw [make, World.comment, Forge.modify_eq hs, Snapshot.comment_eq]
    exact ⟨rfl, .inr ⟨rfl, Forge.snapshot?_put _ _ _⟩⟩
  | post body =>
    rw [make, World.post, World.onChange]
    rcases w.attempt_takes .postComment _ with ⟨f, faults, hlength, hc⟩ | hc
    · rw [hc]
      refine ⟨rfl, .inl ⟨fun hnone => ?_, hs⟩⟩
      rw [hnone] at hlength
      cases hlength
    · rw [hc, hs]
      simp only [World.addReply_eq]
      split_ifs with hleft
      · exact ⟨rfl, .inr ⟨rfl, Forge.snapshot?_put _ _ _⟩⟩
      · exact ⟨rfl, .inr ⟨rfl, hs⟩⟩

/-- **What calls write**: the comments of those that no fault has hit, as long as there is time. -/
theorem ForgeCall.makeAll_writes {id : String} {w : World} {s : Snapshot}
    (hs : w.forge.snapshot? id = some s) (calls : List ForgeCall) :
    ∃ texts, texts.Sublist (calls.map (text w.forge.bot)) ∧
      (w.faults = [] → texts = (calls.map (text w.forge.bot)).take s.secondsLeft) ∧
      (makeAll id w calls).forge.snapshot? id = some (s.written texts) := by
  induction calls generalizing w s with
  | nil => exact ⟨[], .slnil, fun _ => List.take_nil.symm, by rwa [Snapshot.written_nil]⟩
  | cons call calls ih =>
    obtain ⟨hbot, ⟨hfaults, hs'⟩ | ⟨hfaults, hs'⟩⟩ := make_cases hs call
    · obtain ⟨texts, hsub, -, hwritten⟩ := ih hs'
      rw [hbot] at hsub
      exact ⟨texts, hsub.cons _, fun hnone => absurd hnone hfaults, hwritten⟩
    split_ifs at hs' with hleft
    · obtain ⟨texts, hsub, hall, hwritten⟩ := ih hs'
      rw [hbot] at hsub hall
      refine ⟨call.text w.forge.bot :: texts, hsub.cons_cons _, fun hnone => ?_, ?_⟩
      · obtain ⟨n, hn⟩ := Nat.exists_eq_add_of_lt hleft
        rw [hall (hfaults.trans hnone), Snapshot.secondsLeft_commented, List.map_cons, hn]
        rfl
      · rwa [Snapshot.written_cons]
    · obtain ⟨texts, hsub, hall, hwritten⟩ := ih hs'
      rw [hbot] at hsub hall
      refine ⟨texts, hsub.cons _, fun hnone => ?_, hwritten⟩
      rw [hall (hfaults.trans hnone), Nat.eq_zero_of_not_pos hleft]
      rfl

/-! ### New to a snapshot -/

/-- A comment that is later than everything in a snapshot. -/
structure Comment.LaterThan (s : Snapshot) (c : Comment) : Prop where
  creation : s.change.createdAt.ticks < c.moment.timestamp.ticks
  comments : ∀ d ∈ s.comments, d.moment.timestamp.ticks < c.moment.timestamp.ticks
  reviews : ∀ r ∈ s.reviews, r.moment.timestamp.ticks < c.moment.timestamp.ticks

/-- A comment whose identifier and number are new to a snapshot. -/
structure Comment.NewTo (s : Snapshot) (c : Comment) : Prop where
  id : ∀ d ∈ s.comments, d.id ≠ c.id
  number : ∀ d ∈ s.comments, d.moment.sequence < c.moment.sequence

namespace Snapshot

variable {s : Snapshot} {author : Account} {body : String}

theorem laterThan_nextComment (s : Snapshot) (author : Account) (body : String) :
    (s.nextComment author body).LaterThan s := by
  have hnext : s.lastActivity.ticks < (s.nextComment author body).moment.timestamp.ticks :=
    Timestamp.ticks_lt_nextSecond s.lastActivity
  obtain ⟨hcreation, hall⟩ : s.change.createdAt.ticks ≤ s.lastActivity.ticks ∧
      ∀ t ∈ s.comments.map (·.moment.timestamp) ++ s.reviews.map (·.moment.timestamp),
        t.ticks ≤ s.lastActivity.ticks := Timestamp.ticks_le_foldl_max _ _
  rw [List.forall_mem_append, List.forall_mem_map, List.forall_mem_map] at hall
  exact ⟨Int.lt_of_le_of_lt hcreation hnext, fun d hd => Int.lt_of_le_of_lt (hall.1 d hd) hnext,
    fun r hr => Int.lt_of_le_of_lt (hall.2 r hr) hnext⟩

/-- The largest number of a comment, or zero. -/
def lastNumber (s : Snapshot) : Nat := (Comment.lastSequence? s.comments).getD 0

/-- **Room for a number of new comments**: the numbers do not run out, and none of the identifiers
is taken. -/
structure HasRoom (s : Snapshot) (n : Nat) : Prop where
  numbers : s.lastNumber + n < UInt64.size
  ids : ∀ c ∈ s.comments, ∀ k, s.lastNumber < k → k ≤ s.lastNumber + n →
    c.id ≠ "c" ++ Decimal.ofNat k

theorem laterThan_of_mem_writings (texts : List (Account × String)) :
    ∀ e ∈ s.writings texts, e.2.LaterThan e.1 := by
  induction texts generalizing s with
  | nil => exact nofun
  | cons text texts ih => exact List.forall_mem_cons.mpr ⟨s.laterThan_nextComment _ _, ih⟩

theorem le_lastNumber {c : Comment} (hc : c ∈ s.comments) : c.moment.sequence ≤ s.lastNumber :=
  Comment.sequence_le_lastSequence hc

theorem exists_of_lastNumber_pos (h : 0 < s.lastNumber) :
    ∃ c ∈ s.comments, c.moment.sequence = s.lastNumber := by
  unfold lastNumber at h ⊢
  cases hn : Comment.lastSequence? s.comments with
  | none => simp [hn] at h
  | some n => exact List.mem_map.mp (List.max?_eq_some_iff.mp hn).1

theorem lastNumber_lt (hfits : ∀ c ∈ s.comments, c.moment.sequence < UInt64.size) :
    s.lastNumber < UInt64.size := Comment.lastSequence_lt hfits

theorem fits_commented (hfits : ∀ c ∈ s.comments, c.moment.sequence < UInt64.size) :
    ∀ c ∈ (s.commented author body).comments, c.moment.sequence < UInt64.size := by
  intro c hc
  rcases List.mem_append.mp hc with hc | hc
  · exact hfits c hc
  · rw [List.mem_singleton.mp hc]
    exact Nat.mod_lt _ (by decide)

theorem sequence_nextComment (h : s.lastNumber + 1 < UInt64.size) (author : Account)
    (body : String) : (s.nextComment author body).moment.sequence = s.lastNumber + 1 :=
  Nat.mod_eq_of_lt h

theorem id_nextComment (h : s.lastNumber + 1 < UInt64.size) (author : Account) (body : String) :
    (s.nextComment author body).id = "c" ++ Decimal.ofNat (s.lastNumber + 1) :=
  congrArg (fun n => "c" ++ Decimal.ofNat n) (Nat.mod_eq_of_lt h)

theorem lastNumber_commented (h : s.lastNumber + 1 < UInt64.size) (author : Account)
    (body : String) : (s.commented author body).lastNumber = s.lastNumber + 1 := by
  have hnumber := sequence_nextComment h author body
  have hmax : Comment.lastSequence? (s.commented author body).comments =
      some (s.lastNumber + 1) := by
    refine List.max?_eq_some_iff.mpr ⟨?_, fun k hk => ?_⟩
    · exact List.mem_map.mpr ⟨s.nextComment author body, by simp, hnumber⟩
    · obtain ⟨c, hc, rfl⟩ := List.mem_map.mp hk
      rcases List.mem_append.mp hc with hc | hc
      · exact Nat.le_succ_of_le (le_lastNumber hc)
      · rw [List.mem_singleton.mp hc]
        exact Nat.le_of_eq hnumber
  rw [lastNumber, hmax, Option.getD_some]

theorem id_injective {j k : Nat} (h : "c" ++ Decimal.ofNat j = "c" ++ Decimal.ofNat k) :
    j = k := Decimal.ofNat_injective ((String.append_right_inj _).mp h)

/-- **When the next comment is new.** -/
theorem newTo_nextComment_iff (hfits : ∀ c ∈ s.comments, c.moment.sequence < UInt64.size) :
    (s.nextComment author body).NewTo s ↔ s.HasRoom 1 := by
  have hlast := s.lastNumber_lt hfits
  constructor
  · intro h
    have hnumbers : s.lastNumber + 1 < UInt64.size := by
      -- otherwise the number is zero, and not above that of the comment with the largest one
      by_contra hfull
      have hsize : s.lastNumber + 1 = UInt64.size := Nat.le_antisymm hlast (Nat.not_lt.mp hfull)
      have hzero : (s.nextComment author body).moment.sequence = 0 := by
        change (s.lastNumber + 1) % UInt64.size = 0
        rw [hsize, Nat.mod_self]
      obtain ⟨c, hc, -⟩ : ∃ c ∈ s.comments, c.moment.sequence = s.lastNumber := by
        refine exists_of_lastNumber_pos (Nat.pos_of_ne_zero fun hnone => ?_)
        rw [hnone] at hfull
        exact hfull (by decide)
      have hbelow := h.number c hc
      omega
    refine ⟨hnumbers, fun c hc k hlow hhigh => ?_⟩
    obtain rfl : k = s.lastNumber + 1 := by omega
    exact id_nextComment hnumbers author body ▸ h.id c hc
  · rintro ⟨hnumbers, hids⟩
    refine ⟨fun d hd => ?_, fun d hd => ?_⟩
    · rw [id_nextComment hnumbers]
      exact hids d hd _ (Nat.lt_succ_self _) (Nat.le_refl _)
    · rw [sequence_nextComment hnumbers]
      exact Nat.lt_succ_of_le (le_lastNumber hd)

/-- **Room for one more.** -/
theorem hasRoom_succ_iff (n : Nat) (author : Account) (body : String) :
    s.HasRoom (n + 1) ↔ s.HasRoom 1 ∧ (s.commented author body).HasRoom n := by
  constructor
  · rintro ⟨hnumbers, hids⟩
    have hone : s.lastNumber + 1 < UInt64.size := by omega
    have hlast := lastNumber_commented hone author body
    refine ⟨⟨hone, fun c hc k hlow hhigh => hids c hc k hlow (by omega)⟩, ⟨by omega, ?_⟩⟩
    intro c hc k hlow hhigh
    rcases List.mem_append.mp hc with hc | hc
    · exact hids c hc k (by omega) (by omega)
    · rw [List.mem_singleton.mp hc, id_nextComment hone]
      intro hid
      have hk := id_injective hid
      omega
  · rintro ⟨⟨hone, hid⟩, ⟨hnumbers, hids⟩⟩
    have hlast := lastNumber_commented hone author body
    refine ⟨by omega, fun c hc k hlow hhigh => ?_⟩
    by_cases hk : k = s.lastNumber + 1
    · exact hid c hc k hlow (Nat.le_of_eq hk)
    · exact hids c (List.mem_append_left _ hc) k (by omega) (by omega)

/-- **Comments that are written one after another are new, if and only if there is room for them.**
-/
theorem all_newTo_iff (hfits : ∀ c ∈ s.comments, c.moment.sequence < UInt64.size)
    (texts : List (Account × String)) :
    (∀ e ∈ s.writings texts, e.2.NewTo e.1) ↔ s.HasRoom texts.length := by
  induction texts generalizing s with
  | nil =>
    refine iff_of_true nofun ⟨s.lastNumber_lt hfits, fun c hc k hlow hhigh => ?_⟩
    rw [List.length_nil] at hhigh
    omega
  | cons text texts ih =>
    rw [writings, List.forall_mem_cons, newTo_nextComment_iff hfits, ih (fits_commented hfits),
      List.length_cons, hasRoom_succ_iff texts.length text.1 text.2]

theorem nodup_written {texts : List (Account × String)} (hids : (s.comments.map (·.id)).Nodup)
    (hnew : ∀ e ∈ s.writings texts, e.2.NewTo e.1) :
    ((s.written texts).comments.map (·.id)).Nodup := by
  induction texts generalizing s with
  | nil => rwa [written_nil]
  | cons text texts ih =>
    rw [writings, List.forall_mem_cons] at hnew
    have hid : (s.nextComment text.1 text.2).id ∉ s.comments.map (·.id) := by
      rw [List.mem_map]
      rintro ⟨d, hd, heq⟩
      exact hnew.1.id d hd heq
    have hadded : ((s.commented text.1 text.2).comments.map (·.id)).Nodup := by
      rw [comments_commented, List.map_append, List.map_singleton, ← List.concat_eq_append]
      exact hids.concat hid
    rw [written_cons]
    exact ih hadded hnew.2

end Snapshot

/-! ### New commands -/

theorem Invocation.source_of_mem_extract {change : ChangeRequest} {comments : List Comment}
    {bot : Account} {i : Invocation} (hi : i ∈ extract change comments bot) :
    i.source = .description ∨ ∃ d ∈ comments, i.source = .comment d.id := by
  rcases of_mem_extract hi with hi | ⟨d, hd, -, hi⟩
  · exact .inl (of_ofDescription? hi)
  · exact .inr ⟨d, hd, (of_ofComment? hi).1⟩

namespace Snapshot

variable {s : Snapshot} {bot : Account} {roleOf : Account → Option Role}

theorem source_of_mem_rulings {r : Ruling} (hr : r ∈ (s.ledger bot roleOf).rulings) :
    ∃ i ∈ Invocation.extract s.change s.comments bot, i.source = r.source := by
  obtain ⟨c, hc, hsource⟩ := Ledger.source_of_mem_replay hr
  obtain ⟨i, hi, hcommand⟩ := List.mem_filterMap.mp hc
  obtain ⟨q, -, rfl⟩ := Option.map_eq_some_iff.mp hcommand
  exact ⟨i, hi, hsource⟩

/-- The markers of an account are of the sources there are. -/
def MarksOwn (bot : Account) (s : Snapshot) : Prop :=
  ∀ k ∈ answeredKeys s.comments bot,
    k = Source.description.key ∨ ∃ d ∈ s.comments, k = (Source.comment d.id).key

end Snapshot

/-- **A comment whose command is taken for no other one**: no invocation of the snapshot it is
written to has its key, nothing is decided under its identifier, and it is owed a reply if the
markers of the bot and the watermark are those of comments before it. -/
structure Comment.TakenForNone (s : Snapshot) (c : Comment) : Prop where
  apart : ∀ bot, ∀ i ∈ Invocation.extract s.change s.comments bot,
    i.source.key ≠ (Source.comment c.id).key
  undecided : ∀ bot roleOf, (s.ledger bot roleOf).rulingFor? (.comment c.id) = none
  owed : ∀ bot watermark i, c.author ≠ bot → Invocation.ofComment? c = some i → s.MarksOwn bot →
    (∀ m ∈ watermark, m ≤ s.lastNumber) →
      i ∈ ({ s with comments := s.comments ++ [c] } : Snapshot).owed bot watermark

theorem Comment.NewTo.takenForNone {s : Snapshot} {c : Comment} (h : c.NewTo s)
    (hnumber : s.lastNumber < c.moment.sequence) : c.TakenForNone s := by
  have hsource {bot : Account} {i : Invocation}
      (hi : i ∈ Invocation.extract s.change s.comments bot) : i.source ≠ .comment c.id := by
    rcases Invocation.source_of_mem_extract hi with hd | ⟨d, hd, hid⟩
    · rw [hd]
      exact nofun
    · rw [hid]
      exact fun heq => h.id d hd (Source.comment.inj heq)
  refine ⟨fun bot i hi hkey => hsource hi (Source.key_injective hkey), fun bot roleOf => ?_, ?_⟩
  · rw [Ledger.rulingFor?, List.find?_eq_none]
    intro r hr heq
    obtain ⟨i, hi, hir⟩ := Snapshot.source_of_mem_rulings hr
    exact hsource hi (hir.trans (by simpa using heq))
  · intro bot watermark i hauthor hi hmarks hwatermark
    obtain ⟨hid, hmoment⟩ := Invocation.of_ofComment? hi
    have hkeys : answeredKeys (s.comments ++ [c]) bot = answeredKeys s.comments bot := by
      simp [answeredKeys, List.filter_append, hauthor]
    have hunanswered : i.source.key ∉ answeredKeys s.comments bot := by
      intro hk
      rw [hid] at hk
      rcases hmarks _ hk with hd | ⟨d, hd, heq⟩
      · cases Source.key_injective hd
      · exact h.id d hd (Source.comment.inj (Source.key_injective heq)).symm
    refine List.mem_filter.mpr ⟨Invocation.mem_extract_of_comment (by simp) hauthor hi, ?_⟩
    by_contra hnot
    rw [hkeys] at hnot
    obtain ⟨-, m, -, hm, hle⟩ := Plan.not_isOwed hnot hunanswered
    have := hwatermark m hm
    rw [hmoment] at hle
    omega

/-- **The commands in comments for which there is room** are taken for no other ones. -/
theorem Snapshot.takenForNone_of_hasRoom {s : Snapshot} {texts : List (Account × String)}
    (hfits : ∀ c ∈ s.comments, c.moment.sequence < UInt64.size) (h : s.HasRoom texts.length) :
    ∀ e ∈ s.writings texts, e.2.TakenForNone e.1 := by
  induction texts generalizing s with
  | nil => exact nofun
  | cons text texts ih =>
    obtain ⟨hone, hrest⟩ := (hasRoom_succ_iff texts.length text.1 text.2).mp h
    have hnew : (s.nextComment text.1 text.2).NewTo s := (newTo_nextComment_iff hfits).mpr hone
    have hnumber : s.lastNumber < (s.nextComment text.1 text.2).moment.sequence := by
      rw [sequence_nextComment hone.numbers]
      exact Nat.lt_succ_self _
    exact List.forall_mem_cons.mpr
      ⟨hnew.takenForNone hnumber, ih (fits_commented hfits) hrest⟩

/-- **New comments get identities of their own.** Calls that write comments to a change request,
where a fault may hit a post, leave it with the comments of all other calls in a row, as long as
there is a second for each. Each is later than everything before it. All are new, by identifier and
number, if and only if there is room for them. Then all identifiers are distinct in the end, and the
command in a comment that was written is taken for none that was there before. -/
theorem new_comments_iff {id : String} {w : World} {s : Snapshot}
    (hs : w.forge.snapshot? id = some s)
    (hfits : ∀ c ∈ s.comments, c.moment.sequence < UInt64.size)
    (hids : (s.comments.map (·.id)).Nodup) (calls : List ForgeCall) :
    ∃ texts, texts.Sublist (calls.map (ForgeCall.text w.forge.bot)) ∧
      (w.faults = [] → texts = (calls.map (ForgeCall.text w.forge.bot)).take s.secondsLeft) ∧
      (ForgeCall.makeAll id w calls).forge.snapshot? id = some (s.written texts) ∧
      (∀ e ∈ s.writings texts, e.2.LaterThan e.1) ∧
      ((∀ e ∈ s.writings texts, e.2.NewTo e.1) ↔ s.HasRoom texts.length) ∧
      (s.HasRoom texts.length → ((s.written texts).comments.map (·.id)).Nodup ∧
        ∀ e ∈ s.writings texts, e.2.TakenForNone e.1) := by
  obtain ⟨texts, hsub, hall, hwritten⟩ := ForgeCall.makeAll_writes hs calls
  refine ⟨texts, hsub, hall, hwritten, Snapshot.laterThan_of_mem_writings texts,
    Snapshot.all_newTo_iff hfits texts, fun hroom => ⟨?_, ?_⟩⟩
  · exact Snapshot.nodup_written hids ((Snapshot.all_newTo_iff hfits texts).mpr hroom)
  · exact Snapshot.takenForNone_of_hasRoom hfits hroom

/-- A change request with one comment, which the forge has not named. -/
def greetedSnapshot : Snapshot where
  change := ⟨"1", "alice", "", ⟨0⟩, Dict.empty⟩
  comments := [⟨"x1", "bob", "hello", ⟨⟨1⟩, 4⟩⟩]
  reviews := []

/-- There is room for a command of alice's and a reply. -/
theorem new_comments_iff_greeted :
    let w := World.start ((Forge.empty "revgate-bot").insert greetedSnapshot) .empty
    let calls : List ForgeCall := [.add "alice" "/reviewers 2", .post "hi"]
    let texts := [("alice", "/reviewers 2"), ("revgate-bot", "hi")]
    (w.forge.snapshot? "1" = some greetedSnapshot ∧
      (∀ c ∈ greetedSnapshot.comments, c.moment.sequence < UInt64.size) ∧
      (greetedSnapshot.comments.map (·.id)).Nodup ∧ greetedSnapshot.HasRoom 2) ∧
    (greetedSnapshot.written texts).comments.map (·.id) = ["x1", "c5", "c6"] ∧
    (ForgeCall.makeAll "1" w calls).forge.snapshot? "1" = some (greetedSnapshot.written texts) ∧
    ∀ e ∈ greetedSnapshot.writings texts, e.2.LaterThan e.1 ∧ e.2.NewTo e.1 ∧
      e.2.TakenForNone e.1 := by
  intro w calls texts
  have hs : w.forge.snapshot? "1" = some greetedSnapshot := by decide
  have hfits : ∀ c ∈ greetedSnapshot.comments, c.moment.sequence < UInt64.size := by decide
  have hids : (greetedSnapshot.comments.map (·.id)).Nodup := by decide
  have hroom : greetedSnapshot.HasRoom 2 := by
    refine ⟨by decide, fun c hc k _ _ hid => ?_⟩
    rw [List.mem_singleton.mp hc] at hid
    have hhead := congrArg (fun id => id.toList.head?) hid
    simp at hhead
  obtain ⟨written, -, hall, hwritten, hlater, hnew, hdistinct⟩ :=
    new_comments_iff hs hfits hids calls
  obtain rfl : written = texts := (hall rfl).trans (List.take_of_length_le (by decide))
  exact ⟨⟨hs, hfits, hids, hroom⟩, by decide +kernel, hwritten,
    fun e he => ⟨hlater e he, hnew.mpr hroom e he, (hdistinct hroom).2 e he⟩⟩

/-- A change request that was loaded with a command of alice's under the identifier of a comment to
come, and with the marker of the reply to it. -/
def loadedSnapshot : Snapshot where
  change := ⟨"1", "alice", "", ⟨0⟩, Dict.empty⟩
  comments := [⟨"c3", "alice", "/reviewers 2", ⟨⟨1⟩, 1⟩⟩,
    ⟨"c2", "revgate-bot", "<!-- revgate-reply: comment:c3 -->", ⟨⟨2⟩, 2⟩⟩]
  reviews := []

/-- Alice's next command gets the identifier of her first one, and with it the ruling and the reply.
-/
theorem next_comment_named_again :
    let w := World.start ((Forge.empty "revgate-bot").insert loadedSnapshot) .empty
    let s' := loadedSnapshot.commented "alice" "/reviewers 3"
    (w.forge.snapshot? "1" = some loadedSnapshot ∧ (loadedSnapshot.comments.map (·.id)).Nodup ∧
      loadedSnapshot.lastNumber + 1 < UInt64.size) ∧
    (ForgeCall.makeAll "1" w [.add "alice" "/reviewers 3"]).forge.snapshot? "1" = some s' ∧
    s'.comments.map (·.id) = ["c3", "c2", "c3"] ∧
    ((loadedSnapshot.ledger "revgate-bot" w.census.roleOf).rulingFor? (.comment "c3")).isSome ∧
    (Source.comment "c3").key ∈ answeredKeys loadedSnapshot.comments "revgate-bot" := by
  refine ⟨⟨by decide, by decide, by decide⟩, by decide +kernel, by decide +kernel,
    by decide +kernel, by decide +kernel⟩

end ReviewQuorum
