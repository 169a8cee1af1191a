import ReviewQuorum.Proofs.SolePass
import ReviewQuorum.Round

/-! # The turns of a pass

A pass in a round stops when it pauses and, out of courtesy, before it fetches reviews. Nothing else
stops it, so of a pass that nothing fails there is one stop at most, and a transient failure leads
to two more: the pause, and the reviews if it is they that are asked for again.

`Inquiry.Affords` keeps the account: a program has so many turns, pays one at every question where
it may stop, and is granted two by every transient failure. A pass can afford all its stops out of
one turn (`Pass.affords_program`), and worlds do not grant more than they have failures in store
(`World.grant_answer`). So the account of a pass that goes on to its next stop is covered
(`Inquiry.Affords.advance`). -/

namespace ReviewQuorum

/-- The turns that may end at a question. -/
def Query.turns : Query → Nat
  | reviews => 1
  | pause _ => 1
  | _ => 0

/-- The turns that the result of a call is worth. -/
def granted {α : Type} : Except Failure α → Nat
  | .ok _ => 0
  | .error f => if f.transient then 2 else 0

/-- The turns that an answer is worth. -/
def Query.grant : (q : Query) → q.Answer → Nat
  | changeRequest, a => granted a
  | comments, a => granted a
  | reviews, a => granted a
  | roleOf _, a => granted a
  | postComment _, a => granted a
  | setLabel _ _, a => granted a
  | isLatest, _ => 0
  | pause _, _ => 0

namespace Inquiry

variable {α β : Type} {spare : α → Nat} {k k' : Nat}

/-- **A program that can afford its stops** out of so many turns, whatever is answered, and has some
to spare at its end. -/
inductive Affords (spare : α → Nat) : Inquiry α → Nat → Prop
  | done {a : α} {k : Nat} (h : spare a ≤ k) : Affords spare (.done a) k
  | ask {q : Query} {next : q.Answer → Inquiry α} {k : Nat} (h : q.turns ≤ k)
    (hnext : ∀ a, Affords spare (next a) (k - q.turns + q.grant a)) : Affords spare (.ask q next) k

theorem Affords.of_ask {q : Query} {next : q.Answer → Inquiry α}
    (h : Affords spare (.ask q next) k) :
    q.turns ≤ k ∧ ∀ a, Affords spare (next a) (k - q.turns + q.grant a) := by
  cases h with
  | ask h hnext => exact ⟨h, hnext⟩

/-- At a question that may end a turn, one turn is paid. -/
theorem Affords.of_stop {q : Query} {next : q.Answer → Inquiry α} (hq : q.turns = 1)
    (h : Affords spare (.ask q next) k) :
    ∃ c, k = c + 1 ∧ ∀ a, Affords spare (next a) (c + q.grant a) := by
  obtain ⟨hturns, hnext⟩ := h.of_ask
  rw [hq] at hturns hnext
  exact ⟨k - 1, by omega, hnext⟩

theorem Affords.mono {spare' : α → Nat} {p : Inquiry α} (h : Affords spare p k)
    (hspare : ∀ a, spare' a ≤ spare a) (hk : k ≤ k') : Affords spare' p k' := by
  induction h generalizing k' with
  | done h => exact .done ((hspare _).trans (h.trans hk))
  | ask h hnext ih => exact .ask (h.trans hk) fun a => ih a (by omega)

theorem Affords.bind {spare' : β → Nat} {p : Inquiry α} {f : α → Inquiry β}
    (hp : Affords spare p k) (hf : ∀ a, Affords spare' (f a) (spare a)) :
    Affords spare' (p >>= f) k := by
  induction hp with
  | done h => exact (hf _).mono (fun _ => le_rfl) h
  | ask h hnext ih => exact .ask h ih

/-- What is left of a program where it stops can be afforded, if its answers are worth no more than
what `store` loses by them. -/
theorem Affords.advance {σ : Type} {stops : Query → σ → Bool}
    {answer : (q : Query) → σ → q.Answer × σ} {p : Inquiry α} (h : Affords spare p k)
    (store : σ → Nat)
    (hanswer : ∀ q s, q.grant (answer q s).1 + store (answer q s).2 ≤ store s) (s : σ) :
    ∃ k', Affords spare (p.advance stops answer s).1 k' ∧
      k' + store (p.advance stops answer s).2 ≤ k + store s ∧
      ∀ q next, (p.advance stops answer s).1 = .ask q next →
        stops q (p.advance stops answer s).2 = true := by
  induction p generalizing k s with
  | done a => exact ⟨k, h, le_rfl, nofun⟩
  | ask q next ih =>
    rw [Program.advance]
    split
    · rename_i hstops
      exact ⟨k, h, le_rfl, fun q' next' heq => by cases heq; exact hstops⟩
    · obtain ⟨k', hrest, hk', hstops⟩ := ih _ (h.of_ask.2 (answer q s).1) (answer q s).2
      have := hanswer q s
      exact ⟨k', hrest, by omega, hstops⟩

end Inquiry

/-! ### Passes -/

namespace Pass

open Inquiry (Affords)

variable {α β : Type} {m m' k : Nat}

/-- A call that may end a turn or not: its result is worth what it grants. -/
def Worth (turns : Nat) (call : Inquiry (Except Failure α)) : Prop :=
  ∀ m, Affords (fun r => m + granted r) call (turns + m)

/-- **Retries pay for themselves**: a transient failure grants the turn of the pause and that of the
next attempt. -/
theorem Worth.attempt {turns : Nat} {call : Inquiry (Except Failure α)} (h : Worth turns call)
    (hturns : turns ≤ 1) (retry : Retry) (left made : Nat) :
    Affords (fun _ => m) (retry.attempt (fun ms => inquire (.pause ms)) call left made)
      (turns + m) := by
  induction left generalizing made with
  | zero => exact (h m).mono (fun r => Nat.le_add_right m _) le_rfl
  | succ left ih =>
    rw [Retry.attempt]
    refine (h m).bind fun r => ?_
    cases r with
    | ok v => exact .done le_rfl
    | error e =>
      cases he : e.transient with
      | false =>
        simp only [he, Bool.false_eq_true, if_false]
        exact .done (Nat.le_add_right m _)
      | true =>
        simp only [he, if_true, granted]
        have hpause : Query.turns (.pause (retry.backoff (made + 1))) ≤ m + 2 := by
          rw [Query.turns]
          omega
        refine .ask hpause fun _ => (ih (made + 1)).mono (fun _ => le_rfl) ?_
        rw [Query.turns, Query.grant]
        omega

theorem Worth.call {turns : Nat} {q : Inquiry (Except Failure α)} (h : Worth turns q)
    (hturns : turns ≤ 1) (retry : Retry) :
    Affords (fun _ => m) (call retry q).run (turns + m) :=
  h.attempt hturns retry _ _

theorem affords_call {q : Inquiry (Except Failure α)} (h : Worth 0 q) (retry : Retry) :
    Affords (fun _ => m) (call retry q).run m := by
  have := h.call (m := m) (Nat.zero_le 1) retry
  rwa [Nat.zero_add] at this

theorem affords_attempt_bind {x : Attempt α} {f : α → Attempt β}
    (hx : Affords (fun _ => m) x.run k) (hf : ∀ a, Affords (fun _ => m') (f a).run m)
    (hm : m' ≤ m) : Affords (fun _ => m') (x >>= f).run k := by
  rw [ExceptT.run_bind]
  refine hx.bind fun r => ?_
  cases r with
  | ok a => exact hf a
  | error e => exact .done hm

theorem affords_pure (a : α) : Affords (fun _ => m) (pure a : Attempt α).run m := .done le_rfl

theorem worth_question {call : Inquiry (Except Failure α)} {q : Query}
    {result : q.Answer → Except Failure α} (hcall : call = .ask q fun a => .done (result a))
    (hresult : ∀ a, granted (result a) = q.grant a) : Worth q.turns call := by
  intro m
  rw [hcall]
  refine .ask (Nat.le_add_right _ _) fun a => .done ?_
  rw [hresult, Nat.add_sub_cancel_left]

theorem affords_isLatest :
    Affords (fun _ => m) (liftM (inquire .isLatest : Inquiry Bool) : Attempt Bool).run m := by
  have hasked : Affords (fun _ => m) (inquire .isLatest : Inquiry Bool) m :=
    .ask (Nat.zero_le m) fun _ => .done le_rfl
  exact hasked.bind fun latest => affords_pure latest

variable (retry : Retry)

theorem affords_resolveRoles (accounts : List Account) (table : RoleTable) :
    Affords (fun _ => m) (accounts.foldlM (resolveRole retry) table).run m := by
  have hrole (account : Account) : Worth 0 (inquire (.roleOf account)) :=
    worth_question rfl fun _ => rfl
  induction accounts generalizing table with
  | nil => exact affords_pure _
  | cons account accounts ih =>
    rw [List.foldlM_cons]
    refine affords_attempt_bind ?_ ih le_rfl
    refine affords_attempt_bind (affords_call (hrole account) retry) (fun role => ?_) le_rfl
    cases role with
    | none => exact affords_pure _
    | some role => exact affords_pure _

theorem affords_gather (settings : Settings) :
    Affords (fun _ => m) (gather settings retry).run (1 + m) := by
  have hchange : Worth 0 (inquire .changeRequest) := worth_question rfl fun _ => rfl
  have hcomments : Worth 0 (inquire .comments) := worth_question rfl fun _ => rfl
  have hreviews : Worth 1 (inquire .reviews) := worth_question rfl fun _ => rfl
  have hm : m ≤ 1 + m := Nat.le_add_left m 1
  refine affords_attempt_bind (affords_call hchange retry) (fun change => ?_) hm
  refine affords_attempt_bind (affords_call hcomments retry) (fun comments => ?_) hm
  refine affords_attempt_bind (hreviews.call le_rfl retry) (fun reviews => ?_) le_rfl
  refine affords_attempt_bind (affords_resolveRoles retry _ _) (fun roles => ?_) le_rfl
  exact affords_pure _

theorem affords_carryOut (settings : Settings) (plan : Plan) :
    Affords (fun _ => m) (carryOut settings retry plan).run m := by
  have hposts (replies : List (String × String)) :
      Affords (fun _ => m) (postAll retry replies).run m := by
    induction replies with
    | nil => exact affords_pure _
    | cons reply replies ih =>
      have hpost : Worth 0 (inquire (.postComment reply.2)) := worth_question rfl fun _ => rfl
      exact affords_attempt_bind (affords_call hpost retry) (fun _ => ih) le_rfl
  refine affords_attempt_bind (hposts plan.replies) (fun _ => ?_) le_rfl
  cases plan.labelChange with
  | none => exact affords_pure _
  | some present =>
    have hlabel : Worth 0 (inquire (.setLabel settings.readyLabel present)) :=
      worth_question rfl fun _ => rfl
    exact affords_call hlabel retry

/-- **A pass can afford its stops out of one turn.** -/
theorem affords_program (settings : Settings) (context : Context) :
    Affords (fun _ => 0) (program settings retry context).run 1 := by
  refine affords_attempt_bind (affords_gather retry settings) (fun facts => ?_) le_rfl
  refine affords_attempt_bind affords_isLatest (fun latest => ?_) le_rfl
  cases latest with
  | false => exact affords_pure _
  | true =>
    exact affords_attempt_bind (affords_carryOut retry settings _) (fun _ => affords_pure _) le_rfl

end Pass

/-! ### Worlds -/

namespace World

variable {w : World} {α : Type}

/-- The failures that a world has in store. -/
def failures (w : World) : Nat :=
  w.faults.length + w.interruptions.postFailure.toList.length

/-- A call takes a failure from the store for each that it ends with. -/
theorem granted_attempt (o : Operation) {go : World → Except Failure α × World}
    (h : granted (go w).1 + 2 * (go w).2.failures ≤ 2 * w.failures) :
    granted (w.attempt o go).1 + 2 * (w.attempt o go).2.failures ≤ 2 * w.failures := by
  rcases w.attempt_takes o go with ⟨f, faults, hfaults, hc⟩ | hc
  · rw [hc]
    have hgrant : granted (.error f : Except Failure α) ≤ 2 := by
      rw [granted]
      split <;> omega
    simp only [failures]
    omega
  · rw [hc]
    exact h

theorem granted_onChange (o : Operation) (id : String)
    {go : Snapshot → World → Except Failure α × World}
    (h : ∀ s, granted (go s w).1 + 2 * (go s w).2.failures ≤ 2 * w.failures) :
    granted (w.onChange o id go).1 + 2 * (w.onChange o id go).2.failures ≤ 2 * w.failures := by
  refine granted_attempt o ?_
  split
  · -- a change request that is not known is not asked for again
    exact (Nat.zero_add _).le
  · exact h _

theorem failures_interruptByRival (w : World) (id : String) :
    (w.interruptByRival id).failures = w.failures := by
  unfold interruptByRival
  split <;> rfl

theorem grant_reviews (id : String) :
    granted (w.reviews id).1 + 2 * (w.reviews id).2.failures ≤ 2 * w.failures :=
  granted_onChange _ id fun _ => (Nat.zero_add _).le

theorem grant_post (id body : String) :
    granted (w.post id body).1 + 2 * (w.post id body).2.failures ≤ 2 * w.failures := by
  refine granted_onChange _ id fun s => ?_
  rw [addReply_eq]
  split_ifs
  · exact (Nat.zero_add _).le
  · exact (Nat.zero_add _).le

/-- **An answer is worth no more than the failures that it takes from the store.** -/
theorem grant_answer (id : String) (place ticket : Nat) (q : Query) :
    q.grant (answer id place ticket q w).1 + 2 * (answer id place ticket q w).2.failures ≤
      2 * w.failures := by
  cases q with
  | changeRequest => exact granted_onChange _ id fun _ => (Nat.zero_add _).le
  | comments => exact granted_onChange _ id fun _ => (Nat.zero_add _).le
  | reviews =>
    rw [← w.failures_interruptByRival id]
    exact grant_reviews id
  | roleOf account => exact granted_attempt _ (Nat.zero_add _).le
  | isLatest => exact (Nat.zero_add _).le
  | pause ms => exact (Nat.zero_add _).le
  | setLabel label present => exact granted_onChange _ id fun _ => (Nat.zero_add _).le
  | postComment body =>
    have hcomment : (w.interruptByComment id).failures = w.failures := by
      unfold interruptByComment
      split <;> rfl
    rw [answer, interruptedPost, ← hcomment]
    generalize w.interruptByComment id = w
    unfold interruptByFailure
    cases hannounced : w.interruptions.postFailure with
    | none => exact grant_post id body
    | some announced =>
      obtain ⟨posts, f⟩ := announced
      cases posts with
      | zero =>
        simp only [Query.grant, granted, failures, hannounced, Option.toList_some,
          Option.toList_none, List.length_singleton, List.length_nil]
        split <;> omega
      | succ posts =>
        have hsame : ({ w with interruptions := { w.interruptions with
            postFailure := some (posts, f) } }).failures = w.failures := by
          simp only [failures, hannounced, Option.toList_some, List.length_singleton]
        simp only
        rw [← hsame]
        exact grant_post id body

end World

namespace Footing

theorem grant_answer (t : Task) (q : Query) (f : Footing) :
    q.grant (answer t q f).1 + 2 * (answer t q f).2.world.failures ≤ 2 * f.world.failures := by
  have hanswer (q : Query) := World.grant_answer (w := f.world) t.id t.place t.ticket q
  cases q with
  | reviews =>
    simp only [answer]
    split
    · exact World.grant_reviews t.id
    · exact hanswer .reviews
  | _ =>
    simp only [answer]
    exact hanswer _

end Footing

end ReviewQuorum
