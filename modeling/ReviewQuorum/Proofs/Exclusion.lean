import ReviewQuorum.Proofs.Intactness

/-! # One pass at a time

Any number of calls may run passes over any change requests, while users act and change requests
are tracked and forgotten. A call takes a ticket of the slot of its change request, waits until
nobody is inside with this slot, asks its questions one by one and leaves. A `Crowd` holds the world
that the calls share, those that wait, those that are inside, and what has been asked so far.

The lock belongs to the slot, so no two calls are ever inside with one slot
(`Crowd.one_per_slot`). Calls for one change request have one slot as long as it is not forgotten
while some of them are on their way. Then they go in one after another: only one of them is inside,
and none asks anything before another one has asked all it asks (`passes_take_turns`). So the
comments that one fetches have the replies of those that came before.

A change request that is forgotten under way gets another slot with the next call, and then two
passes over it are inside at once and give the same reply twice (`two_at_once`). -/

namespace ReviewQuorum

/-- A call that has taken a ticket. -/
structure Caller where
  call : Nat
  id : String
  place : Nat
  ticket : Nat
deriving DecidableEq

/-- A call that is inside, and what its pass still has to ask. -/
structure Occupant where
  caller : Caller
  rest : Inquiry (Except Failure PassEnd)

/-- What a call has asked, with the answer. -/
structure Utterance where
  caller : Caller
  exchange : Exchange Query Query.Answer

/-- Calls that share a world: those that wait, those that are inside, and what was asked so far. -/
structure Crowd where
  world : World
  waiting : List Caller
  inside : List Occupant
  history : List Utterance

namespace Crowd

open Reconciler (enter close)

/-! ### What happens -/

/-- The crowd before the first call. -/
def start (w : World) : Crowd := ⟨w, [], [], []⟩

/-- Another memory for the calls. -/
def withMemory (b : Crowd) (m : Memory) : Crowd := { b with world := { b.world with memory := m } }

/-- A call takes its ticket and waits. -/
def request (b : Crowd) (i : Nat) (id : String) : Crowd :=
  { b with
    world := (enter id b.world).2.2
    waiting := b.waiting ++ [⟨i, id, (enter id b.world).1, (enter id b.world).2.1⟩] }

/-- A call that waits goes in. -/
def letIn (r : Reconciler) (b : Crowd) (k : Caller) : Crowd :=
  { b with
    waiting := b.waiting.filter fun k' => k'.call != k.call
    inside := b.inside ++ [⟨k, r.program (b.world.memory.slotAt k.place).context⟩] }

/-- A call that is inside asks a question and goes on with the answer. -/
def ask (b : Crowd) (k : Caller) (q : Query)
    (next : q.Answer → Inquiry (Except Failure PassEnd)) : Crowd :=
  let (a, w) := World.answer k.id k.place k.ticket q b.world
  { b with
    world := w
    inside := b.inside.map fun o =>
      if o.caller.call = k.call then { o with rest := next a } else o
    history := b.history ++ [⟨k, q, a⟩] }

/-- A call that is inside leaves with its result. -/
def leave (b : Crowd) (k : Caller) (result : Except Failure PassEnd) : Crowd :=
  { b with
    world := (close k.id k.place k.ticket result b.world).2
    inside := b.inside.filter fun o => o.caller.call != k.call }

/-- **What happens next**: users act and collaborators fail, a call takes its ticket, goes in where
nobody else is inside with its slot, asks or leaves, and change requests are tracked and, if they
may be, forgotten. -/
inductive Step (r : Reconciler) (may : Crowd → String → Prop) (b : Crowd) : Crowd → Prop
  | act {id : String} {w : World} (h : World.Act (fun _ => True) id b.world w) :
    Step r may b { b with world := w }
  | request (i : Nat) (id : String) (hwaiting : ∀ k ∈ b.waiting, k.call ≠ i)
    (hinside : ∀ o ∈ b.inside, o.caller.call ≠ i)
    (hhistory : ∀ u ∈ b.history, u.caller.call ≠ i) : Step r may b (b.request i id)
  | letIn {k : Caller} (h : k ∈ b.waiting) (hfree : ∀ o ∈ b.inside, o.caller.place ≠ k.place) :
    Step r may b (b.letIn r k)
  | ask {k : Caller} {q : Query} {next : q.Answer → Inquiry (Except Failure PassEnd)}
    (h : ⟨k, .ask q next⟩ ∈ b.inside) : Step r may b (b.ask k q next)
  | leave {k : Caller} {result : Except Failure PassEnd} (h : ⟨k, .done result⟩ ∈ b.inside) :
    Step r may b (b.leave k result)
  | track (id : String) : Step r may b (b.withMemory (b.world.memory.track id))
  | forget {id : String} (h : may b id) : Step r may b (b.withMemory (b.world.memory.untrack id))

/-- **A crowd that has come about** in a world. -/
def Run (r : Reconciler) (may : Crowd → String → Prop) (w : World) (b : Crowd) : Prop :=
  Relation.ReflTransGen (Step r may) (start w) b

/-- Any change request may be forgotten at any time. -/
def Anytime (_ : Crowd) (_ : String) : Prop := True

/-- A change request is forgotten only while no call for it is on its way; others at any time. -/
def SparingOf (id : String) (b : Crowd) (id' : String) : Prop :=
  id' = id → (∀ k ∈ b.waiting, k.id ≠ id) ∧ ∀ o ∈ b.inside, o.caller.id ≠ id

/-! ### One call for each slot -/

variable {r : Reconciler} {may : Crowd → String → Prop} {id : String} {w : World} {b b' : Crowd}

theorem mem_inside_ask {k : Caller} {q : Query}
    {next : q.Answer → Inquiry (Except Failure PassEnd)} {o : Occupant}
    (h : o ∈ (b.ask k q next).inside) : ∃ o' ∈ b.inside, o'.caller = o.caller := by
  obtain ⟨o', ho', rfl⟩ := List.mem_map.mp h
  refine ⟨o', ho', ?_⟩
  split_ifs <;> rfl

/-- **What holds of a crowd**: those inside have different slots, and a call that waits has not been
inside. -/
structure Sound (b : Crowd) : Prop where
  places : (b.inside.map (·.caller.place)).Nodup
  apart : ∀ o ∈ b.inside, ∀ k ∈ b.waiting, o.caller.call ≠ k.call
  silent : ∀ k ∈ b.waiting, ∀ u ∈ b.history, u.caller.call ≠ k.call

theorem Sound.request (h : Sound b) {i : Nat} (id : String)
    (hinside : ∀ o ∈ b.inside, o.caller.call ≠ i) (hhistory : ∀ u ∈ b.history, u.caller.call ≠ i) :
    Sound (b.request i id) := by
  refine ⟨h.places, ?_, ?_⟩
  · intro o ho k hk
    rcases List.mem_append.mp hk with hk | hk
    · exact h.apart o ho k hk
    · rw [List.mem_singleton.mp hk]
      exact hinside o ho
  · intro k hk u hu
    rcases List.mem_append.mp hk with hk | hk
    · exact h.silent k hk u hu
    · rw [List.mem_singleton.mp hk]
      exact hhistory u hu

theorem Sound.letIn (h : Sound b) (r : Reconciler) {k : Caller}
    (hfree : ∀ o ∈ b.inside, o.caller.place ≠ k.place) : Sound (b.letIn r k) := by
  have hothers {k' : Caller} (hk' : k' ∈ (b.letIn r k).waiting) :
      k' ∈ b.waiting ∧ k'.call ≠ k.call := by
    simpa [Crowd.letIn] using hk'
  refine ⟨?_, ?_, ?_⟩
  · rw [Crowd.letIn, List.map_append, List.nodup_append]
    refine ⟨h.places, List.nodup_singleton _, ?_⟩
    intro place hplace place' hplace'
    obtain ⟨o, ho, rfl⟩ := List.mem_map.mp hplace
    rw [List.mem_singleton.mp hplace']
    exact hfree o ho
  · intro o ho k' hk'
    rcases List.mem_append.mp ho with ho | ho
    · exact h.apart o ho k' (hothers hk').1
    · rw [List.mem_singleton.mp ho]
      exact (hothers hk').2.symm
  · intro k' hk' u hu
    exact h.silent k' (hothers hk').1 u hu

theorem Sound.ask (h : Sound b) {k : Caller} {q : Query}
    {next : q.Answer → Inquiry (Except Failure PassEnd)} (hk : ⟨k, .ask q next⟩ ∈ b.inside) :
    Sound (b.ask k q next) := by
  have hplaces : (b.ask k q next).inside.map (·.caller.place) = b.inside.map (·.caller.place) := by
    rw [Crowd.ask, List.map_map]
    refine List.map_congr_left fun o _ => ?_
    simp only [Function.comp_apply]
    split_ifs <;> rfl
  refine ⟨hplaces ▸ h.places, ?_, ?_⟩
  · intro o ho k' hk'
    obtain ⟨o', ho', hcaller⟩ := mem_inside_ask ho
    rw [← hcaller]
    exact h.apart o' ho' k' hk'
  · intro k' hk' u hu
    rcases List.mem_append.mp hu with hu | hu
    · exact h.silent k' hk' u hu
    · rw [List.mem_singleton.mp hu]
      exact h.apart _ hk k' hk'

theorem Sound.leave (h : Sound b) (k : Caller) (result : Except Failure PassEnd) :
    Sound (b.leave k result) := by
  refine ⟨h.places.sublist (List.filter_sublist.map _), ?_, h.silent⟩
  intro o ho k' hk'
  exact h.apart o (List.mem_filter.mp ho).1 k' hk'

/-- **Every step** keeps a crowd sound. -/
theorem Sound.step (h : Sound b) (hstep : Step r may b b') : Sound b' := by
  cases hstep with
  | act => exact ⟨h.places, h.apart, h.silent⟩
  | request i id hwaiting hinside hhistory => exact h.request id hinside hhistory
  | letIn hk hfree => exact h.letIn r hfree
  | ask hk => exact h.ask hk
  | leave => exact h.leave _ _
  | track => exact ⟨h.places, h.apart, h.silent⟩
  | forget => exact ⟨h.places, h.apart, h.silent⟩

/-- **Every run** is sound. -/
theorem sound_run (h : Run r may w b) : Sound b := by
  induction h with
  | refl => exact ⟨List.nodup_nil, nofun, nofun⟩
  | tail _ hstep ih => exact ih.step hstep

/-- **No two calls are inside with one slot**, whatever is forgotten. -/
theorem one_per_slot (h : Run r may w b) {o o' : Occupant} (ho : o ∈ b.inside) (ho' : o' ∈ b.inside)
    (hplace : o.caller.place = o'.caller.place) : o = o' :=
  List.inj_on_of_nodup_map (sound_run h).places ho ho' hplace

/-! ### One call for each change request -/

/-- **What holds for a change request** that is not forgotten while calls for it are on their way:
they have its slot; once a call has asked, no other one asks until it has left; and those that have
left ask no more. -/
structure TakesTurns (id : String) (b : Crowd) : Prop where
  waiting : ∀ k ∈ b.waiting, k.id = id → b.world.memory.tracked.get? id = some k.place
  inside : ∀ o ∈ b.inside, o.caller.id = id →
    b.world.memory.tracked.get? id = some o.caller.place
  since : ∀ o ∈ b.inside, o.caller.id = id → ∀ u u', [u, u'].Sublist b.history →
    u.caller.call = o.caller.call → u'.caller.id = id → u'.caller.call = o.caller.call
  grouped : ∀ u u' u'', [u, u', u''].Sublist b.history → u.caller.id = id → u'.caller.id = id →
    u''.caller.id = id → u''.caller.call = u.caller.call → u'.caller.call = u.caller.call

theorem sublist_concat {α : Type} {l : List α} {a x : α} {h : List α}
    (hsub : (l ++ [a]).Sublist (h ++ [x])) :
    (l ++ [a]).Sublist h ∨ a = x ∧ l.Sublist h := by
  obtain ⟨l₁, l₂, hsplit, h₁, h₂⟩ := List.sublist_append_iff.mp hsub
  rcases List.sublist_singleton.mp h₂ with rfl | rfl
  · rw [List.append_nil] at hsplit
    exact .inl (hsplit ▸ h₁)
  · obtain ⟨rfl, ha⟩ := List.append_inj' hsplit rfl
    exact .inr ⟨List.singleton_inj.mp ha, h₁⟩

namespace TakesTurns

theorem keep {m : Memory} (h : TakesTurns id b) (hm : b.world.memory.KeepsTracked m) {w : World}
    (hw : w.memory = m) : TakesTurns id { b with world := w } where
  waiting k hk hid := hw ▸ hm _ _ (h.waiting k hk hid)
  inside o ho hid := hw ▸ hm _ _ (h.inside o ho hid)
  since := h.since
  grouped := h.grouped

/-- **At most one call for the change request is inside.** -/
theorem eq_of_inside (h : TakesTurns id b) (hb : Sound b) {o o' : Occupant} (ho : o ∈ b.inside)
    (ho' : o' ∈ b.inside) (hid : o.caller.id = id) (hid' : o'.caller.id = id) : o = o' := by
  have hplace : b.world.memory.tracked.get? id = some o.caller.place := h.inside o ho hid
  have hplace' : b.world.memory.tracked.get? id = some o'.caller.place := h.inside o' ho' hid'
  refine List.inj_on_of_nodup_map hb.places ho ho' ?_
  rw [hplace] at hplace'
  exact Option.some.inj hplace'

theorem request (h : TakesTurns id b) (i : Nat) (id' : String) :
    TakesTurns id (b.request i id') := by
  have hkeeps : b.world.memory.KeepsTracked (enter id' b.world).2.2.memory :=
    Memory.keepsTracked_locate b.world.memory id'
  refine ⟨?_, fun o ho hid => hkeeps _ _ (h.inside o ho hid), h.since, h.grouped⟩
  intro k hk hid
  rcases List.mem_append.mp hk with hk | hk
  · exact hkeeps _ _ (h.waiting k hk hid)
  · rw [List.mem_singleton.mp hk] at hid ⊢
    obtain rfl := hid
    exact Memory.get?_tracked_locate b.world.memory id'

theorem letIn (h : TakesTurns id b) (hb : Sound b) (r : Reconciler) {k : Caller}
    (hk : k ∈ b.waiting) : TakesTurns id (b.letIn r k) := by
  refine ⟨fun k' hk' => h.waiting k' (List.mem_filter.mp hk').1, ?_, ?_, h.grouped⟩
  · intro o ho hid
    rcases List.mem_append.mp ho with ho | ho
    · exact h.inside o ho hid
    · rw [List.mem_singleton.mp ho] at hid ⊢
      exact h.waiting k hk hid
  · intro o ho hid u u' hsub hcall hid'
    rcases List.mem_append.mp ho with ho | ho
    · exact h.since o ho hid u u' hsub hcall hid'
    · -- who waits has asked nothing
      rw [List.mem_singleton.mp ho] at hcall
      exact absurd hcall (hb.silent k hk u (hsub.subset List.mem_cons_self))

theorem ask (h : TakesTurns id b) (hb : Sound b) {k : Caller} {q : Query}
    {next : q.Answer → Inquiry (Except Failure PassEnd)} (hk : ⟨k, .ask q next⟩ ∈ b.inside) :
    TakesTurns id (b.ask k q next) := by
  have hkeeps : b.world.memory.KeepsTracked (b.ask k q next).world.memory :=
    (World.spared_answer q b.world).tracks
  refine ⟨fun k' hk' hid => hkeeps _ _ (h.waiting k' hk' hid), ?_, ?_, ?_⟩
  · intro o ho hid
    obtain ⟨o', ho', hcaller⟩ := mem_inside_ask ho
    rw [← hcaller] at hid ⊢
    exact hkeeps _ _ (h.inside o' ho' hid)
  · intro o ho hid u u' hsub hcall hid'
    obtain ⟨o', ho', hcaller⟩ := mem_inside_ask ho
    rw [← hcaller] at hid hcall ⊢
    rcases sublist_concat (l := [u]) hsub with hbefore | ⟨rfl, -⟩
    · exact h.since o' ho' hid u u' hbefore hcall hid'
    · rw [← h.eq_of_inside hb hk ho' hid' hid]
  · intro u u' u'' hsub hid hid' hid'' hcall
    rcases sublist_concat (l := [u, u']) hsub with hbefore | ⟨rfl, hbefore⟩
    · exact h.grouped u u' u'' hbefore hid hid' hid'' hcall
    · exact (h.since _ hk hid'' u u' hbefore hcall.symm hid').trans hcall

theorem leave (h : TakesTurns id b) (k : Caller) (result : Except Failure PassEnd) :
    TakesTurns id (b.leave k result) := by
  have hkeeps : b.world.memory.KeepsTracked (b.leave k result).world.memory := by
    rw [Crowd.leave]
    cases result with
    | error e => exact .refl _
    | ok last => cases last <;> exact .refl _
  refine ⟨fun k' hk' hid => hkeeps _ _ (h.waiting k' hk' hid), ?_, ?_, h.grouped⟩
  · intro o ho hid
    exact hkeeps _ _ (h.inside o (List.mem_filter.mp ho).1 hid)
  · intro o ho
    exact h.since o (List.mem_filter.mp ho).1

theorem forget (h : TakesTurns id b) {id' : String} (hmay : SparingOf id b id') :
    TakesTurns id (b.withMemory (b.world.memory.untrack id')) := by
  by_cases hid' : id' = id
  · obtain ⟨hwaiting, hinside⟩ := hmay hid'
    exact ⟨fun k hk hid => absurd hid (hwaiting k hk), fun o ho hid => absurd hid (hinside o ho),
      h.since, h.grouped⟩
  · have hget : (b.world.memory.untrack id').tracked.get? id = b.world.memory.tracked.get? id := by
      rw [Memory.untrack, Dict.get?_erase, if_neg hid']
    exact ⟨fun k hk hid => hget ▸ h.waiting k hk hid, fun o ho hid => hget ▸ h.inside o ho hid,
      h.since, h.grouped⟩

/-- **Every step** of a crowd that spares a change request keeps it. -/
theorem step (h : TakesTurns id b) (hb : Sound b) (hstep : Step r (SparingOf id) b b') :
    TakesTurns id b' := by
  cases hstep with
  | act ha => exact h.keep (.refl _) ha.memory
  | request i id' => exact h.request i id'
  | letIn hk => exact h.letIn hb r hk
  | ask hk => exact h.ask hb hk
  | leave => exact h.leave _ _
  | track id' => exact h.keep (Memory.keepsTracked_locate b.world.memory id') rfl
  | forget hmay => exact h.forget hmay

end TakesTurns

/-- **Every run** that spares a change request keeps it. -/
theorem takesTurns_run (h : Run r (SparingOf id) w b) : TakesTurns id b := by
  induction h with
  | refl => exact ⟨nofun, nofun, nofun, fun u u' u'' hsub => nomatch hsub⟩
  | tail hrun hstep ih => exact ih.step (sound_run hrun) hstep

end Crowd

/-- **Passes over a change request take turns** if it is never forgotten while calls for it are on
their way: at most one of them is inside at any time, and no call asks anything between two
questions of another one. -/
theorem passes_take_turns {r : Reconciler} {id : String} {w : World} {b : Crowd}
    (h : Crowd.Run r (Crowd.SparingOf id) w b) :
    (∀ o ∈ b.inside, ∀ o' ∈ b.inside, o.caller.id = id → o'.caller.id = id → o = o') ∧
    ∀ u u' u'', [u, u', u''].Sublist b.history → u.caller.id = id → u'.caller.id = id →
      u''.caller.id = id → u''.caller.call = u.caller.call → u'.caller.call = u.caller.call := by
  have hturns : Crowd.TakesTurns id b := Crowd.takesTurns_run h
  refine ⟨?_, hturns.grouped⟩
  intro o ho o' ho' hid hid'
  exact hturns.eq_of_inside (Crowd.sound_run h) ho ho' hid hid'

/-! ### Calls that are played -/

namespace Crowd

/-- A call asks its next question, if it is inside and has one. -/
def hear (b : Crowd) (i : Nat) : Crowd :=
  match b.inside.find? fun o => o.caller.call == i with
  | some ⟨k, .ask q next⟩ => b.ask k q next
  | _ => b

/-- A call asks its next questions. -/
def hearMany (i : Nat) : Nat → Crowd → Crowd
  | 0, b => b
  | n + 1, b => hearMany i n (b.hear i)

/-- A call leaves, if it is inside and has asked everything. -/
def finish (b : Crowd) (i : Nat) : Crowd :=
  match b.inside.find? fun o => o.caller.call == i with
  | some ⟨k, .done result⟩ => b.leave k result
  | _ => b

variable {r : Reconciler} {may : Crowd → String → Prop} {w : World} {b : Crowd}

theorem Run.hear (h : Run r may w b) (i : Nat) : Run r may w (b.hear i) := by
  unfold Crowd.hear
  split
  · rename_i k q next hfind
    exact h.tail (.ask (List.mem_of_find?_eq_some hfind))
  · exact h

theorem Run.hearMany (h : Run r may w b) (i n : Nat) : Run r may w (hearMany i n b) := by
  induction n generalizing b with
  | zero => exact h
  | succ n ih => exact ih (h.hear i)

theorem Run.finish (h : Run r may w b) (i : Nat) : Run r may w (b.finish i) := by
  unfold Crowd.finish
  split
  · rename_i k result hfind
    exact h.tail (.leave (List.mem_of_find?_eq_some hfind))
  · exact h

end Crowd

/-- Alice has asked for two reviewers. -/
def describedWorld : World := .start (hosting "revgate-bot" "alice" "/reviewers 2") .empty

/-- A call has gone in. -/
def firstInside : Crowd :=
  ((Crowd.start describedWorld).request 0 "1").letIn plainReconciler ⟨0, "1", 0, 1⟩

theorem run_firstInside (may : Crowd → String → Prop) :
    Crowd.Run plainReconciler may describedWorld firstInside := by
  have hstart : Crowd.Run plainReconciler may describedWorld (.start describedWorld) := .refl
  have hrequest := hstart.tail (.request 0 "1" (by decide) (by decide) (by decide))
  exact hrequest.tail (.letIn (by decide +kernel) (by decide))

/-- The first call has done its work and left, and a second one has gone in and asked. -/
def inTurn : Crowd :=
  Crowd.hearMany 1 5 ((((Crowd.hearMany 0 6 firstInside).finish 0).request 1 "1").letIn
    plainReconciler ⟨1, "1", 0, 2⟩)

theorem run_inTurn (may : Crowd → String → Prop) :
    Crowd.Run plainReconciler may describedWorld inTurn := by
  have hfirst := ((run_firstInside may).hearMany 0 6).finish 0
  have hrequest := hfirst.tail (.request 1 "1" (by decide +kernel) (by decide +kernel)
    (by decide +kernel))
  have hinside := hrequest.tail
    (.letIn (k := ⟨1, "1", 0, 2⟩) (by decide +kernel) (by decide +kernel))
  exact Crowd.Run.hearMany hinside 1 5

/-- Two calls, one after the other. -/
theorem passes_take_turns_inTurn :
    Crowd.Run plainReconciler (Crowd.SparingOf "1") describedWorld inTurn ∧
    inTurn.history.map (·.caller.call) = [0, 0, 0, 0, 0, 0, 1, 1, 1, 1, 1] ∧
    ∀ o ∈ inTurn.inside, ∀ o' ∈ inTurn.inside, o.caller.id = "1" → o'.caller.id = "1" → o = o' :=
  ⟨run_inTurn _, by decide +kernel, (passes_take_turns (run_inTurn _)).1⟩

/-- A first call has asked all it has to know. Then the change request is forgotten, and a second
call goes in with another slot. Both reply. -/
def atOnce : Crowd :=
  let forgotten := (Crowd.hearMany 0 5 firstInside).withMemory
    ((Crowd.hearMany 0 5 firstInside).world.memory.untrack "1")
  let both := (forgotten.request 1 "1").letIn plainReconciler ⟨1, "1", 1, 1⟩
  ((Crowd.hearMany 1 5 both).hear 0).hear 1

/-- **Two passes at once.** If the change request is forgotten while a pass over it is on its way, a
second one goes in beside it, and the bot gives the same reply twice. -/
theorem two_at_once :
    Crowd.Run plainReconciler Crowd.Anytime describedWorld atOnce ∧
    (¬ ∀ o ∈ atOnce.inside, ∀ o' ∈ atOnce.inside,
      o.caller.id = "1" → o'.caller.id = "1" → o = o') ∧
    atOnce.history.map (·.caller.call) = [0, 0, 0, 0, 0, 1, 1, 1, 1, 1, 0, 1] ∧
    (atOnce.world.forge.botComments "1").map (·.body) = List.replicate 2
      ("@alice The number of required reviews for this PR is now set to 2 " ++
        "(with at least 1 of role reviewers).\n<!-- revgate-reply: description -->") := by
  have hfirst := (run_firstInside Crowd.Anytime).hearMany 0 5
  have hforgotten := hfirst.tail (.forget (show Crowd.Anytime _ "1" from trivial))
  have hrequest := hforgotten.tail (.request 1 "1" (by decide +kernel) (by decide +kernel)
    (by decide +kernel))
  have hboth : Crowd.Run plainReconciler Crowd.Anytime describedWorld _ := hrequest.tail
    (.letIn (k := ⟨1, "1", 1, 1⟩) (by decide +kernel) (by decide +kernel))
  have hcallers : atOnce.inside.map (·.caller) = [⟨0, "1", 0, 1⟩, ⟨1, "1", 1, 1⟩] := by
    decide +kernel
  refine ⟨((hboth.hearMany 1 5).hear 0).hear 1, ?_, by decide +kernel, by decide +kernel⟩
  intro hsame
  have hfst : ⟨0, "1", 0, 1⟩ ∈ atOnce.inside.map (·.caller) := by
    rw [hcallers]
    exact List.mem_cons_self
  have hsnd : ⟨1, "1", 1, 1⟩ ∈ atOnce.inside.map (·.caller) := by
    rw [hcallers]
    exact List.mem_cons_of_mem _ List.mem_cons_self
  obtain ⟨o, ho, hcaller⟩ := List.mem_map.mp hfst
  obtain ⟨o', ho', hcaller'⟩ := List.mem_map.mp hsnd
  have heq : o = o' := hsame o ho o' ho' (by rw [hcaller]) (by rw [hcaller'])
  rw [heq, hcaller'] at hcaller
  cases hcaller

end ReviewQuorum
