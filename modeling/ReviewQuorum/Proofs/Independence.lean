import Mathlib.Data.List.GetD
import ReviewQuorum.Proofs.ReadyLabel

/-! # Passes over different change requests

All change requests of a forge share the forge, the census and the memory of the reconciler. A
memory is `Separate` if no two tracked change requests have the same slot, as those that a
reconciler comes to. Then a pass over one of them, however it ends and whoever interrupts it, leaves
what the forge shows of every other one and what is remembered of it (`sparesOthers_runPass`).

What a pass does to the forge is written milestone by milestone, and milestones of passes over
different change requests may be exchanged (`Forge.after_comm`). So where nothing fails, it makes no
difference which of two change requests is looked at first (`runPass_comm`). -/

namespace ReviewQuorum

/-! ### Slots of their own -/

namespace Memory

variable {m : Memory} {id : String} {place : Nat}

/-- **A memory in which no slot is shared**: every tracked change request has one of its own. -/
structure Separate (m : Memory) : Prop where
  placed : m.WellPlaced
  unshared : ∀ id id' place, m.tracked.get? id = some place → m.tracked.get? id' = some place →
    id = id'

theorem separate_empty : empty.Separate := ⟨wellPlaced_empty, fun id id' place h => by cases h⟩

theorem Separate.locate (h : m.Separate) (id : String) : (m.locate id).2.Separate := by
  refine ⟨(tracks_locate h.placed).placed, fun a b place ha hb => ?_⟩
  have hfresh (c : String) : m.tracked.get? c ≠ some m.slots.length := fun hc =>
    Nat.lt_irrefl _ (h.placed c _ hc)
  unfold Memory.locate at ha hb
  split at ha
  · exact h.unshared a b place ha (by simpa [*] using hb)
  · simp only [Dict.get?_insert, *] at ha hb
    split_ifs at ha hb with hida hidb
    · rw [← hida, hidb]
    · exact absurd (Option.some.inj ha ▸ hb) (hfresh b)
    · exact absurd (Option.some.inj hb ▸ ha) (hfresh a)
    · exact h.unshared a b place ha hb

theorem Separate.setSlot (h : m.Separate) (place : Nat) (slot : Slot) :
    (m.setSlot place slot).Separate :=
  ⟨fun id p hp => by rw [Memory.setSlot, List.length_set]; exact h.placed id p hp, h.unshared⟩

theorem Separate.untrack (h : m.Separate) (id : String) : (m.untrack id).Separate := by
  have hkept {id' : String} {place : Nat} (hp : (m.untrack id).tracked.get? id' = some place) :
      m.tracked.get? id' = some place := by
    rw [Memory.untrack, Dict.get?_erase] at hp
    split_ifs at hp
    exact hp
  exact ⟨fun id' p hp => h.placed id' p (hkept hp),
    fun a b place ha hb => h.unshared a b place (hkept ha) (hkept hb)⟩

theorem contextOf_eq (m : Memory) (id : String) :
    m.contextOf id = (m.tracked.get? id).elim {} fun place => (m.slotAt place).context := by
  unfold contextOf look Memory.locate
  cases m.tracked.get? id with
  | some place => rfl
  | none => simp [slotAt]

theorem contextOf_locate (m : Memory) (id id' : String) :
    (m.locate id).2.contextOf id' = m.contextOf id' := by
  cases h : m.tracked.get? id with
  | some place => rw [show m.locate id = (place, m) by rw [Memory.locate, h]]
  | none =>
    let opened : Slot := {}
    have hslots (p : Nat) : (m.slots ++ [opened]).getD p {} = m.slots.getD p {} := by
      rcases Nat.lt_or_ge p m.slots.length with hp | hp
      · rw [List.getD_append _ _ _ _ hp]
      · rw [List.getD_append_right _ _ _ _ hp, List.getD_eq_default _ _ hp]
        cases p - m.slots.length <;> rfl
    have hlocate : (m.locate id).2 =
        ⟨m.slots ++ [opened], m.tracked.insert id m.slots.length⟩ := by rw [Memory.locate, h]
    rw [hlocate, contextOf_eq, contextOf_eq, Dict.get?_insert]
    simp only [slotAt, hslots]
    split_ifs with hid
    · rw [← hid, h]
      simp
    · rfl

theorem contextOf_setSlot (m : Memory) (place : Nat) (slot : Slot)
    (h : m.tracked.get? id = some place → slot.context = (m.slotAt place).context) :
    (m.setSlot place slot).contextOf id = m.contextOf id := by
  rw [contextOf_eq, contextOf_eq]
  change (m.tracked.get? id).elim _ _ = _
  cases hid : m.tracked.get? id with
  | none => rfl
  | some p =>
    simp only [Option.elim_some, slotAt, Memory.setSlot, List.getD_eq_getElem?_getD,
      List.getElem?_set]
    split_ifs with hp hlt
    · subst hp
      exact h hid
    · subst hp
      rw [List.getElem?_eq_none (Nat.le_of_not_lt hlt)]
    · rfl

theorem contextOf_takeTicket (m : Memory) (place : Nat) (id : String) :
    (m.takeTicket place).2.contextOf id = m.contextOf id :=
  contextOf_setSlot m place _ fun _ => rfl

theorem Separate.contextOf_remember (h : m.Separate) (hid : m.tracked.get? id = some place)
    {other : String} (hother : other ≠ id) (context : Context) :
    (m.remember place context).contextOf other = m.contextOf other :=
  contextOf_setSlot m place _ fun ho => absurd (h.unshared other id place ho hid) hother

end Memory

/-! ### What is written to different change requests -/

/-- How many labels are written at a milestone. -/
def Milestone.labelWrites : Milestone → Nat
  | .labelled _ _ => 1
  | _ => 0

namespace Forge

variable {a b : String}

/-- A forge is known by its account, its change requests and the number of labels written. -/
theorem ext_snapshot? {f g : Forge} (hbot : f.bot = g.bot)
    (hchanges : ∀ id, f.snapshot? id = g.snapshot? id) (hwrites : f.labelWrites = g.labelWrites) :
    f = g := by
  obtain ⟨bot, changes, writes⟩ := f
  obtain ⟨bot', changes', writes'⟩ := g
  obtain rfl : changes = changes' := Dict.ext_get? hchanges
  cases hbot
  cases hwrites
  rfl

theorem snapshot?_put_of_ne (f : Forge) {id other : String} (h : other ≠ id) (s : Snapshot) :
    (f.put id s).snapshot? other = f.snapshot? other := by
  rw [snapshot?_put_eq, if_neg h.symm]

theorem snapshot?_modify_eq (f : Forge) (id id' : String) (g : Snapshot → Snapshot) :
    (f.modify id g).snapshot? id' =
      if id = id' then (f.snapshot? id).map g else f.snapshot? id' := by
  unfold modify
  cases hs : f.snapshot? id with
  | some s => exact f.snapshot?_put_eq id id' (g s)
  | none =>
    split_ifs with hid
    · rw [← hid, hs]
      rfl
    · rfl

theorem snapshot?_after_eq (f : Forge) (id id' : String) (m : Milestone) :
    (f.after id m).snapshot? id' =
      if id = id' then (f.snapshot? id).map fun s => s.after f.bot m else f.snapshot? id' := by
  cases m with
  | posted body => exact f.snapshot?_modify_eq id id' _
  | labelled label present => exact f.snapshot?_modify_eq id id' _
  | _ =>
    split_ifs with hid
    · rw [hid]
      exact Option.map_id'.symm
    · rfl

theorem labelWrites_after (f : Forge) (id : String) (m : Milestone) :
    (f.after id m).labelWrites = f.labelWrites + m.labelWrites := by
  cases m with
  | posted body =>
    unfold after modify
    cases f.snapshot? id <;> rfl
  | _ => rfl

/-- **Milestones of passes over different change requests may be exchanged.** -/
theorem after_comm (hab : a ≠ b) (f : Forge) (m n : Milestone) :
    (f.after a m).after b n = (f.after b n).after a m := by
  refine ext_snapshot? (by simp only [bot_after]) (fun id => ?_) ?_
  · simp only [snapshot?_after_eq, bot_after, if_neg hab, if_neg hab.symm]
    split_ifs with hb ha
    · exact absurd (ha.trans hb.symm) hab
    all_goals rfl
  · simp only [labelWrites_after]
    omega

theorem foldl_after_comm (hab : a ≠ b) (f : Forge) (ms ns : List Milestone) :
    ns.foldl (after b) (ms.foldl (after a) f) = ms.foldl (after a) (ns.foldl (after b) f) := by
  have hone (n : Milestone) (g : Forge) :
      ms.foldl (after a) (g.after b n) = (ms.foldl (after a) g).after b n :=
    List.foldl_hom (after b · n) fun g m => after_comm hab.symm g n m
  exact List.foldl_hom (fun g => ms.foldl (after a) g) fun g n => (hone n g).symm

end Forge

/-! ### What a pass leaves of the others -/

namespace World

variable {id : String} {place ticket : Nat} {w w' w'' : World} {α : Type}

/-- **What is left of all change requests but one**: what the forge shows of them and what is
remembered of them. -/
structure SparesOthers (id : String) (w w' : World) : Prop where
  snapshots : ∀ other, other ≠ id → w'.forge.snapshot? other = w.forge.snapshot? other
  contexts : ∀ other, other ≠ id → w'.memory.contextOf other = w.memory.contextOf other
  separate : w.memory.Separate → w'.memory.Separate

theorem SparesOthers.refl (id : String) (w : World) : SparesOthers id w w :=
  ⟨fun _ _ => rfl, fun _ _ => rfl, fun h => h⟩

theorem SparesOthers.trans (h : SparesOthers id w w') (h' : SparesOthers id w' w'') :
    SparesOthers id w w'' :=
  ⟨fun other ho => (h'.snapshots other ho).trans (h.snapshots other ho),
    fun other ho => (h'.contexts other ho).trans (h.contexts other ho),
    fun hs => h'.separate (h.separate hs)⟩

theorem SparesOthers.of_eq (hforge : w'.forge = w.forge) (hmemory : w'.memory = w.memory) :
    SparesOthers id w w' :=
  ⟨fun _ _ => by rw [hforge], fun _ _ => by rw [hmemory], fun h => hmemory ▸ h⟩

theorem SparesOthers.of_forge (hmemory : w'.memory = w.memory)
    (h : ∀ other, other ≠ id → w'.forge.snapshot? other = w.forge.snapshot? other) :
    SparesOthers id w w' :=
  ⟨h, fun _ _ => by rw [hmemory], fun hs => hmemory ▸ hs⟩

theorem sparesOthers_ticket (w : World) (id : String) (interruptions : Interruptions) :
    SparesOthers id w { w with
      interruptions := interruptions
      memory := ((w.memory.locate id).2.takeTicket (w.memory.locate id).1).2 } :=
  ⟨fun _ _ => rfl,
    fun other _ => by rw [Memory.contextOf_takeTicket, Memory.contextOf_locate],
    fun h => (h.locate id).setSlot _ _⟩

theorem sparesOthers_interruptByRival (w : World) (id : String) :
    SparesOthers id w (w.interruptByRival id) := by
  unfold interruptByRival
  split
  · exact .refl id w
  · exact w.sparesOthers_ticket id _

theorem sparesOthers_interruptByComment (w : World) (id : String) :
    SparesOthers id w (w.interruptByComment id) := by
  unfold interruptByComment
  split
  · exact .refl id w
  · refine .of_forge rfl fun other ho => ?_
    rw [comment, Forge.snapshot?_modify_eq, if_neg (Ne.symm ho)]

theorem sparesOthers_interruptByFailure (w : World) (id : String) :
    SparesOthers id w w.interruptByFailure.2 := by
  unfold interruptByFailure
  split <;> exact .of_eq rfl rfl

/-- **An answer spares the others.** -/
theorem sparesOthers_answer (q : Query) (w : World) :
    SparesOthers id w (answer id place ticket q w).2 := by
  have hfault (w : World) (faults : List (Operation × Failure)) (_ : faults.Sublist w.faults) :
      SparesOthers id w { w with faults := faults } := .of_eq rfl rfl
  cases q with
  | changeRequest => exact onChange_keeps w _ id (hfault w) fun _ _ => .refl id w
  | comments => exact onChange_keeps w _ id (hfault w) fun _ _ => .refl id w
  | reviews =>
    exact (w.sparesOthers_interruptByRival id).trans
      (onChange_keeps _ _ id (hfault _) fun _ _ => .refl id _)
  | roleOf account => exact attempt_keeps w _ (hfault w) (.refl id w)
  | isLatest => exact .refl id w
  | postComment body =>
    have hinterrupted := (w.sparesOthers_interruptByComment id).trans
      ((w.interruptByComment id).sparesOthers_interruptByFailure id)
    rw [answer, interruptedPost]
    split
    · rename_i f w₁ hfailure
      rw [hfailure] at hinterrupted
      exact hinterrupted
    · rename_i w₁ hfailure
      rw [hfailure] at hinterrupted
      refine hinterrupted.trans (onChange_keeps w₁ _ id (hfault w₁) fun s _ => ?_)
      rw [addReply_eq]
      split_ifs
      · exact .of_forge rfl fun other ho => w₁.forge.snapshot?_put_of_ne ho _
      · exact .refl id w₁
  | setLabel label present =>
    exact onChange_keeps w _ id (hfault w) fun s _ =>
      .of_forge rfl fun other ho => w.forge.snapshot?_put_of_ne ho _
  | pause ms => exact .of_eq rfl rfl

/-- **A program of a pass spares the others.** -/
theorem sparesOthers_run (p : Inquiry α) (w : World) :
    SparesOthers id w (p.run (answer id place ticket) w).2 := by
  induction p generalizing w with
  | done a => exact .refl id w
  | ask q next ih => exact (sparesOthers_answer q w).trans (ih _ _)

end World

namespace Reconciler

variable {r : Reconciler} {id : String} {w w' : World} {s : Snapshot}

/-- **A pass spares the others**, whatever fails and whoever interrupts it. -/
theorem sparesOthers_runPass (r : Reconciler) (id : String) (h : w.memory.Separate) :
    w.SparesOthers id (r.runPass id w).2 := by
  have hentered : w.SparesOthers id (enter id w).2.2 := w.sparesOthers_ticket id _
  have hended : w.SparesOthers id (r.ended id w).2 := hentered.trans (World.sparesOthers_run _ _)
  have hspared : World.Spared id false (enter id w).2.2 (r.ended id w).2 := spared_ended false nofun
  have htracked : (r.ended id w).2.memory.tracked.get? id = some (enter id w).1 :=
    hspared.tracks id _ (w.memory.get?_tracked_locate id)
  rw [runPass_eq]
  match (r.ended id w).1 with
  | .error e => exact hended
  | .ok .superseded => exact hended
  | .ok (.completed plan) =>
    have hseparate := hended.separate h
    exact hended.trans ⟨fun _ _ => rfl,
      fun other ho => hseparate.contextOf_remember htracked ho _, fun hs => hs.setSlot _ _⟩

/-! ### One pass after the other -/

/-- After a pass over another change request a pass finds the world as before. -/
theorem Settles.next {a b : String} {s t : Snapshot} (h : r.Settles a w s) (hab : a ≠ b)
    (hb : w.HostsAlone b t) (hseparate : w.memory.Separate) (hw' : (r.runPass a w).2 = w') :
    r.Settles b w' t ∧ r.planFor b w' t = r.planFor b w t ∧ (r.HasTime b w' t ↔ r.HasTime b w t) ∧
      w'.memory.contextOf b = w.memory.contextOf b := by
  subst hw'
  have hspares : w.SparesOthers a (r.runPass a w).2 := r.sparesOthers_runPass a hseparate
  have hcontext := hspares.contexts b hab.symm
  have hb' : (r.runPass a w).2.HostsAlone b t :=
    ⟨(hspares.snapshots b hab.symm).trans hb.snapshot, trivial, h.rests.calm.trans hb.calm⟩
  have hplan : r.planFor b (r.runPass a w).2 t = r.planFor b w t := by
    rw [planFor, planFor, hcontext, h.rests.census]
  exact ⟨r.settles_runPass hb' h.rests.placed h.faults, hplan, by rw [HasTime, HasTime, hplan],
    hcontext⟩

end Reconciler

/-- **Change requests are independent.** Where nothing fails and nobody else acts, passes over two
of them end alike in either order, with the same two reports if they complete, and leave the same
forge, with as many labels written, and the same contexts. Each completes if it has time. A pass
over one of them changes nothing of the other one. -/
theorem runPass_comm (r : Reconciler) {a b : String} {w : World} {s t : Snapshot} (hab : a ≠ b)
    (ha : w.forge.snapshot? a = some s) (hb : w.forge.snapshot? b = some t)
    (hfaults : w.faults = []) (halone : w.interruptions = {}) (hseparate : w.memory.Separate) :
    let afterA := (r.runPass a w).2
    let afterB := (r.runPass b w).2
    (r.runPass a afterB).1 = (r.runPass a w).1 ∧ (r.runPass b afterA).1 = (r.runPass b w).1 ∧
    (r.HasTime a w s → ∃ report, (r.runPass a w).1 = .ok (.completed report)) ∧
    (r.HasTime b w t → ∃ report, (r.runPass b w).1 = .ok (.completed report)) ∧
    (r.runPass b afterA).2.forge = (r.runPass a afterB).2.forge ∧
    (∀ id, (r.runPass b afterA).2.memory.contextOf id =
      (r.runPass a afterB).2.memory.contextOf id) ∧
    afterA.forge.snapshot? b = w.forge.snapshot? b ∧
    afterA.memory.contextOf b = w.memory.contextOf b := by
  intro afterA afterB
  have hhostsA : w.HostsAlone a s := ⟨ha, trivial, halone⟩
  have hhostsB : w.HostsAlone b t := ⟨hb, trivial, halone⟩
  have hfirstA : r.Settles a w s := r.settles_runPass hhostsA hseparate.placed hfaults
  have hfirstB : r.Settles b w t := r.settles_runPass hhostsB hseparate.placed hfaults
  obtain ⟨hthenB, hplanB, htimeB, hcontextB⟩ := hfirstA.next hab hhostsB hseparate
    (rfl : _ = afterA)
  obtain ⟨hthenA, hplanA, htimeA, hcontextA⟩ := hfirstB.next hab.symm hhostsA hseparate
    (rfl : _ = afterB)
  have hsparesA : w.SparesOthers a afterA := r.sparesOthers_runPass a hseparate
  have hsparesB : w.SparesOthers b afterB := r.sparesOthers_runPass b hseparate
  have hspares₂ : afterA.SparesOthers b (r.runPass b afterA).2 :=
    r.sparesOthers_runPass b (hsparesA.separate hseparate)
  have hspares₁ : afterB.SparesOthers a (r.runPass a afterB).2 :=
    r.sparesOthers_runPass a (hsparesB.separate hseparate)
  -- the two memories may have their slots in different places, so contexts are compared one by one
  refine ⟨?_, ?_, fun htime => ⟨_, hfirstA.result.trans (if_pos htime)⟩,
    fun htime => ⟨_, hfirstB.result.trans (if_pos htime)⟩, ?_, fun id => ?_,
    hsparesA.snapshots b hab.symm, hsparesA.contexts b hab.symm⟩
  · simp only [hthenA.result, hfirstA.result, hplanA, hcontextA, htimeA]
  · simp only [hthenB.result, hfirstB.result, hplanB, hcontextB, htimeB]
  · have hforgeA : afterA.forge = _ := hfirstA.forge
    have hforgeB : afterB.forge = _ := hfirstB.forge
    simp only [hthenB.forge, hforgeA, hplanB, htimeB, hthenA.forge, hforgeB, hplanA, htimeA]
    exact Forge.foldl_after_comm hab _ _ _
  · by_cases hida : id = a
    · have hafterA : afterA.memory.contextOf a = _ := hfirstA.context
      simp only [hida, hspares₂.contexts a hab, hafterA, hthenA.context, hplanA, hcontextA, htimeA]
    by_cases hidb : id = b
    · have hafterB : afterB.memory.contextOf b = _ := hfirstB.context
      simp only [hidb, hthenB.context, hspares₁.contexts b hab.symm, hafterB, hplanB, hcontextB,
        htimeB]
    rw [hspares₂.contexts id hidb, hsparesA.contexts id hida, hspares₁.contexts id hida,
      hsparesB.contexts id hidb]

/-- Bob's change request is approved, and alice's command on it cannot be read. -/
def bobsSnapshot : Snapshot where
  change := ⟨"2", "bob", "", ⟨0⟩, Dict.empty⟩
  comments := [⟨"c1", "alice", "/reviewers many", ⟨⟨1⟩, 4⟩⟩]
  reviews := [⟨"rev", .approved, ⟨⟨2⟩, 1⟩⟩]

/-- A memory with a slot for each of two change requests, and something in both. -/
def twoSlots : Memory :=
  (((Memory.empty.track "2").setSlot 0 ⟨5, ⟨some 3, none, some false, 5⟩⟩).track "1").setSlot 1
    ⟨2, ⟨none, none, some true, 1⟩⟩

/-- Alice's change request wrongly carries the ready label, and bob's one does not. -/
def twoChanges : World where
  forge := ((Forge.empty "revgate-bot").insert (askedSnapshot.setLabel "ready" true)).insert
    bobsSnapshot
  census := .empty
  memory := twoSlots

/-- Both passes reply and write the label, in either order. -/
theorem runPass_comm_twoChanges :
    (("1" : String) ≠ "2" ∧
      twoChanges.forge.snapshot? "1" = some (askedSnapshot.setLabel "ready" true) ∧
      twoChanges.forge.snapshot? "2" = some bobsSnapshot ∧ twoChanges.faults = [] ∧
      twoChanges.interruptions = {} ∧ twoChanges.memory.Separate) ∧
    let first := (plainReconciler.runPass "1" twoChanges).2
    let both := (plainReconciler.runPass "2" first).2
    (first.forge.botComments "1").length = 2 ∧ first.forge.botComments "2" = [] ∧
    (both.forge.botComments "2").length = 1 ∧ both.forge.labelWrites = 2 ∧
    both.forge =
      (plainReconciler.runPass "1" (plainReconciler.runPass "2" twoChanges).2).2.forge := by
  have ha : twoChanges.forge.snapshot? "1" = some (askedSnapshot.setLabel "ready" true) := by
    decide +kernel
  have hb : twoChanges.forge.snapshot? "2" = some bobsSnapshot := by decide +kernel
  have hseparate : twoChanges.memory.Separate :=
    (((Memory.separate_empty.locate "2").setSlot 0 _).locate "1").setSlot 1 _
  obtain ⟨-, -, -, -, hforge, -⟩ := runPass_comm plainReconciler (by decide) ha hb rfl rfl hseparate
  exact ⟨⟨by decide, ha, hb, rfl, rfl, hseparate⟩, by decide +kernel, by decide +kernel,
    by decide +kernel, by decide +kernel, hforge⟩

end ReviewQuorum
