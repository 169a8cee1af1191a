import ReviewQuorum.Proofs.PassCourse
import ReviewQuorum.Reconciler

/-! # Runs of passes

A `Run` is made of passes over one change request, one after another. Users act between the passes
and between the questions of a pass, and the reconciler may be replaced by a fresh one between
passes. `of_pass` says what one pass leaves: it has failed before it had the facts, or it has
carried out its plan, wholly or in part (`Carried`); what it remembers changes only if it completes.
A run keeps the change request hosted and lets it grow, and what each of its steps keeps holds at
its end (`invariant_run`). -/

namespace ReviewQuorum

/-! ### Slots -/

namespace Memory

/-- Every tracked change request has a slot. -/
def WellPlaced (m : Memory) : Prop :=
  ∀ id place, m.tracked.get? id = some place → place < m.slots.length

/-- The slot of a change request that is tracked. -/
structure Tracks (m : Memory) (id : String) (place : Nat) : Prop where
  tracked : m.tracked.get? id = some place
  placed : m.WellPlaced

/-- What is remembered of a change request. -/
def contextOf (m : Memory) (id : String) : Context := (m.look id).1

variable {m : Memory} {id : String} {place : Nat}

theorem wellPlaced_empty : empty.WellPlaced := fun id place h => by
  rw [empty, Dict.get?_empty] at h
  cases h

theorem Tracks.contextOf (h : m.Tracks id place) : m.contextOf id = (m.slotAt place).context := by
  rw [Memory.contextOf, look, locate, h.tracked]

theorem tracks_locate (h : m.WellPlaced) : (m.locate id).2.Tracks id (m.locate id).1 := by
  unfold locate
  split
  · rename_i place hplace
    exact ⟨hplace, h⟩
  · refine ⟨by simp, fun id' place' h' => ?_⟩
    rw [Dict.get?_insert] at h'
    rw [List.length_append, List.length_singleton]
    split at h'
    · cases h'
      exact Nat.lt_succ_self _
    · exact Nat.lt_succ_of_lt (h id' place' h')

theorem Tracks.setSlot (h : m.Tracks id place) (place' : Nat) (slot : Slot) :
    (m.setSlot place' slot).Tracks id place :=
  ⟨h.tracked, fun id' p h' => by
    rw [Memory.setSlot, List.length_set]
    exact h.placed id' p h'⟩

theorem Tracks.slotAt_setSlot (h : m.Tracks id place) (slot : Slot) :
    (m.setSlot place slot).slotAt place = slot := by
  have hlt := h.placed id place h.tracked
  simp [Memory.setSlot, slotAt, hlt]

end Memory

namespace Reconciler

/-- The place, the ticket and the world with which a pass begins. -/
def enter (id : String) (w : World) : Nat × Nat × World :=
  let (place, memory) := w.memory.locate id
  let (ticket, memory) := memory.takeTicket place
  (place, ticket, { w with memory := memory })

/-- What a pass has to know when it begins. -/
structure Entered (id : String) (w : World) (place ticket : Nat) (w₀ : World) : Prop where
  forge : w₀.forge = w.forge
  census : w₀.census = w.census
  calm : w₀.interruptions = w.interruptions
  tracks : w₀.memory.Tracks id place
  ticket : (w₀.memory.slotAt place).latestTicket = ticket
  context : (w₀.memory.slotAt place).context = w.memory.contextOf id

theorem entered_enter {id : String} {w : World} (h : w.memory.WellPlaced) :
    Entered id w (enter id w).1 (enter id w).2.1 (enter id w).2.2 := by
  have ht : (w.memory.locate id).2.Tracks id (w.memory.locate id).1 := Memory.tracks_locate h
  have hslot : (enter id w).2.2.memory.slotAt (enter id w).1 =
      { (w.memory.locate id).2.slotAt (w.memory.locate id).1 with
        latestTicket := ((w.memory.locate id).2.slotAt (w.memory.locate id).1).latestTicket + 1 } :=
    ht.slotAt_setSlot _
  exact ⟨rfl, rfl, rfl, ht.setSlot _ _, by rw [hslot]; rfl, by rw [hslot]; rfl⟩

/-- **The passes over a change request**, between whose questions users act. -/
inductive Passes (users : Account → Prop) (r : Reconciler) (id : String) (w : World) :
    Pass.Trace → Except Failure PassResult → World → Prop
  | intro {t : Pass.Trace} {result : Except Failure PassEnd} {w₁ : World}
    (h : Pass.Courses users id (enter id w).1 (enter id w).2.1
      (r.program ((enter id w).2.2.memory.slotAt (enter id w).1).context) (enter id w).2.2 t result
      w₁) :
    Passes users r id w t (close id (enter id w).1 (enter id w).2.1 result w₁).1
      (close id (enter id w).1 (enter id w).2.1 result w₁).2

end Reconciler

namespace Pass

/-- What a pass has gathered and posted, and what its plan was. -/
structure Carried (who : Account → Prop) (settings : Settings) (context : Context) (w : World)
    (s : Snapshot) (t : Trace) (facts : Facts) (sent unsent : List (String × String))
    (s' : Snapshot) : Prop where
  gathered : Gathered who settings w.census s t facts s'
  posted : postedIn t = sent.map (·.2)
  replies : (Plan.make settings context facts).replies = sent ++ unsent
  stands : ∀ x ∈ sent, ∃ c ∈ s'.comments, c.author = w.forge.bot ∧ c.body = x.2

theorem Gathered.carried {who : Account → Prop} {id : String} {settings : Settings}
    {context : Context} {w w₁ w' : World} {s s₁ s' : Snapshot} {t₁ t₂ : Trace} {facts : Facts}
    {sent unsent : List (String × String)} (hbot : w₁.forge.bot = w.forge.bot)
    (hgathered : Gathered who settings w.census s t₁ facts s₁) (hposted : postedIn t₁ = [])
    (hsplit : (Plan.make settings context facts).replies = sent ++ unsent)
    (hp : Posted who id w₁ s₁ sent t₂ w' s') :
    Carried who settings context w s (t₁ ++ t₂) facts sent unsent s' where
  gathered := by
    obtain ⟨v₁, v₂, h₁, hchange, h₂, hcomments, h₃⟩ := hgathered.seen
    exact
      { changes := by simp [hgathered.changes, hp.changes]
        comments := by simp [hgathered.comments, hp.comments]
        seen := ⟨v₁, v₂, h₁, hchange, h₂, hcomments, h₃.trans hp.grown.grows⟩
        roles := hgathered.roles }
  posted := by simp [hposted, hp.posted]
  replies := hsplit
  stands := hbot ▸ hp.stands

end Pass

namespace Reconciler

/-- **How a pass ends**: it fails before it has the facts, it fails while it carries its plan out,
or it completes. What is remembered of the change request changes only then. -/
inductive Ends (who : Account → Prop) (r : Reconciler) (id : String) (w : World) (s : Snapshot)
    (t : Pass.Trace) (w' : World) (s' : Snapshot) : Except Failure PassResult → Prop
  | fruitless (e : Failure) (hposted : Pass.postedIn t = [])
    (hcontext : w'.memory.contextOf id = w.memory.contextOf id) :
    Ends who r id w s t w' s' (.error e)
  | broken (e : Failure) {facts : Facts} {sent unsent : List (String × String)}
    (h : Pass.Carried who r.settings (w.memory.contextOf id) w s t facts sent unsent s')
    (hcontext : w'.memory.contextOf id = w.memory.contextOf id) :
    Ends who r id w s t w' s' (.error e)
  | completed {facts : Facts} {sent : List (String × String)}
    (h : Pass.Carried who r.settings (w.memory.contextOf id) w s t facts sent [] s')
    (hcontext : w'.memory.contextOf id =
      (Plan.make r.settings (w.memory.contextOf id) facts).nextContext (w.memory.contextOf id)) :
    Ends who r id w s t w' s' (.ok (.completed
      ((Plan.make r.settings (w.memory.contextOf id) facts).report id (w.memory.contextOf id))))

/-- A world after passes, in which the change request has grown and the slots are sound. -/
structure Kept (who : Account → Prop) (id : String) (w : World) (s : Snapshot) (w' : World)
    (s' : Snapshot) : Prop where
  hosts : w'.Hosts who id s'
  grows : s.Grows who s'
  bot : w'.forge.bot = w.forge.bot
  census : w'.census = w.census
  placed : w'.memory.WellPlaced

theorem Kept.trans {who : Account → Prop} {id : String} {w w' w'' : World} {s s' s'' : Snapshot}
    (h : Kept who id w s w' s') (h' : Kept who id w' s' w'' s'') : Kept who id w s w'' s'' :=
  ⟨h'.hosts, h.grows.trans h'.grows, h'.bot.trans h.bot, h'.census.trans h.census, h'.placed⟩

theorem contextOf_of_grown {who : Account → Prop} {id : String} {w w₀ w' : World} {s s' : Snapshot}
    {place ticket : Nat} (he : Entered id w place ticket w₀) (hg : w₀.Grown who id s w' s') :
    w'.memory.contextOf id = w.memory.contextOf id := by
  rw [hg.memory, he.tracks.contextOf, he.context]

/-- **What one pass leaves.** -/
theorem of_pass {users who : Account → Prop} (husers : ∀ a, users a → who a) {r : Reconciler}
    {id : String} {w w' : World} {s : Snapshot} {t : Pass.Trace}
    {result : Except Failure PassResult} (hs : w.Hosts who id s) (hm : w.memory.WellPlaced)
    (h : r.Passes users id w t result w') :
    ∃ s', Kept who id w s w' s' ∧ Ends who r id w s t w' s' result := by
  cases h with
  | @intro result w₁ h =>
    have he : Entered id w _ _ _ := entered_enter hm
    have hs₀ : (enter id w).2.2.Hosts who id s := ⟨by rw [he.forge, hs.snapshot],
      by rw [he.forge]; exact hs.bot, by rw [he.calm, hs.calm]⟩
    have hkept {s₁ : Snapshot} (hg : (enter id w).2.2.Grown who id s w₁ s₁) :
        Kept who id w s w₁ s₁ :=
      ⟨hg.hosts, hg.grows, hg.bot.trans (congrArg Forge.bot he.forge), hg.census.trans he.census,
        hg.memory ▸ he.tracks.placed⟩
    rw [he.context] at h
    rcases Pass.of_program husers hs₀ he.ticket h with ⟨e, s', rfl, hposted, hg⟩ |
      ⟨facts, t₁, t₂, w₂, s₂, sent, unsent, s', rfl, hposted, hg, hgathered, hsplit, hp, hend⟩
    · exact ⟨s', hkept hg, .fruitless e hposted (contextOf_of_grown he hg)⟩
    · have hc : Pass.Carried who r.settings (w.memory.contextOf id) w s (t₁ ++ t₂) facts sent unsent
        s' := hgathered.carried hg.bot hposted hsplit hp
      have hg' := hg.trans hp.grown
      rcases hend with ⟨e, rfl⟩ | ⟨rfl, rfl⟩
      · exact ⟨s', hkept hg', .broken e hc (contextOf_of_grown he hg')⟩
      · have htracks : w₁.memory.Tracks id (enter id w).1 := hg'.memory ▸ he.tracks
        have hctx : (w₁.memory.slotAt (enter id w).1).context = w.memory.contextOf id := by
          rw [hg'.memory, he.context]
        have hk := hkept hg'
        refine ⟨s', ⟨⟨hk.hosts.snapshot, hk.hosts.bot, hk.hosts.calm⟩, hk.grows, hk.bot, hk.census,
          (htracks.setSlot _ _).placed⟩, ?_⟩
        simp only [close, hctx]
        refine .completed hc ?_
        rw [Memory.remember, (htracks.setSlot _ _).contextOf, htracks.slotAt_setSlot]

end Reconciler

/-! ### Runs -/

/-- A pass of a run, with the worlds around it. -/
structure PassRecord where
  before : World
  trace : Pass.Trace
  result : Except Failure PassResult
  after : World

/-- **The runs of passes over a change request**: users act between passes and during them, and the
reconciler is replaced by a fresh one between passes. -/
inductive Run (users : Account → Prop) (r : Reconciler) (id : String) (w₀ : World) :
    List PassRecord → World → Prop
  | start : Run users r id w₀ [] w₀
  | act {ps : List PassRecord} {w w' : World} (h : Run users r id w₀ ps w)
    (ha : World.Act users id w w') : Run users r id w₀ ps w'
  | restart {ps : List PassRecord} {w : World} (h : Run users r id w₀ ps w) :
    Run users r id w₀ ps w.restart
  | pass {ps : List PassRecord} {w w' : World} {t : Pass.Trace} {result : Except Failure PassResult}
    (h : Run users r id w₀ ps w) (hp : r.Passes users id w t result w') :
    Run users r id w₀ (ps ++ [⟨w, t, result, w'⟩]) w'

/-- The policy that a pass reports, if it completes. -/
def PassRecord.policy? (p : PassRecord) : Option Policy :=
  match p.result with
  | .ok (.completed report) => some report.policy
  | _ => none

namespace Reconciler

/-- The pass that nobody interrupts. -/
def record (r : Reconciler) (id : String) (w : World) : PassRecord where
  before := w
  trace := (r.program ((enter id w).2.2.memory.slotAt (enter id w).1).context).exchanges
    (World.answer id (enter id w).1 (enter id w).2.1) (enter id w).2.2
  result := (r.runPass id w).1
  after := (r.runPass id w).2

theorem passes_record (users : Account → Prop) (r : Reconciler) (id : String) (w : World) :
    r.Passes users id w (r.record id w).trace (r.record id w).result (r.record id w).after :=
  .intro (.ofRun _ _)

theorem run_record {users : Account → Prop} {r : Reconciler} {id : String} {w₀ w : World}
    {ps : List PassRecord} (h : Run users r id w₀ ps w) :
    Run users r id w₀ (ps ++ [r.record id w]) (r.record id w).after :=
  h.pass (passes_record users r id w)

variable {users who : Account → Prop} (husers : ∀ a, users a → who a) {r : Reconciler} {id : String}
  {w₀ w w' : World} {s : Snapshot}

include husers

theorem kept_act (hs : w.Hosts who id s) (hm : w.memory.WellPlaced) (h : World.Act users id w w') :
    ∃ s', Kept who id w s w' s' ∧ w'.memory = w.memory := by
  obtain ⟨s', hg⟩ := (h.mono husers).evolves s hs
  exact ⟨s', ⟨hg.hosts, hg.grows, hg.bot, hg.census, hg.memory ▸ hm⟩, hg.memory⟩

omit husers in
theorem kept_restart (hs : w.Hosts who id s) : Kept who id w s w.restart s :=
  ⟨⟨hs.snapshot, hs.bot, hs.calm⟩, .refl s, rfl, rfl, Memory.wellPlaced_empty⟩

/-- **What holds through a run**: it holds at the start, and what users do, a fresh reconciler and a
pass keep it while the change request grows. -/
theorem invariant_run {P : List PassRecord → World → Snapshot → Prop} {s₀ : Snapshot}
    {ps : List PassRecord} (hs : w₀.Hosts who id s₀) (hm : w₀.memory.WellPlaced)
    (start : P [] w₀ s₀)
    (act : ∀ {ps w s w' s'}, Kept who id w₀ s₀ w s → Kept who id w s w' s' →
      w'.memory = w.memory → P ps w s → P ps w' s')
    (restart : ∀ {ps w s}, Kept who id w₀ s₀ w s → P ps w s → P ps w.restart s)
    (pass : ∀ {ps w s t result w' s'}, Kept who id w₀ s₀ w s → Kept who id w s w' s' →
      Ends who r id w s t w' s' result → P ps w s → P (ps ++ [⟨w, t, result, w'⟩]) w' s')
    (h : Run users r id w₀ ps w) : ∃ s, Kept who id w₀ s₀ w s ∧ P ps w s := by
  induction h with
  | start => exact ⟨s₀, ⟨hs, .refl s₀, rfl, rfl, hm⟩, start⟩
  | act _ ha ih =>
    obtain ⟨s₁, hk, hp⟩ := ih
    obtain ⟨s, hk', hmemory⟩ := kept_act husers hk.hosts hk.placed ha
    exact ⟨s, hk.trans hk', act hk hk' hmemory hp⟩
  | restart _ ih =>
    obtain ⟨s₁, hk, hp⟩ := ih
    exact ⟨s₁, hk.trans (kept_restart hk.hosts), restart hk hp⟩
  | pass _ hpass ih =>
    obtain ⟨s₁, hk, hp⟩ := ih
    obtain ⟨s, hk', hends⟩ := of_pass husers hk.hosts hk.placed hpass
    exact ⟨s, hk.trans hk', pass hk hk' hends hp⟩

end Reconciler

end ReviewQuorum
