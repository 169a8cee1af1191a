import ReviewQuorum.Proofs.SolePass

/-! # Calls side by side

Any number of calls may run passes over one change request at once. A call takes its ticket, waits
until nobody holds the lock of the change request, asks its questions one by one and leaves the lock
with its result; between any two of these moves other calls and users go on. A `Batch` holds the
world that the calls share, the one that holds the lock, and the events so far. No collaborator
fails, but the clock may stop: a call whose reply finds no second left aborts. It has no result, and
the lock is free again.

`Sound` is what every step keeps: the change request grows and the rest of the world stays
(`Shares`); the latest ticket was taken by a call of the batch that stands behind no other
(`Standing`); and each call has come as far as its moves say (`Progress`): its questions came to the
milestones of a pass, its comments were fetched after it was requested, and if its ticket was found
outdated, a later one had been taken by then. -/

namespace ReviewQuorum

/-- The comments on a change request. -/
def World.commentsOn (w : World) (id : String) : List Comment :=
  (w.forge.snapshot? id).elim [] Snapshot.comments

/-- What a call does: it takes a ticket of the slot at a place while some comments stand, gets hold
of the lock and with it of the context, asks, and leaves a context behind or aborts. -/
inductive Move
  | requested (place ticket : Nat) (comments : List Comment)
  | entered (context : Context)
  | asked (x : Exchange Query Query.Answer)
  | left (result : Except Failure PassResult) (context : Context)
  | aborted

/-- A move of a call. -/
structure Event where
  call : Nat
  move : Move

/-- The call that holds the lock, and what its pass still has to ask. -/
structure Holder where
  call : Nat
  place : Nat
  ticket : Nat
  rest : Inquiry (Except Failure PassEnd)

/-- Calls that share a world, and their moves so far. -/
structure Batch where
  world : World
  holder? : Option Holder
  history : List Event

/-- The question of a move, with its answer. -/
def Move.exchange? : Move → Option (Exchange Query Query.Answer)
  | asked x => some x
  | _ => none

/-- The moves of a call. -/
def movesOf (i : Nat) (h : List Event) : List Move :=
  h.filterMap fun e => if e.call = i then some e.move else none

/-- What a call has asked. -/
def exchangesOf (i : Nat) (h : List Event) : Pass.Trace := (movesOf i h).filterMap Move.exchange?

namespace Batch

open Reconciler (enter close)

/-- The batch before the first call. -/
def start (w : World) : Batch := ⟨w, none, []⟩

/-- The lock, if a call holds it. -/
def heldBy (b : Batch) (i : Nat) : Option Holder := b.holder?.filter fun k => k.call == i

/-- **What happens next**: users act, a call is requested, gets hold of the lock, asks a question,
leaves or aborts. Collaborators do not fail. -/
inductive Step (r : Reconciler) (id : String) : Batch → Batch → Prop
  | act {w w' : World} {l : Option Holder} {h : List Event}
    (ha : World.Act (fun _ => True) id w w') (hfaults : w'.faults = w.faults) :
    Step r id ⟨w, l, h⟩ ⟨w', l, h⟩
  | request {w : World} {l : Option Holder} {h : List Event} {i : Nat}
    (hnew : ∀ e ∈ h, e.call ≠ i) :
    Step r id ⟨w, l, h⟩ ⟨(enter id w).2.2, l,
      h ++ [⟨i, .requested (enter id w).1 (enter id w).2.1 (w.commentsOn id)⟩]⟩
  | enter {w : World} {h : List Event} {i place ticket : Nat} {comments : List Comment}
    (hrequested : ⟨i, .requested place ticket comments⟩ ∈ h)
    (hwaits : ∀ context, ⟨i, .entered context⟩ ∉ h) :
    Step r id ⟨w, none, h⟩
      ⟨w, some ⟨i, place, ticket, r.program (w.memory.slotAt place).context⟩,
        h ++ [⟨i, .entered (w.memory.slotAt place).context⟩]⟩
  | ask {w : World} {h : List Event} {i place ticket : Nat} {q : Query}
    {next : q.Answer → Inquiry (Except Failure PassEnd)} :
    Step r id ⟨w, some ⟨i, place, ticket, .ask q next⟩, h⟩
      ⟨(World.answer id place ticket q w).2,
        some ⟨i, place, ticket, next (World.answer id place ticket q w).1⟩,
        h ++ [⟨i, .asked ⟨q, (World.answer id place ticket q w).1⟩⟩]⟩
  | leave {w : World} {h : List Event} {i place ticket : Nat} {result : Except Failure PassEnd}
    (hends : result ≠ .error .aborted) :
    Step r id ⟨w, some ⟨i, place, ticket, .done result⟩, h⟩
      ⟨(close id place ticket result w).2, none,
        h ++ [⟨i, .left (close id place ticket result w).1
          ((close id place ticket result w).2.memory.slotAt place).context⟩]⟩
  | abort {w : World} {h : List Event} {i place ticket : Nat} :
    Step r id ⟨w, some ⟨i, place, ticket, .done (.error .aborted)⟩, h⟩
      ⟨w, none, h ++ [⟨i, .aborted⟩]⟩

/-- **A batch that has come about** in a world. -/
def Run (r : Reconciler) (id : String) (w : World) (b : Batch) : Prop :=
  Relation.ReflTransGen (Step r id) (start w) b

end Batch

/-! ### The world that calls share -/

theorem World.Hosts.commentsOn {who : Account → Prop} {id : String} {w : World} {s : Snapshot}
    (h : w.Hosts who id s) : w.commentsOn id = s.comments := by
  rw [World.commentsOn, h.snapshot]
  rfl

theorem Memory.Tracks.locate_eq {m : Memory} {id : String} {place : Nat}
    (h : m.Tracks id place) : m.locate id = (place, m) := by
  rw [locate, h.tracked]

namespace Batch

open Reconciler (enter close)

/-- **What calls leave of the world that they share.** -/
structure Shares (id : String) (w w' : World) : Prop where
  hosted : ∃ s, w'.HostsAlone id s
  faultless : w'.faults = []
  bot : w'.forge.bot = w.forge.bot
  census : w'.census = w.census
  placed : w'.memory.WellPlaced
  tracks : ∀ place, w.memory.Tracks id place → w'.memory.Tracks id place
  comments : Comment.Continues (fun _ => True) (w.commentsOn id) (w'.commentsOn id)

namespace Shares

variable {id : String} {w w' w'' : World}

theorem refl {s : Snapshot} (hs : w.HostsAlone id s) (hm : w.memory.WellPlaced)
    (hf : w.faults = []) : Shares id w w :=
  ⟨⟨s, hs⟩, hf, rfl, rfl, hm, fun _ h => h, .refl⟩

theorem trans (h : Shares id w w') (h' : Shares id w' w'') : Shares id w w'' :=
  ⟨h'.hosted, h'.faultless, h'.bot.trans h.bot, h'.census.trans h.census, h'.placed,
    fun place hp => h'.tracks place (h.tracks place hp), h.comments.trans h'.comments⟩

theorem of_grown {s s' : Snapshot} (hs : w.HostsAlone id s) (hm : w.memory.WellPlaced)
    (hg : w.Grown (fun _ => True) id s w' s') (hf : w'.faults = []) : Shares id w w' where
  hosted := ⟨s', hg.hosts⟩
  faultless := hf
  bot := hg.bot
  census := hg.census
  placed := hg.memory ▸ hm
  tracks place h := hg.memory ▸ h
  comments := by
    rw [hs.commentsOn, hg.hosts.commentsOn]
    exact hg.grows.comments

theorem enter (h : Shares id w w) : Shares id w (Reconciler.enter id w).2.2 where
  hosted := by
    obtain ⟨s, hs⟩ := h.hosted
    exact ⟨s, hs.snapshot, trivial, hs.calm⟩
  faultless := h.faultless
  bot := rfl
  census := rfl
  placed := (Reconciler.entered_enter h.placed).tracks.placed
  tracks place hp := by
    have he : Reconciler.Entered id w _ _ _ := Reconciler.entered_enter h.placed
    rw [show place = (Reconciler.enter id w).1 by rw [Reconciler.enter, hp.locate_eq]]
    exact he.tracks
  comments := .refl

theorem close (h : Shares id w w) (place ticket : Nat) (result : Except Failure PassEnd) :
    Shares id w (Reconciler.close id place ticket result w).2 := by
  cases result with
  | error e => exact h
  | ok last =>
    cases last with
    | superseded => exact h
    | completed plan =>
      obtain ⟨s, hs⟩ := h.hosted
      exact ⟨⟨s, hs.snapshot, trivial, hs.calm⟩, h.faultless, rfl, rfl,
        fun id' p hp => by
          rw [Reconciler.close, Memory.remember, Memory.setSlot, List.length_set]
          exact h.placed id' p hp,
        fun p hp => hp.setSlot _ _, .refl⟩

/-- **Every step** leaves that of the world. -/
theorem step {r : Reconciler} {b b' : Batch} (h : Shares id w b.world) (hstep : Step r id b b') :
    Shares id b.world b'.world := by
  obtain ⟨s, hs⟩ := h.hosted
  have hrefl := refl hs h.placed h.faultless
  cases hstep with
  | act ha hfaults =>
    obtain ⟨s', hg⟩ := ha.evolves s hs
    exact of_grown hs h.placed hg (hfaults.trans h.faultless)
  | request hnew => exact hrefl.enter
  | enter hrequested hwaits => exact hrefl
  | @ask w h' i place ticket q next =>
    have hevolves : w.Evolves (fun _ => True) id (World.answer id place ticket q w).2 :=
      World.answer_evolves q w
    obtain ⟨s', hg⟩ := hevolves s hs
    have hfaults := (hs.stepped place ticket q).faults
    rw [h.faultless, List.length_nil, Nat.le_zero] at hfaults
    exact of_grown hs h.placed hg (List.length_eq_zero_iff.mp hfaults)
  | leave hends => exact hrefl.close _ _ _
  | abort => exact hrefl

end Shares

end Batch

/-! ### Passes on their way -/

namespace Pass

/-- **A pass on its way**: it has asked `t`, and whatever the answers to the rest are, it comes as
far as passes do. -/
def Underway (id : String) (place ticket : Nat) (settings : Settings) (context : Context)
    (t : Trace) (rest : Inquiry (Except Failure PassEnd)) : Prop :=
  ∀ (w : World) (t' : Trace) (result : Except Failure PassEnd) (w' : World),
    Course (World.answer id place ticket) (fun _ _ => True) rest w t' result w' →
      Reaches settings context (t ++ t') result

namespace Underway

variable {id : String} {place ticket : Nat} {settings : Settings} {context : Context} {t : Trace}

theorem program (retry : Retry) :
    Underway id place ticket settings context [] (program settings retry context).run :=
  fun _ _ _ _ h => reaches_program h

theorem ask {q : Query} {next : q.Answer → Inquiry (Except Failure PassEnd)}
    (h : Underway id place ticket settings context t (.ask q next)) (w : World) :
    Underway id place ticket settings context
      (t ++ [⟨q, (World.answer id place ticket q w).1⟩])
      (next (World.answer id place ticket q w).1) := fun _ _ _ _ hc => by
  rw [List.append_assoc]
  exact h _ _ _ _ (.ask (.env trivial hc))

theorem done {result : Except Failure PassEnd}
    (h : Underway id place ticket settings context t (.done result)) (w : World) :
    Reaches settings context t result := by
  simpa using h _ _ _ _ (.done result w)

theorem exists_reaches {rest : Inquiry (Except Failure PassEnd)}
    (h : Underway id place ticket settings context t rest) (w : World) :
    ∃ t' result, Reaches settings context (t ++ t') result := ⟨_, _, h _ _ _ _ (.ofRun rest w)⟩

end Underway

end Pass

/-! ### What holds of a batch -/

@[simp] theorem movesOf_concat (i : Nat) (h : List Event) (e : Event) :
    movesOf i (h ++ [e]) = movesOf i h ++ if e.call = i then [e.move] else [] := by
  by_cases hi : e.call = i <;> simp [movesOf, hi]

theorem mem_movesOf {i : Nat} {h : List Event} {m : Move} : m ∈ movesOf i h ↔ ⟨i, m⟩ ∈ h := by
  simp only [movesOf, List.mem_filterMap, Option.ite_none_right_eq_some, Option.some.injEq]
  constructor
  · rintro ⟨e, he, rfl, rfl⟩
    exact he
  · exact fun h => ⟨_, h, rfl, rfl⟩

namespace Batch

open Reconciler (enter close)

/-- A call has found that its ticket is not the latest, and a later one had been taken before. -/
def Overtaken (h : List Event) (i ticket : Nat) : Prop :=
  ∃ h₁ h₂ j place ticket' comments, h = h₁ ++ ⟨i, .asked ⟨.isLatest, false⟩⟩ :: h₂ ∧
    ⟨j, .requested place ticket' comments⟩ ∈ h₁ ∧ ticket < ticket'

/-- What a call has asked that was requested while some comments stood. -/
structure Asked (census : RoleTable) (h : List Event) (i ticket : Nat) (comments : List Comment)
    (t : Pass.Trace) : Prop where
  faultless : ∀ x ∈ t, ∀ e, x.failure? = some e → e = .aborted
  truthful : Pass.Truthful census t
  covers : ∀ fetched ∈ Pass.commentsIn t, comments ⊆ fetched
  overtaken : ⟨.isLatest, false⟩ ∈ t → Overtaken h i ticket

/-- **How far a call has come**, by its moves and by whether it holds the lock. -/
inductive Progress (r : Reconciler) (id : String) (census : RoleTable) (w : World) (h : List Event)
    (i : Nat) : List Move → Option Holder → Prop
  | absent : Progress r id census w h i [] none
  | waiting (place ticket : Nat) (comments : List Comment) :
    Progress r id census w h i [.requested place ticket comments] none
  | inside {k : Holder} {comments : List Comment} {context : Context} {t : Pass.Trace}
    (hcontext : (w.memory.slotAt k.place).context = context)
    (hasked : Asked census h i k.ticket comments t)
    (hpass : Pass.Underway id k.place k.ticket r.settings context t k.rest) :
    Progress r id census w h i
      (.requested k.place k.ticket comments :: .entered context :: t.map .asked) (some k)
  | left {place ticket : Nat} {comments : List Comment} {context : Context} {t : Pass.Trace}
    {result : Except Failure PassEnd} {w₁ : World}
    (hcontext : (w₁.memory.slotAt place).context = context)
    (hasked : Asked census h i ticket comments t)
    (hpass : Pass.Reaches r.settings context t result) (hends : result ≠ .error .aborted) :
    Progress r id census w h i
      (.requested place ticket comments :: .entered context :: (t.map .asked ++
        [.left (close id place ticket result w₁).1
          ((close id place ticket result w₁).2.memory.slotAt place).context])) none
  | aborted {place ticket : Nat} {comments : List Comment} {context : Context} {t : Pass.Trace} :
    Progress r id census w h i
      (.requested place ticket comments :: .entered context :: (t.map .asked ++ [.aborted])) none

/-- What holds of a request: its ticket is not beyond the latest, which a call of the batch took. -/
structure Standing (id : String) (b : Batch) (place ticket : Nat) (comments : List Comment) :
    Prop where
  tracks : b.world.memory.Tracks id place
  stood : comments ⊆ b.world.commentsOn id
  le : ticket ≤ (b.world.memory.slotAt place).latestTicket
  latest : ∃ j comments', ⟨j, .requested place (b.world.memory.slotAt place).latestTicket
    comments'⟩ ∈ b.history

/-- **What holds of a batch.** -/
structure Sound (r : Reconciler) (id : String) (w₀ : World) (b : Batch) : Prop where
  shares : Shares id w₀ b.world
  requests : ∀ i place ticket comments, ⟨i, .requested place ticket comments⟩ ∈ b.history →
    Standing id b place ticket comments
  progress : ∀ i, Progress r id w₀.census b.world b.history i (movesOf i b.history) (b.heldBy i)

theorem Overtaken.mono {h h' : List Event} {i ticket : Nat} (ho : Overtaken h i ticket)
    (hh : h <+: h') : Overtaken h' i ticket := by
  obtain ⟨h₁, h₂, j, place, ticket', comments, rfl, hj, hlt⟩ := ho
  obtain ⟨es, rfl⟩ := hh
  exact ⟨h₁, h₂ ++ es, j, place, ticket', comments, by simp, hj, hlt⟩

theorem Asked.mono {census : RoleTable} {h h' : List Event} {i ticket : Nat}
    {comments : List Comment} {t : Pass.Trace} (ha : Asked census h i ticket comments t)
    (hh : h <+: h') : Asked census h' i ticket comments t :=
  ⟨ha.faultless, ha.truthful, ha.covers, fun hx => (ha.overtaken hx).mono hh⟩

/-- What others do does not change how far a call has come. -/
theorem Progress.mono {r : Reconciler} {id : String} {census : RoleTable} {w w' : World}
    {h h' : List Event} {i : Nat} {ms : List Move} {l : Option Holder}
    (hp : Progress r id census w h i ms l) (hh : h <+: h')
    (hcontext : ∀ k, l = some k →
      (w'.memory.slotAt k.place).context = (w.memory.slotAt k.place).context) :
    Progress r id census w' h' i ms l := by
  cases hp with
  | absent => exact .absent
  | waiting place ticket comments => exact .waiting place ticket comments
  | inside hc hasked hpass => exact .inside ((hcontext _ rfl).trans hc) (hasked.mono hh) hpass
  | left hc hasked hpass hends => exact .left hc (hasked.mono hh) hpass hends
  | aborted => exact .aborted

theorem Standing.mono {id : String} {b b' : Batch} {place ticket : Nat} {comments : List Comment}
    (hr : Standing id b place ticket comments) (hs : Shares id b.world b'.world)
    (hh : b.history ⊆ b'.history)
    (hlatest : (b'.world.memory.slotAt place).latestTicket =
      (b.world.memory.slotAt place).latestTicket) : Standing id b' place ticket comments where
  tracks := hs.tracks place hr.tracks
  stood := fun _ hc => hs.comments.subset (hr.stood hc)
  le := hlatest ▸ hr.le
  latest := by
    obtain ⟨j, comments', hj⟩ := hr.latest
    exact ⟨j, comments', hlatest ▸ hh hj⟩

theorem heldBy_of_ne {w : World} {k : Holder} {h : List Event} {i : Nat} (hne : k.call ≠ i) :
    (Batch.mk w (some k) h).heldBy i = none := by
  simp [heldBy, hne]

theorem heldBy_of_eq {w : World} {k : Holder} {h : List Event} {i : Nat} (heq : k.call = i) :
    (Batch.mk w (some k) h).heldBy i = some k := by
  simp [heldBy, heq]

theorem latestTicket_close (id : String) (place ticket p : Nat) (result : Except Failure PassEnd)
    (w : World) : ((close id place ticket result w).2.memory.slotAt p).latestTicket =
      (w.memory.slotAt p).latestTicket := by
  cases result with
  | error e => rfl
  | ok last =>
    cases last with
    | superseded => rfl
    | completed plan =>
      simp only [close, Memory.remember, Memory.setSlot, Memory.slotAt,
        List.getD_eq_getElem?_getD, List.getElem?_set]
      split
      · rename_i heq
        subst heq
        split
        · rfl
        · rename_i hlt
          rw [List.getElem?_eq_none (Nat.le_of_not_lt hlt)]
      · rfl

/-! ### What a step keeps -/

section Steps

variable {r : Reconciler} {id : String} {w₀ w w' : World} {l : Option Holder} {h : List Event}
  {i place ticket : Nat}

theorem sound_start {s : Snapshot} (hs : w.HostsAlone id s) (hm : w.memory.WellPlaced)
    (hf : w.faults = []) : Sound r id w (start w) :=
  ⟨.refl hs hm hf, nofun, fun _ => .absent⟩

/-- A call that neither moves nor holds the lock is as far as before. -/
theorem Progress.bystander {census : RoleTable} {e : Event}
    (hp : Progress r id census w h i (movesOf i h) none) (hne : e.call ≠ i) (w' : World) :
    Progress r id census w' (h ++ [e]) i (movesOf i (h ++ [e])) none := by
  rw [movesOf_concat, if_neg hne, List.append_nil]
  exact hp.mono (List.prefix_append _ _) nofun

/-- A call that has been requested and has not got hold of the lock waits. -/
theorem Progress.eq_of_waiting {census : RoleTable} {ms : List Move} {comments : List Comment}
    (hp : Progress r id census w h i ms none) (hmem : .requested place ticket comments ∈ ms)
    (hwaits : ∀ context, .entered context ∉ ms) : ms = [.requested place ticket comments] := by
  cases hp with
  | absent => cases hmem
  | waiting place ticket comments => rw [List.mem_singleton.mp hmem]
  | left hcontext hasked hpass hends =>
    exact absurd (List.mem_cons_of_mem _ List.mem_cons_self) (hwaits _)
  | aborted => exact absurd (List.mem_cons_of_mem _ List.mem_cons_self) (hwaits _)

theorem Sound.inside {k : Holder} (hb : Sound r id w₀ ⟨w, some k, h⟩) :
    ∃ comments t, movesOf k.call h = .requested k.place k.ticket comments ::
        .entered (w.memory.slotAt k.place).context :: t.map .asked ∧
      Asked w₀.census h k.call k.ticket comments t ∧
      Pass.Underway id k.place k.ticket r.settings (w.memory.slotAt k.place).context t k.rest ∧
      Standing id ⟨w, some k, h⟩ k.place k.ticket comments := by
  have hp := hb.progress k.call
  rw [heldBy_of_eq rfl] at hp
  generalize hms : movesOf k.call h = ms at hp
  cases hp with
  | @inside k comments context t hcontext hasked hpass =>
    refine ⟨comments, t, by rw [← hcontext], hasked, hcontext ▸ hpass, ?_⟩
    refine hb.requests k.call _ _ _ (mem_movesOf.mp ?_)
    rw [hms]
    exact List.mem_cons_self

theorem Sound.requests_of_step {w' : World} {l' : Option Holder} {e : Event}
    (hb : Sound r id w₀ ⟨w, l, h⟩) (hs : Shares id w w')
    (hlatest : ∀ p, (w'.memory.slotAt p).latestTicket = (w.memory.slotAt p).latestTicket)
    (he : ∀ place ticket comments, e.move ≠ .requested place ticket comments) :
    ∀ i place ticket comments, ⟨i, .requested place ticket comments⟩ ∈ h ++ [e] →
      Standing id ⟨w', l', h ++ [e]⟩ place ticket comments := by
  intro i place ticket comments hmem
  rcases List.mem_append.mp hmem with hmem | hmem
  · exact (hb.requests i place ticket comments hmem).mono hs (List.subset_append_left _ _)
      (hlatest place)
  · exact absurd (congrArg Event.move (List.mem_singleton.mp hmem)).symm (he _ _ _)

theorem Sound.act (hb : Sound r id w₀ ⟨w, l, h⟩) (ha : World.Act (fun _ => True) id w w')
    (hfaults : w'.faults = w.faults) : Sound r id w₀ ⟨w', l, h⟩ := by
  have hs := hb.shares.step (r := r) (.act ha hfaults)
  obtain ⟨s, hs₀⟩ := hb.shares.hosted
  obtain ⟨s', hg⟩ := ha.evolves s hs₀
  have hmemory : w'.memory = w.memory := hg.memory
  refine ⟨hb.shares.trans hs, fun i place ticket comments hmem => ?_, fun i => ?_⟩
  · exact (hb.requests i place ticket comments hmem).mono hs (List.Subset.refl _)
      (by rw [hmemory])
  · exact (hb.progress i).mono List.prefix_rfl fun k _ => by rw [hmemory]

theorem Sound.request (hb : Sound r id w₀ ⟨w, l, h⟩) (hnew : ∀ e ∈ h, e.call ≠ i) :
    Sound r id w₀ ⟨(enter id w).2.2, l,
      h ++ [⟨i, .requested (enter id w).1 (enter id w).2.1 (w.commentsOn id)⟩]⟩ := by
  have hs := hb.shares.step (r := r) (.request hnew)
  have he : Reconciler.Entered id w _ _ _ := Reconciler.entered_enter hb.shares.placed
  -- every slot of the batch is the one in which the ticket is taken
  have hplace {p : Nat} (hp : w.memory.Tracks id p) : p = (enter id w).1 := by
    rw [enter, hp.locate_eq]
  refine ⟨hb.shares.trans hs, fun j p t comments hmem => ?_, fun j => ?_⟩
  · have hnewest : ∃ j comments', (⟨j, .requested (enter id w).1
        ((enter id w).2.2.memory.slotAt (enter id w).1).latestTicket comments'⟩ : Event) ∈
        h ++ [⟨i, .requested (enter id w).1 (enter id w).2.1 (w.commentsOn id)⟩] :=
      ⟨i, w.commentsOn id, List.mem_append_right _ (by rw [he.ticket]; exact List.mem_cons_self)⟩
    rcases List.mem_append.mp hmem with hmem | hmem
    · have hr := hb.requests j p t comments hmem
      obtain rfl := hplace hr.tracks
      refine ⟨hs.tracks _ hr.tracks, hr.stood, ?_, hnewest⟩
      rw [he.ticket, enter, hr.tracks.locate_eq]
      exact Nat.le_succ_of_le hr.le
    · cases List.mem_singleton.mp hmem
      exact ⟨he.tracks, List.Subset.refl _, he.ticket.ge, hnewest⟩
  · have hp := hb.progress j
    by_cases hj : i = j
    · subst hj
      have hnone : movesOf i h = [] := List.filterMap_eq_nil_iff.mpr fun e he => if_neg (hnew e he)
      rw [hnone] at hp
      rw [movesOf_concat, if_pos rfl, hnone]
      change Progress r id w₀.census _ _ i _ ((Batch.mk w l h).heldBy i)
      generalize (Batch.mk w l h).heldBy i = held at hp ⊢
      cases hp with
      | absent => exact .waiting _ _ _
    · -- the call that holds the lock keeps its context
      rw [movesOf_concat, if_neg hj, List.append_nil]
      refine hp.mono (List.prefix_append _ _) fun k hk => ?_
      have hl : l = some k := (Option.filter_eq_some_iff.mp hk).1
      subst hl
      obtain ⟨comments, t, -, -, -, hr⟩ := hb.inside
      have htracks : w.memory.Tracks id k.place := hr.tracks
      rw [hplace htracks, he.context, ← hplace htracks, htracks.contextOf]

theorem Sound.enter {comments : List Comment} (hb : Sound r id w₀ ⟨w, none, h⟩)
    (hrequested : ⟨i, .requested place ticket comments⟩ ∈ h)
    (hwaits : ∀ context, ⟨i, .entered context⟩ ∉ h) :
    Sound r id w₀ ⟨w, some ⟨i, place, ticket, r.program (w.memory.slotAt place).context⟩,
      h ++ [⟨i, .entered (w.memory.slotAt place).context⟩]⟩ := by
  have hs := hb.shares.step (r := r) (.enter hrequested hwaits)
  refine ⟨hb.shares.trans hs, hb.requests_of_step hs (fun _ => rfl) nofun, fun j => ?_⟩
  have hp := hb.progress j
  by_cases hj : i = j
  · subst hj
    have hms := hp.eq_of_waiting (mem_movesOf.mpr hrequested) fun context hc =>
      hwaits context (mem_movesOf.mp hc)
    rw [movesOf_concat, if_pos rfl, hms, heldBy_of_eq rfl]
    have hpass : Pass.Underway id place ticket r.settings (w.memory.slotAt place).context []
      (r.program (w.memory.slotAt place).context) := .program _
    exact .inside (k := ⟨i, place, ticket, _⟩) (t := []) rfl ⟨nofun, nofun, nofun, nofun⟩ hpass
  · rw [heldBy_of_ne hj]
    exact hp.bystander hj w

theorem Asked.concat {s : Snapshot} {comments : List Comment} {t : Pass.Trace} {q : Query}
    {next : q.Answer → Inquiry (Except Failure PassEnd)}
    (hb : Sound r id w₀ ⟨w, some ⟨i, place, ticket, .ask q next⟩, h⟩)
    (ha : Asked w₀.census h i ticket comments t) (hs : w.HostsAlone id s)
    (hr : Standing id ⟨w, some ⟨i, place, ticket, .ask q next⟩, h⟩ place ticket comments) :
    Asked w₀.census (h ++ [⟨i, .asked ⟨q, (World.answer id place ticket q w).1⟩⟩]) i ticket comments
      (t ++ [⟨q, (World.answer id place ticket q w).1⟩]) := by
  have hx := hs.stepped place ticket q
  generalize (⟨q, (World.answer id place ticket q w).1⟩ : Exchange Query Query.Answer) = x at hx ⊢
  refine ⟨?_, ?_, ?_, ?_⟩
  · intro y hmem e he
    rcases List.mem_append.mp hmem with hmem | hmem
    · exact ha.faultless y hmem e he
    · obtain rfl := List.mem_singleton.mp hmem
      -- there is no fault to take
      have hnone : w.faults = [] := hb.shares.faultless
      rcases hx.fails e he with hfewer | ⟨haborted, -⟩
      · rw [hnone] at hfewer
        exact absurd hfewer (Nat.not_lt_zero _)
      · exact haborted
  · intro account role hmem
    rcases List.mem_append.mp hmem with hmem | hmem
    · exact ha.truthful account role hmem
    · rw [hx.truthful account role (List.mem_singleton.mp hmem).symm, hb.shares.census]
  · intro fetched hmem
    rcases Pass.mem_commentsIn_concat.mp hmem with hmem | hcomments
    · exact ha.covers fetched hmem
    · have heq : fetched = s.comments := hx.eq_of_comments hcomments
      rw [heq, ← hs.commentsOn]
      exact hr.stood
  · intro hmem
    rcases List.mem_append.mp hmem with hmem | hmem
    · exact (ha.overtaken hmem).mono (List.prefix_append _ _)
    · -- the latest ticket is another one, and a call of the batch has it
      obtain rfl := List.mem_singleton.mp hmem
      have hlatest : false = ((w.memory.slotAt place).latestTicket == ticket) := hx.shows _ rfl
      obtain ⟨j, comments', hj⟩ := hr.latest
      have hne : (w.memory.slotAt place).latestTicket ≠ ticket := by simpa using hlatest.symm
      exact ⟨h, [], j, place, _, comments', rfl, hj, lt_of_le_of_ne hr.le hne.symm⟩

theorem Sound.ask {q : Query} {next : q.Answer → Inquiry (Except Failure PassEnd)}
    (hb : Sound r id w₀ ⟨w, some ⟨i, place, ticket, .ask q next⟩, h⟩) :
    Sound r id w₀ ⟨(World.answer id place ticket q w).2,
      some ⟨i, place, ticket, next (World.answer id place ticket q w).1⟩,
      h ++ [⟨i, .asked ⟨q, (World.answer id place ticket q w).1⟩⟩]⟩ := by
  have hs := hb.shares.step (r := r) .ask
  obtain ⟨s, hs₀⟩ := hb.shares.hosted
  have hmemory : (World.answer id place ticket q w).2.memory = w.memory :=
    (hs₀.stepped place ticket q).memory
  refine ⟨hb.shares.trans hs, hb.requests_of_step hs (fun _ => by rw [hmemory]) nofun,
    fun j => ?_⟩
  by_cases hj : i = j
  · subst hj
    obtain ⟨comments, t, hms, hasked, hpass, hr⟩ := hb.inside
    have hasked' := hasked.concat hb hs₀ hr
    have hpass' := hpass.ask w
    rw [movesOf_concat, if_pos rfl, hms, heldBy_of_eq rfl]
    simpa using Progress.inside (k := ⟨i, place, ticket, next (World.answer id place ticket q w).1⟩)
      (by rw [hmemory]) hasked' hpass'
  · have hp := hb.progress j
    rw [heldBy_of_ne hj] at hp ⊢
    exact hp.bystander hj _

theorem Sound.leave {result : Except Failure PassEnd} (hends : result ≠ .error .aborted)
    (hb : Sound r id w₀ ⟨w, some ⟨i, place, ticket, .done result⟩, h⟩) :
    Sound r id w₀ ⟨(close id place ticket result w).2, none,
      h ++ [⟨i, .left (close id place ticket result w).1
        ((close id place ticket result w).2.memory.slotAt place).context⟩]⟩ := by
  have hs := hb.shares.step (r := r) (.leave hends)
  refine ⟨hb.shares.trans hs,
    hb.requests_of_step hs (fun p => latestTicket_close id place ticket p result w) nofun,
    fun j => ?_⟩
  by_cases hj : i = j
  · subst hj
    obtain ⟨comments, t, hms, hasked, hpass, -⟩ := hb.inside
    rw [movesOf_concat, if_pos rfl, hms]
    exact .left rfl (hasked.mono (List.prefix_append _ _)) (hpass.done w) hends
  · have hp := hb.progress j
    rw [heldBy_of_ne hj] at hp
    exact hp.bystander hj _

theorem Sound.abort (hb : Sound r id w₀ ⟨w, some ⟨i, place, ticket, .done (.error .aborted)⟩, h⟩) :
    Sound r id w₀ ⟨w, none, h ++ [⟨i, .aborted⟩]⟩ := by
  have hs := hb.shares.step (r := r) .abort
  refine ⟨hb.shares.trans hs, hb.requests_of_step hs (fun _ => rfl) nofun, fun j => ?_⟩
  by_cases hj : i = j
  · subst hj
    obtain ⟨comments, t, hms, -⟩ := hb.inside
    rw [movesOf_concat, if_pos rfl, hms]
    exact .aborted
  · have hp := hb.progress j
    rw [heldBy_of_ne hj] at hp
    exact hp.bystander hj _

/-- **Every step keeps what holds of a batch.** -/
theorem Sound.step {b b' : Batch} (hb : Sound r id w₀ b) (hstep : Step r id b b') :
    Sound r id w₀ b' := by
  cases hstep with
  | act ha hfaults => exact hb.act ha hfaults
  | request hnew => exact hb.request hnew
  | enter hrequested hwaits => exact hb.enter hrequested hwaits
  | ask => exact hb.ask
  | leave hends => exact hb.leave hends
  | abort => exact hb.abort

/-- **It holds of every batch that has come about.** -/
theorem sound_run {s : Snapshot} {b : Batch} (hs : w.HostsAlone id s) (hm : w.memory.WellPlaced)
    (hf : w.faults = []) (hrun : Run r id w b) : Sound r id w b := by
  induction hrun with
  | refl => exact sound_start hs hm hf
  | tail _ hstep ih => exact ih.step hstep

end Steps

/-! ### Calls that nobody interleaves -/

section Alone

variable {r : Reconciler} {id : String} {w : World} {b : Batch}

/-- A call is requested. -/
def request (id : String) (i : Nat) (b : Batch) : Batch :=
  ⟨(enter id b.world).2.2, b.holder?,
    b.history ++ [⟨i, .requested (enter id b.world).1 (enter id b.world).2.1
      (b.world.commentsOn id)⟩]⟩

/-- How the pass of a call ends whose questions are asked in a row, and the world right before it
closes. -/
def passOf (r : Reconciler) (id : String) (place ticket : Nat) (b : Batch) :
    Except Failure PassEnd × World :=
  (r.program (b.world.memory.slotAt place).context).run (World.answer id place ticket) b.world

/-- A call gets hold of the lock, asks its questions in a row and leaves. -/
def serve (r : Reconciler) (id : String) (i place ticket : Nat) (b : Batch) : Batch :=
  let context := (b.world.memory.slotAt place).context
  let last := passOf r id place ticket b
  let closed := close id place ticket last.1 last.2
  ⟨closed.2, none, b.history ++ [⟨i, .entered context⟩] ++
    ((r.program context).exchanges (World.answer id place ticket) b.world).map
      (fun x => ⟨i, .asked x⟩) ++ [⟨i, .left closed.1 (closed.2.memory.slotAt place).context⟩]⟩

theorem subset_serve (r : Reconciler) (id : String) (i place ticket : Nat) (b : Batch) :
    b.history ⊆ (b.serve r id i place ticket).history := fun _ h =>
  List.mem_append_left _ (List.mem_append_left _ (List.mem_append_left _ h))

theorem left_mem_serve (r : Reconciler) (id : String) (i place ticket : Nat) (b : Batch) :
    ∃ context, ⟨i, .left (close id place ticket (b.passOf r id place ticket).1
      (b.passOf r id place ticket).2).1 context⟩ ∈ (b.serve r id i place ticket).history :=
  ⟨_, List.mem_append_right _ List.mem_cons_self⟩

theorem Run.request {i : Nat} (hrun : Run r id w b) (hnew : ∀ e ∈ b.history, e.call ≠ i) :
    Run r id w (b.request id i) := hrun.tail (.request hnew)

theorem Run.askAll {i place ticket : Nat} {w₁ : World} {h : List Event}
    {p : Inquiry (Except Failure PassEnd)} (hrun : Run r id w ⟨w₁, some ⟨i, place, ticket, p⟩, h⟩) :
    Run r id w ⟨(p.run (World.answer id place ticket) w₁).2,
      some ⟨i, place, ticket, .done (p.run (World.answer id place ticket) w₁).1⟩,
      h ++ (p.exchanges (World.answer id place ticket) w₁).map fun x => ⟨i, .asked x⟩⟩ := by
  induction p generalizing w₁ h with
  | done result => simpa [Program.exchanges, Program.run] using hrun
  | ask q next ih => simpa [Program.exchanges, Program.run] using ih _ (hrun.tail .ask)

theorem Run.serve {i place ticket : Nat} {comments : List Comment} (hrun : Run r id w b)
    (hfree : b.holder? = none) (hrequested : ⟨i, .requested place ticket comments⟩ ∈ b.history)
    (hwaits : ∀ context, ⟨i, .entered context⟩ ∉ b.history)
    (hends : (b.passOf r id place ticket).1 ≠ .error .aborted) :
    Run r id w (b.serve r id i place ticket) := by
  obtain ⟨w₁, l, h⟩ := b
  subst hfree
  exact (Run.askAll (hrun.tail (.enter hrequested hwaits))).tail (.leave hends)

end Alone

end Batch

end ReviewQuorum
