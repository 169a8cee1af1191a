import ReviewQuorum.Proofs.LatestReview
import ReviewQuorum.Proofs.PassCourse

/-! # The milestones of a pass

Most of what a pass asks leaves nothing behind: roles, pauses and calls that fail. What is left are
its `Milestone`s, the facts it has fetched, the answer about its ticket, the replies it has posted
and the label it has written.

Whoever answers, and whatever happens between the questions, a pass comes to its milestones in one
order (`Pass.reaches_program`): the change request, the comments and the reviews, then the ticket;
after a ticket that is not the latest one nothing, and after the latest one the milestones of the
plan, all of them or as many as come before a call that fails. A pass that fails does so at its last
exchange (`Pass.FailsAt`), and while it gathers the facts it only asks (`Pass.Reading`). Where the
answers about roles are those of a census, the plan is the one for the census
(`Plan.make_of_learnt`). -/

namespace ReviewQuorum

/-- Whether a question leaves a change request as it is. -/
def Query.isRead : Query → Bool
  | postComment _ => false
  | setLabel _ _ => false
  | _ => true

/-- What a pass has come to with an exchange. -/
inductive Milestone
  | change (change : ChangeRequest)
  | comments (comments : List Comment)
  | reviews (reviews : List Review)
  | ticket (latest : Bool)
  | posted (body : String)
  | labelled (label : String) (present : Bool)
deriving DecidableEq

/-- Whether a milestone leaves a change request as it is. -/
def Milestone.isRead : Milestone → Bool
  | posted _ => false
  | labelled _ _ => false
  | _ => true

/-- The question that leads to a milestone. -/
def Milestone.query : Milestone → Query
  | change _ => .changeRequest
  | comments _ => .comments
  | reviews _ => .reviews
  | ticket _ => .isLatest
  | posted body => .postComment body
  | labelled label present => .setLabel label present

theorem Milestone.isRead_query (m : Milestone) : m.query.isRead = m.isRead := by cases m <;> rfl

/-- The change request that has been fetched. -/
def Milestone.change? : Milestone → Option ChangeRequest
  | change c => some c
  | _ => none

/-- The comments that have been fetched. -/
def Milestone.comments? : Milestone → Option (List Comment)
  | comments cs => some cs
  | _ => none

/-- The reply that has been posted. -/
def Milestone.posted? : Milestone → Option String
  | posted body => some body
  | _ => none

/-- The milestones at which facts have been fetched. -/
def Facts.milestones (f : Facts) : List Milestone :=
  [.change f.change, .comments f.comments, .reviews f.reviews]

/-- The milestones of carrying a plan out. -/
def Plan.milestones (settings : Settings) (p : Plan) : List Milestone :=
  p.replies.map (fun r => .posted r.2) ++
    (p.labelChange.map (Milestone.labelled settings.readyLabel)).toList

namespace Exchange

/-- The milestone that a pass has come to. -/
def milestone? : Exchange Query Query.Answer → Option Milestone
  | ⟨.changeRequest, .ok change⟩ => some (.change change)
  | ⟨.comments, .ok comments⟩ => some (.comments comments)
  | ⟨.reviews, .ok reviews⟩ => some (.reviews reviews)
  | ⟨.isLatest, latest⟩ => some (.ticket latest)
  | ⟨.postComment body, .ok _⟩ => some (.posted body)
  | ⟨.setLabel label present, .ok _⟩ => some (.labelled label present)
  | _ => none

/-- The failure of a call. -/
def failure? : Exchange Query Query.Answer → Option Failure
  | ⟨.changeRequest, .error f⟩ => some f
  | ⟨.comments, .error f⟩ => some f
  | ⟨.reviews, .error f⟩ => some f
  | ⟨.roleOf _, .error f⟩ => some f
  | ⟨.postComment _, .error f⟩ => some f
  | ⟨.setLabel _ _, .error f⟩ => some f
  | _ => none

theorem of_milestone? (x : Exchange Query Query.Answer) :
    x.change? = x.milestone?.bind Milestone.change? ∧
      x.comments? = x.milestone?.bind Milestone.comments? ∧
      x.posted? = x.milestone?.bind Milestone.posted? := by
  obtain ⟨q, a⟩ := x
  cases q with
  | isLatest => exact ⟨rfl, rfl, rfl⟩
  | pause ms => exact ⟨rfl, rfl, rfl⟩
  | _ => cases a <;> exact ⟨rfl, rfl, rfl⟩

theorem query_of_milestone? {x : Exchange Query Query.Answer} {m : Milestone}
    (h : x.milestone? = some m) : x.query = m.query := by
  obtain ⟨q, a⟩ := x
  cases q with
  | isLatest =>
    cases h
    rfl
  | pause ms => cases h
  | _ => cases a <;> cases h <;> rfl

theorem milestone?_of_failure? {x : Exchange Query Query.Answer} {e : Failure}
    (h : x.failure? = some e) : x.milestone? = none := by
  obtain ⟨q, a⟩ := x
  cases q with
  | isLatest => cases h
  | pause ms => cases h
  | _ => cases a with
    | ok _ => cases h
    | error _ => rfl

/-- The exchanges of a call, one for each result: only a value leads to a milestone. -/
structure OfCall {α : Type} (exchange : Except Failure α → Exchange Query Query.Answer) : Prop where
  milestone : ∀ f, (exchange (.error f)).milestone? = none
  failure : ∀ f, (exchange (.error f)).failure? = some f

end Exchange

namespace Pass

/-- The milestones that a pass has come to. -/
def milestonesIn (t : Trace) : List Milestone := t.filterMap Exchange.milestone?

@[simp] theorem milestonesIn_append (t t' : Trace) :
    milestonesIn (t ++ t') = milestonesIn t ++ milestonesIn t' := List.filterMap_append

theorem milestonesIn_cons (x : Exchange Query Query.Answer) (t : Trace) :
    milestonesIn (x :: t) = x.milestone?.toList ++ milestonesIn t := by
  rw [milestonesIn, List.filterMap_cons]
  cases x.milestone? <;> rfl

theorem changesIn_eq (t : Trace) : changesIn t = (milestonesIn t).filterMap Milestone.change? := by
  rw [milestonesIn, List.filterMap_filterMap]
  exact List.filterMap_congr fun x _ => x.of_milestone?.1

theorem commentsIn_eq (t : Trace) :
    commentsIn t = (milestonesIn t).filterMap Milestone.comments? := by
  rw [milestonesIn, List.filterMap_filterMap]
  exact List.filterMap_congr fun x _ => x.of_milestone?.2.1

theorem postedIn_eq (t : Trace) : postedIn t = (milestonesIn t).filterMap Milestone.posted? := by
  rw [milestonesIn, List.filterMap_filterMap]
  exact List.filterMap_congr fun x _ => x.of_milestone?.2.2

theorem milestonesIn_eq_nil {t : Trace} (h : ∀ x ∈ t, x.milestone? = none) :
    milestonesIn t = [] := List.filterMap_eq_nil_iff.mpr h

theorem isRead_of_mem_milestonesIn {t : Trace} (h : ∀ x ∈ t, x.query.isRead) :
    ∀ m ∈ milestonesIn t, m.isRead := by
  intro m hm
  obtain ⟨x, hx, hmilestone⟩ := List.mem_filterMap.mp hm
  rw [← m.isRead_query, ← Exchange.query_of_milestone? hmilestone]
  exact h x hx

/-- A pass ends with an exchange that has failed. -/
structure FailsAt (t : Trace) (x : Exchange Query Query.Answer) (e : Failure) : Prop where
  last : t.getLast? = some x
  failure : x.failure? = some e

theorem FailsAt.append_left {t : Trace} {x : Exchange Query Query.Answer} {e : Failure}
    (h : FailsAt t x e) (t₀ : Trace) : FailsAt (t₀ ++ t) x e :=
  ⟨by rw [List.getLast?_append, h.last]; rfl, h.failure⟩

/-- A part of a pass that leaves the forge alone. It may fail at its last question. -/
structure Reading {α : Type} (t : Trace) (r : Except Failure α) : Prop where
  reads : ∀ x ∈ t, x.query.isRead
  fails : ∀ e, r = .error e → ∃ x, FailsAt t x e

/-- The answers about roles are those of a census. -/
def Truthful (census : RoleTable) (t : Trace) : Prop :=
  ∀ account role, (⟨.roleOf account, .ok role⟩ : Exchange Query Query.Answer) ∈ t →
    role = census.roleOf account

theorem Truthful.of_append {census : RoleTable} {t t' : Trace} (h : Truthful census (t ++ t')) :
    Truthful census t ∧ Truthful census t' :=
  ⟨fun a role ha => h a role (List.mem_append_left _ ha),
    fun a role ha => h a role (List.mem_append_right _ ha)⟩

/-- What was asked about roles is what the facts know of them. -/
def Learnt (settings : Settings) (t : Trace) (facts : Facts) : Prop :=
  ∀ census, Truthful census t → ∀ a ∈ accountsInvolved facts.change (Invocation.commands
    (Invocation.extract facts.change facts.comments settings.botAccount)) facts.reviews,
    facts.roles.roleOf a = census.roleOf a

/-- **How far a pass comes**, by its end. One that fails does so at its last exchange, with a
question about the facts or with the one that leads to the next milestone of its plan. -/
inductive Reaches (settings : Settings) (context : Context) (t : Trace) :
    Except Failure PassEnd → Prop
  | fruitless {e : Failure} {x : Exchange Query Query.Answer} (hfails : FailsAt t x e)
    (hreads : ∀ y ∈ t, y.query.isRead) : Reaches settings context t (.error e)
  | superseded {facts : Facts} (hreads : ∀ y ∈ t, y.query.isRead)
    (hlearnt : Learnt settings t facts) (h : milestonesIn t = facts.milestones ++ [.ticket false]) :
    Reaches settings context t (.ok .superseded)
  | broken {e : Failure} {x : Exchange Query Query.Answer} {facts : Facts} {ms : List Milestone}
    {m : Milestone} {rest : List Milestone} (hfails : FailsAt t x e) (hquery : x.query = m.query)
    (hlearnt : Learnt settings t facts)
    (h : milestonesIn t = facts.milestones ++ .ticket true :: ms)
    (hplan : (Plan.make settings context facts).milestones settings = ms ++ m :: rest) :
    Reaches settings context t (.error e)
  | completed {facts : Facts} (hlearnt : Learnt settings t facts)
    (h : milestonesIn t = facts.milestones ++
      .ticket true :: (Plan.make settings context facts).milestones settings) :
    Reaches settings context t (.ok (.completed (Plan.make settings context facts)))

section Courses

variable {σ α β : Type} {answer : (q : Query) → σ → q.Answer × σ} {env : σ → σ → Prop}
  {s s' : σ} {t : Trace} {retry : Retry} {settings : Settings}

/-! ### Calls -/

/-- The exchanges of a call are failed attempts and pauses, and then one with its result. -/
theorem exists_of_call {call : Inquiry (Except Failure α)}
    {exchange : Except Failure α → Exchange Query Query.Answer}
    (hcall : ∀ {s t r s'}, Course answer env call s t r s' → t = [exchange r])
    {r : Except Failure α} (h : Course answer env (Pass.call retry call).run s t r s') :
    ∃ t₁, (∀ x ∈ t₁, (∃ ms a, x = ⟨.pause ms, a⟩) ∨ ∃ e, x = exchange (.error e)) ∧
      t = t₁ ++ [exchange r] := by
  have hquiet : ∀ {s t e s'}, Course answer env call s t (.error e) s' → ∀ x ∈ t,
      (∃ ms a, x = ⟨.pause ms, a⟩) ∨ ∃ e, x = exchange (.error e) := fun h => by
    rw [hcall h]
    exact List.forall_mem_singleton.mpr (.inr ⟨_, rfl⟩)
  obtain ⟨s₁, t₁, t₂, -, ht, hc, rfl⟩ := Course.of_retry (R := fun _ _ => True)
    (fun _ => trivial) (fun _ _ => trivial) (fun _ => trivial) (fun _ _ => trivial)
    (fun ms a => .inl ⟨ms, a, rfl⟩) hquiet retry _ _ h
  exact ⟨t₁, ht, by rw [hcall hc]⟩

/-- **A call** comes to the milestone of its value, or fails. -/
theorem milestonesIn_call {call : Inquiry (Except Failure α)}
    {exchange : Except Failure α → Exchange Query Query.Answer} (hof : Exchange.OfCall exchange)
    (hcall : ∀ {s t r s'}, Course answer env call s t r s' → t = [exchange r])
    {r : Except Failure α} (h : Course answer env (Pass.call retry call).run s t r s') :
    milestonesIn t = (exchange r).milestone?.toList ∧ exchange r ∈ t := by
  obtain ⟨t₁, ht, rfl⟩ := exists_of_call hcall h
  have hquiet : ∀ x ∈ t₁, x.milestone? = none := by
    intro x hx
    rcases ht x hx with ⟨ms, a, rfl⟩ | ⟨e, rfl⟩
    · rfl
    · exact hof.milestone e
  constructor
  · rw [milestonesIn_append, milestonesIn_eq_nil hquiet, List.nil_append, milestonesIn_cons]
    exact List.append_nil _
  · exact List.mem_append_right _ List.mem_cons_self

theorem of_failed_call {call : Inquiry (Except Failure α)}
    {exchange : Except Failure α → Exchange Query Query.Answer} (hof : Exchange.OfCall exchange)
    (hcall : ∀ {s t r s'}, Course answer env call s t r s' → t = [exchange r]) {e : Failure}
    (h : Course answer env (Pass.call retry call).run s t (.error e) s') :
    milestonesIn t = [] ∧ FailsAt t (exchange (.error e)) e := by
  obtain ⟨ht, -⟩ := milestonesIn_call hof hcall h
  obtain ⟨t₁, -, rfl⟩ := exists_of_call hcall h
  exact ⟨by rw [ht, hof.milestone]; rfl, List.getLast?_concat, hof.failure e⟩

theorem reading_call {call : Inquiry (Except Failure α)}
    {exchange : Except Failure α → Exchange Query Query.Answer} (hof : Exchange.OfCall exchange)
    (hread : ∀ r, (exchange r).query.isRead)
    (hcall : ∀ {s t r s'}, Course answer env call s t r s' → t = [exchange r])
    {r : Except Failure α} (h : Course answer env (Pass.call retry call).run s t r s') :
    Reading t r := by
  constructor
  · obtain ⟨t₁, ht, rfl⟩ := exists_of_call hcall h
    intro x hx
    rcases List.mem_append.mp hx with hx | hx
    · rcases ht x hx with ⟨ms, a, rfl⟩ | ⟨e, rfl⟩
      · rfl
      · exact hread _
    · rw [List.mem_singleton.mp hx]
      exact hread r
  · intro e he
    subst he
    exact ⟨_, (of_failed_call hof hcall h).2⟩

theorem Reading.of_pure {a : α} {r : Except Failure α}
    (h : Course answer env (pure a : Attempt α).run s t r s') : Reading t r := by
  obtain ⟨rfl, rfl, -⟩ := Course.of_attempt_pure h
  exact ⟨by simp, nofun⟩

/-- **Two parts that leave the forge alone**, one after the other. -/
theorem Reading.of_bind {x : Attempt α} {f : α → Attempt β}
    (hx : ∀ {s t r s'}, Course answer env x.run s t r s' → Reading t r)
    (hf : ∀ {a s t r s'}, Course answer env (f a).run s t r s' → Reading t r)
    {r : Except Failure β} (h : Course answer env (x >>= f).run s t r s') : Reading t r := by
  rcases Course.of_attempt_bind h with ⟨e, rfl, hc⟩ | ⟨a, s₁, t₁, t₂, hc₁, hc₂, rfl⟩
  · have hfirst := hx hc
    exact ⟨hfirst.reads, fun e' he => hfirst.fails e' (Except.error.inj he ▸ rfl)⟩
  · have hfirst := hx hc₁
    have hrest := hf hc₂
    constructor
    · intro y hy
      exact (List.mem_append.mp hy).elim (hfirst.reads y) (hrest.reads y)
    · intro e he
      obtain ⟨y, hy⟩ := hrest.fails e he
      exact ⟨y, hy.append_left t₁⟩

theorem trace_of_query {q : Query} {a : q.Answer}
    (h : Course answer env (inquire q) s t a s') : t = [⟨q, a⟩] := by
  obtain ⟨-, -, -, rfl, -⟩ := Course.of_query h
  rfl

/-! ### Roles -/

theorem reading_resolveRole {table : RoleTable} {account : Account} {r : Except Failure RoleTable}
    (h : Course answer env (resolveRole retry table account).run s t r s') : Reading t r := by
  have hof : Exchange.OfCall fun r => ⟨.roleOf account, r⟩ := ⟨fun _ => rfl, fun _ => rfl⟩
  refine .of_bind (reading_call hof (fun _ => rfl) trace_of_query) ?_ h
  intro role s t r s' hrest
  cases role with
  | none => exact .of_pure hrest
  | some role => exact .of_pure hrest

theorem reading_resolveRoles {accounts : List Account} {table : RoleTable}
    {r : Except Failure RoleTable}
    (h : Course answer env (accounts.foldlM (resolveRole retry) table).run s t r s') :
    Reading t r := by
  induction accounts generalizing table s t r s' with
  | nil => exact .of_pure h
  | cons account accounts ih =>
    rw [List.foldlM_cons] at h
    refine .of_bind reading_resolveRole ?_ h
    intro table₁ s t r s' hrest
    exact ih hrest

/-- Resolving a role comes to no milestone, and changes the table by what was answered. -/
theorem milestonesIn_resolveRole {table : RoleTable} {account : Account}
    {r : Except Failure RoleTable}
    (h : Course answer env (resolveRole retry table account).run s t r s') :
    milestonesIn t = [] ∧ ∀ table', r = .ok table' → ∃ role : Option Role,
      (⟨.roleOf account, .ok role⟩ : Exchange Query Query.Answer) ∈ t ∧
        table' = role.elim table (table.insert account) := by
  have hof : Exchange.OfCall fun r => ⟨.roleOf account, r⟩ := ⟨fun _ => rfl, fun _ => rfl⟩
  rcases Course.of_attempt_bind h with ⟨e, rfl, hc⟩ | ⟨role, s₁, t₁, t₂, hc, hp, rfl⟩
  · exact ⟨(of_failed_call hof trace_of_query hc).1, nofun⟩
  · obtain ⟨ht, hmem⟩ := milestonesIn_call hof trace_of_query hc
    cases role with
    | none =>
      obtain ⟨rfl, rfl, -⟩ := Course.of_attempt_pure hp
      exact ⟨by rw [List.append_nil, ht]; rfl, fun table' heq =>
        ⟨none, by simpa using hmem, (Except.ok.inj heq).symm⟩⟩
    | some role =>
      obtain ⟨rfl, rfl, -⟩ := Course.of_attempt_pure hp
      exact ⟨by rw [List.append_nil, ht]; rfl, fun table' heq =>
        ⟨some role, by simpa using hmem, (Except.ok.inj heq).symm⟩⟩

/-- **Resolving roles** comes to no milestone; where the answers are those of a census, so are the
roles. -/
theorem milestonesIn_resolveRoles {accounts : List Account} {table : RoleTable}
    {r : Except Failure RoleTable}
    (h : Course answer env (accounts.foldlM (resolveRole retry) table).run s t r s') :
    milestonesIn t = [] ∧
      ∀ table' census, r = .ok table' → Truthful census t → Within census table →
        ∀ a, a ∈ accounts ∨ table.roleOf a = census.roleOf a →
          table'.roleOf a = census.roleOf a := by
  induction accounts generalizing table s t with
  | nil =>
    obtain ⟨rfl, rfl, -⟩ := Course.of_attempt_pure h
    refine ⟨rfl, fun table' census heq _ _ a ha => ?_⟩
    rw [← Except.ok.inj heq]
    exact ha.resolve_left List.not_mem_nil
  | cons account accounts ih =>
    rw [List.foldlM_cons] at h
    rcases Course.of_attempt_bind h with ⟨e, rfl, hc⟩ | ⟨table₁, s₁, t₁, t₂, hc, hrest, rfl⟩
    · exact ⟨(milestonesIn_resolveRole hc).1, nofun⟩
    · obtain ⟨ht₁, hok₁⟩ := milestonesIn_resolveRole hc
      obtain ⟨ht₂, hok₂⟩ := ih hrest
      obtain ⟨role, hmem, rfl⟩ := hok₁ table₁ rfl
      refine ⟨by simp [ht₁, ht₂], fun table' census heq htruth hwithin a ha => ?_⟩
      obtain ⟨htruth₁, htruth₂⟩ := htruth.of_append
      obtain rfl := htruth₁ account role hmem
      obtain ⟨hwithin', hown⟩ := hwithin.insert account
      refine hok₂ table' census heq htruth₂ hwithin' a ?_
      rcases ha with ha | ha
      · exact (List.mem_cons.mp ha).elim (fun h => .inr (hown a (.inl h))) .inl
      · exact .inr (hown a (.inr ha))

/-! ### Facts -/

theorem ofCall_changeRequest : Exchange.OfCall fun r => ⟨.changeRequest, r⟩ :=
  ⟨fun _ => rfl, fun _ => rfl⟩

theorem ofCall_comments : Exchange.OfCall fun r => ⟨.comments, r⟩ := ⟨fun _ => rfl, fun _ => rfl⟩

theorem ofCall_reviews : Exchange.OfCall fun r => ⟨.reviews, r⟩ := ⟨fun _ => rfl, fun _ => rfl⟩

/-- **Gathering the facts** leaves the forge alone. -/
theorem reading_gather {r : Except Failure Facts}
    (h : Course answer env (gather settings retry).run s t r s') : Reading t r := by
  refine .of_bind (reading_call ofCall_changeRequest (fun _ => rfl) trace_of_query) ?_ h
  intro change s t r s' h
  refine .of_bind (reading_call ofCall_comments (fun _ => rfl) trace_of_query) ?_ h
  intro comments s t r s' h
  refine .of_bind (reading_call ofCall_reviews (fun _ => rfl) trace_of_query) ?_ h
  intro reviews s t r s' h
  refine .of_bind reading_resolveRoles ?_ h
  intro roles s t r s' h
  exact .of_pure h

/-- **The milestones of the facts** that have been gathered. -/
theorem milestonesIn_gather {facts : Facts}
    (h : Course answer env (gather settings retry).run s t (.ok facts) s') :
    Learnt settings t facts ∧ milestonesIn t = facts.milestones := by
  rcases Course.of_attempt_bind h with ⟨e, he, -⟩ | ⟨change, s₁, t₁, u₁, hc₁, h₁, rfl⟩
  · cases he
  rcases Course.of_attempt_bind h₁ with ⟨e, he, -⟩ | ⟨comments, s₂, t₂, u₂, hc₂, h₂, rfl⟩
  · cases he
  rcases Course.of_attempt_bind h₂ with ⟨e, he, -⟩ | ⟨reviews, s₃, t₃, u₃, hc₃, h₃, rfl⟩
  · cases he
  rcases Course.of_attempt_bind h₃ with ⟨e, he, -⟩ | ⟨roles, s₄, t₄, u₄, hc₄, h₄, rfl⟩
  · cases he
  obtain ⟨ht₁, -⟩ := milestonesIn_call ofCall_changeRequest trace_of_query hc₁
  obtain ⟨ht₂, -⟩ := milestonesIn_call ofCall_comments trace_of_query hc₂
  obtain ⟨ht₃, -⟩ := milestonesIn_call ofCall_reviews trace_of_query hc₃
  obtain ⟨ht₄, hroles⟩ := milestonesIn_resolveRoles hc₄
  obtain ⟨rfl, hfacts, -⟩ := Course.of_attempt_pure h₄
  obtain rfl := Except.ok.inj hfacts
  refine ⟨fun census htruth a ha => ?_, ?_⟩
  · have htruth₄ := htruth.of_append.2.of_append.2.of_append.2.of_append.1
    exact hroles roles census rfl htruth₄ (fun _ => .inl rfl) a (.inl ha)
  · simp only [milestonesIn_append, ht₁, ht₂, ht₃, ht₄]
    rfl

/-! ### Replies and the label -/

/-- **Posting replies** comes to their milestones, all or as many as come before one that could not
be posted. -/
theorem milestonesIn_postAll {replies : List (String × String)} {r : Except Failure Unit}
    (h : Course answer env (postAll retry replies).run s t r s') :
    ∃ sent unsent, replies = sent ++ unsent ∧
      milestonesIn t = sent.map (fun x => Milestone.posted x.2) ∧ (r = .ok () → unsent = []) ∧
      ∀ e, r = .error e → ∃ x reply rest, FailsAt t x e ∧ x.query = .postComment reply.2 ∧
        unsent = reply :: rest := by
  induction replies generalizing s t with
  | nil =>
    obtain ⟨rfl, rfl, -⟩ := Course.of_attempt_pure h
    exact ⟨[], [], rfl, rfl, fun _ => rfl, nofun⟩
  | cons reply replies ih =>
    have hof : Exchange.OfCall fun r => ⟨.postComment reply.2, r⟩ :=
      ⟨fun _ => rfl, fun _ => rfl⟩
    rcases Course.of_attempt_bind h with ⟨e, rfl, hc⟩ | ⟨u, s₁, t₁, t₂, hc, hrest, rfl⟩
    · obtain ⟨ht, hfails⟩ := of_failed_call hof trace_of_query hc
      refine ⟨[], reply :: replies, rfl, ht, nofun, fun e' heq => ?_⟩
      exact ⟨_, reply, replies, Except.error.inj heq ▸ hfails, rfl, rfl⟩
    · obtain ⟨ht₁, -⟩ := milestonesIn_call hof trace_of_query hc
      obtain ⟨sent, unsent, rfl, ht₂, hend, hfail⟩ := ih hrest
      refine ⟨reply :: sent, unsent, rfl, ?_, hend, fun e heq => ?_⟩
      · simp only [milestonesIn_append, ht₁, ht₂]
        rfl
      · obtain ⟨x, next, rest, hfails, hquery, hunsent⟩ := hfail e heq
        exact ⟨x, next, rest, hfails.append_left t₁, hquery, hunsent⟩

/-- **Showing readiness** comes to the label that has to change, or fails at it. -/
theorem milestonesIn_showReadiness {change : Option Bool} {r : Except Failure Unit}
    (h : Course answer env (showReadiness settings retry change).run s t r s') :
    (r = .ok () ∧ milestonesIn t =
        (change.map (Milestone.labelled settings.readyLabel)).toList) ∨
      ∃ e x present, r = .error e ∧ FailsAt t x e ∧
        x.query = .setLabel settings.readyLabel present ∧ change = some present ∧
        milestonesIn t = [] := by
  cases change with
  | none =>
    obtain ⟨rfl, rfl, -⟩ := Course.of_attempt_pure h
    exact .inl ⟨rfl, rfl⟩
  | some present =>
    have hof : Exchange.OfCall fun r => ⟨.setLabel settings.readyLabel present, r⟩ :=
      ⟨fun _ => rfl, fun _ => rfl⟩
    cases r with
    | ok u => exact .inl ⟨rfl, (milestonesIn_call hof trace_of_query h).1⟩
    | error e =>
      obtain ⟨ht, hfails⟩ := of_failed_call hof trace_of_query h
      exact .inr ⟨e, _, present, rfl, hfails, rfl, rfl, ht⟩

/-- **Carrying a plan out** comes to its milestones, all or as many as come before the one that
could not be reached. -/
theorem milestonesIn_carryOut {plan : Plan} {r : Except Failure Unit}
    (h : Course answer env (carryOut settings retry plan).run s t r s') :
    (r = .ok () ∧ plan.milestones settings = milestonesIn t) ∨
      ∃ e x m rest, r = .error e ∧ FailsAt t x e ∧ x.query = m.query ∧
        plan.milestones settings = milestonesIn t ++ m :: rest := by
  rcases Course.of_attempt_bind h with ⟨e, rfl, hc⟩ | ⟨u, s₁, t₁, t₂, hc, hlabel, rfl⟩
  · obtain ⟨sent, unsent, hsplit, ht, -, hfail⟩ := milestonesIn_postAll hc
    obtain ⟨x, reply, rest, hfails, hquery, rfl⟩ := hfail e rfl
    have hplan : plan.milestones settings = milestonesIn t ++ .posted reply.2 ::
        (rest.map (fun x => Milestone.posted x.2) ++
          (plan.labelChange.map (Milestone.labelled settings.readyLabel)).toList) := by
      rw [Plan.milestones, hsplit, ht, List.map_append, List.append_assoc]
      rfl
    exact .inr ⟨e, x, .posted reply.2, _, rfl, hfails, hquery, hplan⟩
  · obtain ⟨sent, unsent, hsplit, ht, hend, -⟩ := milestonesIn_postAll hc
    obtain rfl := hend rfl
    rw [List.append_nil] at hsplit
    rcases milestonesIn_showReadiness hlabel with ⟨rfl, ht₂⟩ | ⟨e, x, present, rfl, hfails, hquery,
      hchange, ht₂⟩
    · exact .inl ⟨rfl, by rw [Plan.milestones, hsplit, milestonesIn_append, ht, ht₂]⟩
    · refine .inr ⟨e, x, .labelled settings.readyLabel present, [], rfl, hfails.append_left t₁,
        hquery, ?_⟩
      rw [Plan.milestones, hsplit, milestonesIn_append, ht, ht₂, List.append_nil, hchange]
      rfl

/-! ### Passes -/

/-- **How far a pass comes**, whoever answers its questions. -/
theorem reaches_program {context : Context} {r : Except Failure PassEnd}
    (h : Course answer env (program settings retry context).run s t r s') :
    Reaches settings context t r := by
  rcases Course.of_attempt_bind h with ⟨e, rfl, hc⟩ | ⟨facts, s₁, t₁, u₁, hc₁, h₁, rfl⟩
  · have hreading := reading_gather hc
    obtain ⟨x, hfails⟩ := hreading.fails e rfl
    exact .fruitless hfails hreading.reads
  obtain ⟨hlearnt, ht₁⟩ := milestonesIn_gather hc₁
  have hlearnt' (u : Trace) : Learnt settings (t₁ ++ u) facts := fun census htruth =>
    hlearnt census htruth.of_append.1
  rcases Course.of_attempt_bind h₁ with ⟨e, rfl, hc⟩ | ⟨latest, s₂, t₂, u₂, hc₂, h₂, rfl⟩
  · obtain ⟨a, heq, -⟩ := Course.of_attempt_lift hc
    cases heq
  obtain ⟨a, heq, hc₂⟩ := Course.of_attempt_lift hc₂
  obtain rfl := Except.ok.inj heq
  obtain rfl := trace_of_query hc₂
  cases latest with
  | false =>
    obtain ⟨rfl, rfl, -⟩ := Course.of_attempt_pure h₂
    refine .superseded (fun y hy => ?_) (hlearnt' _) (by simp only [milestonesIn_append, ht₁]; rfl)
    rw [List.append_nil] at hy
    rcases List.mem_append.mp hy with hy | hy
    · exact (reading_gather hc₁).reads y hy
    · rw [List.mem_singleton.mp hy]
      rfl
  | true =>
    rcases Course.of_attempt_bind h₂ with ⟨e, rfl, hc⟩ | ⟨u, s₃, t₃, u₃, hc₃, h₃, rfl⟩
    · rcases milestonesIn_carryOut hc with ⟨heq, -⟩ | ⟨e', x, m, rest, heq, hfails, hquery, hplan⟩
      · cases heq
      · obtain rfl := Except.error.inj heq
        exact .broken ((hfails.append_left _).append_left _) hquery (hlearnt' _)
          (by simp only [milestonesIn_append, ht₁]; rfl) hplan
    · rcases milestonesIn_carryOut hc₃ with ⟨-, hplan⟩ | ⟨e', x, m, rest, heq, -⟩
      · obtain ⟨rfl, rfl, -⟩ := Course.of_attempt_pure h₃
        refine .completed (hlearnt' _) ?_
        simp only [hplan, milestonesIn_append, ht₁, List.append_nil]
        rfl
      · cases heq

end Courses

end Pass

/-! ### Plans -/

section Involved

variable {change : ChangeRequest} {commands : List Command} {reviews : List Review}
  {roleOf roleOf' : Account → Option Role}

theorem Ledger.replay_of_involved
    (h : ∀ a ∈ accountsInvolved change commands reviews, roleOf a = roleOf' a) (initial : Policy)
    (author : Account) :
    replay initial commands author roleOf = replay initial commands author roleOf' := by
  refine replay_congr fun c hc => h _ (NameSet.mem_ofNames ?_)
  exact List.mem_append_left _ (List.mem_cons_of_mem _ (List.mem_map_of_mem hc))

theorem Policy.tally_of_involved
    (h : ∀ a ∈ accountsInvolved change commands reviews, roleOf a = roleOf' a) (p : Policy) :
    p.tally reviews roleOf = p.tally reviews roleOf' := by
  refine p.tally_congr fun r hr => h _ (NameSet.mem_ofNames ?_)
  exact List.mem_append_right _ (List.mem_map_of_mem hr)

end Involved

/-- Only the roles of the accounts involved matter for a plan. -/
theorem Plan.make_congr {settings : Settings} {facts : Facts} {census : RoleTable}
    (h : ∀ a ∈ accountsInvolved facts.change (Invocation.commands
      (Invocation.extract facts.change facts.comments settings.botAccount)) facts.reviews,
      facts.roles.roleOf a = census.roleOf a) (context : Context) :
    Plan.make settings context facts =
      Plan.make settings context { facts with roles := census } := by
  simp only [make, Ledger.replay_of_involved h, Policy.tally_of_involved h]

theorem Plan.isRead_of_mem_milestones {p : Plan} {settings : Settings} {m : Milestone}
    (h : m ∈ p.milestones settings) : m.isRead = false := by
  simp only [milestones, List.mem_append, List.mem_map, Option.mem_toList,
    Option.map_eq_some_iff] at h
  rcases h with ⟨x, -, rfl⟩ | ⟨present, -, rfl⟩ <;> rfl

theorem Plan.posted_milestones (p : Plan) (settings : Settings) :
    (p.milestones settings).filterMap Milestone.posted? = p.replies.map (·.2) := by
  rw [milestones, List.filterMap_append, List.filterMap_map]
  cases p.labelChange <;> simp [Function.comp_def, Milestone.posted?]

theorem Plan.length_posted (p : Plan) (settings : Settings) :
    ((p.milestones settings).filterMap Milestone.posted?).length = p.replies.length := by
  rw [posted_milestones, List.length_map]

/-- What comes before a milestone of a plan are some first replies, and not all if that milestone is
a reply. -/
theorem Plan.exists_sent {p : Plan} {settings : Settings} {ms rest : List Milestone} {m : Milestone}
    (h : p.milestones settings = ms ++ m :: rest) :
    ∃ sent unsent, p.replies = sent ++ unsent ∧ ms = sent.map (fun x => Milestone.posted x.2) ∧
      ∀ body, m = .posted body → unsent ≠ [] := by
  rcases List.append_eq_append_iff.mp h with ⟨done, rfl, hlabel⟩ | ⟨left, hposts, hrest⟩
  · -- the label is the last milestone
    cases hchange : p.labelChange with
    | none => simp [hchange] at hlabel
    | some present =>
      rw [hchange] at hlabel
      obtain ⟨rfl, hm⟩ : done = [] ∧ m = .labelled settings.readyLabel present := by
        cases done with
        | nil => exact ⟨rfl, (List.cons.inj hlabel).1.symm⟩
        | cons d done => simp at hlabel
      refine ⟨p.replies, [], (List.append_nil _).symm, List.append_nil _, fun body hbody => ?_⟩
      rw [hm] at hbody
      cases hbody
  · obtain ⟨sent, unsent, hsplit, rfl, rfl⟩ := List.map_eq_append_iff.mp hposts
    refine ⟨sent, unsent, hsplit, rfl, fun body hbody hnil => ?_⟩
    rw [hnil, List.map_nil, List.nil_append] at hrest
    cases hchange : p.labelChange with
    | none => simp [hchange] at hrest
    | some present =>
      rw [hchange, hbody] at hrest
      cases hrest

/-- **The plan of a pass that learns the roles of a census** is the one for the census. -/
theorem Plan.make_of_learnt {settings : Settings} {t : Pass.Trace} {facts : Facts}
    {census : RoleTable} (h : Pass.Learnt settings t facts) (htruth : Pass.Truthful census t)
    (context : Context) : Plan.make settings context facts =
      Plan.make settings context ⟨facts.change, facts.comments, facts.reviews, census⟩ :=
  Plan.make_congr (h census htruth) context

end ReviewQuorum
