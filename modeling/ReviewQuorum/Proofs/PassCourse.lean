import ReviewQuorum.Proofs.Course
import ReviewQuorum.Proofs.Growth

/-! # The courses of a pass

What a pass fetches and posts can be read off its exchanges (`changesIn`, `commentsIn`, `postedIn`).
A call leaves silent exchanges behind, failed attempts and pauses, and then its last one
(`of_call`). From that follow, for a pass between whose questions users act, what it has gathered
(`of_gather`), which replies it has posted (`of_postAll`) and how it ends (`of_program`).
-/

namespace ReviewQuorum

/-! ### Exchanges -/

namespace Exchange

/-- The change request that was fetched. -/
def change? : Exchange Query Query.Answer → Option ChangeRequest
  | ⟨.changeRequest, .ok change⟩ => some change
  | _ => none

/-- The comments that were fetched. -/
def comments? : Exchange Query Query.Answer → Option (List Comment)
  | ⟨.comments, .ok comments⟩ => some comments
  | _ => none

/-- The reply that was posted. -/
def posted? : Exchange Query Query.Answer → Option String
  | ⟨.postComment body, .ok _⟩ => some body
  | _ => none

/-- An exchange in which neither a change request nor comments were fetched and no reply was posted.
-/
structure Silent (x : Exchange Query Query.Answer) : Prop where
  change : x.change? = none
  comments : x.comments? = none
  posted : x.posted? = none

end Exchange

namespace Pass

/-- The exchanges of a pass. -/
abbrev Trace := List (Exchange Query Query.Answer)

/-- The change requests that were fetched. -/
def changesIn (t : Trace) : List ChangeRequest := t.filterMap Exchange.change?

/-- The lists of comments that were fetched. -/
def commentsIn (t : Trace) : List (List Comment) := t.filterMap Exchange.comments?

/-- The replies that were posted. -/
def postedIn (t : Trace) : List String := t.filterMap Exchange.posted?

@[simp] theorem changesIn_append (t t' : Trace) :
    changesIn (t ++ t') = changesIn t ++ changesIn t' := List.filterMap_append

@[simp] theorem commentsIn_append (t t' : Trace) :
    commentsIn (t ++ t') = commentsIn t ++ commentsIn t' := List.filterMap_append

@[simp] theorem postedIn_append (t t' : Trace) :
    postedIn (t ++ t') = postedIn t ++ postedIn t' := List.filterMap_append

theorem mem_commentsIn_concat {t : Trace} {x : Exchange Query Query.Answer} {cs : List Comment} :
    cs ∈ commentsIn (t ++ [x]) ↔ cs ∈ commentsIn t ∨ x.comments? = some cs := by
  simp [commentsIn]

theorem changesIn_of_silent {t : Trace} (h : ∀ x ∈ t, x.Silent) : changesIn t = [] :=
  List.filterMap_eq_nil_iff.mpr fun x hx => (h x hx).change

theorem commentsIn_of_silent {t : Trace} (h : ∀ x ∈ t, x.Silent) : commentsIn t = [] :=
  List.filterMap_eq_nil_iff.mpr fun x hx => (h x hx).comments

theorem postedIn_of_silent {t : Trace} (h : ∀ x ∈ t, x.Silent) : postedIn t = [] :=
  List.filterMap_eq_nil_iff.mpr fun x hx => (h x hx).posted

theorem changesIn_silent_append {t t' : Trace} (h : ∀ x ∈ t, x.Silent) :
    changesIn (t ++ t') = changesIn t' := by
  rw [changesIn_append, changesIn_of_silent h, List.nil_append]

theorem commentsIn_silent_append {t t' : Trace} (h : ∀ x ∈ t, x.Silent) :
    commentsIn (t ++ t') = commentsIn t' := by
  rw [commentsIn_append, commentsIn_of_silent h, List.nil_append]

theorem postedIn_silent_append {t t' : Trace} (h : ∀ x ∈ t, x.Silent) :
    postedIn (t ++ t') = postedIn t' := by
  rw [postedIn_append, postedIn_of_silent h, List.nil_append]

/-! ### Calls -/

/-- The courses of a program of a pass over a change request, between whose questions users act. -/
abbrev Courses (users : Account → Prop) (id : String) (place ticket : Nat) {α : Type} :
    Inquiry α → World → Trace → α → World → Prop :=
  Course (World.answer id place ticket) (World.Act users id)

/-- A table that knows no other roles than a census. -/
def Within (census table : RoleTable) : Prop :=
  ∀ a, table.roleOf a = none ∨ table.roleOf a = census.roleOf a

theorem Within.insert {census table : RoleTable} (h : Within census table) (account : Account) :
    Within census ((census.roleOf account).elim table (table.insert account)) ∧
      ∀ a, a = account ∨ table.roleOf a = census.roleOf a →
        ((census.roleOf account).elim table (table.insert account)).roleOf a =
          census.roleOf a := by
  cases hrole : census.roleOf account with
  | none =>
    refine ⟨h, fun a ha => ?_⟩
    rcases ha with rfl | ha
    · exact (h a).elim (fun h => h.trans hrole.symm) fun h => h
    · exact ha
  | some role =>
    have hinsert (a : Account) : (table.insert account role).roleOf a =
        if account = a then some role else table.roleOf a := RoleTable.roleOf_insert _ _ _ _
    refine ⟨fun a => ?_, fun a ha => ?_⟩
    all_goals
      simp only [Option.elim_some, hinsert]
      split
    · rename_i heq
      exact .inr (heq ▸ hrole.symm)
    · exact h a
    · rename_i heq
      exact heq ▸ hrole.symm
    · rename_i hne
      exact ha.resolve_left (Ne.symm hne)

/-- What a pass has gathered: the change request as it was at one time, the comments as they were at
a later one, and the roles of the census. -/
structure Gathered (who : Account → Prop) (settings : Settings) (census : RoleTable) (s : Snapshot)
    (t : Trace) (facts : Facts) (s' : Snapshot) : Prop where
  changes : changesIn t = [facts.change]
  comments : commentsIn t = [facts.comments]
  seen : ∃ s₁ s₂, s.Grows who s₁ ∧ facts.change = s₁.change ∧ s₁.Grows who s₂ ∧
    facts.comments = s₂.comments ∧ s₂.Grows who s'
  roles : ∀ a ∈ accountsInvolved facts.change (Invocation.commands
    (Invocation.extract facts.change facts.comments settings.botAccount)) facts.reviews,
    facts.roles.roleOf a = census.roleOf a

/-- What a pass has posted: replies that stand on the change request from then on. -/
structure Posted (who : Account → Prop) (id : String) (w : World) (s : Snapshot)
    (sent : List (String × String)) (t : Trace) (w' : World) (s' : Snapshot) : Prop where
  grown : w.Grown who id s w' s'
  changes : changesIn t = []
  comments : commentsIn t = []
  posted : postedIn t = sent.map (·.2)
  stands : ∀ x ∈ sent, ∃ c ∈ s'.comments, c.author = w.forge.bot ∧ c.body = x.2

theorem Posted.trans {who : Account → Prop} {id : String} {sent sent' : List (String × String)}
    {t t' : Trace} {w w' w'' : World} {s s' s'' : Snapshot} (h : Posted who id w s sent t w' s')
    (h' : Posted who id w' s' sent' t' w'' s'') :
    Posted who id w s (sent ++ sent') (t ++ t') w'' s'' where
  grown := h.grown.trans h'.grown
  changes := by rw [changesIn_append, h.changes, h'.changes, List.append_nil]
  comments := by rw [commentsIn_append, h.comments, h'.comments, List.append_nil]
  posted := by rw [postedIn_append, h.posted, h'.posted, List.map_append]
  stands x hx := by
    rcases List.mem_append.mp hx with hx | hx
    · obtain ⟨c, hc, hcx⟩ := h.stands x hx
      exact ⟨c, h'.grown.grows.comments.subset hc, hcx⟩
    · rw [← h.grown.bot]
      exact h'.stands x hx

section Courses

variable {users who : Account → Prop} (husers : ∀ a, users a → who a) {id : String}
  {place ticket : Nat} {α : Type} {w w' : World} {t : Trace} {s : Snapshot}

include husers

theorem evolves_of_course {p : Inquiry α} {a : α} (h : Courses users id place ticket p w t a w') :
    w.Evolves who id w' :=
  h.related World.Evolves.refl World.Evolves.trans (fun h => (h.mono husers).evolves)
    World.answer_evolves

/-- **A call** asks its question once at last, after silent exchanges. -/
theorem of_call {call : Inquiry (Except Failure α)} (ask : World → Except Failure α × World)
    (exchange : Except Failure α → Exchange Query Query.Answer)
    (hcall : ∀ {w t r w'}, Courses users id place ticket call w t r w' →
      ∃ w₁, Relation.ReflTransGen (World.Act users id) w w₁ ∧ r = (ask w₁).1 ∧ t = [exchange r] ∧
        Relation.ReflTransGen (World.Act users id) (ask w₁).2 w')
    (hfail : ∀ e, (exchange (.error e)).Silent) {retry : Retry} {r : Except Failure α}
    (h : Courses users id place ticket (Pass.call retry call).run w t r w') :
    ∃ w₁ t₁, w.Evolves who id w₁ ∧ r = (ask w₁).1 ∧ (ask w₁).2.Evolves who id w' ∧
      (∀ x ∈ t₁, x.Silent) ∧ t = t₁ ++ [exchange r] := by
  have hquiet : ∀ {w t e w'}, Courses users id place ticket call w t (.error e) w' →
      ∀ x ∈ t, x.Silent := fun h => by
    obtain ⟨-, -, -, rfl, -⟩ := hcall h
    exact List.forall_mem_singleton.mpr (hfail _)
  obtain ⟨w₁, t₁, t₂, hw, ht, hc, rfl⟩ := Course.of_retry World.Evolves.refl World.Evolves.trans
    (fun h => (h.mono husers).evolves) World.answer_evolves (fun _ _ => ⟨rfl, rfl, rfl⟩) hquiet
    retry _ _ h
  obtain ⟨w₂, hacts, hr, rfl, hacts'⟩ := hcall hc
  exact ⟨w₂, t₁, hw.trans (World.evolves_of_acts husers hacts), hr,
    World.evolves_of_acts husers hacts', ht, rfl⟩

theorem of_hosted_call {call : Inquiry (Except Failure α)} (ask : World → Except Failure α × World)
    (exchange : Except Failure α → Exchange Query Query.Answer)
    (hcall : ∀ {w t r w'}, Courses users id place ticket call w t r w' →
      ∃ w₁, Relation.ReflTransGen (World.Act users id) w w₁ ∧ r = (ask w₁).1 ∧ t = [exchange r] ∧
        Relation.ReflTransGen (World.Act users id) (ask w₁).2 w')
    (hask : ∀ w : World, w.Evolves who id (ask w).2) (hfail : ∀ e, (exchange (.error e)).Silent)
    {retry : Retry} {r : Except Failure α} (hs : w.Hosts who id s)
    (h : Courses users id place ticket (Pass.call retry call).run w t r w') :
    ∃ w₁ s₁ s' t₁, w.Grown who id s w₁ s₁ ∧ w₁.Grown who id s₁ w' s' ∧ r = (ask w₁).1 ∧
      (∀ x ∈ t₁, x.Silent) ∧ t = t₁ ++ [exchange r] := by
  obtain ⟨w₁, t₁, hw, hr, hw', ht, rfl⟩ := of_call husers ask exchange hcall hfail h
  obtain ⟨s₁, hg⟩ := hw s hs
  obtain ⟨s', hg'⟩ := ((hask w₁).trans hw') s₁ hg.hosts
  exact ⟨w₁, s₁, s', t₁, hg, hg', hr, ht, rfl⟩

theorem of_changeRequest {retry : Retry} {r : Except Failure ChangeRequest}
    (h : Courses users id place ticket (call retry (inquire .changeRequest)).run w t r w')
    (hs : w.Hosts who id s) :
    ∃ w₁ s₁ s', w.Grown who id s w₁ s₁ ∧ w₁.Grown who id s₁ w' s' ∧ commentsIn t = [] ∧
      postedIn t = [] ∧ ∀ change, r = .ok change → change = s₁.change ∧ changesIn t = [change] := by
  obtain ⟨w₁, s₁, s', t₁, hg, hg', hr, ht, rfl⟩ := of_hosted_call husers
    (World.answer id place ticket .changeRequest) (fun r => ⟨.changeRequest, r⟩) Course.of_query
    (World.answer_evolves _) (fun _ => ⟨rfl, rfl, rfl⟩) hs h
  refine ⟨w₁, s₁, s', hg, hg', commentsIn_silent_append ht, postedIn_silent_append ht, ?_⟩
  rintro change rfl
  exact ⟨hg.hosts.eq_of_changeRequest hr.symm, changesIn_silent_append ht⟩

theorem of_comments {retry : Retry} {r : Except Failure (List Comment)}
    (h : Courses users id place ticket (call retry (inquire .comments)).run w t r w')
    (hs : w.Hosts who id s) :
    ∃ w₁ s₁ s', w.Grown who id s w₁ s₁ ∧ w₁.Grown who id s₁ w' s' ∧ changesIn t = [] ∧
      postedIn t = [] ∧ ∀ comments, r = .ok comments →
        comments = s₁.comments ∧ commentsIn t = [comments] := by
  obtain ⟨w₁, s₁, s', t₁, hg, hg', hr, ht, rfl⟩ := of_hosted_call husers
    (World.answer id place ticket .comments) (fun r => ⟨.comments, r⟩) Course.of_query
    (World.answer_evolves _) (fun _ => ⟨rfl, rfl, rfl⟩) hs h
  refine ⟨w₁, s₁, s', hg, hg', changesIn_silent_append ht, postedIn_silent_append ht, ?_⟩
  rintro comments rfl
  exact ⟨hg.hosts.eq_of_comments hr.symm, commentsIn_silent_append ht⟩

theorem silent_of_call {call : Inquiry (Except Failure α)} (ask : World → Except Failure α × World)
    (exchange : Except Failure α → Exchange Query Query.Answer)
    (hcall : ∀ {w t r w'}, Courses users id place ticket call w t r w' →
      ∃ w₁, Relation.ReflTransGen (World.Act users id) w w₁ ∧ r = (ask w₁).1 ∧ t = [exchange r] ∧
        Relation.ReflTransGen (World.Act users id) (ask w₁).2 w')
    (hsilent : ∀ r, (exchange r).Silent) {retry : Retry} {r : Except Failure α}
    (h : Courses users id place ticket (Pass.call retry call).run w t r w') :
    ∃ w₁, w.Evolves who id w₁ ∧ r = (ask w₁).1 ∧ ∀ x ∈ t, x.Silent := by
  obtain ⟨w₁, t₁, hw, hr, -, ht, rfl⟩ := of_call husers ask exchange hcall (fun _ => hsilent _) h
  refine ⟨w₁, hw, hr, fun x hx => ?_⟩
  rcases List.mem_append.mp hx with hx | hx
  · exact ht x hx
  · exact List.mem_singleton.mp hx ▸ hsilent r

/-! ### Roles -/

theorem of_resolveRole {retry : Retry} {table : RoleTable} {account : Account}
    {r : Except Failure RoleTable} (htable : Within w.census table) (hs : w.Hosts who id s)
    (h : Courses users id place ticket (resolveRole retry table account).run w t r w') :
    (∀ x ∈ t, x.Silent) ∧ ∀ table', r = .ok table' → Within w.census table' ∧
      ∀ a, a = account ∨ table.roleOf a = w.census.roleOf a →
        table'.roleOf a = w.census.roleOf a := by
  have hcall {w t r w'} (h : Courses users id place ticket
      (call retry (inquire (.roleOf account))).run w t r w') :=
    silent_of_call husers (World.answer id place ticket (.roleOf account))
      (fun r => ⟨.roleOf account, r⟩) Course.of_query (fun _ => ⟨rfl, rfl, rfl⟩) h
  rcases Course.of_attempt_bind h with ⟨e, rfl, hc⟩ | ⟨role, w₁, t₁, t₂, hc, hp, rfl⟩
  · obtain ⟨-, -, -, ht⟩ := hcall hc
    exact ⟨ht, nofun⟩
  · obtain ⟨w₂, hw, hr, ht⟩ := hcall hc
    obtain ⟨s₂, hg⟩ := hw s hs
    have hrole : role = w.census.roleOf account := hg.census ▸ World.eq_of_roleOf hr.symm
    have hinsert := htable.insert account
    rw [← hrole] at hinsert
    cases role with
    | none =>
      obtain ⟨rfl, rfl, -⟩ := Course.of_attempt_pure hp
      exact ⟨by simpa using ht, fun table' heq => Except.ok.inj heq ▸ hinsert⟩
    | some role =>
      obtain ⟨rfl, rfl, -⟩ := Course.of_attempt_pure hp
      exact ⟨by simpa using ht, fun table' heq => Except.ok.inj heq ▸ hinsert⟩

/-- **The roles that are resolved** are those of the census. -/
theorem of_resolveRoles {retry : Retry} {accounts : List Account} {table : RoleTable}
    {r : Except Failure RoleTable} (htable : Within w.census table) (hs : w.Hosts who id s)
    (h : Courses users id place ticket (accounts.foldlM (resolveRole retry) table).run w t r w') :
    (∀ x ∈ t, x.Silent) ∧ ∀ table', r = .ok table' →
      ∀ a, a ∈ accounts ∨ table.roleOf a = w.census.roleOf a →
        table'.roleOf a = w.census.roleOf a := by
  induction accounts generalizing table w s t with
  | nil =>
    obtain ⟨rfl, rfl, -⟩ := Course.of_attempt_pure h
    refine ⟨by simp, fun table' heq a ha => ?_⟩
    cases heq
    exact ha.resolve_left List.not_mem_nil
  | cons account accounts ih =>
    rw [List.foldlM_cons] at h
    rcases Course.of_attempt_bind h with ⟨e, rfl, hc⟩ | ⟨table₁, w₁, t₁, t₂, hc, hrest, rfl⟩
    · exact ⟨(of_resolveRole husers htable hs hc).1, nofun⟩
    · obtain ⟨ht₁, h₁⟩ := of_resolveRole husers htable hs hc
      obtain ⟨hwithin, hown⟩ := h₁ table₁ rfl
      obtain ⟨s₁, hg⟩ := evolves_of_course husers hc s hs
      rw [← hg.census] at hwithin
      obtain ⟨ht₂, h₂⟩ := ih hwithin hg.hosts hrest
      refine ⟨fun x hx => (List.mem_append.mp hx).elim (ht₁ x) (ht₂ x), fun table' heq a ha => ?_⟩
      rw [← hg.census]
      refine h₂ table' heq a ?_
      rw [hg.census]
      rcases ha with ha | ha
      · exact (List.mem_cons.mp ha).elim (fun h => .inr (hown a (.inl h))) .inl
      · exact .inr (hown a (.inr ha))

/-! ### Facts -/

/-- **What a pass has gathered.** -/
theorem of_gather {settings : Settings} {retry : Retry} {r : Except Failure Facts}
    (hs : w.Hosts who id s)
    (h : Courses users id place ticket (gather settings retry).run w t r w') :
    postedIn t = [] ∧ ∀ facts, r = .ok facts →
      ∃ s', w.Grown who id s w' s' ∧ Gathered who settings w.census s t facts s' := by
  rcases Course.of_attempt_bind h with ⟨e, rfl, hc⟩ | ⟨change, v₁, t₁, u₁, hc₁, h₁, rfl⟩
  · obtain ⟨-, -, -, -, -, -, ht, -⟩ := of_changeRequest husers hc hs
    exact ⟨ht, nofun⟩
  obtain ⟨w₁, s₁, s₁', hg₁, hg₁', hcom₁, hpost₁, hok₁⟩ := of_changeRequest husers hc₁ hs
  obtain ⟨hchange, hch₁⟩ := hok₁ change rfl
  rcases Course.of_attempt_bind h₁ with ⟨e, rfl, hc⟩ | ⟨comments, v₂, t₂, u₂, hc₂, h₂, rfl⟩
  · obtain ⟨-, -, -, -, -, -, ht, -⟩ := of_comments husers hc hg₁'.hosts
    exact ⟨by simp [hpost₁, ht], nofun⟩
  obtain ⟨w₂, s₂, s₂', hg₂, hg₂', hch₂, hpost₂, hok₂⟩ := of_comments husers hc₂ hg₁'.hosts
  obtain ⟨hcomments, hcom₂⟩ := hok₂ comments rfl
  have hreviews {w t r w'} (h : Courses users id place ticket
      (call retry (inquire .reviews)).run w t r w') :=
    silent_of_call husers (World.answer id place ticket .reviews)
      (fun r => ⟨.reviews, r⟩) Course.of_query (fun _ => ⟨rfl, rfl, rfl⟩) h
  rcases Course.of_attempt_bind h₂ with ⟨e, rfl, hc⟩ | ⟨reviews, v₃, t₃, u₃, hc₃, h₃, rfl⟩
  · obtain ⟨-, -, -, ht⟩ := hreviews hc
    exact ⟨by simp [hpost₁, hpost₂, postedIn_of_silent ht], nofun⟩
  obtain ⟨-, -, -, ht₃⟩ := hreviews hc₃
  obtain ⟨s₃, hg₃⟩ := evolves_of_course husers hc₃ s₂' hg₂'.hosts
  have hcensus : v₃.census = w.census :=
    (((hg₁.trans hg₁').trans (hg₂.trans hg₂')).trans hg₃).census
  rcases Course.of_attempt_bind h₃ with ⟨e, rfl, hc⟩ | ⟨roles, v₄, t₄, u₄, hc₄, h₄, rfl⟩
  · obtain ⟨ht, -⟩ := of_resolveRoles husers (fun _ => .inl rfl) hg₃.hosts hc
    exact ⟨by simp [hpost₁, hpost₂, postedIn_of_silent ht₃, postedIn_of_silent ht], nofun⟩
  obtain ⟨ht₄, hroles⟩ := of_resolveRoles husers (fun _ => .inl rfl) hg₃.hosts hc₄
  obtain ⟨s₄, hg₄⟩ := evolves_of_course husers hc₄ s₃ hg₃.hosts
  obtain ⟨s₅, hg₅⟩ := evolves_of_course husers h₄ s₄ hg₄.hosts
  obtain ⟨rfl, rfl, -⟩ := Course.of_attempt_pure h₄
  refine ⟨?_, fun facts heq => ⟨s₅, (hg₁.trans hg₁').trans ((hg₂.trans hg₂').trans
    (hg₃.trans (hg₄.trans hg₅))), ?_⟩⟩
  · simp [hpost₁, hpost₂, postedIn_of_silent ht₃, postedIn_of_silent ht₄]
  · cases heq
    exact
      { changes := by simp [hch₁, hch₂, changesIn_of_silent ht₃, changesIn_of_silent ht₄]
        comments := by simp [hcom₁, hcom₂, commentsIn_of_silent ht₃, commentsIn_of_silent ht₄]
        seen := ⟨s₁, s₂, hg₁.grows, hchange, (hg₁'.trans hg₂).grows, hcomments,
          (hg₂'.trans (hg₃.trans (hg₄.trans hg₅))).grows⟩
        roles := fun a ha => by rw [hroles roles rfl a (.inl ha), hcensus] }

/-! ### Replies and the label -/

/-- **One reply** is posted, or none if the call fails. -/
theorem of_postComment {retry : Retry} {x : String × String} {r : Except Failure Unit}
    (hs : w.Hosts who id s)
    (h : Courses users id place ticket (call retry (inquire (.postComment x.2))).run w t r w') :
    (∃ s', r = .ok () ∧ Posted who id w s [x] t w' s') ∨
      ∃ e s', r = .error e ∧ Posted who id w s [] t w' s' := by
  obtain ⟨w₁, t₁, hw, hr, hw', ht, rfl⟩ := of_call husers
    (World.answer id place ticket (.postComment x.2)) (fun r => ⟨.postComment x.2, r⟩)
    Course.of_query (fun _ => ⟨rfl, rfl, rfl⟩) h
  obtain ⟨s₁, hg₁⟩ := hw s hs
  cases r with
  | ok u =>
    obtain ⟨s₂, hg₂, c, hc, hauthor, hbody⟩ := hg₁.hosts.posted hr.symm
    obtain ⟨s', hg'⟩ := hw' s₂ hg₂.hosts
    have hstands : ∀ y ∈ [x], ∃ c ∈ s'.comments, c.author = w.forge.bot ∧ c.body = y.2 :=
      List.forall_mem_singleton.mpr
        ⟨c, hg'.grows.comments.subset hc, hauthor.trans hg₁.bot, hbody⟩
    exact .inl ⟨s', rfl, hg₁.trans (hg₂.trans hg'), changesIn_silent_append ht,
      commentsIn_silent_append ht, postedIn_silent_append ht, hstands⟩
  | error e =>
    obtain ⟨s', hg'⟩ := ((World.answer_evolves _ w₁).trans hw') s₁ hg₁.hosts
    have hsilent : ∀ y ∈ t₁ ++ [⟨.postComment x.2, .error e⟩], y.Silent := by
      simp only [List.mem_append, List.mem_singleton]
      rintro y (hy | rfl)
      · exact ht y hy
      · exact ⟨rfl, rfl, rfl⟩
    exact .inr ⟨e, s', rfl, hg₁.trans hg', changesIn_of_silent hsilent,
      commentsIn_of_silent hsilent, postedIn_of_silent hsilent, by simp⟩

/-- **The replies are posted in order**, all of them or as many as could be. -/
theorem of_postAll {retry : Retry} {replies : List (String × String)} {r : Except Failure Unit}
    (hs : w.Hosts who id s)
    (h : Courses users id place ticket (postAll retry replies).run w t r w') :
    ∃ sent unsent s', replies = sent ++ unsent ∧ Posted who id w s sent t w' s' ∧
      (r = .ok () → unsent = []) := by
  induction replies generalizing w s t with
  | nil =>
    obtain ⟨s', hg⟩ := evolves_of_course husers h s hs
    obtain ⟨rfl, -, -⟩ := Course.of_attempt_pure h
    exact ⟨[], [], s', rfl, ⟨hg, rfl, rfl, rfl, by simp⟩, fun _ => rfl⟩
  | cons x replies ih =>
    rcases Course.of_attempt_bind h with ⟨e, rfl, hc⟩ | ⟨u, w₁, t₁, t₂, hc, hrest, rfl⟩
    · rcases of_postComment husers hs hc with ⟨s', heq, -⟩ | ⟨e', s', -, hp⟩
      · cases heq
      · exact ⟨[], x :: replies, s', rfl, hp, nofun⟩
    · rcases of_postComment husers hs hc with ⟨s₁, -, hp⟩ | ⟨e, s₁, heq, -⟩
      · obtain ⟨sent, unsent, s', rfl, hps, hend⟩ := ih hp.grown.hosts hrest
        exact ⟨x :: sent, unsent, s', rfl, hp.trans hps, hend⟩
      · cases heq

/-- **Carrying a plan out** posts its replies in order and then shows readiness. -/
theorem of_carryOut {settings : Settings} {retry : Retry} {plan : Plan} {r : Except Failure Unit}
    (hs : w.Hosts who id s)
    (h : Courses users id place ticket (carryOut settings retry plan).run w t r w') :
    ∃ sent unsent s', plan.replies = sent ++ unsent ∧ Posted who id w s sent t w' s' ∧
      (r = .ok () → unsent = []) := by
  rcases Course.of_attempt_bind h with ⟨e, rfl, hc⟩ | ⟨u, w₁, t₁, t₂, hc, hlabel, rfl⟩
  · obtain ⟨sent, unsent, s', hsplit, hp, -⟩ := of_postAll husers hs hc
    exact ⟨sent, unsent, s', hsplit, hp, nofun⟩
  · obtain ⟨sent, unsent, s₁, hsplit, hp, hend⟩ := of_postAll husers hs hc
    obtain ⟨s', hg⟩ := evolves_of_course husers hlabel s₁ hp.grown.hosts
    have ht₂ : ∀ x ∈ t₂, x.Silent := by
      cases hchange : plan.labelChange with
      | none =>
        rw [hchange] at hlabel
        obtain ⟨rfl, -⟩ := Course.of_attempt_pure hlabel
        exact nofun
      | some present =>
        rw [hchange] at hlabel
        obtain ⟨-, -, -, ht⟩ := silent_of_call husers
          (World.answer id place ticket (.setLabel settings.readyLabel present))
          (fun r => ⟨.setLabel settings.readyLabel present, r⟩) Course.of_query
          (fun _ => ⟨rfl, rfl, rfl⟩) hlabel
        exact ht
    have hp₂ : Posted who id w₁ s₁ [] t₂ w' s' := ⟨hg, changesIn_of_silent ht₂,
      commentsIn_of_silent ht₂, postedIn_of_silent ht₂, by simp⟩
    exact ⟨sent, unsent, s', hsplit, by simpa using hp.trans hp₂, fun _ => hend rfl⟩

/-! ### Passes -/

/-- **A pass with the latest ticket** fails before it has gathered the facts, or carries its plan
out, as far as it comes. -/
theorem of_program {settings : Settings} {retry : Retry} {context : Context}
    {r : Except Failure PassEnd} (hs : w.Hosts who id s)
    (hticket : (w.memory.slotAt place).latestTicket = ticket)
    (h : Courses users id place ticket (program settings retry context).run w t r w') :
    (∃ e s', r = .error e ∧ postedIn t = [] ∧ w.Grown who id s w' s') ∨
    ∃ facts t₁ t₂ w₁ s₁ sent unsent s', t = t₁ ++ t₂ ∧ postedIn t₁ = [] ∧ w.Grown who id s w₁ s₁ ∧
      Gathered who settings w.census s t₁ facts s₁ ∧
      (Plan.make settings context facts).replies = sent ++ unsent ∧
      Posted who id w₁ s₁ sent t₂ w' s' ∧
      ((∃ e, r = .error e) ∨
        unsent = [] ∧ r = .ok (.completed (Plan.make settings context facts))) := by
  rcases Course.of_attempt_bind h with ⟨e, rfl, hc⟩ | ⟨facts, w₁, t₁, u₁, hc₁, h₁, rfl⟩
  · obtain ⟨s', hg⟩ := evolves_of_course husers hc s hs
    exact .inl ⟨e, s', rfl, (of_gather husers hs hc).1, hg⟩
  obtain ⟨hposted, hok⟩ := of_gather husers hs hc₁
  obtain ⟨s₁, hg₁, hgathered⟩ := hok facts rfl
  rcases Course.of_attempt_bind h₁ with ⟨e, rfl, hc⟩ | ⟨latest, w₂, t₂, u₂, hc₂, h₂, rfl⟩
  · obtain ⟨a, heq, -⟩ := Course.of_attempt_lift hc
    cases heq
  obtain ⟨a, heq, hc₂⟩ := Course.of_attempt_lift hc₂
  obtain rfl : latest = a := Except.ok.inj heq
  obtain ⟨s₂, hg₂⟩ := evolves_of_course husers hc₂ s₁ hg₁.hosts
  obtain ⟨v, hacts, hlatest, rfl, -⟩ := Course.of_query hc₂
  obtain ⟨sv, hgv⟩ := World.evolves_of_acts husers hacts s₁ hg₁.hosts
  obtain rfl : latest = true := by
    rw [hlatest, World.answer, hgv.memory, hg₁.memory, hticket]
    exact beq_self_eq_true _
  have hp₂ : Posted who id w₁ s₁ [] [⟨.isLatest, true⟩] w₂ s₂ := ⟨hg₂, rfl, rfl, rfl, by simp⟩
  rw [if_pos rfl] at h₂
  rcases Course.of_attempt_bind h₂ with ⟨e, rfl, hc⟩ | ⟨u, w₃, t₃, u₃, hc₃, h₃, rfl⟩
  · obtain ⟨sent, unsent, s', hsplit, hp, -⟩ := of_carryOut husers hg₂.hosts hc
    exact .inr ⟨facts, t₁, _, w₁, s₁, sent, unsent, s', rfl, hposted, hg₁, hgathered, hsplit,
      hp₂.trans hp, .inl ⟨e, rfl⟩⟩
  · obtain ⟨sent, unsent, s₃, hsplit, hp₃, hend⟩ := of_carryOut husers hg₂.hosts hc₃
    obtain ⟨s', hg'⟩ := evolves_of_course husers h₃ s₃ hp₃.grown.hosts
    obtain ⟨rfl, rfl, -⟩ := Course.of_attempt_pure h₃
    have hp' : Posted who id w₃ s₃ [] [] w' s' := ⟨hg', rfl, rfl, rfl, by simp⟩
    have hp := hp₂.trans (hp₃.trans hp')
    exact .inr ⟨facts, t₁, _, w₁, s₁, sent, unsent, s', rfl, hposted, hg₁, hgathered, hsplit,
      by simpa using hp, .inr ⟨hend rfl, rfl⟩⟩

end Courses

end Pass

end ReviewQuorum
