import ReviewQuorum.Proofs.GateAnswer

/-! # Roles that are resolved in advance

A pass does not ask the census in the middle of a replay. It collects the accounts involved, asks
for each of them once, and keeps the answers in a table. If the census never fails, the table has
its roles for all these accounts (`Pass.run_resolveRoles`).

Nobody is lost by that: the author, those who give commands and those who review are all that a
replay and a tally ask about, so both come to the same with the table as with the whole census
(`resolved_roles_suffice`). -/

namespace ReviewQuorum

namespace Pass

section Answers

variable {σ α β : Type} {answer : (q : Query) → σ → q.Answer × σ} {s : σ} {retry : Retry}

theorem run_bind_of_ok {x : Attempt α} {a : α} {s' : σ} (h : x.run.run answer s = (.ok a, s'))
    (f : α → Attempt β) : (x >>= f).run.run answer s = (f a).run.run answer s' := by
  rw [ExceptT.run_bind, Program.run_bind, h]

theorem exists_of_run_bind {x : Attempt α} {f : α → Attempt β} {b : β} {s' : σ}
    (h : (x >>= f).run.run answer s = (.ok b, s')) :
    ∃ a s₁, x.run.run answer s = (.ok a, s₁) ∧ (f a).run.run answer s₁ = (.ok b, s') := by
  rw [ExceptT.run_bind, Program.run_bind] at h
  cases hx : x.run.run answer s with
  | mk r s₁ =>
    rw [hx] at h
    cases r with
    | ok a => exact ⟨a, s₁, rfl, h⟩
    | error e => cases h

theorem run_call_of_ok {q : Inquiry (Except Failure α)} {v : α} {s' : σ}
    (h : q.run answer s = (.ok v, s')) : (call retry q).run.run answer s = (.ok v, s') := by
  change (retry.attempt (fun ms => inquire (.pause ms)) q (retry.maxAttempts - 1) 0).run answer s =
    _
  cases retry.maxAttempts - 1 with
  | zero => exact h
  | succ left => rw [Retry.attempt, Program.run_bind, h, Program.run_pure]

variable {census : Account → Option Role}
  (hcensus : ∀ account s, (answer (.roleOf account) s).1 = .ok (census account))

include hcensus

theorem run_resolveRole (retry : Retry) (table : RoleTable) (account : Account) :
    ∃ s', (resolveRole retry table account).run.run answer s =
      (.ok ((census account).elim table (table.insert account)), s') := by
  have hasked : (inquire (.roleOf account)).run answer s =
      (.ok (census account), (answer (.roleOf account) s).2) := Prod.ext (hcensus account s) rfl
  refine ⟨(answer (.roleOf account) s).2, (run_bind_of_ok (run_call_of_ok hasked) _).trans ?_⟩
  cases census account <;> rfl

/-- The table that is left has the roles of those who were asked about, besides what it had. -/
theorem run_foldlM_resolveRole (retry : Retry) (accounts : List Account) {table : RoleTable}
    (htable : ∀ a, table.roleOf a = none ∨ table.roleOf a = census a) :
    ∃ table' s', (accounts.foldlM (resolveRole retry) table).run.run answer s = (.ok table', s') ∧
      ∀ a, table'.roleOf a = if a ∈ accounts then census a else table.roleOf a := by
  induction accounts generalizing table s with
  | nil => exact ⟨table, s, rfl, fun a => (if_neg List.not_mem_nil).symm⟩
  | cons account accounts ih =>
    obtain ⟨s₁, hfirst⟩ := run_resolveRole (s := s) hcensus retry table account
    have hstored (a : Account) : ((census account).elim table (table.insert account)).roleOf a =
        if account = a then census account else table.roleOf a := by
      cases hrole : census account with
      | none =>
        rw [Option.elim_none]
        split_ifs with ha
        · rw [← ha]
          exact (htable account).elim id fun h => h.trans hrole
        · rfl
      | some role => rw [Option.elim_some, RoleTable.roleOf_insert]
    have hwithin (a : Account) : ((census account).elim table (table.insert account)).roleOf a =
        none ∨ ((census account).elim table (table.insert account)).roleOf a = census a := by
      rw [hstored]
      split_ifs with ha
      · exact .inr (ha ▸ rfl)
      · exact htable a
    obtain ⟨table', s', hrest, hroles⟩ := ih (s := s₁) hwithin
    refine ⟨table', s', ?_, fun a => ?_⟩
    · rw [List.foldlM_cons, run_bind_of_ok hfirst, hrest]
    · rw [hroles, hstored]
      simp only [List.mem_cons, eq_comm (a := a) (b := account)]
      grind

/-- **Resolving roles** leaves those of all who were asked about. -/
theorem run_resolveRoles (retry : Retry) (accounts : List Account) :
    ∃ roles s', (resolveRoles retry accounts).run.run answer s = (.ok roles, s') ∧
      ∀ a ∈ accounts, roles.roleOf a = census a := by
  obtain ⟨roles, s', hrun, hroles⟩ := run_foldlM_resolveRole (s := s) hcensus retry accounts
    fun _ => .inl (RoleTable.roleOf_empty _)
  exact ⟨roles, s', hrun, fun a ha => (hroles a).trans (if_pos ha)⟩

theorem roles_of_gather {settings : Settings} {facts : Facts} {s' : σ}
    (h : (gather settings retry).run.run answer s = (.ok facts, s')) :
    ∀ a ∈ accountsInvolved facts.change (Invocation.commands
      (Invocation.extract facts.change facts.comments settings.botAccount)) facts.reviews,
      facts.roles.roleOf a = census a := by
  obtain ⟨change, s₁, -, h⟩ := exists_of_run_bind h
  obtain ⟨comments, s₂, -, h⟩ := exists_of_run_bind h
  obtain ⟨reviews, s₃, -, h⟩ := exists_of_run_bind h
  obtain ⟨roles, s₄, hresolved, h⟩ := exists_of_run_bind h
  cases h
  obtain ⟨roles', s₅, hrun, hroles⟩ := run_resolveRoles (s := s₃) hcensus retry _
  cases hresolved.symm.trans hrun
  exact hroles

end Answers

end Pass

/-- **Resolving roles in advance loses nobody**, if the census never fails. Whatever the change
request, its comments and its reviews are, and whoever is the bot, the roles of the accounts
involved can be resolved; with them a replay of the commands comes to the same ledger as with the
whole census, and the reviews to the same tally and the same readiness, under any policy. So do the
ledger, the tally and the readiness that a pass comes to with the facts it has gathered. -/
theorem resolved_roles_suffice {σ : Type} {answer : (q : Query) → σ → q.Answer × σ}
    {census : Account → Option Role}
    (hcensus : ∀ account s, (answer (.roleOf account) s).1 = .ok (census account))
    (settings : Settings) (retry : Retry) :
    (∀ (change : ChangeRequest) (comments : List Comment) (reviews : List Review) (s : σ),
      let commands := Invocation.commands (Invocation.extract change comments settings.botAccount)
      ∃ roles s', (Pass.resolveRoles retry (accountsInvolved change commands reviews)).run.run
          answer s = (.ok roles, s') ∧
        (∀ initial, Ledger.replay initial commands change.author roles.roleOf =
          Ledger.replay initial commands change.author census) ∧
        ∀ p : Policy, p.tally reviews roles.roleOf = p.tally reviews census ∧
          p.readiness reviews roles.roleOf = p.readiness reviews census) ∧
    ∀ (context : Context) (facts : Facts) (s s' : σ),
      (Pass.gather settings retry).run.run answer s = (.ok facts, s') →
      let plan := Plan.make settings context facts
      let ledger := Ledger.replay .default (Invocation.commands (Invocation.extract facts.change
        facts.comments settings.botAccount)) facts.change.author census
      plan.ledger = ledger ∧ plan.tally = ledger.policy.tally facts.reviews census ∧
        plan.readiness = ledger.policy.readiness facts.reviews census := by
  constructor
  · intro change comments reviews s commands
    obtain ⟨roles, s', hrun, hinvolved⟩ := Pass.run_resolveRoles (s := s) hcensus retry
      (accountsInvolved change commands reviews)
    have htally := Policy.tally_of_involved hinvolved
    exact ⟨roles, s', hrun, fun initial => Ledger.replay_of_involved hinvolved initial _,
      fun p => ⟨htally p, congrArg (Readiness.evaluate p) (htally p)⟩⟩
  · intro context facts s s' h
    have hinvolved := Pass.roles_of_gather hcensus h
    have hledger := Ledger.replay_of_involved hinvolved .default facts.change.author
    have htally := Policy.tally_of_involved hinvolved
    refine ⟨hledger, ?_, ?_⟩
    · rw [← hledger, ← htally]
      rfl
    · rw [← hledger, Policy.readiness, ← htally]
      rfl

/-- The answers of a world to a pass with the first ticket, next to a census that never fails. -/
def answerBeside (census : Account → Option Role) : (q : Query) → World → q.Answer × World
  | .roleOf account, w => (.ok (census account), w)
  | q, w => World.answer "1" 0 1 q w

/-- A pass over alice's change request gathers facts, and with the roles in them bob's attempt to do
without a reviewer ends as with the whole census. -/
theorem resolved_roles_suffice_approvedWorld :
    let census := approvedWorld.census.roleOf
    (∀ account w, (answerBeside census (.roleOf account) w).1 = .ok (census account)) ∧
    ∃ facts w', (Pass.gather {} {}).run.run (answerBeside census) approvedWorld = (.ok facts, w') ∧
      (Plan.make {} {} facts).ledger = Ledger.replay .default (Invocation.commands
        (Invocation.extract facts.change facts.comments "revgate-bot")) facts.change.author
          census := by
  intro census
  have hcensus : ∀ account w,
      (answerBeside census (.roleOf account) w).1 = .ok (census account) := fun _ _ => rfl
  have hgathers : ((Pass.gather {} {}).run.run (answerBeside census) approvedWorld).1.toBool =
      true := by decide +kernel
  cases hrun : (Pass.gather {} {}).run.run (answerBeside census) approvedWorld with
  | mk r w' =>
    rw [hrun] at hgathers
    cases r with
    | error e => cases hgathers
    | ok facts =>
      have hplan := (resolved_roles_suffice hcensus {} {}).2 {} facts approvedWorld w' hrun
      exact ⟨hcensus, facts, w', rfl, hplan.1⟩

end ReviewQuorum
