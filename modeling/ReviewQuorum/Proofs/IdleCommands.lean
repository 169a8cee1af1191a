import ReviewQuorum.Proofs.AuthorRun
import ReviewQuorum.Proofs.StableOrder

/-! # Commands without effect

A command that is refused, or that asks for what is already so, leaves the policy as it finds it
(`Ledger.policyAfter_of_isIdle`), and a ruling depends on nothing but the policy before it and the
command. So such commands can be taken out of a history, any of them at once: the others are ruled
on as before, and the policy at the end is the same (`idle_commands_erased`).

A history may hold the same command several times, and the rulings on its copies may differ. So
commands are told apart by their places in the history (`Ledger.ruledPlaces`). A sort keeps the
copies in their order, and taking commands out does not move the others
(`StableOrder.mergeSort_filter`). -/

namespace ReviewQuorum

/-- Whether a command has left the policy as it was: it was refused, or it changed nothing. -/
def Ruling.isIdle (r : Ruling) : Bool :=
  match r.decision with
  | .applied changed => !changed
  | .denied _ => true

/-- The commands of a history with their places in it, in the order in which they are taken. -/
def Command.placed (cs : List Command) : List (Command × Nat) :=
  cs.zipIdx.mergeSort fun a b => a.1.notAfter b.1

namespace Ledger

/-- The rulings of a replay, each with the place of its command in the history. -/
def ruledPlaces (initial : Policy) (cs : List Command) (author : Account)
    (roleOf : Account → Option Role) : List (Nat × Ruling) :=
  ((Command.placed cs).map (·.2)).zip (replay initial cs author roleOf).rulings

/-- The ruling on a command by the rules. -/
def ruleOn (author : Account) (roleOf : Account → Option Role) (p : Policy) (c : Command) :
    Ruling :=
  ruling p c (actorOf author roleOf c).permission

/-- The rulings on commands that are taken one after another, from a policy on. -/
def ruleOnAll (author : Account) (roleOf : Account → Option Role) (p : Policy) :
    List Command → List Ruling
  | [] => []
  | c :: cs =>
    ruleOn author roleOf p c :: ruleOnAll author roleOf (policyAfter author roleOf p c) cs

variable {author : Account} {roleOf : Account → Option Role}

/-! ### Rulings one after another -/

theorem after_ruleOn (p : Policy) (c : Command) :
    (ruleOn author roleOf p c).after = policyAfter author roleOf p c := by
  simp only [ruleOn, ruling, policyAfter]
  cases (actorOf author roleOf c).permission p (p.apply c.request) <;> simp [settle]

theorem rulings_foldl_applyByRules (cs : List Command) (l : Ledger) :
    (cs.foldl (applyByRules author roleOf) l).rulings =
      l.rulings ++ ruleOnAll author roleOf l.policy cs := by
  induction cs generalizing l with
  | nil => simp [ruleOnAll]
  | cons c cs ih =>
    have hpolicy : (l.applyByRules author roleOf c).policy = policyAfter author roleOf l.policy c :=
      after_ruleOn l.policy c
    rw [List.foldl_cons, ih, hpolicy, ruleOnAll, List.append_cons]
    rfl

theorem rulings_replay (initial : Policy) (cs : List Command) :
    (replay initial cs author roleOf).rulings =
      ruleOnAll author roleOf initial (Command.inOrder cs) := by
  rw [replay, rulings_foldl_applyByRules]
  rfl

theorem policy_replay (initial : Policy) (cs : List Command) :
    (replay initial cs author roleOf).policy =
      (Command.inOrder cs).foldl (policyAfter author roleOf) initial := by
  rw [replay, policy_foldl_applyByRules]
  rfl

/-- **An idle command leaves the policy as it finds it.** -/
theorem policyAfter_of_isIdle {p : Policy} {c : Command}
    (h : (ruleOn author roleOf p c).isIdle = true) : policyAfter author roleOf p c = p := by
  rw [← after_ruleOn]
  simp only [ruleOn, ruling, Ruling.isIdle] at h ⊢
  cases hp : (actorOf author roleOf c).permission p (p.apply c.request) with
  | denied reason => rfl
  | allowed =>
    rw [hp] at h
    simpa [settle] using h

/-- **Idle commands may be passed over.** Commands carry marks here, which say what is kept. -/
theorem ruleOnAll_keep {α : Type} (keep : α → Bool) (cs : List (Command × α)) (p : Policy)
    (h : ∀ x ∈ (cs.map (·.2)).zip (ruleOnAll author roleOf p (cs.map (·.1))),
      keep x.1 = false → x.2.isIdle = true) :
    ruleOnAll author roleOf p ((cs.filter fun c => keep c.2).map (·.1)) =
        (((cs.map (·.2)).zip (ruleOnAll author roleOf p (cs.map (·.1)))).filter
          fun x => keep x.1).map (·.2) ∧
      ((cs.filter fun c => keep c.2).map (·.1)).foldl (policyAfter author roleOf) p =
        (cs.map (·.1)).foldl (policyAfter author roleOf) p := by
  induction cs generalizing p with
  | nil => exact ⟨rfl, rfl⟩
  | cons c cs ih =>
    simp only [List.map_cons, ruleOnAll, List.zip_cons_cons, List.forall_mem_cons] at h
    obtain ⟨hfirst, hrest⟩ := h
    obtain ⟨hrulings, hpolicy⟩ := ih _ hrest
    by_cases hkeep : keep c.2 = true
    · simp only [List.filter_cons, hkeep, if_true, List.map_cons, ruleOnAll, List.zip_cons_cons,
        List.foldl_cons, hrulings, hpolicy, and_self]
    · have hstays : policyAfter author roleOf p c.1 = p :=
        policyAfter_of_isIdle (hfirst (Bool.not_eq_true _ ▸ hkeep))
      rw [hstays] at hrulings hpolicy
      simp only [List.filter_cons, hkeep, List.map_cons, ruleOnAll, List.zip_cons_cons,
        List.foldl_cons, hstays]
      exact ⟨hrulings, hpolicy⟩

theorem of_mem_zip_ruleOnAll {α : Type} {cs : List (Command × α)} {p : Policy} {x : α × Ruling}
    (h : x ∈ (cs.map (·.2)).zip (ruleOnAll author roleOf p (cs.map (·.1)))) :
    ∃ c p', (c, x.1) ∈ cs ∧ x.2 = ruleOn author roleOf p' c := by
  induction cs generalizing p with
  | nil => cases h
  | cons c cs ih =>
    simp only [List.map_cons, ruleOnAll, List.zip_cons_cons] at h
    rcases List.mem_cons.mp h with rfl | h
    · exact ⟨c.1, p, List.mem_cons_self, rfl⟩
    · obtain ⟨d, p', hd, hx⟩ := ih h
      exact ⟨d, p', List.mem_cons_of_mem _ hd, hx⟩

theorem length_ruleOnAll (p : Policy) (cs : List Command) :
    (ruleOnAll author roleOf p cs).length = cs.length := by
  induction cs generalizing p with
  | nil => rfl
  | cons c cs ih => rw [ruleOnAll, List.length_cons, List.length_cons, ih]

end Ledger

/-! ### Histories with commands taken out -/

namespace Command

theorem inOrder_map_fst {α : Type} (cs : List (Command × α)) :
    inOrder (cs.map (·.1)) = (cs.mergeSort fun a b => a.1.notAfter b.1).map (·.1) := by
  rw [inOrder, ← List.map_mergeSort (r := fun a b : Command × α => a.1.notAfter b.1)]
  exact fun _ _ _ _ => rfl

theorem map_fst_placed (cs : List Command) : (placed cs).map (·.1) = inOrder cs := by
  rw [placed, ← inOrder_map_fst, List.zipIdx_map_fst]

/-- **Taking commands out of a history does not move the others.** -/
theorem inOrder_filter_zipIdx (p : Command × Nat → Bool) (cs : List Command) :
    inOrder ((cs.zipIdx.filter p).map (·.1)) = ((placed cs).filter p).map (·.1) := by
  rw [inOrder_map_fst, placed, StableOrder.mergeSort_filter
    (fun a b c => notAfter_trans a.1 b.1 c.1) (fun a b => notAfter_total a.1 b.1)]

theorem of_mem_placed {cs : List Command} {c : Command} {k : Nat} (h : (c, k) ∈ placed cs) :
    cs[k]? = some c :=
  List.mk_mem_zipIdx_iff_getElem?.mp (List.mem_mergeSort.mp h)

end Command

namespace Ledger

variable {author : Account} {roleOf : Account → Option Role} {initial : Policy}
  {cs : List Command}

theorem ruledPlaces_eq : ruledPlaces initial cs author roleOf =
    ((Command.placed cs).map (·.2)).zip
      (ruleOnAll author roleOf initial ((Command.placed cs).map (·.1))) := by
  rw [ruledPlaces, rulings_replay, Command.map_fst_placed]

theorem of_mem_ruledPlaces {x : Nat × Ruling} (h : x ∈ ruledPlaces initial cs author roleOf) :
    ∃ c p, cs[x.1]? = some c ∧ x.2 = ruleOn author roleOf p c := by
  rw [ruledPlaces_eq] at h
  obtain ⟨c, p, hc, hx⟩ := of_mem_zip_ruleOnAll h
  exact ⟨c, p, Command.of_mem_placed hc, hx⟩

theorem map_snd_ruledPlaces :
    (ruledPlaces initial cs author roleOf).map (·.2) =
      (replay initial cs author roleOf).rulings := by
  have hlength : (ruleOnAll author roleOf initial ((Command.placed cs).map (·.1))).length ≤
      ((Command.placed cs).map (·.2)).length :=
    Nat.le_of_eq (by rw [length_ruleOnAll, List.length_map, List.length_map])
  rw [ruledPlaces_eq, List.map_snd_zip hlength, rulings_replay, Command.map_fst_placed]

/-- **Idle commands at any places of a history may be taken out of it.** -/
theorem replay_erase {erased : Nat → Bool}
    (h : ∀ x ∈ ruledPlaces initial cs author roleOf, erased x.1 = true → x.2.isIdle = true) :
    let kept := (cs.zipIdx.filter fun c => !erased c.2).map (·.1)
    (replay initial kept author roleOf).policy = (replay initial cs author roleOf).policy ∧
      (replay initial kept author roleOf).rulings =
        ((ruledPlaces initial cs author roleOf).filter fun x => !erased x.1).map (·.2) := by
  intro kept
  rw [ruledPlaces_eq] at h ⊢
  obtain ⟨hrulings, hpolicy⟩ := ruleOnAll_keep (fun k => !erased k) (Command.placed cs) initial
    fun x hx he => h x hx (by simpa using he)
  rw [policy_replay, policy_replay, rulings_replay, Command.inOrder_filter_zipIdx,
    ← Command.map_fst_placed cs]
  exact ⟨hpolicy, hrulings⟩

/-- The commands of accounts that may not change the policy are idle. -/
theorem isIdle_ruleOn {c : Command} (hauthor : c.actor ≠ author)
    (hstanding : ∀ r, roleOf c.actor = some r → r < .committers) (p : Policy) :
    (ruleOn author roleOf p c).isIdle = true := by
  have hdenied : (actorOf author roleOf c).permission p (p.apply c.request) =
      .denied .notPermitted :=
    Actor.permission_eq_notPermitted.mpr ⟨beq_eq_false_iff_ne.mpr hauthor, hstanding⟩
  simp only [ruleOn, ruling, hdenied]
  rfl

/-- **The commands of outsiders may be taken out of a history.** -/
theorem replay_without {outsider : Account → Bool}
    (h : ∀ a, outsider a = true → a ≠ author ∧ ∀ r, roleOf a = some r → r < .committers) :
    let kept := cs.filter fun c => !outsider c.actor
    (replay initial kept author roleOf).policy = (replay initial cs author roleOf).policy ∧
      (replay initial kept author roleOf).rulings =
        (replay initial cs author roleOf).rulings.filter fun r => !outsider r.actor := by
  intro kept
  let erased (k : Nat) : Bool := cs[k]?.any fun c => outsider c.actor
  have hplace : ∀ x ∈ ruledPlaces initial cs author roleOf, erased x.1 = outsider x.2.actor := by
    intro x hx
    obtain ⟨c, p, hc, hruling⟩ := of_mem_ruledPlaces hx
    rw [hruling]
    simp only [erased, hc, Option.any_some]
    rfl
  have hkept : (cs.zipIdx.filter fun c => !erased c.2).map (·.1) = kept := by
    have hsame : (cs.zipIdx.filter fun c => !erased c.2) =
        cs.zipIdx.filter ((fun c => !outsider c.actor) ∘ Prod.fst) := by
      refine List.filter_congr fun c hc => ?_
      have hget : cs[c.2]? = some c.1 := List.mem_zipIdx_iff_getElem?.mp hc
      simp only [erased, hget, Option.any_some, Function.comp_apply]
    rw [hsame, ← List.filter_map, List.zipIdx_map_fst]
  have hidle : ∀ x ∈ ruledPlaces initial cs author roleOf, erased x.1 = true →
      x.2.isIdle = true := by
    intro x hx he
    rw [hplace x hx] at he
    obtain ⟨c, p, -, hruling⟩ := of_mem_ruledPlaces hx
    rw [hruling] at he ⊢
    obtain ⟨hauthor, hstanding⟩ := h c.actor he
    exact isIdle_ruleOn hauthor hstanding p
  obtain ⟨hpolicy, hrulings⟩ := replay_erase hidle
  rw [hkept] at hpolicy hrulings
  refine ⟨hpolicy, hrulings.trans ?_⟩
  have hrulings : (ruledPlaces initial cs author roleOf).map (·.2) =
      (replay initial cs author roleOf).rulings := map_snd_ruledPlaces
  rw [← hrulings, List.filter_map]
  exact congrArg _ (List.filter_congr fun x hx => by rw [hplace x hx]; rfl)

end Ledger

/-- **Commands without effect can be erased.** The commands at any places of a history whose rulings
are idle can be taken out of it: the policy is the same in the end, and so are the rulings on the
others, in their order. In particular all commands of accounts that are not the author and have no
standing of `committers` can be taken out. -/
theorem idle_commands_erased (initial : Policy) (cs : List Command) (author : Account)
    (roleOf : Account → Option Role) :
    (∀ erased : Nat → Bool, (∀ x ∈ Ledger.ruledPlaces initial cs author roleOf,
        erased x.1 = true → x.2.isIdle = true) →
      let kept := (cs.zipIdx.filter fun c => !erased c.2).map (·.1)
      (Ledger.replay initial kept author roleOf).policy =
          (Ledger.replay initial cs author roleOf).policy ∧
        (Ledger.replay initial kept author roleOf).rulings =
          ((Ledger.ruledPlaces initial cs author roleOf).filter fun x => !erased x.1).map (·.2)) ∧
    (∀ outsider : Account → Bool, (∀ a, outsider a = true →
        a ≠ author ∧ ∀ r, roleOf a = some r → r < .committers) →
      let kept := cs.filter fun c => !outsider c.actor
      (Ledger.replay initial kept author roleOf).policy =
          (Ledger.replay initial cs author roleOf).policy ∧
        (Ledger.replay initial kept author roleOf).rulings =
          (Ledger.replay initial cs author roleOf).rulings.filter fun r => !outsider r.actor) :=
  ⟨fun _ h => Ledger.replay_erase h, fun _ h => Ledger.replay_without h⟩

/-- Alice asks twice for two reviewers and then for one, and mallory asks for nine in between. -/
def repeatedRequests : List Command :=
  [⟨"alice", ⟨2, none⟩, "/reviewers 2", .comment "c1", ⟨⟨1⟩, 1⟩⟩,
    ⟨"mallory", ⟨9, none⟩, "/reviewers 9", .comment "c2", ⟨⟨1⟩, 1⟩⟩,
    ⟨"alice", ⟨2, none⟩, "/reviewers 2", .comment "c1", ⟨⟨1⟩, 1⟩⟩,
    ⟨"alice", ⟨1, none⟩, "/reviewers 1", .comment "c4", ⟨⟨2⟩, 2⟩⟩]

/-- All but the first can be taken out, though the history holds that one a second time; and so can
what mallory asks for. -/
theorem idle_commands_erased_repeatedRequests :
    let roleOf : Account → Option Role := fun _ => none
    let places := Ledger.ruledPlaces .default repeatedRequests "alice" roleOf
    let l := Ledger.replay .default repeatedRequests "alice" roleOf
    let first := Ledger.replay .default (repeatedRequests.take 1) "alice" roleOf
    let others := Ledger.replay .default
      (repeatedRequests.filter fun c => !(c.actor == "mallory")) "alice" roleOf
    places.map (fun x => (x.1, x.2.isIdle)) = [(0, false), (1, true), (2, true), (3, true)] ∧
      first.policy = l.policy ∧ first.rulings = (places.filter fun x => !(x.1 != 0)).map (·.2) ∧
      others.policy = l.policy ∧
      others.rulings = l.rulings.filter fun r => !(r.actor == "mallory") := by
  intro roleOf places l first others
  have hplaced : Command.placed repeatedRequests = repeatedRequests.zipIdx :=
    List.mergeSort_of_pairwise (by decide)
  have hplaces : places = (repeatedRequests.zipIdx.map (·.2)).zip
      (Ledger.ruleOnAll "alice" roleOf .default (repeatedRequests.zipIdx.map (·.1))) := by
    rw [← hplaced]
    exact Ledger.ruledPlaces_eq
  have hidle : ∀ x ∈ places, (x.1 != 0) = true → x.2.isIdle = true := by
    rw [hplaces]
    decide
  obtain ⟨herase, hwithout⟩ := idle_commands_erased .default repeatedRequests "alice" roleOf
  obtain ⟨hfirst, hfirst'⟩ := herase (· != 0) hidle
  obtain ⟨hothers, hothers'⟩ := hwithout (· == "mallory") (by
    intro a ha
    rw [eq_of_beq ha]
    exact ⟨by decide, nofun⟩)
  refine ⟨?_, hfirst, hfirst', hothers, hothers'⟩
  rw [hplaces]
  decide

end ReviewQuorum
