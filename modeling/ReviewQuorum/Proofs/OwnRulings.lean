import Mathlib.Data.List.Forall2
import ReviewQuorum.Proofs.Answering
import ReviewQuorum.Proofs.GateAnswer
import ReviewQuorum.Proofs.IdleCommands

/-! # Every request gets the ruling on itself

The commands of a change request are put in order twice: when its comments are read, by their
moments, and when its commands are replayed, the description's first and the others by their
moments again. The second time moves nothing, also where moments tie
(`Invocation.inOrder_commands_extract`). So the rulings of a replay come one for each request, in
the order in which the requests were found (`Ledger.forall₂_isOn`).

A reply looks its ruling up by the source. If no two comments have the same identifier, each source
has one ruling (`Ledger.rulingFor?_of_mem`), and so the look-up finds the request's own
(`own_rulings`). -/

namespace ReviewQuorum

/-- **A ruling on what an invocation asks for**: on its request, made by its account in its place.
-/
structure Ruling.IsOn (r : Ruling) (i : Invocation) : Prop where
  source : r.source = i.source
  actor : r.actor = i.actor
  request : i.outcome = .parsed r.request

theorem Outcome.request?_eq_some {o : Outcome} {q : Request} :
    o.request? = some q ↔ o = .parsed q := by
  cases o <;> simp [request?]

/-! ### The order of commands -/

namespace Invocation

/-- The invocations that read as requests. -/
def requests (is : List Invocation) : List Invocation :=
  is.filter fun i => i.outcome.request?.isSome

theorem pairwise_commands_extract (change : ChangeRequest) (comments : List Comment)
    (bot : Account) :
    (commands (extract change comments bot)).Pairwise fun a b => a.notAfter b = true := by
  rw [commands_extract, List.pairwise_append]
  refine ⟨?_, pairwise_commandsIn comments bot, ?_⟩
  · rcases commands_ofDescription? change with ⟨-, h⟩ | ⟨q, text, -, h⟩
    · rw [h]
      exact .nil
    · rw [h]
      exact List.pairwise_singleton _ _
  · intro a ha b hb
    exact Command.notAfter_of_description (source_of_mem_described ha) (source_of_mem_commandsIn hb)

/-- **Putting the commands of a change request in order moves nothing.** -/
theorem inOrder_commands_extract (change : ChangeRequest) (comments : List Comment)
    (bot : Account) : Command.inOrder (commands (extract change comments bot)) =
      commands (extract change comments bot) :=
  Command.inOrder_of_pairwise (pairwise_commands_extract change comments bot)

end Invocation

/-! ### One ruling for each request -/

namespace Ledger

variable {author : Account} {roleOf : Account → Option Role}

/-- **The rulings on commands in a row** are on the requests that they come from, one by one. -/
theorem forall₂_isOn (p : Policy) (is : List Invocation) :
    List.Forall₂ (fun i r => r.IsOn i) (Invocation.requests is)
      (ruleOnAll author roleOf p (Invocation.commands is)) := by
  induction is generalizing p with
  | nil => exact .nil
  | cons i is ih =>
    cases hq : i.outcome.request? with
    | none =>
      have hrequests : Invocation.requests (i :: is) = Invocation.requests is := by
        simp [Invocation.requests, hq]
      have hcommands : Invocation.commands (i :: is) = Invocation.commands is := by
        simp [Invocation.commands, Invocation.command?, hq]
      rw [hrequests, hcommands]
      exact ih p
    | some q =>
      let c : Command := ⟨i.actor, q, i.rawText, i.source, i.moment⟩
      have hrequests : Invocation.requests (i :: is) = i :: Invocation.requests is := by
        simp [Invocation.requests, hq]
      have hcommands : Invocation.commands (i :: is) = c :: Invocation.commands is := by
        simp [Invocation.commands, Invocation.command?, hq, c]
      have hruling : (ruleOn author roleOf p c).IsOn i := ⟨rfl, rfl, Outcome.request?_eq_some.mp hq⟩
      rw [hrequests, hcommands, ruleOnAll]
      exact .cons hruling (ih _)

theorem rulingFor?_of_mem {l : Ledger} (h : (l.rulings.map (·.source)).Nodup) {r : Ruling}
    (hr : r ∈ l.rulings) : l.rulingFor? r.source = some r := by
  obtain ⟨r', hfind⟩ : ∃ r', l.rulingFor? r.source = some r' :=
    Option.isSome_iff_exists.mp (List.find?_isSome.mpr ⟨r, hr, beq_self_eq_true r.source⟩)
  have hsource : r'.source = r.source := by simpa using List.find?_some hfind
  have hsame : r' = r :=
    List.inj_on_of_nodup_map h (List.mem_of_find?_eq_some hfind) hr hsource
  rw [hfind, hsame]

theorem nodup_sources_of_isOn {is : List Invocation} {rs : List Ruling}
    (h : List.Forall₂ (fun i r => r.IsOn i) is rs) (hnodup : (is.map (·.source)).Nodup) :
    (rs.map (·.source)).Nodup := by
  have hsources : is.map (·.source) = rs.map (·.source) := by
    rw [← List.forall₂_eq_eq_eq, List.forall₂_map_left_iff, List.forall₂_map_right_iff]
    exact h.imp fun i r hr => hr.source.symm
  exact hsources ▸ hnodup

end Ledger

/-- A ruling is never told in the words of the help. -/
theorem Reply.ruled_ne_help (r : Ruling) : ruled (some r) ≠ help := by
  intro h
  have hhead : (ruled (some r)).toList.head? = some 'U' := by
    rw [h]
    exact head?_help
  obtain ⟨source, actor, request, before, after, decision⟩ := r
  cases decision with
  | applied changed => simp [ruled, head?_success] at hhead
  | denied reason => rcases head?_denial reason with hc | hc <;> simp [ruled, hc] at hhead

/-- **Every request gets the ruling on itself.** A replay takes the commands of a change request as
they were found, and rules on its requests one by one. If no two comments have the same identifier,
the reply to a request tells what the ruling on it is, which is not the help. -/
theorem own_rulings (change : ChangeRequest) (comments : List Comment) (bot : Account)
    (initial : Policy) (author : Account) (roleOf : Account → Option Role) :
    let is := Invocation.extract change comments bot
    let l := Ledger.replay initial (Invocation.commands is) author roleOf
    Command.inOrder (Invocation.commands is) = Invocation.commands is ∧
      List.Forall₂ (fun i r => r.IsOn i) (Invocation.requests is) l.rulings ∧
      ((comments.map (·.id)).Nodup →
        List.Forall₂
          (fun i r => l.rulingFor? i.source = some r ∧
            Reply.message i.outcome (l.rulingFor? i.source) = Reply.ruled (some r) ∧
            Reply.ruled (some r) ≠ Reply.help)
          (Invocation.requests is) l.rulings) := by
  intro is l
  have horder : Command.inOrder (Invocation.commands is) = Invocation.commands is :=
    Invocation.inOrder_commands_extract change comments bot
  have hon : List.Forall₂ (fun i r => r.IsOn i) (Invocation.requests is) l.rulings := by
    rw [Ledger.rulings_replay, horder]
    exact Ledger.forall₂_isOn initial is
  refine ⟨horder, hon, fun hids => ?_⟩
  have hsources : (l.rulings.map (·.source)).Nodup := Ledger.nodup_sources_of_isOn hon
    ((Invocation.nodup_sources hids).sublist (List.filter_sublist.map _))
  refine List.forall₂_iff_zip.mpr ⟨hon.length_eq, fun {i r} hmem => ?_⟩
  have hir : r.IsOn i := List.forall₂_zip hon hmem
  have hfound : l.rulingFor? i.source = some r :=
    hir.source ▸ Ledger.rulingFor?_of_mem hsources (List.of_mem_zip hmem).2
  refine ⟨hfound, ?_, Reply.ruled_ne_help r⟩
  rw [hfound, hir.request]
  rfl

/-- A change request of alice's that asks for two reviewers. -/
def tiedChange : ChangeRequest := ⟨"1", "alice", "/reviewers 2", ⟨0⟩, Dict.empty⟩

/-- At one moment alice asks for three reviewers and for one, and bob asks for nothing that can be
read. -/
def tiedComments : List Comment :=
  [⟨"c1", "alice", "/reviewers 3", ⟨⟨1⟩, 1⟩⟩, ⟨"c2", "bob", "/reviewers few", ⟨⟨1⟩, 1⟩⟩,
    ⟨"c3", "alice", "/reviewers 1", ⟨⟨1⟩, 1⟩⟩]

/-- Alice gets an answer to each of her requests, and the last one is refused. -/
theorem own_rulings_tiedComments :
    let is := Invocation.extract tiedChange tiedComments "revgate-bot"
    let l := Ledger.replay .default (Invocation.commands is) "alice" fun _ => none
    (tiedComments.map (·.id)).Nodup ∧
      is.map (·.source.key) = ["description", "comment:c1", "comment:c2", "comment:c3"] ∧
      l.rulings.map (fun r => (r.source.key, r.decision)) =
        [("description", .applied true), ("comment:c1", .applied true),
          ("comment:c3", .denied .authorCannotDecrease)] ∧
      List.Forall₂
        (fun i r => l.rulingFor? i.source = some r ∧
          Reply.message i.outcome (l.rulingFor? i.source) = Reply.ruled (some r) ∧
          Reply.ruled (some r) ≠ Reply.help)
        (Invocation.requests is) l.rulings := by
  intro is l
  have hids : (tiedComments.map (·.id)).Nodup := by decide
  have hsorted : Comment.inOrder (tiedComments.filter fun c => c.author != "revgate-bot") =
      tiedComments := List.mergeSort_of_pairwise (by decide)
  have hextract : is = (Invocation.ofDescription? tiedChange).toList ++
      tiedComments.filterMap Invocation.ofComment? := congrArg (_ ++ List.filterMap _ ·) hsorted
  obtain ⟨horder, -, hown⟩ :=
    own_rulings tiedChange tiedComments "revgate-bot" .default "alice" fun _ => none
  refine ⟨hids, ?_, ?_, hown hids⟩
  · rw [hextract]
    decide +kernel
  · rw [Ledger.rulings_replay, horder]
    change (Ledger.ruleOnAll _ _ _ (Invocation.commands is)).map _ = _
    rw [hextract]
    decide +kernel

end ReviewQuorum
