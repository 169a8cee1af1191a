import ReviewQuorum.Document
import ReviewQuorum.Proofs.Records
import ReviewQuorum.Wire.Settings

/-! # Values come back from their form

A value `Fits` if its numbers have the bits that its type gives them and its instants are civil.
Such a value is read from its form in JSON as itself, and the form from its text
(`saved_data_comes_back`).

Each type has a lemma `returns`, which goes through the members of a record or the variants of a
tagged value. What a record leaves out is what its reader takes by default (`Policy.returns`,
`Explanation.returns`), and what stands beside a tag has no member of that name
(`Outcome.returns`, `GateDecision.returns`). -/

namespace ReviewQuorum

open Wire
open Wire.Record (Reads)

variable {left : Nat}

/-! ### Moments -/

/-- The moments whose instant has a text that leads back to it, with a number of 64 bits. -/
structure Moment.Fits (m : Moment) : Prop where
  timestamp : m.timestamp.Civil
  sequence : m.sequence < 2 ^ 64

/-! ### Requests and commands -/

theorem Role.returns (r : Role) : Returns left (encode r) decode? r :=
  returns_word r.ofName?_name

theorem Role.returns_option (o : Option Role) :
    Returns left (ofOption encode o) (option? decode?) o :=
  Wire.returns_option nofun fun r _ => r.returns

theorem Bound.returns (b : Bound) : Returns left (encode b) decode? b :=
  returns_word (show Bound.ofName? b.name = some b by cases b <;> decide)

namespace Request

/-- The requests whose number has 8 bits. -/
structure Fits (q : Request) : Prop where
  count : q.count < 2 ^ 8

theorem reads_record {q : Request} (h : q.Fits) : Reads left record q.members q [] := by
  obtain ⟨count, role⟩ := q
  cases role with
  | none =>
    exact .bind (.required (returns_nat (by decide) h.count) (by simp)) <|
      .bind (.absent (by simp) none) <| .pure _ _
  | some r =>
    exact .bind (.required (returns_nat (by decide) h.count) (by simp)) <|
      .bind (.withDefault (Role.returns_option (some r)) (by simp) none) <| .pure _ _

theorem members_filled (q : Request) (s : String) : q.members ≠ [(s, .obj [])] := by
  simp [members, ofNat]

theorem returns {q : Request} (h : q.Fits) : Returns (left + 1) (encode q) decode? q :=
  (reads_record h).returns q.members_filled

end Request

namespace Outcome

/-- The outcomes whose numbers fit: 64 bits with a sign for a number out of bounds. -/
def Fits : Outcome → Prop
  | outOfRange requested _ _ => -2 ^ 63 ≤ requested ∧ requested < 2 ^ 63
  | parsed request => request.Fits
  | _ => True

theorem returns {o : Outcome} (h : o.Fits) : Returns (left + 1) (encode o) decode? o := by
  cases o with
  | helpRequested => exact returns_tagged rfl (by simp) (by simp) (by simp) rfl
  | malformed arguments =>
    exact (Reads.map malformed (.required (returns_str arguments) (by simp))).tagged
      rfl (by simp) (by simp) rfl
  | outOfRange requested bound role =>
    refine Reads.tagged ?_ rfl (by simp) (by simp) rfl
    exact .bind (.required (returns_int h) (by simp)) <|
      .bind (.required bound.returns (by simp)) <|
      .bind (.required role.returns (by simp)) <| .pure _ _
  | unknownRole token =>
    exact (Reads.map unknownRole (.required (returns_str token) (by simp))).tagged
      rfl (by simp) (by simp) rfl
  | parsed request =>
    -- The request stands beside the tag, and no member of it has the name of the tag.
    have hrest : Reads left Request.record request.members request [] := Request.reads_record h
    have hname : ∀ m ∈ request.members, m.1 ≠ "outcome" := by
      cases request with
      | mk count role => cases role <;> simp [Request.members]
    exact returns_tagged rfl hname (hrest.durable (by simp)) request.members_filled
      (show (Record.run? Request.record _).map parsed = _ by rw [hrest.run?_obj, Option.map_some])

end Outcome

theorem Source.returns (s : Source) : Returns (left + 1) (encode s) decode? s := by
  cases s with
  | description => exact returns_tagged rfl (by simp) (by simp) (by simp) rfl
  | comment id =>
    exact (Reads.map comment (.required (returns_str id) (by simp))).tagged
      rfl (by simp) (by simp) rfl

namespace Command

/-- The commands with a request and a moment that fit. -/
structure Fits (c : Command) : Prop where
  request : c.request.Fits
  moment : c.moment.Fits

theorem returns {c : Command} (h : c.Fits) : Returns (left + 2) (encode c) decode? c := by
  refine Reads.returns ?_ (by simp)
  exact .bind (.required (returns_str c.actor) (by simp)) <|
    .bind (.required (Request.returns h.request) (by simp)) <|
    .bind (.required (returns_str c.rawText) (by simp)) <|
    .bind (.required c.source.returns (by simp)) <|
    .bind (.required (returns_timestamp h.moment.timestamp) (by simp)) <|
    .bind (.required (returns_nat (by decide) h.moment.sequence) (by simp)) <| .pure _ _

end Command

/-! ### Policies and rulings -/

namespace Policy

/-- The policies whose numbers have 8 bits. They need not obey the range. -/
structure Fits (p : Policy) : Prop where
  total : p.total < 2 ^ 8
  minimums : ∀ r n, p.minimums.get? r = some n → n < 2 ^ 8

theorem returns {p : Policy} (h : p.Fits) : Returns (left + 2) (encode p) decode? p := by
  refine Reads.returns (.bind (.required (returns_nat (by decide) h.total) ?_) ?_) (by simp [ofNat])
  · split <;> simp
  · split
    · refine .bind (.withDefault (returns_roleMap (by simp [ofNat]) fun r n hn => ?_) (by simp) _)
        (.pure _ _)
      exact returns_nat (by decide) (h.minimums r n hn)
    · rename_i hnone
      obtain ⟨total, minimums⟩ := p
      have hempty : minimums.isEmpty = true := by simpa [hasMinimums] using hnone
      obtain rfl : minimums = RoleMap.empty := RoleMap.ext_get? fun r => by
        rw [RoleMap.isEmpty_iff.mp hempty, RoleMap.get?_empty]
      exact .bind (.absent (by simp) _) (.pure _ _)

end Policy

theorem Denial.returns (d : Denial) : Returns left (encode d) decode? d :=
  returns_word (show Denial.ofName? d.name = some d by cases d <;> decide)

theorem Decision.returns (d : Decision) : Returns (left + 1) (encode d) decode? d := by
  cases d with
  | applied changed =>
    exact (Reads.map applied (.required (returns_bool changed) (by simp))).tagged
      rfl (by simp) (by simp) rfl
  | denied reason =>
    refine Reads.tagged ?_ rfl (by simp) (by simp) rfl
    exact .map denied (.required reason.returns (by simp))

namespace Ruling

/-- The rulings with requests and policies that fit. -/
structure Fits (r : Ruling) : Prop where
  request : r.request.Fits
  before : r.before.Fits
  after : r.after.Fits

theorem returns {r : Ruling} (h : r.Fits) : Returns (left + 3) (encode r) decode? r := by
  refine Reads.returns ?_ (by simp)
  exact .bind (.required r.source.returns (by simp)) <|
    .bind (.required (returns_str r.actor) (by simp)) <|
    .bind (.required (Request.returns h.request) (by simp)) <|
    .bind (.required (Policy.returns h.before) (by simp)) <|
    .bind (.required (Policy.returns h.after) (by simp)) <|
    .bind (.required r.decision.returns (by simp)) <| .pure _ _

end Ruling

/-! ### Reviews and readiness -/

theorem Verdict.returns (v : Verdict) : Returns left (encode v) decode? v :=
  returns_word (show Verdict.ofName? v.name = some v by cases v <;> decide)

namespace Review

/-- The reviews at a moment that fits. -/
structure Fits (r : Review) : Prop where
  moment : r.moment.Fits

theorem returns {r : Review} (h : r.Fits) : Returns (left + 1) (encode r) decode? r := by
  refine Reads.returns ?_ (by simp)
  exact .bind (.required (returns_str r.reviewer) (by simp)) <|
    .bind (.required r.verdict.returns (by simp)) <|
    .bind (.required (returns_timestamp h.moment.timestamp) (by simp)) <|
    .bind (.withDefault (returns_nat (by decide) h.moment.sequence) (by simp) 0) <| .pure _ _

end Review

theorem Approval.returns (a : Approval) : Returns (left + 1) (encode a) decode? a := by
  refine Reads.returns ?_ (by simp)
  exact .bind (.required (returns_str a.reviewer) (by simp)) <|
    .bind (.nullable (Role.returns_option a.role) (by simp)) <| .pure _ _

namespace Tally

/-- The tallies whose numbers have 32 bits. -/
structure Fits (t : Tally) : Prop where
  total : t.total < 2 ^ 32
  byRole : ∀ r n, t.byRole.get? r = some n → n < 2 ^ 32

theorem returns {t : Tally} (h : t.Fits) : Returns (left + 3) (encode t) decode? t := by
  refine Reads.returns ?_ (by simp)
  exact .bind (.required (returns_nat (by decide) h.total) (by simp)) <|
    .bind (.required (returns_roleMap (by simp [ofNat]) fun r n hn =>
      returns_nat (by decide) (h.byRole r n hn)) (by simp)) <|
    .bind (.required (returns_list fun a _ => a.returns) (by simp)) <| .pure _ _

end Tally

namespace Requirement

/-- The requirements whose numbers have 32 bits. -/
structure Fits (q : Requirement) : Prop where
  required : q.required < 2 ^ 32
  actual : q.actual < 2 ^ 32

theorem reads_record {q : Requirement} (h : q.Fits) : Reads left record q.members q [] :=
  .bind (.required (returns_nat (by decide) h.required) (by simp)) <|
    .bind (.required (returns_nat (by decide) h.actual) (by simp)) <| .pure _ _

theorem returns {q : Requirement} (h : q.Fits) : Returns (left + 1) (encode q) decode? q :=
  (reads_record h).returns (by simp [members])

end Requirement

namespace RoleShortfall

/-- The shortfalls with a requirement that fits. -/
structure Fits (s : RoleShortfall) : Prop where
  requirement : s.requirement.Fits

theorem returns {s : RoleShortfall} (h : s.Fits) : Returns (left + 1) (encode s) decode? s := by
  refine Reads.returnsFlat ?_ (by simp [Requirement.members])
  exact .bind (.required s.role.returns (by simp [Requirement.members])) <|
    .bind (Requirement.reads_record h.requirement) <| .pure _ _

end RoleShortfall

namespace Explanation

/-- The explanations with a policy and requirements that fit. -/
structure Fits (e : Explanation) : Prop where
  policy : e.policy.Fits
  total : e.total.Fits
  unmetRoles : ∀ s ∈ e.unmetRoles, s.Fits

theorem returns {e : Explanation} (h : e.Fits) : Returns (left + 3) (encode e) decode? e := by
  have hpolicy : Returns (left + 2) (encode e.policy) decode? e.policy := Policy.returns h.policy
  have htotal : Returns (left + 2) (encode e.total) decode? e.total := Requirement.returns h.total
  obtain ⟨policy, policyDigest, total, unmetRoles⟩ := e
  cases unmetRoles with
  | nil =>
    refine Reads.returns ?_ (by simp)
    exact .bind (.required hpolicy (by simp)) <|
      .bind (.required (returns_str policyDigest) (by simp)) <|
      .bind (.required htotal (by simp)) <| .bind (.absent (by simp) []) <| .pure _ _
  | cons s ss =>
    have hunmet : Returns (left + 2) (.arr ((s :: ss).map encode)) (list? decode?) (s :: ss) :=
      returns_list fun t ht => RoleShortfall.returns (h.unmetRoles t ht)
    refine Reads.returns ?_ (by simp)
    exact .bind (.required hpolicy (by simp)) <|
      .bind (.required (returns_str policyDigest) (by simp)) <|
      .bind (.required htotal (by simp)) <| .bind (.withDefault hunmet (by simp) []) <| .pure _ _

end Explanation

namespace Readiness

/-- The readiness with an explanation that fits. -/
structure Fits (r : Readiness) : Prop where
  explanation : r.explanation.Fits

theorem returns {r : Readiness} (h : r.Fits) : Returns (left + 4) (encode r) decode? r := by
  refine Reads.returns ?_ (by simp)
  exact .bind (.required (returns_bool r.ready) (by simp)) <|
    .bind (.required (Explanation.returns h.explanation) (by simp)) <| .pure _ _

end Readiness

/-! ### The gate -/

namespace BlockReason

/-- The block reasons with an explanation that fits. -/
def Fits : BlockReason → Prop
  | notEvaluated => True
  | unready e => e.Fits

theorem durable_members {r : BlockReason} (h : r.Fits) :
    ∀ m ∈ r.members, Durable (left + 3) m.2 := by
  cases r with
  | notEvaluated => simp [members, durable_str]
  | unready e => simp [members, durable_str, (Explanation.returns h).durable]

theorem returns_members {r : BlockReason} (h : r.Fits) {word? : Json → Option String}
    (hword : ∀ t, word? (.str t) = some t) :
    Returns (left + 4) (.obj r.members) (tagged "reason" word? ofTag?) r := by
  cases r with
  | notEvaluated => exact returns_tagged (hword _) (by simp) (by simp) (by simp) rfl
  | unready e =>
    exact (Reads.map unready (.required (Explanation.returns h) (by simp))).tagged
      (hword _) (by simp) (by simp [encode]) rfl

theorem returns {r : BlockReason} (h : r.Fits) : Returns (left + 4) (encode r) decode? r :=
  returns_members h fun _ => rfl

end BlockReason

namespace GateDecision

/-- The gate decisions with a block reason that fits. -/
def Fits : GateDecision → Prop
  | allowed => True
  | blocked reason => reason.Fits

theorem returns {d : GateDecision} (h : d.Fits) : Returns (left + 4) (encode d) decode? d := by
  cases d with
  | allowed => exact returns_tagged rfl (by simp) (by simp) (by simp) rfl
  | blocked reason =>
    have hreason : Returns (left + 4) (.obj reason.members) BlockReason.ofMembers? reason :=
      BlockReason.returns_members h fun _ => rfl
    refine returns_tagged rfl ?_ (BlockReason.durable_members h) ?_
      (show (BlockReason.ofMembers? _).map blocked = _ by rw [hreason.back, Option.map_some])
    · cases reason <;> simp [BlockReason.members]
    · cases reason <;> simp [BlockReason.members]

end GateDecision

/-! ### Snapshots and role tables -/

namespace ChangeRequest

/-- The change requests that were created at an instant with a text. -/
structure Fits (c : ChangeRequest) : Prop where
  createdAt : c.createdAt.Civil

theorem reads_record {c : ChangeRequest} (h : c.Fits) {ms : List (String × Json)}
    (hms : ∀ name ∈ ["id", "author", "description", "created_at", "labels"],
      ∀ m ∈ ms, m.1 ≠ name) :
    Reads (left + 1) record (c.members ++ ms) c ms := by
  have hid := hms "id" (by simp)
  have hauthor := hms "author" (by simp)
  have hdescription := hms "description" (by simp)
  have hcreatedAt := hms "created_at" (by simp)
  have hlabels := hms "labels" (by simp)
  exact .bind (.required (returns_str c.id) (by simpa using hid)) <|
    .bind (.required (returns_str c.author) (by simpa using hauthor)) <|
    .bind (.withDefault (returns_str c.description) (by simpa using hdescription) "") <|
    .bind (.required (returns_timestamp h.createdAt) (by simpa using hcreatedAt)) <|
    .bind (.withDefault (returns_names c.labels) hlabels Dict.empty) <| .pure _ _

end ChangeRequest

namespace Comment

/-- The comments at a moment that fits. -/
structure Fits (c : Comment) : Prop where
  moment : c.moment.Fits

theorem returns {c : Comment} (h : c.Fits) : Returns (left + 1) (encode c) decode? c := by
  refine Reads.returns ?_ (by simp)
  exact .bind (.required (returns_str c.id) (by simp)) <|
    .bind (.required (returns_str c.author) (by simp)) <|
    .bind (.required (returns_str c.body) (by simp)) <|
    .bind (.required (returns_timestamp h.moment.timestamp) (by simp)) <|
    .bind (.required (returns_nat (by decide) h.moment.sequence) (by simp)) <| .pure _ _

end Comment

namespace Snapshot

/-- The snapshots of which every part fits. -/
structure Fits (s : Snapshot) : Prop where
  change : s.change.Fits
  comments : ∀ c ∈ s.comments, c.Fits
  reviews : ∀ r ∈ s.reviews, r.Fits

theorem returns {s : Snapshot} (h : s.Fits) : Returns (left + 3) (encode s) decode? s := by
  refine Reads.returnsFlat ?_ (by simp [ChangeRequest.members])
  have hcomments : Returns (left + 2) (.arr (s.comments.map encode)) (list? decode?) s.comments :=
    returns_list fun c hc => Comment.returns (h.comments c hc)
  have hreviews : Returns (left + 2) (.arr (s.reviews.map encode)) (list? decode?) s.reviews :=
    returns_list fun r hr => Review.returns (h.reviews r hr)
  exact .bind (ChangeRequest.reads_record h.change (by simp)) <|
    .bind (.withDefault hcomments (by simp) []) <|
    .bind (.withDefault hreviews (by simp) []) <| .pure _ _

end Snapshot

/-! ### Settings -/

namespace Retry

/-- The retries whose numbers have 32 and 64 bits. -/
structure Fits (p : Retry) : Prop where
  maxAttempts : p.maxAttempts < 2 ^ 32
  initialBackoff : p.initialBackoff < 2 ^ 64
  maxBackoff : p.maxBackoff < 2 ^ 64

theorem returns {p : Retry} (h : p.Fits) : Returns (left + 1) (encode p) decode? p := by
  refine Reads.returns ?_ (by simp)
  exact .bind (.withDefault (returns_nat (by decide) h.maxAttempts) (by simp) _) <|
    .bind (.withDefault (returns_nat (by decide) h.initialBackoff) (by simp) _) <|
    .bind (.withDefault (returns_nat (by decide) h.maxBackoff) (by simp) _) <| .pure _ _

end Retry

namespace Settings

/-- The settings whose numbers fit. -/
structure Fits (s : Settings) : Prop where
  pollIntervalSecs : s.pollIntervalSecs < 2 ^ 64
  retry : s.retry.Fits

theorem returns {s : Settings} (h : s.Fits) : Returns (left + 2) (encode s) decode? s := by
  refine Reads.returns ?_ (by simp)
  exact .bind (.withDefault (returns_str s.botAccount) (by simp) _) <|
    .bind (.withDefault (returns_str s.readyLabel) (by simp) _) <|
    .bind (.withDefault (returns_nat (by decide) h.pollIntervalSecs) (by simp) _) <|
    .bind (.withDefault (Retry.returns h.retry) (by simp) _) <| .pure _ _

end Settings

/-! ### What is saved -/

namespace Wire

/-- The values that come back from their form in JSON, which comes back from its text. -/
structure ComesBack {α : Type} [Wire α] (a : α) : Prop where
  form : decode? (encode a) = some a
  text : Json.ofText? (encode a).pretty = some (encode a)

theorem comesBack_of_plain {α : Type} [Wire α] {a : α} (h : Json.Plain 127 (encode a))
    (hback : decode? (encode a) = some a) : ComesBack a :=
  ⟨hback, by simpa using Json.ofText?_pretty h (.inl rfl)⟩

theorem Returns.comesBack {α : Type} [Wire α] {a : α} (h : Returns 127 (encode a) decode? a) :
    ComesBack a :=
  comesBack_of_plain h.durable.plain h.back

end Wire

/-- A table may hold nothing, so that its only member is an empty object. It comes back all the
same, since no tagged value holds a table. -/
theorem RoleTable.comesBack (t : RoleTable) : ComesBack t := by
  have hroles : Returns 126 (ofDict encode t.roles) (dict? decode?) t.roles :=
    returns_dict nofun fun _ r _ => r.returns
  have hread : Reads 126 (Record.required "roles" (dict? decode?) >>= fun roles => pure ⟨roles⟩)
      [("roles", ofDict encode t.roles)] t [] :=
    .bind (.required hroles (by simp)) <| .pure _ _
  exact comesBack_of_plain (.obj fun m hm => (hread.durable (by simp) m hm).plain) hread.run?_obj

/-- A snapshot is loaded from the text that it is saved as. -/
theorem Document.readSnapshot_ofSnapshot (path : String) {s : Snapshot} (h : s.Fits) :
    readSnapshot path (.text (ofSnapshot s)) = .ok s := by
  have hreturns : Returns 127 (encode s) decode? s := Snapshot.returns h
  rw [readSnapshot, snapshot, ofSnapshot, Json.ofText?_pretty hreturns.durable.plain (.inr rfl),
    Option.bind_eq_bind, Option.bind_some, hreturns.back]

/-- **Saved data comes back.** The values of every type that is saved or sent are read from their
form in JSON, and that from its text; a snapshot is loaded from its file as it was saved. -/
theorem saved_data_comes_back :
    (∀ s : Snapshot, s.Fits → ComesBack s) ∧
    (∀ c : Comment, c.Fits → ComesBack c) ∧
    (∀ r : Review, r.Fits → ComesBack r) ∧
    (∀ p : Policy, p.Fits → ComesBack p) ∧
    (∀ q : Request, q.Fits → ComesBack q) ∧
    (∀ o : Outcome, o.Fits → ComesBack o) ∧
    (∀ s : Source, ComesBack s) ∧
    (∀ c : Command, c.Fits → ComesBack c) ∧
    (∀ d : Decision, ComesBack d) ∧
    (∀ r : Ruling, r.Fits → ComesBack r) ∧
    (∀ t : Tally, t.Fits → ComesBack t) ∧
    (∀ s : RoleShortfall, s.Fits → ComesBack s) ∧
    (∀ e : Explanation, e.Fits → ComesBack e) ∧
    (∀ r : Readiness, r.Fits → ComesBack r) ∧
    (∀ r : BlockReason, r.Fits → ComesBack r) ∧
    (∀ d : GateDecision, d.Fits → ComesBack d) ∧
    (∀ t : RoleTable, ComesBack t) ∧
    (∀ p : Retry, p.Fits → ComesBack p) ∧
    (∀ s : Settings, s.Fits → ComesBack s) ∧
    ∀ (path : String) (s : Snapshot), s.Fits →
      Document.readSnapshot path (.text (Document.ofSnapshot s)) = .ok s := by
  refine ⟨fun s h => ?_, fun c h => ?_, fun r h => ?_, fun p h => ?_, fun q h => ?_, fun o h => ?_,
    fun s => ?_, fun c h => ?_, fun d => ?_, fun r h => ?_, fun t h => ?_, fun s h => ?_,
    fun e h => ?_, fun r h => ?_, fun r h => ?_, fun d h => ?_, RoleTable.comesBack, fun p h => ?_,
    fun s h => ?_, fun path s h => Document.readSnapshot_ofSnapshot path h⟩
  · exact (Snapshot.returns h).comesBack
  · exact (Comment.returns h).comesBack
  · exact (Review.returns h).comesBack
  · exact (Policy.returns h).comesBack
  · exact (Request.returns h).comesBack
  · exact (Outcome.returns h).comesBack
  · exact s.returns.comesBack
  · exact (Command.returns h).comesBack
  · exact d.returns.comesBack
  · exact (Ruling.returns h).comesBack
  · exact (Tally.returns h).comesBack
  · exact (RoleShortfall.returns h).comesBack
  · exact (Explanation.returns h).comesBack
  · exact (Readiness.returns h).comesBack
  · exact (BlockReason.returns h).comesBack
  · exact (GateDecision.returns h).comesBack
  · exact (Retry.returns h).comesBack
  · exact (Settings.returns h).comesBack

/-- A change request with a comment and a review. -/
def reviewedSnapshot : Snapshot where
  change := ⟨"cr-1", "alice", "/reviewers 2 lead", ⟨0⟩, .ofNames ["ready"]⟩
  comments := [⟨"1", "bob", "/reviewers 1\n\tplease", ⟨⟨1⟩, 1⟩⟩]
  reviews := [⟨"bob", .approved, ⟨⟨2⟩, 18446744073709551615⟩⟩]

/-- A gate that stays closed for want of a lead. -/
def leaderlessGate : GateDecision :=
  .blocked (.unready ⟨⟨2, { lead := some 1 }⟩, "", ⟨2, 1⟩, [⟨.lead, ⟨1, 0⟩⟩]⟩)

theorem saved_data_comes_back_reviewed :
    reviewedSnapshot.Fits ∧ leaderlessGate.Fits ∧ ComesBack leaderlessGate ∧
      Document.readSnapshot "cr-1.json" (.text (Document.ofSnapshot reviewedSnapshot)) =
        .ok reviewedSnapshot := by
  obtain ⟨-, -, -, -, -, -, -, -, -, -, -, -, -, -, -, hgate, -, -, -, hfile⟩ :=
    saved_data_comes_back
  have hcomment : ∀ c ∈ reviewedSnapshot.comments, c.Fits := by
    intro c hc
    obtain rfl := List.mem_singleton.mp hc
    exact ⟨⟨by decide +kernel, by decide⟩⟩
  have hreview : ∀ r ∈ reviewedSnapshot.reviews, r.Fits := by
    intro r hr
    obtain rfl := List.mem_singleton.mp hr
    exact ⟨⟨by decide +kernel, by decide⟩⟩
  have hsnapshot : reviewedSnapshot.Fits := ⟨⟨by decide +kernel⟩, hcomment, hreview⟩
  have hpolicy : (⟨2, { lead := some 1 }⟩ : Policy).Fits := by
    refine ⟨by decide, fun r n hn => ?_⟩
    cases r <;> cases hn
    decide
  have hshortfall : ∀ s ∈ [(⟨.lead, ⟨1, 0⟩⟩ : RoleShortfall)], s.Fits := by
    intro s hs
    obtain rfl := List.mem_singleton.mp hs
    exact ⟨⟨by decide, by decide⟩⟩
  have hleaderless : leaderlessGate.Fits := ⟨hpolicy, ⟨by decide, by decide⟩, hshortfall⟩
  exact ⟨hsnapshot, hleaderless, hgate _ hleaderless, hfile _ _ hsnapshot⟩

end ReviewQuorum
