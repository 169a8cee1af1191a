import ReviewQuorum.Role

/-! # Finite maps from roles

A `RoleMap` has one place for each of the five roles, empty or filled. Two maps with the same
look-ups are equal (`RoleMap.ext_get?`), and `toList` gives the entries from the lowest role up. -/

namespace ReviewQuorum

universe u v

/-- A finite map from roles. -/
structure RoleMap (α : Type u) where
  contributors : Option α := none
  authors : Option α := none
  committers : Option α := none
  reviewers : Option α := none
  lead : Option α := none
deriving DecidableEq, Inhabited

namespace RoleMap

variable {α : Type u} {β : Type v}

/-- The map without entries. -/
def empty : RoleMap α := {}

/-- The value that is stored for a role. -/
def get? (m : RoleMap α) : Role → Option α
  | .contributors => m.contributors
  | .authors => m.authors
  | .committers => m.committers
  | .reviewers => m.reviewers
  | .lead => m.lead

/-- Fills or empties the place of a role. -/
def set (m : RoleMap α) (r : Role) (v : Option α) : RoleMap α :=
  match r with
  | .contributors => { m with contributors := v }
  | .authors => { m with authors := v }
  | .committers => { m with committers := v }
  | .reviewers => { m with reviewers := v }
  | .lead => { m with lead := v }

/-- Stores a value for a role. -/
def insert (m : RoleMap α) (r : Role) (v : α) : RoleMap α := m.set r (some v)

/-- Changes the values and keeps the roles. -/
def map (f : α → β) (m : RoleMap α) : RoleMap β where
  contributors := m.contributors.map f
  authors := m.authors.map f
  committers := m.committers.map f
  reviewers := m.reviewers.map f
  lead := m.lead.map f

/-- Keeps the entries whose value passes a test. -/
def filter (p : α → Bool) (m : RoleMap α) : RoleMap α where
  contributors := m.contributors.filter p
  authors := m.authors.filter p
  committers := m.committers.filter p
  reviewers := m.reviewers.filter p
  lead := m.lead.filter p

/-- The entries, lowest role first. -/
def toList (m : RoleMap α) : List (Role × α) :=
  Role.all.reverse.filterMap fun r => (m.get? r).map fun v => (r, v)

/-- The map that holds the entries of a list, the last one of each role. -/
def ofList (es : List (Role × α)) : RoleMap α := es.foldl (fun m e => m.insert e.1 e.2) empty

/-- The roles that have an entry, lowest first. -/
def keys (m : RoleMap α) : List Role := m.toList.map (·.1)

/-- Whether there is no entry. -/
def isEmpty (m : RoleMap α) : Bool := m.toList.isEmpty

theorem ext_get? {m n : RoleMap α} (h : ∀ r, m.get? r = n.get? r) : m = n := by
  cases m
  cases n
  have h1 := h .contributors
  have h2 := h .authors
  have h3 := h .committers
  have h4 := h .reviewers
  have h5 := h .lead
  simp only [get?] at h1 h2 h3 h4 h5
  subst h1 h2 h3 h4 h5
  rfl

@[simp] theorem get?_empty (r : Role) : (empty : RoleMap α).get? r = none := by cases r <;> rfl

theorem get?_set (m : RoleMap α) (r : Role) (v : Option α) (s : Role) :
    (m.set r v).get? s = if r = s then v else m.get? s := by
  cases r <;> cases s <;> rfl

theorem get?_insert (m : RoleMap α) (r : Role) (v : α) (s : Role) :
    (m.insert r v).get? s = if r = s then some v else m.get? s := get?_set m r (some v) s

@[simp] theorem get?_map (f : α → β) (m : RoleMap α) (r : Role) :
    (m.map f).get? r = (m.get? r).map f := by cases r <;> rfl

@[simp] theorem get?_filter (p : α → Bool) (m : RoleMap α) (r : Role) :
    (m.filter p).get? r = (m.get? r).filter p := by cases r <;> rfl

theorem mem_toList {m : RoleMap α} {r : Role} {v : α} :
    (r, v) ∈ m.toList ↔ m.get? r = some v := by
  simp only [toList, List.mem_filterMap, List.mem_reverse, Option.map_eq_some_iff, Prod.mk.injEq]
  constructor
  · rintro ⟨s, -, w, hw, rfl, rfl⟩
    exact hw
  · intro h
    exact ⟨r, Role.mem_all r, v, h, rfl, rfl⟩

theorem isEmpty_iff {m : RoleMap α} : m.isEmpty = true ↔ ∀ r, m.get? r = none := by
  simp [isEmpty, toList, List.filterMap_eq_nil_iff, Role.mem_all]

/-- **A map is what its entries make.** -/
theorem ofList_toList (m : RoleMap α) : ofList m.toList = m := by
  obtain ⟨contributors, authors, committers, reviewers, lead⟩ := m
  cases contributors <;> cases authors <;> cases committers <;> cases reviewers <;> cases lead <;>
    rfl

end RoleMap

end ReviewQuorum
