/-! # Finite maps from names

A `Dict` is a finite map whose keys are strings, kept as the list of its entries in increasing order
of key. Strings are ordered by their characters' code points. Two maps with the same look-ups are
equal (`Dict.ext_get?`), so equality of values of this type is equality of what they hold. -/

namespace ReviewQuorum

universe u v

/-- A finite map from strings, as its entries in order of key. -/
structure Dict (α : Type u) where
  entries : List (String × α)
  sorted : entries.Pairwise fun a b => a.1 < b.1
deriving DecidableEq

namespace Dict

variable {α : Type u} {β : Type v}

/-- The map without entries. -/
def empty : Dict α := ⟨[], .nil⟩

instance : Inhabited (Dict α) := ⟨empty⟩

instance : EmptyCollection (Dict α) := ⟨empty⟩

/-- The value that is stored under a key. -/
def get? (d : Dict α) (k : String) : Option α := (d.entries.find? fun e => e.1 == k).map (·.2)

/-- Whether a key has an entry. -/
def contains (d : Dict α) (k : String) : Bool := d.entries.any fun e => e.1 == k

/-- The keys in increasing order. -/
def keys (d : Dict α) : List String := d.entries.map (·.1)

/-- The values in order of their keys. -/
def values (d : Dict α) : List α := d.entries.map (·.2)

/-- The number of entries. -/
def size (d : Dict α) : Nat := d.entries.length

/-- Whether there is no entry. -/
def isEmpty (d : Dict α) : Bool := d.entries.isEmpty

/-- Puts an entry at its place, instead of the entry of the same key. -/
def insertEntry (k : String) (v : α) : List (String × α) → List (String × α)
  | [] => [(k, v)]
  | e :: es =>
    if k < e.1 then (k, v) :: e :: es
    else if k = e.1 then (k, v) :: es
    else e :: insertEntry k v es

theorem mem_insertEntry {k : String} {v : α} {x : String × α} :
    ∀ {es : List (String × α)}, x ∈ insertEntry k v es → x = (k, v) ∨ x ∈ es
  | [], h => by simpa [insertEntry] using h
  | e :: es, h => by
    unfold insertEntry at h
    split at h
    · simpa using h
    · split at h
      · rcases List.mem_cons.1 h with h | h
        · exact Or.inl h
        · exact Or.inr (List.mem_cons_of_mem _ h)
      · rcases List.mem_cons.1 h with h | h
        · exact Or.inr (h ▸ List.mem_cons_self)
        · exact (mem_insertEntry h).imp_right (List.mem_cons_of_mem _)

theorem sorted_insertEntry {k : String} {v : α} :
    ∀ {es : List (String × α)}, (es.Pairwise fun a b => a.1 < b.1) →
      (insertEntry k v es).Pairwise fun a b => a.1 < b.1
  | [], _ => by simp [insertEntry]
  | e :: es, h => by
    obtain ⟨he, hes⟩ := List.pairwise_cons.1 h
    unfold insertEntry
    split
    · rename_i hk
      refine List.pairwise_cons.2 ⟨fun x hx => ?_, h⟩
      rcases List.mem_cons.1 hx with rfl | hx
      · exact hk
      · exact String.lt_trans hk (he x hx)
    · split
      · rename_i hk
        exact List.pairwise_cons.2 ⟨fun x hx => hk ▸ he x hx, hes⟩
      · rename_i h1 h2
        refine List.pairwise_cons.2 ⟨fun x hx => ?_, sorted_insertEntry hes⟩
        rcases mem_insertEntry hx with rfl | hx
        · rcases String.le_total e.1 k with hle | hle
          · exact Classical.byContradiction fun hlt =>
              h2 (String.le_antisymm (String.not_lt.1 hlt) hle)
          · exact absurd (String.le_antisymm hle (String.not_lt.1 h1)) h2
        · exact he x hx

/-- Stores a value under a key, instead of the value that was there. -/
def insert (d : Dict α) (k : String) (v : α) : Dict α :=
  ⟨insertEntry k v d.entries, sorted_insertEntry d.sorted⟩

/-- Removes the entry of a key. -/
def erase (d : Dict α) (k : String) : Dict α :=
  ⟨d.entries.filter fun e => e.1 != k, d.sorted.filter _⟩

/-- Changes the values and keeps the keys. -/
def map (f : α → β) (d : Dict α) : Dict β :=
  ⟨d.entries.map fun e => (e.1, f e.2), List.pairwise_map.2 d.sorted⟩

/-- The map that holds the entries of a list, the last one of each key. -/
def ofList (es : List (String × α)) : Dict α := es.foldl (fun d e => d.insert e.1 e.2) empty

@[simp] theorem get?_empty (k : String) : (empty : Dict α).get? k = none := rfl

theorem find?_insertEntry (k : String) (v : α) (k' : String) :
    ∀ (es : List (String × α)), (insertEntry k v es).find? (fun e => e.1 == k') =
      if k = k' then some (k, v) else es.find? (fun e => e.1 == k')
  | [] => by by_cases h : k = k' <;> simp [insertEntry, h]
  | e :: es => by
    unfold insertEntry
    by_cases h : k = k'
    · subst h
      split
      · simp
      · split
        · simp
        · rename_i h2
          simp [Ne.symm h2, find?_insertEntry]
    · split
      · simp [h]
      · split
        · rename_i h2
          simp [h, h2 ▸ h]
        · simp only [List.find?_cons]
          split <;> simp [h, find?_insertEntry]

theorem get?_insert (d : Dict α) (k : String) (v : α) (k' : String) :
    (d.insert k v).get? k' = if k = k' then some v else d.get? k' := by
  unfold get? insert
  rw [find?_insertEntry]
  split <;> rfl

@[simp] theorem get?_insert_self (d : Dict α) (k : String) (v : α) :
    (d.insert k v).get? k = some v := by simp [get?_insert]

theorem get?_erase (d : Dict α) (k k' : String) :
    (d.erase k).get? k' = if k = k' then none else d.get? k' := by
  unfold get? erase
  simp only [List.find?_filter]
  by_cases h : k = k'
  · subst h
    simp only [if_true, Option.map_eq_none_iff, List.find?_eq_none]
    intro x _
    simp
  · simp only [h, if_false]
    congr 2
    funext e
    by_cases he : e.1 = k'
    · simp [he, Ne.symm h]
    · simp [he]

theorem get?_eq_some_iff {d : Dict α} {k : String} {v : α} :
    d.get? k = some v ↔ (k, v) ∈ d.entries := by
  obtain ⟨es, hs⟩ := d
  simp only [get?]
  induction es with
  | nil => simp
  | cons e es ih =>
    obtain ⟨he, hes⟩ := List.pairwise_cons.1 hs
    by_cases h : e.1 = k
    · subst h
      simp only [List.find?_cons, beq_self_eq_true, Option.map_some, Option.some.injEq,
        List.mem_cons]
      constructor
      · rintro rfl
        exact Or.inl rfl
      · rintro (h | h)
        · rw [← h]
        · exact absurd (he _ h) (String.lt_irrefl _)
    · have hne : (e.1 == k) = false := by simpa using h
      simp only [List.find?_cons, hne, ih hes, List.mem_cons]
      constructor
      · exact Or.inr
      · rintro (h' | h')
        · exact absurd (by rw [← h']) h
        · exact h'

theorem eq_of_mem_iff : ∀ {l m : List (String × α)}, (l.Pairwise fun a b => a.1 < b.1) →
    (m.Pairwise fun a b => a.1 < b.1) → (∀ e, e ∈ l ↔ e ∈ m) → l = m
  | [], [], _, _, _ => rfl
  | [], e :: m, _, _, h => by simpa using (h e).2 List.mem_cons_self
  | e :: l, [], _, _, h => by simpa using (h e).1 List.mem_cons_self
  | e :: l, f :: m, hl, hm, h => by
    obtain ⟨he, hl'⟩ := List.pairwise_cons.1 hl
    obtain ⟨hf, hm'⟩ := List.pairwise_cons.1 hm
    have hef : e = f := by
      rcases List.mem_cons.1 ((h e).1 List.mem_cons_self) with h1 | h1
      · exact h1
      · rcases List.mem_cons.1 ((h f).2 List.mem_cons_self) with h2 | h2
        · exact h2.symm
        · exact absurd (String.lt_trans (hf _ h1) (he _ h2)) (String.lt_irrefl _)
    subst hef
    congr 1
    refine eq_of_mem_iff hl' hm' fun x => ⟨fun hx => ?_, fun hx => ?_⟩
    · rcases List.mem_cons.1 ((h x).1 (List.mem_cons_of_mem _ hx)) with rfl | h'
      · exact absurd (he _ hx) (String.lt_irrefl _)
      · exact h'
    · rcases List.mem_cons.1 ((h x).2 (List.mem_cons_of_mem _ hx)) with rfl | h'
      · exact absurd (hf _ hx) (String.lt_irrefl _)
      · exact h'

theorem ext_entries {d e : Dict α} (h : d.entries = e.entries) : d = e := by
  cases d
  cases e
  cases h
  rfl

theorem ext_get? {d e : Dict α} (h : ∀ k, d.get? k = e.get? k) : d = e := by
  have hm : d.entries = e.entries := eq_of_mem_iff d.sorted e.sorted fun ⟨k, v⟩ => by
    rw [← get?_eq_some_iff, ← get?_eq_some_iff, h]
  exact ext_entries hm

/-- What is behind all entries is put at the end. -/
theorem insertEntry_of_lt {k : String} {es : List (String × α)} (h : ∀ e ∈ es, e.1 < k) (v : α) :
    insertEntry k v es = es ++ [(k, v)] := by
  induction es with
  | nil => rfl
  | cons e es ih =>
    have hlt := h e List.mem_cons_self
    have hne : ¬ k = e.1 := fun heq => String.lt_irrefl _ (heq ▸ hlt)
    rw [insertEntry, if_neg fun hgt => String.lt_irrefl _ (String.lt_trans hlt hgt), if_neg hne,
      ih fun x hx => h x (List.mem_cons_of_mem _ hx), List.cons_append]

/-- Entries in order of key are put one behind the other. -/
theorem entries_foldl_insert {es : List (String × α)} {d : Dict α}
    (h : (d.entries ++ es).Pairwise fun a b => a.1 < b.1) :
    (es.foldl (fun d e => d.insert e.1 e.2) d).entries = d.entries ++ es := by
  induction es generalizing d with
  | nil => rw [List.foldl_nil, List.append_nil]
  | cons e es ih =>
    have hinsert : (d.insert e.1 e.2).entries = d.entries ++ [e] :=
      insertEntry_of_lt (fun x hx => (List.pairwise_append.mp h).2.2 x hx e List.mem_cons_self) e.2
    have hassoc : (d.insert e.1 e.2).entries ++ es = d.entries ++ e :: es := by
      rw [hinsert, List.append_assoc, List.singleton_append]
    rw [List.foldl_cons, ih (hassoc ▸ h), hassoc]

/-- **A map is what its entries make.** -/
theorem ofList_entries (d : Dict α) : ofList d.entries = d :=
  ext_entries (entries_foldl_insert (by simpa [empty] using d.sorted))

end Dict

/-- A finite set of strings, which lists its members in increasing order. -/
abbrev NameSet := Dict Unit

namespace NameSet

/-- Adds a member. -/
def add (s : NameSet) (k : String) : NameSet := Dict.insert s k ()

/-- The members of a list, without repetition and in order. -/
def ofNames (ks : List String) : NameSet := ks.foldl add Dict.empty

/-- The members in increasing order. -/
def toNames (s : NameSet) : List String := Dict.keys s

theorem mem_toNames {s : NameSet} {k : String} : k ∈ s.toNames ↔ s.get? k = some () := by
  rw [Dict.get?_eq_some_iff]
  constructor
  · intro h
    obtain ⟨e, he, rfl⟩ := List.mem_map.mp h
    exact he
  · exact fun h => List.mem_map.mpr ⟨(k, ()), h, rfl⟩

theorem mem_ofNames {ks : List String} {k : String} (h : k ∈ ks) :
    k ∈ (ofNames ks).toNames := by
  have hfold : ∀ (ks : List String) (s : NameSet), k ∈ ks ∨ s.get? k = some () →
      (ks.foldl add s).get? k = some () := by
    intro ks
    induction ks with
    | nil => exact fun _ h => h.resolve_left List.not_mem_nil
    | cons l ks ih =>
      intro s h
      refine ih _ ?_
      rw [add, Dict.get?_insert]
      rcases h with h | h
      · rcases List.mem_cons.mp h with rfl | h
        · exact .inr (if_pos rfl)
        · exact .inl h
      · by_cases hlk : l = k
        · exact .inr (if_pos hlk)
        · exact .inr (by rw [if_neg hlk, h])
  exact mem_toNames.mpr (hfold ks _ (.inl h))

/-- **A set is what its members make.** -/
theorem ofNames_toNames (s : NameSet) : ofNames s.toNames = s := by
  have hfold : ofNames s.toNames = Dict.ofList s.entries := by
    rw [ofNames, toNames, Dict.keys, List.foldl_map]
    rfl
  rw [hfold, Dict.ofList_entries]

end NameSet

end ReviewQuorum
