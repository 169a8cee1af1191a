import ReviewQuorum.Proofs.JsonText
import ReviewQuorum.Proofs.TimestampText
import ReviewQuorum.Wire

/-! # Records come back from their form

A JSON value is `Durable` if it comes back from its text and stays as it is when it is set aside. A
value of a type `Returns` if its form in JSON is durable and is read as the value itself.

`Record.Reads` says what a reader makes of the first members of an object and which members it
leaves. Readings are put together as the readers are (`Record.Reads.bind`), so that the proof for a
record goes through its members once, in their order. -/

namespace ReviewQuorum

open Json (Plain)

namespace Json

theorem valuesOf_eq_nil {name : String} {ms : List (String × Json)} (h : ∀ m ∈ ms, m.1 ≠ name) :
    valuesOf name ms = [] := by
  rw [valuesOf, List.filter_eq_nil_iff.mpr (fun m hm => by simpa using h m hm), List.map_nil]

theorem valuesOf_cons {name : String} {ms : List (String × Json)} (h : ∀ m ∈ ms, m.1 ≠ name)
    (v : Json) : valuesOf name ((name, v) :: ms) = [v] := by
  have hms := valuesOf_eq_nil h
  rw [valuesOf] at hms ⊢
  rw [List.filter_cons_of_pos (by simp), List.map_cons, hms]

theorem without_cons {name : String} {ms : List (String × Json)} (h : ∀ m ∈ ms, m.1 ≠ name)
    (v : Json) : without name ((name, v) :: ms) = ms := by
  rw [without, List.filter_cons_of_neg (by simp), List.filter_eq_self.mpr]
  exact fun m hm => by simpa using h m hm

theorem areReadable_of_forall {vs : List Json} (h : ∀ v ∈ vs, v.isReadable = true) :
    areReadable vs = true := by
  induction vs with
  | nil => rfl
  | cons v vs ih =>
    rw [areReadable, h v List.mem_cons_self, ih fun w hw => h w (List.mem_cons_of_mem _ hw)]
    rfl

theorem haveReadable_of_forall {ms : List (String × Json)} (h : ∀ m ∈ ms, m.2.isReadable = true) :
    haveReadable ms = true := by
  induction ms with
  | nil => rfl
  | cons m ms ih =>
    obtain ⟨name, v⟩ := m
    rw [haveReadable, h _ List.mem_cons_self, ih fun w hw => h w (List.mem_cons_of_mem _ hw)]
    rfl

theorem Plain.isReadable {left : Nat} {v : Json} (h : Plain left v) : v.isReadable = true := by
  induction h with
  | null => rfl
  | bool => rfl
  | int => rfl
  | str => rfl
  | arr _ ih => exact areReadable_of_forall ih
  | obj _ ih => exact haveReadable_of_forall ih

end Json

namespace Wire

/-! ### Values that are kept -/

/-- The values that come back from their text and stay as they are when they are set aside. -/
structure Durable (left : Nat) (v : Json) : Prop where
  plain : Plain left v
  kept : withNulls v = v

variable {left : Nat}

theorem durable_null : Durable left .null := ⟨.null left, rfl⟩

theorem durable_str (s : String) : Durable left (.str s) := ⟨.str left s, rfl⟩

theorem durable_bool (b : Bool) : Durable left (.bool b) := ⟨.bool left b, rfl⟩

theorem durable_int {n : Int} (h : n.natAbs < UInt64.size) : Durable left (.int n) :=
  ⟨.int left h, rfl⟩

theorem durable_arr {vs : List Json} (h : ∀ v ∈ vs, Durable left v) :
    Durable (left + 1) (.arr vs) := by
  have hkept : itemsWithNulls vs = vs := by
    induction vs with
    | nil => rfl
    | cons v vs ih =>
      rw [itemsWithNulls, (h v List.mem_cons_self).kept,
        ih fun w hw => h w (List.mem_cons_of_mem _ hw)]
  exact ⟨.arr fun v hv => (h v hv).plain, by rw [withNulls, hkept]⟩

theorem durable_obj {ms : List (String × Json)} (h : ∀ m ∈ ms, Durable left m.2)
    (hfilled : ∀ s, ms ≠ [(s, .obj [])]) : Durable (left + 1) (.obj ms) := by
  have hkept : membersWithNulls ms = ms := by
    clear hfilled
    induction ms with
    | nil => rfl
    | cons m ms ih =>
      obtain ⟨name, v⟩ := m
      rw [membersWithNulls, (h _ List.mem_cons_self).kept,
        ih fun w hw => h w (List.mem_cons_of_mem _ hw)]
  refine ⟨.obj fun m hm => (h m hm).plain, ?_⟩
  rw [withNulls, hkept]
  exact fun s heq => hfilled s heq

/-- A JSON value is durable and is read as a value of a type. -/
structure Returns {α : Type} (left : Nat) (v : Json) (decode? : Json → Option α) (a : α) :
    Prop where
  durable : Durable left v
  back : decode? v = some a

theorem returns_str (s : String) : Returns left (.str s) string? s := ⟨durable_str s, rfl⟩

theorem returns_bool (b : Bool) : Returns left (.bool b) bool? b := ⟨durable_bool b, rfl⟩

theorem returns_nat {bits n : Nat} (hbits : bits ≤ 64) (h : n < 2 ^ bits) :
    Returns left (ofNat n) (nat? bits) n := by
  have hsize : n < UInt64.size := Nat.lt_of_lt_of_le h (Nat.pow_le_pow_right (by decide) hbits)
  have hrange : (0 : Int) ≤ n ∧ (n : Int) < (Nat.pow 2 bits : Nat) :=
    ⟨Int.natCast_nonneg n, Int.ofNat_lt.mpr h⟩
  exact ⟨durable_int hsize, if_pos hrange⟩

theorem returns_int {n : Int} (h : -2 ^ 63 ≤ n ∧ n < 2 ^ 63) : Returns left (.int n) int64? n := by
  have hsize : n.natAbs < UInt64.size := by
    simp only [UInt64.size]
    omega
  have hrange : -9223372036854775808 ≤ n ∧ n < 9223372036854775808 := by omega
  exact ⟨durable_int hsize, if_pos hrange⟩

theorem returns_word {α : Type} {name : String} {ofName? : String → Option α} {a : α}
    (h : ofName? name = some a) : Returns left (.str name) (fun v => word? v >>= ofName?) a :=
  ⟨durable_str _, h⟩

theorem returns_timestamp {t : Timestamp} (h : t.Civil) : Returns left (encode t) decode? t := by
  refine ⟨durable_str t.toText, ?_⟩
  change string? (.str t.toText) >>= Timestamp.ofText? = some t
  rw [string?, Option.bind_eq_bind, Option.bind_some, Timestamp.ofText?_toText h]

section Collections

variable {α : Type} {encode : α → Json} {decode? : Json → Option α}

theorem returns_option (hnull : ∀ a, encode a ≠ .null) {o : Option α}
    (h : ∀ a ∈ o, Returns left (encode a) decode? a) :
    Returns left (ofOption encode o) (option? decode?) o := by
  cases o with
  | none => exact ⟨durable_null, rfl⟩
  | some a =>
    refine ⟨(h a rfl).durable, ?_⟩
    rw [ofOption, option?, (h a rfl).back, Option.map_some]
    exact hnull a

theorem mapM_map {β : Type} {f : α → β} {g : β → Option α} {as : List α}
    (h : ∀ a ∈ as, g (f a) = some a) : (as.map f).mapM g = some as := by
  induction as with
  | nil => rfl
  | cons a as ih =>
    rw [List.map_cons, List.mapM_cons, h a List.mem_cons_self,
      ih fun b hb => h b (List.mem_cons_of_mem _ hb)]
    rfl

theorem returns_list {as : List α} (h : ∀ a ∈ as, Returns left (encode a) decode? a) :
    Returns (left + 1) (.arr (as.map encode)) (list? decode?) as := by
  refine ⟨durable_arr fun v hv => ?_, mapM_map fun a ha => (h a ha).back⟩
  obtain ⟨a, ha, rfl⟩ := List.mem_map.mp hv
  exact (h a ha).durable

theorem returns_members {κ : Type} {f : κ → String} {key? : String → Option κ}
    (hkey : ∀ k, key? (f k) = some k) (hfilled : ∀ a, encode a ≠ .obj []) {es : List (κ × α)}
    (h : ∀ e ∈ es, Returns left (encode e.2) decode? e.2) :
    Returns (left + 1) (.obj (es.map fun e => (f e.1, encode e.2))) (members? key? decode?)
      es := by
  refine ⟨durable_obj (fun m hm => ?_) (fun s heq => ?_), mapM_map fun e he => ?_⟩
  · obtain ⟨e, he, rfl⟩ := List.mem_map.mp hm
    exact (h e he).durable
  · obtain ⟨e, es, rfl, he, -⟩ := List.map_eq_cons_iff.mp heq
    exact hfilled _ (Prod.mk.inj he).2
  · simp [hkey, (h e he).back]

theorem Returns.map {β : Type} {v : Json} {a : α} {b : β} {f : α → β}
    (h : Returns left v decode? a) (hf : f a = b) : Returns left v (fun v => (decode? v).map f) b :=
  ⟨h.durable, by rw [h.back, Option.map_some, hf]⟩

theorem returns_dict (hfilled : ∀ a, encode a ≠ .obj []) {d : Dict α}
    (h : ∀ k a, d.get? k = some a → Returns left (encode a) decode? a) :
    Returns (left + 1) (ofDict encode d) (dict? decode?) d :=
  .map (returns_members (f := id) (fun _ => rfl) hfilled
    fun e he => h e.1 e.2 (Dict.get?_eq_some_iff.mpr he)) d.ofList_entries

theorem returns_roleMap (hfilled : ∀ a, encode a ≠ .obj []) {m : RoleMap α}
    (h : ∀ r a, m.get? r = some a → Returns left (encode a) decode? a) :
    Returns (left + 1) (ofRoleMap encode m) (roleMap? decode?) m :=
  .map (returns_members Role.ofName?_name hfilled
    fun e he => h e.1 e.2 (RoleMap.mem_toList.mp he)) m.ofList_toList

theorem returns_names (s : NameSet) : Returns (left + 1) (ofNames s) names? s :=
  .map (returns_list fun _ _ => returns_str _) s.ofNames_toNames

end Collections

/-! ### Members of records -/

namespace Record

theorem run_next {name : String} {ms : List (String × Json)} (h : ∀ m ∈ ms, m.1 ≠ name)
    (v : Json) : StateT.run (next name) (.named ((name, v) :: ms)) = some (some v, .named ms) := by
  change next name _ = _
  rw [next, Json.valuesOf_cons h, Json.without_cons h]

theorem run_next_absent {name : String} {ms : List (String × Json)} (h : ∀ m ∈ ms, m.1 ≠ name) :
    StateT.run (next name) (.named ms) = some (none, .named ms) := by
  change next name _ = _
  rw [next, Json.valuesOf_eq_nil h]

/-- A reader makes a value of the first members of an object, which are durable if the rest is, and
leaves the rest. -/
structure Reads {α : Type} (left : Nat) (r : Record α) (ms : List (String × Json)) (a : α)
    (rest : List (String × Json)) : Prop where
  durable : (∀ m ∈ rest, Durable left m.2) → ∀ m ∈ ms, Durable left m.2
  run : StateT.run r (.named ms) = some (a, .named rest)

namespace Reads

variable {α β : Type} {v : Json} {decode? : Json → Option α} {a : α} {b : β} {name : String}
  {ms rest last : List (String × Json)}

theorem pure (a : α) (ms : List (String × Json)) : Reads left (Pure.pure a) ms a ms :=
  ⟨id, rfl⟩

theorem bind {r : Record α} {f : α → Record β} (hr : Reads left r ms a rest)
    (hf : Reads left (f a) rest b last) : Reads left (r >>= f) ms b last := by
  refine ⟨fun h => hr.durable (hf.durable h), ?_⟩
  rw [StateT.run_bind, hr.run]
  exact hf.run

theorem map {r : Record α} (f : α → β) (hr : Reads left r ms a rest) :
    Reads left (f <$> r) ms (f a) rest := by
  refine ⟨hr.durable, ?_⟩
  rw [StateT.run_map, hr.run]
  rfl

theorem head (h : Returns left v decode? a) :
    (∀ m ∈ ms, Durable left m.2) → ∀ m ∈ (name, v) :: ms, Durable left m.2 :=
  fun hms => List.forall_mem_cons.mpr ⟨h.durable, hms⟩

theorem required (h : Returns left v decode? a) (hname : ∀ m ∈ ms, m.1 ≠ name) :
    Reads left (required name decode?) ((name, v) :: ms) a ms := by
  refine ⟨head h, ?_⟩
  rw [Record.required, StateT.run_bind, run_next hname]
  simp [h.back]

theorem withDefault (h : Returns left v decode? a) (hname : ∀ m ∈ ms, m.1 ≠ name)
    (default : α) : Reads left (withDefault name default decode?) ((name, v) :: ms) a ms := by
  refine ⟨head h, ?_⟩
  rw [Record.withDefault, StateT.run_bind, run_next hname]
  simp [h.back]

theorem absent (hname : ∀ m ∈ ms, m.1 ≠ name) (default : α) :
    Reads left (Record.withDefault name default decode?) ms default ms := by
  refine ⟨id, ?_⟩
  rw [Record.withDefault, StateT.run_bind, run_next_absent hname]
  rfl

theorem nullable {o : Option α} (h : Returns left v (option? decode?) o)
    (hname : ∀ m ∈ ms, m.1 ≠ name) :
    Reads left (Record.nullable name decode?) ((name, v) :: ms) o ms := by
  refine ⟨head h, ?_⟩
  rw [Record.nullable, StateT.run_bind, run_next hname]
  simp [h.back]

theorem run?_obj {r : Record α} (h : Reads left r ms a []) : run? r (.obj ms) = some a := by
  rw [run?]
  simp [Members.ofJson?, h.run, Members.isRead]

/-- **A record returns** if all its members are read. -/
theorem returns {r : Record α} (h : Reads left r ms a []) (hfilled : ∀ s, ms ≠ [(s, .obj [])]) :
    Returns (left + 1) (.obj ms) (run? r) a :=
  ⟨durable_obj (h.durable (by simp)) hfilled, h.run?_obj⟩

theorem returnsFlat {r : Record α} (h : Reads left r ms a []) (hfilled : ∀ s, ms ≠ [(s, .obj [])]) :
    Returns (left + 1) (.obj ms) (runFlat? r) a := by
  refine ⟨durable_obj (h.durable (by simp)) hfilled, ?_⟩
  rw [runFlat?]
  simp [h.run, Members.isReadable, Json.haveReadable]

end Reads

end Record

/-! ### Tagged values -/

/-- Reads a tagged value, whose tag is a word of some kind. -/
def tagged {α : Type} (tag : String) (word? : Json → Option String)
    (ofTag? : Json → String → Option α) (v : Json) : Option α := do
  let (t, rest) ← tagged? tag v
  let t ← word? t
  ofTag? rest t

/-- **A tagged value returns** if the rest of it, which is set aside, is read. -/
theorem returns_tagged {α : Type} {tag t : String} {word? : Json → Option String}
    {ofTag? : Json → String → Option α} {ms : List (String × Json)} {a : α}
    (hword : word? (.str t) = some t) (hname : ∀ m ∈ ms, m.1 ≠ tag)
    (hms : ∀ m ∈ ms, Durable left m.2) (hfilled : ∀ s, ms ≠ [(s, .obj [])])
    (hrest : ofTag? (.obj ms) t = some a) :
    Returns (left + 1) (.obj ((tag, .str t) :: ms)) (tagged tag word? ofTag?) a := by
  have hobj := durable_obj hms hfilled
  have hreadable : (Json.obj ms).isReadable = true := hobj.plain.isReadable
  have hsplit : split? tag (.obj ((tag, .str t) :: ms)) = some (.str t, .obj ms) := by
    rw [split?, Json.valuesOf_cons hname, Json.without_cons hname]
  constructor
  · refine durable_obj (List.forall_mem_cons.mpr ⟨durable_str t, hms⟩) fun s heq => ?_
    cases (Prod.mk.inj (List.cons.inj heq).1).2
  · rw [tagged, tagged?, hsplit]
    simp [hreadable, hobj.kept, hword, hrest]

theorem Record.Reads.tagged {α : Type} {tag t : String} {word? : Json → Option String}
    {ofTag? : Json → String → Option α} {r : Record α} {ms : List (String × Json)} {a : α}
    (h : Reads left r ms a []) (hword : word? (.str t) = some t) (hname : ∀ m ∈ ms, m.1 ≠ tag)
    (hfilled : ∀ s, ms ≠ [(s, .obj [])]) (htag : ofTag? (.obj ms) t = run? r (.obj ms)) :
    Returns (left + 1) (.obj ((tag, .str t) :: ms)) (Wire.tagged tag word? ofTag?) a :=
  returns_tagged hword hname (h.durable (by simp)) hfilled (htag.trans h.run?_obj)

end Wire

end ReviewQuorum
