import ReviewQuorum.Policy.Digest
import ReviewQuorum.Proofs.Decimals
import ReviewQuorum.Proofs.Markers
import ReviewQuorum.Proofs.PolicyOrder

/-! # What a digest tells

The text that a digest hashes has neither lengths nor a number of lines in it, and yet it can be
read in one way only. A role's name has no colon, so the first one ends it; a number has no line
feed, so the first one ends its line; and a line is never empty, so the lines of one text are those
of the other (`eq_of_minimumLines`). No property of the policy is needed for that, and policies with
the same text are equal (`digestText_injective`).

From the text on to the digest nothing is lost but in the hash: a text can be read back from its
bytes (`Text.eq_of_bytes`) and the hash from its hexadecimal digits
(`Sha256.eq_of_flatMap_hexByte`). So two policies have the same digest iff the step from one to the
other leaves everything as it is, or their texts are two messages with one hash
(`digest_eq_iff_unchanged`). -/

namespace ReviewQuorum

/-! ### Hashes in hexadecimal -/

namespace Sha256

theorem digitChar_injective {i j : Nat} (hi : i < 16) (hj : j < 16)
    (h : Nat.digitChar i = Nat.digitChar j) : i = j := by
  have hall : ∀ i < 16, ∀ j < 16, Nat.digitChar i = Nat.digitChar j → i = j := by decide
  exact hall i hi j hj h

theorem hexByte_injective {b c : UInt8} (h : hexByte b = hexByte c) : b = c := by
  have hb := b.toNat_lt
  have hc := c.toNat_lt
  simp only [hexByte, List.cons.injEq, and_true] at h
  have hhigh := digitChar_injective (by omega) (by omega) h.1
  have hlow := digitChar_injective (by omega) (by omega) h.2
  exact UInt8.toNat_inj.mp (by omega)

theorem eq_of_flatMap_hexByte {bs cs : List UInt8}
    (h : bs.flatMap hexByte = cs.flatMap hexByte) : bs = cs := by
  induction bs generalizing cs with
  | nil =>
    cases cs with
    | nil => rfl
    | cons c cs => cases h
  | cons b bs ih =>
    cases cs with
    | nil => cases h
    | cons c cs =>
      obtain ⟨hbyte, hrest⟩ := List.append_inj h rfl
      rw [hexByte_injective hbyte, ih hrest]

/-- Two messages with one hash. -/
def Collide (a b : List UInt8) : Prop := a ≠ b ∧ hash a = hash b

instance (a b : List UInt8) : Decidable (Collide a b) :=
  inferInstanceAs (Decidable (a ≠ b ∧ hash a = hash b))

theorem hash_eq_iff {a b : List UInt8} : hash a = hash b ↔ a = b ∨ Collide a b := by
  rw [Collide]
  constructor
  · intro h
    exact (em (a = b)).imp_right fun hne => ⟨hne, h⟩
  · rintro (rfl | h)
    · rfl
    · exact h.2

end Sha256

/-! ### The bytes of a text -/

namespace Text

theorem toList_loop (bs : ByteArray) (i : Nat) (r : List UInt8) :
    ByteArray.toList.loop bs i r = r.reverse ++ bs.data.toList.drop i := by
  fun_induction ByteArray.toList.loop bs i r with
  | case1 i r h ih =>
    have hi : i < bs.data.toList.length := by simpa using h
    rw [ih, List.drop_eq_getElem_cons hi]
    simp [ByteArray.get!, h]
  | case2 i r h =>
    rw [List.drop_eq_nil_of_le (by simpa using Nat.le_of_not_lt h)]
    simp

theorem eq_of_bytes {s t : String} (h : s.toUTF8.toList = t.toUTF8.toList) : s = t := by
  have hdata : s.toUTF8.data.toList = t.toUTF8.data.toList := by
    simpa [ByteArray.toList, toList_loop] using h
  exact String.toByteArray_inj.mp (ByteArray.ext (Array.toList_inj.mp hdata))

end Text

/-! ### The text of a policy -/

namespace Policy

variable {p q : Policy}

/-- The message that the digest of a policy hashes. -/
def digestBytes (p : Policy) : List UInt8 := p.digestText.toUTF8.toList

theorem digest_eq (p : Policy) :
    p.digest = "pol1_" ++ String.ofList ((Sha256.hash p.digestBytes).flatMap Sha256.hexByte) := rfl

theorem digest_eq_iff : p.digest = q.digest ↔
    Sha256.hash p.digestBytes = Sha256.hash q.digestBytes := by
  constructor
  · intro h
    rw [digest_eq, digest_eq, String.append_right_inj, String.ofList_inj] at h
    exact Sha256.eq_of_flatMap_hexByte h
  · intro h
    rw [digest_eq, digest_eq, h]

theorem minimumLine_toList (e : Role × Nat) (rest : List Char) : (minimumLine e).toList ++ rest =
    e.1.name.toList ++ ':' :: ((Decimal.ofNat e.2).toList ++ '\n' :: rest) := by
  simp [minimumLine]

theorem newline_notMem_ofNat (n : Nat) : ∀ c ∈ (Decimal.ofNat n).toList, (c == '\n') = false := by
  intro c hc
  have hdigit := Decimal.isDigit_of_mem_ofNat hc
  refine beq_eq_false_iff_ne.mpr fun h => ?_
  rw [h] at hdigit
  exact absurd hdigit (by decide)

/-- **A line and what follows it** can be told apart, and so can the role and the minimum in it. -/
theorem eq_of_minimumLine {e e' : Role × Nat} {rest rest' : List Char}
    (h : (minimumLine e).toList ++ rest = (minimumLine e').toList ++ rest') :
    e = e' ∧ rest = rest' := by
  have hcolon (r : Role) : ∀ c ∈ r.name.toList, (c == ':') = false := by
    cases r <;> simp [Role.name]
  rw [minimumLine_toList, minimumLine_toList] at h
  obtain ⟨hname, -, hbehind⟩ := Text.eq_of_first (hcolon e.1) (hcolon e'.1) rfl rfl h
  obtain ⟨hdigits, -, hrest⟩ := Text.eq_of_first (newline_notMem_ofNat e.2)
    (newline_notMem_ofNat e'.2) rfl rfl hbehind
  have hrole : some e.1 = some e'.1 := by
    rw [← Role.ofName?_name, ← Role.ofName?_name, String.toList_inj.mp hname]
  exact ⟨Prod.ext (Option.some.inj hrole) (Decimal.ofNat_injective (String.toList_inj.mp hdigits)),
    hrest⟩

/-- **Lines one after another** can be told apart, however many they are. -/
theorem eq_of_minimumLines {es es' : List (Role × Nat)}
    (h : (String.join (es.map minimumLine)).toList = (String.join (es'.map minimumLine)).toList) :
    es = es' := by
  have hne (e : Role × Nat) (rest : List Char) : [] ≠ (minimumLine e).toList ++ rest := by
    rw [minimumLine_toList]
    simp
  simp only [String.toList_join, List.flatMap_map] at h
  induction es generalizing es' with
  | nil =>
    cases es' with
    | nil => rfl
    | cons e' es' => exact absurd h (hne e' _)
  | cons e es ih =>
    cases es' with
    | nil => exact absurd h.symm (hne e _)
    | cons e' es' =>
      rw [List.flatMap_cons, List.flatMap_cons] at h
      obtain ⟨rfl, hrest⟩ := eq_of_minimumLine h
      rw [ih hrest]

/-- **The text of a policy can be read in one way only.** -/
theorem digestText_injective (h : p.digestText = q.digestText) : p = q := by
  have hchars := congrArg String.toList h
  simp only [digestText, String.toList_append, List.append_assoc] at hchars
  obtain ⟨htotal, -, hlines⟩ := Text.eq_of_first (newline_notMem_ofNat p.total)
    (newline_notMem_ofNat q.total) rfl rfl (List.append_cancel_left hchars)
  have hminimums : p.minimums = q.minimums := by
    rw [← RoleMap.ofList_toList p.minimums, eq_of_minimumLines hlines, RoleMap.ofList_toList]
  obtain ⟨total, minimums⟩ := p
  obtain ⟨total', minimums'⟩ := q
  rw [mk.injEq]
  exact ⟨Decimal.ofNat_injective (String.toList_inj.mp htotal), hminimums⟩

theorem digestBytes_eq_iff : p.digestBytes = q.digestBytes ↔ p = q :=
  ⟨fun h => digestText_injective (Text.eq_of_bytes h), fun h => by rw [h]⟩

/-- **Equal digests, up to a collision.** -/
theorem digest_eq_iff_unchanged : p.digest = q.digest ↔
    p.transitionTo q = .unchanged ∨ Sha256.Collide p.digestBytes q.digestBytes := by
  rw [digest_eq_iff, Sha256.hash_eq_iff, digestBytes_eq_iff, transitionTo_eq_unchanged]

end Policy

/-- **A digest identifies a policy**, whether it obeys the range or not. Two policies are equal iff
their digests hash the same message; so unless the hash makes one of two messages, they have the
same digest iff the step from one to the other leaves everything as it is. -/
theorem digest_identifies (p q : Policy) :
    (p.digestBytes = q.digestBytes ↔ p = q) ∧
    (¬ Sha256.Collide p.digestBytes q.digestBytes →
      (p.digest = q.digest ↔ p.transitionTo q = .unchanged)) := by
  refine ⟨Policy.digestBytes_eq_iff, fun hno => ?_⟩
  rw [Policy.digest_eq_iff_unchanged, or_iff_left hno]

/-- Two policies that ask for the same, neither of which obeys the range: a minimum of zero tells
them apart. -/
theorem digest_identifies_zeroMinimum :
    let p : Policy := ⟨11, { authors := some 0, lead := some 12 }⟩
    let q : Policy := ⟨11, { lead := some 12 }⟩
    ¬ Sha256.Collide p.digestBytes q.digestBytes ∧
      p.transitionTo q = .raises ∧ p.digest ≠ q.digest := by
  intro p q
  have hno : ¬ Sha256.Collide p.digestBytes q.digestBytes := by decide +kernel
  have hraises : p.transitionTo q = .raises := by decide
  refine ⟨hno, hraises, fun h => ?_⟩
  rw [((digest_identifies p q).2 hno).mp h] at hraises
  cases hraises

end ReviewQuorum
