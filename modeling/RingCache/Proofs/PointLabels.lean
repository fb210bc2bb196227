import RingCache.Proofs.NearestPoints
import RingCache.Proofs.Utf8Text

/-!
Labels of virtual points. A label is an id, a dash and a number in decimal digits, and nothing in
the id is escaped. No digit is a dash, so the last dash of a label is the one in front of its number,
and a label belongs to one id and one number only. Where points of different ids share a hash,
different octets were hashed.
-/

namespace RingCache.Cluster

/-- At its last mark a list comes apart in one way. -/
theorem append_mark_inj {α : Type} {mark : α} {front other back rest : List α}
    (free : mark ∉ back) (otherFree : mark ∉ rest)
    (same : front ++ mark :: back = other ++ mark :: rest) : front = other ∧ back = rest := by
  -- The longer front would put its own mark behind that of the other.
  rcases List.append_eq_append_iff.mp same with ⟨between, rfl, tail⟩ | ⟨between, rfl, tail⟩
  · cases between with
    | nil => exact ⟨(List.append_nil _).symm, (List.cons.inj tail).2⟩
    | cons first between =>
        rw [List.cons_append, List.cons.injEq] at tail
        exact absurd (tail.2 ▸ List.mem_append_right between List.mem_cons_self) free
  · cases between with
    | nil => exact ⟨List.append_nil _, (List.cons.inj tail).2.symm⟩
    | cons first between =>
        rw [List.cons_append, List.cons.injEq] at tail
        exact absurd (tail.2 ▸ List.mem_append_right between List.mem_cons_self) otherFree

theorem toDigits_injective : Function.Injective (Nat.toDigits 10) := by
  intro n m same
  have value := congrArg (Nat.ofDigitChars 10 · 0) same
  simpa only [Nat.ofDigitChars_ten_toDigits] using value

theorem dash_not_mem_toDigits (n : Nat) : '-' ∉ Nat.toDigits 10 n := by
  intro member
  have digit := Nat.isDigit_of_mem_toDigits (by decide) (by decide) member
  exact absurd digit (by decide)

theorem toList_pointLabel (id : NodeId) (index : Nat) :
    (pointLabel id index).toList = id.name.toList ++ '-' :: Nat.toDigits 10 index := by
  simp [pointLabel, toString, Nat.repr]

variable {id other : NodeId} {index otherIndex : Nat}

theorem pointLabel_inj (same : pointLabel id index = pointLabel other otherIndex) :
    id = other ∧ index = otherIndex := by
  have chars := congrArg String.toList same
  rw [toList_pointLabel, toList_pointLabel] at chars
  obtain ⟨name, digits⟩ :=
    append_mark_inj (dash_not_mem_toDigits index) (dash_not_mem_toDigits otherIndex) chars
  exact ⟨congrArg NodeId.mk (String.toList_injective name), toDigits_injective digits⟩

theorem pointLabel_eq_iff :
    pointLabel id index = pointLabel other otherIndex ↔ id = other ∧ index = otherIndex := by
  constructor
  · exact pointLabel_inj
  · rintro ⟨rfl, rfl⟩
    rfl

def Collide (octets others : Bytes) : Prop := octets ≠ others ∧ hashBytes octets = hashBytes others

namespace Ring

variable {ids : List NodeId} {virtualNodes : Nat}

namespace Slot

def nodeId (slot : Slot ids virtualNodes) : NodeId := ids.get slot.1

def octets (slot : Slot ids virtualNodes) : Bytes := Bytes.ofString slot.label

theorem octets_eq_iff (slot other : Slot ids virtualNodes) :
    slot.octets = other.octets ↔ slot.nodeId = other.nodeId ∧ slot.2 = other.2 := by
  rw [Fin.ext_iff, ← pointLabel_eq_iff]
  exact ⟨Bytes.ofString_inj, congrArg Bytes.ofString⟩

end Slot

/-- A label is that of one id and one number. On a ring, points have one hash where they have the
same id and number, and else only where the hash fails to tell two labels apart. -/
theorem labels_injective (ids : List NodeId) (virtualNodes : Nat) :
    (∀ (id other : NodeId) (index otherIndex : Nat),
      pointLabel id index = pointLabel other otherIndex ↔ id = other ∧ index = otherIndex) ∧
    ∀ slot other : Slot ids virtualNodes, slot.point.hash = other.point.hash ↔
      (slot.nodeId = other.nodeId ∧ slot.2 = other.2) ∨ Collide slot.octets other.octets := by
  refine ⟨fun _ _ _ _ => pointLabel_eq_iff, ?_⟩
  intro slot other
  have hashed : slot.point.hash = other.point.hash ↔
      hashBytes slot.octets = hashBytes other.octets := Iff.rfl
  rw [hashed, ← Slot.octets_eq_iff]
  constructor
  · intro shared
    by_cases same : slot.octets = other.octets
    · exact .inl same
    · exact .inr ⟨same, shared⟩
  · rintro (same | ⟨_, shared⟩)
    · rw [same]
    · exact shared

-- An id that ends like a label is still told apart.
example : pointLabel ⟨"n"⟩ 12 ≠ pointLabel ⟨"n-1"⟩ 2 ∧
    pointLabel ⟨"n-1"⟩ 2 ≠ pointLabel ⟨"n-1-"⟩ 2 := by decide

end Ring

end RingCache.Cluster
