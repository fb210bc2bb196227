import RingCache.Proofs.JsonNumbers
import RingCache.Proofs.PointLabels

/-!
What the hash of keys tells apart. One step of the hash loses nothing of the hash before it, since
the prime is odd and so has an inverse among the words, and nothing of the octet. Octets that follow
both of two texts leave their hashes different or equal as they were, and a change of one octet
always shows.
-/

namespace RingCache.Cluster

def hashPrimeInverse : UInt32 := 0x359C449B

theorem hashPrime_mul_inverse : hashPrime * hashPrimeInverse = 1 := by decide

theorem mul_hashPrime_injective : Function.Injective (· * hashPrime) := by
  intro word other same
  have undone := congrArg (· * hashPrimeInverse) same
  simpa only [UInt32.mul_assoc, hashPrime_mul_inverse, UInt32.mul_one] using undone

theorem hashStep_injective (octet : UInt8) : Function.Injective (hashStep · octet) := by
  intro hash other same
  exact (UInt32.xor_left_inj octet.toUInt32).mp (mul_hashPrime_injective same)

theorem hashStep_octet_injective (hash : UInt32) : Function.Injective (hashStep hash) := by
  intro octet other same
  exact UInt8.toUInt32_inj.mp ((UInt32.xor_right_inj hash).mp (mul_hashPrime_injective same))

theorem foldl_hashStep_injective (octets : Bytes) :
    Function.Injective fun hash => octets.foldl hashStep hash := by
  induction octets with
  | nil => exact Function.injective_id
  | cons octet octets ih => exact ih.comp (hashStep_injective octet)

theorem hashBytes_append (front back : Bytes) :
    hashBytes (front ++ back) = back.foldl hashStep (hashBytes front) :=
  List.foldl_append

theorem hashBytes_append_inj (front other back : Bytes) :
    hashBytes (front ++ back) = hashBytes (other ++ back) ↔ hashBytes front = hashBytes other := by
  rw [hashBytes_append, hashBytes_append]
  exact (foldl_hashStep_injective back).eq_iff

theorem hashBytes_change (front back : Bytes) (octet other : UInt8) :
    hashBytes (front ++ octet :: back) = hashBytes (front ++ other :: back) ↔ octet = other := by
  rw [hashBytes_append, hashBytes_append, List.foldl_cons, List.foldl_cons]
  exact (foldl_hashStep_injective back).eq_iff.trans (hashStep_octet_injective _).eq_iff

/-- Lists of one length that are different at exactly one place. -/
def DifferOnce {α : Type} (left right : List α) : Prop :=
  left.length = right.length ∧ ∃ place < left.length, left[place]? ≠ right[place]? ∧
    ∀ other < left.length, other ≠ place → left[other]? = right[other]?

instance {α : Type} [DecidableEq α] (left right : List α) : Decidable (DifferOnce left right) := by
  unfold DifferOnce
  infer_instance

theorem DifferOnce.split {α : Type} {left right : List α} (once : DifferOnce left right) :
    ∃ front back a b, left = front ++ a :: back ∧ right = front ++ b :: back ∧ a ≠ b := by
  obtain ⟨length, place, inside, differ, elsewhere⟩ := once
  have otherInside : place < right.length := length ▸ inside
  -- Outside the lists there is nothing to differ.
  have same : ∀ other, other ≠ place → left[other]? = right[other]? := by
    intro other apart
    rcases Nat.lt_or_ge other left.length with below | past
    · exact elsewhere other below apart
    · rw [List.getElem?_eq_none past, List.getElem?_eq_none (length ▸ past)]
  have front : left.take place = right.take place := by
    apply List.ext_getElem?
    intro other
    rcases Nat.lt_or_ge other place with before | past
    · rw [List.getElem?_take_of_lt before, List.getElem?_take_of_lt before,
        same other (Nat.ne_of_lt before)]
    · rw [List.getElem?_take_eq_none past, List.getElem?_take_eq_none past]
  have back : left.drop (place + 1) = right.drop (place + 1) := by
    apply List.ext_getElem?
    intro other
    rw [List.getElem?_drop, List.getElem?_drop, same _ (by omega)]
  refine ⟨left.take place, left.drop (place + 1), left[place], right[place], ?_, ?_, ?_⟩
  · rw [← List.drop_eq_getElem_cons inside, List.take_append_drop]
  · rw [front, back, ← List.drop_eq_getElem_cons otherInside, List.take_append_drop]
  · intro equal
    rw [List.getElem?_eq_getElem inside, List.getElem?_eq_getElem otherInside, equal] at differ
    exact differ rfl

theorem hashBytes_ne {octets others : Bytes} (once : DifferOnce octets others) :
    hashBytes octets ≠ hashBytes others := by
  obtain ⟨front, back, a, b, rfl, rfl, differ⟩ := once.split
  exact fun same => differ ((hashBytes_change front back a b).mp same)

theorem hashKey_eq (key : String) : hashKey key = hashBytes (Bytes.ofChars key.toList) := by
  rw [hashKey, Bytes.ofString_eq, Bytes.ofChars]

/-- A character of ASCII is one octet, so another one in its place always shows. -/
theorem hashBytes_ofChars_change (front back : List Char) {a b : Char} (ascii : a.toNat < 128)
    (otherAscii : b.toNat < 128) : hashBytes (Bytes.ofChars (front ++ a :: back)) =
      hashBytes (Bytes.ofChars (front ++ b :: back)) ↔ a = b := by
  rw [Bytes.ofChars_append, Bytes.ofChars_append, Bytes.ofChars_ascii a back ascii,
    Bytes.ofChars_ascii b back otherAscii, hashBytes_change]
  constructor
  · intro same
    have value := congrArg UInt8.toNat same
    rw [UInt8.toNat_ofNat_of_lt' (Nat.lt_trans ascii (by decide)),
      UInt8.toNat_ofNat_of_lt' (Nat.lt_trans otherAscii (by decide))] at value
    exact Char.ext (UInt32.toNat_inj.mp value)
  · rintro rfl
    rfl

theorem toDigits_ascii {n : Nat} {c : Char} (member : c ∈ Nat.toDigits 10 n) : c.toNat < 128 :=
  Nat.lt_of_le_of_lt (Json.digit_ascii (Json.toDigits_all n c member)).2 (by decide)

theorem hashKey_pointLabel_ne (id : NodeId) {index other : Nat}
    (once : DifferOnce (Nat.toDigits 10 index) (Nat.toDigits 10 other)) :
    hashKey (pointLabel id index) ≠ hashKey (pointLabel id other) := by
  obtain ⟨front, back, a, b, digits, otherDigits, differ⟩ := once.split
  have member : a ∈ Nat.toDigits 10 index := by
    rw [digits]
    exact List.mem_append_right front List.mem_cons_self
  have otherMember : b ∈ Nat.toDigits 10 other := by
    rw [otherDigits]
    exact List.mem_append_right front List.mem_cons_self
  have change := hashBytes_ofChars_change (id.name.toList ++ '-' :: front) back
    (toDigits_ascii member) (toDigits_ascii otherMember)
  rw [List.append_assoc, List.append_assoc, List.cons_append, List.cons_append, ← digits,
    ← otherDigits, ← toList_pointLabel, ← toList_pointLabel, ← hashKey_eq, ← hashKey_eq] at change
  exact fun same => differ (change.mp same)

/-- A change of one octet changes the hash, and what follows two texts does not bring their hashes
together or apart. So points of one node never share a hash when their numbers are different in one
digit. -/
theorem hash_separates :
    (∀ octets others : Bytes, DifferOnce octets others → hashBytes octets ≠ hashBytes others) ∧
    (∀ front other back : Bytes,
      hashBytes (front ++ back) = hashBytes (other ++ back) ↔ hashBytes front = hashBytes other) ∧
    ∀ (id : NodeId) (index other : Nat),
      DifferOnce (Nat.toDigits 10 index) (Nat.toDigits 10 other) →
        hashKey (pointLabel id index) ≠ hashKey (pointLabel id other) :=
  ⟨fun _ _ => hashBytes_ne, hashBytes_append_inj, fun id _ _ => hashKey_pointLabel_ne id⟩

theorem hash_separates_numbers :
    let octets : Bytes := [0x66, 0x6F, 0x6F]
    let others : Bytes := [0x66, 0xE6, 0x6F]
    DifferOnce octets others ∧ hashBytes octets ≠ hashBytes others ∧
      DifferOnce (Nat.toDigits 10 909) (Nat.toDigits 10 919) ∧
      hashKey (pointLabel ⟨"n-1"⟩ 909) ≠ hashKey (pointLabel ⟨"n-1"⟩ 919) := by
  intro octets others
  obtain ⟨change, _, points⟩ := hash_separates
  have once : DifferOnce octets others := by decide
  have digits : DifferOnce (Nat.toDigits 10 909) (Nat.toDigits 10 919) := by decide
  exact ⟨once, change octets others once, digits, points ⟨"n-1"⟩ 909 919 digits⟩

end RingCache.Cluster
