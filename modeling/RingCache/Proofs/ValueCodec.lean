import RingCache.Cache.Value
import RingCache.Proofs.MemberOrder

/-!
The encoding of values. A text, octets, or a document without doubles that is not nested too deep is
decoded from its octets as itself, so these octets stand for no other value of its type. A document
may be given with the members of its objects in any order: that order is all that its octets leave
out.
-/

namespace RingCache

/-- Values that their octets give back: any text, any octets, and documents without doubles whose
arrays and objects are open 127 at a time at most. -/
inductive CacheValue.Exact : CacheValue → Prop where
  | text (content : String) : Exact (.text content)
  | binary (octets : Bytes) : Exact (.binary octets)
  | structured (document : Json) (exact : document.Exact) (shallow : document.depth ≤ 127) :
      Exact (.structured document)

structure Json.Given (document : Json) : Prop where
  formed : Json.Formed (fun _ => False) List.Nodup document
  shallow : document.depth ≤ 127

theorem Json.Given.exact {document : Json} (given : document.Given) :
    CacheValue.Exact (.structured document.sorted) :=
  .structured _ given.formed.sorted (given.formed.depth_sorted.trans given.shallow)

namespace CacheValue

theorem Exact.decode_encode {value : CacheValue} (exact : value.Exact) :
    decode value.contentType value.encode = .ok value := by
  cases exact with
  | text content => simp only [contentType, encode, decode, Utf8.decode_ofString]
  | binary octets => rfl
  | structured document exact shallow =>
      obtain ⟨got, same, parsed⟩ := exact.representable.parse.1 (Nat.lt_succ_of_le shallow)
      simp only [contentType, encode, decode, parsed, same exact]

theorem Exact.encode_inj {left right : CacheValue} (one : left.Exact) (other : right.Exact)
    (type : left.contentType = right.contentType) : left.encode = right.encode ↔ left = right := by
  constructor
  · intro same
    have first := one.decode_encode
    rw [type, same, other.decode_encode] at first
    exact (Except.ok.inj first).symm
  · rintro rfl
    rfl

/-- A value is decoded from its octets as itself, no other value of its type has these octets, and a
document has them in whatever order its members are given, and no other document has. -/
theorem decode_encode_canonical (value other : CacheValue) (exact : value.Exact)
    (otherExact : other.Exact) (sameType : other.contentType = value.contentType)
    (left right : Json) (given : left.Given) (rightGiven : right.Given) :
    decode value.contentType value.encode = .ok value ∧
      (other.encode = value.encode ↔ other = value) ∧
      decode .structured (encode (.structured left.sorted)) = .ok (.structured left.sorted) ∧
      (encode (.structured left.sorted) = encode (.structured right.sorted) ↔
        Json.Reordered left right) := by
  refine ⟨exact.decode_encode, otherExact.encode_inj exact sameType, given.exact.decode_encode, ?_⟩
  rw [given.exact.encode_inj rightGiven.exact rfl]
  constructor
  · intro same
    have sorted : left.sorted = right.sorted := CacheValue.structured.inj same
    exact given.formed.reordered.trans (sorted ▸ rightGiven.formed.reordered.symm)
  · intro same
    rw [same.sorted_eq]

/-- Two members in either order. -/
theorem decode_encode_swapped :
    decode .text (encode (.text "é")) = .ok (.text "é") ∧
      encode (.structured
          (Json.object [("é", .null), ("a", .array [.string "é", .int (-1)])]).sorted) =
        encode (.structured
          (Json.object [("a", .array [.string "é", .int (-1)]), ("é", .null)]).sorted) := by
  have array : Json.Formed (fun _ => False) List.Nodup (.array [.string "é", .int (-1)]) :=
    .array _ (by simp [Json.Formed.string, Json.Formed.int])
  have nothing : Json.Formed (fun _ => False) List.Nodup .null := .null
  have canonical := decode_encode_canonical (.text "é") (.text "é") (.text "é") (.text "é") rfl
    (.object [("é", .null), ("a", .array [.string "é", .int (-1)])])
    (.object [("a", .array [.string "é", .int (-1)]), ("é", .null)])
    ⟨.object _ (by simp) (by simp [nothing, array]), by decide⟩
    ⟨.object _ (by simp) (by simp [nothing, array]), by decide⟩
  exact ⟨canonical.1, canonical.2.2.2.mpr (.permuted (.swap _ _ _) (by simp))⟩

end CacheValue

end RingCache
