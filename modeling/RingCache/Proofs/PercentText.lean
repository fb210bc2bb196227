import RingCache.Net.Percent
import RingCache.Proofs.JsonStrings

/-!
Percent encoding. What escapes the percent sign is undone by decoding once, and a mark that is
escaped stands nowhere in the encoded text. Escaped octets show as three characters of ASCII, the
others as themselves.
-/

namespace RingCache.Net

theorem upperHexDigit_lt (n : Nat) (small : n < 16) : (upperHexDigit n).toNat < 128 := by
  decide +revert

theorem hexOctet_upperHexDigit (n : Nat) (small : n < 16) :
    hexOctet (UInt8.ofNat (upperHexDigit n).toNat) = some n := by
  decide +revert

theorem percentDecodeFrom_plain (seen : Bytes) (octet : UInt8) (rest : Bytes) (plain : octet ≠ 37) :
    percentDecodeFrom seen (octet :: rest) = percentDecodeFrom (octet :: seen) rest := by
  rw [percentDecodeFrom]
  intros
  exact plain ‹_›

/-- An escaped octet is read as that octet. -/
theorem percentDecodeFrom_escape (seen : Bytes) (octet : UInt8) (rest : Bytes) :
    percentDecodeFrom seen (Bytes.ofChars (escapeOctet octet) ++ rest) =
      percentDecodeFrom (octet :: seen) rest := by
  have size : octet.toNat < 256 := octet.toNat_lt
  have high : octet.toNat / 16 < 16 := by omega
  have low : octet.toNat % 16 < 16 := by omega
  have octets : Bytes.ofChars (escapeOctet octet) =
      [37, UInt8.ofNat (upperHexDigit (octet.toNat / 16)).toNat,
        UInt8.ofNat (upperHexDigit (octet.toNat % 16)).toNat] := by
    rw [escapeOctet, Bytes.ofChars_ascii _ _ (by decide), Bytes.ofChars_ascii _ _
      (upperHexDigit_lt _ high), Bytes.ofChars_ascii _ _ (upperHexDigit_lt _ low)]
    rfl
  have whole : 16 * (octet.toNat / 16) + octet.toNat % 16 = octet.toNat := Nat.div_add_mod ..
  rw [octets]
  simp only [List.cons_append, List.nil_append]
  rw [percentDecodeFrom, hexOctet_upperHexDigit _ high, hexOctet_upperHexDigit _ low]
  dsimp only
  rw [whole, UInt8.ofNat_toNat]

theorem percentDecodeFrom_escapes (seen octets rest : Bytes) :
    percentDecodeFrom seen (Bytes.ofChars (octets.flatMap escapeOctet) ++ rest) =
      percentDecodeFrom (octets.reverse ++ seen) rest := by
  induction octets generalizing seen with
  | nil => rfl
  | cons octet octets ih =>
      rw [List.flatMap_cons, Bytes.ofChars_append, List.append_assoc, percentDecodeFrom_escape, ih,
        List.reverse_cons, List.append_assoc, List.singleton_append]

/-- A character is read as its octets, escaped or not. -/
theorem percentDecodeFrom_char (escaped : Char → Bool) (percent : escaped '%' = true)
    (seen : Bytes) (c : Char) (rest : Bytes) :
    percentDecodeFrom seen (Bytes.ofChars (percentEncodeChars escaped [c]) ++ rest) =
      percentDecodeFrom ((Bytes.ofChars [c]).reverse ++ seen) rest := by
  simp only [percentEncodeChars, List.flatMap_singleton]
  split
  · next spared =>
      simp only [Bool.and_eq_true, decide_eq_true_eq, Bool.not_eq_true'] at spared
      have other : c ≠ '%' := by
        rintro rfl
        rw [percent] at spared
        cases spared.2
      have plain : UInt8.ofNat c.toNat ≠ 37 := by
        intro same
        have value := congrArg UInt8.toNat same
        rw [UInt8.toNat_ofNat_of_lt' (Nat.lt_trans spared.1 (by decide))] at value
        exact other (Char.ext (UInt32.toNat_inj.mp value))
      rw [Bytes.ofChars_ascii _ _ spared.1]
      exact percentDecodeFrom_plain seen _ rest plain
  · rw [percentDecodeFrom_escapes, ← Bytes.ofString_ofList, String.singleton_eq_ofList]

theorem percentDecodeFrom_chars (escaped : Char → Bool) (percent : escaped '%' = true)
    (seen : Bytes) (chars : List Char) (rest : Bytes) :
    percentDecodeFrom seen (Bytes.ofChars (percentEncodeChars escaped chars) ++ rest) =
      percentDecodeFrom ((Bytes.ofChars chars).reverse ++ seen) rest := by
  induction chars generalizing seen with
  | nil => rfl
  | cons c chars ih =>
      have front : percentEncodeChars escaped (c :: chars) =
          percentEncodeChars escaped [c] ++ percentEncodeChars escaped chars := by
        simp [percentEncodeChars]
      have octets : Bytes.ofChars (c :: chars) = Bytes.ofChars [c] ++ Bytes.ofChars chars :=
        Bytes.ofChars_append [c] chars
      rw [front, Bytes.ofChars_append, List.append_assoc, percentDecodeFrom_char escaped percent,
        ih, octets, List.reverse_append, List.append_assoc]

/-- Decoding once gives back what was encoded. -/
theorem percentDecode_percentEncode (escaped : Char → Bool) (percent : escaped '%' = true)
    (text : String) :
    percentDecode (Bytes.ofString (percentEncode escaped text)) = Bytes.ofString text := by
  have read := percentDecodeFrom_chars escaped percent [] text.toList []
  rw [List.append_nil, List.append_nil, percentDecodeFrom, List.reverse_reverse] at read
  rw [percentDecode, percentEncode, Bytes.ofString_ofList, read, Bytes.ofString_eq]
  rfl

/-- The characters of an encoded text: those that are spared, and those of escapes. -/
theorem mem_percentEncodeChars (escaped : Char → Bool) (chars : List Char) (c : Char)
    (member : c ∈ percentEncodeChars escaped chars) :
    escaped c = false ∨ c = '%' ∨ ∃ n, n < 16 ∧ c = upperHexDigit n := by
  obtain ⟨original, _, there⟩ := List.mem_flatMap.mp member
  split at there
  · next spared =>
      rw [List.mem_singleton.mp there]
      simp only [Bool.and_eq_true, Bool.not_eq_true'] at spared
      exact .inl spared.2
  · obtain ⟨octet, _, among⟩ := List.mem_flatMap.mp there
    have size : octet.toNat < 256 := octet.toNat_lt
    simp only [escapeOctet, List.mem_cons, List.not_mem_nil, or_false] at among
    rcases among with percent | high | low
    · exact .inr (.inl percent)
    · exact .inr (.inr ⟨_, by omega, high⟩)
    · exact .inr (.inr ⟨_, by omega, low⟩)

/-- A mark that is escaped, and of which no escape is made, is not in an encoded text. -/
theorem percentEncodeChars_spares (escaped : Char → Bool) (mark : Char)
    (marked : escaped mark = true) (other : mark ≠ '%') (digit : ∀ n < 16, mark ≠ upperHexDigit n)
    (chars : List Char) : mark ∉ percentEncodeChars escaped chars := by
  intro member
  rcases mem_percentEncodeChars escaped chars mark member with spared | percent | ⟨n, small, hex⟩
  · rw [marked] at spared
    cases spared
  · exact other percent
  · exact digit n small hex

end RingCache.Net
