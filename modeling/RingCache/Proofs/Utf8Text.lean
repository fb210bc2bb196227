import RingCache.Text.Utf8

/-!
The octets of a text are read as that text. A character is written as one to four octets; each
length is read by one path of the reader.
-/

namespace RingCache

-- The octets of a text are the octets of its characters in order.
theorem toList_loop_of_drop (octets : ByteArray) (left : List UInt8) (index : Nat)
    (seen : List UInt8) (ahead : octets.data.toList.drop index = left) :
    ByteArray.toList.loop octets index seen = seen.reverse ++ left := by
  induction left generalizing index seen with
  | nil =>
      have done : ¬ index < octets.size := by
        simpa using List.drop_eq_nil_iff.mp ahead
      rw [ByteArray.toList.loop, if_neg done, List.append_nil]
  | cons octet left ih =>
      have inside : index < octets.data.toList.length := by
        apply Nat.lt_of_not_le
        intro past
        rw [List.drop_of_length_le past] at ahead
        cases ahead
      rw [List.drop_eq_getElem_cons inside, List.cons.injEq] at ahead
      have here : octets.get! index = octet := by
        rw [← ahead.1]
        exact getElem!_pos octets.data index inside
      have more : index < octets.size := by simpa using inside
      rw [ByteArray.toList.loop, if_pos more, here, ih _ _ ahead.2, List.reverse_cons,
        List.append_assoc, List.singleton_append]

theorem Bytes.ofString_eq (text : String) :
    Bytes.ofString text = text.toList.flatMap String.utf8EncodeChar := by
  have octets : text.toUTF8 = (text.toList.flatMap String.utf8EncodeChar).toByteArray :=
    String.utf8Encode_toList.symm
  rw [Bytes.ofString, octets, ByteArray.toList, toList_loop_of_drop _ _ _ _ rfl, List.reverse_nil,
    List.nil_append, List.drop_zero, List.toList_data_toByteArray]

theorem Bytes.ofString_length_le (text : String) :
    (Bytes.ofString text).length ≤ 4 * text.toList.length := by
  rw [Bytes.ofString_eq]
  induction text.toList with
  | nil => exact Nat.le_refl 0
  | cons c chars ih =>
      have one : (String.utf8EncodeChar c).length ≤ 4 := by
        rw [String.length_utf8EncodeChar]
        exact c.utf8Size_le_four
      rw [List.flatMap_cons, List.length_append, List.length_cons]
      omega

namespace Utf8

theorem decodeFrom_one (index : Nat) (seen : List Char) (lead : UInt8) (rest : Bytes)
    (ascii : lead < 0x80) :
    decodeFrom index seen (lead :: rest) =
      decodeFrom (index + 1) (Char.ofNat lead.toNat :: seen) rest := by
  rw [decodeFrom.eq_def]
  simp only [ascii, if_true]

theorem decodeFrom_two (index : Nat) (seen : List Char) (lead a : UInt8) (rest : Bytes)
    (low : 0xC2 ≤ lead) (high : lead ≤ 0xDF) (tail : isTail a = true) :
    decodeFrom index seen (lead :: a :: rest) =
      decodeFrom (index + 2) (two lead a :: seen) rest := by
  have promised : Promise.ofLead lead = some ⟨1, 0x80, 0xBF⟩ := by
    rw [Promise.ofLead, if_neg (UInt8.not_lt.mpr low), if_pos high]
  have many : ¬ lead < 0x80 := UInt8.not_lt.mpr (UInt8.le_trans (by decide) low)
  simp only [isTail, Bool.and_eq_true, decide_eq_true_eq] at tail
  have fits : ¬ (a < 0x80 || 0xBF < a) = true := by
    simp [UInt8.not_lt.mpr tail.1, UInt8.not_lt.mpr tail.2]
  rw [decodeFrom.eq_def]
  simp only [if_neg many, promised, if_neg fits, if_true]

theorem decodeFrom_three (index : Nat) (seen : List Char) (lead a b : UInt8) (rest : Bytes)
    (low : 0xE0 ≤ lead) (high : lead ≤ 0xEF) (tail : isTail a = true)
    (short : lead = 0xE0 → 0xA0 ≤ a) (surrogate : lead = 0xED → a ≤ 0x9F)
    (last : isTail b = true) :
    decodeFrom index seen (lead :: a :: b :: rest) =
      decodeFrom (index + 3) (three lead a b :: seen) rest := by
  simp only [isTail, Bool.and_eq_true, decide_eq_true_eq] at tail
  obtain ⟨promise, promised, owed, fits⟩ : ∃ promise, Promise.ofLead lead = some promise ∧
      promise.owed = 2 ∧ ¬ (a < promise.low || promise.high < a) = true := by
    have least : ¬ lead < 0xC2 := UInt8.not_lt.mpr (UInt8.le_trans (by decide) low)
    have beyond : ¬ lead ≤ 0xDF := UInt8.not_le.mpr (UInt8.lt_of_lt_of_le (by decide) low)
    rw [Promise.ofLead, if_neg least, if_neg beyond]
    by_cases first : lead = 0xE0
    · refine ⟨_, if_pos first, rfl, ?_⟩
      simp [UInt8.not_lt.mpr (short first), UInt8.not_lt.mpr tail.2]
    · by_cases middle : lead = 0xED
      · refine ⟨⟨2, 0x80, 0x9F⟩, by rw [if_neg first, if_pos middle], rfl, ?_⟩
        simp [UInt8.not_lt.mpr tail.1, UInt8.not_lt.mpr (surrogate middle)]
      · refine ⟨⟨2, 0x80, 0xBF⟩, by rw [if_neg first, if_neg middle, if_pos high], rfl, ?_⟩
        simp [UInt8.not_lt.mpr tail.1, UInt8.not_lt.mpr tail.2]
  have many : ¬ lead < 0x80 := UInt8.not_lt.mpr (UInt8.le_trans (by decide) low)
  rw [decodeFrom.eq_def]
  simp only [if_neg many, promised, if_neg fits, owed, last, Bool.not_true, Bool.false_eq_true,
    if_false, if_true, Nat.reduceEqDiff]

theorem decodeFrom_four (index : Nat) (seen : List Char) (lead a b c : UInt8) (rest : Bytes)
    (low : 0xF0 ≤ lead) (high : lead ≤ 0xF4) (tail : isTail a = true)
    (short : lead = 0xF0 → 0x90 ≤ a) (greatest : lead = 0xF4 → a ≤ 0x8F)
    (next : isTail b = true) (last : isTail c = true) :
    decodeFrom index seen (lead :: a :: b :: c :: rest) =
      decodeFrom (index + 4) (four lead a b c :: seen) rest := by
  simp only [isTail, Bool.and_eq_true, decide_eq_true_eq] at tail
  obtain ⟨promise, promised, owed, fits⟩ : ∃ promise, Promise.ofLead lead = some promise ∧
      promise.owed = 3 ∧ ¬ (a < promise.low || promise.high < a) = true := by
    have least : ¬ lead < 0xC2 := UInt8.not_lt.mpr (UInt8.le_trans (by decide) low)
    have beyond : ¬ lead ≤ 0xDF := UInt8.not_le.mpr (UInt8.lt_of_lt_of_le (by decide) low)
    have past : ¬ lead ≤ 0xEF := UInt8.not_le.mpr (UInt8.lt_of_lt_of_le (by decide) low)
    have notFirst : lead ≠ 0xE0 := by rintro rfl; exact absurd low (by decide)
    have notMiddle : lead ≠ 0xED := by rintro rfl; exact absurd low (by decide)
    rw [Promise.ofLead, if_neg least, if_neg beyond, if_neg notFirst, if_neg notMiddle, if_neg past]
    by_cases first : lead = 0xF0
    · refine ⟨_, if_pos first, rfl, ?_⟩
      simp [UInt8.not_lt.mpr (short first), UInt8.not_lt.mpr tail.2]
    · by_cases below : lead ≤ 0xF3
      · refine ⟨⟨3, 0x80, 0xBF⟩, by rw [if_neg first, if_pos below], rfl, ?_⟩
        simp [UInt8.not_lt.mpr tail.1, UInt8.not_lt.mpr tail.2]
      · have top : lead = 0xF4 := by
          apply UInt8.le_antisymm high
          have above := UInt8.lt_iff_toNat_lt.mp (UInt8.not_le.mp below)
          exact UInt8.le_iff_toNat_le.mpr above
        refine ⟨⟨3, 0x80, 0x8F⟩, by rw [if_neg first, if_neg below, if_pos top], rfl, ?_⟩
        simp [UInt8.not_lt.mpr tail.1, UInt8.not_lt.mpr (greatest top)]
  have many : ¬ lead < 0x80 := UInt8.not_lt.mpr (UInt8.le_trans (by decide) low)
  rw [decodeFrom.eq_def]
  simp only [if_neg many, promised, if_neg fits, owed, next, last, Bool.not_true,
    Bool.false_eq_true, if_false, Nat.reduceEqDiff]

theorem ofNat_le (n bound : Nat) (small : bound < 256) (below : n ≤ bound) :
    UInt8.ofNat n ≤ UInt8.ofNat bound := by
  rw [UInt8.le_iff_toNat_le, UInt8.toNat_ofNat_of_lt' small,
    UInt8.toNat_ofNat_of_lt' (Nat.lt_of_le_of_lt below small)]
  exact below

theorem isTail_bits (n : Nat) : isTail (UInt8.ofNat (n % 64 + 0x80)) = true := by
  simp only [isTail, Bool.and_eq_true, decide_eq_true_eq]
  constructor
  · exact ofNat_le 0x80 _ (by omega) (by omega)
  · exact ofNat_le _ 0xBF (by decide) (by omega)

theorem tailBits_bits (n : Nat) : tailBits (UInt8.ofNat (n % 64 + 0x80)) = n % 64 := by
  rw [tailBits, UInt8.toNat_ofNat_of_lt' (show n % 64 + 0x80 < 256 by omega)]
  omega

theorem decodeFrom_bits_two (index : Nat) (seen : List Char) (v : Nat) (rest : Bytes)
    (low : 0x7F < v) (high : v ≤ 0x7FF) :
    decodeFrom index seen
        (UInt8.ofNat (v / 64 % 0x20 + 0xC0) :: UInt8.ofNat (v % 0x40 + 0x80) :: rest) =
      decodeFrom (index + 2) (Char.ofNat v :: seen) rest := by
  rw [decodeFrom_two _ _ _ _ _ _ _ (isTail_bits v)]
  · have lead := UInt8.toNat_ofNat_of_lt' (show v / 64 % 0x20 + 0xC0 < 256 by omega)
    rw [two, lead, tailBits_bits]
    have joined : (v / 64 % 0x20 + 0xC0) % 32 * 64 + v % 64 = v := by omega
    rw [joined]
  · exact ofNat_le 0xC2 _ (by omega) (by omega)
  · exact ofNat_le _ 0xDF (by decide) (by omega)

theorem decodeFrom_bits_three (index : Nat) (seen : List Char) (v : Nat) (rest : Bytes)
    (low : 0x7FF < v) (high : v ≤ 0xFFFF) (scalar : v < 0xD800 ∨ 0xDFFF < v) :
    decodeFrom index seen
        (UInt8.ofNat (v / 4096 % 0x10 + 0xE0) :: UInt8.ofNat (v / 64 % 0x40 + 0x80) ::
          UInt8.ofNat (v % 0x40 + 0x80) :: rest) =
      decodeFrom (index + 3) (Char.ofNat v :: seen) rest := by
  have lead := UInt8.toNat_ofNat_of_lt' (show v / 4096 % 0x10 + 0xE0 < 256 by omega)
  rw [decodeFrom_three _ _ _ _ _ _ _ _ (isTail_bits _) _ _ (isTail_bits v)]
  · rw [three, lead, tailBits_bits, tailBits_bits]
    have joined : (v / 4096 % 0x10 + 0xE0) % 16 * 4096 + v / 64 % 64 * 64 + v % 64 = v := by omega
    rw [joined]
  · exact ofNat_le 0xE0 _ (by omega) (by omega)
  · exact ofNat_le _ 0xEF (by decide) (by omega)
  · intro first
    have flat : v / 4096 % 0x10 + 0xE0 = 0xE0 := lead.symm.trans (congrArg UInt8.toNat first)
    exact ofNat_le 0xA0 _ (by omega) (by omega)
  · intro middle
    have thirteen : v / 4096 % 0x10 + 0xE0 = 0xED := lead.symm.trans (congrArg UInt8.toNat middle)
    exact ofNat_le _ 0x9F (by decide) (by omega)

theorem decodeFrom_bits_four (index : Nat) (seen : List Char) (v : Nat) (rest : Bytes)
    (low : 0xFFFF < v) (high : v < 0x110000) :
    decodeFrom index seen
        (UInt8.ofNat (v / 262144 % 0x08 + 0xF0) :: UInt8.ofNat (v / 4096 % 0x40 + 0x80) ::
          UInt8.ofNat (v / 64 % 0x40 + 0x80) :: UInt8.ofNat (v % 0x40 + 0x80) :: rest) =
      decodeFrom (index + 4) (Char.ofNat v :: seen) rest := by
  have lead := UInt8.toNat_ofNat_of_lt' (show v / 262144 % 0x08 + 0xF0 < 256 by omega)
  rw [decodeFrom_four _ _ _ _ _ _ _ _ _ (isTail_bits _) _ _ (isTail_bits _) (isTail_bits v)]
  · rw [four, lead, tailBits_bits, tailBits_bits, tailBits_bits]
    have joined : (v / 262144 % 0x08 + 0xF0) % 8 * 262144 + v / 4096 % 64 * 4096 +
        v / 64 % 64 * 64 + v % 64 = v := by omega
    rw [joined]
  · exact ofNat_le 0xF0 _ (by omega) (by omega)
  · exact ofNat_le _ 0xF4 (by decide) (by omega)
  · intro first
    have flat : v / 262144 % 0x08 + 0xF0 = 0xF0 := lead.symm.trans (congrArg UInt8.toNat first)
    exact ofNat_le 0x90 _ (by omega) (by omega)
  · intro last
    have top : v / 262144 % 0x08 + 0xF0 = 0xF4 := lead.symm.trans (congrArg UInt8.toNat last)
    exact ofNat_le _ 0x8F (by decide) (by omega)

/-- The reader takes a written character as that character. -/
theorem decodeFrom_char (index : Nat) (seen : List Char) (c : Char) (rest : Bytes) :
    decodeFrom index seen (String.utf8EncodeChar c ++ rest) =
      decodeFrom (index + (String.utf8EncodeChar c).length) (c :: seen) rest := by
  have scalar : c.val.toNat < 0xD800 ∨ 0xDFFF < c.val.toNat ∧ c.val.toNat < 0x110000 := c.valid
  have back : Char.ofNat c.val.toNat = c := Char.ofNat_toNat c
  simp only [String.utf8EncodeChar]
  generalize c.val.toNat = v at scalar back ⊢
  by_cases ascii : v ≤ 0x7F
  · have whole : (UInt8.ofNat v).toNat = v :=
      UInt8.toNat_ofNat_of_lt' (Nat.lt_of_le_of_lt ascii (by decide))
    rw [if_pos ascii, List.singleton_append, decodeFrom_one, whole, back]
    · rfl
    · rw [UInt8.lt_iff_toNat_lt, whole]
      exact Nat.lt_succ_of_le ascii
  · rw [if_neg ascii]
    by_cases twice : v ≤ 0x7FF
    · rw [if_pos twice]
      exact back ▸ decodeFrom_bits_two index seen v rest (Nat.lt_of_not_le ascii) twice
    · rw [if_neg twice]
      by_cases thrice : v ≤ 0xFFFF
      · rw [if_pos thrice]
        exact back ▸ decodeFrom_bits_three index seen v rest (Nat.lt_of_not_le twice) thrice
          (scalar.imp_right And.left)
      · rw [if_neg thrice]
        exact back ▸ decodeFrom_bits_four index seen v rest (Nat.lt_of_not_le thrice) (by omega)

theorem decodeFrom_chars (chars seen : List Char) (index : Nat) :
    decodeFrom index seen (chars.flatMap String.utf8EncodeChar) = .ok (seen.reverse ++ chars) := by
  induction chars generalizing seen index with
  | nil => simp [decodeFrom]
  | cons c chars ih =>
      rw [List.flatMap_cons, decodeFrom_char, ih, List.reverse_cons, List.append_assoc,
        List.singleton_append]

/-- The octets of a text are read as that text. -/
theorem decode_ofString (text : String) : decode (Bytes.ofString text) = .ok text := by
  rw [decode, Bytes.ofString_eq, decodeFrom_chars]
  simp [Except.map]

end Utf8

theorem Bytes.ofString_inj {left right : String} (same : ofString left = ofString right) :
    left = right := by
  have read := Utf8.decode_ofString left
  rw [same, Utf8.decode_ofString] at read
  exact (Except.ok.inj read).symm

end RingCache
