import RingCache.Proofs.JsonStrings

/-!
What is read as a text is the octets of that text, so octets that are a text are one text only. The
sequence that a lead byte begins is the encoding of the character that it is read as: the range of
its first continuation byte leaves out the characters that have a shorter encoding, the surrogates,
and what is beyond the last character.
-/

namespace RingCache.Utf8

structure Tail (octet : UInt8) : Prop where
  low : 0x80 ≤ octet.toNat
  high : octet.toNat ≤ 0xBF

theorem isTail_tail {octet : UInt8} (tail : isTail octet = true) : Tail octet := by
  simp only [isTail, Bool.and_eq_true, decide_eq_true_eq] at tail
  exact ⟨UInt8.le_iff_toNat_le.mp tail.1, UInt8.le_iff_toNat_le.mp tail.2⟩

structure Opens (owed : Nat) (lead a : UInt8) : Prop where
  tail : Tail a
  two : owed = 1 → 0xC2 ≤ lead.toNat ∧ lead.toNat ≤ 0xDF
  three : owed = 2 → 0xE0 ≤ lead.toNat ∧ lead.toNat ≤ 0xEF ∧
    (lead.toNat = 0xE0 → 0xA0 ≤ a.toNat) ∧ (lead.toNat = 0xED → a.toNat ≤ 0x9F)
  four : owed ≠ 1 → owed ≠ 2 → 0xF0 ≤ lead.toNat ∧ lead.toNat ≤ 0xF4 ∧
    (lead.toNat = 0xF0 → 0x90 ≤ a.toNat) ∧ (lead.toNat = 0xF4 → a.toNat ≤ 0x8F)

theorem Promise.opens {lead a : UInt8} {promise : Promise} (promised : ofLead lead = some promise)
    (kept : ¬ (decide (a < promise.low) || decide (promise.high < a)) = true) :
    Opens promise.owed lead a := by
  simp only [Bool.or_eq_true, decide_eq_true_eq, not_or, UInt8.not_lt,
    UInt8.le_iff_toNat_le] at kept
  obtain ⟨low, high⟩ := kept
  simp only [ofLead, UInt8.lt_iff_toNat_lt, UInt8.le_iff_toNat_le, ← UInt8.toNat_inj,
    UInt8.reduceToNat] at promised
  split_ifs at promised <;> cases promised <;> simp only [UInt8.reduceToNat] at low high
  all_goals refine ⟨⟨by omega, by omega⟩, ?_, ?_, ?_⟩ <;> dsimp only <;> omega

theorem toNat_ofNat {v : Nat} (scalar : v.isValidChar) : (Char.ofNat v).val.toNat = v := by
  rw [Char.ofNat, dif_pos scalar]
  rfl

theorem encode_two {lead a : UInt8} (opens : Opens 1 lead a) :
    String.utf8EncodeChar (two lead a) = [lead, a] := by
  obtain ⟨low, high⟩ := opens.two rfl
  obtain ⟨aLow, aHigh⟩ := opens.tail
  have value : (two lead a).val.toNat = lead.toNat % 32 * 64 + a.toNat % 64 :=
    toNat_ofNat (.inl (by simp only [tailBits]; omega))
  have first : (lead.toNat % 32 * 64 + a.toNat % 64) / 64 % 0x20 + 0xC0 = lead.toNat := by omega
  have second : (lead.toNat % 32 * 64 + a.toNat % 64) % 0x40 + 0x80 = a.toNat := by omega
  simp only [String.utf8EncodeChar, value]
  rw [if_neg (by omega), if_pos (by omega), first, second, UInt8.ofNat_toNat, UInt8.ofNat_toNat]

theorem encode_three {lead a b : UInt8} (opens : Opens 2 lead a) (last : Tail b) :
    String.utf8EncodeChar (three lead a b) = [lead, a, b] := by
  obtain ⟨low, high, short, surrogate⟩ := opens.three rfl
  obtain ⟨aLow, aHigh⟩ := opens.tail
  obtain ⟨bLow, bHigh⟩ := last
  have value : (three lead a b).val.toNat =
      lead.toNat % 16 * 4096 + a.toNat % 64 * 64 + b.toNat % 64 := by
    apply toNat_ofNat
    simp only [tailBits, Nat.isValidChar]
    omega
  generalize whole : lead.toNat % 16 * 4096 + a.toNat % 64 * 64 + b.toNat % 64 = v at value
  have first : v / 4096 % 0x10 + 0xE0 = lead.toNat := by omega
  have second : v / 64 % 0x40 + 0x80 = a.toNat := by omega
  have third : v % 0x40 + 0x80 = b.toNat := by omega
  simp only [String.utf8EncodeChar, value]
  rw [if_neg (by omega), if_neg (by omega), if_pos (by omega), first, second, third,
    UInt8.ofNat_toNat, UInt8.ofNat_toNat, UInt8.ofNat_toNat]

theorem encode_four {owed : Nat} {lead a b c : UInt8} (opens : Opens owed lead a)
    (notOne : owed ≠ 1) (notTwo : owed ≠ 2) (next : Tail b) (last : Tail c) :
    String.utf8EncodeChar (four lead a b c) = [lead, a, b, c] := by
  obtain ⟨low, high, short, greatest⟩ := opens.four notOne notTwo
  obtain ⟨aLow, aHigh⟩ := opens.tail
  obtain ⟨bLow, bHigh⟩ := next
  obtain ⟨cLow, cHigh⟩ := last
  have value : (four lead a b c).val.toNat = lead.toNat % 8 * 262144 + a.toNat % 64 * 4096 +
      b.toNat % 64 * 64 + c.toNat % 64 := by
    apply toNat_ofNat
    simp only [tailBits, Nat.isValidChar]
    omega
  generalize whole : lead.toNat % 8 * 262144 + a.toNat % 64 * 4096 + b.toNat % 64 * 64 +
    c.toNat % 64 = v at value
  have first : v / 262144 % 0x08 + 0xF0 = lead.toNat := by omega
  have second : v / 4096 % 0x40 + 0x80 = a.toNat := by omega
  have third : v / 64 % 0x40 + 0x80 = b.toNat := by omega
  have fourth : v % 0x40 + 0x80 = c.toNat := by omega
  simp only [String.utf8EncodeChar, value]
  rw [if_neg (by omega), if_neg (by omega), if_neg (by omega), first, second, third, fourth,
    UInt8.ofNat_toNat, UInt8.ofNat_toNat, UInt8.ofNat_toNat, UInt8.ofNat_toNat]

/-- A character that was read put in front of the octets that are left. -/
theorem ofChars_seen {seen : List Char} {c : Char} {octets rest : Bytes}
    (encoded : String.utf8EncodeChar c = octets) :
    Bytes.ofChars (c :: seen).reverse ++ rest = Bytes.ofChars seen.reverse ++ (octets ++ rest) := by
  rw [List.reverse_cons, Bytes.ofChars_append, List.append_assoc, Bytes.ofChars_cons, encoded,
    Bytes.ofChars_nil, List.append_nil]

theorem decodeFrom_sound (index : Nat) (seen : List Char) (octets : Bytes) (chars : List Char)
    (read : decodeFrom index seen octets = .ok chars) :
    Bytes.ofChars chars = Bytes.ofChars seen.reverse ++ octets := by
  fun_induction decodeFrom index seen octets with
  | case1 index seen =>
      rw [← Except.ok.inj read, List.append_nil]
  | case2 index seen lead rest ascii ih =>
      have below : lead.toNat < 128 := UInt8.lt_iff_toNat_lt.mp ascii
      have value : (Char.ofNat lead.toNat).val.toNat = lead.toNat := toNat_ofNat (.inl (by omega))
      have encoded : String.utf8EncodeChar (Char.ofNat lead.toNat) = [lead] := by
        simp only [String.utf8EncodeChar, value]
        rw [if_pos (by omega), UInt8.ofNat_toNat]
      exact (ih read).trans (ofChars_seen encoded)
  | case6 index seen lead notAscii promise promised a rest kept owed ih =>
      have opens := Promise.opens promised kept
      rw [owed] at opens
      exact (ih read).trans (ofChars_seen (encode_two opens))
  | case9 index seen lead notAscii promise promised a kept notOne b rest tail owed ih =>
      have opens := Promise.opens promised kept
      rw [owed] at opens
      exact (ih read).trans (ofChars_seen (encode_three opens (isTail_tail (by simpa using tail))))
  | case12 index seen lead notAscii promise promised a kept notOne b next notTwo c rest last ih =>
      have opens := Promise.opens promised kept
      exact (ih read).trans (ofChars_seen (encode_four opens notOne notTwo
        (isTail_tail (by simpa using next)) (isTail_tail (by simpa using last))))
  | _ => cases read

/-- Octets that are read as a text are the octets of that text. -/
theorem decode_sound {octets : Bytes} {text : String} (read : decode octets = .ok text) :
    Bytes.ofString text = octets := by
  cases chars : decodeFrom 0 [] octets with
  | error fault =>
      rw [decode, chars] at read
      cases read
  | ok found =>
      rw [decode, chars] at read
      rw [← Except.ok.inj read, Bytes.ofString_ofList, decodeFrom_sound 0 [] octets found chars]
      rfl

end RingCache.Utf8
