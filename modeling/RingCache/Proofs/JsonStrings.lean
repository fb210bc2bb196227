import Mathlib.Tactic.SplitIfs
import RingCache.Json.Reader
import RingCache.Proofs.Utf8Text

/-!
Strings in JSON texts. What is written between quotes for a text is read back as that text: the
reader resolves each escape to the octets of the character that was escaped, and takes all other
octets as they are.
-/

namespace RingCache

namespace Bytes

def ofChars (chars : List Char) : Bytes := chars.flatMap String.utf8EncodeChar

@[simp]
theorem ofChars_nil : ofChars [] = [] := rfl

theorem ofChars_cons (c : Char) (chars : List Char) :
    ofChars (c :: chars) = String.utf8EncodeChar c ++ ofChars chars := rfl

@[simp]
theorem ofChars_append (front back : List Char) :
    ofChars (front ++ back) = ofChars front ++ ofChars back := List.flatMap_append

theorem ofString_ofList (chars : List Char) :
    Bytes.ofString (String.ofList chars) = ofChars chars := by
  rw [Bytes.ofString_eq, String.toList_ofList, ofChars]

/-- A character of ASCII is one octet. -/
theorem ofChars_ascii (c : Char) (chars : List Char) (ascii : c.toNat < 128) :
    ofChars (c :: chars) = UInt8.ofNat c.toNat :: ofChars chars := by
  have low : c.val.toNat ≤ 127 := Nat.le_of_lt_succ ascii
  rw [ofChars_cons, String.utf8EncodeChar, if_pos low]
  rfl

end Bytes

namespace Utf8

/-- No octet of a character beyond ASCII is an ASCII octet. -/
theorem encodeChar_beyond (c : Char) (beyond : 128 ≤ c.toNat) (octet : UInt8)
    (member : octet ∈ String.utf8EncodeChar c) : 128 ≤ octet := by
  have high : ¬ c.val.toNat ≤ 127 := Nat.not_le_of_lt beyond
  have scalar : c.val.toNat < 0xD800 ∨ 0xDFFF < c.val.toNat ∧ c.val.toNat < 0x110000 := c.valid
  have least (n : Nat) (above : 128 ≤ n) (below : n ≤ 255) : 128 ≤ UInt8.ofNat n :=
    ofNat_le 128 n (Nat.lt_succ_of_le below) above
  simp only [String.utf8EncodeChar] at member
  generalize c.val.toNat = v at high scalar member
  rw [if_neg high] at member
  split at member
  · simp only [List.mem_cons, List.not_mem_nil, or_false] at member
    rcases member with rfl | rfl <;> exact least _ (by omega) (by omega)
  · split at member
    · simp only [List.mem_cons, List.not_mem_nil, or_false] at member
      rcases member with rfl | rfl | rfl <;> exact least _ (by omega) (by omega)
    · simp only [List.mem_cons, List.not_mem_nil, or_false] at member
      rcases member with rfl | rfl | rfl | rfl <;> exact least _ (by omega) (by omega)

end Utf8

namespace Json

structure IsPlain (octet : UInt8) : Prop where
  printable : 32 ≤ octet
  no_quote : octet ≠ 34
  no_backslash : octet ≠ 92

theorem stringOctets_plain (p : Position) (seen : Bytes) (octet : UInt8) (rest : Bytes)
    (plain : IsPlain octet) :
    stringOctets p seen (octet :: rest) = stringOctets (p.past octet) (octet :: seen) rest := by
  rw [stringOctets, if_neg (UInt8.not_lt.mpr plain.printable)]
  · exact plain.no_quote
  all_goals intros; exact plain.no_backslash ‹octet = 92›

theorem stringOctets_plains (p : Position) (seen octets rest : Bytes)
    (plain : ∀ octet ∈ octets, IsPlain octet) :
    ∃ q, stringOctets p seen (octets ++ rest) = stringOctets q (octets.reverse ++ seen) rest := by
  induction octets generalizing p seen with
  | nil => exact ⟨p, rfl⟩
  | cons octet octets ih =>
      rw [List.forall_mem_cons] at plain
      obtain ⟨q, read⟩ := ih (p.past octet) (octet :: seen) plain.2
      refine ⟨q, ?_⟩
      rw [List.cons_append, stringOctets_plain p seen octet _ plain.1, read, List.reverse_cons,
        List.append_assoc, List.singleton_append]

theorem stringOctets_simple (p : Position) (seen rest : Bytes) (escape octet : UInt8)
    (simple : simpleEscape escape = some octet) :
    ∃ q, stringOctets p seen (92 :: escape :: rest) = stringOctets q (octet :: seen) rest := by
  -- The letter u alone is no escape: four more digits belong to it.
  have apart : escape ≠ 117 := by rintro rfl; contradiction
  refine ⟨p.pastAll [92, escape], ?_⟩
  rw [stringOctets]
  · simp only [simple]
  · intro _ _ _ _ _ same _; exact apart same
  · exact apart

theorem hexQuad_control : ∀ n < 32,
    hexQuad 48 48 (UInt8.ofNat (Bytes.hexDigit (n / 16)).toNat)
      (UInt8.ofNat (Bytes.hexDigit (n % 16)).toNat) = some n := by
  decide

theorem hexDigit_ascii : ∀ n < 16, (Bytes.hexDigit n).toNat < 128 := by decide

theorem stringOctets_hex (p : Position) (seen rest : Bytes) (a b c d : UInt8) (n : Nat)
    (value : hexQuad a b c d = some n) (small : n < 0xD800) :
    ∃ q, stringOctets p seen (92 :: 117 :: a :: b :: c :: d :: rest) =
      stringOctets q (pushChar (Char.ofNat n) seen) rest := by
  have trailing : isTrailing n = false := by simp [isTrailing]; omega
  have leading : isLeading n = false := by simp [isLeading]; omega
  refine ⟨p.pastAll [92, 117, a, b, c, d], ?_⟩
  rw [stringOctets, value]
  simp [trailing, leading]

theorem stringOctets_control (p : Position) (seen rest : Bytes) (c : Char)
    (control : c.toNat < 32) :
    ∃ q, stringOctets p seen (Bytes.ofChars ['\\', 'u', '0', '0', Bytes.hexDigit (c.toNat / 16),
        Bytes.hexDigit (c.toNat % 16)] ++ rest) =
      stringOctets q ((String.utf8EncodeChar c).reverse ++ seen) rest := by
  have high := hexDigit_ascii (c.toNat / 16) (by omega)
  have low := hexDigit_ascii (c.toNat % 16) (by omega)
  have read := stringOctets_hex p seen rest _ _ _ _ c.toNat (hexQuad_control c.toNat control)
    (Nat.lt_trans control (by decide))
  rw [pushChar, Char.ofNat_toNat] at read
  rw [Bytes.ofChars_ascii _ _ (by decide), Bytes.ofChars_ascii _ _ (by decide),
    Bytes.ofChars_ascii _ _ (by decide), Bytes.ofChars_ascii _ _ (by decide),
    Bytes.ofChars_ascii _ _ high, Bytes.ofChars_ascii _ _ low]
  exact read

theorem encodeChar_plain (c : Char) (printable : 32 ≤ c.toNat) (quote : c ≠ '"')
    (backslash : c ≠ '\\') (octet : UInt8) (member : octet ∈ String.utf8EncodeChar c) :
    IsPlain octet := by
  by_cases ascii : c.toNat < 128
  · have one := Bytes.ofChars_ascii c [] ascii
    rw [Bytes.ofChars_cons, Bytes.ofChars_nil, List.append_nil] at one
    rw [one, List.mem_singleton] at member
    have whole : octet.toNat = c.toNat := by
      rw [member, UInt8.toNat_ofNat_of_lt' (Nat.lt_trans ascii (by decide))]
    have other (d : Char) (differs : c ≠ d) : octet.toNat ≠ d.toNat := by
      rw [whole]
      exact fun same => differs (Char.toNat_inj.mp same)
    refine ⟨?_, ?_, ?_⟩
    · rw [UInt8.le_iff_toNat_le, whole]; exact printable
    · rintro rfl; exact other '"' quote rfl
    · rintro rfl; exact other '\\' backslash rfl
  · have high := Utf8.encodeChar_beyond c (Nat.le_of_not_lt ascii) octet member
    refine ⟨UInt8.le_trans (by decide) high, ?_, ?_⟩ <;> rintro rfl <;>
      exact absurd high (by decide)

/-- The reader takes a written character as the octets of that character. -/
theorem stringOctets_char (p : Position) (seen rest : Bytes) (c : Char) :
    ∃ q, stringOctets p seen (Bytes.ofChars (escapeChar c) ++ rest) =
      stringOctets q ((String.utf8EncodeChar c).reverse ++ seen) rest := by
  rw [escapeChar]
  split_ifs with quote backslash newline carriage tab backspace feed control
  · subst quote; exact stringOctets_simple p seen rest 34 34 rfl
  · subst backslash; exact stringOctets_simple p seen rest 92 92 rfl
  · subst newline; exact stringOctets_simple p seen rest 110 10 rfl
  · subst carriage; exact stringOctets_simple p seen rest 114 13 rfl
  · subst tab; exact stringOctets_simple p seen rest 116 9 rfl
  · subst backspace; exact stringOctets_simple p seen rest 98 8 rfl
  · subst feed; exact stringOctets_simple p seen rest 102 12 rfl
  · exact stringOctets_control p seen rest c control
  · have plain := encodeChar_plain c (Nat.le_of_not_lt control) quote backslash
    rw [Bytes.ofChars_cons, Bytes.ofChars_nil, List.append_nil]
    exact stringOctets_plains p seen _ rest plain

theorem stringOctets_chars (p : Position) (seen rest : Bytes) (chars : List Char) :
    ∃ q, stringOctets p seen (Bytes.ofChars (chars.flatMap escapeChar) ++ 34 :: rest) =
      .ok (seen.reverse ++ Bytes.ofChars chars, ⟨rest, q⟩) := by
  induction chars generalizing p seen with
  | nil => exact ⟨p.past 34, by simp [stringOctets]⟩
  | cons c chars ih =>
      obtain ⟨q, first⟩ := stringOctets_char p seen
        (Bytes.ofChars (chars.flatMap escapeChar) ++ 34 :: rest) c
      obtain ⟨r, others⟩ := ih q ((String.utf8EncodeChar c).reverse ++ seen)
      refine ⟨r, ?_⟩
      rw [List.flatMap_cons, Bytes.ofChars_append, List.append_assoc, first, others,
        List.reverse_append, List.reverse_reverse, Bytes.ofChars_cons, List.append_assoc]

/-- A written string is read as its text, up to the closing quote. -/
theorem readString_quoted (p : Position) (rest : Bytes) (text : String) :
    ∃ q, readString ⟨Bytes.ofChars (text.toList.flatMap escapeChar) ++ 34 :: rest, p⟩ =
      .ok (text, ⟨rest, q⟩) := by
  obtain ⟨q, read⟩ := stringOctets_chars p [] rest text.toList
  have chars : Utf8.decodeFrom 0 [] (Bytes.ofChars text.toList) = .ok text.toList :=
    Utf8.decodeFrom_chars text.toList [] 0
  refine ⟨q, ?_⟩
  simp [readString, read, bind, Except.bind, chars]

end Json

end RingCache
