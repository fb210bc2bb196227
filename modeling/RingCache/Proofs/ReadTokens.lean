import Mathlib.Data.Nat.Digits.Defs
import RingCache.Proofs.JsonValues
import RingCache.Proofs.Utf8Reading

/-!
The room that tokens take in a JSON text. Whatever was read as a number, a string or a word is
written in no more octets than were read: a writer escapes a character only where a text must, and
writes an integer without further zeros.
-/

namespace RingCache.Json

/-- A reading in two steps has a first one. -/
theorem bind_ok {α β : Type} {first : Except Fault α} {next : α → Except Fault β} {result : β}
    (read : first >>= next = .ok result) :
    ∃ value, first = .ok value ∧ next value = .ok result := by
  cases first with
  | error fault => cases read
  | ok value => exact ⟨value, rfl, read⟩

theorem map_ok {α β : Type} {first : Except Fault α} {change : α → β} {result : β}
    (read : first.map change = .ok result) :
    ∃ value, first = .ok value ∧ change value = result := by
  cases first with
  | error fault => cases read
  | ok value => exact ⟨value, rfl, Except.ok.inj read⟩

mutual

/-- The octets of a document's text, of which a double counts for one. -/
def weight : Json → Nat
  | .float _ => 1
  | .array items => 1 + max 1 (weightItems items)
  | .object members => 1 + max 1 (weightMembers members)
  | flat => (Bytes.ofChars flat.print).length

def weightItems : List Json → Nat
  | [] => 0
  | item :: rest => weight item + 1 + weightItems rest

def weightMembers : List (String × Json) → Nat
  | [] => 0
  | (key, value) :: rest =>
      (Bytes.ofChars (quoted key)).length + 1 + weight value + 1 + weightMembers rest

end

abbrev Legible (document : Json) : Prop := Formed (fun _ => True) Ascending document

theorem Cursor.next_le (c : Cursor) : c.next.rest.length ≤ c.rest.length := by
  unfold next
  split
  · exact Nat.le_refl _
  · next rest => simp [rest]

theorem Cursor.next_lt (c : Cursor) {octet : UInt8} {rest : Bytes} (more : c.rest = octet :: rest) :
    c.next.rest.length + 1 = c.rest.length := by
  rw [next, more]
  rfl

theorem skipFrom_le (p : Position) (octets : Bytes) :
    (skipFrom p octets).rest.length ≤ octets.length := by
  induction octets generalizing p with
  | nil => exact Nat.le_refl _
  | cons octet octets ih =>
      rw [skipFrom]
      split
      · exact (ih _).trans (Nat.le_succ _)
      · exact Nat.le_refl _

theorem Cursor.skipBlank_le (c : Cursor) : c.skipBlank.rest.length ≤ c.rest.length :=
  skipFrom_le c.place c.rest

theorem readWord_takes (word : Bytes) (c after : Cursor) (read : readWord word c = .ok after) :
    after.rest.length + word.length = c.rest.length := by
  induction word generalizing c with
  | nil =>
      rw [← Except.ok.inj read]
      rfl
  | cons expected word ih =>
      rw [readWord] at read
      split at read
      · cases read
      · next octet rest more =>
          split at read
          · rw [List.length_cons, ← Nat.add_assoc, ih _ read]
            exact c.next_lt more
          · cases read

theorem digitValue_le {octet : UInt8} (digit : isDigit octet = true) : digitValue octet ≤ 9 := by
  simp only [isDigit, Bool.and_eq_true, decide_eq_true_eq, UInt8.le_iff_toNat_le,
    UInt8.reduceToNat] at digit
  rw [digitValue]
  omega

theorem Significand.push_value (s : Significand) (digit : Nat) (small : digit ≤ 9)
    (held : s.value < 2 ^ 64) :
    (s.push digit).value < 2 ^ 64 ∧ (s.push digit).value + 1 ≤ (s.value + 1) * 10 := by
  unfold push
  split
  · next fits =>
      simp only [Bool.and_eq_true, decide_eq_true_eq] at fits
      exact ⟨fits.2, by dsimp only; omega⟩
  · exact ⟨held, by dsimp only; omega⟩

/-- The digits that were taken bound what was read of them. -/
theorem takeDigits_value (s : Significand) (p : Position) (octets : Bytes)
    (held : s.value < 2 ^ 64) :
    ∃ taken, (takeDigits s p octets).2.rest.length + taken = octets.length ∧
      (takeDigits s p octets).1.value < 2 ^ 64 ∧
      (takeDigits s p octets).1.value + 1 ≤ (s.value + 1) * 10 ^ taken := by
  induction octets generalizing s p with
  | nil => exact ⟨0, rfl, held, by simp [takeDigits]⟩
  | cons octet octets ih =>
      rw [takeDigits]
      split
      · next digit =>
          obtain ⟨fits, grown⟩ := s.push_value _ (digitValue_le digit) held
          obtain ⟨taken, room, most, bound⟩ := ih _ (p.past octet) fits
          refine ⟨taken + 1, by rw [List.length_cons, ← room, Nat.add_assoc], most, ?_⟩
          calc _ ≤ ((s.push (digitValue octet)).value + 1) * 10 ^ taken := bound
            _ ≤ (s.value + 1) * 10 * 10 ^ taken := Nat.mul_le_mul_right _ grown
            _ = (s.value + 1) * 10 ^ (taken + 1) := by rw [Nat.pow_succ', Nat.mul_assoc]
      · exact ⟨0, rfl, held, by simp⟩

theorem takeDigits_le (s : Significand) (p : Position) (octets : Bytes) :
    (takeDigits s p octets).2.rest.length ≤ octets.length := by
  induction octets generalizing s p with
  | nil => exact Nat.le_refl _
  | cons octet octets ih =>
      rw [takeDigits]
      split
      · exact (ih _ _).trans (Nat.le_succ _)
      · exact Nat.le_refl _

theorem takeExponent_le (e : ExponentDigits) (p : Position) (octets : Bytes) :
    (takeExponent e p octets).2.rest.length ≤ octets.length := by
  induction octets generalizing e p with
  | nil => exact Nat.le_refl _
  | cons octet octets ih =>
      rw [takeExponent]
      split
      · split
        · exact (ih _ _).trans (Nat.le_succ _)
        · dsimp only
          split <;> exact (ih _ _).trans (Nat.le_succ _)
      · exact Nat.le_refl _

def ReadsDouble (c : Cursor) (document : Json) (after : Cursor) : Prop :=
  (∃ value, document = .float value) ∧ after.rest.length ≤ c.rest.length

theorem ReadsDouble.from {c earlier after : Cursor} {document : Json}
    (reads : ReadsDouble c document after) (less : c.rest.length ≤ earlier.rest.length) :
    ReadsDouble earlier document after := ⟨reads.1, reads.2.trans less⟩

theorem floatOf_reads {negative : Bool} {significand : Nat} {exponent : Int} {c after : Cursor}
    {document : Json} (read : floatOf negative significand exponent c = .ok (document, after)) :
    ReadsDouble c document after := by
  unfold floatOf at read
  split at read
  · cases read
  · cases read
    exact ⟨⟨_, rfl⟩, Nat.le_refl _⟩

theorem readExponent_reads {negative : Bool} {significand : Nat} {base : Int} {c after : Cursor}
    {document : Json} (read : readExponent negative significand base c = .ok (document, after)) :
    ReadsDouble c document after := by
  cases more : c.next.rest with
  | nil => simp [readExponent, more] at read
  | cons octet rest =>
      simp only [readExponent, more] at read
      generalize signed : (if (decide (octet = 43) || decide (octet = 45)) = true then c.next.next
        else c.next) = behind at read
      have less : behind.rest.length ≤ c.rest.length := by
        rw [← signed]
        split
        · exact c.next.next_le.trans c.next_le
        · exact c.next_le
      have taken := (takeExponent_le ⟨0, none⟩ behind.place behind.rest).trans less
      split at read
      · cases read
      · split at read
        · cases read
        · split at read
          · split at read
            · cases read
            · cases read
              exact ⟨⟨_, rfl⟩, taken⟩
          · exact (floatOf_reads read).from taken

theorem readFraction_reads {negative : Bool} {whole : Significand} {c after : Cursor}
    {document : Json} (read : readFraction negative whole c = .ok (document, after)) :
    ReadsDouble c document after := by
  simp only [readFraction] at read
  have taken := (takeDigits_le ⟨whole.value, 0, 0⟩ c.next.place c.next.rest).trans c.next_le
  split at read
  · split at read <;> cases read
  · split at read
    · exact (readExponent_reads read).from taken
    · exact (readExponent_reads read).from taken
    · exact (floatOf_reads read).from taken

/-- What follows the digits of a number makes it a double, or nothing of the number is left. -/
theorem readTail_reads {negative : Bool} {s : Significand} {c after : Cursor} {document : Json}
    (read : readTail negative s c = .ok (document, after)) :
    ReadsDouble c document after ∨ after = c ∧
      (negative = false ∧ document = .int s.value ∨
        negative = true ∧ 0 < s.value ∧ s.value ≤ 2 ^ 63 ∧ document = .int (-s.value)) := by
  unfold readTail at read
  split at read
  · exact .inl (readFraction_reads read)
  · exact .inl (readExponent_reads read)
  · exact .inl (readExponent_reads read)
  · split at read
    · exact .inl (floatOf_reads read)
    · split at read
      · next positive =>
          cases read
          exact .inr ⟨rfl, .inl ⟨by simpa using positive, rfl⟩⟩
      · next signed =>
          split at read
          · cases read
            exact .inl ⟨⟨_, rfl⟩, Nat.le_refl _⟩
          · next fits =>
              cases read
              obtain ⟨nonzero, most⟩ := not_or.mp fits
              exact .inr ⟨rfl, .inr ⟨by simpa using signed, Nat.pos_of_ne_zero nonzero,
                Nat.le_of_not_lt most, rfl⟩⟩

theorem length_ofChars_digits (chars : List Char) (all : ∀ c ∈ chars, c.isDigit = true) :
    (Bytes.ofChars chars).length = chars.length := by
  induction chars with
  | nil => rfl
  | cons c chars ih =>
      obtain ⟨digit, others⟩ := List.forall_mem_cons.mp all
      rw [ofChars_digit digit, List.length_cons, List.length_cons, ih others]

/-- An integer has no more digits than the power of ten that it is below. -/
theorem weight_int (value : Int) (taken : Nat) (taking : 0 < taken)
    (bound : value.natAbs < 10 ^ taken) :
    weight (.int value) ≤ taken + (decide (value < 0)).toNat := by
  have digits := length_ofChars_digits _ (toDigits_all value.natAbs)
  have few := (Nat.length_toDigits_le_iff (by decide) taking).mpr bound
  change (Bytes.ofChars (print (.int value))).length ≤ _
  rw [print_int]
  by_cases below : value < 0
  · rw [decide_eq_true below, if_pos rfl, Bytes.ofChars_ascii _ _ (by decide), List.length_cons,
      digits]
    exact Nat.succ_le_succ few
  · rw [decide_eq_false below, if_neg (by decide), digits]
    exact few

structure NumberRead (negative : Bool) (c : Cursor) (document : Json) (after : Cursor) : Prop where
  legible : Legible document
  flat : document.depth = 0
  weight : document.weight + after.rest.length ≤ c.rest.length + negative.toNat

theorem ReadsDouble.number {negative : Bool} {c later after : Cursor} {document : Json}
    (reads : ReadsDouble later document after) (less : later.rest.length + 1 ≤ c.rest.length) :
    NumberRead negative c document after := by
  obtain ⟨⟨value, rfl⟩, taken⟩ := reads
  refine ⟨.float value trivial, rfl, ?_⟩
  rw [Json.weight]
  omega

theorem readTail_number {negative : Bool} {s : Significand} {c later after : Cursor}
    {document : Json} (read : readTail negative s later = .ok (document, after)) (taken : Nat)
    (taking : 0 < taken) (room : later.rest.length + taken ≤ c.rest.length)
    (small : s.value < 2 ^ 64) (bound : s.value < 10 ^ taken) :
    NumberRead negative c document after := by
  rcases readTail_reads read with double |
    ⟨rfl, ⟨rfl, rfl⟩ | ⟨rfl, positive, most, rfl⟩⟩
  · exact double.number (by omega)
  · have weight := weight_int s.value taken taking bound
    refine ⟨.int _ (by omega) (by omega), rfl, ?_⟩
    rw [decide_eq_false (by omega)] at weight
    exact (Nat.add_le_add_right weight _).trans (by simp only [Bool.toNat_false]; omega)
  · have weight := weight_int (-s.value) taken taking (by rwa [Int.natAbs_neg, Int.natAbs_natCast])
    refine ⟨.int _ (by omega) (by omega), rfl, ?_⟩
    rw [decide_eq_true (by omega)] at weight
    exact (Nat.add_le_add_right weight _).trans (by simp only [Bool.toNat_true]; omega)

theorem readNumber_reads {negative : Bool} {c after : Cursor} {document : Json}
    (read : readNumber negative c = .ok (document, after)) :
    NumberRead negative c document after := by
  unfold readNumber at read
  split at read
  · cases read
  · next octet rest more =>
      have next := c.next_lt more
      split at read
      · -- A zero stands alone.
        have zero (tail : readTail negative ⟨0, 1, 0⟩ c.next = .ok (document, after)) :=
          readTail_number tail 1 Nat.one_pos (Nat.le_of_eq next) (by decide) (by decide)
        dsimp only at read
        split at read
        · split at read
          · cases read
          · exact zero read
        · exact zero read
      · split at read
        · next digit =>
            obtain ⟨taken, room, small, bound⟩ :=
              takeDigits_value ⟨0, 0, 0⟩ c.place c.rest (by decide)
            have taking : 0 < taken := by
              have fewer := takeDigits_le (Significand.push ⟨0, 0, 0⟩ (digitValue octet))
                (c.place.past octet) rest
              rw [more, takeDigits, if_pos digit] at room
              rw [List.length_cons] at room
              omega
            rw [Nat.zero_add, Nat.one_mul] at bound
            exact readTail_number read taken taking (Nat.le_of_eq room) small bound
        · cases read

def escapedLength (octet : UInt8) : Nat :=
  if octet = 34 ∨ octet = 92 ∨ octet = 8 ∨ octet = 9 ∨ octet = 10 ∨ octet = 12 ∨ octet = 13 then 2
  else if octet < 32 then 6
  else 1

def escapedRoom (octets : Bytes) : Nat := (octets.map escapedLength).sum

theorem escapedRoom_cons (octet : UInt8) (octets : Bytes) :
    escapedRoom (octet :: octets) = escapedLength octet + escapedRoom octets := rfl

theorem escapedRoom_append (front back : Bytes) :
    escapedRoom (front ++ back) = escapedRoom front + escapedRoom back := by
  rw [escapedRoom, List.map_append, List.sum_append]
  rfl

theorem escapedRoom_reverse (octets : Bytes) : escapedRoom octets.reverse = escapedRoom octets := by
  rw [escapedRoom, List.map_reverse, List.sum_reverse]
  rfl

theorem escapedLength_le (octet : UInt8) : escapedLength octet ≤ 6 := by
  unfold escapedLength
  split
  · decide
  · split <;> decide

theorem escapedLength_plain {octet : UInt8} (quote : octet ≠ 34) (backslash : octet ≠ 92)
    (printable : 32 ≤ octet) : escapedLength octet = 1 := by
  have apart (low : UInt8) (control : low < 32) : octet ≠ low := by
    rintro rfl
    exact UInt8.not_lt.mpr printable control
  rw [escapedLength, if_neg, if_neg (UInt8.not_lt.mpr printable)]
  simp only [quote, backslash, false_or, not_or]
  exact ⟨apart 8 (by decide), apart 9 (by decide), apart 10 (by decide), apart 12 (by decide),
    apart 13 (by decide)⟩

theorem escapedRoom_beyond (octets : Bytes) (beyond : ∀ octet ∈ octets, 128 ≤ octet) :
    escapedRoom octets = octets.length := by
  induction octets with
  | nil => rfl
  | cons octet octets ih =>
      obtain ⟨high, others⟩ := List.forall_mem_cons.mp beyond
      have apart (low : UInt8) (ascii : low < 128) : octet ≠ low := by
        rintro rfl
        exact UInt8.not_lt.mpr high ascii
      have one := escapedLength_plain (apart 34 (by decide)) (apart 92 (by decide))
        (UInt8.le_trans (by decide) high)
      rw [escapedRoom_cons, one, ih others, List.length_cons, Nat.add_comm]

/-- A character is escaped in as many octets as its octets are. -/
theorem length_escapeChar (c : Char) :
    (Bytes.ofChars (escapeChar c)).length = escapedRoom (String.utf8EncodeChar c) := by
  by_cases ascii : c.toNat < 128
  · have all : ∀ n < 128, (Bytes.ofChars (escapeChar (Char.ofNat n))).length =
        escapedRoom (String.utf8EncodeChar (Char.ofNat n)) := by
      decide +kernel
    have same := all c.toNat ascii
    rwa [Char.ofNat_toNat] at same
  · have beyond := Nat.le_of_not_lt ascii
    have itself : escapeChar c = [c] := by
      have apart (d : Char) (low : d.toNat < 128) : c ≠ d := by
        rintro rfl
        exact ascii low
      rw [escapeChar, if_neg (apart _ (by decide)), if_neg (apart _ (by decide)),
        if_neg (apart _ (by decide)), if_neg (apart _ (by decide)), if_neg (apart _ (by decide)),
        if_neg (apart _ (by decide)), if_neg (apart _ (by decide)), if_neg (by omega)]
    rw [itself, escapedRoom_beyond _ (Utf8.encodeChar_beyond c beyond), Bytes.ofChars_cons,
      Bytes.ofChars_nil, List.append_nil]

theorem escapedRoom_encodeChar (c : Char) : escapedRoom (String.utf8EncodeChar c) ≤ 6 := by
  by_cases ascii : c.toNat < 128
  · have one := Bytes.ofChars_ascii c [] ascii
    rw [Bytes.ofChars_cons, Bytes.ofChars_nil, List.append_nil] at one
    rw [one]
    exact escapedLength_le _
  · rw [escapedRoom_beyond _ (Utf8.encodeChar_beyond c (Nat.le_of_not_lt ascii)),
      String.length_utf8EncodeChar]
    exact c.utf8Size_le_four.trans (by decide)

theorem length_quoted (text : String) :
    (Bytes.ofChars (quoted text)).length = escapedRoom (Bytes.ofString text) + 2 := by
  have inner (chars : List Char) : (Bytes.ofChars (chars.flatMap escapeChar)).length =
      escapedRoom (Bytes.ofChars chars) := by
    induction chars with
    | nil => rfl
    | cons c chars ih =>
        rw [List.flatMap_cons, Bytes.ofChars_append, List.length_append, length_escapeChar, ih,
          Bytes.ofChars_cons, escapedRoom_append]
  rw [quoted, List.cons_append, Bytes.ofChars_ascii _ _ (by decide), Bytes.ofChars_append,
    List.length_cons, List.length_append, inner, Bytes.ofString_eq]
  rfl

theorem escapedRoom_pushChar (c : Char) (seen : Bytes) :
    escapedRoom (pushChar c seen) ≤ escapedRoom seen + 6 := by
  rw [pushChar, escapedRoom_append, escapedRoom_reverse, Nat.add_comm]
  exact Nat.add_le_add_left (escapedRoom_encodeChar c) _

theorem simpleEscape_length {escape octet : UInt8} (simple : simpleEscape escape = some octet) :
    escapedLength octet ≤ 2 := by
  unfold simpleEscape at simple
  split_ifs at simple with itself <;> cases simple
  · simp only [Bool.or_eq_true, decide_eq_true_eq] at itself
    rcases itself with (rfl | rfl) | rfl <;> decide
  all_goals decide

/-- What the octets of a string are escaped as is no longer than what they were read from. -/
theorem stringOctets_takes {p : Position} {seen octets out : Bytes} {after : Cursor}
    (read : stringOctets p seen octets = .ok (out, after)) :
    escapedRoom out + 1 + after.rest.length ≤ escapedRoom seen + octets.length := by
  fun_induction stringOctets p seen octets with
  | case2 p seen rest =>
      cases read
      rw [escapedRoom_reverse, List.length_cons]
      dsimp only
      omega
  | case5 p seen a b c d rest place low quad notTrailing notLeading ih =>
      have pushed := escapedRoom_pushChar (Char.ofNat low) seen
      have later := ih read
      simp only [List.length_cons]
      omega
  | case9 p seen a b c d place high quad notTrailing leading a' b' c' d' rest place' low quad'
      trailing ih =>
      have pushed := escapedRoom_pushChar (joined high low) seen
      have later := ih read
      simp only [List.length_cons]
      omega
  | case15 p seen escape rest notQuad notUnit place octet simple ih =>
      have short := simpleEscape_length simple
      have later := ih read
      rw [escapedRoom_cons] at later
      simp only [List.length_cons]
      omega
  | case19 p seen octet rest notQuote _ _ notEscape notLast printable ih =>
      have notBackslash : octet ≠ 92 := by
        rintro rfl
        cases rest with
        | nil => exact notLast rfl rfl
        | cons escape rest => exact notEscape escape rest rfl rfl
      have one := escapedLength_plain notQuote notBackslash (UInt8.not_lt.mp printable)
      have later := ih read
      rw [escapedRoom_cons, one] at later
      simp only [List.length_cons]
      omega
  | _ => cases read

/-- A string is written in no more octets than it was read from, its opening quote not counted. -/
theorem readString_takes {c after : Cursor} {text : String}
    (read : readString c = .ok (text, after)) :
    (Bytes.ofChars (quoted text)).length + after.rest.length ≤ c.rest.length + 1 := by
  obtain ⟨⟨octets, behind⟩, body, read⟩ := bind_ok read
  have taken := stringOctets_takes body
  dsimp only at read
  split at read
  · next chars decoded =>
      cases read
      rw [length_quoted, Bytes.ofString_ofList, Utf8.decodeFrom_sound _ _ _ _ decoded]
      change escapedRoom octets + 2 + after.rest.length ≤ _
      change _ ≤ 0 + c.rest.length at taken
      omega
  · cases read

end RingCache.Json
