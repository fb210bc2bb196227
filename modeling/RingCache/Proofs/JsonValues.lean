import RingCache.Proofs.DoubleText

/-!
Documents that can be values: integers are those that 64 bits can hold, with or without a sign,
doubles are finite, and objects list each key once, in order. Values that open no array and no
object are read back from their text, a double as some double.
-/

namespace RingCache.Json

/-- Documents of integers of 64 bits, with doubles of some kind and objects of some lists of keys.
-/
inductive Formed (double : Binary64 → Prop) (keyed : List String → Prop) : Json → Prop where
  | null : Formed double keyed .null
  | bool (value : Bool) : Formed double keyed (.bool value)
  | int (value : Int) (low : -2 ^ 63 ≤ value) (high : value < 2 ^ 64) :
      Formed double keyed (.int value)
  | float (value : Binary64) (held : double value) : Formed double keyed (.float value)
  | string (value : String) : Formed double keyed (.string value)
  | array (items : List Json) (each : ∀ item ∈ items, Formed double keyed item) :
      Formed double keyed (.array items)
  | object (members : List (String × Json)) (keys : keyed (members.map (·.1)))
      (each : ∀ member ∈ members, Formed double keyed member.2) :
      Formed double keyed (.object members)

theorem Formed.mono {double double' : Binary64 → Prop} {keyed keyed' : List String → Prop}
    (doubles : ∀ value, double value → double' value) (lists : ∀ keys, keyed keys → keyed' keys)
    {document : Json} (formed : Formed double keyed document) : Formed double' keyed' document := by
  induction formed with
  | null => exact .null
  | bool value => exact .bool value
  | int value low high => exact .int value low high
  | float value held => exact .float value (doubles value held)
  | string value => exact .string value
  | array items _ each => exact .array items each
  | object members keys _ each => exact .object members (lists _ keys) each

def Ascending (keys : List String) : Prop := keys.Pairwise (· < ·)

def Representable (document : Json) : Prop := Formed Binary64.IsFinite Ascending document

def Exact (document : Json) : Prop := Formed (fun _ => False) Ascending document

theorem Exact.representable {document : Json} (exact : Exact document) : Representable document :=
  exact.mono (fun _ rounded => rounded.elim) fun _ keys => keys

mutual

/-- How many arrays and objects are open at a time. -/
def depth : Json → Nat
  | .array items => depthItems items + 1
  | .object members => depthMembers members + 1
  | _ => 0

def depthItems : List Json → Nat
  | [] => 0
  | item :: rest => max (depth item) (depthItems rest)

def depthMembers : List (String × Json) → Nat
  | [] => 0
  | (_, value) :: rest => max (depth value) (depthMembers rest)

end

def Begins (octet : UInt8) : Prop := isSpace octet = false ∧ octet ≠ 93

theorem skipBlank_begins {octet : UInt8} (begins : isSpace octet = false) (rest : Bytes)
    (p : Position) : Cursor.skipBlank ⟨octet :: rest, p⟩ = ⟨octet :: rest, p⟩ := by
  simp [Cursor.skipBlank, skipFrom, begins]

theorem digit_begins {octet : UInt8} (digit : isDigit octet = true) :
    Begins octet ∧ octet ≠ 34 ∧ octet ≠ 91 ∧ octet ≠ 123 ∧ octet ≠ 45 := by
  have all : ∀ n < 256, isDigit (UInt8.ofNat n) = true →
      Begins (UInt8.ofNat n) ∧ UInt8.ofNat n ≠ 34 ∧ UInt8.ofNat n ≠ 91 ∧ UInt8.ofNat n ≠ 123 ∧
        UInt8.ofNat n ≠ 45 := by
    unfold Begins
    decide +kernel
  have self : UInt8.ofNat octet.toNat = octet := UInt8.ofNat_toNat
  rw [← self] at digit ⊢
  exact all octet.toNat octet.toNat_lt digit

/-- A number with its sign in front is read by its digits. -/
theorem readValue_number (negative : Bool) (c : Char) (others : List Char)
    (digit : c.isDigit = true) (fuel limit : Nat) (p : Position) (rest : Bytes) :
    ∃ q, readValue (fuel + 1) limit
        ⟨Bytes.ofChars (if negative then '-' :: c :: others else c :: others) ++ rest, p⟩ =
      readNumber negative ⟨Bytes.ofChars (c :: others) ++ rest, q⟩ := by
  cases negative with
  | true =>
      refine ⟨p.past 45, ?_⟩
      rw [if_pos rfl, ofChars_letter '-' _ rest (by decide), readValue,
        @skipBlank_begins (UInt8.ofNat '-'.toNat) rfl]
      rfl
  | false =>
      have octet := isDigit_octet digit
      obtain ⟨⟨blank, -⟩, quote, bracket, brace, minus⟩ := digit_begins octet
      refine ⟨p, ?_⟩
      rw [if_neg (by decide), ofChars_digit digit, List.cons_append, readValue,
        skipBlank_begins blank]
      simp only [if_neg quote, if_neg bracket, if_neg brace, if_neg minus, if_pos octet]

theorem print_int (value : Int) : print (.int value) =
    if decide (value < 0) then '-' :: Nat.toDigits 10 value.natAbs
    else Nat.toDigits 10 value.natAbs := by
  rw [print, Int.toString_eq_repr, Int.repr_eq_if]
  by_cases below : value < 0
  · rw [if_neg (by omega), if_pos (by simpa using below), Nat.repr_eq_ofList_toDigits,
      show (-value).toNat = value.natAbs by omega]
    simp
  · rw [if_pos (by omega), if_neg (by simpa using below), Nat.repr_eq_ofList_toDigits,
      show value.toNat = value.natAbs by omega]
    simp

/-- The text of a value reads as the value, if the reader may open enough levels, and is too deep if
it may not. -/
def ReadsAs (document got : Json) : Prop :=
  ∀ (fuel limit : Nat) (p : Position) (rest : Bytes), 2 * document.print.length ≤ fuel →
    1 ≤ limit → Follows rest →
    (document.depth < limit → ∃ q,
      readValue fuel limit ⟨Bytes.ofChars document.print ++ rest, p⟩ = .ok (got, ⟨rest, q⟩)) ∧
    (limit ≤ document.depth → ∃ place,
      readValue fuel limit ⟨Bytes.ofChars document.print ++ rest, p⟩ = .error ⟨.tooDeep, place⟩)

/-- Values that open nothing are read at any limit. -/
theorem ReadsAs.flat (document got : Json) (flat : document.depth = 0)
    (printed : document.print ≠ [])
    (read : ∀ (fuel limit : Nat) (p : Position) (rest : Bytes), Follows rest → ∃ q,
      readValue (fuel + 1) limit ⟨Bytes.ofChars document.print ++ rest, p⟩ =
        .ok (got, ⟨rest, q⟩)) : ReadsAs document got := by
  intro fuel limit p rest enough positive follows
  have length := List.length_pos_of_ne_nil printed
  obtain ⟨fuel, rfl⟩ : ∃ n, fuel = n + 1 := ⟨fuel - 1, by omega⟩
  refine ⟨fun _ => read fuel limit p rest follows, fun deep => ?_⟩
  rw [flat] at deep
  omega

/-- A value that is one word. -/
theorem readsAs_word {document : Json} (word : Bytes) (filled : word ≠ [])
    (flat : document.depth = 0) (shape : Bytes.ofChars document.print = word)
    (read : ∀ (fuel limit : Nat) (p : Position) (rest : Bytes),
      readValue (fuel + 1) limit ⟨word ++ rest, p⟩ = .ok (document, ⟨rest, p.pastAll word⟩)) :
    ReadsAs document document := by
  refine .flat _ _ flat ?_ fun fuel limit p rest follows => ⟨p.pastAll word, ?_⟩
  · intro empty
    rw [empty] at shape
    exact filled shape.symm
  · rw [shape]
    exact read fuel limit p rest

theorem readsAs_null : ReadsAs .null .null := by
  refine readsAs_word [110, 117, 108, 108] (by decide) rfl (by decide) fun fuel limit p rest => ?_
  rw [List.cons_append, readValue, skipBlank_begins rfl]
  rfl

theorem readsAs_bool (value : Bool) : ReadsAs (.bool value) (.bool value) := by
  cases value with
  | true =>
      refine readsAs_word [116, 114, 117, 101] (by decide) rfl (by decide)
        fun fuel limit p rest => ?_
      rw [List.cons_append, readValue, skipBlank_begins rfl]
      rfl
  | false =>
      refine readsAs_word [102, 97, 108, 115, 101] (by decide) rfl (by decide)
        fun fuel limit p rest => ?_
      rw [List.cons_append, readValue, skipBlank_begins rfl]
      rfl

theorem readsAs_int (value : Int) (low : -2 ^ 63 ≤ value) (high : value < 2 ^ 64) :
    ReadsAs (.int value) (.int value) := by
  have shape := print_int value
  refine .flat _ _ rfl ?_ fun fuel limit p rest follows => ?_
  · rw [shape]
    split <;> simp [Nat.toDigits_ne_nil]
  · obtain ⟨c, others, lead, digit⟩ := (toDigits_whole value.natAbs).lead
    rw [lead] at shape
    obtain ⟨p', begun⟩ := readValue_number (decide (value < 0)) c others digit fuel limit p rest
    obtain ⟨q, read⟩ := readNumber_int value low high p' rest follows
    rw [lead] at read
    rw [shape, begun]
    exact ⟨q, read⟩

theorem readsAs_float (value : Binary64) (held : value.IsFinite) :
    ∃ got, ReadsAs (.float value) (.float got) := by
  obtain ⟨negative, m, p, small, least, most⟩ := held
  obtain ⟨chars, significand, exponent, numeral, ⟨scaled, fits⟩, written⟩ :=
    magnitude_numeral m p small least most
  obtain ⟨c, others, rfl, digit⟩ := numeral.lead
  have shape : print (.float (.finite negative m p)) =
      if negative then '-' :: c :: others else c :: others := by
    rw [print, written negative, String.toList_ofList]
  refine ⟨if negative then scaled.neg else scaled,
    .flat _ _ rfl ?_ fun fuel limit p rest follows => ?_⟩
  · rw [shape]
    split <;> simp
  · obtain ⟨p', begun⟩ := readValue_number negative c others digit fuel limit p rest
    obtain ⟨q, read⟩ := readNumber_numeral numeral negative p' rest follows
    refine ⟨q, ?_⟩
    rw [shape, begun, read, floatOf, fits]

theorem readsAs_string (value : String) : ReadsAs (.string value) (.string value) := by
  refine .flat _ _ rfl (by simp [print, quoted]) fun fuel limit p rest follows => ?_
  obtain ⟨q, read⟩ := readString_quoted (p.past 34) rest value
  refine ⟨q, ?_⟩
  have shape : Bytes.ofChars (print (.string value)) ++ rest =
      34 :: (Bytes.ofChars (value.toList.flatMap escapeChar) ++ 34 :: rest) := by
    have close : Bytes.ofChars ['"'] = [34] := by decide
    rw [print, quoted, List.cons_append, ofChars_letter '"' _ rest (by decide),
      Bytes.ofChars_append, close, List.append_assoc]
    rfl
  rw [shape, readValue, skipBlank_begins rfl]
  simp only [if_pos, Cursor.next, read]
  rfl

theorem number_begins (negative : Bool) {chars : List Char}
    (lead : ∃ c others, chars = c :: others ∧ c.isDigit = true) :
    ∃ octet tail, Bytes.ofChars (if negative then '-' :: chars else chars) = octet :: tail ∧
      Begins octet := by
  obtain ⟨c, others, rfl, digit⟩ := lead
  cases negative with
  | true => exact ⟨_, _, Bytes.ofChars_ascii '-' _ (by decide), rfl, by decide⟩
  | false => exact ⟨_, _, ofChars_digit digit others, (digit_begins (isDigit_octet digit)).1⟩

theorem Representable.begins {document : Json} (formed : Representable document) :
    ∃ octet tail, Bytes.ofChars document.print = octet :: tail ∧ Begins octet := by
  cases formed with
  | null => exact ⟨_, _, Bytes.ofChars_ascii 'n' _ (by decide), rfl, by decide⟩
  | bool value =>
      cases value with
      | true => exact ⟨_, _, Bytes.ofChars_ascii 't' _ (by decide), rfl, by decide⟩
      | false => exact ⟨_, _, Bytes.ofChars_ascii 'f' _ (by decide), rfl, by decide⟩
  | int value low high =>
      rw [print_int]
      exact number_begins _ (toDigits_whole _).lead
  | float value held =>
      obtain ⟨negative, m, p, small, least, most⟩ := held
      obtain ⟨chars, significand, exponent, numeral, -, written⟩ :=
        magnitude_numeral m p small least most
      rw [print, written negative, String.toList_ofList]
      exact number_begins negative numeral.lead
  | string value => exact ⟨_, _, Bytes.ofChars_ascii '"' _ (by decide), rfl, by decide⟩
  | array items each => exact ⟨_, _, Bytes.ofChars_ascii '[' _ (by decide), rfl, by decide⟩
  | object members keys each =>
      exact ⟨_, _, Bytes.ofChars_ascii '\x7b' _ (by decide), rfl, by decide⟩

theorem Representable.length_pos {document : Json} (formed : Representable document) :
    0 < document.print.length := by
  obtain ⟨octet, tail, shape, -⟩ := formed.begins
  refine List.length_pos_of_ne_nil fun empty => ?_
  rw [empty] at shape
  cases shape

end RingCache.Json
