/-!
Octet strings. Keys, stored values and message bodies all travel as lists of octets; a text is
its UTF-8 encoding. Little-endian fields and hexadecimal text are the two ways in which numbers
and octets are written elsewhere in the library.
-/

namespace RingCache

abbrev Bytes := List UInt8

namespace Bytes

def ofString (text : String) : Bytes := text.toUTF8.toList

def littleEndian : (width : Nat) → Nat → Bytes
  | 0, _ => []
  | width + 1, n => UInt8.ofNat (n % 256) :: littleEndian width (n / 256)

def ofLittleEndian : Bytes → Nat
  | [] => 0
  | octet :: rest => octet.toNat + 256 * ofLittleEndian rest

theorem length_littleEndian (width n : Nat) : (littleEndian width n).length = width := by
  induction width generalizing n with
  | zero => rfl
  | succ width ih => simp [littleEndian, ih]

theorem ofLittleEndian_littleEndian (width n : Nat) :
    ofLittleEndian (littleEndian width n) = n % Nat.pow 256 width := by
  induction width generalizing n with
  | zero => exact (Nat.mod_one n).symm
  | succ width ih =>
      have octet : (UInt8.ofNat (n % 256)).toNat = n % 256 := by
        rw [UInt8.toNat_ofNat', Nat.mod_mod]
      have power : Nat.pow 256 (width + 1) = 256 * Nat.pow 256 width := Nat.pow_succ'
      rw [littleEndian, ofLittleEndian, ih, octet, power, Nat.mod_mul]

def hexDigit (n : Nat) : Char :=
  if n < 10 then Char.ofNat (48 + n) else Char.ofNat (87 + n)

def hexValue (c : Char) : Option Nat :=
  if '0' ≤ c ∧ c ≤ '9' then some (c.toNat - 48)
  else if 'a' ≤ c ∧ c ≤ 'f' then some (c.toNat - 87)
  else if 'A' ≤ c ∧ c ≤ 'F' then some (c.toNat - 55)
  else none

def hex (bytes : Bytes) : String :=
  String.ofList <| bytes.flatMap fun octet =>
    [hexDigit (octet.toNat / 16), hexDigit (octet.toNat % 16)]

def ofHex? (text : String) : Option Bytes :=
  go [] text.toList
where
  go (seen : Bytes) : List Char → Option Bytes
    | [] => some seen.reverse
    | [_] => none
    | high :: low :: rest => do
        let octet := UInt8.ofNat (16 * (← hexValue high) + (← hexValue low))
        go (octet :: seen) rest

def hexDigits (count n : Nat) : String :=
  String.ofList <| (List.range count).reverse.map fun place => hexDigit (n / Nat.pow 16 place % 16)

end Bytes

end RingCache
