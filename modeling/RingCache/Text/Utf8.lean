import RingCache.Bytes

/-!
Reading UTF-8. A lead byte fixes how many continuation bytes it owes and narrows the range of the
first of them, which rules out overlong forms and surrogates. A fault names the first byte that
starts no character and how many bytes the broken sequence spans; a sequence that the input cuts
short has no span.
-/

namespace RingCache.Utf8

structure Fault where
  start : Nat
  /-- Bytes of the sequence that were read; `none` when the input ends inside a character. -/
  span : Option Nat
  deriving DecidableEq, Repr

def Fault.message (fault : Fault) : String :=
  match fault.span with
  | some span => s!"invalid utf-8 sequence of {span} bytes from index {fault.start}"
  | none => s!"incomplete utf-8 byte sequence from index {fault.start}"

structure Promise where
  owed : Nat
  low : UInt8
  high : UInt8

/-- The lead bytes of sequences longer than one byte; `none` for a byte that leads nothing. -/
def Promise.ofLead (lead : UInt8) : Option Promise :=
  if lead < 0xC2 then none
  else if lead ≤ 0xDF then some ⟨1, 0x80, 0xBF⟩
  else if lead = 0xE0 then some ⟨2, 0xA0, 0xBF⟩
  else if lead = 0xED then some ⟨2, 0x80, 0x9F⟩
  else if lead ≤ 0xEF then some ⟨2, 0x80, 0xBF⟩
  else if lead = 0xF0 then some ⟨3, 0x90, 0xBF⟩
  else if lead ≤ 0xF3 then some ⟨3, 0x80, 0xBF⟩
  else if lead = 0xF4 then some ⟨3, 0x80, 0x8F⟩
  else none

def isTail (octet : UInt8) : Bool := 0x80 ≤ octet && octet ≤ 0xBF

def tailBits (octet : UInt8) : Nat := octet.toNat % 64

def two (lead a : UInt8) : Char := Char.ofNat (lead.toNat % 32 * 64 + tailBits a)

def three (lead a b : UInt8) : Char :=
  Char.ofNat (lead.toNat % 16 * 4096 + tailBits a * 64 + tailBits b)

def four (lead a b c : UInt8) : Char :=
  Char.ofNat (lead.toNat % 8 * 262144 + tailBits a * 4096 + tailBits b * 64 + tailBits c)

def decodeFrom (index : Nat) (seen : List Char) : Bytes → Except Fault (List Char)
  | [] => .ok seen.reverse
  | lead :: rest =>
      if lead < 0x80 then decodeFrom (index + 1) (Char.ofNat lead.toNat :: seen) rest
      else match Promise.ofLead lead with
        | none => .error ⟨index, some 1⟩
        | some promise => match rest with
          | [] => .error ⟨index, none⟩
          | a :: rest =>
              if a < promise.low || promise.high < a then .error ⟨index, some 1⟩
              else if promise.owed = 1 then decodeFrom (index + 2) (two lead a :: seen) rest
              else match rest with
                | [] => .error ⟨index, none⟩
                | b :: rest =>
                    if !isTail b then .error ⟨index, some 2⟩
                    else if promise.owed = 2 then
                      decodeFrom (index + 3) (three lead a b :: seen) rest
                    else match rest with
                      | [] => .error ⟨index, none⟩
                      | c :: rest =>
                          if !isTail c then .error ⟨index, some 3⟩
                          else decodeFrom (index + 4) (four lead a b c :: seen) rest

def decode (bytes : Bytes) : Except Fault String :=
  (decodeFrom 0 [] bytes).map String.ofList

end RingCache.Utf8
