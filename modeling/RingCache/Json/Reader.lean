import RingCache.Json.Basic
import RingCache.Json.Fault
import RingCache.Text.Utf8

/-!
Reading JSON texts. A cursor is the unread rest of the text with the position reached. Arrays and
objects may be nested 127 deep. An integer that 64 bits cannot hold, a fraction and an exponent give
a double: the significand keeps the digits that fit 64 bits, and powers of ten are applied to it in
double arithmetic, one rounding for each step.
-/

namespace RingCache.Json

structure Cursor where
  rest : Bytes
  place : Position

def Cursor.ofBytes (bytes : Bytes) : Cursor := ⟨bytes, .start⟩

abbrev Reading (α : Type) := Except Fault (α × Cursor)

def Cursor.fault (c : Cursor) (problem : Problem) : Fault := ⟨problem, some c.place⟩

/-- A fault that points behind the next byte, if there is one. -/
def Cursor.faultAhead (c : Cursor) (problem : Problem) : Fault :=
  match c.rest with
  | [] => ⟨problem, some c.place⟩
  | octet :: _ => ⟨problem, some (c.place.past octet)⟩

def Cursor.next (c : Cursor) : Cursor :=
  match c.rest with
  | [] => c
  | octet :: rest => ⟨rest, c.place.past octet⟩

def isSpace (octet : UInt8) : Bool := octet = 32 || octet = 10 || octet = 9 || octet = 13

def skipFrom (p : Position) : Bytes → Cursor
  | [] => ⟨[], p⟩
  | octet :: rest => if isSpace octet then skipFrom (p.past octet) rest else ⟨octet :: rest, p⟩

def Cursor.skipBlank (c : Cursor) : Cursor := skipFrom c.place c.rest

def readWord : (word : Bytes) → Cursor → Except Fault Cursor
  | [], c => .ok c
  | expected :: word, c => match c.rest with
    | [] => .error (c.fault .endInValue)
    | octet :: _ =>
        if octet = expected then readWord word c.next else .error (c.next.fault .expectedIdent)

def isDigit (octet : UInt8) : Bool := 48 ≤ octet && octet ≤ 57

def digitValue (octet : UInt8) : Nat := octet.toNat - 48

/-- Digits read into 64 bits; those that no longer fit are counted only. -/
structure Significand where
  value : Nat
  read : Nat
  dropped : Nat

def Significand.push (s : Significand) (digit : Nat) : Significand :=
  if s.dropped = 0 && s.value * 10 + digit < Nat.pow 2 64 then
    { s with value := s.value * 10 + digit, read := s.read + 1 }
  else { s with dropped := s.dropped + 1 }

def takeDigits (s : Significand) (p : Position) : Bytes → Significand × Cursor
  | [] => (s, ⟨[], p⟩)
  | octet :: rest =>
      if isDigit octet then takeDigits (s.push (digitValue octet)) (p.past octet) rest
      else (s, ⟨octet :: rest, p⟩)

def exponentStep : Nat := 308

def powerOfTen (exponent : Nat) : Binary64 := .ofDecimal false 1 exponent

/-- Applies a power of ten in double arithmetic; `none` when the result overflows. After `fuel`
divisions by the largest power the magnitude is zero. -/
def scale (magnitude : Binary64) (exponent : Int) : (fuel : Nat) → Option Binary64
  | 0 => some magnitude
  | fuel + 1 =>
      if exponent.natAbs ≤ exponentStep then
        if exponent ≥ 0 then
          match magnitude.mul (powerOfTen exponent.natAbs) with
          | .infinite _ => none
          | scaled => some scaled
        else some (magnitude.div (powerOfTen exponent.natAbs))
      else if magnitude.isZero then some magnitude
      else if exponent ≥ 0 then none
      else scale (magnitude.div (powerOfTen exponentStep)) (exponent + exponentStep) fuel

def floatOf (negative : Bool) (significand : Nat) (exponent : Int) (c : Cursor) : Reading Json :=
  match scale (.ofNat significand) exponent 8 with
  | none => .error (c.fault .numberOutOfRange)
  | some magnitude => .ok (.float (if negative then magnitude.neg else magnitude), c)

def exponentLimit : Nat := Nat.pow 2 31

/-- The digits of an exponent. `overflows` is the cursor behind the digit that passes the limit. -/
structure ExponentDigits where
  value : Nat
  overflows : Option Cursor

def takeExponent (e : ExponentDigits) (p : Position) : Bytes → ExponentDigits × Cursor
  | [] => (e, ⟨[], p⟩)
  | octet :: rest =>
      if isDigit octet then
        let value := e.value * 10 + digitValue octet
        match e.overflows with
        | some _ => takeExponent e (p.past octet) rest
        | none =>
            if value < exponentLimit then takeExponent ⟨value, none⟩ (p.past octet) rest
            else takeExponent ⟨e.value, some ⟨rest, p.past octet⟩⟩ (p.past octet) rest
      else (e, ⟨octet :: rest, p⟩)

def readExponent (negative : Bool) (significand : Nat) (base : Int) (c : Cursor) : Reading Json :=
  let c := c.next
  let (down, c) := match c.rest with
    | octet :: _ => (octet == 45, if octet = 43 || octet = 45 then c.next else c)
    | [] => (false, c)
  match c.rest with
  | [] => .error (c.fault .endInValue)
  | octet :: _ =>
      if !isDigit octet then .error (c.next.fault .invalidNumber)
      else
        let (e, c) := takeExponent ⟨0, none⟩ c.place c.rest
        match e.overflows with
        -- Zero stays zero, and what is divided by such a power vanishes.
        | some beyond =>
            if significand ≠ 0 ∧ !down then .error (beyond.fault .numberOutOfRange)
            else .ok (.float (if negative then Binary64.zero.neg else .zero), c)
        | none => floatOf negative significand (if down then base - e.value else base + e.value) c

def readFraction (negative : Bool) (whole : Significand) (c : Cursor) : Reading Json :=
  let c := c.next
  let (s, c') := takeDigits ⟨whole.value, 0, 0⟩ c.place c.rest
  if s.read = 0 ∧ s.dropped = 0 then
    match c'.rest with
    | [] => .error (c'.fault .endInValue)
    | _ :: _ => .error (c'.faultAhead .invalidNumber)
  else
    let exponent : Int := (whole.dropped : Int) - s.read
    match c'.rest with
    | 101 :: _ => readExponent negative s.value exponent c'
    | 69 :: _ => readExponent negative s.value exponent c'
    | _ => floatOf negative s.value exponent c'

def readTail (negative : Bool) (s : Significand) (c : Cursor) : Reading Json :=
  match c.rest with
  | 46 :: _ => readFraction negative s c
  | 101 :: _ => readExponent negative s.value s.dropped c
  | 69 :: _ => readExponent negative s.value s.dropped c
  | _ =>
      -- Minus zero is a double; so is a negative number that 64 bits with a sign cannot hold.
      if s.dropped ≠ 0 then floatOf negative s.value s.dropped c
      else if !negative then .ok (.int s.value, c)
      else if s.value = 0 ∨ s.value > Nat.pow 2 63 then .ok (.float (Binary64.ofNat s.value).neg, c)
      else .ok (.int (-(s.value : Int)), c)

def readNumber (negative : Bool) (c : Cursor) : Reading Json :=
  match c.rest with
  | [] => .error (c.fault .endInValue)
  | octet :: _ =>
      if octet = 48 then
        let c := c.next
        match c.rest with
        | following :: _ =>
            if isDigit following then .error (c.faultAhead .invalidNumber)
            else readTail negative ⟨0, 1, 0⟩ c
        | [] => readTail negative ⟨0, 1, 0⟩ c
      else if isDigit octet then
        let (s, c) := takeDigits ⟨0, 0, 0⟩ c.place c.rest
        readTail negative s c
      else .error (c.next.fault .invalidNumber)

def simpleEscape (octet : UInt8) : Option UInt8 :=
  if octet = 34 || octet = 92 || octet = 47 then some octet
  else if octet = 98 then some 8
  else if octet = 102 then some 12
  else if octet = 110 then some 10
  else if octet = 114 then some 13
  else if octet = 116 then some 9
  else none

def hexOctet (octet : UInt8) : Option Nat := Bytes.hexValue (Char.ofNat octet.toNat)

def hexQuad (a b c d : UInt8) : Option Nat := do
  return (((← hexOctet a) * 16 + (← hexOctet b)) * 16 + (← hexOctet c)) * 16 + (← hexOctet d)

def isLeading (unit : Nat) : Bool := 0xD800 ≤ unit && unit < 0xDC00

def isTrailing (unit : Nat) : Bool := 0xDC00 ≤ unit && unit < 0xE000

def joined (leading trailing : Nat) : Char :=
  Char.ofNat ((leading - 0xD800) * 1024 + (trailing - 0xDC00) + 0x10000)

def pushChar (c : Char) (seen : Bytes) : Bytes := (String.utf8EncodeChar c).reverse ++ seen

def stringOctets (p : Position) (seen : Bytes) : Bytes → Reading Bytes
  | [] => .error ⟨.endInString, some p⟩
  | 34 :: rest => .ok (seen.reverse, ⟨rest, p.past 34⟩)
  | 92 :: 117 :: a :: b :: c :: d :: rest =>
      let p := p.pastAll [92, 117, a, b, c, d]
      match hexQuad a b c d with
      | none => .error ⟨.invalidEscape, some p⟩
      | some unit =>
          if isTrailing unit then .error ⟨.loneSurrogate, some p⟩
          else if !isLeading unit then stringOctets p (pushChar (Char.ofNat unit) seen) rest
          else match rest with
            | [] => .error ⟨.endInString, some p⟩
            | [92] => .error ⟨.endInString, some (p.past 92)⟩
            | 92 :: 117 :: a :: b :: c :: d :: rest =>
                let p := p.pastAll [92, 117, a, b, c, d]
                match hexQuad a b c d with
                | none => .error ⟨.invalidEscape, some p⟩
                | some low =>
                    if isTrailing low then stringOctets p (pushChar (joined unit low) seen) rest
                    else .error ⟨.loneSurrogate, some p⟩
            | 92 :: 117 :: short => .error ⟨.endInString, some (p.pastAll (92 :: 117 :: short))⟩
            | 92 :: other :: _ => .error ⟨.endOfHexEscape, some (p.pastAll [92, other])⟩
            | other :: _ => .error ⟨.endOfHexEscape, some (p.past other)⟩
  | 92 :: 117 :: short => .error ⟨.endInString, some (p.pastAll (92 :: 117 :: short))⟩
  | 92 :: escape :: rest =>
      let p := p.pastAll [92, escape]
      match simpleEscape escape with
      | some octet => stringOctets p (octet :: seen) rest
      | none => .error ⟨.invalidEscape, some p⟩
  | [92] => .error ⟨.endInString, some (p.past 92)⟩
  | octet :: rest =>
      if octet < 32 then .error ⟨.controlCharacter, some (p.past octet)⟩
      else stringOctets (p.past octet) (octet :: seen) rest

def brokenAt (p : Position) (body : Bytes) : Position :=
  match Utf8.decodeFrom 0 [] body with
  | .error fault => p.pastAll (body.take (fault.start + 1))
  | .ok _ => p

def readString (c : Cursor) : Except Fault (String × Cursor) := do
  let (octets, after) ← stringOctets c.place [] c.rest
  match Utf8.decodeFrom 0 [] octets with
  | .ok chars => .ok (String.ofList chars, after)
  | .error _ => .error ⟨.invalidCodePoint, some (brokenAt c.place c.rest)⟩

/-- Whether an array or an object goes on, at the place where a further element may stand. The
cursor comes back at the element. -/
def readSeparator (close : UInt8) (early unclosed missing : Problem) (first : Bool) (c : Cursor) :
    Except Fault (Bool × Cursor) :=
  let c := c.skipBlank
  match c.rest with
  | [] => .error (c.fault unclosed)
  | octet :: _ =>
      if octet = close then .ok (false, c.next)
      else if first then .ok (true, c)
      else if octet = 44 then
        let c := c.next.skipBlank
        match c.rest with
        | [] => .error (c.fault .endInValue)
        | following :: _ =>
            if following = close then .error (c.faultAhead early) else .ok (true, c)
      else .error (c.faultAhead missing)

def moreItems (first : Bool) (c : Cursor) : Except Fault (Bool × Cursor) :=
  readSeparator 93 .trailingComma .endInList .expectedListEnd first c

def moreMembers (first : Bool) (c : Cursor) : Except Fault (Bool × Cursor) := do
  let (more, c) ← readSeparator 125 .trailingComma .endInObject .expectedObjectEnd first c
  if !more then return (false, c)
  match c.rest with
  | 34 :: _ => return (true, c)
  | _ => .error (c.faultAhead .keyNotString)

def readColon (c : Cursor) : Except Fault Cursor :=
  let c := c.skipBlank
  match c.rest with
  | [] => .error (c.fault .endInObject)
  | 58 :: _ => .ok c.next
  | _ :: _ => .error (c.faultAhead .expectedColon)

/-- Arrays and objects may be open this many at a time, less one. -/
def depthLimit : Nat := 128

mutual

/-- Reads a value that may open `depth - 1` further levels. -/
def readValue : (fuel depth : Nat) → Cursor → Except Fault (Json × Cursor)
  | 0, _, c => .error (c.fault .endInValue)
  | fuel + 1, depth, c =>
      let c := c.skipBlank
      match c.rest with
      | [] => .error (c.fault .endInValue)
      | octet :: _ =>
          if octet = 34 then (readString c.next).map fun (text, c) => (.string text, c)
          else if octet = 91 then
            if depth ≤ 1 then .error (c.faultAhead .tooDeep)
            else readItems fuel (depth - 1) [] c.next
          else if octet = 123 then
            if depth ≤ 1 then .error (c.faultAhead .tooDeep)
            else readMembers fuel (depth - 1) true [] c.next
          else if octet = 45 then readNumber true c.next
          else if isDigit octet then readNumber false c
          else if octet = 110 then
            (readWord [117, 108, 108] c.next).map fun c => (.null, c)
          else if octet = 116 then
            (readWord [114, 117, 101] c.next).map fun c => (.bool true, c)
          else if octet = 102 then
            (readWord [97, 108, 115, 101] c.next).map fun c => (.bool false, c)
          else .error (c.faultAhead .expectedValue)

def readItems : (fuel depth : Nat) → (seen : List Json) → Cursor → Except Fault (Json × Cursor)
  | 0, _, _, c => .error (c.fault .endInList)
  | fuel + 1, depth, seen, c => do
      let (more, c) ← moreItems seen.isEmpty c
      if !more then return (.array seen.reverse, c)
      let (item, c) ← readValue fuel depth c
      readItems fuel depth (item :: seen) c

def readMembers : (fuel depth : Nat) → (first : Bool) → (seen : List (String × Json)) → Cursor →
    Except Fault (Json × Cursor)
  | 0, _, _, _, c => .error (c.fault .endInObject)
  | fuel + 1, depth, first, seen, c => do
      let (more, c) ← moreMembers first c
      if !more then return (.object seen, c)
      let (key, c) ← readString c.next
      let c ← readColon c
      let (value, c) ← readValue fuel depth c
      readMembers fuel depth false (insert key value seen) c

end

def fuelFor (bytes : Bytes) : Nat := 2 * bytes.length + 2

def finish (c : Cursor) : Except Fault Unit :=
  let c := c.skipBlank
  match c.rest with
  | [] => .ok ()
  | _ :: _ => .error (c.faultAhead .trailingCharacters)

def parse (bytes : Bytes) : Except Fault Json := do
  let (document, c) ← readValue (fuelFor bytes) depthLimit (.ofBytes bytes)
  finish c
  return document

end RingCache.Json
