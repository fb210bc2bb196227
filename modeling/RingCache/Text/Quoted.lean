import RingCache.Bytes
import RingCache.Text.Hidden

/-!
Texts in diagnostics. A quoted text stands between double quotes; quotes and backslashes take a
backslash, the usual control characters their letters, and every other hidden character its code
point in braces.
-/

namespace RingCache.Text

def codePoint (c : Char) : List Char := Nat.toDigits 16 c.toNat

def quoteChar (c : Char) : List Char :=
  if c = '"' then ['\\', '"']
  else if c = '\\' then ['\\', '\\']
  else if c = '\n' then ['\\', 'n']
  else if c = '\r' then ['\\', 'r']
  else if c = '\t' then ['\\', 't']
  else if c.toNat = 0 then ['\\', '0']
  else if isHidden c then '\\' :: 'u' :: '\x7b' :: codePoint c ++ ['\x7d']
  else [c]

def quoted (text : String) : String :=
  String.ofList ('"' :: text.toList.flatMap quoteChar ++ ['"'])

end RingCache.Text
