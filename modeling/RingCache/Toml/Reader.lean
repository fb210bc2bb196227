import RingCache.Toml.Scalar

namespace RingCache.Toml

def skipComment : List Char → Option (List Char)
  | '#' :: rest => some (rest.dropWhile isPrintable)
  | rest => some rest

def endLine (chars : List Char) : Option (List Char) := do
  let rest ← skipComment (skipBlank chars)
  match rest with
  | [] => some []
  | _ => lineEnd? rest

def skipSpace : (fuel : Nat) → List Char → Option (List Char)
  | 0, _ => none
  | fuel + 1, chars => do
      let rest ← skipComment (skipBlank chars)
      match lineEnd? rest with
      | some rest => skipSpace fuel rest
      | none => some rest

def isBareKey (c : Char) : Bool := c.isAlphanum || c = '_' || c = '-'

def keyPart (chars : List Char) : Option (String × List Char) :=
  match chars with
  | '"' :: rest => basicText (rest.length + 1) [] rest
  | '\'' :: rest => literalText [] rest
  | _ =>
      let bare := chars.takeWhile isBareKey
      if bare.isEmpty then none else some (String.ofList bare, chars.drop bare.length)

def dottedKey : (fuel : Nat) → List Char → Option (List String × List Char)
  | 0, _ => none
  | fuel + 1, chars => do
      let (part, rest) ← keyPart (skipBlank chars)
      match skipBlank rest with
      | '.' :: rest =>
          let (parts, rest) ← dottedKey fuel rest
          return (part :: parts, rest)
      | rest => return ([part], rest)

def key (chars : List Char) : Option (List String × List Char) :=
  dottedKey (chars.length + 1) chars

mutual

def value : (fuel : Nat) → List Char → Option (Item × List Char)
  | 0, _ => none
  | fuel + 1, chars => match chars with
    | [] => none
    | '[' :: rest => arrayItems fuel [] rest
    | '\x7b' :: rest => match skipBlank rest with
      | '\x7d' :: rest => some (.table .inline [], rest)
      -- From here on a member must follow, also behind a comma.
      | rest => inlineMembers fuel [] rest
    | '"' :: _ => (quotedText chars).map fun (text, rest) => (.leaf (.text text), rest)
    | '\'' :: _ => (quotedText chars).map fun (text, rest) => (.leaf (.text text), rest)
    | _ => (bareScalar chars).map fun (scalar, rest) => (.leaf scalar, rest)

def arrayItems : (fuel : Nat) → (seen : List Item) → List Char → Option (Item × List Char)
  | 0, _, _ => none
  | fuel + 1, seen, chars => do
      let chars ← skipSpace (chars.length + 1) chars
      match chars with
      | ']' :: rest => some (.list seen.reverse, rest)
      | _ =>
          let (item, rest) ← value fuel chars
          let rest ← skipSpace (rest.length + 1) rest
          match rest with
          | ',' :: rest => arrayItems fuel (item :: seen) rest
          | ']' :: rest => some (.list (item :: seen).reverse, rest)
          | _ => none

def inlineMembers : (fuel : Nat) → Members → List Char → Option (Item × List Char)
  | 0, _, _ => none
  | fuel + 1, members, chars => do
      let (name, rest) ← key chars
      match rest with
      | '=' :: rest =>
          let (item, rest) ← value fuel (skipBlank rest)
          let members ← putDotted true members name item
          match skipBlank rest with
          | ',' :: rest => inlineMembers fuel members rest
          | '\x7d' :: rest => some (.table .inline members, rest)
          | _ => none
      | _ => none

end

structure Draft where
  root : Members
  path : List String

def header (chars : List Char) : Option (List String × List Char) := do
  let (path, rest) ← key chars
  match rest with
  | ']' :: rest => some (path, rest)
  | _ => none

def splitLast : List String → Option (List String × String)
  | [] => none
  | [name] => some ([], name)
  | name :: rest => (splitLast rest).map fun (front, last) => (name :: front, last)

def line (draft : Draft) (chars : List Char) : Option (Draft × List Char) :=
  match chars with
  | '[' :: '[' :: rest => do
      let (path, rest) ← header rest
      match rest with
      | ']' :: rest =>
          let (front, last) ← splitLast path
          let root ← changeAt (appendTable last) draft.root front
          return (⟨root, path⟩, ← endLine rest)
      | _ => none
  | '[' :: rest => do
      let (path, rest) ← header rest
      let (front, last) ← splitLast path
      let root ← changeAt (openTable last) draft.root front
      return (⟨root, path⟩, ← endLine rest)
  | _ => do
      let (name, rest) ← key chars
      match rest with
      | '=' :: rest =>
          let (item, rest) ← value (rest.length + 1) (skipBlank rest)
          let root ← changeAt (fun members => putDotted true members name item) draft.root
            draft.path
          return ({ draft with root }, ← endLine rest)
      | _ => none

def lines : (fuel : Nat) → Draft → List Char → Option Members
  | 0, _, _ => none
  | fuel + 1, draft, chars => do
      let chars ← skipSpace (chars.length + 1) chars
      match chars with
      | [] => some draft.root
      | _ =>
          let (draft, rest) ← line draft chars
          lines fuel draft rest

def skipMark : List Char → List Char
  | '\uFEFF' :: rest => rest
  | rest => rest

def read (text : String) : Option Members :=
  let chars := skipMark text.toList
  lines (chars.length + 2) ⟨[], []⟩ chars

end RingCache.Toml
