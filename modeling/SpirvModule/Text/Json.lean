import SpirvModule.Text.Utf8

/-!
# JSON texts

The part of the library that keeps data in files writes them in JSON.

* `JsonValue.parse?`: the value that some bytes write.
* `JsonValue.quote`: a string as it is written.

A number is kept as it is spelled. A string is well formed whatever bytes it holds;
with half of a surrogate pair, or with bytes that encode no text, it stands for no
text. All signs of the notation are single bytes. So the bytes are read one by one,
each standing in the lists below as the character with its number, and only those
of a string are put together to text.
-/
namespace SpirvModule

/-- A JSON value. Members of an object keep their order and may repeat a name. -/
inductive JsonValue where
  | null
  | bool (b : Bool)
  | number (spelling : List Char)
  | string (text : Option String)
  | array (items : List JsonValue)
  | object (members : List (Option String × JsonValue))

namespace JsonValue

def isBlank (c : Char) : Bool := c = ' ' || c = '\n' || c = '\t' || c = '\r'

def isDigit (c : Char) : Bool := '0' ≤ c && c ≤ '9'

/-- The text without the blanks at its front. -/
def skipBlanks (s : List Char) : List Char := s.dropWhile isBlank

/-- The value of a hexadecimal digit. -/
def hexDigit? (c : Char) : Option Nat :=
  if isDigit c then some (c.toNat - 48)
  else if 'a' ≤ c && c ≤ 'f' then some (c.toNat - 87)
  else if 'A' ≤ c && c ≤ 'F' then some (c.toNat - 55)
  else none

/-! ## Strings -/

/-- The code unit that four hexadecimal digits write. -/
def unit? (a b c d : Char) : Option Nat := do
  return ((← hexDigit? a) * 16 + (← hexDigit? b)) * 256 + ((← hexDigit? c) * 16 + (← hexDigit? d))

/-- The character that a backslash and `c` write. -/
def escape? (c : Char) : Option Char :=
  if c = '"' || c = '\\' || c = '/' then some c
  else if c = 'b' then some '\x08'
  else if c = 'f' then some '\x0c'
  else if c = 'n' then some '\n'
  else if c = 'r' then some '\r'
  else if c = 't' then some '\t'
  else none

/-- The bytes and code units of a string after its first quote, and what follows the last. A number
stands for a code unit that was written by its digits. -/
def stringBody : List Char → Option (List (Char ⊕ Nat) × List Char)
  | '"' :: r => some ([], r)
  | '\\' :: 'u' :: a :: b :: c :: d :: r => do
    let u ← unit? a b c d
    let (cs, r) ← stringBody r
    return (.inr u :: cs, r)
  | '\\' :: c :: r => do
    let e ← escape? c
    let (cs, r) ← stringBody r
    return (.inl e :: cs, r)
  | c :: r =>
    if c = '\\' || c.toNat < 32 then none
    else do
      let (cs, r) ← stringBody r
      return (.inl c :: cs, r)
  | [] => none

/-- The bytes of a string, unless a surrogate lacks its partner. -/
def joinUnits : List (Char ⊕ Nat) → Option (List UInt8)
  | [] => some []
  | .inl c :: r => (joinUnits r).map (UInt8.ofNat c.toNat :: ·)
  | .inr u :: r =>
    if u < 0xD800 || 0xDFFF < u then
      (joinUnits r).map (String.utf8EncodeChar (Char.ofNat u) ++ ·)
    else match r with
      | .inr v :: r =>
        if u < 0xDC00 && 0xDC00 ≤ v && v ≤ 0xDFFF then
          (joinUnits r).map
            (String.utf8EncodeChar (Char.ofNat (0x10000 + (u - 0xD800) * 1024 + (v - 0xDC00))) ++ ·)
        else none
      | _ => none

/-- The spelling of a control character. -/
def controlEscape (c : Char) : List Char :=
  if c = '\x08' then ['\\', 'b']
  else if c = '\x0c' then ['\\', 'f']
  else if c = '\n' then ['\\', 'n']
  else if c = '\r' then ['\\', 'r']
  else if c = '\t' then ['\\', 't']
  else ['\\', 'u', '0', '0', Nat.digitChar (c.toNat / 16), Nat.digitChar (c.toNat % 16)]

/-- The spelling of a character inside a string. -/
def charText (c : Char) : List Char :=
  if c = '"' || c = '\\' then ['\\', c]
  else if c.toNat < 32 then controlEscape c
  else [c]

/-- A string as it is written. -/
def quote (s : String) : String := String.ofList ('"' :: s.toList.flatMap charText ++ ['"'])

/-! ## Numbers -/

/-- The digits at the front of a text, of which there has to be one, and what follows. -/
def digits? (s : List Char) : Option (List Char × List Char) :=
  match s.takeWhile isDigit with
  | [] => none
  | ds => some (ds, s.dropWhile isDigit)

/-- The whole part of a number: no zero leads another digit. -/
def whole? (s : List Char) : Option (List Char × List Char) :=
  match s with
  | '0' :: r => if (r.head?.map isDigit).getD false then none else some (['0'], r)
  | _ => digits? s

/-- The part of a number after the point, if there is one. -/
def fraction? (s : List Char) : Option (List Char × List Char) :=
  match s with
  | '.' :: r => (digits? r).map fun p => ('.' :: p.1, p.2)
  | _ => some ([], s)

/-- The exponent of a number, if there is one. -/
def exponent? (s : List Char) : Option (List Char × List Char) :=
  match s with
  | c :: r =>
    if c = 'e' || c = 'E' then
      match r with
      | d :: r =>
        if d = '+' || d = '-' then (digits? r).map fun p => (c :: d :: p.1, p.2)
        else (digits? (d :: r)).map fun p => (c :: p.1, p.2)
      | [] => none
    else some ([], s)
  | [] => some ([], s)

/-- The number at the front of a text. -/
def number? (s : List Char) : Option (JsonValue × List Char) := do
  let (sign, r) := match s with
    | '-' :: r => (['-'], r)
    | _ => ([], s)
  let (w, r) ← whole? r
  let (f, r) ← fraction? r
  let (e, r) ← exponent? r
  return (.number (sign ++ w ++ f ++ e), r)

/-! ## Values -/

/-- The string at the front of a text, which starts right after the quote. -/
def string? (s : List Char) : Option (Option String × List Char) :=
  (stringBody s).map fun p => ((joinUnits p.1).bind Text.decode?, p.2)

mutual

/-- The value at the front of a text, in at most `fuel` steps. -/
def value? : Nat → List Char → Option (JsonValue × List Char)
  | 0, _ => none
  | fuel + 1, s =>
    match skipBlanks s with
    | 'n' :: 'u' :: 'l' :: 'l' :: r => some (.null, r)
    | 't' :: 'r' :: 'u' :: 'e' :: r => some (.bool true, r)
    | 'f' :: 'a' :: 'l' :: 's' :: 'e' :: r => some (.bool false, r)
    | '"' :: r => (string? r).map fun p => (.string p.1, p.2)
    | '[' :: r =>
      match skipBlanks r with
      | ']' :: r => some (.array [], r)
      | r => (items? fuel r).map fun p => (.array p.1, p.2)
    | '\x7b' :: r =>
      match skipBlanks r with
      | '\x7d' :: r => some (.object [], r)
      | r => (members? fuel r).map fun p => (.object p.1, p.2)
    | r => number? r

/-- The items of an array up to and with its closing bracket. -/
def items? : Nat → List Char → Option (List JsonValue × List Char)
  | 0, _ => none
  | fuel + 1, s => do
    let (v, r) ← value? fuel s
    match skipBlanks r with
    | ',' :: r => (items? fuel r).map fun p => (v :: p.1, p.2)
    | ']' :: r => some ([v], r)
    | _ => none

/-- The members of an object up to and with its closing bracket. -/
def members? : Nat → List Char → Option (List (Option String × JsonValue) × List Char)
  | 0, _ => none
  | fuel + 1, s =>
    match skipBlanks s with
    | '"' :: r => do
      let (k, r) ← string? r
      match skipBlanks r with
      | ':' :: r =>
        let (v, r) ← value? fuel r
        match skipBlanks r with
        | ',' :: r => (members? fuel r).map fun p => ((k, v) :: p.1, p.2)
        | '\x7d' :: r => some ([(k, v)], r)
        | _ => none
      | _ => none
    | _ => none

end

/-- The value that some bytes write. Every step but the last of a value passes a byte, so that two
steps for each are enough. -/
def parse? (bs : List UInt8) : Option JsonValue :=
  match value? (2 * bs.length + 2) (bs.map fun b => Char.ofNat b.toNat) with
  | some (v, r) => if skipBlanks r = [] then some v else none
  | none => none

end JsonValue

end SpirvModule
