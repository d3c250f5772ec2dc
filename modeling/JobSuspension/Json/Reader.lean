import JobSuspension.Json.Value

/-!
# Reading JSON

JSON text is read strictly: blanks are the space, tab, line feed and carriage return; strings hold
no raw control characters; nothing may follow the value.  Text is rejected as a whole or read as
one `Value`.

* `units cs`        what a string literal holds, up to its closing quote, as UTF-16 units where it
                    is escaped and as code points where it is not;
* `pairUnits us`    the characters of these units, unless a surrogate stands alone;
* `number cs`, `word cs`   the scanners of the other atoms, each with the rest of the text;
* `value n cs`      one value and the rest of the text; `n` bounds the characters it may look at;
* `read text`       the value of a whole text.  Every step consumes a character, so the length of
                    the text is a bound that is never reached.
-/

namespace JobSuspension
namespace Json

def isBlank (c : Char) : Bool := c == ' ' || c == '\t' || c == '\n' || c == '\r'

def skipBlanks (cs : List Char) : List Char := cs.dropWhile isBlank

/-! ## strings -/

def hexValue? (c : Char) : Option Nat :=
  if c.isDigit then some (c.toNat - '0'.toNat)
  else if 'a' ≤ c ∧ c ≤ 'f' then some (c.toNat - 'a'.toNat + 10)
  else if 'A' ≤ c ∧ c ≤ 'F' then some (c.toNat - 'A'.toNat + 10)
  else none

def hexUnit? (a b c d : Char) : Option Nat := do
  let a ← hexValue? a
  let b ← hexValue? b
  let c ← hexValue? c
  let d ← hexValue? d
  return ((a * 16 + b) * 16 + c) * 16 + d

/-- the code point of a one-letter escape -/
def shortEscape? : Char → Option Nat
  | '"' => some '"'.toNat
  | '\\' => some '\\'.toNat
  | '/' => some '/'.toNat
  | 'b' => some 0x08
  | 'f' => some 0x0c
  | 'n' => some 0x0a
  | 'r' => some 0x0d
  | 't' => some 0x09
  | _ => none

def units : List Char → Option (List Nat × List Char)
  | [] => none
  | '"' :: rest => some ([], rest)
  | '\\' :: 'u' :: a :: b :: c :: d :: rest => do
    let u ← hexUnit? a b c d
    let (us, rest) ← units rest
    return (u :: us, rest)
  | '\\' :: e :: rest => do
    let u ← shortEscape? e
    let (us, rest) ← units rest
    return (u :: us, rest)
  | c :: rest => do
    if c = '\\' ∨ c.toNat < 0x20 then none
    else
      let (us, rest) ← units rest
      return (c.toNat :: us, rest)

def isHighSurrogate (u : Nat) : Bool := 0xd800 ≤ u && u ≤ 0xdbff

def isLowSurrogate (u : Nat) : Bool := 0xdc00 ≤ u && u ≤ 0xdfff

def pairUnits : List Nat → Option (List Char)
  | [] => some []
  | u :: us =>
    if isHighSurrogate u then
      match us with
      | [] => none
      | w :: ws =>
        if isLowSurrogate w then
          (pairUnits ws).map (Char.ofNat (0x10000 + (u - 0xd800) * 0x400 + (w - 0xdc00)) :: ·)
        else none
    else if isLowSurrogate u then none
    else (pairUnits us).map (Char.ofNat u :: ·)

/-- the text of a string literal after its opening quote; no text when a surrogate stands alone -/
def stringBody (cs : List Char) : Option (Option String × List Char) := do
  let (us, rest) ← units cs
  return ((pairUnits us).map String.ofList, rest)

/-! ## numbers and words -/

def fraction : List Char → Option (List Char × List Char)
  | '.' :: cs =>
    let ds := cs.takeWhile Char.isDigit
    if ds.isEmpty then none else some (ds, cs.dropWhile Char.isDigit)
  | cs => some ([], cs)

def exponentDigits (minus : Bool) (cs : List Char) :
    Option (Option (Bool × List Char) × List Char) :=
  let ds := cs.takeWhile Char.isDigit
  if ds.isEmpty then none else some (some (minus, ds), cs.dropWhile Char.isDigit)

def exponent : List Char → Option (Option (Bool × List Char) × List Char)
  | c :: cs =>
    if c = 'e' ∨ c = 'E' then
      match cs with
      | '+' :: cs => exponentDigits false cs
      | '-' :: cs => exponentDigits true cs
      | cs => exponentDigits false cs
    else some (none, c :: cs)
  | [] => some (none, [])

/-- a number without its sign -/
def magnitude (negative : Bool) (cs : List Char) : Option (Number × List Char) := do
  let whole := cs.takeWhile Char.isDigit
  if whole.isEmpty ∨ (whole.head? = some '0' ∧ whole ≠ ['0']) then none
  else
    let (fraction, cs) ← fraction (cs.dropWhile Char.isDigit)
    let (exponent, cs) ← exponent cs
    return (⟨negative, whole, fraction, exponent⟩, cs)

def number : List Char → Option (Number × List Char)
  | '-' :: cs => magnitude true cs
  | cs => magnitude false cs

def word : List Char → Option (Value × List Char)
  | 'n' :: 'u' :: 'l' :: 'l' :: rest => some (.null, rest)
  | 't' :: 'r' :: 'u' :: 'e' :: rest => some (.bool true, rest)
  | 'f' :: 'a' :: 'l' :: 's' :: 'e' :: rest => some (.bool false, rest)
  | _ => none

/-! ## values -/

def stringValue : Option String → Value
  | some s => .string s
  | none => .unreadable

/-- the object of these members; a member name that stands for no text spoils it -/
def objectValue (members : List (Option String × Value)) : Value :=
  match members.mapM (fun (k, v) => k.map (·, v)) with
  | some ms => .object ms
  | none => .unreadable

mutual

/-- a value at the head of the text, no blank before it -/
def value : Nat → List Char → Option (Value × List Char)
  | 0, _ => none
  | _ + 1, [] => none
  | n + 1, '{' :: cs =>
    match skipBlanks cs with
    | '}' :: rest => some (.object [], rest)
    | cs => do
      let (ms, rest) ← members n cs
      return (objectValue ms, rest)
  | n + 1, '[' :: cs =>
    match skipBlanks cs with
    | ']' :: rest => some (.array [], rest)
    | cs => do
      let (vs, rest) ← items n cs
      return (.array vs, rest)
  | _ + 1, '"' :: cs => do
    let (s, rest) ← stringBody cs
    return (stringValue s, rest)
  | _ + 1, c :: cs =>
    if c = '-' ∨ c.isDigit then do
      let (x, rest) ← number (c :: cs)
      return (.number x, rest)
    else word (c :: cs)

/-- the items of an array up to its closing bracket -/
def items : Nat → List Char → Option (List Value × List Char)
  | 0, _ => none
  | n + 1, cs => do
    let (v, cs) ← value n cs
    match skipBlanks cs with
    | ']' :: rest => return ([v], rest)
    | ',' :: cs =>
      let (vs, rest) ← items n (skipBlanks cs)
      return (v :: vs, rest)
    | _ => none

/-- the members of an object up to its closing brace -/
def members : Nat → List Char → Option (List (Option String × Value) × List Char)
  | 0, _ => none
  | n + 1, '"' :: cs => do
    let (k, cs) ← stringBody cs
    match skipBlanks cs with
    | ':' :: cs =>
      let (v, cs) ← value n (skipBlanks cs)
      match skipBlanks cs with
      | '}' :: rest => return ([(k, v)], rest)
      | ',' :: cs =>
        let (ms, rest) ← members n (skipBlanks cs)
        return ((k, v) :: ms, rest)
      | _ => none
    | _ => none
  | _ + 1, _ => none

end

def readList (cs : List Char) : Option Value :=
  match value (cs.length + 1) (skipBlanks cs) with
  | some (v, rest) => if (skipBlanks rest).isEmpty then some v else none
  | none => none

def read (text : String) : Option Value := readList text.toList

end Json
end JobSuspension
