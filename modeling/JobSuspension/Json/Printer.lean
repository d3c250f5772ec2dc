import JobSuspension.Json.Value

/-!
# Writing JSON

Values are written compactly, members in their order.  Inside a string only the quote, the
backslash and the control characters below U+0020 are escaped, the five of them that have a short
form by it.

* `escape c`        the characters written for one character of a string;
* `Value.chars v`   the text of a value;
* `Value.text v`    the same as a string.
-/

namespace JobSuspension
namespace Json

def hexDigit (n : Nat) : Char :=
  if n < 10 then Char.ofNat ('0'.toNat + n) else Char.ofNat ('a'.toNat + (n - 10))

def escape (c : Char) : List Char :=
  if c = '"' then ['\\', '"']
  else if c = '\\' then ['\\', '\\']
  else if c.toNat = 0x08 then ['\\', 'b']
  else if c.toNat = 0x09 then ['\\', 't']
  else if c.toNat = 0x0a then ['\\', 'n']
  else if c.toNat = 0x0c then ['\\', 'f']
  else if c.toNat = 0x0d then ['\\', 'r']
  else if c.toNat < 0x20 then
    ['\\', 'u', '0', '0', hexDigit (c.toNat / 16), hexDigit (c.toNat % 16)]
  else [c]

def quote (s : String) : List Char := '"' :: s.toList.flatMap escape ++ ['"']

def Number.chars (n : Number) : List Char :=
  (if n.negative then ['-'] else []) ++ n.whole
    ++ (if n.fraction.isEmpty then [] else '.' :: n.fraction)
    ++ (match n.exponent with
        | none => []
        | some (minus, ds) => 'e' :: (if minus then '-' :: ds else ds))

namespace Value

mutual

def chars : Value → List Char
  | .null => ['n', 'u', 'l', 'l']
  | .bool true => ['t', 'r', 'u', 'e']
  | .bool false => ['f', 'a', 'l', 's', 'e']
  | .number n => n.chars
  | .string s => quote s
  | .array items => '[' :: charsItems items ++ [']']
  | .object members => '{' :: charsMembers members ++ ['}']
  | .unreadable => ['"', '\\', 'u', 'd', '8', '0', '0', '"']

/-- items with commas between them -/
def charsItems : List Value → List Char
  | [] => []
  | [v] => chars v
  | v :: w :: vs => chars v ++ ',' :: charsItems (w :: vs)

/-- members with commas between them -/
def charsMembers : List (String × Value) → List Char
  | [] => []
  | [(k, v)] => quote k ++ ':' :: chars v
  | (k, v) :: m :: ms => quote k ++ ':' :: chars v ++ ',' :: charsMembers (m :: ms)

end

def text (v : Value) : String := String.ofList v.chars

end Value
end Json
end JobSuspension
