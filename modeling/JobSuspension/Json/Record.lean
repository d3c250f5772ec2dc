import JobSuspension.Json.Value

/-!
# Records in JSON

A record is written as an object with one member per field.  It is read from an object, in any
order of members, members of other names skipped and a repeated field refused; or from an array
that lists the fields in their order and nothing else.

* `Record.Source`               what is left to read of either form;
* `Record.required name f`      a field that must be there;
* `Record.optional name f`      a field that may be missing from an object, or be null;
* `Record.defaulted name f d`   a field that may be missing from both forms and then has value `d`;
* `Record.read fields v`        the record with these fields.

`single?_perm` is why the order of the members does not matter.
-/

namespace JobSuspension
namespace Json

/-! ## atoms -/

def Value.text? : Value → Option String
  | .string s => some s
  | _ => none

def Value.bool? : Value → Option Bool
  | .bool b => some b
  | _ => none

/-- a natural number of at most `max`, written as plain digits -/
def Value.natural? (max : Nat) : Value → Option Nat
  | .number n => n.natural?.filter (· ≤ max)
  | _ => none

def Value.list? (f : Value → Option α) : Value → Option (List α)
  | .array vs => vs.mapM f
  | _ => none

/-- null, or what `f` reads -/
def Value.nullable? (f : Value → Option α) : Value → Option (Option α)
  | .null => some none
  | v => (f v).map some

/-- a name out of an enumeration: its text, or an object with the name and null -/
def Value.name? : Value → Option String
  | .string s => some s
  | .object [(s, .null)] => some s
  | _ => none

/-! ## fields -/

namespace Record

inductive Source where
  | named (members : List (String × Value))
  | listed (values : List Value)

/-- the value of the only member called `name`, if there is one; a second one is refused -/
def single? (name : String) (members : List (String × Value)) : Option (Option Value) :=
  match Value.named name members with
  | [] => some none
  | [v] => some (some v)
  | _ => none

theorem single?_perm {ms ms' : List (String × Value)} (name : String) (h : ms.Perm ms') :
    single? name ms = single? name ms' := by
  have hp := Value.named_perm name h
  simp only [single?]
  match h1 : Value.named name ms, h2 : Value.named name ms' with
  | [], l => rw [h1, h2] at hp; rw [hp.nil_eq.symm]
  | [v], l => rw [h1, h2] at hp; rw [List.singleton_perm.mp hp]
  | v :: w :: l, [] => rw [h1, h2] at hp; exact absurd hp.length_eq (by simp)
  | v :: w :: l, [x] => rw [h1, h2] at hp; exact absurd hp.length_eq (by simp)
  | v :: w :: l, x :: y :: l' => rfl

abbrev Fields := StateT Source Option

/-- a field; `unnamed` and `unlisted` stand for it where an object or an array leaves it out -/
def field (name : String) (f : Value → Option α) (unnamed unlisted : Option α) : Fields α
  | .named ms => do
    let a ← match ← single? name ms with
      | some v => f v
      | none => unnamed
    return (a, .named ms)
  | .listed [] => unlisted.map (·, .listed [])
  | .listed (v :: vs) => (f v).map (·, .listed vs)

def required (name : String) (f : Value → Option α) : Fields α := field name f none none

def optional (name : String) (f : Value → Option α) : Fields (Option α) :=
  field name (Value.nullable? f) (some none) none

def defaulted (name : String) (f : Value → Option α) (d : α) : Fields α :=
  field name f (some d) (some d)

def read (fields : Fields α) : Value → Option α
  | .object ms => (fields (.named ms)).map (·.1)
  | .array vs =>
    match fields (.listed vs) with
    | some (a, .listed []) => some a
    | _ => none
  | _ => none

end Record
end Json
end JobSuspension
