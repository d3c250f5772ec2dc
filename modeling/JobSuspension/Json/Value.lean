import JobSuspension.Json.Number

/-!
# JSON values

The tree a JSON text stands for.  Members keep their order and their repetitions.

* `unreadable`        a part whose escapes name half a surrogate pair: it is correctly written but
                      stands for no text, so it may only be skipped;
* `Value.keepable d`  the value can be kept whole: nothing unreadable in it, every number finite,
                      at most `d` containers inside one another;
* `Value.named k ms`  the values of the members called `k`, in order.
-/

namespace JobSuspension
namespace Json

inductive Value where
  | null
  | bool (b : Bool)
  | number (n : Number)
  | string (s : String)
  | array (items : List Value)
  | object (members : List (String × Value))
  | unreadable
  deriving Repr, Inhabited

namespace Value

def ofNat (n : Nat) : Value := .number (.ofNat n)

def ofOption (f : α → Value) : Option α → Value
  | some a => f a
  | none => .null

/-! ## values that can be kept -/

mutual

def keepable (depth : Nat) : Value → Bool
  | .number n => n.inRange
  | .array items => 0 < depth && keepableItems (depth - 1) items
  | .object members => 0 < depth && keepableMembers (depth - 1) members
  | .unreadable => false
  | _ => true

def keepableItems (depth : Nat) : List Value → Bool
  | [] => true
  | v :: vs => keepable depth v && keepableItems depth vs

def keepableMembers (depth : Nat) : List (String × Value) → Bool
  | [] => true
  | (_, v) :: ms => keepable depth v && keepableMembers depth ms

end

/-! ## members -/

def named (name : String) (members : List (String × Value)) : List Value :=
  (members.filter (·.1 == name)).map (·.2)

theorem named_nil (name : String) : named name [] = [] := rfl

theorem named_cons (name k : String) (v : Value) (ms : List (String × Value)) :
    named name ((k, v) :: ms) = if k = name then v :: named name ms else named name ms := by
  by_cases h : k = name <;> simp [named, h]

theorem named_perm {ms ms' : List (String × Value)} (name : String) (h : ms.Perm ms') :
    (named name ms).Perm (named name ms') :=
  (h.filter _).map _

end Value
end Json
end JobSuspension
