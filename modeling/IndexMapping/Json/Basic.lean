import IndexMapping.Decimal.Binary64

/-! JSON values. An object keeps its members in the order in which their names first
came, and equality of values does not look at that order. -/

namespace IndexMapping

/-- Whole numbers and floating-point numbers are different values. -/
inductive Number where
  | integer (n : Int)
  | float (x : Decimal.Binary64)
  deriving DecidableEq, Repr

namespace Number

/-- An integer never equals a float; the two float zeros are equal. -/
def same : Number → Number → Bool
  | integer a, integer b => a == b
  | float x, float y => x.eq y
  | _, _ => false

end Number

inductive Json where
  | null
  | bool (b : Bool)
  | number (n : Number)
  | string (s : String)
  | array (items : List Json)
  | object (members : List (String × Json))
  deriving Repr, Inhabited

namespace Json

/-- Sets a member: a repeated name keeps its first place and takes the last value. -/
def insertMember {α : Type} (name : String) (value : α) : List (String × α) → List (String × α)
  | [] => [(name, value)]
  | (n, v) :: rest =>
    if n = name then (n, value) :: rest else (n, v) :: insertMember name value rest

/-- The value of a member. -/
def member? (name : String) : List (String × Json) → Option Json
  | [] => none
  | (n, v) :: rest => if n = name then some v else member? name rest

mutual

/-- Equality that ignores the order of members. -/
def same : Json → Json → Bool
  | null, null => true
  | bool a, bool b => a == b
  | number a, number b => a.same b
  | string a, string b => a == b
  | array xs, array ys => sameItems xs ys
  | object xs, object ys => xs.length == ys.length && sameMembers xs ys
  | _, _ => false

def sameItems : List Json → List Json → Bool
  | [], [] => true
  | x :: xs, y :: ys => same x y && sameItems xs ys
  | _, _ => false

/-- Each member on the left is on the right with an equal value. -/
def sameMembers : List (String × Json) → List (String × Json) → Bool
  | [], _ => true
  | (n, v) :: rest, ys =>
    (match member? n ys with
      | some w => same v w
      | none => false) && sameMembers rest ys

end

mutual

/-- How many arrays and objects are open at the deepest place. -/
def depth : Json → Nat
  | array xs => depthItems xs + 1
  | object ms => depthMembers ms + 1
  | _ => 0

def depthItems : List Json → Nat
  | [] => 0
  | x :: xs => max (depth x) (depthItems xs)

def depthMembers : List (String × Json) → Nat
  | [] => 0
  | (_, v) :: ms => max (depth v) (depthMembers ms)

end

/-- An object with the members that are present. -/
def ofMembers (members : List (Option (String × Json))) : Json := object (members.filterMap id)

end Json

end IndexMapping
