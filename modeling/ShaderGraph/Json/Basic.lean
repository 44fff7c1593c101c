import ShaderGraph.Binary
import ShaderGraph.Table

/-! JSON values. A number without point and exponent is an integer and stays
one; the members of an object stand in the order in which they are written. -/
namespace ShaderGraph

/-- A JSON number. -/
inductive Json.Number where
  | int (value : Int)
  | float (value : Binary64)
deriving DecidableEq

inductive Json where
  | null
  | bool (value : Bool)
  | number (value : Json.Number)
  | string (value : String)
  | array (items : List Json)
  | object (members : List (String × Json))

namespace Json

/-- Members of an object in ascending order of their keys, each key once. -/
abbrev Fields := Table Json

def ofInt (n : Int) : Json := .number (.int n)

def isNull : Json → Bool
  | null => true
  | _ => false

namespace Number

/-- The nearest floating-point number. -/
def toBinary64 : Number → Binary64
  | int n => .ofInt n
  | float x => x

/-- Equality of kind and value. -/
def same : Number → Number → Bool
  | int m, int n => m == n
  | float x, float y => x.same y
  | _, _ => false

end Number

def toBinary64? : Json → Option Binary64
  | number n => some n.toBinary64
  | _ => none

def toNat? : Json → Option Nat
  | number (.int n) => n.toNat?
  | _ => none

mutual

/-- Equality in which numbers compare by kind and value. -/
def same : Json → Json → Bool
  | null, null => true
  | bool a, bool b => a == b
  | number a, number b => a.same b
  | string a, string b => a == b
  | array a, array b => sameItems a b
  | object a, object b => sameMembers a b
  | _, _ => false

def sameItems : List Json → List Json → Bool
  | [], [] => true
  | a :: as, b :: bs => same a b && sameItems as bs
  | _, _ => false

def sameMembers : List (String × Json) → List (String × Json) → Bool
  | [], [] => true
  | (k, a) :: as, (l, b) :: bs => k == l && same a b && sameMembers as bs
  | _, _ => false

end

end Json

end ShaderGraph
