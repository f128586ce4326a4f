import PortableSql.Number.Binary

/-!
JSON documents. Whole numbers and binary numbers are different values. A document that was read has the
members of every object in ascending order of their keys, one for each key; one that is built to be
printed keeps the order it is given.
-/
namespace PortableSql

open Number

inductive Json
  | null
  | bool (b : Bool)
  | whole (n : Int)
  | double (x : Double)
  | string (s : String)
  | array (items : List Json)
  | object (members : List (String × Json))
  deriving Repr

namespace Json

mutual

/-- Whether two documents are equal, binary numbers as numbers are. -/
def same : Json → Json → Bool
  | .null, .null => true
  | .bool a, .bool b => a == b
  | .whole m, .whole n => m == n
  | .double x, .double y => x.same y
  | .string s, .string t => s == t
  | .array xs, .array ys => sameItems xs ys
  | .object xs, .object ys => sameMembers xs ys
  | _, _ => false

def sameItems : List Json → List Json → Bool
  | [], [] => true
  | x :: xs, y :: ys => same x y && sameItems xs ys
  | _, _ => false

def sameMembers : List (String × Json) → List (String × Json) → Bool
  | [], [] => true
  | (k, x) :: xs, (l, y) :: ys => k == l && same x y && sameMembers xs ys
  | _, _ => false

end

end Json

end PortableSql
