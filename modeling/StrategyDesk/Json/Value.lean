import StrategyDesk.Decimal.Binary64

/-!
This module contains the values of JSON. Whole numbers and numbers with a fraction or an exponent
are told apart, since a count may only be given as the former.
-/

namespace StrategyDesk

inductive Json where
  | null
  | bool (b : Bool)
  | int (n : Int)
  | float (x : Float)
  | string (s : String)
  | array (elements : List Json)
  | object (members : List (String × Json))
  deriving Inhabited

namespace Json

def get? (j : Json) (name : String) : Option Json :=
  match j with
  | .object members => members.lookup name
  | _ => none

/-- A number that is not finite has no form in JSON and is left out. -/
def ofFloat (x : Float) : Json :=
  match Binary64.ofFloat x with
  | .finite .. => .float x
  | _ => .null

def record (members : List (String × Option Json)) : Json :=
  .object (members.filterMap fun (name, value) => value.map fun value => (name, value))

end Json
end StrategyDesk
