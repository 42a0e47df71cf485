import PiVpn.Python.Ipaddress

/-! JSON values as the standard parser delivers them, and the conversions the
program applies to them. -/

/-- A decoded JSON value; a float is kept as its printed form. -/
inductive Json where
  | null
  | bool (b : Bool)
  | int (n : Int)
  | float (repr : String)
  | str (s : String)
  | arr (xs : List Json)
  | obj (fields : List (String × Json))
  deriving Inhabited

/-- What `isinstance(x, int)` lets through: a boolean is an integer too. -/
inductive PyInt where
  | int (n : Int)
  | bool (b : Bool)
  deriving DecidableEq

namespace PyInt

def toInt : PyInt → Int
  | .int n => n
  | .bool b => if b then 1 else 0

/-- `str(x)`. -/
def str : PyInt → Text
  | .int n => if n < 0 then '-' :: Text.decimal n.natAbs else Text.decimal n.natAbs
  | .bool true => ['T', 'r', 'u', 'e']
  | .bool false => ['F', 'a', 'l', 's', 'e']

end PyInt

namespace Json

/-- `req.get(key)`; a missing key and a null read the same. -/
def get (req : List (String × Json)) (key : String) : Json := (req.lookup key).getD .null

/-- `bool(x)`. -/
def truthy : Json → Bool
  | .null => false
  | .bool b => b
  | .int n => n ≠ 0
  | .float r => r ≠ "0.0" && r ≠ "-0.0"
  | .str s => s ≠ ""
  | .arr xs => !xs.isEmpty
  | .obj fs => !fs.isEmpty

def pyInt? : Json → Option PyInt
  | .int n => some (.int n)
  | .bool b => some (.bool b)
  | _ => none

/-- `ipaddress.ip_interface(x)`. Only a text and a number can be read: the printed
form of any other value is no address. -/
def ipInterface : Json → Option Ipaddress.IPInterface
  | .str s => Ipaddress.ipInterface s.toList
  | .int n => Ipaddress.ipInterfaceOfInt n
  | .bool b => Ipaddress.ipInterfaceOfInt (PyInt.bool b).toInt
  | _ => none

/-- `ipaddress.ip_network(x, strict=False)`. -/
def ipNetwork (x : Json) : Option Ipaddress.IPNetwork :=
  x.ipInterface.map Ipaddress.IPInterface.network

end Json
