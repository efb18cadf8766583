-- JSON values, as `serde_json` holds them.
import Nxr.Num

namespace serde_json

/-- A JSON number: unsigned, negative or binary floating point, which is held by the bits of the
`f64`. -/
inductive Number where
  | PosInt (n : UInt64)
  | NegInt (n : Int64)
  | Float (bits : UInt64)
  deriving DecidableEq

/-- `serde_json::Value`. An object lists its entries in the order of the keys. -/
inductive Value where
  | Null
  | Bool (b : Bool)
  | Number (n : Number)
  | Str (s : String)
  | Array (items : List Value)
  | Object (entries : List (String × Value))

def Value.get (value : Value) (key : String) : Option Value :=
  match value with
  | Object entries => entries.lookup key
  | _ => none

def Value.as_u64 (value : Value) : Option UInt64 :=
  match value with
  | Number (.PosInt n) => some n
  | _ => none

def Value.as_str (value : Value) : Option String :=
  match value with
  | Str s => some s
  | _ => none

def Value.as_array (value : Value) : Option (List Value) :=
  match value with
  | Array items => some items
  | _ => none

def Value.as_object (value : Value) : Option (List (String × Value)) :=
  match value with
  | Object entries => some entries
  | _ => none

def Value.is_null (value : Value) :=
  match value with
  | Null => true
  | _ => false

end serde_json
