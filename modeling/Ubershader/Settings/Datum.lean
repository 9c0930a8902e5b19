/-!
# Structured data

The tree of values that settings are loaded from. Integers and other numbers are told apart,
because a field that holds an integer takes no number written with a fraction.
-/

namespace Ubershader

/-- A value of structured data. -/
inductive Datum
  | null
  | bool (value : Bool)
  | integer (value : Int)
  /-- A number that is not written as an integer. Nothing takes such a number, so its value is
  not kept. -/
  | fraction
  | text (value : String)
  | list (items : List Datum)
  | record (fields : List (String × Datum))
deriving Repr, Inhabited

namespace Datum

def toBool? : Datum → Option Bool
  | bool value => some value
  | _ => none

def toInteger? : Datum → Option Int
  | integer value => some value
  | _ => none

def toText? : Datum → Option String
  | text value => some value
  | _ => none

def toItems? : Datum → Option (List Datum)
  | list items => some items
  | _ => none

end Datum

end Ubershader
