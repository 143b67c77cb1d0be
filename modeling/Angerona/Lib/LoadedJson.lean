import Angerona.Lib.PyJson
import Angerona.Lib.PyStr

/-!
    What `json.loads` returns, as far as a program can ask about it: values whose strings may hold
    lone surrogates, and objects that were merged by their keys. -/

namespace LoadedJson
open PyJson PyStr Binary64

/-- A loaded JSON value. -/
inductive Loaded where
  | null
  | bool (b : Bool)
  | int (n : ℤ)
  | float (f : PyFloat)
  | str (s : PyStr)
  | list (xs : List Loaded)
  | dict (items : List (PyStr × Loaded))

abbrev Items := List (PyStr × Loaded)

/-- The object has these fields and no others. -/
def hasFields (items : Items) (fields : List PyStr) : Bool :=
  items.all (fun i => fields.contains i.1) && fields.all fun f => (items.map Prod.fst).contains f

/-- `value.get(field, default)`, which is `value[field]` for a field that is there. -/
def getField (items : Items) (field : String) (default : Loaded) : Loaded :=
  ((items.find? fun i => i.1 = ofStr field.toList).map Prod.snd).getD default

/-- A whole number beyond the range of floats. -/
def Loaded.huge : Loaded → Bool
  | .int n => (Double.ofInt n).isNone
  | _ => false

/-- A value without a hash. -/
def Loaded.unhashable : Loaded → Bool
  | .list _ => true
  | .dict _ => true
  | _ => false

/-! ### Types -/

def dictOf : Loaded → Option Items
  | .dict items => some items
  | _ => none

def strOf : Loaded → Option PyStr
  | .str s => some s
  | _ => none

/-- `type(value) is int`. -/
def intOf : Loaded → Option ℤ
  | .int n => some n
  | _ => none

theorem dictOf_eq {value : Loaded} {items : Items} (h : dictOf value = some items) :
    value = .dict items := by
  cases value <;> simp_all [dictOf]

theorem strOf_eq {value : Loaded} {s : PyStr} (h : strOf value = some s) : value = .str s := by
  cases value <;> simp_all [strOf]

theorem intOf_eq {value : Loaded} {n : ℤ} (h : intOf value = some n) : value = .int n := by
  cases value <;> simp_all [intOf]

end LoadedJson
