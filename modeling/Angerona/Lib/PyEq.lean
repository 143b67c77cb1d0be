import Angerona.Lib.PyNumber

/-!
    Python's `==` on values: numbers of all types are compared as numbers, containers by what they
    contain. -/

namespace PyJson
open Text

def Num.eq : Num → Num → Bool
  | .nan, _ => false
  | _, .nan => false
  | a, b => !a.lt b && !b.lt a

def Value.num : Value → Option Num
  | .int n => some (.int n)
  | .bool b => some (.int (if b then 1 else 0))
  | .float f => some f.num
  | _ => none

def Key.eq (a b : Key) : Bool :=
  a = b || match a.num, b.num with
    | some x, some y => x.eq y
    | _, _ => false

mutual

/-- `a == b`. -/
def Value.eq : Value → Value → Bool
  | .null, .null => true
  | .str s, .str t => s = t
  | .list xs, .list ys => eqList xs ys
  | .dict xs, .dict ys => xs.length = ys.length && eqItems ys xs
  | .other s, .other t => s = t
  | a, b =>
    match a.num, b.num with
    | some x, some y => x.eq y
    | _, _ => false

def eqList : List Value → List Value → Bool
  | [], [] => true
  | x :: xs, y :: ys => x.eq y && eqList xs ys
  | _, _ => false

/-- Every item has an equal one in a dictionary. -/
def eqItems (ys : List (Key × Value)) : List (Key × Value) → Bool
  | [] => true
  | (k, v) :: items =>
    (match ys.find? fun item => item.1.eq k with
      | some (_, w) => v.eq w
      | none => false) && eqItems ys items

end

end PyJson
