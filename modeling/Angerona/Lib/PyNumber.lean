import Angerona.Lib.PyJson

/-!
    The conversions `str()`, `float()` and `int()` of a loaded value, and float differences.

    The texts of containers, and the numbers that a text denotes, are the interpreter's; the rest
    is computed. -/

namespace PyJson
open Text

/-- What a conversion raises. -/
inductive PyError where
  | type
  | value
  | overflow
  deriving DecidableEq

structure Interpreter where
  /-- `float.__repr__` of a finite float. -/
  repr : Double → Str
  /-- `str()` of a float, a list or a dictionary. -/
  shown : Value → Str
  /-- `float()` of a text. -/
  parseFloat : Str → Option PyFloat
  /-- `int()` of a text. -/
  parseInt : Str → Option ℤ

namespace Interpreter

variable (h : Interpreter)

/-- `str(value)`. -/
def str : Value → Str
  | .null => "None".toList
  | .bool b => if b then "True".toList else "False".toList
  | .int n => intText n
  | .str s => s
  | v => h.shown v

/-- `float(value)`. -/
def float : Value → Except PyError PyFloat
  | .bool b => .ok (.finite (if b then Double.ofNat 1 Double.one_fits else Double.zero))
  | .int n => ((Double.ofInt n).map PyFloat.finite).elim (.error .overflow) .ok
  | .float f => .ok f
  | .str s => (h.parseFloat s).elim (.error .value) .ok
  | _ => .error .type

/-- `int(value)`. -/
def int : Value → Except PyError ℤ
  | .bool b => .ok (if b then 1 else 0)
  | .int n => .ok n
  | .float (.finite d) => .ok d.trunc
  | .float (.inf _) => .error .overflow
  | .float .nan => .error .value
  | .str s => (h.parseInt s).elim (.error .value) .ok
  | _ => .error .type

end Interpreter

/-- `d.get(name, default)`. -/
def getOr (name : Str) (default : Value) (items : List (Key × Value)) : Value :=
  ((items.find? fun item => item.1 = .str name).map Prod.snd).getD default

/-- `a < b` on floats. -/
def PyFloat.lt (a b : PyFloat) : Bool := a.num.lt b.num

/-- `a - b`. -/
def PyFloat.sub (a b : Double) : PyFloat :=
  match a.add b.opposite with
  | some d => .finite d
  | none => .inf (decide (a.val < b.val))

/-! ### Lemmas -/

theorem getOr_of_getItem {name : Str} {default v : Value} {items : List (Key × Value)}
    (h : getItem name items = v) (hv : v ≠ .null) : getOr name default items = v := by
  rw [getItem] at h
  rw [getOr]
  rcases hfind : (items.find? fun item => item.1 = .str name).map Prod.snd with _ | w
  · rw [hfind] at h
    exact absurd h.symm hv
  · rw [hfind] at h ⊢
    exact h

theorem mem_intText {n : ℤ} {c : Char} (h : c ∈ intText n) : c = '-' ∨ c.isDigit = true := by
  cases n with
  | ofNat n => exact .inr (Nat.isDigit_of_mem_toDigits (by decide) (by decide) h)
  | negSucc n =>
    rcases List.mem_cons.mp h with rfl | h
    · exact .inl rfl
    · exact .inr (Nat.isDigit_of_mem_toDigits (by decide) (by decide) h)

theorem toDigits_inj {n m : ℕ} (h : Nat.toDigits 10 n = Nat.toDigits 10 m) : n = m := by
  have hn := @Nat.ofDigitChars_ten_toDigits n
  rw [h, Nat.ofDigitChars_ten_toDigits] at hn
  exact hn.symm

theorem toDigits_ne_minus (n : ℕ) (s : Str) : Nat.toDigits 10 n ≠ '-' :: s := by
  intro h
  have hdigit : '-'.isDigit = true :=
    Nat.isDigit_of_mem_toDigits (by decide) (by decide) (h ▸ List.mem_cons_self)
  exact absurd hdigit (by decide)

theorem intText_inj {n m : ℤ} (h : intText n = intText m) : n = m := by
  cases n with
  | ofNat n =>
    cases m with
    | ofNat m => exact congrArg Int.ofNat (toDigits_inj h)
    | negSucc m => exact absurd h (toDigits_ne_minus n _)
  | negSucc n =>
    cases m with
    | ofNat m => exact absurd h.symm (toDigits_ne_minus m _)
    | negSucc m =>
      have hdigits := toDigits_inj (List.cons.inj h).2
      rw [Nat.succ.inj hdigits]

theorem PyFloat.sub_self (a : Double) : PyFloat.sub a a = .finite Double.zero := by
  rw [PyFloat.sub, Double.add_opposite]

end PyJson
