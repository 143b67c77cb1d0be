import Mathlib
import Angerona.Lib.PyJson

/-!
    The values that a presented receipt can hold, and what the broker does with them
    (`core/assurance_receipts.py`).

    A receipt is a dictionary that any code in the process can build. The broker takes the text of some
    of its values, compares them with texts and numbers, looks one up in a set, converts one to a float
    and writes all of them but the authenticator as JSON. Each of these can raise, and an object with
    methods of its own can answer each as it likes: a subclass of `str` has a JSON text that says
    nothing of what it is equal to. The answers are values: none of them calls the broker. -/

namespace Angerona.Assurance

/-- A text: its code points, lone surrogates among them. -/
abbrev Str := List ℕ

def lit (s : String) : Str := s.toList.map Char.toNat

/-- `str(n)`. -/
def intText (n : ℤ) : Str := (PyJson.intText n).map Char.toNat

/-- A text that UTF-8 has. -/
def encodable (s : Str) : Bool := s.all fun c => c < 0xD800 || 0xE000 ≤ c

/-- `_HEX64.fullmatch`. -/
def isHex64 (s : Str) : Bool :=
  s.length = 64 && s.all fun c => (48 ≤ c && c ≤ 57) || (97 ≤ c && c ≤ 102)

/-- A JSON text, by what was written. -/
inductive Json (T : Type) where
  | null
  | bool (b : Bool)
  | int (n : ℤ)
  | float (t : T)
  | str (s : Str)
  | tree (text : Str)
  deriving DecidableEq

/-- What the broker asks of an object with methods of its own; an answer is `none` when it raises. -/
structure Foreign (T : Type) where
  truthy : Option Bool
  /-- `str(v)`. -/
  text : Option Str
  /-- `not v != s`. -/
  isText : Str → Option Bool
  /-- `not v != n`. -/
  isInt : ℤ → Option Bool
  /-- `v in names`. -/
  among : List Str → Option Bool
  /-- `float(v)`: `some none` when it is not finite or raises an error that is caught. -/
  number : Option (Option T)
  /-- `int(v)` does not raise. -/
  whole : Bool
  /-- What JSON writes for it: a subclass of `str` or `int` is written as the value it is made of. -/
  dumped : Option (Json T)

/-- A value of a presented receipt; `T` are the finite floats. -/
inductive Val (T : Type) where
  | none
  | bool (b : Bool)
  | int (n : ℤ)
  /-- A float: `none` when it is not finite. -/
  | float (t : Option T)
  | str (s : Str)
  /-- A list, a tuple or a dictionary: its text, and its JSON text when it has one. -/
  | container (empty hashable : Bool) (text dumped : Option Str)
  | foreign (object : Foreign T)

/-- What the interpreter does with numbers and their texts. -/
structure Numbers (T : Type) where
  /-- `float(n)`: `none` on overflow. -/
  ofInt : ℤ → Option T
  /-- `float(s)`: `none` when `s` is no number or not a finite one. -/
  parse : Str → Option T
  /-- `int(s)` does not raise. -/
  isWhole : Str → Bool
  /-- `str(t)`. -/
  floatText : Option T → Str
  /-- `t == n`. -/
  floatIsInt : T → ℤ → Bool

namespace Val

variable {T : Type} (N : Numbers T)

/-- `bool(v)`: `none` when it raises. -/
def truthy : Val T → Option Bool
  | .none => some false
  | .bool b => some b
  | .int n => some (n ≠ 0)
  | .float t => some (t.all fun t => !N.floatIsInt t 0)
  | .str s => some (s ≠ [])
  | .container empty _ _ _ => some !empty
  | .foreign object => object.truthy

/-- `str(v)`: `none` when it raises. -/
def text : Val T → Option Str
  | .none => some (lit "None")
  | .bool b => some (lit (if b then "True" else "False"))
  | .int n => if PyJson.tooLong n then Option.none else some (intText n)
  | .float t => some (N.floatText t)
  | .str s => some s
  | .container _ _ text _ => text
  | .foreign object => object.text

/-- `str(v or "")`. -/
def textOr (v : Val T) : Option Str := do if (← v.truthy N) then v.text N else some []

/-- `not v != s`: `none` when it raises. -/
def isText (v : Val T) (s : Str) : Option Bool :=
  match v with
  | .str t => some (t = s)
  | .foreign object => object.isText s
  | _ => some false

/-- `not v != n`: `none` when it raises. -/
def isInt (v : Val T) (n : ℤ) : Option Bool :=
  match v with
  | .bool b => some ((if b then 1 else 0) = n)
  | .int m => some (m = n)
  | .float t => some (t.any fun t => N.floatIsInt t n)
  | .foreign object => object.isInt n
  | _ => some false

/-- `v in names`, of a set: `none` when it raises. -/
def among (v : Val T) (names : List Str) : Option Bool :=
  match v with
  | .str s => some (names.contains s)
  | .container _ hashable _ _ => if hashable then some false else Option.none
  | .foreign object => object.among names
  | _ => some false

/-- `float(v)`: `none` when it raises an error that is not caught, `some none` when it is not finite or
    raises one that is. -/
def toFloat : Val T → Option (Option T)
  | .none => some Option.none
  | .bool b => some (N.ofInt (if b then 1 else 0))
  | .int n => some (N.ofInt n)
  | .float t => some t
  | .str s => some (N.parse s)
  | .container _ _ _ _ => some Option.none
  | .foreign object => object.number

/-- `int(v)` does not raise. -/
def isWhole : Val T → Bool
  | .none => false
  | .bool _ => true
  | .int _ => true
  | .float t => t.isSome
  | .str s => N.isWhole s
  | .container _ _ _ _ => false
  | .foreign object => object.whole

/-- The value in a `json.dumps` with `allow_nan=False`, encoded as UTF-8: `none` when it raises. -/
def json : Val T → Option (Json T)
  | .none => some .null
  | .bool b => some (.bool b)
  | .int n => if PyJson.tooLong n then Option.none else some (.int n)
  | .float t => t.map .float
  | .str s => if encodable s then some (.str s) else Option.none
  | .container _ _ _ dumped => dumped.map .tree
  | .foreign object => object.dumped

/-- A value of a built-in type, or one that JSON does not write. -/
def builtin : Val T → Bool
  | .foreign object => object.dumped.isNone
  | _ => true

/-- What a value is whose JSON text is a string or a number. -/
def Is (v : Val T) : Json T → Prop
  | .str s => v = .str s
  | .int n => v = .int n
  | .float t => v = .float (some t)
  | _ => True

theorem json_is {v : Val T} (hbuiltin : v.builtin = true) {j : Json T} (h : v.json = some j) : v.Is j := by
  cases v with
  | none =>
    obtain rfl := Option.some.inj h
    trivial
  | bool b =>
    obtain rfl := Option.some.inj h
    trivial
  | int n =>
    rw [json] at h
    split at h
    · cases h
    · obtain rfl := Option.some.inj h
      rfl
  | float t =>
    obtain ⟨u, rfl, rfl⟩ := Option.map_eq_some_iff.mp h
    rfl
  | str s =>
    rw [json] at h
    split at h
    · obtain rfl := Option.some.inj h
      rfl
    · cases h
  | container empty hashable text dumped =>
    obtain ⟨u, -, rfl⟩ := Option.map_eq_some_iff.mp h
    trivial
  | foreign object =>
    rw [json] at h
    rw [builtin, h] at hbuiltin
    cases hbuiltin

/-- A built-in value that JSON writes can be compared. -/
theorem isSome_of_json {v : Val T} (hbuiltin : v.builtin = true) (h : v.json.isSome) :
    (∀ s, (v.isText s).isSome) ∧ (∀ n, (v.isInt N n).isSome) ∧ (v.toFloat N).isSome := by
  cases v with
  | none => exact ⟨fun _ => rfl, fun _ => rfl, rfl⟩
  | bool b => exact ⟨fun _ => rfl, fun _ => rfl, rfl⟩
  | int n => exact ⟨fun _ => rfl, fun _ => rfl, rfl⟩
  | float t => exact ⟨fun _ => rfl, fun _ => rfl, rfl⟩
  | str s => exact ⟨fun _ => rfl, fun _ => rfl, rfl⟩
  | container empty hashable text dumped => exact ⟨fun _ => rfl, fun _ => rfl, rfl⟩
  | foreign object =>
    rw [json] at h
    rw [builtin, Option.isNone_iff_eq_none.mp hbuiltin] at *
    cases h

/-- A text or a number. -/
def Scalar (v : Val T) : Prop := (∃ s, v = .str s) ∨ (∃ n, v = .int n) ∨ ∃ t, v = .float (some t)

/-- A text or a number is known by its JSON text. -/
theorem Scalar.eq_of_json {u v : Val T} (hu : u.Scalar) (hbuiltin : v.builtin = true) {j : Json T}
    (hj : u.json = some j) (hv : v.json = some j) : v = u := by
  have his := json_is hbuiltin hv
  rcases hu with ⟨s, rfl⟩ | ⟨n, rfl⟩ | ⟨t, rfl⟩
  · rw [json] at hj
    split at hj
    · obtain rfl := Option.some.inj hj
      exact his
    · cases hj
  · rw [json] at hj
    split at hj
    · cases hj
    · obtain rfl := Option.some.inj hj
      exact his
  · obtain rfl := Option.some.inj hj
    exact his

theorem textOr_str (s : Str) : (Val.str s : Val T).textOr N = some s := by
  cases s with
  | nil => rfl
  | cons c s => rfl

end Val

end Angerona.Assurance
