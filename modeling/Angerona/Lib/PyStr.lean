import Angerona.Lib.Text

/-!
    Python strings with lone surrogates.

    A Python string is a sequence of code points, and some of them are halves of surrogate pairs
    that no UTF-8 text has. A string that leaves the program, as a column or as the bytes that are
    signed, is encoded first, and `encode` fails on those. -/

namespace PyStr
open Text

inductive Point where
  | char (c : Char)
  /-- `U+D800 + n`. -/
  | high (n : Fin 1024)
  /-- `U+DC00 + n`. -/
  | low (n : Fin 1024)
  deriving DecidableEq

def Point.code : Point → ℕ
  | .char c => c.toNat
  | .high n => 0xD800 + n
  | .low n => 0xDC00 + n

def Point.char? : Point → Option Char
  | .char c => some c
  | .high _ => none
  | .low _ => none

end PyStr

/-- A Python string. -/
abbrev PyStr := List PyStr.Point

namespace PyStr
open Text

def ofStr (s : Str) : PyStr := s.map .char

/-- `s.encode("utf-8")`: `none` when it raises. -/
def encode (s : PyStr) : Option Str := s.mapM Point.char?

/-- Both halves of a pair, one after the other, are one character. -/
def pair (h l : Fin 1024) : Char := Char.ofNat (0x10000 + h * 1024 + l)

/-- `json.loads(json.dumps(s))`. -/
def reloaded : PyStr → PyStr
  | .high h :: .low l :: s => .char (pair h l) :: reloaded s
  | p :: s => p :: reloaded s
  | [] => []

/-- What `sorted` asks of two strings. -/
def pointsLe (s t : PyStr) : Prop := ¬t.map Point.code < s.map Point.code

instance : DecidableRel pointsLe := fun _ _ => inferInstanceAs (Decidable (¬_))

/-- `s.strip()`, for the characters `strips` says. -/
def stripBy (strips : Char → Bool) (s : PyStr) : PyStr :=
  let cut := List.dropWhile fun p : Point => p.char?.any strips
  (cut (cut s).reverse).reverse

/-! ### Encoding -/

@[simp] theorem encode_ofStr (s : Str) : encode (ofStr s) = some s := by
  induction s with
  | nil => rfl
  | cons c s ih =>
    rw [ofStr, List.map_cons, encode, List.mapM_cons]
    change (do let s ← encode (ofStr s); pure (c :: s)) = _
    rw [ih]
    rfl

/-- What a string encodes to is the string. -/
theorem encode_eq_some {s : PyStr} {t : Str} : encode s = some t ↔ s = ofStr t := by
  constructor
  · intro h
    induction s generalizing t with
    | nil =>
      obtain rfl := Option.some.inj h
      rfl
    | cons p s ih =>
      rw [encode, List.mapM_cons] at h
      obtain ⟨c, hc, h⟩ := Option.bind_eq_some_iff.mp h
      obtain ⟨u, hu, h⟩ := Option.bind_eq_some_iff.mp h
      obtain rfl := Option.some.inj h
      cases p with
      | char d =>
        obtain rfl := Option.some.inj hc
        rw [ih hu]
        rfl
      | high n => exact absurd hc (by simp [Point.char?])
      | low n => exact absurd hc (by simp [Point.char?])
  · rintro rfl
    exact encode_ofStr t

end PyStr
