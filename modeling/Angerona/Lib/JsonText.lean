import Angerona.Lib.PyNumber

/-!
    The texts of JSON: what `json.dumps` writes for a syntax tree.

    Whatever is dumped can be written: no whole number in it is too long. -/

namespace PyJson
open Text

/-! ### Writing -/

def quote : Char := Char.ofNat 0x22
def backslash : Char := Char.ofNat 0x5C

/-- How `json.dumps` is asked to write. -/
structure Layout where
  /-- `ensure_ascii`. -/
  ascii : Bool
  /-- The blanks after a separator. -/
  blanks : ℕ

/-- A separator with the blanks after it. -/
def Layout.separator (L : Layout) (c : Char) : Str := c :: List.replicate L.blanks ' '

def hexDigit (n : ℕ) : Char := if n < 10 then Char.ofNat (0x30 + n) else Char.ofNat (0x57 + n)

def unitDigits (n : ℕ) : Str :=
  [hexDigit (n / 0x1000 % 16), hexDigit (n / 0x100 % 16), hexDigit (n / 0x10 % 16),
    hexDigit (n % 16)]

/-- A code unit as a backslash, `u` and four digits. -/
def escapedUnit (n : ℕ) : Str := backslash :: 'u' :: unitDigits n

/-- The characters with an escape of two characters, and its second one. -/
def shortEscapes : List (Char × Char) :=
  [(quote, quote), (backslash, backslash), (Char.ofNat 0x0A, 'n'), (Char.ofNat 0x0D, 'r'),
    (Char.ofNat 0x09, 't'), (Char.ofNat 0x08, 'b'), (Char.ofNat 0x0C, 'f')]

/-- A character of a string that is written as it is. -/
def isPlain (ascii : Bool) (c : Char) : Bool := 0x20 ≤ c.toNat ∧ (ascii = true → c.toNat ≤ 0x7E)

/-- A character of a string. -/
def escaped (ascii : Bool) (c : Char) : Str :=
  (shortEscapes.find? (·.1 = c)).elim
    (if isPlain ascii c then [c]
    else if c.toNat < 0x10000 then escapedUnit c.toNat
    else escapedUnit (0xD800 + (c.toNat - 0x10000) / 0x400) ++
      escapedUnit (0xDC00 + (c.toNat - 0x10000) % 0x400))
    fun e => [backslash, e.2]

def quoted (ascii : Bool) (s : Str) : Str := quote :: s.flatMap (escaped ascii) ++ [quote]

def floatText (repr : Double → Str) : PyFloat → Str
  | .finite d => repr d
  | .inf neg => if neg then "-Infinity".toList else "Infinity".toList
  | .nan => "NaN".toList

section Writing

variable (repr : Double → Str) (L : Layout)

mutual

/-- The text of a tree. -/
def Json.text : Json → Str
  | .null => "null".toList
  | .bool b => if b then "true".toList else "false".toList
  | .int n => intText n
  | .float f => floatText repr f
  | .str s => quoted L.ascii s
  | .arr xs => '[' :: (textList true xs ++ [']'])
  | .obj members => '{' :: (textMembers true members ++ ['}'])

def textList (first : Bool) : List Json → Str
  | [] => []
  | j :: js => (if first then [] else L.separator ',') ++ (j.text ++ textList false js)

def textMembers (first : Bool) : List (Str × Json) → Str
  | [] => []
  | (s, j) :: members => (if first then [] else L.separator ',') ++
      (quoted L.ascii s ++ (L.separator ':' ++ (j.text ++ textMembers false members)))

end

end Writing

/-! ### What can be written -/

mutual

/-- No whole number of the tree is too long to be written. -/
def Json.written : Json → Bool
  | .int n => !tooLong n
  | .arr xs => writtenList xs
  | .obj members => writtenMembers members
  | _ => true

def writtenList : List Json → Bool
  | [] => true
  | j :: js => j.written && writtenList js

def writtenMembers : List (Str × Json) → Bool
  | [] => true
  | (_, j) :: members => j.written && writtenMembers members

end

/-! ### Dumped trees -/

section Dumped

variable {repr : Double → Str}

theorem writtenMembers_iff {members : List (Str × Json)} :
    writtenMembers members = true ↔ ∀ m ∈ members, m.2.written = true := by
  induction members with
  | nil => simp [writtenMembers]
  | cons m members ih => rw [writtenMembers, Bool.and_eq_true, ih, List.forall_mem_cons]

theorem written_object {items : List (Key × Json)} {sortKeys : Bool} {j : Json}
    (hj : object repr sortKeys items = .ok j) (hi : ∀ i ∈ items, i.2.written = true) :
    j.written = true := by
  rw [object_ok hj, Json.written, writtenMembers_iff]
  intro m hm
  obtain ⟨i, hmem, rfl⟩ := List.mem_map.mp hm
  cases sortKeys with
  | true => exact hi i ((List.perm_insertionSort itemLe items).subset hmem)
  | false => exact hi i hmem

mutual

/-- What is dumped can be written. -/
theorem written_dumps {sortKeys : Bool} : ∀ {v : Value} {j : Json},
    v.dumps repr sortKeys = .ok j → j.written = true
  | .null, j, hj => by
    obtain rfl := Except.ok.inj hj
    rfl
  | .bool b, j, hj => by
    obtain rfl := Except.ok.inj hj
    rfl
  | .int n, j, hj => by
    rw [Value.dumps] at hj
    obtain ⟨hlong, hj⟩ := Raising.if_error_ok.mp hj
    obtain rfl := Except.ok.inj hj
    simpa [Json.written] using hlong
  | .float f, j, hj => by
    obtain rfl := Except.ok.inj hj
    rfl
  | .str s, j, hj => by
    obtain rfl := Except.ok.inj hj
    rfl
  | .other text, j, hj => by
    obtain rfl := Except.ok.inj hj
    rfl
  | .list xs, j, hj => by
    obtain ⟨js, hjs, rfl⟩ := Raising.map_ok.mp hj
    exact written_dumpsList hjs
  | .dict items, j, hj => by
    obtain ⟨js, hjs, hj⟩ := Raising.bind_ok.mp hj
    exact written_object hj (written_dumpsItems hjs)

theorem written_dumpsList {sortKeys : Bool} : ∀ {xs : List Value} {js : List Json},
    dumpsList repr sortKeys xs = .ok js → writtenList js = true
  | [], js, hj => by
    obtain rfl := Except.ok.inj hj
    rfl
  | v :: vs, js, hj => by
    obtain ⟨j, hj₁, hj⟩ := Raising.bind_ok.mp hj
    obtain ⟨js, hjs, hj⟩ := Raising.bind_ok.mp hj
    obtain rfl := Except.ok.inj hj
    rw [writtenList, written_dumps hj₁, written_dumpsList hjs]
    rfl

theorem written_dumpsItems {sortKeys : Bool} : ∀ {items : List (Key × Value)}
    {js : List (Key × Json)}, dumpsItems repr sortKeys items = .ok js →
      ∀ i ∈ js, i.2.written = true
  | [], js, hj, i, hi => by
    obtain rfl := Except.ok.inj hj
    simp at hi
  | (k, v) :: items, js, hj, i, hi => by
    obtain ⟨j, hj₁, hj⟩ := Raising.bind_ok.mp hj
    obtain ⟨js, hjs, hj⟩ := Raising.bind_ok.mp hj
    obtain rfl := Except.ok.inj hj
    rcases List.mem_cons.mp hi with rfl | hi
    · exact written_dumps hj₁
    · exact written_dumpsItems hjs i hi

end

end Dumped

end PyJson
