import Angerona.Lib.Binary64
import Angerona.Lib.Raising
import Angerona.Lib.Text
import Mathlib.Data.Char
import Mathlib.Data.List.Lex
import Mathlib.Data.List.Sort

/-!
    Python values and the two directions of the `json` module.

    A JSON text is represented by its syntax tree: members of an object keep the order of the text,
    and a number is the value its literal denotes. Two dumps with equal trees under equal options
    are equal texts.

    `dumps(sort_keys=True)` sorts the keys of a dictionary as Python orders them and writes their
    texts afterwards, while a loaded dictionary has the texts as keys. The two orders agree for
    string keys; `2 < 10` but `"10" < "2"`. `dumps_loads` is the round trip for the values on which
    they agree. -/

namespace PyJson
open Text Raising

inductive PyFloat where
  | finite (d : Double)
  | inf (neg : Bool)
  | nan
  deriving DecidableEq

/-- A dictionary key. -/
inductive Key where
  | str (s : Str)
  | int (n : ℤ)
  | bool (b : Bool)
  | float (f : PyFloat)
  | none
  /-- A key of any other type. -/
  | other
  deriving DecidableEq

inductive Value where
  | null
  | bool (b : Bool)
  | int (n : ℤ)
  | float (f : PyFloat)
  | str (s : Str)
  /-- A list or a tuple. -/
  | list (xs : List Value)
  /-- A dictionary, in insertion order. -/
  | dict (items : List (Key × Value))
  /-- Anything else, as its `str()`. -/
  | other (text : Str)

/-- The syntax tree of a JSON text. -/
inductive Json where
  | null
  | bool (b : Bool)
  | int (n : ℤ)
  | float (f : PyFloat)
  | str (s : Str)
  | arr (xs : List Json)
  | obj (members : List (Str × Json))

inductive JsonError where
  | type
  | value
  deriving DecidableEq

/-! ### Keys -/

/-- `int.__repr__`. -/
def intText : ℤ → Str
  | .ofNat n => Nat.toDigits 10 n
  | .negSucc n => '-' :: Nat.toDigits 10 (n + 1)

/-- `sys.get_int_max_str_digits()`. -/
def maxStrDigits : ℕ := 4300

def tooLong (n : ℤ) : Bool := maxStrDigits < (Nat.toDigits 10 n.natAbs).length

/-- A number that keys are compared by; a finite float is a multiple of the least one. -/
inductive Num where
  | int (n : ℤ)
  | finite (v : ℤ)
  | inf (neg : Bool)
  | nan

def PyFloat.num : PyFloat → Num
  | .finite d => .finite d.val
  | .inf neg => .inf neg
  | .nan => .nan

/-- The number a key is; `none` for the keys that are not numbers. -/
def Key.num : Key → Option Num
  | .int n => some (.int n)
  | .bool b => some (.int (if b then 1 else 0))
  | .float f => some f.num
  | _ => .none

def Num.lt : Num → Num → Bool
  | .nan, _ => false
  | _, .nan => false
  | .inf a, .inf b => a && !b
  | .inf a, _ => a
  | _, .inf b => !b
  | .int a, .int b => a < b
  | .finite a, .finite b => a < b
  | .int a, .finite b => a * 2 ^ Double.unitExponent < b
  | .finite a, .int b => a < b * 2 ^ Double.unitExponent

/-- Python's `<` on keys; `none` when it raises. -/
def Key.lt : Key → Key → Option Bool
  | .str s, .str t => some (s < t)
  | a, b =>
    match a.num, b.num with
    | some x, some y => some (x.lt y)
    | _, _ => .none

section Repr

-- `float.__repr__` of a finite float
variable (repr : Double → Str)

/-- The member name a key becomes. -/
def Key.text : Key → Except JsonError Str
  | .str s => .ok s
  | .int n => if tooLong n then .error .value else .ok (intText n)
  | .bool b => .ok (if b then "true".toList else "false".toList)
  | .float (.finite d) => .ok (repr d)
  | .float (.inf neg) => .ok (if neg then "-Infinity".toList else "Infinity".toList)
  | .float .nan => .ok "NaN".toList
  | .none => .ok "null".toList
  | .other => .error .type

/-! ### Dumping -/

/-- What the sort of a list of items asks of two of them: the second is not less. -/
def itemLe {α : Type} (a b : Key × α) : Prop := b.1.lt a.1 ≠ some true

instance {α : Type} : DecidableRel (itemLe (α := α)) := fun a b =>
  inferInstanceAs (Decidable (b.1.lt a.1 ≠ some true))

/-- `sorted(items)`: raises when two of the keys cannot be compared. -/
def sortItems {α : Type} (items : List (Key × α)) : Except JsonError (List (Key × α)) :=
  if 2 ≤ items.length ∧ ¬items.all (fun a => items.all fun b => (a.1.lt b.1).isSome) then
    .error .type
  else .ok (items.insertionSort itemLe)

/-- A member with the text of its key. -/
def named {α : Type} (item : Key × α) : Except JsonError (Str × α) :=
  (item.1.text repr).map fun s => (s, item.2)

/-- The items in the order they are written. -/
def ordered (sortKeys : Bool) (items : List (Key × Json)) :
    Except JsonError (List (Key × Json)) :=
  if sortKeys then sortItems items else .ok items

/-- An object from the items of a dictionary whose values are dumped. -/
def object (sortKeys : Bool) (items : List (Key × Json)) : Except JsonError Json := do
  let items ← ordered sortKeys items
  let members ← items.mapM (named repr)
  .ok (.obj members)

mutual

/-- `json.dumps(value, sort_keys=…, default=str)`. -/
def Value.dumps (sortKeys : Bool) : Value → Except JsonError Json
  | .null => .ok .null
  | .bool b => .ok (.bool b)
  | .int n => if tooLong n then .error .value else .ok (.int n)
  | .float f => .ok (.float f)
  | .str s => .ok (.str s)
  | .list xs => (dumpsList sortKeys xs).map .arr
  | .dict items => do
    let items ← dumpsItems sortKeys items
    object repr sortKeys items
  | .other text => .ok (.str text)

def dumpsList (sortKeys : Bool) : List Value → Except JsonError (List Json)
  | [] => .ok []
  | v :: vs => do
    let j ← v.dumps sortKeys
    let js ← dumpsList sortKeys vs
    .ok (j :: js)

def dumpsItems (sortKeys : Bool) : List (Key × Value) → Except JsonError (List (Key × Json))
  | [] => .ok []
  | (k, v) :: items => do
    let j ← v.dumps sortKeys
    let js ← dumpsItems sortKeys items
    .ok ((k, j) :: js)

end

end Repr

/-! ### The length of a text -/

/-- Characters that a character of a string takes under `ensure_ascii`. -/
def escapedLength (c : Char) : ℕ :=
  let n := c.toNat
  if n = 0x22 ∨ n = 0x5C ∨ n = 0x0A ∨ n = 0x0D ∨ n = 0x09 ∨ n = 0x08 ∨ n = 0x0C then 2
  else if 0x20 ≤ n ∧ n ≤ 0x7E then 1
  else if n < 0x10000 then 6
  else 12

def stringLength (s : Str) : ℕ := 2 + (s.map escapedLength).sum

def floatLength (repr : Double → Str) : PyFloat → ℕ
  | .finite d => (repr d).length
  | .inf neg => if neg then 9 else 8
  | .nan => 3

mutual

/-- The length of an ASCII text; `gap` is the number of blanks after a separator. -/
def Json.length (repr : Double → Str) (gap : ℕ) : Json → ℕ
  | .null => 4
  | .bool b => if b then 4 else 5
  | .int n => (intText n).length
  | .float f => floatLength repr f
  | .str s => stringLength s
  | .arr xs => 2 + lengthList repr gap xs + (xs.length - 1) * (1 + gap)
  | .obj members => 2 + lengthMembers repr gap members + (members.length - 1) * (1 + gap)

def lengthList (repr : Double → Str) (gap : ℕ) : List Json → ℕ
  | [] => 0
  | j :: js => j.length repr gap + lengthList repr gap js

def lengthMembers (repr : Double → Str) (gap : ℕ) : List (Str × Json) → ℕ
  | [] => 0
  | (s, j) :: members =>
    stringLength s + 1 + gap + j.length repr gap + lengthMembers repr gap members

end

/-- Bytes that a character of a string takes in UTF-8 without `ensure_ascii`. -/
def utf8EscapedLength (c : Char) : ℕ :=
  let n := c.toNat
  if n = 0x22 ∨ n = 0x5C ∨ n = 0x0A ∨ n = 0x0D ∨ n = 0x09 ∨ n = 0x08 ∨ n = 0x0C then 2
  else if n < 0x20 then 6
  else c.utf8Size

def utf8StringLength (s : Str) : ℕ := 2 + (s.map utf8EscapedLength).sum

mutual

/-- The bytes of a UTF-8 text without blanks after separators. -/
def Json.utf8Length (repr : Double → Str) : Json → ℕ
  | .null => 4
  | .bool b => if b then 4 else 5
  | .int n => (intText n).length
  | .float f => floatLength repr f
  | .str s => utf8StringLength s
  | .arr xs => 2 + utf8LengthList repr xs + (xs.length - 1)
  | .obj members => 2 + utf8LengthMembers repr members + (members.length - 1)

def utf8LengthList (repr : Double → Str) : List Json → ℕ
  | [] => 0
  | j :: js => j.utf8Length repr + utf8LengthList repr js

def utf8LengthMembers (repr : Double → Str) : List (Str × Json) → ℕ
  | [] => 0
  | (s, j) :: members =>
    utf8StringLength s + 1 + j.utf8Length repr + utf8LengthMembers repr members

end

/-! ### Loading -/

/-- `d[k] = v`. -/
def setItem (k : Key) (v : Value) (items : List (Key × Value)) : List (Key × Value) :=
  if items.any fun item => item.1 = k then
    items.map fun item => if item.1 = k then (k, v) else item
  else items ++ [(k, v)]

/-- The dictionary of a list of items: of two with one key the last one stays. -/
def dictOf (items : List (Key × Value)) : List (Key × Value) :=
  items.foldl (fun d item => setItem item.1 item.2 d) []

mutual

/-- `json.loads`. -/
def Json.loads : Json → Value
  | .null => .null
  | .bool b => .bool b
  | .int n => .int n
  | .float f => .float f
  | .str s => .str s
  | .arr xs => .list (loadsList xs)
  | .obj members => .dict (dictOf (loadsMembers members))

def loadsList : List Json → List Value
  | [] => []
  | j :: js => j.loads :: loadsList js

def loadsMembers : List (Str × Json) → List (Key × Value)
  | [] => []
  | (s, j) :: members => (.str s, j.loads) :: loadsMembers members

end

/-! ### Keys whose order is that of their texts -/

section Aligned

variable (repr : Double → Str)

/-- Two keys have different texts, and Python orders them as their texts. -/
def Key.agrees (a b : Key) : Bool :=
  match a.text repr, b.text repr with
  | .ok s, .ok t => s ≠ t ∧ a.lt b = some (decide (s < t)) ∧ b.lt a = some (decide (t < s))
  | _, _ => false

def alignedKeys : List Key → Bool
  | [] => true
  | k :: ks => ks.all (k.agrees repr) && alignedKeys ks

mutual

/-- In every dictionary, at every level, the keys are ordered as their texts. -/
def Value.aligned : Value → Bool
  | .list xs => alignedList xs
  | .dict items => alignedKeys repr (items.map Prod.fst) && alignedItems items
  | _ => true

def alignedList : List Value → Bool
  | [] => true
  | v :: vs => v.aligned && alignedList vs

def alignedItems : List (Key × Value) → Bool
  | [] => true
  | (_, v) :: items => v.aligned && alignedItems items

end

end Aligned

/-! ### Sorting by keys and by texts -/

def textLe {α : Type} (a b : Str × α) : Prop := ¬b.1 < a.1

instance {α : Type} : DecidableRel (textLe (α := α)) := fun a b =>
  inferInstanceAs (Decidable (¬b.1 < a.1))

theorem textLe_iff {α : Type} {a b : Str × α} : textLe a b ↔ a.1 ≤ b.1 := not_lt

instance {α : Type} : Std.Total (textLe (α := α)) :=
  ⟨fun a b => by simpa only [textLe_iff] using le_total a.1 b.1⟩

instance {α : Type} : IsTrans (Str × α) textLe :=
  ⟨fun a b c => by simpa only [textLe_iff] using le_trans⟩

section Members

variable {repr : Double → Str} {α : Type}

/-- The text of a key that has one. -/
def Key.name (repr : Double → Str) (k : Key) : Str := (k.text repr).toOption.getD []

/-- A member named by the text of its key. -/
def member (repr : Double → Str) (item : Key × α) : Str × α := (item.1.name repr, item.2)

/-- A member under a string key. -/
def strItem (m : Str × α) : Key × α := (.str m.1, m.2)

end Members

/-! ### Texts whose members are in order -/

def keyLe (a b : Key) : Prop := b.lt a ≠ some true

instance : DecidableRel keyLe := fun a b => inferInstanceAs (Decidable (b.lt a ≠ some true))

mutual

/-- In every object, at every level, the names of the members increase. -/
def Json.ordered : Json → Bool
  | .arr xs => orderedList xs
  | .obj members => decide ((members.map Prod.fst).Pairwise (· < ·)) && orderedMembers members
  | _ => true

def orderedList : List Json → Bool
  | [] => true
  | j :: js => j.ordered && orderedList js

def orderedMembers : List (Str × Json) → Bool
  | [] => true
  | (_, j) :: members => j.ordered && orderedMembers members

end

section Ordered

variable (repr : Double → Str)

/-- The texts of the sorted keys increase. -/
def increasing (ks : List Key) : Bool :=
  decide (((ks.insertionSort keyLe).map (Key.name repr)).Pairwise (· < ·))

mutual

/-- In every dictionary, at every level, the texts of the sorted keys increase. -/
def Value.ordered : Value → Bool
  | .list xs => orderedValues xs
  | .dict items => increasing repr (items.map Prod.fst) && orderedItems items
  | _ => true

def orderedValues : List Value → Bool
  | [] => true
  | v :: vs => v.ordered && orderedValues vs

def orderedItems : List (Key × Value) → Bool
  | [] => true
  | (_, v) :: items => v.ordered && orderedItems items

end

end Ordered

section Sorting

variable {repr : Double → Str} {α : Type}

theorem mapM_named : ∀ {items : List (Key × α)} {members : List (Str × α)},
    items.mapM (named repr) = .ok members → members = items.map (member repr)
  | [], members, h => (Except.ok.inj h).symm
  | item :: items, members, h => by
    rw [List.mapM_cons] at h
    obtain ⟨m, hm, h⟩ := bind_ok.mp h
    obtain ⟨ms, hms, h⟩ := bind_ok.mp h
    obtain rfl := Except.ok.inj h
    obtain ⟨s, hs, rfl⟩ := map_ok.mp hm
    rw [mapM_named hms, List.map_cons, member, Key.name, hs]
    rfl

theorem mapM_named_str (members : List (Str × α)) :
    (members.map strItem).mapM (named repr) = .ok members := by
  induction members with
  | nil => rfl
  | cons m members ih =>
    rw [List.map_cons, List.mapM_cons, ih]
    rfl

/-- Items under string keys are sorted as their texts are. -/
theorem sortItems_str (members : List (Str × α)) :
    sortItems (members.map strItem) = .ok ((members.insertionSort textLe).map strItem) := by
  rw [sortItems, if_neg, List.map_insertionSort textLe itemLe]
  · intro a _ b _
    simp [textLe, itemLe, strItem, Key.lt]
  · rintro ⟨-, h⟩
    exact h (by simp [strItem, Key.lt])

theorem object_str (sortKeys : Bool) (members : List (Str × Json)) :
    object repr sortKeys (members.map strItem) =
      .ok (.obj (if sortKeys then members.insertionSort textLe else members)) := by
  cases sortKeys with
  | false =>
    change (members.map strItem).mapM (named repr) >>= _ = _
    rw [mapM_named_str]
    rfl
  | true =>
    rw [object, ordered, if_pos rfl, sortItems_str]
    change ((members.insertionSort textLe).map strItem).mapM (named repr) >>= _ = _
    rw [mapM_named_str]
    rfl

/-- Two keys are in one order as keys and as texts. -/
def SameOrder (repr : Double → Str) (a b : Key) : Prop :=
  (keyLe a b ↔ a.name repr ≤ b.name repr) ∧ (keyLe b a ↔ b.name repr ≤ a.name repr)

instance : Std.Symm (SameOrder repr) := ⟨fun _ _ h => ⟨h.2, h.1⟩⟩

theorem SameOrder.of_agrees {a b : Key} (h : a.agrees repr b = true) : SameOrder repr a b := by
  rw [Key.agrees] at h
  split at h
  · rename_i s t hs ht
    simp only [decide_eq_true_eq, ne_eq] at h
    obtain ⟨-, hab, hba⟩ := h
    simp [SameOrder, keyLe, Key.name, hs, ht, hab, hba, Except.toOption]
  · simp at h

theorem Key.agrees_ne {a b : Key} (h : a.agrees repr b = true) : a.name repr ≠ b.name repr := by
  rw [Key.agrees] at h
  split at h
  · rename_i s t hs ht
    simp only [decide_eq_true_eq, ne_eq] at h
    simpa [Key.name, hs, ht, Except.toOption] using h.1
  · simp at h

theorem alignedKeys_pairwise : ∀ {ks : List Key}, alignedKeys repr ks = true →
    ks.Pairwise fun a b => a.agrees repr b = true
  | [], _ => .nil
  | k :: ks, h => by
    simp only [alignedKeys, Bool.and_eq_true, List.all_eq_true] at h
    exact .cons h.1 (alignedKeys_pairwise h.2)

/-- Python's comparison of a key with itself never puts it before itself. -/
theorem Key.lt_self (k : Key) : k.lt k ≠ some true := by
  have hnum : ∀ x : Num, x.lt x = false := by
    rintro (n | v | neg | _)
    · simp [Num.lt]
    · simp [Num.lt]
    · cases neg <;> rfl
    · rfl
  cases k with
  | str s => simp [Key.lt]
  | int n => simp [Key.lt, Key.num, hnum]
  | bool b => simp [Key.lt, Key.num, hnum]
  | float f => simp [Key.lt, Key.num, hnum]
  | none => simp [Key.lt, Key.num]
  | other => simp [Key.lt, Key.num]

/-- Sorting aligned keys sorts their texts. -/
theorem map_name_sort {ks : List Key} (h : alignedKeys repr ks = true) :
    (ks.insertionSort keyLe).map (Key.name repr) = (ks.map (Key.name repr)).insertionSort (· ≤ ·) := by
  refine List.map_insertionSort keyLe (· ≤ ·) _ _ fun a ha b hb => ?_
  have hself : ∀ a ∈ ks, SameOrder repr a a := fun a _ => by
    simp [SameOrder, keyLe, Key.lt_self]
  exact (List.Pairwise.forall_of_forall hself
    ((alignedKeys_pairwise h).imp SameOrder.of_agrees) ha hb).1

theorem increasing_of_aligned {ks : List Key} (h : alignedKeys repr ks = true) :
    increasing repr ks = true := by
  have hnodup : (ks.map (Key.name repr)).Nodup :=
    List.pairwise_map.mpr ((alignedKeys_pairwise h).imp Key.agrees_ne)
  rw [increasing, decide_eq_true_eq, map_name_sort h]
  have hle := List.pairwise_insertionSort (· ≤ ·) (ks.map (Key.name repr))
  have hne := (List.perm_insertionSort (· ≤ ·) (ks.map (Key.name repr))).nodup_iff.mpr hnodup
  exact hle.imp₂ (fun a b hab hn => lt_of_le_of_ne hab hn) hne

/-- The members of an object, in the order of its text. -/
theorem object_ok {items : List (Key × Json)} {sortKeys : Bool} {j : Json}
    (hj : object repr sortKeys items = .ok j) :
    j = .obj ((if sortKeys then items.insertionSort itemLe else items).map (member repr)) := by
  rw [object] at hj
  obtain ⟨sorted, hsorted, hj⟩ := bind_ok.mp hj
  obtain ⟨members, hmembers, hj⟩ := bind_ok.mp hj
  obtain rfl := Except.ok.inj hj
  rw [mapM_named hmembers]
  cases sortKeys with
  | false =>
    obtain rfl := Except.ok.inj hsorted
    simp
  | true =>
    obtain ⟨-, hsorted⟩ := if_error_ok.mp hsorted
    obtain rfl := Except.ok.inj hsorted
    simp

end Sorting

/-! ### The round trip -/

section RoundTrip

variable {repr : Double → Str}

theorem setItem_fresh {k : Key} {v : Value} {items : List (Key × Value)}
    (h : k ∉ items.map Prod.fst) : setItem k v items = items ++ [(k, v)] := by
  rw [setItem, if_neg]
  intro hany
  obtain ⟨item, hitem, hk⟩ := List.any_eq_true.mp hany
  exact h (List.mem_map.mpr ⟨item, hitem, by simpa using hk⟩)

/-- Items with different keys are a dictionary as they stand. -/
theorem dictOf_nodup {items : List (Key × Value)} (h : (items.map Prod.fst).Nodup) :
    dictOf items = items := by
  have hgen : ∀ (items d : List (Key × Value)), ((d ++ items).map Prod.fst).Nodup →
      items.foldl (fun d item => setItem item.1 item.2 d) d = d ++ items := by
    intro items
    induction items with
    | nil => intro d _; rw [List.foldl_nil, List.append_nil]
    | cons item items ih =>
      intro d hd
      have hfresh : item.1 ∉ d.map Prod.fst := by
        rw [List.map_append, List.map_cons] at hd
        intro hmem
        exact (List.nodup_append.mp hd).2.2 _ hmem _ List.mem_cons_self rfl
      rw [List.foldl_cons, setItem_fresh hfresh, ih _ (by simpa using hd), List.append_assoc]
      rfl
  exact hgen items [] (by simpa using h)

theorem loadsMembers_eq (members : List (Str × Json)) :
    loadsMembers members = members.map fun m => (.str m.1, m.2.loads) := by
  induction members with
  | nil => rfl
  | cons m members ih => rw [loadsMembers, ih, List.map_cons]

theorem loads_obj {members : List (Str × Json)} (h : (members.map Prod.fst).Nodup) :
    (Json.obj members).loads = .dict (members.map fun m => (.str m.1, m.2.loads)) := by
  rw [Json.loads, loadsMembers_eq, dictOf_nodup]
  rw [List.map_map]
  have hinj : Function.Injective Key.str := fun _ _ he => Key.str.inj he
  have hmap := h.map hinj
  rwa [List.map_map] at hmap

/-- Dumping a loaded dictionary whose values have a known dump. -/
theorem dumpsItems_loaded : ∀ {members : List (Str × Json × Json)},
    (∀ m ∈ members, m.2.1.loads.dumps repr true = .ok m.2.2) →
    dumpsItems repr true (members.map fun m => (.str m.1, m.2.1.loads)) =
      .ok (members.map fun m => (.str m.1, m.2.2))
  | [], _ => rfl
  | m :: members, h => by
    rw [List.map_cons, dumpsItems, h m List.mem_cons_self,
      show dumpsItems repr true _ = _ from
        dumpsItems_loaded fun m hm => h m (List.mem_cons_of_mem _ hm)]
    rfl

theorem sort_map_snd {α β : Type} (f : α → β) (members : List (Str × α)) :
    (members.map fun m => (m.1, f m.2)).insertionSort textLe =
      (members.insertionSort textLe).map fun m => (m.1, f m.2) :=
  (List.map_insertionSort textLe textLe (fun m : Str × α => (m.1, f m.2)) members
    fun _ _ _ _ => Iff.rfl).symm

/-- Members that are in order are what sorting makes of them. -/
theorem sort_of_perm {α : Type} {members sorted : List (Str × α)} (hp : members.Perm sorted)
    (h : (sorted.map Prod.fst).Pairwise (· < ·)) : members.insertionSort textLe = sorted := by
  have hlt := List.pairwise_map.mp h
  refine List.Perm.eq_of_pairwise (fun a b ha hb hab hba => ?_)
    (List.pairwise_insertionSort textLe members)
    (hlt.imp fun h => textLe_iff.mpr (le_of_lt h)) ((List.perm_insertionSort textLe _).trans hp)
  rw [textLe_iff] at hab hba
  have hn : (sorted.map Prod.fst).Nodup := h.imp fun hlt => ne_of_lt hlt
  exact List.inj_on_of_nodup_map hn
    (hp.subset ((List.perm_insertionSort textLe _).subset ha)) hb (le_antisymm hab hba)

theorem sort_items {α β : Type} (f : α → β) (items : List (Key × α)) :
    (items.map fun i => (i.1, f i.2)).insertionSort itemLe =
      (items.insertionSort itemLe).map fun i => (i.1, f i.2) :=
  (List.map_insertionSort itemLe itemLe (fun i : Key × α => (i.1, f i.2)) items
    fun _ _ _ _ => Iff.rfl).symm

/-- A dictionary, given with both dumps of each value: once loaded from either text, its canonical
    dump is the one of the original if that is in order. -/
theorem object_loads {items : List (Key × Json × Json)} {sortKeys : Bool} {j c : Json}
    (hitems : ∀ item ∈ items, item.2.1.loads.dumps repr true = .ok item.2.2)
    (hj : object repr sortKeys (items.map fun item => (item.1, item.2.1)) = .ok j)
    (hc : object repr true (items.map fun item => (item.1, item.2.2)) = .ok c)
    (hord : c.ordered = true) : j.loads.dumps repr true = .ok c := by
  -- the members in the order in which the text has them, and in the canonical one
  generalize hstored : (if sortKeys then items.insertionSort itemLe else items).map (member repr) =
    stored
  generalize hsorted : (items.insertionSort itemLe).map (member repr) = sorted
  have hj' : j = .obj (stored.map fun m => (m.1, m.2.1)) := by
    rw [object_ok hj, sort_items, ← hstored, List.map_map]
    cases sortKeys <;> simp [member, Function.comp_def]
  have hc' : c = .obj (sorted.map fun m => (m.1, m.2.2)) := by
    rw [object_ok hc, sort_items, ← hsorted, List.map_map]
    simp [member, Function.comp_def]
  have hperm : stored.Perm sorted := by
    rw [← hstored, ← hsorted]
    refine List.Perm.map _ ?_
    cases sortKeys with
    | false => exact (List.perm_insertionSort _ _).symm
    | true => exact .refl _
  have hincr : (sorted.map Prod.fst).Pairwise (· < ·) := by
    rw [hc', Json.ordered, Bool.and_eq_true, decide_eq_true_eq, List.map_map] at hord
    exact hord.1
  have hnames : (stored.map Prod.fst).Nodup :=
    (hperm.map Prod.fst).nodup_iff.mpr (hincr.imp fun hlt => ne_of_lt hlt)
  have hdumps : ∀ m ∈ stored, m.2.1.loads.dumps repr true = .ok m.2.2 := by
    intro m hm
    rw [← hsorted] at hperm
    obtain ⟨item, hitem, rfl⟩ := List.mem_map.mp (hperm.subset hm)
    exact hitems item ((List.perm_insertionSort _ _).subset hitem)
  have hload : j.loads = .dict (stored.map fun m => (.str m.1, m.2.1.loads)) := by
    rw [hj', loads_obj (by rwa [List.map_map]), List.map_map]
    rfl
  rw [hload, Value.dumps, dumpsItems_loaded hdumps]
  change object repr true (stored.map fun m => (.str m.1, m.2.2)) = _
  rw [show (stored.map fun m => (Key.str m.1, m.2.2)) =
      (stored.map fun m => (m.1, m.2.2)).map strItem by rw [List.map_map]; rfl,
    object_str, if_pos rfl, sort_map_snd, sort_of_perm hperm hincr, hc']

theorem orderedMembers_iff {members : List (Str × Json)} :
    orderedMembers members = true ↔ ∀ m ∈ members, m.2.ordered = true := by
  induction members with
  | nil => simp [orderedMembers]
  | cons m members ih => rw [orderedMembers, Bool.and_eq_true, ih, List.forall_mem_cons]

/-- The order of the members is that of the items. -/
theorem ordered_object {items : List (Key × Json)} {c : Json}
    (hc : object repr true items = .ok c) : c.ordered =
      (increasing repr (items.map Prod.fst) && orderedMembers (items.map (member repr))) := by
  have hkeys : (((items.insertionSort itemLe).map (member repr)).map Prod.fst) =
      ((items.map Prod.fst).insertionSort keyLe).map (Key.name repr) := by
    rw [← List.map_insertionSort itemLe keyLe Prod.fst items fun _ _ _ _ => Iff.rfl, List.map_map,
      List.map_map]
    rfl
  have hmembers : orderedMembers ((items.insertionSort itemLe).map (member repr)) =
      orderedMembers (items.map (member repr)) := by
    rw [Bool.eq_iff_iff, orderedMembers_iff, orderedMembers_iff]
    have hperm := (List.perm_insertionSort itemLe items).map (member repr)
    exact ⟨fun h m hm => h m (hperm.mem_iff.mpr hm), fun h m hm => h m (hperm.mem_iff.mp hm)⟩
  rw [object_ok hc, if_pos rfl, Json.ordered, hkeys, hmembers, increasing]

mutual

/-- The canonical text of a value is in order exactly if the value is. -/
theorem ordered_dumps : ∀ {v : Value} {c : Json}, v.dumps repr true = .ok c →
    c.ordered = v.ordered repr
  | .null, c, hc => by
    obtain rfl := Except.ok.inj hc
    rfl
  | .bool b, c, hc => by
    obtain rfl := Except.ok.inj hc
    rfl
  | .int n, c, hc => by
    rw [Value.dumps] at hc
    obtain ⟨-, hc⟩ := if_error_ok.mp hc
    obtain rfl := Except.ok.inj hc
    rfl
  | .float f, c, hc => by
    obtain rfl := Except.ok.inj hc
    rfl
  | .str s, c, hc => by
    obtain rfl := Except.ok.inj hc
    rfl
  | .other text, c, hc => by
    obtain rfl := Except.ok.inj hc
    rfl
  | .list xs, c, hc => by
    obtain ⟨cs, hcs, rfl⟩ := map_ok.mp hc
    rw [Json.ordered, Value.ordered, orderedList_dumps hcs]
  | .dict items, c, hc => by
    obtain ⟨cs, hcs, hc⟩ := bind_ok.mp hc
    obtain ⟨hkeys, hord⟩ := orderedItems_dumps hcs
    rw [ordered_object hc, Value.ordered, hkeys, hord]

theorem orderedList_dumps : ∀ {xs : List Value} {cs : List Json},
    dumpsList repr true xs = .ok cs → orderedList cs = orderedValues repr xs
  | [], cs, hc => by
    obtain rfl := Except.ok.inj hc
    rfl
  | v :: vs, cs, hc => by
    obtain ⟨c, hc₁, hc⟩ := bind_ok.mp hc
    obtain ⟨cs, hcs, hc⟩ := bind_ok.mp hc
    obtain rfl := Except.ok.inj hc
    rw [orderedList, orderedValues, ordered_dumps hc₁, orderedList_dumps hcs]

theorem orderedItems_dumps : ∀ {items : List (Key × Value)} {cs : List (Key × Json)},
    dumpsItems repr true items = .ok cs → cs.map Prod.fst = items.map Prod.fst ∧
      orderedMembers (cs.map (member repr)) = orderedItems repr items
  | [], cs, hc => by
    obtain rfl := Except.ok.inj hc
    exact ⟨rfl, rfl⟩
  | (k, v) :: items, cs, hc => by
    obtain ⟨c, hc₁, hc⟩ := bind_ok.mp hc
    obtain ⟨cs, hcs, hc⟩ := bind_ok.mp hc
    obtain rfl := Except.ok.inj hc
    obtain ⟨hkeys, hord⟩ := orderedItems_dumps hcs
    rw [List.map_cons, List.map_cons, hkeys, List.map_cons, member, orderedMembers, orderedItems,
      ordered_dumps hc₁, hord]
    exact ⟨rfl, rfl⟩

end

mutual

/-- A value in order has, once dumped and loaded, the canonical dump it had before. -/
theorem loads_ordered {sortKeys : Bool} : ∀ {v : Value} {j c : Json}, v.ordered repr = true →
    v.dumps repr sortKeys = .ok j → v.dumps repr true = .ok c → j.loads.dumps repr true = .ok c
  | .null, j, c, _, hj, hc => by
    obtain rfl := Except.ok.inj hj
    exact hc
  | .bool b, j, c, _, hj, hc => by
    obtain rfl := Except.ok.inj hj
    exact hc
  | .int n, j, c, _, hj, hc => by
    rw [Value.dumps] at hj
    obtain ⟨-, hj⟩ := if_error_ok.mp hj
    obtain rfl := Except.ok.inj hj
    exact hc
  | .float f, j, c, _, hj, hc => by
    obtain rfl := Except.ok.inj hj
    exact hc
  | .str s, j, c, _, hj, hc => by
    obtain rfl := Except.ok.inj hj
    exact hc
  | .other text, j, c, _, hj, hc => by
    obtain rfl := Except.ok.inj hj
    exact hc
  | .list xs, j, c, h, hj, hc => by
    obtain ⟨js, hjs, rfl⟩ := map_ok.mp hj
    obtain ⟨cs, hcs, rfl⟩ := map_ok.mp hc
    rw [Json.loads, Value.dumps, loads_orderedList h hjs hcs]
    rfl
  | .dict items, j, c, h, hj, hc => by
    have hord := ordered_dumps hc
    obtain ⟨js, hjs, hj⟩ := bind_ok.mp hj
    obtain ⟨cs, hcs, hc⟩ := bind_ok.mp hc
    rw [Value.ordered, Bool.and_eq_true] at h
    obtain ⟨both, rfl, rfl, hboth⟩ := loads_orderedItems h.2 hjs hcs
    exact object_loads hboth hj hc (hord.trans (by rw [Value.ordered, h.1, h.2]; rfl))

theorem loads_orderedList {sortKeys : Bool} : ∀ {xs : List Value} {js cs : List Json},
    orderedValues repr xs = true → dumpsList repr sortKeys xs = .ok js →
      dumpsList repr true xs = .ok cs → dumpsList repr true (loadsList js) = .ok cs
  | [], js, cs, _, hj, hc => by
    obtain rfl := Except.ok.inj hj
    exact hc
  | v :: vs, js, cs, h, hj, hc => by
    rw [orderedValues, Bool.and_eq_true] at h
    obtain ⟨j, hj₁, hj⟩ := bind_ok.mp hj
    obtain ⟨js, hjs, hj⟩ := bind_ok.mp hj
    obtain ⟨c, hc₁, hc⟩ := bind_ok.mp hc
    obtain ⟨cs, hcs, hc⟩ := bind_ok.mp hc
    obtain rfl := Except.ok.inj hj
    obtain rfl := Except.ok.inj hc
    rw [loadsList, dumpsList, loads_ordered h.1 hj₁ hc₁, loads_orderedList h.2 hjs hcs]
    rfl

theorem loads_orderedItems {sortKeys : Bool} : ∀ {items : List (Key × Value)}
    {js cs : List (Key × Json)}, orderedItems repr items = true →
      dumpsItems repr sortKeys items = .ok js → dumpsItems repr true items = .ok cs →
      ∃ both : List (Key × Json × Json), js = (both.map fun item => (item.1, item.2.1)) ∧
        cs = (both.map fun item => (item.1, item.2.2)) ∧
        ∀ item ∈ both, item.2.1.loads.dumps repr true = .ok item.2.2
  | [], js, cs, _, hj, hc => by
    obtain rfl := Except.ok.inj hj
    obtain rfl := Except.ok.inj hc
    exact ⟨[], rfl, rfl, by simp⟩
  | (k, v) :: items, js, cs, h, hj, hc => by
    rw [orderedItems, Bool.and_eq_true] at h
    obtain ⟨j, hj₁, hj⟩ := bind_ok.mp hj
    obtain ⟨js, hjs, hj⟩ := bind_ok.mp hj
    obtain ⟨c, hc₁, hc⟩ := bind_ok.mp hc
    obtain ⟨cs, hcs, hc⟩ := bind_ok.mp hc
    obtain rfl := Except.ok.inj hj
    obtain rfl := Except.ok.inj hc
    obtain ⟨both, rfl, rfl, hboth⟩ := loads_orderedItems h.2 hjs hcs
    refine ⟨(k, j, c) :: both, rfl, rfl, ?_⟩
    rintro item (_ | ⟨_, hitem⟩)
    · exact loads_ordered h.1 hj₁ hc₁
    · exact hboth item hitem

end

mutual

theorem ordered_of_aligned : ∀ {v : Value}, v.aligned repr = true → v.ordered repr = true
  | .null, _ | .bool _, _ | .int _, _ | .float _, _ | .str _, _ | .other _, _ => rfl
  | .list xs, h => orderedValues_of_aligned h
  | .dict items, h => by
    rw [Value.aligned, Bool.and_eq_true] at h
    rw [Value.ordered, increasing_of_aligned h.1, orderedItems_of_aligned h.2]
    rfl

theorem orderedValues_of_aligned : ∀ {xs : List Value}, alignedList repr xs = true →
    orderedValues repr xs = true
  | [], _ => rfl
  | v :: vs, h => by
    rw [alignedList, Bool.and_eq_true] at h
    rw [orderedValues, ordered_of_aligned h.1, orderedValues_of_aligned h.2]
    rfl

theorem orderedItems_of_aligned : ∀ {items : List (Key × Value)}, alignedItems repr items = true →
    orderedItems repr items = true
  | [], _ => rfl
  | (k, v) :: items, h => by
    rw [alignedItems, Bool.and_eq_true] at h
    rw [orderedItems, ordered_of_aligned h.1, orderedItems_of_aligned h.2]
    rfl

end

/-- A value whose keys are aligned has, once dumped and loaded, the canonical dump it had
    before. -/
theorem dumps_loads {sortKeys : Bool} {v : Value} {j c : Json} (h : v.aligned repr = true)
    (hj : v.dumps repr sortKeys = .ok j) (hc : v.dumps repr true = .ok c) :
    j.loads.dumps repr true = .ok c :=
  loads_ordered (ordered_of_aligned h) hj hc

/-- Without aligned keys it has not: `2 < 10`, but the text of `10` comes first. -/
example : (Value.dict [(.int 2, .null), (.int 10, .null)]).dumps repr true =
      .ok (.obj [("2".toList, .null), ("10".toList, .null)]) ∧
    (Json.obj [("2".toList, .null), ("10".toList, .null)]).loads.dumps repr true =
      .ok (.obj [("10".toList, .null), ("2".toList, .null)]) := by
  constructor
  · rfl
  · rfl

end RoundTrip

/-! ### Loaded values -/

section Loaded

variable {repr : Double → Str}

theorem setItem_keys (k : Key) (v : Value) (items : List (Key × Value)) :
    (setItem k v items).map Prod.fst =
      if k ∈ items.map Prod.fst then items.map Prod.fst else items.map Prod.fst ++ [k] := by
  rw [setItem]
  split
  · rename_i hany
    obtain ⟨item, hitem, hk⟩ := List.any_eq_true.mp hany
    rw [if_pos (List.mem_map.mpr ⟨item, hitem, by simpa using hk⟩), List.map_map]
    refine List.map_congr_left fun item _ => ?_
    simp only [Function.comp]
    split
    · rename_i he
      exact he.symm
    · rfl
  · rename_i hany
    rw [if_neg, List.map_append]
    · rfl
    · intro hmem
      obtain ⟨item, hitem, hk⟩ := List.mem_map.mp hmem
      exact hany (List.any_eq_true.mpr ⟨item, hitem, by simpa using hk⟩)

theorem setItem_nodup {k : Key} {v : Value} {items : List (Key × Value)}
    (h : (items.map Prod.fst).Nodup) : ((setItem k v items).map Prod.fst).Nodup := by
  rw [setItem_keys]
  split
  · exact h
  · rename_i hk
    exact List.nodup_append.mpr ⟨h, List.nodup_singleton k,
      fun a ha b hb hab => hk (List.mem_singleton.mp hb ▸ hab ▸ ha)⟩

theorem mem_setItem {k : Key} {v : Value} {items : List (Key × Value)} {item : Key × Value}
    (h : item ∈ setItem k v items) : item ∈ items ∨ item = (k, v) := by
  rw [setItem] at h
  split at h
  · obtain ⟨item', hitem', rfl⟩ := List.mem_map.mp h
    split
    · exact Or.inr rfl
    · exact Or.inl hitem'
  · rcases List.mem_append.mp h with h | h
    · exact Or.inl h
    · exact Or.inr (List.mem_singleton.mp h)

/-- A dictionary of some items has each key once, and holds nothing else. -/
theorem dictOf_spec (items : List (Key × Value)) :
    ((dictOf items).map Prod.fst).Nodup ∧ ∀ item ∈ dictOf items, item ∈ items := by
  have hgen : ∀ (items d : List (Key × Value)), (d.map Prod.fst).Nodup →
      ((items.foldl (fun d item => setItem item.1 item.2 d) d).map Prod.fst).Nodup ∧
        ∀ item ∈ items.foldl (fun d item => setItem item.1 item.2 d) d, item ∈ d ∨ item ∈ items := by
    intro items
    induction items with
    | nil => exact fun d hd => ⟨hd, fun item h => Or.inl h⟩
    | cons i items ih =>
      intro d hd
      obtain ⟨hn, hmem⟩ := ih (setItem i.1 i.2 d) (setItem_nodup hd)
      refine ⟨hn, fun item h => ?_⟩
      rcases hmem item h with h | h
      · rcases mem_setItem h with h | h
        · exact Or.inl h
        · exact Or.inr (h ▸ List.mem_cons_self)
      · exact Or.inr (List.mem_cons_of_mem _ h)
  obtain ⟨hn, hmem⟩ := hgen items [] .nil
  exact ⟨hn, fun item h => (hmem item h).resolve_left (by simp)⟩

/-- Different string keys are aligned. -/
theorem alignedKeys_str : ∀ {ks : List Key}, ks.Nodup → (∀ k ∈ ks, ∃ s, k = .str s) →
    alignedKeys repr ks = true
  | [], _, _ => rfl
  | k :: ks, hn, hs => by
    rw [List.nodup_cons] at hn
    rw [alignedKeys, alignedKeys_str hn.2 fun k hk => hs k (List.mem_cons_of_mem _ hk),
      Bool.and_true, List.all_eq_true]
    intro k' hk'
    obtain ⟨s, rfl⟩ := hs k List.mem_cons_self
    obtain ⟨t, rfl⟩ := hs k' (List.mem_cons_of_mem _ hk')
    have hne : s ≠ t := fun he => hn.1 (he ▸ hk')
    simp [Key.agrees, Key.text, Key.lt, hne]

theorem alignedItems_iff {items : List (Key × Value)} :
    alignedItems repr items = true ↔ ∀ item ∈ items, item.2.aligned repr = true := by
  induction items with
  | nil => simp [alignedItems]
  | cons item items ih => simp [alignedItems, ih]

mutual

/-- Whatever is loaded is aligned. -/
theorem aligned_loads : ∀ j : Json, j.loads.aligned repr = true
  | .null => rfl
  | .bool _ => rfl
  | .int _ => rfl
  | .float _ => rfl
  | .str _ => rfl
  | .arr xs => alignedList_loads xs
  | .obj members => by
    obtain ⟨hn, hmem⟩ := dictOf_spec (loadsMembers members)
    rw [Json.loads, Value.aligned, alignedKeys_str hn, Bool.true_and, alignedItems_iff]
    · exact fun item h => (aligned_loadsMembers members item (hmem item h)).2
    · intro k hk
      obtain ⟨item, hitem, rfl⟩ := List.mem_map.mp hk
      exact (aligned_loadsMembers members item (hmem item hitem)).1

theorem alignedList_loads : ∀ js : List Json, alignedList repr (loadsList js) = true
  | [] => rfl
  | j :: js => by rw [loadsList, alignedList, aligned_loads j, alignedList_loads js]; rfl

theorem aligned_loadsMembers : ∀ members : List (Str × Json), ∀ item ∈ loadsMembers members,
    (∃ s, item.1 = .str s) ∧ item.2.aligned repr = true
  | [], _, h => by simp [loadsMembers] at h
  | (s, j) :: members, item, h => by
    rw [loadsMembers] at h
    rcases List.mem_cons.mp h with rfl | h
    · exact ⟨⟨s, rfl⟩, aligned_loads j⟩
    · exact aligned_loadsMembers members item h

end

end Loaded

/-! ### Records of plain fields -/

section Fields

variable {repr : Double → Str}

/-- `d.get(name)`. -/
def getItem (name : Str) (items : List (Key × Value)) : Value :=
  ((items.find? fun item => item.1 = .str name).map Prod.snd).getD .null

/-- `bool(value)`. -/
def truthy : Value → Bool
  | .null | .bool false | .int 0 | .str [] | .list [] | .dict [] => false
  | .float (.finite d) => d.val ≠ 0
  | _ => true

/-- A value that is its own dump. -/
def Value.plain : Value → Bool
  | .null | .bool _ | .float _ | .str _ => true
  | .int n => !tooLong n
  | _ => false

def Value.plainJson : Value → Json
  | .bool b => .bool b
  | .float f => .float f
  | .str s => .str s
  | .int n => .int n
  | _ => .null

theorem Value.dumps_plain {v : Value} (h : v.plain = true) (sortKeys : Bool) :
    v.dumps repr sortKeys = .ok v.plainJson ∧ v.plainJson.loads = v := by
  cases v with
  | null => exact ⟨rfl, rfl⟩
  | bool b => exact ⟨rfl, rfl⟩
  | float f => exact ⟨rfl, rfl⟩
  | str s => exact ⟨rfl, rfl⟩
  | int n =>
    simp only [Value.plain, Bool.not_eq_true'] at h
    exact ⟨by simp [Value.dumps, h, Value.plainJson], rfl⟩
  | list xs => simp [Value.plain] at h
  | dict items => simp [Value.plain] at h
  | other text => simp [Value.plain] at h

/-- A dictionary with string keys. -/
def record (fields : List (Str × Value)) : Value := .dict (fields.map strItem)

theorem dumpsItems_plain : ∀ {fields : List (Str × Value)}, (∀ f ∈ fields, f.2.plain = true) →
    ∀ sortKeys, dumpsItems repr sortKeys (fields.map strItem) =
      .ok ((fields.map fun f => (f.1, f.2.plainJson)).map strItem)
  | [], _, _ => rfl
  | f :: fields, h, sortKeys => by
    rw [List.map_cons, strItem, dumpsItems,
      (Value.dumps_plain (h f List.mem_cons_self) sortKeys).1,
      dumpsItems_plain (fun f hf => h f (List.mem_cons_of_mem _ hf)) sortKeys]
    rfl

theorem dumps_record {fields : List (Str × Value)} (h : ∀ f ∈ fields, f.2.plain = true)
    (sortKeys : Bool) : (record fields).dumps repr sortKeys =
      .ok (.obj (if sortKeys then (fields.map fun f => (f.1, f.2.plainJson)).insertionSort textLe
        else fields.map fun f => (f.1, f.2.plainJson))) := by
  rw [record, Value.dumps, dumpsItems_plain h]
  exact object_str sortKeys _

/-- A record comes back from its text with its fields in the order of the text. -/
theorem loads_record {fields : List (Str × Value)} (h : ∀ f ∈ fields, f.2.plain = true)
    (hn : (fields.map Prod.fst).Nodup) {j : Json} (hj : (record fields).dumps repr true = .ok j) :
    j.loads = record (fields.insertionSort textLe) := by
  rw [dumps_record h, if_pos rfl] at hj
  obtain rfl := Except.ok.inj hj
  have hnames : (((fields.insertionSort textLe).map fun f => (f.1, f.2.plainJson)).map
      Prod.fst).Nodup := by
    rw [List.map_map]
    exact ((List.perm_insertionSort textLe fields).map Prod.fst).nodup_iff.mpr hn
  rw [sort_map_snd, loads_obj hnames, List.map_map, record]
  congr 1
  refine List.map_congr_left fun f hf => ?_
  have hplain := h f ((List.perm_insertionSort textLe fields).subset hf)
  simp only [Function.comp, strItem, (@Value.dumps_plain repr _ hplain true).2]

/-- The order of the fields does not show in the canonical dump. -/
theorem dumps_record_perm {fields fields' : List (Str × Value)} (hp : fields.Perm fields')
    (h : ∀ f ∈ fields, f.2.plain = true) (hn : (fields.map Prod.fst).Nodup) :
    (record fields).dumps repr true = (record fields').dumps repr true := by
  have hsort : fields.insertionSort textLe = fields'.insertionSort textLe := by
    refine List.Perm.eq_of_pairwise (fun f g hf hg hfg hgf => ?_)
      (List.pairwise_insertionSort textLe _) (List.pairwise_insertionSort textLe _)
      (((List.perm_insertionSort textLe _).trans hp).trans
        (List.perm_insertionSort textLe _).symm)
    rw [textLe_iff] at hfg hgf
    refine List.inj_on_of_nodup_map hn ((List.perm_insertionSort textLe _).subset hf)
      (hp.symm.subset ((List.perm_insertionSort textLe _).subset hg)) (le_antisymm hfg hgf)
  rw [dumps_record h, dumps_record fun f hf => h f (hp.symm.subset hf), if_pos rfl, if_pos rfl,
    sort_map_snd, sort_map_snd, hsort]

theorem getItem_record {fields : List (Str × Value)} (hn : (fields.map Prod.fst).Nodup)
    {f : Str × Value} (hf : f ∈ fields) : getItem f.1 (fields.map strItem) = f.2 := by
  induction fields with
  | nil => simp at hf
  | cons g fields ih =>
    rw [List.map_cons, List.nodup_cons] at hn
    rcases List.mem_cons.mp hf with rfl | hf
    · simp [getItem, strItem]
    · have hne : g.1 ≠ f.1 := fun he => hn.1 (he ▸ List.mem_map_of_mem hf)
      rw [List.map_cons, getItem, List.find?_cons_of_neg (by simpa [strItem] using hne)]
      exact ih hn.2 hf

/-! ### Records of any values -/

theorem dumpsItems_str {sortKeys : Bool} : ∀ {fields : List (Str × Value)}
    {js : List (Key × Json)}, dumpsItems repr sortKeys (fields.map strItem) = .ok js →
      ∃ members : List (Str × Json), js = members.map strItem ∧
        List.Forall₂ (fun f m => f.1 = m.1 ∧ f.2.dumps repr sortKeys = .ok m.2) fields members
  | [], js, h => by
    obtain rfl := Except.ok.inj h
    exact ⟨[], rfl, .nil⟩
  | f :: fields, js, h => by
    rw [List.map_cons, strItem, dumpsItems] at h
    obtain ⟨j, hj, h⟩ := bind_ok.mp h
    obtain ⟨rest, hrest, h⟩ := bind_ok.mp h
    obtain rfl := Except.ok.inj h
    obtain ⟨members, rfl, hall⟩ := dumpsItems_str hrest
    exact ⟨(f.1, j) :: members, rfl, .cons ⟨rfl, hj⟩ hall⟩

theorem dumpsItems_keys {sortKeys : Bool} : ∀ {items : List (Key × Value)}
    {js : List (Key × Json)}, dumpsItems repr sortKeys items = .ok js →
      js.map Prod.fst = items.map Prod.fst
  | [], js, h => by obtain rfl := Except.ok.inj h; rfl
  | (k, v) :: items, js, h => by
    rw [dumpsItems] at h
    obtain ⟨j, -, h⟩ := bind_ok.mp h
    obtain ⟨rest, hrest, h⟩ := bind_ok.mp h
    obtain rfl := Except.ok.inj h
    rw [List.map_cons, List.map_cons, dumpsItems_keys hrest]

/-- A dictionary is loaded as one that has no more items. -/
theorem loads_dict {items : List (Key × Value)} {sortKeys : Bool} {j : Json}
    (hj : (Value.dict items).dumps repr sortKeys = .ok j) :
    ∃ items', j.loads = .dict items' ∧ items'.length ≤ items.length := by
  rw [Value.dumps] at hj
  obtain ⟨dumped, hdumped, hj⟩ := bind_ok.mp hj
  obtain ⟨sorted, hsorted, hj⟩ := bind_ok.mp hj
  obtain ⟨members, hmembers, hj⟩ := bind_ok.mp hj
  obtain rfl := Except.ok.inj hj
  refine ⟨_, rfl, ?_⟩
  have hkeys : dumped.length = items.length := by
    rw [← List.length_map (f := Prod.fst), dumpsItems_keys hdumped, List.length_map]
  have hperm : sorted.length = dumped.length := by
    rw [ordered, sortItems] at hsorted
    split at hsorted
    · split at hsorted
      · cases hsorted
      · obtain rfl := Except.ok.inj hsorted
        exact List.length_insertionSort _ _
    · rw [Except.ok.inj hsorted]
  obtain ⟨hnodup, hsub⟩ := dictOf_spec (loadsMembers members)
  have hle := (List.Nodup.of_map _ hnodup).subperm hsub |>.length_le
  rw [loadsMembers_eq, List.length_map] at hle
  rw [loadsMembers_eq]
  exact hle.trans_eq ((mapM_ok hmembers).length_eq.symm.trans (hperm.trans hkeys))

/-- A record is dumped from the dumps of its fields. -/
theorem dumps_record_congr {sortKeys : Bool} {fields fields' : List (Str × Value)}
    (h : List.Forall₂ (fun f g => f.1 = g.1 ∧ f.2.dumps repr sortKeys = g.2.dumps repr sortKeys)
      fields fields') : (record fields).dumps repr sortKeys = (record fields').dumps repr sortKeys := by
  have hitems : dumpsItems repr sortKeys (fields.map strItem) =
      dumpsItems repr sortKeys (fields'.map strItem) := by
    induction h with
    | nil => rfl
    | cons hf _ ih =>
      rw [List.map_cons, List.map_cons, strItem, strItem, dumpsItems, dumpsItems, hf.1, hf.2, ih]
  rw [record, record, Value.dumps, Value.dumps, hitems]

theorem exists_of_forall₂ {α β : Type} {r : α → β → Prop} {xs : List α} {ys : List β}
    (h : List.Forall₂ r xs ys) {x : α} (hx : x ∈ xs) : ∃ y ∈ ys, r x y := by
  induction h with
  | nil => simp at hx
  | cons hr _ ih =>
    rcases List.mem_cons.mp hx with rfl | hx
    · exact ⟨_, List.mem_cons_self, hr⟩
    · obtain ⟨y, hy, hxy⟩ := ih hx
      exact ⟨y, List.mem_cons_of_mem _ hy, hxy⟩

/-- A record comes back with the fields it had, each loaded from its own text. -/
theorem loads_fields {fields : List (Str × Value)} (hn : (fields.map Prod.fst).Nodup)
    {sortKeys : Bool} {j : Json} (hj : (record fields).dumps repr sortKeys = .ok j) :
    ∃ d, j.loads = .dict d ∧ (d.map Prod.fst).Perm (fields.map fun f => Key.str f.1) ∧
      ∀ f ∈ fields, ∃ c, f.2.dumps repr sortKeys = .ok c ∧ getItem f.1 d = c.loads := by
  rw [record, Value.dumps] at hj
  obtain ⟨items, hitems, hj⟩ := bind_ok.mp hj
  obtain ⟨members, rfl, hall⟩ := dumpsItems_str hitems
  rw [object_str] at hj
  obtain rfl := Except.ok.inj hj
  have hnames : fields.map Prod.fst = members.map Prod.fst :=
    List.forall₂_eq_eq_eq ▸ List.forall₂_map_left_iff.mpr
      (List.forall₂_map_right_iff.mpr (hall.imp fun _ _ h => h.1))
  have hperm : (if sortKeys = true then members.insertionSort textLe else members).Perm members := by
    split
    · exact List.perm_insertionSort textLe members
    · exact .refl _
  generalize (if sortKeys = true then members.insertionSort textLe else members) = sorted at hperm ⊢
  have hsorted : (sorted.map Prod.fst).Nodup :=
    (hperm.map Prod.fst).nodup_iff.mpr (hnames ▸ hn)
  have hloads : (Json.obj sorted).loads =
      .dict ((sorted.map fun m => (m.1, m.2.loads)).map strItem) := by
    rw [loads_obj hsorted, List.map_map]
    rfl
  refine ⟨_, hloads, ?_, fun f hf => ?_⟩
  · have hkeys : ((sorted.map fun m => (m.1, m.2.loads)).map strItem).map Prod.fst =
        (sorted.map Prod.fst).map Key.str := by
      rw [List.map_map, List.map_map, List.map_map]
      rfl
    rw [hkeys, show (fields.map fun f => Key.str f.1) = (fields.map Prod.fst).map Key.str by
      rw [List.map_map]; rfl, hnames]
    exact (hperm.map Prod.fst).map Key.str
  · obtain ⟨m, hm, hname, hdump⟩ := exists_of_forall₂ hall hf
    refine ⟨m.2, hdump, ?_⟩
    have hmem : (m.1, m.2.loads) ∈ sorted.map fun m => (m.1, m.2.loads) :=
      List.mem_map.mpr ⟨m, hperm.mem_iff.mpr hm, rfl⟩
    have hn' : ((sorted.map fun m => (m.1, m.2.loads)).map Prod.fst).Nodup := by
      rw [List.map_map]
      exact hsorted
    rw [hname]
    exact getItem_record hn' hmem

/-- A list comes back with its elements, each loaded from its own text. -/
theorem loads_list {sortKeys : Bool} : ∀ {xs : List Value} {j : Json},
    (Value.list xs).dumps repr sortKeys = .ok j →
      ∃ js : List Json, List.Forall₂ (fun v c => v.dumps repr sortKeys = .ok c) xs js ∧
        j.loads = .list (js.map Json.loads)
  | xs, j, h => by
    rw [Value.dumps] at h
    obtain ⟨js, hjs, rfl⟩ := map_ok.mp h
    refine ⟨js, ?_, ?_⟩
    · clear h
      induction xs generalizing js with
      | nil =>
        obtain rfl := Except.ok.inj hjs
        exact .nil
      | cons v xs ih =>
        rw [dumpsList] at hjs
        obtain ⟨c, hc, hjs⟩ := bind_ok.mp hjs
        obtain ⟨cs, hcs, hjs⟩ := bind_ok.mp hjs
        obtain rfl := Except.ok.inj hjs
        exact .cons hc (ih cs hcs)
    · rw [Json.loads]
      congr 1
      clear h hjs
      induction js with
      | nil => rfl
      | cons c js ih => rw [loadsList, List.map_cons, ih]

/-! ### Scalars -/

/-- A value without parts. -/
def Value.scalar : Value → Bool
  | .null | .bool _ | .int _ | .float _ | .str _ => true
  | _ => false

/-- A scalar comes back from its text. -/
theorem loads_scalar {v : Value} (h : v.scalar = true) {sortKeys : Bool} {j : Json}
    (hj : v.dumps repr sortKeys = .ok j) : j.loads = v := by
  cases v with
  | int n =>
    rw [Value.dumps] at hj
    obtain rfl := Except.ok.inj (if_error_ok.mp hj).2
    rfl
  | null | bool b | float f | str s =>
    obtain rfl := Except.ok.inj hj
    rfl
  | list xs | dict items | other text => cases h

theorem loads_scalars {fields : List (Str × Value)} (hn : (fields.map Prod.fst).Nodup)
    (hs : ∀ f ∈ fields, f.2.scalar = true) {sortKeys : Bool} {j : Json}
    (hj : (record fields).dumps repr sortKeys = .ok j) :
    ∃ d, j.loads = .dict d ∧ (d.map Prod.fst).Perm (fields.map fun f => Key.str f.1) ∧
      ∀ f ∈ fields, getItem f.1 d = f.2 := by
  obtain ⟨d, hd, hkeys, hget⟩ := loads_fields hn hj
  refine ⟨d, hd, hkeys, fun f hf => ?_⟩
  obtain ⟨c, hc, hloads⟩ := hget f hf
  rw [hloads, loads_scalar (hs f hf) hc]

/-- So does a list of strings. -/
theorem loads_texts {xs : List Str} {sortKeys : Bool} {j : Json}
    (hj : (Value.list (xs.map .str)).dumps repr sortKeys = .ok j) :
    j.loads = .list (xs.map .str) := by
  obtain ⟨js, hall, hloads⟩ := loads_list hj
  rw [hloads]
  congr 1
  clear hj hloads
  rw [List.forall₂_map_left_iff] at hall
  induction hall with
  | nil => rfl
  | cons hd _ ih =>
    rw [List.map_cons, List.map_cons, ih]
    congr 1
    exact loads_scalar rfl hd

theorem alignedList_iff {xs : List Value} :
    alignedList repr xs = true ↔ ∀ v ∈ xs, v.aligned repr = true := by
  induction xs with
  | nil => simp [alignedList]
  | cons v vs ih => rw [alignedList, Bool.and_eq_true, ih, List.forall_mem_cons]

theorem aligned_record {fields : List (Str × Value)} (hn : (fields.map Prod.fst).Nodup)
    (hv : ∀ f ∈ fields, f.2.aligned repr = true) : (record fields).aligned repr = true := by
  have hkeys : (fields.map strItem).map Prod.fst = (fields.map Prod.fst).map Key.str := by
    rw [List.map_map, List.map_map]
    rfl
  rw [record, Value.aligned, Bool.and_eq_true, hkeys]
  refine ⟨alignedKeys_str ?_ ?_, alignedItems_iff.mpr ?_⟩
  · exact hn.map fun a b h => Key.str.inj h
  · intro k hk
    obtain ⟨s, -, rfl⟩ := List.mem_map.mp hk
    exact ⟨s, rfl⟩
  · intro item hitem
    obtain ⟨f, hf, rfl⟩ := List.mem_map.mp hitem
    exact hv f hf

theorem aligned_scalar {v : Value} (h : v.scalar = true) : v.aligned repr = true := by
  cases v with
  | list xs | dict items => cases h
  | _ => rfl

end Fields

end PyJson
