import Angerona.Lib.Dict
import Angerona.Lib.PyJson

/-!
    JSON without extensions: `dumps(sort_keys=True, allow_nan=False)`, and a `loads` that refuses
    `NaN`, the infinities and an object with two members of one name.

    A named value has strings as keys in every dictionary, at every level; it comes back from its
    canonical text with its dictionaries sorted, and with nothing else changed. -/

namespace PyJson
open Text Raising

/-! ### Values and texts -/

def PyFloat.isFinite : PyFloat → Bool
  | .finite _ => true
  | _ => false

/-- A key that is written without `NaN` or an infinity. -/
def Key.strict : Key → Bool
  | .float f => f.isFinite
  | .other => false
  | _ => true

mutual

/-- Nothing in the value is refused by `allow_nan=False` or by the absence of a default. -/
def Value.strict : Value → Bool
  | .float f => f.isFinite
  | .list xs => strictList xs
  | .dict items => strictItems items
  | .other _ => false
  | _ => true

def strictList : List Value → Bool
  | [] => true
  | v :: vs => v.strict && strictList vs

def strictItems : List (Key × Value) → Bool
  | [] => true
  | (k, v) :: items => k.strict && v.strict && strictItems items

end

mutual

/-- The text has no `NaN` and no infinity, and no object has two members of one name. -/
def Json.strict : Json → Bool
  | .float f => f.isFinite
  | .arr xs => strictJsons xs
  | .obj members => decide (members.map Prod.fst).Nodup && strictMembers members
  | _ => true

def strictJsons : List Json → Bool
  | [] => true
  | j :: js => j.strict && strictJsons js

def strictMembers : List (Str × Json) → Bool
  | [] => true
  | (_, j) :: members => j.strict && strictMembers members

end

/-- `json.dumps(value, sort_keys=True, allow_nan=False)`. -/
def Value.canonical (repr : Double → Str) (v : Value) : Except JsonError Json :=
  if v.strict then v.dumps repr true else .error .value

/-- `json.loads` with hooks that refuse repeated names and constants. -/
def Json.decode (j : Json) : Option Value := if j.strict then some j.loads else none

/-! ### Named values -/

def Key.isStr : Key → Bool
  | .str _ => true
  | _ => false

mutual

/-- In every dictionary, at every level, the keys are different strings. -/
def Value.named : Value → Bool
  | .list xs => namedList xs
  | .dict items => (items.map Prod.fst).all Key.isStr && decide (items.map Prod.fst).Nodup &&
      namedItems items
  | _ => true

def namedList : List Value → Bool
  | [] => true
  | v :: vs => v.named && namedList vs

def namedItems : List (Key × Value) → Bool
  | [] => true
  | (_, v) :: items => v.named && namedItems items

end

mutual

/-- The value with every dictionary in the order of its canonical text. -/
def Value.sorted : Value → Value
  | .list xs => .list (sortedList xs)
  | .dict items => .dict ((sortedItems items).insertionSort itemLe)
  | v => v

def sortedList : List Value → List Value
  | [] => []
  | v :: vs => v.sorted :: sortedList vs

def sortedItems : List (Key × Value) → List (Key × Value)
  | [] => []
  | (k, v) :: items => (k, v.sorted) :: sortedItems items

end

theorem strictItems_iff {items : List (Key × Value)} : strictItems items = true ↔
    ∀ i ∈ items, i.1.strict = true ∧ i.2.strict = true := by
  induction items with
  | nil => simp [strictItems]
  | cons i items ih =>
    rw [strictItems, Bool.and_eq_true, Bool.and_eq_true, ih, List.forall_mem_cons]

theorem strictMembers_iff {members : List (Str × Json)} : strictMembers members = true ↔
    ∀ m ∈ members, m.2.strict = true := by
  induction members with
  | nil => simp [strictMembers]
  | cons m members ih => rw [strictMembers, Bool.and_eq_true, ih, List.forall_mem_cons]

theorem namedList_iff {xs : List Value} : namedList xs = true ↔ ∀ v ∈ xs, v.named = true := by
  induction xs with
  | nil => simp [namedList]
  | cons v vs ih => rw [namedList, Bool.and_eq_true, ih, List.forall_mem_cons]

theorem namedItems_iff {items : List (Key × Value)} : namedItems items = true ↔
    ∀ i ∈ items, i.2.named = true := by
  induction items with
  | nil => simp [namedItems]
  | cons i items ih => rw [namedItems, Bool.and_eq_true, ih, List.forall_mem_cons]

theorem sortedList_eq (xs : List Value) : sortedList xs = xs.map Value.sorted := by
  induction xs with
  | nil => rfl
  | cons v vs ih => rw [sortedList, ih, List.map_cons]

theorem sortedItems_eq (items : List (Key × Value)) :
    sortedItems items = items.map fun i => (i.1, i.2.sorted) := by
  induction items with
  | nil => rfl
  | cons i items ih => rw [sortedItems, ih, List.map_cons]

/-- String keys are those of a list of fields. -/
theorem fields_of_isStr {items : List (Key × Value)}
    (h : (items.map Prod.fst).all Key.isStr = true) :
    ∃ fields : List (Str × Value), items = fields.map strItem := by
  induction items with
  | nil => exact ⟨[], rfl⟩
  | cons i items ih =>
    rw [List.map_cons, List.all_cons, Bool.and_eq_true] at h
    obtain ⟨fields, rfl⟩ := ih h.2
    obtain ⟨k, v⟩ := i
    cases k with
    | str s => exact ⟨(s, v) :: fields, rfl⟩
    | _ => cases h.1

theorem fields_keys (fields : List (Str × Value)) :
    (fields.map strItem).map Prod.fst = (fields.map Prod.fst).map Key.str := by
  rw [List.map_map, List.map_map]
  rfl

theorem fields_nodup {fields : List (Str × Value)} :
    ((fields.map strItem).map Prod.fst).Nodup ↔ (fields.map Prod.fst).Nodup := by
  rw [fields_keys]
  exact List.nodup_map_iff fun _ _ h => Key.str.inj h

/-- A record of named fields with different names is named. -/
theorem named_record {fields : List (Str × Value)} : (record fields).named = true ↔
    (fields.map Prod.fst).Nodup ∧ ∀ f ∈ fields, f.2.named = true := by
  have hstr : ((fields.map strItem).map Prod.fst).all Key.isStr = true := by
    rw [fields_keys, List.all_map]
    exact List.all_eq_true.mpr fun _ _ => rfl
  rw [record, Value.named, hstr, Bool.true_and, Bool.and_eq_true, decide_eq_true_iff, fields_nodup,
    namedItems_iff, List.forall_mem_map]
  rfl

/-- Sorting the items of a record is sorting its fields. -/
theorem sorted_record (fields : List (Str × Value)) : (record fields).sorted =
    record ((fields.map fun f => (f.1, f.2.sorted)).insertionSort textLe) := by
  rw [record, Value.sorted, sortedItems_eq, List.map_map, record]
  congr 1
  have hmap : (fields.map ((fun i : Key × Value => (i.1, i.2.sorted)) ∘ strItem)) =
      (fields.map fun f => (f.1, f.2.sorted)).map strItem := by
    rw [List.map_map]
    rfl
  rw [hmap]
  exact (List.map_insertionSort textLe itemLe strItem _ fun a _ b _ => by
    simp [textLe, itemLe, strItem, Key.lt]).symm

/-! ### The round trip of a named value -/

section RoundTrip

variable {repr : Double → Str}

mutual

theorem named_aligned : ∀ {v : Value}, v.named = true → v.aligned repr = true
  | .list xs, h => by
    rw [Value.named] at h
    rw [Value.aligned]
    exact namedList_aligned h
  | .dict items, h => by
    rw [Value.named, Bool.and_eq_true, Bool.and_eq_true, decide_eq_true_iff] at h
    rw [Value.aligned, Bool.and_eq_true]
    refine ⟨alignedKeys_str h.1.2 fun k hk => ?_, namedItems_aligned h.2⟩
    have hstr := List.all_eq_true.mp h.1.1 k hk
    cases k with
    | str s => exact ⟨s, rfl⟩
    | _ => cases hstr
  | .null, _ | .bool _, _ | .int _, _ | .float _, _ | .str _, _ | .other _, _ => rfl

theorem namedList_aligned : ∀ {xs : List Value}, namedList xs = true → alignedList repr xs = true
  | [], _ => rfl
  | v :: vs, h => by
    rw [namedList, Bool.and_eq_true] at h
    rw [alignedList, named_aligned h.1, namedList_aligned h.2, Bool.and_self]

theorem namedItems_aligned : ∀ {items : List (Key × Value)}, namedItems items = true →
    alignedItems repr items = true
  | [], _ => rfl
  | (_, v) :: items, h => by
    rw [namedItems, Bool.and_eq_true] at h
    rw [alignedItems, named_aligned h.1, namedItems_aligned h.2, Bool.and_self]

end

mutual

/-- Sorting keeps a value named. -/
theorem named_sorted : ∀ {v : Value}, v.named = true → v.sorted.named = true
  | .list xs, h => by
    rw [Value.named] at h
    rw [Value.sorted, Value.named]
    exact namedList_sorted h
  | .dict items, h => by
    rw [Value.named, Bool.and_eq_true, Bool.and_eq_true, decide_eq_true_iff] at h
    have hperm := List.perm_insertionSort itemLe (sortedItems items)
    have hkeys : (sortedItems items).map Prod.fst = items.map Prod.fst := by
      rw [sortedItems_eq, List.map_map]
      rfl
    rw [Value.sorted, Value.named, Bool.and_eq_true, Bool.and_eq_true, decide_eq_true_iff,
      (hperm.map Prod.fst).nodup_iff, hkeys, namedItems_iff, List.all_eq_true]
    refine ⟨⟨fun k hk => ?_, h.1.2⟩, fun i hi => ?_⟩
    · exact List.all_eq_true.mp h.1.1 k (hkeys ▸ (hperm.map Prod.fst).subset hk)
    · exact namedItems_iff.mp (namedItems_sorted h.2) i (hperm.subset hi)
  | .null, _ | .bool _, _ | .int _, _ | .float _, _ | .str _, _ | .other _, _ => rfl

theorem namedList_sorted : ∀ {xs : List Value}, namedList xs = true →
    namedList (sortedList xs) = true
  | [], _ => rfl
  | v :: vs, h => by
    rw [namedList, Bool.and_eq_true] at h
    rw [sortedList, namedList, named_sorted h.1, namedList_sorted h.2, Bool.and_self]

theorem namedItems_sorted : ∀ {items : List (Key × Value)}, namedItems items = true →
    namedItems (sortedItems items) = true
  | [], _ => rfl
  | (_, v) :: items, h => by
    rw [namedItems, Bool.and_eq_true] at h
    rw [sortedItems, namedItems, named_sorted h.1, namedItems_sorted h.2, Bool.and_self]

end

/-- What the canonical text of `v` is: it is accepted, and loaded as `v` sorted. -/
def Reads (v : Value) (j : Json) : Prop :=
  j.strict = true ∧ j.loads = v.sorted ∧ v.sorted.strict = true

theorem reads_record {fields : List (Str × Value)} {members : List (Str × Json)}
    (hn : (fields.map Prod.fst).Nodup)
    (h : List.Forall₂ (fun f m => f.1 = m.1 ∧ Reads f.2 m.2) fields members) :
    Reads (record fields) (.obj (members.insertionSort textLe)) := by
  have hsorted : (members.map fun m => (m.1, m.2.loads)) = fields.map fun f => (f.1, f.2.sorted) := by
    induction h with
    | nil => rfl
    | cons hf _ ih =>
      rw [List.map_cons, List.nodup_cons] at hn
      rw [List.map_cons, List.map_cons, ih hn.2, hf.1, hf.2.2.1]
  have hnames : members.map Prod.fst = fields.map Prod.fst := by
    have := congrArg (List.map Prod.fst) hsorted
    rwa [List.map_map, List.map_map] at this
  have hperm := List.perm_insertionSort textLe members
  have hnodup : ((members.insertionSort textLe).map Prod.fst).Nodup :=
    (hperm.map Prod.fst).nodup_iff.mpr (hnames ▸ hn)
  refine ⟨?_, ?_, ?_⟩
  · rw [Json.strict, Bool.and_eq_true, decide_eq_true_iff, strictMembers_iff]
    refine ⟨hnodup, fun m hm => ?_⟩
    obtain ⟨f, -, -, hread⟩ := exists_of_forall₂ h.flip (hperm.subset hm)
    exact hread.1
  · rw [loads_obj hnodup, sorted_record, ← hsorted, sort_map_snd, record, List.map_map]
    rfl
  · rw [sorted_record, record, Value.strict, strictItems_iff, List.forall_mem_map]
    intro f hf
    obtain ⟨g, hg, rfl⟩ := List.mem_map.mp ((List.perm_insertionSort textLe _).subset hf)
    obtain ⟨m, -, -, hread⟩ := exists_of_forall₂ h hg
    exact ⟨rfl, hread.2.2⟩

mutual

theorem reads_named : ∀ {v : Value} {j : Json}, v.named = true → v.strict = true →
    v.dumps repr true = .ok j → Reads v j
  | .null, j, _, _, hj | .bool _, j, _, _, hj | .str _, j, _, _, hj => by
    obtain rfl := Except.ok.inj hj
    exact ⟨rfl, rfl, rfl⟩
  | .float f, j, _, hs, hj => by
    obtain rfl := Except.ok.inj hj
    exact ⟨hs, rfl, hs⟩
  | .int n, j, _, _, hj => by
    rw [Value.dumps] at hj
    obtain rfl := Except.ok.inj (if_error_ok.mp hj).2
    exact ⟨rfl, rfl, rfl⟩
  | .other _, j, _, hs, _ => by cases hs
  | .list xs, j, hn, hs, hj => by
    rw [Value.named] at hn
    rw [Value.strict] at hs
    rw [Value.dumps] at hj
    obtain ⟨js, hjs, rfl⟩ := map_ok.mp hj
    obtain ⟨hstrict, hloads, hsorted⟩ := reads_namedList hn hs hjs
    refine ⟨by rwa [Json.strict], ?_, by rwa [Value.sorted, Value.strict]⟩
    rw [Json.loads, hloads, Value.sorted]
  | .dict items, j, hn, hs, hj => by
    have hkeys := hn
    rw [Value.named, Bool.and_eq_true, Bool.and_eq_true, decide_eq_true_iff] at hkeys
    rw [Value.strict] at hs
    rw [Value.dumps] at hj
    obtain ⟨dumped, hdumped, hj⟩ := bind_ok.mp hj
    have hreads := reads_namedItems hkeys.2 hs hdumped
    obtain ⟨fields, rfl⟩ := fields_of_isStr hkeys.1.1
    obtain ⟨members, rfl, -⟩ := dumpsItems_str hdumped
    rw [object_str] at hj
    obtain rfl := Except.ok.inj hj
    rw [List.forall₂_map_left_iff, List.forall₂_map_right_iff] at hreads
    exact reads_record (fields_nodup.mp hkeys.1.2)
      (hreads.imp fun f m h => ⟨Key.str.inj h.1, h.2⟩)

theorem reads_namedList : ∀ {xs : List Value} {js : List Json}, namedList xs = true →
    strictList xs = true → dumpsList repr true xs = .ok js →
      strictJsons js = true ∧ loadsList js = sortedList xs ∧ strictList (sortedList xs) = true
  | [], js, _, _, hj => by
    obtain rfl := Except.ok.inj hj
    exact ⟨rfl, rfl, rfl⟩
  | v :: vs, js, hn, hs, hj => by
    rw [namedList, Bool.and_eq_true] at hn
    rw [strictList, Bool.and_eq_true] at hs
    rw [dumpsList] at hj
    obtain ⟨c, hc, hj⟩ := bind_ok.mp hj
    obtain ⟨cs, hcs, hj⟩ := bind_ok.mp hj
    obtain rfl := Except.ok.inj hj
    obtain ⟨h1, h2, h3⟩ := reads_named hn.1 hs.1 hc
    obtain ⟨g1, g2, g3⟩ := reads_namedList hn.2 hs.2 hcs
    refine ⟨?_, ?_, ?_⟩
    · rw [strictJsons, h1, g1, Bool.and_self]
    · rw [loadsList, sortedList, h2, g2]
    · rw [sortedList, strictList, h3, g3, Bool.and_self]

theorem reads_namedItems : ∀ {items : List (Key × Value)} {js : List (Key × Json)},
    namedItems items = true → strictItems items = true → dumpsItems repr true items = .ok js →
      List.Forall₂ (fun i m => i.1 = m.1 ∧ Reads i.2 m.2) items js
  | [], js, _, _, hj => by
    obtain rfl := Except.ok.inj hj
    exact .nil
  | (k, v) :: items, js, hn, hs, hj => by
    rw [namedItems, Bool.and_eq_true] at hn
    rw [strictItems, Bool.and_eq_true, Bool.and_eq_true] at hs
    rw [dumpsItems] at hj
    obtain ⟨c, hc, hj⟩ := bind_ok.mp hj
    obtain ⟨cs, hcs, hj⟩ := bind_ok.mp hj
    obtain rfl := Except.ok.inj hj
    exact .cons ⟨rfl, reads_named hn.1 hs.1.2 hc⟩ (reads_namedItems hn.2 hs.2 hcs)

end

theorem canonical_ok {v : Value} {j : Json} : v.canonical repr = .ok j ↔
    v.strict = true ∧ v.dumps repr true = .ok j := by
  rw [Value.canonical]
  cases v.strict with
  | true => simp
  | false => simp

/-- CORRECT: the canonical text of a named value is accepted, it is loaded as the value with its
    dictionaries sorted, and what is loaded has the same canonical text. -/
theorem canonical_decode {v : Value} {j : Json} (hn : v.named = true)
    (hj : v.canonical repr = .ok j) :
    j.decode = some v.sorted ∧ v.sorted.canonical repr = .ok j := by
  obtain ⟨hs, hj⟩ := canonical_ok.mp hj
  obtain ⟨hstrict, hloads, hsorted⟩ := reads_named hn hs hj
  refine ⟨by rw [Json.decode, if_pos hstrict, hloads], canonical_ok.mpr ⟨hsorted, ?_⟩⟩
  rw [← hloads]
  exact dumps_loads (named_aligned hn) hj hj

/-! ### Dictionaries and lists of typed values -/

variable {α β : Type}

/-- A value that is a string. -/
def Value.text? : Value → Option Str
  | .str s => some s
  | _ => none

def Value.bool? : Value → Option Bool
  | .bool b => some b
  | _ => none

def Value.double? : Value → Option Double
  | .float (.finite d) => some d
  | _ => none

def Value.dict? : Value → Option (List (Key × Value))
  | .dict items => some items
  | _ => none

def Value.texts? : Value → Option (List Str)
  | .list xs => xs.mapM Value.text?
  | _ => none

def ofDict (enc : α → Value) (d : Dict Str α) : Value := record (d.items.map fun i => (i.1, enc i.2))

/-- The pairs of a dictionary with string keys. -/
def pairs? (dec : Value → Option α) : List (Key × Value) → Option (List (Str × α))
  | [] => some []
  | (.str s, v) :: items => do
    let a ← dec v
    let rest ← pairs? dec items
    some ((s, a) :: rest)
  | _ => none

def toDict? (dec : Value → Option α) : Value → Option (Dict Str α)
  | .dict items => (pairs? dec items).bind fun pairs =>
    if h : (pairs.map Prod.fst).Nodup then some ⟨pairs, h⟩ else none
  | _ => none

theorem pairs?_record {dec : Value → Option β} {f : α → β} {enc : α → Value} :
    ∀ {items : List (Str × α)}, (∀ i ∈ items, dec (enc i.2) = some (f i.2)) →
      pairs? dec ((items.map fun i => (i.1, enc i.2)).map strItem) =
        some (items.map fun i => (i.1, f i.2))
  | [], _ => rfl
  | i :: items, h => by
    rw [List.map_cons, List.map_cons, List.map_cons, strItem, pairs?, h i List.mem_cons_self,
      pairs?_record fun i hi => h i (List.mem_cons_of_mem _ hi)]
    rfl

theorem texts?_map (xs : List Str) : (Value.list (xs.map .str)).texts? = some xs := by
  rw [Value.texts?]
  induction xs with
  | nil => rfl
  | cons x xs ih =>
    rw [List.map_cons, List.mapM_cons, ih]
    rfl

/-- The dictionary in the order of its text, with every value under `f`. -/
def arranged (f : α → β) (d : Dict Str α) : Dict Str β where
  items := (d.items.insertionSort textLe).map fun i => (i.1, f i.2)
  nodup := by
    rw [List.map_map]
    exact ((List.perm_insertionSort textLe d.items).map Prod.fst).nodup_iff.mpr d.nodup

theorem arranged_perm (f : α → β) (d : Dict Str α) :
    (arranged f d).items.Perm (d.items.map fun i => (i.1, f i.2)) :=
  (List.perm_insertionSort textLe d.items).map _

@[simp] theorem get?_arranged (f : α → β) (d : Dict Str α) (k : Str) :
    (arranged f d).get? k = (d.get? k).map f := Dict.get?_of_perm (arranged_perm f d) k

/-- A dictionary comes back arranged, with every value as it is read. -/
theorem toDict?_sorted {enc : α → Value} {dec : Value → Option β} {f : α → β} {d : Dict Str α}
    (h : ∀ a ∈ d.values, dec (enc a).sorted = some (f a)) :
    toDict? dec (ofDict enc d).sorted = some (arranged f d) := by
  have hsorted : (ofDict enc d).sorted =
      record ((d.items.insertionSort textLe).map fun i => (i.1, (enc i.2).sorted)) := by
    rw [ofDict, sorted_record, List.map_map]
    exact congrArg record (sort_map_snd (fun a => (enc a).sorted) d.items)
  have hpairs := @pairs?_record _ _ dec f (fun a => (enc a).sorted) (d.items.insertionSort textLe)
    fun i hi => h i.2 (List.mem_map_of_mem ((List.perm_insertionSort textLe _).subset hi))
  rw [hsorted, record, toDict?, hpairs, Option.bind_some]
  exact dif_pos (arranged f d).nodup

/-- A record is read by the names of its fields. -/
theorem getItem_sorted {fields : List (Str × Value)} (hn : (fields.map Prod.fst).Nodup) :
    ∃ d, (record fields).sorted = .dict d ∧ d.length = fields.length ∧
      ∀ f ∈ fields, getItem f.1 d = f.2.sorted := by
  have hperm := List.perm_insertionSort textLe (fields.map fun f => (f.1, f.2.sorted))
  have hn' : (((fields.map fun f => (f.1, f.2.sorted)).insertionSort textLe).map Prod.fst).Nodup := by
    rw [(hperm.map Prod.fst).nodup_iff, List.map_map]
    exact hn
  refine ⟨_, sorted_record fields, ?_, fun f hf => ?_⟩
  · rw [List.length_map, List.length_insertionSort, List.length_map]
  · exact getItem_record hn' (hperm.mem_iff.mpr (List.mem_map.mpr ⟨f, hf, rfl⟩))

theorem ofDict_named {enc : α → Value} {d : Dict Str α} (h : ∀ a ∈ d.values, (enc a).named = true) :
    (ofDict enc d).named = true := by
  refine named_record.mpr ⟨?_, ?_⟩
  · rw [List.map_map]
    exact d.nodup
  · intro f hf
    obtain ⟨i, hi, rfl⟩ := List.mem_map.mp hf
    exact h i.2 (List.mem_map_of_mem hi)

end RoundTrip

end PyJson
