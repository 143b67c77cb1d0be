import Angerona.Lib.Raising
import Angerona.Sigma.Match

/-!
    The compiled plan against the public matcher.

    Both evaluators read the same raw condition, so the agreement is a simulation: selector by
    selector for the results, and by induction on the condition text for the connectives. What can
    go wrong is the compile step itself. Admission finds the negated selector from the right
    (`rsplit`) and both evaluators cut at the first `" and not "`; with `"a and not and not b"` the
    text after the first cut is no selector and `names.index` raises. An integer of more than 4300
    digits is admitted, and `str` raises for it. -/

namespace Angerona.Sigma
open Text

/-! ### Monadic `any` and `all` -/

section OptionLists

variable {α β : Type}

theorem anyM_pure (p : α → Bool) : ∀ xs : List α, xs.anyM (fun x => some (p x)) = some (xs.any p)
  | [] => rfl
  | x :: xs => by
    have ih := anyM_pure p xs
    cases hp : p x <;> simp [List.anyM, hp, ih]

theorem anyM_none : ∀ {xs : List α}, xs ≠ [] → xs.anyM (fun _ => (none : Option Bool)) = none
  | [], h => absurd rfl h
  | _ :: _, _ => rfl

theorem anyM_singleton (p : α → Option Bool) (x : α) : [x].anyM p = p x := by
  cases hp : p x with
  | none => simp [List.anyM, hp]
  | some b => cases b <;> simp [List.anyM, hp]

theorem allM_forall₂ {p : α → Option Bool} {q : β → Option Bool} {xs : List α} {ys : List β}
    (h : List.Forall₂ (fun x y => p x = q y) xs ys) : xs.allM p = ys.allM q := by
  induction h with
  | nil => rfl
  | cons hxy _ ih => simp [List.allM, hxy, ih]

theorem anyM_forall₂ {p : α → Option Bool} {q : β → Option Bool} {xs : List α} {ys : List β}
    (h : List.Forall₂ (fun x y => p x = q y) xs ys) : xs.anyM p = ys.anyM q := by
  induction h with
  | nil => rfl
  | cons hxy _ ih => simp [List.anyM, hxy, ih]

/-- Reading a list of booleans through defined lookups is reading the booleans. -/
theorem allM_of_map {f : α → Option Bool} : ∀ {xs : List α} {bs : List Bool},
    xs.map f = bs.map some → xs.allM f = some (bs.all id)
  | [], [], _ => rfl
  | [], _ :: _, h => by simp at h
  | _ :: _, [], h => by simp at h
  | x :: xs, b :: bs, h => by
    simp only [List.map_cons, List.cons.injEq] at h
    have ih := allM_of_map h.2
    cases b <;> simp [List.allM, h.1, ih]

theorem anyM_of_map {f : α → Option Bool} : ∀ {xs : List α} {bs : List Bool},
    xs.map f = bs.map some → xs.anyM f = some (bs.any id)
  | [], [], _ => rfl
  | [], _ :: _, h => by simp at h
  | _ :: _, [], h => by simp at h
  | x :: xs, b :: bs, h => by
    simp only [List.map_cons, List.cons.injEq] at h
    have ih := anyM_of_map h.2
    cases b <;> simp [List.anyM, h.1, ih]

theorem collect_ok {f : α → Except String (Option β)} {r : α → β → Prop} : ∀ {xs : List α},
    (∀ x ∈ xs, ∃ y, f x = .ok (some y) ∧ r x y) →
      ∃ ys, collect f xs = .ok (some ys) ∧ List.Forall₂ r xs ys
  | [], _ => ⟨[], rfl, .nil⟩
  | x :: xs, h => by
    obtain ⟨y, hy, hr⟩ := h x (by simp)
    obtain ⟨ys, hys, hrs⟩ := collect_ok fun x' hx' => h x' (List.mem_cons_of_mem x hx')
    exact ⟨y :: ys, by simp [collect, hy, hys], .cons hr hrs⟩

theorem collect_some {f : α → Except String (Option β)} : ∀ {xs : List α} {ys : List β},
    collect f xs = .ok (some ys) → ∀ x ∈ xs, ∃ y, f x = .ok (some y)
  | [], _, _, x, hx => by simp at hx
  | a :: xs, ys, h, x, hx => by
    rw [collect] at h
    split at h
    · simp at h
    · simp at h
    · rename_i y hy
      split at h
      · simp at h
      · simp at h
      · rename_i ys' hys
        rcases List.mem_cons.mp hx with rfl | hx
        · exact ⟨y, hy⟩
        · exact collect_some hys x hx

theorem collect_none {f : α → Except String (Option β)} : ∀ {xs : List α},
    collect f xs = .ok none → ∃ x ∈ xs, f x = .ok none
  | [], h => by simp [collect] at h
  | a :: xs, h => by
    rw [collect] at h
    split at h
    · simp at h
    · rename_i ha
      exact ⟨a, by simp, ha⟩
    · split at h
      · simp at h
      · rename_i hrest
        obtain ⟨x, hx, hnone⟩ := collect_none hrest
        exact ⟨x, List.mem_cons_of_mem a hx, hnone⟩
      · simp at h

/-- Mapping with a function that gives something everywhere. -/
theorem mapM_some {f : α → Option β} : ∀ {xs : List α}, (∀ x ∈ xs, ∃ y, f x = some y) →
    ∃ ys, xs.mapM f = some ys ∧ List.Forall₂ (fun x y => f x = some y) xs ys
  | [], _ => ⟨[], rfl, .nil⟩
  | x :: xs, h => by
    obtain ⟨y, hy⟩ := h x (by simp)
    obtain ⟨ys, hys, hrs⟩ := mapM_some fun x' hx' => h x' (List.mem_cons_of_mem x hx')
    exact ⟨y :: ys, by simp [hy, hys], .cons hy hrs⟩

/-- What a list that was mapped element by element holds. -/
theorem mem_forall₂ {f : α → Option β} {xs : List α} {ys : List β}
    (h : List.Forall₂ (fun x y => f x = some y) xs ys) {y : β} :
    y ∈ ys ↔ ∃ x ∈ xs, f x = some y := by
  induction h with
  | nil => simp
  | cons hxy _ ih =>
    rw [List.mem_cons, ih, List.exists_mem_cons_iff, hxy, Option.some.injEq, eq_comm]

theorem mapM_eq_some {f : α → Option β} : ∀ {xs : List α} {ys : List β}, xs.mapM f = some ys →
    ∀ x ∈ xs, ∃ y, f x = some y
  | [], _, _, x, hx => by simp at hx
  | a :: xs, ys, h, x, hx => by
    rw [List.mapM_cons] at h
    cases ha : f a with
    | none => simp [ha] at h
    | some b =>
      cases hxs : xs.mapM f with
      | none => simp [ha, hxs] at h
      | some bs =>
        rcases List.mem_cons.mp hx with rfl | hx
        · exact ⟨b, ha⟩
        · exact mapM_eq_some hxs x hx

theorem mapM_forall₂ {γ δ : Type} {f : α → Option γ} {g : β → Option δ} (π : γ → δ)
    {xs : List α} {ys : List β} (h : List.Forall₂ (fun x y => (f x).map π = g y) xs ys) :
    ys.mapM g = (xs.mapM f).map (List.map π) := by
  induction h with
  | nil => rfl
  | @cons x y xs ys hxy _ ih =>
    rw [List.mapM_cons, List.mapM_cons, ih, ← hxy]
    cases f x with
    | none => rfl
    | some c => cases xs.mapM f <;> rfl

theorem mapM_keys {γ δ : Type} {f : α → Option (γ × δ)} {key : α → γ}
    (hf : ∀ x y, f x = some y → y.1 = key x) : ∀ {xs : List α} {ys : List (γ × δ)},
    xs.mapM f = some ys → ys.map (·.1) = xs.map key
  | [], ys, h => by
    simp only [List.mapM_nil, pure, Option.some.injEq] at h
    simp [← h]
  | x :: xs, ys, h => by
    rw [List.mapM_cons] at h
    cases hx : f x with
    | none => simp [hx] at h
    | some c =>
      cases hxs : xs.mapM f with
      | none => simp [hx, hxs] at h
      | some cs =>
        simp only [hx, hxs, bind, Option.bind, pure, Option.some.injEq] at h
        subst h
        simp [hf x c hx, mapM_keys hf hxs]

end OptionLists

/-! ### Selections -/

/-- The lower-cased modifier of a field key. -/
def keyModifier (h : Host) : Key → Str
  | .str key => h.lower (modifierOf (splitOn ['|'] key))
  | .other => []

def Val.usesRe (h : Host) : Val → Bool
  | .map entries _ => entries.any fun f => keyModifier h f.1 = "re".toList
  | _ => false

/-- Some field of the detection carries the `re` modifier, in any letter case. -/
def usesRe (h : Host) (detection : List (Key × Val)) : Bool :=
  (selectionsOf detection).any fun e => e.2.asList.any (Val.usesRe h)

/-- An integer of more than 4300 digits: `str` raises for it. -/
def Val.isLong : Val → Bool
  | .int i => PyJson.tooLong i
  | _ => false

/-- The map compares no field with such an integer. -/
def Val.allShort : Val → Bool
  | .map entries _ => entries.all fun f => f.2.asList.all fun v => !v.isLong
  | _ => true

/-- No selection of the detection compares a field with such an integer. -/
def allShort (detection : List (Key × Val)) : Bool :=
  (selectionsOf detection).all fun e => e.2.asList.all Val.allShort

theorem expectedText_of_isLong {v : Val} (hv : v.isLong = true) : v.expectedText = none := by
  cases v with
  | int i => simpa [Val.isLong, Val.expectedText, Val.text] using hv
  | _ => simp [Val.isLong] at hv

/-- An admitted value has a text unless it is too long an integer. -/
theorem expectedText_supported {h : Host} {modifier : Str} {v : Val}
    (hv : valueSupported h modifier v = .ok ()) (hshort : v.isLong = false) :
    ∃ t, v.expectedText = some t := by
  cases v with
  | int i =>
    have hi : PyJson.tooLong i = false := hshort
    exact ⟨(toString i).toList, by simp [Val.expectedText, Val.text, hi]⟩
  | str s => exact ⟨s, rfl⟩
  | bool b => exact ⟨_, rfl⟩
  | _ => simp [valueSupported] at hv

/-- The comparison of two lower-cased texts. -/
def compareLowered (modifier actual expected : Str) : Bool :=
  if modifier = "contains".toList then occurs expected actual
  else if modifier = "startswith".toList then expected.isPrefixOf actual
  else if modifier = "endswith".toList then expected.isSuffixOf actual
  else decide (actual = expected)

theorem compareText_eq (h : Host) {modifier : Str} (hm : h.lower modifier ≠ "re".toList)
    (fv ev : Str) : compareText h modifier fv ev = compareLowered modifier (h.lower fv) (h.lower ev) := by
  have hre : modifier ≠ "re".toList := by
    rintro rfl
    exact hm (by rw [h.lower_ascii _ (by simp)]; decide)
  simp only [compareText, compareLowered, hre, if_false]

/-- What a compiled field asks of a text. -/
theorem RuntimeSigmaField.matches_eq (h : Host) (f : RuntimeSigmaField)
    (fields : List (Str × FieldVal)) : f.matches h fields =
      (fieldOf fields f.field).text.map fun fv =>
        f.expected.any (compareLowered f.modifier (h.lower fv)) := by
  rw [RuntimeSigmaField.matches]
  cases (fieldOf fields f.field).text with
  | none => rfl
  | some fv =>
    simp only [Option.bind_eq_bind, Option.bind_some, Option.map_some, Option.some.injEq]
    rw [List.contains_eq_any_beq]
    unfold compareLowered
    split_ifs with h1 h2 h3
    · rfl
    · rfl
    · rfl
    · simp only [beq_eq_decide]

/-- A supported field without `re` and without too long integers compiles, and its compiled form
    matches the same events. -/
theorem compileField_ok (h : Host) {e : Key × Val} (hs : fieldSupported h e = .ok ())
    (hre : keyModifier h e.1 ≠ "re".toList) (hshort : ∀ v ∈ e.2.asList, v.isLong = false) :
    ∃ f, compileField h e = .ok (some f) ∧
      ∀ fields, matchField h fields e = f.matches h fields := by
  obtain ⟨key, expected⟩ := e
  cases key with
  | other => simp [fieldSupported] at hs
  | str key =>
    simp only [keyModifier] at hre
    simp only [fieldSupported] at hs
    split at hs
    · simp at hs
    split at hs
    · simp at hs
    rename_i hparts
    split at hs
    · simp at hs
    split at hs
    · simp at hs
    rename_i hvals
    have hne : expected.asList ≠ [] := fun he => hvals (Or.inl he)
    have htext : ∀ v ∈ expected.asList, ∃ t, v.expectedText.map h.lower = some t := by
      intro v hv
      obtain ⟨t, ht⟩ := expectedText_supported (Raising.forM_ok_iff.mp hs v hv) (hshort v hv)
      exact ⟨h.lower t, by rw [ht]; rfl⟩
    obtain ⟨texts, htexts, hall⟩ := mapM_some htext
    refine ⟨_, by simp only [compileField, hre, if_false, htexts]; rfl, fun fields => ?_⟩
    rw [RuntimeSigmaField.matches_eq]
    simp only [matchField, hparts, if_false]
    cases ht : (fieldOf fields ((splitOn ['|'] key).headD [])).text with
    | none =>
      have hnone : (matchValue h (fieldOf fields ((splitOn ['|'] key).headD []))
          (modifierOf (splitOn ['|'] key))) = fun _ => none := by
        funext v
        simp only [matchValue, ht, bind, Option.bind]
      rw [hnone, anyM_none hne]
      rfl
    | some fv =>
      rw [Option.map_some, ← anyM_pure]
      refine anyM_forall₂ (hall.imp fun v t hvt => ?_)
      obtain ⟨ev, hev, rfl⟩ := Option.map_eq_some_iff.mp hvt
      simp only [matchValue, ht, hev, bind, Option.bind, compareText_eq h hre]

theorem compileField_none {h : Host} {e : Key × Val} (hc : compileField h e = .ok none) :
    keyModifier h e.1 = "re".toList := by
  obtain ⟨key, expected⟩ := e
  cases key with
  | other => simp [compileField] at hc
  | str key =>
    simp only [compileField] at hc
    split at hc
    · assumption
    · split at hc
      · simp at hc
      · simp at hc

/-- A field that compiled is compared with short values only. -/
theorem compileField_short {h : Host} {e : Key × Val} {f : RuntimeSigmaField}
    (hc : compileField h e = .ok (some f)) : ∀ v ∈ e.2.asList, v.isLong = false := by
  obtain ⟨key, expected⟩ := e
  cases key with
  | other => simp [compileField] at hc
  | str key =>
    simp only [compileField] at hc
    split at hc
    · simp at hc
    · split at hc
      · simp at hc
      · rename_i texts htexts
        intro v hv
        obtain ⟨t, ht⟩ := mapM_eq_some htexts v hv
        rw [← Bool.not_eq_true]
        intro hlong
        simp [expectedText_of_isLong hlong] at ht

theorem matchAnySelection_eq (h : Host) (fields : List (Str × FieldVal)) : ∀ items : List Val,
    matchAnySelection h fields items = items.anyM (matchSelection h fields)
  | [] => by simp [matchAnySelection, List.anyM]
  | s :: rest => by
    have ih := matchAnySelection_eq h fields rest
    cases hs : matchSelection h fields s with
    | none => simp [matchAnySelection, List.anyM, hs]
    | some b => cases b <;> simp [matchAnySelection, List.anyM, hs, ih]

/-- A selection that is a list of maps, or one map, matches when one of its branches does. -/
theorem matchSelection_eq (h : Host) (fields : List (Str × FieldVal)) {sel : Val}
    (hs : ∀ branch ∈ sel.asList, branch.isNonemptyMap = true) :
    matchSelection h fields sel = sel.asList.anyM (matchSelection h fields) := by
  cases sel with
  | list items text => rw [matchSelection, matchAnySelection_eq]; rfl
  | map entries text => exact (anyM_singleton ..).symm
  | null => simp [Val.asList, Val.isNonemptyMap] at hs
  | bool b => simp [Val.asList, Val.isNonemptyMap] at hs
  | int i => simp [Val.asList, Val.isNonemptyMap] at hs
  | str s => simp [Val.asList, Val.isNonemptyMap] at hs
  | other t => simp [Val.asList, Val.isNonemptyMap] at hs

theorem compileBranch_ok (h : Host) {branch : Val} (hmap : branch.isNonemptyMap = true)
    (hs : mapSupported h branch = .ok ()) (hre : branch.usesRe h = false)
    (hshort : branch.allShort = true) :
    ∃ fs, compileBranch h branch = .ok (some fs) ∧
      ∀ fields, matchSelection h fields branch = fs.allM fun f => f.matches h fields := by
  cases branch with
  | map entries text =>
    simp only [mapSupported] at hs
    split at hs
    · simp at hs
    have hmod : ∀ f ∈ entries, keyModifier h f.1 ≠ "re".toList := by
      simpa [Val.usesRe] using hre
    have hvals : ∀ f ∈ entries, ∀ v ∈ f.2.asList, v.isLong = false := by
      simpa [Val.allShort] using hshort
    obtain ⟨fs, hfs, hall⟩ := collect_ok fun e he =>
      compileField_ok h (Raising.forM_ok_iff.mp hs e he) (hmod e he) (hvals e he)
    refine ⟨fs, hfs, fun fields => ?_⟩
    rw [matchSelection]
    exact allM_forall₂ (hall.imp fun e f hef => hef fields)
  | null => simp [Val.isNonemptyMap] at hmap
  | bool b => simp [Val.isNonemptyMap] at hmap
  | int i => simp [Val.isNonemptyMap] at hmap
  | str s => simp [Val.isNonemptyMap] at hmap
  | list items t => simp [Val.isNonemptyMap] at hmap
  | other t => simp [Val.isNonemptyMap] at hmap

theorem compileBranch_none {h : Host} {branch : Val} (hc : compileBranch h branch = .ok none) :
    branch.usesRe h = true := by
  cases branch with
  | map entries text =>
    obtain ⟨f, hf, hnone⟩ := collect_none hc
    exact List.any_eq_true.mpr ⟨f, hf, by simpa using compileField_none hnone⟩
  | _ => simp [compileBranch] at hc

theorem compileBranch_short {h : Host} {branch : Val} {fs : List RuntimeSigmaField}
    (hc : compileBranch h branch = .ok (some fs)) : branch.allShort = true := by
  cases branch with
  | map entries text =>
    simp only [Val.allShort, List.all_eq_true, Bool.not_eq_true']
    intro f hf
    obtain ⟨y, hy⟩ := collect_some hc f hf
    exact compileField_short hy
  | _ => simp [compileBranch] at hc

theorem compileSelection_ok (h : Host) {sel : Val} (hs : selectionSupported h sel = .ok ())
    (hre : ∀ branch ∈ sel.asList, branch.usesRe h = false)
    (hshort : ∀ branch ∈ sel.asList, branch.allShort = true) :
    ∃ branches, collect (compileBranch h) sel.asList = .ok (some branches) ∧
      ∀ fields, matchSelection h fields sel =
        branches.anyM fun branch => branch.allM fun f => f.matches h fields := by
  simp only [selectionSupported] at hs
  split at hs
  · simp at hs
  split at hs
  · simp at hs
  rename_i hmaps
  have hmap : ∀ branch ∈ sel.asList, branch.isNonemptyMap = true := by simpa using hmaps
  obtain ⟨branches, hb, hall⟩ := collect_ok fun b hbm =>
    compileBranch_ok h (hmap b hbm) (Raising.forM_ok_iff.mp hs b hbm) (hre b hbm) (hshort b hbm)
  refine ⟨branches, hb, fun fields => ?_⟩
  rw [matchSelection_eq h fields hmap]
  exact anyM_forall₂ (hall.imp fun b fs hbf => hbf fields)

/-- Admission of the names admits every selection. -/
theorem selectorNames_ok (h : Host) : ∀ {sels : List (Key × Val)} {names out : List Str},
    selectorNames h names sels = .ok out →
      out = names ++ sels.map (fun e => h.lower e.1.text) ∧
        ∀ e ∈ sels, selectionSupported h e.2 = .ok ()
  | [], names, out, hn => by
    simp only [selectorNames, Except.ok.injEq] at hn
    simp [hn]
  | (.other, _) :: _, _, _, hn => by simp [selectorNames] at hn
  | (.str rawName, sel) :: rest, names, out, hn => by
    simp only [selectorNames] at hn
    split at hn
    · simp at hn
    split at hn
    · simp at hn
    split at hn
    · simp at hn
    rename_i hsel
    obtain ⟨rfl, hrest⟩ := selectorNames_ok h hn
    refine ⟨by simp [Key.text], fun e he => ?_⟩
    rcases List.mem_cons.mp he with rfl | he
    · exact hsel
    · exact hrest e he

theorem ruleSupported_detectionRule (h : Host) (detection : List (Key × Val)) :
    ruleSupported h false (detectionRule detection) = detectionSupported h detection := by
  have h1 : get [(Key.str "detection".toList, Val.map detection none)] "correlation" = none := rfl
  have h2 : get [(Key.str "detection".toList, Val.map detection none)] "logsource" = none := rfl
  have h3 : get [(Key.str "detection".toList, Val.map detection none)] "detection" =
      some (Val.map detection none) := rfl
  simp only [ruleSupported, detectionRule, h1, h2, h3, logsourceOk, Option.isSome_none,
    Bool.false_and, Bool.not_true, Bool.false_eq_true, if_false]

/-- What admission of a detection says about its names and its condition. -/
theorem detectionSupported_ok {h : Host} {detection : List (Key × Val)}
    (hd : detectionSupported h detection = .ok ()) :
    (∀ e ∈ selectionsOf detection, selectionSupported h e.2 = .ok ()) ∧
      conditionSupported h (lowerNames h detection)
        ((get detection "condition").getD .null) = .ok () := by
  simp only [detectionSupported] at hd
  split at hd
  · simp at hd
  split at hd
  · simp at hd
  rename_i names hnames
  obtain ⟨rfl, hsel⟩ := selectorNames_ok h hnames
  refine ⟨hsel, ?_⟩
  split at hd
  · simp at hd
  · rename_i hc
    simpa [lowerNames] using hc

/-! ### Conditions -/

theorem matchAnyChild_eq (vals : List Bool) : ∀ children : List RuntimeSigmaCondition,
    matchAnyChild vals children = children.anyM (·.matches vals)
  | [] => by simp [matchAnyChild, List.anyM]
  | c :: cs => by
    have ih := matchAnyChild_eq vals cs
    cases hc : c.matches vals with
    | none => simp [matchAnyChild, List.anyM, hc]
    | some b => cases b <;> simp [matchAnyChild, List.anyM, hc, ih]

theorem matchAllChildren_eq (vals : List Bool) : ∀ children : List RuntimeSigmaCondition,
    matchAllChildren vals children = children.allM (·.matches vals)
  | [] => by simp [matchAllChildren, List.allM]
  | c :: cs => by
    have ih := matchAllChildren_eq vals cs
    cases hc : c.matches vals with
    | none => simp [matchAllChildren, List.allM, hc]
    | some b => cases b <;> simp [matchAllChildren, List.allM, hc, ih]

theorem indicesOf_cons (p : Str → Bool) (n : Str) (ns : List Str) :
    indicesOf p (n :: ns) = (if p n then [0] else []) ++ (indicesOf p ns).map Nat.succ := by
  have hrest : (List.range ns.length |>.map Nat.succ).filter
      (fun i => p ((n :: ns).getD i [])) = (indicesOf p ns).map Nat.succ := by
    simp [indicesOf, List.filter_map, Function.comp_def]
  rw [indicesOf, List.length_cons, List.range_succ_eq_map, List.filter_cons, hrest]
  split <;> simp_all

/-- The selected indices read exactly the selected results. -/
theorem indicesOf_map (p : Str → Bool) : ∀ rs : List (Str × Bool),
    (indicesOf p (rs.map (·.1))).map (fun i => (rs.map (·.2))[i]?) =
      ((rs.filter fun r => p r.1).map (·.2)).map some
  | [] => rfl
  | r :: rs => by
    have ih := indicesOf_map p rs
    simp only [List.map_cons, indicesOf_cons, List.map_append, List.map_map, Function.comp_def,
      Nat.succ_eq_add_one, List.getElem?_cons_succ, List.filter_cons] at ih ⊢
    rw [ih]
    split <;> simp

theorem quantified_all (p : Str → Bool) (rs : List (Str × Bool)) :
    (quantified .all (indicesOf p (rs.map (·.1)))).matches (rs.map (·.2)) =
      some (allSelected ((rs.filter fun r => p r.1).map (·.2))) := by
  have hmap := indicesOf_map p rs
  rw [quantified]
  split
  · rename_i hnil
    rw [hnil, List.map_nil, eq_comm, List.map_eq_nil_iff] at hmap
    simp [RuntimeSigmaCondition.matches, allSelected, hmap]
  · rename_i hne
    have hsel : ((rs.filter fun r => p r.1).map (·.2)) ≠ [] := by
      intro he
      rw [he, List.map_nil, List.map_eq_nil_iff] at hmap
      exact hne hmap
    rw [RuntimeSigmaCondition.matches, allM_of_map hmap, allSelected]
    simp [List.isEmpty_eq_false_iff.mpr hsel]

theorem quantified_any (p : Str → Bool) (rs : List (Str × Bool)) :
    (quantified .any (indicesOf p (rs.map (·.1)))).matches (rs.map (·.2)) =
      some (((rs.filter fun r => p r.1).map (·.2)).any id) := by
  have hmap := indicesOf_map p rs
  rw [quantified]
  split
  · rename_i hnil
    rw [hnil, List.map_nil, eq_comm, List.map_eq_nil_iff] at hmap
    simp [RuntimeSigmaCondition.matches, hmap]
  · rw [RuntimeSigmaCondition.matches, anyM_of_map hmap]

/-- `results[names.index(name)]` is the dictionary entry of a name that is there. -/
theorem getElem?_idxOf : ∀ {rs : List (Str × Bool)} {name : Str}, name ∈ rs.map (·.1) →
    (rs.map (·.2))[(rs.map (·.1)).idxOf name]? = some (resultOf rs name)
  | [], _, h => by simp at h
  | (n, b) :: rs, name, h => by
    by_cases hn : n = name
    · subst hn
      simp [resultOf, List.lookup_cons_self]
    · have hne : (name == n) = false := by simpa using fun he => hn he.symm
      have ih := @getElem?_idxOf rs name (by simpa [Ne.symm hn, hn, eq_comm] using h)
      simpa [resultOf, List.idxOf_cons, hn, List.lookup_cons, hne] using ih

theorem resultOf_not_mem : ∀ {rs : List (Str × Bool)} {name : Str}, name ∉ rs.map (·.1) →
    resultOf rs name = false
  | [], _, _ => rfl
  | (n, b) :: rs, name, h => by
    simp only [List.map_cons, List.mem_cons, not_or] at h
    have ih := @resultOf_not_mem rs name h.2
    have hne : (name == n) = false := by simpa using h.1
    simpa [resultOf, List.lookup_cons, hne] using ih

/-- The compiled condition computes `_eval_condition`, whatever the condition text is. -/
theorem runtimeCondition_matches (rs : List (Str × Bool)) (cond : Str) :
    (runtimeCondition (rs.map (·.1)) cond).matches (rs.map (·.2)) =
      some (evalCondition rs cond) := by
  induction cond using evalCondition.induct with
  | case1 =>
    -- the empty condition: any selection at all
    have hrange : (List.range (rs.map (·.1)).length).map (fun i => (rs.map (·.2))[i]?) =
        (rs.map (·.2)).map some := by
      refine List.ext_getElem? fun i => ?_
      by_cases hi : i < rs.length <;> simp [hi]
    rw [runtimeCondition, evalCondition]
    simp only [if_true, RuntimeSigmaCondition.matches]
    rw [anyM_of_map hrange, List.any_map]
    rfl
  | case2 hne =>
    rw [runtimeCondition, evalCondition]
    simp only [hne, if_true, if_false]
    exact quantified_all isPublic rs
  | case3 cond hne hall hthem =>
    rw [runtimeCondition, evalCondition]
    simp only [hne, hall, hthem, if_true, if_false]
    exact quantified_any isPublic rs
  | case4 cond hne hall hthem pre hpat =>
    rw [runtimeCondition, evalCondition]
    simp only [hne, hall, hthem, hpat, if_false]
    exact quantified_all pre.isPrefixOf rs
  | case5 cond hne hall hthem pre hpat =>
    rw [runtimeCondition, evalCondition]
    simp only [hne, hall, hthem, hpat, if_false]
    exact quantified_any pre.isPrefixOf rs
  | case6 cond hne hall hthem hpat ho ih =>
    have hmap : ((splitOn orSep cond).attach.map fun p =>
        runtimeCondition (rs.map (·.1)) (strip p.1)).map (·.matches (rs.map (·.2))) =
        ((splitOn orSep cond).attach.map fun p => evalCondition rs (strip p.1)).map some := by
      simp only [List.map_map, Function.comp_def, ih]
    rw [runtimeCondition, evalCondition]
    simp only [hne, hall, hthem, hpat, if_false]
    rw [dif_pos ho, dif_pos ho, RuntimeSigmaCondition.matches, matchAnyChild_eq, anyM_of_map hmap,
      List.any_map]
    rfl
  | case7 cond hne hall hthem hpat ho ha ih =>
    have hmap : ((splitOn andSep cond).attach.map fun p =>
        runtimeCondition (rs.map (·.1)) (strip p.1)).map (·.matches (rs.map (·.2))) =
        ((splitOn andSep cond).attach.map fun p => evalCondition rs (strip p.1)).map some := by
      simp only [List.map_map, Function.comp_def, ih]
    rw [runtimeCondition, evalCondition]
    simp only [hne, hall, hthem, hpat, if_false]
    rw [dif_neg ho, dif_neg ho, dif_pos ha, dif_pos ha, RuntimeSigmaCondition.matches,
      matchAllChildren_eq, allM_of_map hmap, List.all_map]
    rfl
  | case8 cond hne hall hthem hpat ho ha =>
    rw [runtimeCondition, evalCondition]
    simp only [hne, hall, hthem, hpat, if_false]
    rw [dif_neg ho, dif_neg ho, dif_neg ha, dif_neg ha]
    split
    · rename_i hmem
      rw [RuntimeSigmaCondition.matches, resultOf_not_mem hmem]
    · rename_i hmem
      rw [RuntimeSigmaCondition.matches, anyM_singleton, getElem?_idxOf (not_not.mp hmem)]

/-! ### The plan -/

/-- The selectors of a supported detection compile, and the plan's results are the matcher's. -/
theorem compile_selections {h : Host} {detection : List (Key × Val)}
    (hsel : ∀ e ∈ selectionsOf detection, selectionSupported h e.2 = .ok ())
    (hre : usesRe h detection = false) (hshort : allShort detection = true) :
    ∃ compiled, collect (fun e => collect (compileBranch h) (Val.asList e.2))
        (selectionsOf detection) = .ok (some compiled) ∧
      ∀ condition negate event, RuntimeSigmaPlan.results h ⟨compiled, condition, negate⟩ event =
        (selectionResults h detection event).map fun rs => rs.map (·.2) := by
  have hplain : ∀ e ∈ selectionsOf detection, ∀ branch ∈ e.2.asList,
      branch.usesRe h = false := by
    intro e he branch hb
    have := List.any_eq_false.mp hre e he
    simp only [Bool.not_eq_true] at this
    simpa using List.any_eq_false.mp this branch hb
  have hall : ∀ e ∈ selectionsOf detection, ∀ branch ∈ e.2.asList, branch.allShort = true := by
    simpa [allShort] using hshort
  obtain ⟨compiled, hc, hall⟩ := collect_ok fun e he =>
    compileSelection_ok h (hsel e he) (hplain e he) (hall e he)
  refine ⟨compiled, hc, fun condition negate event => ?_⟩
  simp only [RuntimeSigmaPlan.results, selectionResults]
  cases eventFields event with
  | none => rfl
  | some fields =>
    simp only [Option.bind_eq_bind, Option.bind_some]
    refine mapM_forall₂ (fun r : Str × Bool => r.2) (hall.imp fun e branches he => ?_)
    rw [← he fields]
    cases matchSelection h fields e.2 <;> rfl

/-- Selections without `re` that compile hold no too long integer. -/
theorem short_of_compiled {h : Host} {detection : List (Key × Val)}
    {compiled : List (List (List RuntimeSigmaField))}
    (hc : collect (fun e => collect (compileBranch h) (Val.asList e.2)) (selectionsOf detection) =
      .ok (some compiled)) : allShort detection = true := by
  simp only [allShort, List.all_eq_true]
  intro e he branch hb
  obtain ⟨branches, hbranches⟩ := collect_some hc e he
  obtain ⟨fs, hfs⟩ := collect_some hbranches branch hb
  exact compileBranch_short hfs

/-- Only `re` makes the compile step give up early. -/
theorem usesRe_of_collect_none {h : Host} {detection : List (Key × Val)}
    (hc : collect (fun e => collect (compileBranch h) (Val.asList e.2)) (selectionsOf detection) =
      .ok none) : usesRe h detection = true := by
  obtain ⟨e, he, hnone⟩ := collect_none hc
  obtain ⟨branch, hb, hbranch⟩ := collect_none hnone
  exact List.any_eq_true.mpr ⟨e, he, List.any_eq_true.mpr ⟨branch, hb, compileBranch_none hbranch⟩⟩

theorem selectionResults_names {h : Host} {detection : List (Key × Val)} {event : Event}
    {rs : List (Str × Bool)} (hrs : selectionResults h detection event = some rs) :
    rs.map (·.1) = lowerNames h detection := by
  rw [selectionResults] at hrs
  cases hf : eventFields event with
  | none => simp [hf] at hrs
  | some fields =>
    simp only [hf, bind, Option.bind] at hrs
    refine mapM_keys (fun e y he => ?_) hrs
    cases hm : matchSelection h fields e.2 with
    | none => simp [hm] at he
    | some b =>
      simp only [hm, Option.some.injEq] at he
      rw [← he]

/-- The selector that the first literal `" and not "` negates is one of the detection's. -/
def NegatedSelectorNamed (h : Host) (detection : List (Key × Val)) : Prop :=
  ∀ base neg, cut andNotSep (rawCondition h detection) = some (base, neg) →
    strip neg ∈ lowerNames h detection

/-- With that selector there, the condition compiles to what `match` evaluates. -/
theorem compileCondition_ok {h : Host} {detection : List (Key × Val)}
    (hneg : NegatedSelectorNamed h detection) :
    ∃ condition negate, compileCondition (lowerNames h detection) (rawCondition h detection) =
        .ok (condition, negate) ∧
      ∀ compiled rs, rs.map (·.1) = lowerNames h detection →
        RuntimeSigmaPlan.verdict ⟨compiled, condition, negate⟩ (rs.map (·.2)) =
          some (evalWithNegation rs (rawCondition h detection)) := by
  rw [compileCondition]
  cases hc : cut andNotSep (rawCondition h detection) with
  | none =>
    refine ⟨_, _, rfl, fun compiled rs hrs => ?_⟩
    rw [RuntimeSigmaPlan.verdict, ← hrs, runtimeCondition_matches]
    simp only [evalWithNegation, hc]
    cases evalCondition rs (strip (rawCondition h detection)) <;> rfl
  | some p =>
    obtain ⟨base, neg⟩ := p
    have hmem := hneg base neg hc
    refine ⟨_, _, by simp only [indexOf, hmem, if_true]; rfl, fun compiled rs hrs => ?_⟩
    rw [RuntimeSigmaPlan.verdict, ← hrs, runtimeCondition_matches]
    simp only [evalWithNegation, hc]
    have hidx := @getElem?_idxOf rs (strip neg) (hrs ▸ hmem)
    cases evalCondition rs (strip base) with
    | false => rfl
    | true => simp [hidx]

theorem matchRule_detectionRule {h : Host} {detection : List (Key × Val)}
    (hd : ruleSupported h false (detectionRule detection) = .ok ()) (event : Event) :
    matchRule h (detectionRule detection) event = ((selectionResults h detection event).map
      fun rs => evalWithNegation rs (rawCondition h detection)).getD false := by
  have hdet : detectionOf (detectionRule detection) = some detection := rfl
  simp only [matchRule, hd, hdet]

/-- CORRECT: for an admitted detection without `re`, the compile step returns a plan that matches
    the same events as the public matcher exactly when the text after the first `" and not "` is a
    selector and no integer of the detection has more than 4300 digits. -/
theorem compileRuntimePlan_agrees_iff {h : Host} {detection : List (Key × Val)}
    (hd : ruleSupported h false (detectionRule detection) = .ok ()) (hre : usesRe h detection = false) :
    (∃ plan, compileRuntimePlan h detection = .ok plan ∧
        ∀ event, plan.matches h event = matchRule h (detectionRule detection) event) ↔
      NegatedSelectorNamed h detection ∧ allShort detection = true := by
  have hsup := hd
  rw [ruleSupported_detectionRule] at hsup
  constructor
  · rintro ⟨plan, hp, -⟩
    simp only [compileRuntimePlan, hd] at hp
    split at hp
    · simp at hp
    · rename_i hnone
      exact absurd (usesRe_of_collect_none hnone) (by simp [hre])
    · rename_i compiled hcompiled
      refine ⟨fun base neg hc => ?_, short_of_compiled hcompiled⟩
      by_contra hmem
      rw [compileCondition, hc] at hp
      simp [indexOf, hmem, bind, Except.bind, Except.map] at hp
  · rintro ⟨hneg, hshort⟩
    obtain ⟨compiled, hcomp, hres⟩ := compile_selections (detectionSupported_ok hsup).1 hre hshort
    obtain ⟨condition, negate, hcond, hverdict⟩ := compileCondition_ok hneg
    refine ⟨⟨compiled, condition, negate⟩, ?_, fun event => ?_⟩
    · simp only [compileRuntimePlan, hd, hcomp, hcond]
      rfl
    rw [matchRule_detectionRule hd, RuntimeSigmaPlan.matches, hres]
    cases hrs : selectionResults h detection event with
    | none => rfl
    | some rs =>
      simp only [Option.map_some, Option.bind_some,
        hverdict compiled rs (selectionResults_names hrs), Option.getD_some]

/-- An interpreter whose `str.lower` touches ASCII letters only. -/
def asciiHost : Host where
  lower s := s.map Char.toLower
  lower_ascii _ _ := rfl
  reCompiles _ := true
  reSearch _ _ := some false

/-- A detection over selectors that each ask for one message. -/
def messageDetection (names : List String) (condition : String) : List (Key × Val) :=
  names.map (fun n => (.str n.toList, .map [(.str "message".toList, .str n.toList)] none)) ++
    [(.str "condition".toList, .str condition.toList)]

theorem compileRuntimePlan_agrees_filter :
    ∃ plan, compileRuntimePlan asciiHost (messageDetection ["a", "b"] "a and not b") = .ok plan ∧
      ∀ event, plan.matches asciiHost event =
        matchRule asciiHost (detectionRule (messageDetection ["a", "b"] "a and not b")) event := by
  refine (compileRuntimePlan_agrees_iff rfl rfl).mpr ⟨fun base neg hc => ?_, rfl⟩
  have hcut : cut andNotSep (rawCondition asciiHost (messageDetection ["a", "b"] "a and not b")) =
      some ("a".toList, "b".toList) := rfl
  rw [hcut, Option.some.injEq, Prod.mk.injEq] at hc
  rw [← hc.2]
  decide

/-- At selectors `a`, `not`, `b` and the admitted condition `a and not and not b` the two differ:
    admission reads `(a and not) and not b`, the compile step looks up `and not b` and raises. -/
theorem compileRuntimePlan_raises :
    ruleSupported asciiHost false
        (detectionRule (messageDetection ["a", "not", "b"] "a and not and not b")) = .ok () ∧
      usesRe asciiHost (messageDetection ["a", "not", "b"] "a and not and not b") = false ∧
      compileRuntimePlan asciiHost (messageDetection ["a", "not", "b"] "a and not and not b") =
        .error "ValueError" :=
  ⟨rfl, rfl, rfl⟩

end Angerona.Sigma
