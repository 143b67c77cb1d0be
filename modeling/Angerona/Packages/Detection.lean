import Angerona.Lib.PyJson
import Angerona.Lib.Raising
import Angerona.Sigma.Agreement

/-!
    The detection of a detection package, `_validate_detection`.

    The validator splits a condition at the matches of `\s+(?:and|or|and not)\s+`. The alternatives
    are tried in their order, and `and` matches wherever `and not` would, so a negated name is left
    with its `not` in the part after the split. -/

namespace Angerona.Packages
open Text PyJson Raising
open Angerona.Sigma (Host andNotSep asciiHost)

def maxSelections : ℕ := 32
def maxFieldsPerSelection : ℕ := 24
def maxValuesPerField : ℕ := 32
def maxStringChars : ℕ := 4096

/-! ### Names and fields -/

/-- `[A-Za-z0-9_.-]`. -/
def isTokenChar (c : Char) : Bool :=
  ('A' ≤ c ∧ c ≤ 'Z') ∨ ('a' ≤ c ∧ c ≤ 'z') ∨ ('0' ≤ c ∧ c ≤ '9') ∨ c = '_' ∨ c = '.' ∨ c = '-'

/-- `_COND_TOKEN.fullmatch(s)`. -/
def isToken (s : Str) : Bool := s ≠ [] ∧ s.length ≤ 80 ∧ s.all isTokenChar

/-- `_FIELD.fullmatch(s)`: a token, and one of three modifiers after a bar. -/
def isField (s : Str) : Bool :=
  isToken (s.takeWhile isTokenChar) ∧
    s.dropWhile isTokenChar ∈ [[], "|contains".toList, "|startswith".toList, "|endswith".toList]

/-- `value if isinstance(value, list) else [value]`. -/
def choicesOf : Value → List Value
  | .list xs => xs
  | v => [v]

section Validator

-- `repr` of a key
variable (shown : Key → Str)

/-- `_fail`. -/
def fail (message : Str) : Except Str Unit := .error message

/-- `_bounded_string`. -/
def boundedString (name : Str) (maximum : ℕ) (value : Value) : Except Str Str :=
  match value with
  | .str s =>
    if s = [] ∨ maximum < s.length then
      .error (name ++ " must be a non-empty string of at most ".toList ++ intText maximum ++
        " characters".toList)
    else .ok s
  | _ =>
    .error (name ++ " must be a non-empty string of at most ".toList ++ intText maximum ++
      " characters".toList)

/-- `_validate_scalar`. -/
def validateScalar (name : Str) : Value → Except Str Unit
  | .str s => if maxStringChars < s.length then fail (name ++ " is too long".toList) else .ok ()
  | .float (.finite _) => .ok ()
  | .float _ => fail (name ++ " must be finite".toList)
  | .null => .ok ()
  | .bool _ => .ok ()
  | .int _ => .ok ()
  | _ => fail (name ++ " must contain only scalar values".toList)

/-- One field of a branch. -/
def validateField (item : Key × Value) : Except Str Unit :=
  match item.1 with
  | .str field =>
    if !isField field then fail ("unsafe or invalid field modifier: ".toList ++ shown item.1)
    else
      let values := choicesOf item.2
      if values.length = 0 ∨ maxValuesPerField < values.length then
        fail ("field ".toList ++ field ++ " has an invalid value count".toList)
      else values.forM (validateScalar field)
  | key => fail ("unsafe or invalid field modifier: ".toList ++ shown key)

/-- One branch of a selection. -/
def validateBranch (name : Str) : Value → Except Str Unit
  | .dict fields =>
    if fields.length = 0 ∨ maxFieldsPerSelection < fields.length then
      fail ("selection ".toList ++ name ++ " must contain a bounded field map".toList)
    else fields.forM (validateField shown)
  | _ => fail ("selection ".toList ++ name ++ " must contain a bounded field map".toList)

/-- One selection with its name. -/
def validateSelection (item : Key × Value) : Except Str Unit :=
  match item.1 with
  | .str name =>
    if !isToken name then fail "selection names must be simple identifiers".toList
    else
      let choices := choicesOf item.2
      if choices.length = 0 ∨ maxValuesPerField < choices.length then
        fail ("selection ".toList ++ name ++ " has an invalid branch count".toList)
      else choices.forM (validateBranch shown name)
  | _ => fail "selection names must be simple identifiers".toList

/-- The checks of the selections. -/
def validateSelections (selections : List (Key × Value)) : Except Str Unit :=
  if selections.length = 0 ∨ maxSelections < selections.length then
    fail "logic.detection has an invalid selection count".toList
  else selections.forM (validateSelection shown)

end Validator

/-! ### The split -/

def operators : List Str :=
  [['a', 'n', 'd'], ['o', 'r'], ['a', 'n', 'd', ' ', 'n', 'o', 't']]

/-- A match of `\s+(?:and|or|and not)\s+` at the start of a text: what is after it. -/
def operatorAt (s : Str) : Option Str :=
  if (s.head?.map isSpace).getD false then
    (operators.find? fun op => op.isPrefixOf (s.dropWhile isSpace) &&
      ((((s.dropWhile isSpace).drop op.length).head?.map isSpace).getD false)).map
        fun op => ((s.dropWhile isSpace).drop op.length).dropWhile isSpace
  else none

/-- The text before and after the first match. -/
def cutOperator : Str → Option (Str × Str)
  | [] => none
  | c :: s =>
    (operatorAt (c :: s)).elim ((cutOperator s).map fun p => (c :: p.1, p.2))
      fun rest => some ([], rest)

def splitOperatorsFuel : ℕ → Str → List Str
  | 0, s => [s]
  | n + 1, s => (cutOperator s).elim [s] fun p => p.1 :: splitOperatorsFuel n p.2

/-- `re.split(r"\s+(?:and|or|and not)\s+", s)`. -/
def splitOperators (s : Str) : List Str := splitOperatorsFuel s.length s

/-! ### The validator -/

/-- The conditions that are accepted as they stand. -/
def wholeConditions : List Str :=
  ["all of them", "1 of them", "any of them", "all of selection*", "1 of selection*"].map
    String.toList

def conditionKey : Key := .str "condition".toList

/-- `{k: v for k, v in detection.items() if k != "condition"}`. -/
def selectionsOf (detection : List (Key × Value)) : List (Key × Value) :=
  detection.filter fun i => i.1 ≠ conditionKey

/-- The checks of the condition. -/
def validateCondition (h : Host) (selections : List (Key × Value)) (condition : Str) :
    Except Str Unit :=
  let normalized := h.lower condition
  if normalized ∈ wholeConditions then .ok ()
  else if (splitOperators normalized).any fun part =>
      !isToken part || !(selections.map Prod.fst).contains (.str part) then
    fail "condition references an unknown selection or unsupported expression".toList
  else if occurs andNotSep normalized ∧ 1 < count andNotSep normalized then
    fail "condition permits at most one 'and not' clause".toList
  else .ok ()

/-- `_validate_detection`. -/
def validateDetection (shown : Key → Str) (h : Host) : Value → Except Str Unit
  | .dict detection => do
    let condition ← boundedString "logic.detection.condition".toList 512
      (getItem "condition".toList detection)
    validateSelections shown (selectionsOf detection)
    validateCondition h (selectionsOf detection) condition
  | _ => fail "logic.detection must be an object".toList

/-! ### Conditions of the supported grammar -/

/-- A name of a selection: a token without capital letters. -/
def isName (s : Str) : Bool := isToken s && s.all fun c => !decide ('A' ≤ c ∧ c ≤ 'Z')

abbrev Name := {s : Str // isName s = true}

inductive Joiner where
  | and
  | or

def Joiner.text : Joiner → Str
  | .and => [' ', 'a', 'n', 'd', ' ']
  | .or => [' ', 'o', 'r', ' ']

/-- One name, or names joined by one operator, and a negated name at the end. -/
structure Condition where
  first : Name
  rest : List Name
  joiner : Joiner
  negated : Option Name

/-- Names after a joiner each. -/
def joined (j : Joiner) (names : List Name) : Str := names.flatMap fun n => j.text ++ n.val

def Condition.text (c : Condition) : Str :=
  c.first.val ++ (joined c.joiner c.rest ++ c.negated.elim [] fun n => andNotSep ++ n.val)

def Condition.names (c : Condition) : List Name := c.first :: c.rest ++ c.negated.toList

/-- Every name of the condition is that of a selection. -/
def Condition.Named (c : Condition) (detection : List (Key × Value)) : Prop :=
  ∀ n ∈ c.names, Key.str n.val ∈ (selectionsOf detection).map Prod.fst

/-! ### Splitting a condition -/

theorem isToken_chars {s : Str} (h : isToken s = true) : s ≠ [] ∧ ∀ c ∈ s, isTokenChar c = true := by
  rw [isToken, decide_eq_true_eq, List.all_eq_true] at h
  exact ⟨h.1, h.2.2⟩

theorem tokenChar_range {c : Char} (h : isTokenChar c = true) : c.toNat < 128 ∧ 0x2D ≤ c.toNat := by
  simp only [isTokenChar, decide_eq_true_eq, Char.le_def, UInt32.le_iff_toNat_le] at h
  change c.val.toNat < 128 ∧ 0x2D ≤ c.val.toNat
  rcases h with h | h | h | rfl | rfl | rfl
  · have := h.1; have := h.2; simp at *; omega
  · have := h.1; have := h.2; simp at *; omega
  · have := h.1; have := h.2; simp at *; omega
  all_goals decide

theorem isSpace_tokenChar {c : Char} (h : isTokenChar c = true) : isSpace c = false := by
  have hrange := tokenChar_range h
  simp only [isSpace, Bool.or_eq_false_iff, Bool.and_eq_false_iff, decide_eq_false_iff_not,
    beq_eq_false_iff_ne]
  omega

/-- A text without spaces that is not empty. -/
def Solid (s : Str) : Prop := s ≠ [] ∧ ∀ c ∈ s, isSpace c = false

theorem isToken_solid {s : Str} (h : isToken s = true) : Solid s :=
  ⟨(isToken_chars h).1, fun c hc => isSpace_tokenChar ((isToken_chars h).2 c hc)⟩

theorem Name.token (n : Name) : isToken n.val = true := by
  have h := n.property
  rw [isName, Bool.and_eq_true] at h
  exact h.1

theorem Name.solid (n : Name) : Solid n.val := isToken_solid n.token

theorem Solid.skip {s : Str} (h : Solid s) (t : Str) : (s ++ t).dropWhile isSpace = s ++ t := by
  obtain ⟨hne, hs⟩ := h
  rcases s with _ | ⟨c, s⟩
  · exact absurd rfl hne
  · simp [hs c List.mem_cons_self]

/-- No match begins inside a word. -/
theorem cutOperator_append {w : Str} (hw : ∀ c ∈ w, isSpace c = false) (s : Str) :
    cutOperator (w ++ s) = (cutOperator s).map fun p => (w ++ p.1, p.2) := by
  induction w with
  | nil => simp
  | cons c w ih =>
    have hnone : operatorAt (c :: (w ++ s)) = none := by
      simp [operatorAt, hw c List.mem_cons_self]
    rw [List.cons_append, cutOperator, hnone, Option.elim_none,
      ih fun d hd => hw d (List.mem_cons_of_mem _ hd), Option.map_map]
    rfl

theorem operatorAt_joiner (j : Joiner) {w : Str} (hw : Solid w) (t : Str) :
    operatorAt (j.text ++ (w ++ t)) = some (w ++ t) := by
  have hskip := hw.skip t
  cases j <;> simp [operatorAt, operators, Joiner.text, isSpace, hskip]

/-- A joiner and what follows it are cut off. -/
theorem cutOperator_joiner {a w : Str} (ha : Solid a) (j : Joiner) (hw : Solid w) (t : Str) :
    cutOperator (a ++ (j.text ++ (w ++ t))) = some (a, w ++ t) := by
  obtain ⟨c, s, hc⟩ : ∃ c s, j.text = c :: s := by cases j <;> exact ⟨_, _, rfl⟩
  have hat := operatorAt_joiner j hw t
  rw [hc, List.cons_append] at hat
  rw [cutOperator_append ha.2, hc, List.cons_append, cutOperator, hat, Option.elim_some,
    Option.map_some, List.append_nil]

/-- There is no operator after the last space of a text. -/
theorem operatorAt_last {w : Str} (hw : Solid w) : operatorAt (' ' :: w) = none := by
  have hskip := hw.skip []
  rw [List.append_nil] at hskip
  have hdrop : (' ' :: w).dropWhile isSpace = w := by
    rw [List.dropWhile_cons_of_pos (by decide), hskip]
  have hhead : ∀ n, ((w.drop n).head?.map isSpace).getD false = false := by
    intro n
    rcases hd : w.drop n with _ | ⟨c, s⟩
    · rfl
    · have hmem : c ∈ w := List.mem_of_mem_drop (hd ▸ List.mem_cons_self)
      simp [hw.2 c hmem]
  rw [operatorAt, hdrop, if_pos (by rfl), Option.map_eq_none_iff, List.find?_eq_none]
  intro op _
  rw [hhead, Bool.and_false]
  simp

theorem cutOperator_solid {w : Str} (hw : ∀ c ∈ w, isSpace c = false) : cutOperator w = none := by
  have happ := cutOperator_append hw []
  rwa [List.append_nil] at happ

theorem cutOperator_last {w : Str} (hw : Solid w) : cutOperator (' ' :: w) = none := by
  rw [cutOperator, operatorAt_last hw, Option.elim_none, cutOperator_solid hw.2, Option.map_none]

theorem splitFuel_none {s : Str} (h : cutOperator s = none) (fuel : ℕ) :
    splitOperatorsFuel fuel s = [s] := by
  cases fuel with
  | zero => rfl
  | succ fuel => rw [splitOperatorsFuel, h, Option.elim_none]

/-- The names before the end of a condition are parts of it. -/
theorem splitFuel_joined (j : Joiner) {tail : Str} {parts : List Str} {fuel : ℕ}
    (hend : ∀ n : Name, splitOperatorsFuel fuel (n.val ++ tail) = n.val :: parts) :
    ∀ (names : List Name) (n : Name),
      splitOperatorsFuel (names.length + fuel) (n.val ++ (joined j names ++ tail)) =
        n.val :: names.map Subtype.val ++ parts := by
  intro names
  induction names with
  | nil => simpa [joined] using hend
  | cons m names ih =>
    intro n
    have htext : joined j (m :: names) ++ tail = j.text ++ (m.val ++ (joined j names ++ tail)) := by
      simp [joined]
    rw [htext, List.length_cons, Nat.add_right_comm, splitOperatorsFuel,
      cutOperator_joiner n.solid j m.solid, Option.elim_some, ih m]
    rfl

theorem length_joined (j : Joiner) (names : List Name) : names.length ≤ (joined j names).length := by
  induction names with
  | nil => simp
  | cons n names ih =>
    have hj : 1 ≤ j.text.length := by cases j <;> decide
    have hcons : joined j (n :: names) = j.text ++ n.val ++ joined j names := by simp [joined]
    rw [hcons, List.length_cons, List.length_append, List.length_append]
    omega

/-- The parts of a condition; the negated name keeps its `not`. -/
theorem splitOperators_text (c : Condition) : splitOperators c.text =
    c.first.val :: c.rest.map Subtype.val ++
      (c.negated.map fun n => ['n', 'o', 't'] ++ ' ' :: n.val).toList := by
  have hlen := length_joined c.joiner c.rest
  rw [splitOperators]
  rcases hn : c.negated with _ | n
  · have htext : c.text = c.first.val ++ (joined c.joiner c.rest ++ []) := by
      rw [Condition.text, hn]
      rfl
    obtain ⟨fuel, hfuel⟩ : ∃ fuel, c.text.length = c.rest.length + fuel := by
      refine Nat.exists_eq_add_of_le ?_
      rw [htext, List.length_append, List.length_append]
      omega
    rw [hfuel, htext]
    refine splitFuel_joined c.joiner (fun m => ?_) c.rest c.first
    rw [List.append_nil]
    exact splitFuel_none (cutOperator_solid m.solid.2) fuel
  · have htext : c.text = c.first.val ++
        (joined c.joiner c.rest ++ (Joiner.and.text ++ (['n', 'o', 't'] ++ ' ' :: n.val))) := by
      rw [Condition.text, hn]
      rfl
    have hnot : Solid ['n', 'o', 't'] := by
      refine ⟨by simp, fun d hd => ?_⟩
      simp only [List.mem_cons, List.not_mem_nil, or_false] at hd
      rcases hd with rfl | rfl | rfl <;> rfl
    obtain ⟨fuel, hfuel⟩ : ∃ fuel, c.text.length = c.rest.length + (fuel + 1) := by
      have hand : Joiner.and.text.length = 5 := rfl
      have htotal := congrArg List.length htext
      rw [List.length_append, List.length_append, List.length_append] at htotal
      exact ⟨c.text.length - c.rest.length - 1, by omega⟩
    rw [hfuel, htext]
    refine splitFuel_joined c.joiner (fun m => ?_) c.rest c.first
    have hlast : cutOperator (['n', 'o', 't'] ++ ' ' :: n.val) = none := by
      rw [cutOperator_append hnot.2, cutOperator_last n.solid, Option.map_none]
    rw [splitOperatorsFuel, cutOperator_joiner m.solid .and hnot, Option.elim_some,
      splitFuel_none hlast]
    rfl

/-! ### Acceptance -/

/-- An ASCII character that is not a capital letter. -/
def isLower (c : Char) : Bool := c.toNat < 128 && !decide ('A' ≤ c ∧ c ≤ 'Z')

theorem toLower_isLower {c : Char} (h : isLower c = true) : c.toNat < 128 ∧ c.toLower = c := by
  rw [isLower, Bool.and_eq_true, decide_eq_true_eq, Bool.not_eq_true', decide_eq_false_iff_not] at h
  refine ⟨h.1, ?_⟩
  rw [Char.toLower, dif_neg]
  exact h.2

theorem Name.chars (n : Name) : ∀ c ∈ n.val, isLower c = true := by
  intro c hc
  have h := n.property
  rw [isName, Bool.and_eq_true, List.all_eq_true] at h
  have hrange := (tokenChar_range ((isToken_chars h.1).2 c hc)).1
  rw [isLower, h.2 c hc, Bool.and_true, decide_eq_true_eq]
  exact hrange

/-- A condition is its own lower-case form. -/
theorem lower_text (h : Host) (c : Condition) : h.lower c.text = c.text := by
  have hjoiner : ∀ j : Joiner, ∀ d ∈ j.text, isLower d = true := by
    intro j d hd
    have hj : j.text.all isLower = true := by cases j <;> rfl
    exact List.all_eq_true.mp hj d hd
  have hnot : andNotSep.all isLower = true := by decide +kernel
  have hall : ∀ d ∈ c.text, isLower d = true := by
    intro d hd
    rw [Condition.text, List.mem_append, List.mem_append] at hd
    rcases hd with hd | hd | hd
    · exact Name.chars c.first d hd
    · obtain ⟨n, -, hn⟩ := List.mem_flatMap.mp hd
      rcases List.mem_append.mp hn with hn | hn
      · exact hjoiner c.joiner d hn
      · exact n.chars d hn
    · rcases hneg : c.negated with _ | n
      · rw [hneg] at hd
        cases hd
      · rw [hneg, Option.elim_some] at hd
        rcases List.mem_append.mp hd with hd | hd
        · exact List.all_eq_true.mp hnot d hd
        · exact n.chars d hd
  rw [h.lower_ascii _ fun d hd => (toLower_isLower (hall d hd)).1]
  exact (List.map_congr_left fun d hd => (toLower_isLower (hall d hd)).2).trans (List.map_id _)

/-- The conditions that are accepted as they stand are one part each, and no token. -/
theorem wholeConditions_parts : ∀ s ∈ wholeConditions, splitOperators s = [s] ∧ isToken s = false := by
  decide +kernel

theorem text_not_whole (c : Condition) : c.text ∉ wholeConditions := by
  intro hmem
  obtain ⟨hsplit, htoken⟩ := wholeConditions_parts _ hmem
  rw [splitOperators_text] at hsplit
  have hfirst : c.first.val = c.text := (List.cons.inj hsplit).1
  rw [← hfirst, c.first.token] at htoken
  exact absurd htoken (by simp)

/-- A negated name is not a token with the `not` before it. -/
theorem isToken_not (s : Str) : isToken (['n', 'o', 't'] ++ ' ' :: s) = false := by
  rcases h : isToken (['n', 'o', 't'] ++ ' ' :: s) with _ | _
  · rfl
  · have hchar := (isToken_chars h).2 ' ' (by simp)
    exact absurd hchar (by decide)

variable {shown : Key → Str} {h : Host} {detection : List (Key × Value)}

theorem validateCondition_ok (c : Condition) :
    validateCondition h (selectionsOf detection) c.text = .ok () ↔
      c.Named detection ∧ c.negated = none ∧ count andNotSep c.text ≤ 1 := by
  rw [validateCondition, lower_text, if_neg (text_not_whole c), splitOperators_text]
  rcases hn : c.negated with _ | n
  · have hnamed : c.Named detection ↔ ¬((c.first.val :: c.rest.map Subtype.val).any fun part =>
        !isToken part || !((selectionsOf detection).map Prod.fst).contains (.str part)) = true := by
      rw [Bool.not_eq_true, List.any_eq_false, Condition.Named, Condition.names, hn]
      constructor
      · intro hall part hpart
        rw [← List.map_cons, List.mem_map] at hpart
        obtain ⟨n, hmem, rfl⟩ := hpart
        have hkey := hall n (List.mem_append_left _ hmem)
        simp only [n.token, Bool.not_true, Bool.false_or, Bool.not_eq_true, Bool.not_eq_false',
          List.contains_iff_mem, hkey]
      · intro hall n hmem
        rw [Option.toList_none, List.append_nil] at hmem
        have hpart := hall n.val (by rw [← List.map_cons]; exact List.mem_map_of_mem hmem)
        simpa only [n.token, Bool.not_true, Bool.false_or, Bool.not_eq_true, Bool.not_eq_false',
          List.contains_iff_mem] using hpart
    have hcount : occurs andNotSep c.text ∧ 1 < count andNotSep c.text ↔
        ¬count andNotSep c.text ≤ 1 := by
      rw [Nat.not_le]
      refine ⟨fun h => h.2, fun h => ⟨?_, h⟩⟩
      rcases ho : occurs andNotSep c.text with _ | _
      · rw [count, splitOn_of_not_occurs (by decide) ho] at h
        exact absurd h (by simp)
      · rfl
    rw [Option.map_none, Option.toList_none, List.append_nil, hnamed]
    split
    · rename_i hbad
      exact iff_of_false (by simp [fail]) fun hgo => hgo.1 hbad
    · rename_i hgood
      split
      · rename_i hmany
        exact iff_of_false (by simp [fail]) fun hgo => hcount.mp hmany hgo.2.2
      · rename_i hfew
        exact iff_of_true rfl ⟨hgood, rfl, not_not.mp fun hmany => hfew (hcount.mpr hmany)⟩
  · refine iff_of_false ?_ fun hgo => absurd hgo.2.1 (by simp)
    rw [if_pos]
    · simp [fail]
    · rw [List.any_eq_true]
      refine ⟨['n', 'o', 't'] ++ ' ' :: n.val, by simp, ?_⟩
      rw [isToken_not]
      rfl

/-- What the validator accepts. -/
theorem validateDetection_ok (c : Condition)
    (hc : getItem "condition".toList detection = .str c.text) :
    validateDetection shown h (.dict detection) = .ok () ↔
      c.Named detection ∧ validateSelections shown (selectionsOf detection) = .ok () ∧
        c.text.length ≤ 512 ∧ c.negated = none ∧ count andNotSep c.text ≤ 1 := by
  have hne : c.text ≠ [] := by
    rw [Condition.text]
    exact List.append_ne_nil_of_left_ne_nil c.first.solid.1 _
  rw [validateDetection, hc, boundedString]
  by_cases hlen : 512 < c.text.length
  · rw [if_pos (.inr hlen)]
    refine iff_of_false (fun hgo => ?_) fun hgo => absurd hgo.2.2.1 (by omega)
    obtain ⟨s, hs, -⟩ := bind_ok.mp hgo
    cases hs
  · rw [if_neg (not_or.mpr ⟨hne, hlen⟩)]
    constructor
    · intro hgo
      obtain ⟨s, hs, hgo⟩ := bind_ok.mp hgo
      obtain rfl := Except.ok.inj hs
      obtain ⟨_, hsel, hgo⟩ := bind_ok.mp hgo
      obtain ⟨hnamed, hneg, hcount⟩ := (validateCondition_ok c).mp hgo
      exact ⟨hnamed, hsel, not_lt.mp hlen, hneg, hcount⟩
    · rintro ⟨hnamed, hsel, -, hneg, hcount⟩
      refine bind_ok.mpr ⟨c.text, rfl, bind_ok.mpr ⟨(), hsel, ?_⟩⟩
      exact (validateCondition_ok c).mpr ⟨hnamed, hneg, hcount⟩

/-- CORRECT: a detection is accepted exactly when its condition names selections, if and only if a
    name is missing, or nothing is negated and the selections and the sizes are accepted. -/
theorem accepts_named_iff (c : Condition)
    (hc : getItem "condition".toList detection = .str c.text) :
    (validateDetection shown h (.dict detection) = .ok () ↔ c.Named detection) ↔
      ¬c.Named detection ∨ validateSelections shown (selectionsOf detection) = .ok () ∧
        c.text.length ≤ 512 ∧ c.negated = none ∧ count andNotSep c.text ≤ 1 := by
  rw [validateDetection_ok c hc]
  by_cases hnamed : c.Named detection
  · simp [hnamed]
  · simp [hnamed]

def selectionA : Key × Value := (.str ['a'], .dict [(.str ['f'], .str ['x'])])
def selectionB : Key × Value := (.str ['b'], .dict [(.str ['f'], .str ['x'])])
def nameA : Name := ⟨['a'], rfl⟩
def nameB : Name := ⟨['b'], rfl⟩

/-- `a or b or a`. -/
def eitherName : Condition := ⟨nameA, [nameB, nameA], .or, none⟩

def eitherDetection : List (Key × Value) :=
  [(conditionKey, .str eitherName.text), selectionA, selectionB]

/-- A condition that joins names of selections is accepted. -/
theorem accepts_named_joined : eitherName.text = "a or b or a".toList ∧
    validateDetection (fun _ => []) asciiHost (.dict eitherDetection) = .ok () := by
  have hnamed : eitherName.Named eitherDetection := by
    rw [Condition.Named]
    decide +kernel
  have hsel : validateSelections (fun _ => []) (selectionsOf eitherDetection) = .ok () := by
    decide +kernel
  refine ⟨by decide +kernel,
    ((accepts_named_iff eitherName rfl).mpr (.inr ⟨hsel, ?_, rfl, ?_⟩)).mpr hnamed⟩
  · decide +kernel
  · decide +kernel

/-- `a and not b` is rejected where `a` and `b` are selections. -/
theorem trailing_not_rejected :
    ¬∀ (shown : Key → Str) (h : Host) (detection : List (Key × Value)) (c : Condition),
      getItem "condition".toList detection = .str c.text →
        (validateDetection shown h (.dict detection) = .ok () ↔ c.Named detection) := by
  intro hall
  have hcond : (⟨nameA, [], .and, some nameB⟩ : Condition).text =
    ['a', ' ', 'a', 'n', 'd', ' ', 'n', 'o', 't', ' ', 'b'] := by decide +kernel
  have hok := (hall (fun _ => []) asciiHost
    [(conditionKey, .str ['a', ' ', 'a', 'n', 'd', ' ', 'n', 'o', 't', ' ', 'b']), selectionA,
      selectionB] ⟨nameA, [], .and, some nameB⟩ (by rw [hcond]; rfl)).mpr
        (by rw [Condition.Named]; decide +kernel)
  revert hok
  decide +kernel

end Angerona.Packages
