import Angerona.Sigma.Rule

/-!
    The constrained Sigma engine: the two evaluators.

    `matchRule` is the defensive public matcher: it re-admits the rule on every call and interprets
    the raw condition. `compileRuntimePlan` does the same work once and leaves a plan of selector
    indices. Both cut the raw, un-normalised condition at the *first* `" and not "`.

    `Option` is the interpreter's exception: `none` is a raise, which both evaluators turn into
    `False` at the outside. -/

namespace Angerona.Sigma
open Text

/-! ### Events -/

/-- A field value: `None`, or an object with the text `str` gives for it (`none`: `str` raises). -/
inductive FieldVal where
  | null
  | obj (text : Option Str)

/-- `"" if value is None else str(value)`. -/
def FieldVal.text : FieldVal → Option Str
  | .null => some []
  | .obj t => t

structure Event where
  module : FieldVal
  message : FieldVal
  severity : FieldVal
  details : Option (List (Option Str × FieldVal))

/-- `event_fields`: the event's own fields first, then every detail whose key is still free. -/
def eventFields (event : Event) : Option (List (Str × FieldVal)) :=
  let own := [("module".toList, event.module), ("message".toList, event.message),
    ("severity".toList, event.severity)]
  match event.details with
  | none => some own
  | some details => details.foldlM (fun fields (k, v) => do
      let key ← k
      some (if fields.any (·.1 = key) then fields else fields ++ [(key, v)])) own

def fieldOf (fields : List (Str × FieldVal)) (field : Str) : FieldVal :=
  (fields.lookup field).getD .null

/-! ### The public matcher -/

/-- `"" if expected is None else str(expected)`. -/
def Val.expectedText : Val → Option Str
  | .null => some []
  | v => v.text

/-- The comparison of `_match_value` once both sides are text. -/
def compareText (h : Host) (modifier fv ev : Str) : Bool :=
  if modifier = "contains".toList then occurs (h.lower ev) (h.lower fv)
  else if modifier = "startswith".toList then (h.lower ev).isPrefixOf (h.lower fv)
  else if modifier = "endswith".toList then (h.lower ev).isSuffixOf (h.lower fv)
  else if modifier = "re".toList then (h.reSearch ev fv).getD false
  else h.lower fv = h.lower ev

/-- `_match_value`; an empty modifier is no modifier. -/
def matchValue (h : Host) (fieldVal : FieldVal) (modifier : Str) (expected : Val) : Option Bool := do
  let fv ← fieldVal.text
  let ev ← expected.expectedText
  some (compareText h modifier fv ev)

/-- One turn of the loop of `_match_selection` over a selection map. -/
def matchField (h : Host) (fields : List (Str × FieldVal)) : Key × Val → Option Bool
  | (.other, _) => none
  | (.str key, expected) =>
    let parts := splitOn ['|'] key
    if 2 < parts.length then some false
    else expected.asList.anyM (matchValue h (fieldOf fields (parts.headD [])) (modifierOf parts))

mutual

/-- `_match_selection`. -/
def matchSelection (h : Host) (fields : List (Str × FieldVal)) : Val → Option Bool
  | .list items _ => matchAnySelection h fields items
  | .map entries _ => entries.allM (matchField h fields)
  | _ => some false

/-- `any(_match_selection(s, fields) for s in items)`. -/
def matchAnySelection (h : Host) (fields : List (Str × FieldVal)) : List Val → Option Bool
  | [] => some false
  | s :: rest => do
    if ← matchSelection h fields s then some true else matchAnySelection h fields rest

end

theorem strip_length_le (s : Str) : (strip s).length ≤ s.length := by
  have hd : ∀ t : Str, (t.dropWhile isSpace).length ≤ t.length := fun t =>
    (List.dropWhile_suffix isSpace).length_le
  calc (strip s).length ≤ (lstrip s).length := by simpa [strip, rstrip] using hd (lstrip s).reverse
    _ ≤ s.length := hd s

/-- `results.get(name, False)`. -/
def resultOf (results : List (Str × Bool)) (name : Str) : Bool := (results.lookup name).getD false

/-- The selections a quantified condition ranges over. -/
def startingWith (pre : Str) (results : List (Str × Bool)) : List Bool :=
  (results.filter fun r => pre.isPrefixOf r.1).map (·.2)

/-- `not name.startswith("_")`. -/
def isPublic (name : Str) : Bool := name.head? ≠ some '_'

def notUnderscored (results : List (Str × Bool)) : List Bool :=
  (results.filter fun r => isPublic r.1).map (·.2)

/-- `all(selected)`, and false for an empty selection. -/
def allSelected (selected : List Bool) : Bool := !selected.isEmpty && selected.all id

/-- `_eval_condition`. -/
def evalCondition (results : List (Str × Bool)) (cond : Str) : Bool :=
  if cond = [] then results.any (·.2)
  else if cond = allOfThem then allSelected (notUnderscored results)
  else if cond = oneOfThem ∨ cond = anyOfThem then (notUnderscored results).any id
  else match prefixPattern cond with
    | some (true, pre) => allSelected (startingWith pre results)
    | some (false, pre) => (startingWith pre results).any id
    | none =>
      if _ho : occurs orSep cond = true then
        (splitOn orSep cond).attach.any fun p => evalCondition results (strip p.1)
      else if _ha : occurs andSep cond = true then
        (splitOn andSep cond).attach.all fun p => evalCondition results (strip p.1)
      else resultOf results cond
termination_by cond.length
decreasing_by
  · exact lt_of_le_of_lt (strip_length_le _) (length_lt_of_mem_splitOn (by decide) _ho p.2)
  · exact lt_of_le_of_lt (strip_length_le _) (length_lt_of_mem_splitOn (by decide) _ha p.2)

/-- The condition handling of `match`: split off the first `and not`, evaluate the rest. -/
def evalWithNegation (results : List (Str × Bool)) (condition : Str) : Bool :=
  match cut andNotSep condition with
  | some (base, neg) => evalCondition results (strip base) && !resultOf results (strip neg)
  | none => evalCondition results (strip condition)

/-- `str(detection.get("condition", "")).strip().lower()`; an admitted condition is a string, and
    its text does not raise. -/
def rawCondition (h : Host) (detection : List (Key × Val)) : Str :=
  h.lower (strip (((get detection "condition").bind Val.text).getD []))

/-- `results` of `match`: every selection under its lower-cased name. -/
def selectionResults (h : Host) (detection : List (Key × Val)) (event : Event) :
    Option (List (Str × Bool)) := do
  let fields ← eventFields event
  (selectionsOf detection).mapM fun (name, sel) => do
    some (h.lower name.text, ← matchSelection h fields sel)

/-- `rule.get("detection")`, when it is a map. -/
def detectionOf : Val → Option (List (Key × Val))
  | .map rule _ =>
    match get rule "detection" with
    | some (.map detection _) => some detection
    | _ => none
  | _ => none

/-- `match`. -/
def matchRule (h : Host) (rule : Val) (event : Event) : Bool :=
  match ruleSupported h false rule with
  | .error _ => false
  | .ok () =>
    match detectionOf rule with
    | none => false
    | some detection => ((selectionResults h detection event).map
        fun results => evalWithNegation results (rawCondition h detection)).getD false

/-! ### The precompiled plan -/

/-- `_RuntimeSigmaField`. -/
structure RuntimeSigmaField where
  field : Str
  modifier : Str
  expected : List Str

/-- `_RuntimeSigmaField.matches`. -/
def RuntimeSigmaField.matches (h : Host) (f : RuntimeSigmaField) (fields : List (Str × FieldVal)) :
    Option Bool := do
  let actual := h.lower (← (fieldOf fields f.field).text)
  some (
    if f.modifier = "contains".toList then f.expected.any fun e => occurs e actual
    else if f.modifier = "startswith".toList then f.expected.any fun e => e.isPrefixOf actual
    else if f.modifier = "endswith".toList then f.expected.any fun e => e.isSuffixOf actual
    else f.expected.contains actual)

/-- `_RuntimeSigmaCondition`, one constructor for each `operation`. -/
inductive RuntimeSigmaCondition where
  | all (selectors : List Nat)
  | any (selectors : List Nat)
  | and (children : List RuntimeSigmaCondition)
  | or (children : List RuntimeSigmaCondition)
  | false

mutual

/-- `_RuntimeSigmaCondition.matches`; `results[index]` may raise. -/
def RuntimeSigmaCondition.matches (results : List Bool) : RuntimeSigmaCondition → Option Bool
  | .all selectors => selectors.allM fun index => results[index]?
  | .any selectors => selectors.anyM fun index => results[index]?
  | .and children => matchAllChildren results children
  | .or children => matchAnyChild results children
  | .false => some Bool.false

def matchAllChildren (results : List Bool) : List RuntimeSigmaCondition → Option Bool
  | [] => some true
  | c :: cs => do if ← c.matches results then matchAllChildren results cs else some Bool.false

def matchAnyChild (results : List Bool) : List RuntimeSigmaCondition → Option Bool
  | [] => some Bool.false
  | c :: cs => do if ← c.matches results then some true else matchAnyChild results cs

end

/-- `_RuntimeSigmaPlan`. -/
structure RuntimeSigmaPlan where
  selections : List (List (List RuntimeSigmaField))
  condition : RuntimeSigmaCondition
  negate : Option Nat

/-- The plan that never matches. -/
def falsePlan : RuntimeSigmaPlan := ⟨[], .false, none⟩

/-- The `results` tuple of `_RuntimeSigmaPlan.matches`. -/
def RuntimeSigmaPlan.results (h : Host) (plan : RuntimeSigmaPlan) (event : Event) :
    Option (List Bool) := do
  let fields ← eventFields event
  plan.selections.mapM fun selection =>
    selection.anyM fun branch => branch.allM fun f => f.matches h fields

/-- `base and (negate is None or not results[negate])`. -/
def RuntimeSigmaPlan.verdict (plan : RuntimeSigmaPlan) (results : List Bool) : Option Bool := do
  if ← plan.condition.matches results then
    match plan.negate with
    | none => some true
    | some index => (results[index]?).map (!·)
  else some false

/-- `_RuntimeSigmaPlan.matches`. -/
def RuntimeSigmaPlan.matches (h : Host) (plan : RuntimeSigmaPlan) (event : Event) : Bool :=
  ((plan.results h event).bind plan.verdict).getD false

/-- The indices of the names that satisfy `p`. -/
def indicesOf (p : Str → Bool) (names : List Str) : List Nat :=
  (List.range names.length).filter fun i => p (names.getD i [])

/-- `_RuntimeSigmaCondition(operation, selected)`, or the false condition when nothing is. -/
def quantified (operation : List Nat → RuntimeSigmaCondition) (selected : List Nat) :
    RuntimeSigmaCondition :=
  if selected = [] then .false else operation selected

/-- `_runtime_condition`. -/
def runtimeCondition (names : List Str) (cond : Str) : RuntimeSigmaCondition :=
  if cond = [] then .any (List.range names.length)
  else if cond = allOfThem then
    quantified .all (indicesOf isPublic names)
  else if cond = oneOfThem ∨ cond = anyOfThem then
    quantified .any (indicesOf isPublic names)
  else match prefixPattern cond with
    | some (true, pre) => quantified .all (indicesOf pre.isPrefixOf names)
    | some (false, pre) => quantified .any (indicesOf pre.isPrefixOf names)
    | none =>
      if _ho : occurs orSep cond = true then
        .or ((splitOn orSep cond).attach.map fun p => runtimeCondition names (strip p.1))
      else if _ha : occurs andSep cond = true then
        .and ((splitOn andSep cond).attach.map fun p => runtimeCondition names (strip p.1))
      else if cond ∉ names then .false
      else .any [names.idxOf cond]
termination_by cond.length
decreasing_by
  · exact lt_of_le_of_lt (strip_length_le _) (length_lt_of_mem_splitOn (by decide) _ho p.2)
  · exact lt_of_le_of_lt (strip_length_le _) (length_lt_of_mem_splitOn (by decide) _ha p.2)

/-- One field of a compiled branch; `none` stands for the early return at a `re` modifier. -/
def compileField (h : Host) : Key × Val → Except String (Option RuntimeSigmaField)
  | (.other, _) => .error "AttributeError"
  | (.str key, expected) =>
    let parts := splitOn ['|'] key
    if h.lower (modifierOf parts) = "re".toList then .ok none
    else match expected.asList.mapM fun v => v.expectedText.map h.lower with
      | none => .error "ValueError"
      | some texts => .ok (some ⟨parts.headD [], modifierOf parts, texts⟩)

/-- `xs` mapped through a step that may return early with `none`. -/
def collect {α β : Type} (f : α → Except String (Option β)) :
    List α → Except String (Option (List β))
  | [] => .ok (some [])
  | x :: xs =>
    match f x with
    | .error e => .error e
    | .ok none => .ok none
    | .ok (some y) =>
      match collect f xs with
      | .error e => .error e
      | .ok none => .ok none
      | .ok (some ys) => .ok (some (y :: ys))

/-- `branch.items()` raises for anything but a map. -/
def compileBranch (h : Host) : Val → Except String (Option (List RuntimeSigmaField))
  | .map entries _ => collect (compileField h) entries
  | _ => .error "AttributeError"

/-- `names.index(name)`. -/
def indexOf (names : List Str) (name : Str) : Except String Nat :=
  if name ∈ names then .ok (names.idxOf name) else .error "ValueError"

/-- The lower-cased selector names, in document order. -/
def lowerNames (h : Host) (detection : List (Key × Val)) : List Str :=
  (selectionsOf detection).map fun e => h.lower e.1.text

/-- The end of `_compile_runtime_plan`: the condition and the index of the negated selector. -/
def compileCondition (names : List Str) (condition : Str) :
    Except String (RuntimeSigmaCondition × Option Nat) :=
  match cut andNotSep condition with
  | some (base, neg) => do
    let negate ← indexOf names (strip neg)
    .ok (runtimeCondition names (strip base), some negate)
  | none => .ok (runtimeCondition names (strip condition), none)

/-- `{"detection": detection}`. -/
def detectionRule (detection : List (Key × Val)) : Val :=
  .map [(.str "detection".toList, .map detection none)] none

/-- `_compile_runtime_plan`. -/
def compileRuntimePlan (h : Host) (detection : List (Key × Val)) :
    Except String RuntimeSigmaPlan :=
  match ruleSupported h false (detectionRule detection) with
  | .error _ => .ok falsePlan
  | .ok () =>
    match collect (fun e => collect (compileBranch h) (Val.asList e.2)) (selectionsOf detection) with
    | .error e => .error e
    | .ok none => .ok falsePlan
    | .ok (some compiled) =>
      (compileCondition (lowerNames h detection) (rawCondition h detection)).map
        fun (condition, negate) => ⟨compiled, condition, negate⟩

end Angerona.Sigma
