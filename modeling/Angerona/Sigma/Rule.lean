import Angerona.Lib.PyJson

/-!
    The constrained Sigma engine: rule documents and their admission.

    A rule is a loaded YAML document. `ruleSupported` decides whether the engine takes it on at all;
    everything it does not understand is refused with a code and a reason. Admission reads the
    condition after normalising its whitespace (`" ".join(condition.strip().lower().split())`) and
    looks for the negated selector from the right. -/

namespace Angerona.Sigma
open Text

/-! ### Documents -/

/-- A dictionary key. Only string keys are ever looked at. -/
inductive Key where
  | str (s : Str)
  | other
  deriving DecidableEq

/-- A loaded document value. Containers and foreign objects carry the text `str` gives for them
    (`none`: `str` raises). -/
inductive Val where
  | null
  | bool (b : Bool)
  | int (i : Int)
  | str (s : Str)
  | list (items : List Val) (text : Option Str)
  | map (entries : List (Key × Val)) (text : Option Str)
  | other (text : Option Str)

/-- `str(value)`; an integer of more than 4300 digits raises. -/
def Val.text : Val → Option Str
  | .null => some "None".toList
  | .bool b => some (if b then "True".toList else "False".toList)
  | .int i => if PyJson.tooLong i then none else some (toString i).toList
  | .str s => some s
  | .list _ t => t
  | .map _ t => t
  | .other t => t

/-- `value if isinstance(value, list) else [value]`. -/
def Val.asList : Val → List Val
  | .list items _ => items
  | v => [v]

def Key.text : Key → Str
  | .str s => s
  | .other => []

/-- `entries.get(key)`. -/
def get (entries : List (Key × Val)) (key : String) : Option Val := entries.lookup (.str key.toList)

/-- The parts of the interpreter the engine calls: `str.lower`, and the `re` module on patterns
    the rules supply (`compile` succeeding; `search`, which may raise). -/
structure Host where
  lower : Str → Str
  lower_ascii : ∀ s : Str, (∀ c ∈ s, c.toNat < 128) → lower s = s.map Char.toLower
  reCompiles : Str → Bool
  reSearch : Str → Str → Option Bool

/-! ### Literals of the condition language -/

def andSep : Str := " and ".toList
def orSep : Str := " or ".toList
def andNotSep : Str := " and not ".toList
def allOfThem : Str := "all of them".toList
def oneOfThem : Str := "1 of them".toList
def anyOfThem : Str := "any of them".toList

def isNameHead (c : Char) : Bool := ('a' ≤ c && c ≤ 'z') || c == '_'

def isNameTail (c : Char) : Bool := isNameHead c || ('0' ≤ c && c ≤ '9') || c == '-'

/-- The body of `(all|1) of ([a-z_][a-z0-9_-]*)\*` after the quantifier. -/
def starredPrefix (body : Str) : Option Str :=
  match body.reverse with
  | '*' :: rev =>
    match rev.reverse with
    | c :: cs => if isNameHead c && cs.all isNameTail then some (c :: cs) else none
    | [] => none
  | _ => none

/-- `re.fullmatch(r"(all|1) of ([a-z_][a-z0-9_-]*)\*", cond)`: whether it quantifies with `all`,
    and the prefix. -/
def prefixPattern (cond : Str) : Option (Bool × Str) :=
  if "all of ".toList.isPrefixOf cond then (starredPrefix (cond.drop 7)).map fun p => (true, p)
  else if "1 of ".toList.isPrefixOf cond then (starredPrefix (cond.drop 5)).map fun p => (false, p)
  else none

/-- `_SELECTOR.fullmatch`: `[A-Za-z_][A-Za-z0-9_-]{0,127}`. -/
def selectorOk : Str → Bool
  | [] => false
  | c :: cs => isNameHead c.toLower && cs.all (fun d => isNameTail d.toLower) && cs.length ≤ 127

/-! ### Admission -/

def maxRuleString : Nat := 4096

def supportedModifiers : List Str :=
  ["contains".toList, "startswith".toList, "endswith".toList, "re".toList]

/-- `re.search(r"\\[1-9]", value)`. -/
def hasBackreference : Str → Bool
  | c :: d :: t => (c == '\\' && '1' ≤ d && d ≤ '9') || hasBackreference (d :: t)
  | _ => false

def isQuantifier (c : Char) : Bool := c == '+' || c == '*' || c == '\x7b'

/-- `re.search(r"\([^)]*[+*{][^)]*\)\s*[+*{]", value)`, tried at every position. -/
def hasNestedQuantifier : Str → Bool
  | [] => false
  | c :: t =>
    (c == '(' && (t.takeWhile (· != ')')).any isQuantifier &&
      (match t.dropWhile (· != ')') with
       | _ :: rest => (rest.dropWhile isSpace).head?.any isQuantifier
       | [] => false)) || hasNestedQuantifier t

/-- The checks on one value of a field. -/
def valueSupported (h : Host) (modifier : Str) : Val → Except String Unit
  | .str v =>
    if maxRuleString < v.length then .error "selection string exceeds the bounded maximum"
    else if v = [] then .error "empty Sigma string values are unsupported"
    else if modifier = [] ∧ ('*' ∈ v ∨ '?' ∈ v) then
      .error "Sigma wildcard values are unsupported"
    else if modifier = "re".toList then
      if 512 < v.length then .error "regular expression exceeds 512 characters"
      else if occurs "(?".toList v || hasBackreference v then
        .error "regex extensions and backreferences are unsupported"
      else if hasNestedQuantifier v then
        .error "nested quantified regular expressions are unsafe"
      else if !h.reCompiles v then .error "regular expression is invalid"
      else .ok ()
    else .ok ()
  | .int _ | .bool _ =>
    if modifier = "re".toList then .error "regular expression values must be strings" else .ok ()
  | _ => .error "selection values must be strings, integers, or booleans"

/-- `parts[1] if len(parts) == 2 else ""`. -/
def modifierOf (parts : List Str) : Str := if parts.length = 2 then parts.getD 1 [] else []

/-- `parts[1].lower() if len(parts) == 2 else ""`. -/
def loweredModifier (h : Host) (parts : List Str) : Str :=
  if parts.length = 2 then h.lower (modifierOf parts) else []

/-- The checks on one `field[|modifier]: expected` entry of a selection map. -/
def fieldSupported (h : Host) : Key × Val → Except String Unit
  | (.other, _) => .error "selection field names must be strings"
  | (.str rawKey, rawExpected) =>
    let parts := splitOn ['|'] rawKey
    let field := parts.headD []
    let modifier := loweredModifier h parts
    if field = [] ∨ 256 < field.length then .error "selection field name is empty or too long"
    else if 2 < parts.length then .error "chained Sigma modifiers are unsupported"
    else if modifier ≠ [] ∧ modifier ∉ supportedModifiers then
      .error ("unsupported Sigma modifier: " ++ String.ofList (modifier.take 64))
    else if rawExpected.asList = [] ∨ 256 < rawExpected.asList.length then
      .error "selection values must contain 1 to 256 scalars"
    else rawExpected.asList.forM (valueSupported h modifier)

def Val.isNonemptyMap : Val → Bool
  | .map entries _ => !entries.isEmpty
  | _ => false

def mapSupported (h : Host) : Val → Except String Unit
  | .map entries _ =>
    if 256 < entries.length then .error "selection map exceeds 256 fields"
    else entries.forM (fieldSupported h)
  | _ => .ok ()

/-- `_selection_supported`. -/
def selectionSupported (h : Host) (selection : Val) : Except String Unit :=
  let maps := selection.asList
  if maps = [] ∨ 256 < maps.length then .error "selection list must contain 1 to 256 maps"
  else if !maps.all Val.isNonemptyMap then
    .error "keyword and non-map selections are unsupported"
  else maps.forM (mapSupported h)

/-- `" ".join(condition.strip().lower().split())`. -/
def normalized (h : Host) (condition : Str) : Str := join [' '] (words (h.lower (strip condition)))

/-- `" and " if has_and else " or " if has_or else "\0"`. -/
def listSep (cond : Str) : Str :=
  if occurs andSep cond then andSep else if occurs orSep cond then orSep else ['\x00']

/-- The admission of a condition without its trailing `and not`. -/
def baseSupported (cond : Str) (names : List Str) : Except String Unit :=
  if cond = allOfThem ∨ cond = oneOfThem ∨ cond = anyOfThem then .ok ()
  else match prefixPattern cond with
    | some (_, pre) =>
      if names.any pre.isPrefixOf then .ok ()
      else .error "condition prefix does not match a selector"
    | none =>
      if occurs andSep cond && occurs orSep cond then
        .error "mixed AND/OR precedence is unsupported"
      else if splitOn (listSep cond) cond = [] ∨
          ∃ part ∈ splitOn (listSep cond) cond, part ∉ names then
        .error "condition references an unknown or unsupported selector"
      else .ok ()

/-- `_condition_supported`. -/
def conditionSupported (h : Host) (names : List Str) : Val → Except String Unit
  | .str condition =>
    if strip condition = [] then .error "detection.condition is required"
    else
      let cond := normalized h condition
      if 1024 < cond.length ∨ '(' ∈ cond ∨ ')' ∈ cond ∨ '|' ∈ cond then
        .error "condition uses unsupported grouping or syntax"
      else if 1 < count andNotSep cond then
        .error "condition supports at most one trailing AND NOT selector"
      else match rcut andNotSep cond with
        | some (base, negated) =>
          if negated ∉ names then .error "condition references an unknown negated selector"
          else baseSupported base names
        | none => baseSupported cond names
  | _ => .error "detection.condition is required"

/-- `detection` without its condition. -/
def selectionsOf (detection : List (Key × Val)) : List (Key × Val) :=
  detection.filter fun e => e.1 ≠ .str "condition".toList

/-- The loop of `_rule_supported` over the selections: it collects the lower-cased names. -/
def selectorNames (h : Host) (names : List Str) :
    List (Key × Val) → Except (String × String) (List Str)
  | [] => .ok names
  | (.other, _) :: _ => .error ("UNSUPPORTED_SELECTOR", "selection identifier is unsupported")
  | (.str rawName, selection) :: rest =>
    if !selectorOk rawName then
      .error ("UNSUPPORTED_SELECTOR", "selection identifier is unsupported")
    else if h.lower rawName ∈ names then
      .error ("AMBIGUOUS_SELECTOR", "selection identifiers collide by case")
    else match selectionSupported h selection with
      | .error reason => .error ("UNSUPPORTED_SELECTION", reason)
      | .ok () => selectorNames h (names ++ [h.lower rawName]) rest

/-- The part of `_rule_supported` that reads the detection map. -/
def detectionSupported (h : Host) (detection : List (Key × Val)) : Except (String × String) Unit :=
  if selectionsOf detection = [] then
    .error ("INVALID_DETECTION", "detection requires at least one selection")
  else match selectorNames h [] (selectionsOf detection) with
    | .error refusal => .error refusal
    | .ok names =>
      match conditionSupported h names ((get detection "condition").getD .null) with
      | .error reason => .error ("UNSUPPORTED_CONDITION", reason)
      | .ok () => .ok ()

/-- `isinstance(title, str) and title.strip() and len(title) <= 512`. -/
def titleOk : Option Val → Bool
  | some (.str title) => strip title ≠ [] && title.length ≤ 512
  | _ => false

/-- `logsource in (None, {})`. -/
def logsourceOk : Option Val → Bool
  | none | some .null => true
  | some (.map entries _) => entries.isEmpty
  | _ => false

/-- `_rule_supported`; `.ok ()` is its `(True, "ADMITTED", ...)`. -/
def ruleSupported (h : Host) (requireRuleEnvelope : Bool) : Val → Except (String × String) Unit
  | .map rule _ =>
    if (get rule "correlation").isSome then
      .error ("UNSUPPORTED_CORRELATION", "Sigma correlation rules are unsupported")
    else if requireRuleEnvelope && !titleOk (get rule "title") then
      .error ("INVALID_RULE", "Sigma title is required and must be bounded")
    else if !logsourceOk (get rule "logsource") then
      .error ("UNSUPPORTED_LOGSOURCE",
        "logsource taxonomy matching is not implemented; rule refused")
    else match get rule "detection" with
      | some (.map detection _) => detectionSupported h detection
      | _ => .error ("INVALID_DETECTION", "detection must be a map")
  | _ => .error ("DOCUMENT_NOT_OBJECT", "Sigma document must be a map")

end Angerona.Sigma
