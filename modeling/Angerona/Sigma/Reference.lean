import Angerona.Sigma.Agreement

/-!
    The meaning of an admitted condition, and when the matcher computes it.

    `Condition` is the abstract syntax of the condition language and `Condition.Holds` its meaning
    over arbitrary selector values. `reading` reads the whitespace-normalised condition the way
    admission does: the negated selector from the right, then a quantifier, an `and` list, an `or`
    list or one selector. The matcher works on the raw text with literal single-space separators,
    so it computes that meaning when those separators take the raw text apart into the same pieces
    (`SpacingKept`). -/

namespace Angerona.Sigma
open Text

/-! ### Meaning -/

/-- A condition without its trailing `and not`. -/
inductive Base where
  | selector (name : Str)
  | conj (names : List Str)
  | disj (names : List Str)
  | allThem
  | someThem
  | allWith (pre : Str)
  | someWith (pre : Str)

structure Condition where
  base : Base
  negated : Option Str

/-- Every selected selector holds, and there is one. -/
def AllOf (select : Str → Prop) (names : List Str) (value : Str → Prop) : Prop :=
  (∃ n ∈ names, select n) ∧ ∀ n ∈ names, select n → value n

def SomeOf (select : Str → Prop) (names : List Str) (value : Str → Prop) : Prop :=
  ∃ n ∈ names, select n ∧ value n

def Base.Holds (names : List Str) (value : Str → Prop) : Base → Prop
  | .selector n => value n
  | .conj ns => ∀ n ∈ ns, value n
  | .disj ns => ∃ n ∈ ns, value n
  | .allThem => AllOf (fun n => isPublic n = true) names value
  | .someThem => SomeOf (fun n => isPublic n = true) names value
  | .allWith pre => AllOf (pre <+: ·) names value
  | .someWith pre => SomeOf (pre <+: ·) names value

def Condition.Holds (names : List Str) (value : Str → Prop) (c : Condition) : Prop :=
  c.base.Holds names value ∧ ∀ n ∈ c.negated, ¬value n

/-- The shape of a normalised condition without negation. -/
def readBase (names : List Str) (cond : Str) : Option Base :=
  if cond = allOfThem then some .allThem
  else if cond = oneOfThem ∨ cond = anyOfThem then some .someThem
  else match prefixPattern cond with
    | some (true, pre) => some (.allWith pre)
    | some (false, pre) => some (.someWith pre)
    | none =>
      if occurs andSep cond then some (.conj (splitOn andSep cond))
      else if occurs orSep cond then some (.disj (splitOn orSep cond))
      else if cond ∈ names then some (.selector cond) else none

/-- The condition of a detection as admission reads it. -/
def reading (h : Host) (detection : List (Key × Val)) : Option Condition :=
  let cond := join [' '] (words (rawCondition h detection))
  match rcut andNotSep cond with
  | some (base, negated) => (readBase (lowerNames h detection) base).map (⟨·, some negated⟩)
  | none => (readBase (lowerNames h detection) cond).map (⟨·, none⟩)

/-- The selection of that name, in lower case, matches the fields of an event. -/
def SelectionHolds (h : Host) (detection : List (Key × Val)) (fields : List (Str × FieldVal))
    (name : Str) : Prop :=
  ∃ e ∈ selectionsOf detection, h.lower e.1.text = name ∧ matchSelection h fields e.2 = some true

/-- The rule ought to match: the admitted condition holds of the results of the selections. -/
def Reference (h : Host) (detection : List (Key × Val)) (event : Event) : Prop :=
  ∃ fields c, eventFields event = some fields ∧ reading h detection = some c ∧
    c.Holds (lowerNames h detection) (SelectionHolds h detection fields)

/-- The field that a key names. -/
def Key.field : Key → Str
  | .str key => (splitOn ['|'] key).headD []
  | .other => []

/-- Every field that the map names has a text. -/
def Val.readable (fields : List (Str × FieldVal)) : Val → Bool
  | .map entries _ => entries.all fun f => (fieldOf fields f.1.field).text.isSome
  | _ => true

/-- `str` raises for no key of the event and for no field of it that a selection names. -/
def readable (detection : List (Key × Val)) (event : Event) : Bool :=
  (eventFields event).any fun fields =>
    (selectionsOf detection).all fun e => e.2.asList.all (Val.readable fields)

/-! ### Spacing -/

/-- The literal separators cut `raw` into the pieces of the normalised `cond`, up to the
    whitespace around each piece. -/
def SameBase (raw cond : Str) : Prop :=
  if occurs andSep cond then (splitOn andSep raw).map strip = splitOn andSep cond
  else if occurs orSep cond then (splitOn orSep raw).map strip = splitOn orSep cond
  else raw = cond ∧ '\x00' ∉ cond

/-- The raw condition is spaced as its normalised form is: the first literal `" and not "` negates
    the same selector as the last one, and the rest has the same pieces. -/
def SpacingKept (h : Host) (detection : List (Key × Val)) : Prop :=
  let raw := rawCondition h detection
  let cond := join [' '] (words raw)
  match cut andNotSep raw, rcut andNotSep cond with
  | some (base, neg), some (base', neg') => strip neg = neg' ∧ SameBase (strip base) base'
  | none, none => SameBase (strip raw) cond
  | _, _ => False

/-! ### Selector names -/

/-- What admission leaves of a selector name: lower-case identifier characters. -/
structure NameLike (n : Str) : Prop where
  ne_nil : n ≠ []
  tail : ∀ c ∈ n, isNameTail c = true

theorem isSpace_of_isNameTail {c : Char} (hc : isNameTail c = true) : isSpace c = false := by
  have hn : (97 ≤ c.toNat ∧ c.toNat ≤ 122) ∨ c.toNat = 95 ∨ (48 ≤ c.toNat ∧ c.toNat ≤ 57) ∨
      c.toNat = 45 := by
    simp only [isNameTail, isNameHead, Bool.or_eq_true, Bool.and_eq_true, decide_eq_true_eq,
      beq_iff_eq] at hc
    rcases hc with ((⟨h1, h2⟩ | rfl) | ⟨h1, h2⟩) | rfl
    · exact Or.inl ⟨h1, h2⟩
    · exact Or.inr (Or.inl rfl)
    · exact Or.inr (Or.inr (Or.inl ⟨h1, h2⟩))
    · exact Or.inr (Or.inr (Or.inr rfl))
  simp only [isSpace, Bool.or_eq_false_iff, Bool.and_eq_false_iff, decide_eq_false_iff_not,
    beq_eq_false_iff_ne]
  omega

namespace NameLike

variable {n : Str}

theorem spaceFree (hn : NameLike n) : ∀ c ∈ n, isSpace c = false :=
  fun c hc => isSpace_of_isNameTail (hn.tail c hc)

theorem space_not_mem (hn : NameLike n) : ' ' ∉ n := fun hc => by
  have := hn.spaceFree ' ' hc
  simp [isSpace] at this

theorem words_eq (hn : NameLike n) : words n = [n] := words_of_spaceFree hn.spaceFree hn.ne_nil

end NameLike

theorem toNat_lt_of_isNameTail {c : Char} (hc : isNameTail c.toLower = true) : c.toNat < 128 := by
  by_contra hge
  have hlow : c.toLower = c := by
    rw [Char.toLower, dif_neg]
    rintro ⟨-, h2⟩
    have : c.toNat ≤ 90 := h2
    omega
  rw [hlow] at hc
  simp only [isNameTail, isNameHead, Bool.or_eq_true, Bool.and_eq_true, decide_eq_true_eq,
    beq_iff_eq] at hc
  rcases hc with ((⟨-, h2⟩ | rfl) | ⟨-, h2⟩) | rfl
  · have : c.toNat ≤ 122 := h2
    omega
  · exact hge (by decide)
  · have : c.toNat ≤ 57 := h2
    omega
  · exact hge (by decide)

/-- An admitted identifier is lower-cased to a name over `[a-z0-9_-]`. -/
theorem nameLike_lower (h : Host) {raw : Str} (hr : selectorOk raw = true) :
    NameLike (h.lower raw) := by
  cases raw with
  | nil => simp [selectorOk] at hr
  | cons c cs =>
    simp only [selectorOk, Bool.and_eq_true, List.all_eq_true, decide_eq_true_eq] at hr
    have htail : ∀ d ∈ c :: cs, isNameTail d.toLower = true := by
      intro d hd
      rcases List.mem_cons.mp hd with rfl | hd
      · simp [isNameTail, hr.1.1]
      · exact hr.1.2 d hd
    rw [h.lower_ascii _ fun d hd => toNat_lt_of_isNameTail (htail d hd)]
    refine ⟨by simp, fun d hd => ?_⟩
    obtain ⟨e, he, rfl⟩ := List.mem_map.mp hd
    exact htail e he

theorem selectorNames_nameLike (h : Host) : ∀ {sels : List (Key × Val)} {names out : List Str},
    names.Nodup → (∀ n ∈ names, NameLike n) → selectorNames h names sels = .ok out →
      out.Nodup ∧ ∀ n ∈ out, NameLike n
  | [], names, out, hd, hn, ho => by
    simp only [selectorNames, Except.ok.injEq] at ho
    exact ho ▸ ⟨hd, hn⟩
  | (.other, _) :: _, _, _, _, _, ho => by simp [selectorNames] at ho
  | (.str rawName, sel) :: rest, names, out, hd, hn, ho => by
    simp only [selectorNames] at ho
    split at ho
    · simp at ho
    rename_i hok
    split at ho
    · simp at ho
    rename_i hfresh
    split at ho
    · simp at ho
    refine selectorNames_nameLike h ?_ ?_ ho
    · exact List.nodup_append.mpr ⟨hd, by simp, fun a ha b hb => by
        simp only [List.mem_singleton] at hb
        rintro rfl
        exact hfresh (hb ▸ ha)⟩
    · intro n hnm
      rcases List.mem_append.mp hnm with hnm | hnm
      · exact hn n hnm
      · rw [List.mem_singleton.mp hnm]
        exact nameLike_lower h (by simpa using hok)

/-- The names of an admitted detection are distinct identifiers. -/
theorem lowerNames_nameLike {h : Host} {detection : List (Key × Val)}
    (hd : detectionSupported h detection = .ok ()) :
    (lowerNames h detection).Nodup ∧ ∀ n ∈ lowerNames h detection, NameLike n := by
  simp only [detectionSupported] at hd
  split at hd
  · simp at hd
  split at hd
  · simp at hd
  rename_i names hnames
  have hout := (selectorNames_ok h hnames).1
  rw [List.nil_append] at hout
  have := selectorNames_nameLike h List.nodup_nil (by simp) hnames
  rwa [hout] at this

/-! ### Shapes of condition texts -/

theorem andSep_eq : andSep = spaced "and".toList := rfl

theorem orSep_eq : orSep = spaced "or".toList := rfl

/-- A text without a space is no keyword, no pattern and holds no separator. -/
theorem evalCondition_of_noSpace (rs : List (Str × Bool)) {cond : Str} (hne : cond ≠ [])
    (hs : ' ' ∉ cond) : evalCondition rs cond = resultOf rs cond := by
  have hocc : ∀ w : Str, occurs (spaced w) cond = false := by
    intro w
    rw [← Bool.not_eq_true]
    intro ho
    obtain ⟨a, b, rfl⟩ := occurs_iff.mp ho
    exact hs (by simp [spaced])
  have hpat : prefixPattern cond = none := by
    have hpre : ∀ p : Str, ' ' ∈ p → p.isPrefixOf cond = false := by
      intro p hp
      rw [← Bool.not_eq_true]
      intro h
      exact hs ((List.isPrefixOf_iff_prefix.mp h).subset hp)
    rw [prefixPattern, hpre _ (by decide), hpre _ (by decide)]
    rfl
  have hkey : ∀ k : Str, ' ' ∈ k → cond ≠ k := fun k hk he => hs (he ▸ hk)
  rw [evalCondition]
  simp only [hne, hkey allOfThem (by decide), hkey oneOfThem (by decide),
    hkey anyOfThem (by decide), hpat, or_self, if_false]
  rw [dif_neg (by rw [orSep_eq, hocc]; simp), dif_neg (by rw [andSep_eq, hocc]; simp)]

theorem starredPrefix_some {body p : Str} (h : starredPrefix body = some p) :
    body = p ++ ['*'] ∧ ∀ c ∈ p, isNameTail c = true := by
  unfold starredPrefix at h
  split at h
  · rename_i rev hrev
    split at h
    · rename_i c cs hcs
      split at h
      · rename_i hok
        obtain rfl := Option.some.inj h
        simp only [Bool.and_eq_true, List.all_eq_true] at hok
        refine ⟨?_, fun d hd => ?_⟩
        · rw [← List.reverse_reverse body, hrev, List.reverse_cons, hcs]
        · rcases List.mem_cons.mp hd with rfl | hd
          · simp [isNameTail, hok.1]
          · exact hok.2 d hd
      · simp at h
    · simp at h
  · simp at h

/-- The texts `(all|1) of prefix*`. -/
theorem prefixPattern_some {cond : Str} {q : Bool} {pre : Str}
    (h : prefixPattern cond = some (q, pre)) :
    cond = (if q then "all".toList else "1".toList) ++ spaced "of".toList ++ (pre ++ ['*']) ∧
      ∀ c ∈ pre, isNameTail c = true := by
  unfold prefixPattern at h
  split at h
  · rename_i hp
    obtain ⟨r, rfl⟩ := List.isPrefixOf_iff_prefix.mp hp
    obtain ⟨p, hs, he⟩ := Option.map_eq_some_iff.mp h
    obtain ⟨rfl, rfl⟩ := Prod.mk.inj he
    obtain ⟨hr, htail⟩ := @starredPrefix_some r _ hs
    exact ⟨by rw [hr]; rfl, htail⟩
  split at h
  · rename_i hp
    obtain ⟨r, rfl⟩ := List.isPrefixOf_iff_prefix.mp hp
    obtain ⟨p, hs, he⟩ := Option.map_eq_some_iff.mp h
    obtain ⟨rfl, rfl⟩ := Prod.mk.inj he
    obtain ⟨hr, htail⟩ := @starredPrefix_some r _ hs
    exact ⟨by rw [hr]; rfl, htail⟩
  · simp at h

/-- A starred pattern is three words, with `of` in the middle. -/
theorem prefixPattern_words {cond : Str} {q : Bool} {pre : Str}
    (h : prefixPattern cond = some (q, pre)) :
    words cond = [if q then "all".toList else "1".toList, "of".toList, pre ++ ['*']] := by
  obtain ⟨rfl, htail⟩ := prefixPattern_some h
  have hpre : words (pre ++ ['*']) = [pre ++ ['*']] := by
    refine words_of_spaceFree (fun c hc => ?_) (by simp)
    rcases List.mem_append.mp hc with hc | hc
    · exact isSpace_of_isNameTail (htail c hc)
    · rw [List.mem_singleton.mp hc]
      decide
  rw [words_append_sep (spaceFree_of_all (by decide)) (by decide), hpre]
  cases q <;> rfl

theorem prefixPattern_stripped {cond : Str} {q : Bool} {pre : Str}
    (h : prefixPattern cond = some (q, pre)) : Stripped cond := by
  obtain ⟨rfl, -⟩ := prefixPattern_some h
  refine ⟨?_, ?_⟩
  · cases q <;> simp [isSpace]
  · rw [← List.append_assoc, List.getLast?_concat]
    simp [isSpace]

/-- In a stripped text of three words only the middle one can be a spaced separator. -/
theorem not_occurs_of_three {cond a b c w : Str} (hw : ∀ x ∈ w, isSpace x = false) (hne : w ≠ [])
    (hs : Stripped cond) (hwords : words cond = [a, b, c]) (hbw : b ≠ w) :
    occurs (spaced w) cond = false := by
  rw [← Bool.not_eq_true]
  intro ho
  obtain ⟨u, v, hu, hv, huv⟩ := words_of_occurs hw hne hs ho
  rw [hwords] at huv
  match u, v, hu, hv with
  | [_], _ :: _, _, _ => simp_all
  | _ :: _ :: u, _ :: _, _, _ =>
    have := congrArg List.length huv
    simp at this
    omega

theorem not_occurs_of_pattern {cond w : Str} {q : Bool} {pre : Str}
    (hw : ∀ x ∈ w, isSpace x = false) (hne : w ≠ []) (hof : w ≠ "of".toList)
    (h : prefixPattern cond = some (q, pre)) : occurs (spaced w) cond = false :=
  not_occurs_of_three hw hne (prefixPattern_stripped h) (prefixPattern_words h) (Ne.symm hof)

/-- A text in which a list separator occurs is no keyword and no pattern. -/
theorem prefixPattern_of_occurs {cond w : Str} (hw : w = "and".toList ∨ w = "or".toList)
    (ho : occurs (spaced w) cond = true) :
    cond ≠ [] ∧ cond ≠ allOfThem ∧ ¬(cond = oneOfThem ∨ cond = anyOfThem) ∧
      prefixPattern cond = none := by
  have hkey : ∀ k : Str, occurs (spaced w) k = false → cond ≠ k := by
    rintro k hk rfl
    simp [hk] at ho
  refine ⟨hkey _ ?_, hkey _ ?_, not_or.mpr ⟨hkey _ ?_, hkey _ ?_⟩, ?_⟩
  · rcases hw with rfl | rfl <;> decide
  · rcases hw with rfl | rfl <;> decide
  · rcases hw with rfl | rfl <;> decide
  · rcases hw with rfl | rfl <;> decide
  · cases hp : prefixPattern cond with
    | none => rfl
    | some p =>
      have hno : occurs (spaced w) cond = false := by
        rcases hw with rfl | rfl
        · exact not_occurs_of_pattern (spaceFree_of_all (by decide)) (by decide) (by decide) hp
        · exact not_occurs_of_pattern (spaceFree_of_all (by decide)) (by decide) (by decide) hp
      simp [hno] at ho

theorem evalCondition_or (rs : List (Str × Bool)) {cond : Str} (ho : occurs orSep cond = true) :
    evalCondition rs cond = true ↔ ∃ p ∈ splitOn orSep cond, evalCondition rs (strip p) = true := by
  obtain ⟨hne, hall, hthem, hpat⟩ := prefixPattern_of_occurs (Or.inr rfl) (orSep_eq ▸ ho)
  rw [evalCondition]
  simp only [hne, hall, hthem, hpat, if_false]
  rw [dif_pos ho]
  simp

theorem evalCondition_and (rs : List (Str × Bool)) {cond : Str} (ho : occurs orSep cond = false)
    (ha : occurs andSep cond = true) :
    evalCondition rs cond = true ↔ ∀ p ∈ splitOn andSep cond, evalCondition rs (strip p) = true := by
  obtain ⟨hne, hall, hthem, hpat⟩ := prefixPattern_of_occurs (Or.inl rfl) (andSep_eq ▸ ha)
  rw [evalCondition]
  simp only [hne, hall, hthem, hpat, if_false]
  rw [dif_neg (by simp [ho]), dif_pos ha]
  simp

/-! ### The matcher computes the meaning -/

section Results

variable {rs : List (Str × Bool)} (hnd : (rs.map (·.1)).Nodup)

include hnd in
theorem resultOf_of_mem {n : Str} {b : Bool} (hm : (n, b) ∈ rs) : resultOf rs n = b := by
  induction rs with
  | nil => simp at hm
  | cons r rs ih =>
    obtain ⟨m, c⟩ := r
    simp only [List.map_cons, List.nodup_cons] at hnd
    rcases List.mem_cons.mp hm with heq | hrest
    · obtain ⟨rfl, rfl⟩ := Prod.mk.inj heq
      simp [resultOf, List.lookup_cons_self]
    · have hne : (n == m) = false := by
        simp only [beq_eq_false_iff_ne]
        rintro rfl
        exact hnd.1 (List.mem_map.mpr ⟨(n, b), hrest, rfl⟩)
      have := ih hnd.2 hrest
      simpa [resultOf, List.lookup_cons, hne] using this

include hnd in
theorem mem_selected {p : Str → Bool} {b : Bool} :
    b ∈ (rs.filter fun r => p r.1).map (·.2) ↔
      ∃ n ∈ rs.map (·.1), p n = true ∧ resultOf rs n = b := by
  constructor
  · intro h
    obtain ⟨⟨n, c⟩, hm, rfl⟩ := List.mem_map.mp h
    obtain ⟨hm, hp⟩ := List.mem_filter.mp hm
    exact ⟨n, List.mem_map_of_mem hm, hp, resultOf_of_mem hnd hm⟩
  · rintro ⟨n, hn, hp, hr⟩
    obtain ⟨⟨m, c⟩, hm, rfl⟩ := List.mem_map.mp hn
    rw [resultOf_of_mem hnd hm] at hr
    subst hr
    exact List.mem_map_of_mem (List.mem_filter.mpr ⟨hm, hp⟩)

include hnd in
theorem allSelected_iff (p : Str → Bool) :
    allSelected ((rs.filter fun r => p r.1).map (·.2)) = true ↔
      AllOf (fun n => p n = true) (rs.map (·.1)) (fun n => resultOf rs n = true) := by
  rw [allSelected, Bool.and_eq_true, List.all_eq_true, AllOf]
  refine and_congr ?_ ?_
  · rw [Bool.not_eq_true', List.isEmpty_eq_false_iff_exists_mem]
    constructor
    · rintro ⟨b, hb⟩
      obtain ⟨n, hn, hp, -⟩ := (mem_selected hnd).mp hb
      exact ⟨n, hn, hp⟩
    · rintro ⟨n, hn, hp⟩
      exact ⟨_, (mem_selected hnd).mpr ⟨n, hn, hp, rfl⟩⟩
  · constructor
    · intro h n hn hp
      exact h _ ((mem_selected hnd).mpr ⟨n, hn, hp, rfl⟩)
    · intro h b hb
      obtain ⟨n, hn, hp, rfl⟩ := (mem_selected hnd).mp hb
      exact h n hn hp

include hnd in
theorem anySelected_iff (p : Str → Bool) :
    (((rs.filter fun r => p r.1).map (·.2)).any id) = true ↔
      SomeOf (fun n => p n = true) (rs.map (·.1)) (fun n => resultOf rs n = true) := by
  rw [List.any_eq_true, SomeOf]
  constructor
  · rintro ⟨b, hb, rfl⟩
    obtain ⟨n, hn, hp, hr⟩ := (mem_selected hnd).mp hb
    exact ⟨n, hn, hp, hr⟩
  · rintro ⟨n, hn, hp, hr⟩
    exact ⟨true, (mem_selected hnd).mpr ⟨n, hn, hp, hr⟩, rfl⟩

end Results

/-- Texts with the same stripped pieces have the same words. -/
theorem words_eq_of_pieces {w raw cond : Str} (hw : ∀ c ∈ w, isSpace c = false) (hne : w ≠ [])
    (hp : (splitOn (spaced w) raw).map strip = splitOn (spaced w) cond) :
    words raw = words cond := by
  rw [words_splitOn hw hne raw, words_splitOn hw hne cond, ← hp, List.map_map]
  congr 1
  exact List.map_congr_left fun p _ => (words_strip p).symm

/-- A list of one-word pieces is its own normal form. -/
theorem join_words_of_pieces {w cond : Str} (hw : ∀ c ∈ w, isSpace c = false) (hne : w ≠ [])
    (hp : ∀ p ∈ splitOn (spaced w) cond, words p = [p]) : join [' '] (words cond) = cond := by
  have hjoin : ∀ ps : List Str, ps ≠ [] → (∀ p ∈ ps, words p = [p]) →
      join [' '] ([w].intercalate (ps.map words)) = join (spaced w) ps := by
    intro ps
    induction ps with
    | nil => simp
    | cons p ps ih =>
      intro _ hps
      cases ps with
      | nil => simp [join, hps p (by simp)]
      | cons q qs =>
        have ih' := ih (by simp) fun r hr => hps r (by simp_all)
        have hmap : (q :: qs).map words ≠ [] := by simp
        have hint : [w].intercalate ((q :: qs).map words) ≠ [] := by
          rw [List.map_cons, hps q (by simp)]
          cases qs <;> simp
        rw [List.map_cons, List.intercalate_cons_of_ne_nil hmap, hps p (by simp),
          List.append_assoc, join_append (by simp) (by simp), join_append (by simp) hint, ih']
        simp [join, spaced]
  rw [words_splitOn hw hne cond, hjoin _ (splitOn_ne_nil (spaced_ne_nil w) cond) hp,
    join_splitOn (spaced_ne_nil w)]

section Lists

variable {rs : List (Str × Bool)} {raw cond : Str}
  (hlike : ∀ n ∈ rs.map (·.1), NameLike n) (hstr : Stripped raw)

include hlike in
theorem evalCondition_name {n : Str} (hn : n ∈ rs.map (·.1)) :
    evalCondition rs n = resultOf rs n :=
  evalCondition_of_noSpace rs (hlike n hn).ne_nil (hlike n hn).space_not_mem

/-- Pieces that agree with two or more pieces come from at least one separator. -/
theorem occurs_of_pieces {sep : Str} (hsep : sep ≠ []) (ho : occurs sep cond = true)
    (hp : (splitOn sep raw).map strip = splitOn sep cond) : occurs sep raw = true := by
  rw [← Bool.not_eq_false]
  intro h
  have hlen := splitOn_length_of_occurs hsep ho
  rw [← hp, splitOn_of_not_occurs hsep h] at hlen
  simp at hlen

include hlike hstr in
theorem evalCondition_conj (ha : occurs andSep cond = true) (ho : occurs orSep cond = false)
    (hparts : ∀ p ∈ splitOn andSep cond, p ∈ rs.map (·.1))
    (hp : (splitOn andSep raw).map strip = splitOn andSep cond) :
    evalCondition rs raw = true ↔ ∀ n ∈ splitOn andSep cond, resultOf rs n = true := by
  have hraw : occurs orSep raw = false := by
    -- a spaced `or` in `raw` would be a word of `cond`, and `cond` is joined by single spaces
    rw [← Bool.not_eq_true, orSep_eq]
    intro h
    obtain ⟨u, v, hu, hv, huv⟩ := words_of_occurs (spaceFree_of_all (by decide)) (by decide) hstr h
    rw [andSep_eq] at hp hparts
    have hwords : ∀ p ∈ splitOn (spaced "and".toList) cond, words p = [p] := fun p hpm =>
      (hlike p (hparts p hpm)).words_eq
    have hjoin := join_words_of_pieces (spaceFree_of_all (by decide)) (by decide) hwords
    rw [← words_eq_of_pieces (spaceFree_of_all (by decide)) (by decide) hp, huv] at hjoin
    have hocc : occurs (spaced "or".toList) cond = true := hjoin ▸ occurs_join hu hv
    rw [orSep_eq, hocc] at ho
    simp at ho
  rw [evalCondition_and rs hraw (occurs_of_pieces (by decide) ha hp), ← hp]
  rw [← hp] at hparts
  constructor
  · intro h n hn
    obtain ⟨p, hpm, rfl⟩ := List.mem_map.mp hn
    rw [← evalCondition_name hlike (hparts _ hn)]
    exact h p hpm
  · intro h p hpm
    have hn : strip p ∈ (splitOn andSep raw).map strip := List.mem_map_of_mem hpm
    rw [evalCondition_name hlike (hparts _ hn)]
    exact h _ hn

include hlike in
theorem evalCondition_disj (ho : occurs orSep cond = true)
    (hparts : ∀ p ∈ splitOn orSep cond, p ∈ rs.map (·.1))
    (hp : (splitOn orSep raw).map strip = splitOn orSep cond) :
    evalCondition rs raw = true ↔ ∃ n ∈ splitOn orSep cond, resultOf rs n = true := by
  rw [evalCondition_or rs (occurs_of_pieces (by decide) ho hp), ← hp]
  rw [← hp] at hparts
  constructor
  · rintro ⟨p, hpm, h⟩
    have hn : strip p ∈ (splitOn orSep raw).map strip := List.mem_map_of_mem hpm
    exact ⟨_, hn, by rw [← evalCondition_name hlike (hparts _ hn), h]⟩
  · rintro ⟨n, hn, h⟩
    obtain ⟨p, hpm, rfl⟩ := List.mem_map.mp hn
    exact ⟨p, hpm, by rw [evalCondition_name hlike (hparts _ hn), h]⟩

end Lists

/-- A condition text admitted as a list: one kind of separator, and every part a selector. -/
theorem baseSupported_list {cond : Str} {names : List Str} (hall : cond ≠ allOfThem)
    (hthem : ¬(cond = oneOfThem ∨ cond = anyOfThem)) (hpat : prefixPattern cond = none)
    (hsup : baseSupported cond names = .ok ()) :
    (occurs andSep cond && occurs orSep cond) = false ∧
      ∀ p ∈ splitOn (listSep cond) cond, p ∈ names := by
  have hkey : ¬(cond = allOfThem ∨ cond = oneOfThem ∨ cond = anyOfThem) := by simp_all
  simp only [baseSupported, hkey, hpat, if_false] at hsup
  split at hsup
  · simp at hsup
  rename_i hmixed
  split at hsup
  · simp at hsup
  rename_i hparts
  exact ⟨by simpa using hmixed, by simpa using fun p hp hn => hparts (Or.inr ⟨p, hp, hn⟩)⟩

/-- The matcher on a base text with the pieces of an admitted one computes its meaning. -/
theorem evalCondition_base {names : List Str} {rs : List (Str × Bool)} {raw cond : Str}
    (hnames : rs.map (·.1) = names) (hnd : names.Nodup) (hlike : ∀ n ∈ names, NameLike n)
    (hsup : baseSupported cond names = .ok ()) (hstr : Stripped raw) (hsame : SameBase raw cond) :
    ∃ b, readBase names cond = some b ∧ (evalCondition rs raw = true ↔
      b.Holds names fun n => resultOf rs n = true) := by
  subst hnames
  have hkey : ∀ k, occurs andSep k = false → occurs orSep k = false → cond = k → raw = k := by
    rintro k ha ho rfl
    simp only [SameBase, ha, ho, Bool.false_eq_true, if_false] at hsame
    exact hsame.1
  by_cases hall : cond = allOfThem
  · obtain rfl := hkey _ (by decide) (by decide) hall
    subst hall
    refine ⟨.allThem, by rw [readBase, if_pos rfl], ?_⟩
    rw [evalCondition, if_neg (by decide), if_pos rfl]
    exact allSelected_iff hnd isPublic
  by_cases hthem : cond = oneOfThem ∨ cond = anyOfThem
  · have hraw : raw = cond := by
      rcases hthem with h | h
      · rw [hkey _ (by decide) (by decide) h, h]
      · rw [hkey _ (by decide) (by decide) h, h]
    subst hraw
    refine ⟨.someThem, by rw [readBase, if_neg hall, if_pos hthem], ?_⟩
    rw [evalCondition, if_neg (by rcases hthem with rfl | rfl <;> decide), if_neg hall,
      if_pos hthem]
    exact anySelected_iff hnd isPublic
  cases hpat : prefixPattern cond with
  | some p =>
    obtain ⟨q, pre⟩ := p
    have ha : occurs andSep cond = false := by
      rw [andSep_eq]
      exact not_occurs_of_pattern (spaceFree_of_all (by decide)) (by decide) (by decide) hpat
    have ho : occurs orSep cond = false := by
      rw [orSep_eq]
      exact not_occurs_of_pattern (spaceFree_of_all (by decide)) (by decide) (by decide) hpat
    obtain rfl := hkey _ ha ho rfl
    have hne : raw ≠ [] := by
      rintro rfl
      simp [prefixPattern] at hpat
    cases q with
    | true =>
      refine ⟨.allWith pre, by simp only [readBase, hall, hthem, hpat, if_false], ?_⟩
      rw [evalCondition]
      simp only [hne, hall, hthem, hpat, if_false]
      rw [startingWith, allSelected_iff hnd pre.isPrefixOf]
      simp [Base.Holds, AllOf]
    | false =>
      refine ⟨.someWith pre, by simp only [readBase, hall, hthem, hpat, if_false], ?_⟩
      rw [evalCondition]
      simp only [hne, hall, hthem, hpat, if_false]
      rw [startingWith, anySelected_iff hnd pre.isPrefixOf]
      simp [Base.Holds, SomeOf]
  | none =>
    obtain ⟨hmixed, hparts⟩ := baseSupported_list hall hthem hpat hsup
    cases ha : occurs andSep cond with
    | true =>
      have ho : occurs orSep cond = false := by simpa [ha] using hmixed
      simp only [listSep, ha, if_true] at hparts
      simp only [SameBase, ha, if_true] at hsame
      exact ⟨.conj (splitOn andSep cond), by
        simp only [readBase, hall, hthem, hpat, ha, if_false, if_true],
        evalCondition_conj hlike hstr ha ho hparts hsame⟩
    | false =>
      cases ho : occurs orSep cond with
      | true =>
        simp only [listSep, ha, ho, if_true, Bool.false_eq_true, if_false] at hparts
        simp only [SameBase, ha, ho, if_true, Bool.false_eq_true, if_false] at hsame
        exact ⟨.disj (splitOn orSep cond), by
          simp only [readBase, hall, hthem, hpat, ha, ho, if_false, if_true, Bool.false_eq_true],
          evalCondition_disj hlike ho hparts hsame⟩
      | false =>
        -- one selector: without a NUL the split is the text itself
        simp only [SameBase, ha, ho, Bool.false_eq_true, if_false] at hsame
        obtain ⟨rfl, hnul⟩ := hsame
        have hocc : occurs ['\x00'] raw = false := by
          rw [← Bool.not_eq_true]
          intro h
          obtain ⟨a, b, rfl⟩ := occurs_iff.mp h
          exact hnul (by simp)
        simp only [listSep, ha, ho, Bool.false_eq_true, if_false] at hparts
        rw [splitOn_of_not_occurs (by decide) hocc] at hparts
        have hmem := hparts raw (by simp)
        refine ⟨.selector raw, by
          simp only [readBase, hall, hthem, hpat, ha, ho, hmem, if_false, if_true,
            Bool.false_eq_true], ?_⟩
        rw [evalCondition_name hlike hmem, Base.Holds]

/-! ### Admitted rules -/

/-- What admission of a condition says, read off its normal form. -/
theorem conditionSupported_ok {h : Host} {names : List Str} {v : Val}
    (hc : conditionSupported h names v = .ok ()) :
    ∃ condition, v = .str condition ∧
      ((∃ base neg, rcut andNotSep (normalized h condition) = some (base, neg) ∧ neg ∈ names ∧
          baseSupported base names = .ok ()) ∨
        (rcut andNotSep (normalized h condition) = none ∧
          baseSupported (normalized h condition) names = .ok ())) := by
  match v, hc with
  | .str condition, hc =>
    refine ⟨condition, rfl, ?_⟩
    simp only [conditionSupported] at hc
    split at hc
    · simp at hc
    split at hc
    · simp at hc
    split at hc
    · simp at hc
    split at hc
    · rename_i base neg hcut
      split at hc
      · simp at hc
      rename_i hneg
      exact Or.inl ⟨base, neg, hcut, not_not.mp hneg, hc⟩
    · rename_i hcut
      exact Or.inr ⟨hcut, hc⟩
  | .null, hc | .bool _, hc | .int _, hc | .list _ _, hc | .map _ _, hc | .other _, hc =>
    simp [conditionSupported] at hc

/-- Whatever the envelope, an admitted rule holds a supported detection. -/
theorem ruleSupported_ok {h : Host} {envelope : Bool} {rule : Val} {detection : List (Key × Val)}
    (hr : ruleSupported h envelope rule = .ok ()) (hdet : detectionOf rule = some detection) :
    ruleSupported h false rule = .ok () ∧ detectionSupported h detection = .ok () := by
  match rule, hr, hdet with
  | .map rule text, hr, hdet =>
    simp only [ruleSupported] at hr ⊢
    split at hr
    · simp at hr
    rename_i hcorr
    split at hr
    · simp at hr
    split at hr
    · simp at hr
    rename_i hlog
    split at hr
    · rename_i d t hget
      simp only [detectionOf, hget, Option.some.injEq] at hdet
      subst hdet
      simp only [hcorr, hlog, Bool.false_and, Bool.false_eq_true, if_false]
      exact ⟨hr, hr⟩
    · simp at hr
  | .null, hr, _ | .bool _, hr, _ | .int _, hr, _ | .str _, hr, _ | .list _ _, hr, _
  | .other _, hr, _ => simp [ruleSupported] at hr

/-- The names and the reading of an admitted detection, with the pieces admission checked. -/
theorem detectionSupported_reading {h : Host} {detection : List (Key × Val)}
    (hd : detectionSupported h detection = .ok ()) :
    (∃ base neg, rcut andNotSep (join [' '] (words (rawCondition h detection))) = some (base, neg) ∧
        neg ∈ lowerNames h detection ∧ baseSupported base (lowerNames h detection) = .ok ()) ∨
      (rcut andNotSep (join [' '] (words (rawCondition h detection))) = none ∧
        baseSupported (join [' '] (words (rawCondition h detection))) (lowerNames h detection) =
          .ok ()) := by
  obtain ⟨-, hcond⟩ := detectionSupported_ok hd
  obtain ⟨condition, hget, hcases⟩ := conditionSupported_ok hcond
  have hraw : rawCondition h detection = h.lower (strip condition) := by
    cases hg : get detection "condition" with
    | none => simp [hg] at hget
    | some v =>
      simp only [hg, Option.getD_some] at hget
      simp [rawCondition, hg, hget, Val.text]
  rw [hraw]
  exact hcases

/-- On a condition whose spacing is kept the matcher evaluates the condition admission read. -/
theorem evalWithNegation_reading {h : Host} {detection : List (Key × Val)}
    (hd : detectionSupported h detection = .ok ()) (hsp : SpacingKept h detection)
    {rs : List (Str × Bool)} (hrs : rs.map (·.1) = lowerNames h detection) :
    ∃ c, reading h detection = some c ∧
      (evalWithNegation rs (rawCondition h detection) = true ↔
        c.Holds (lowerNames h detection) fun n => resultOf rs n = true) := by
  obtain ⟨hnd, hlike⟩ := lowerNames_nameLike hd
  rcases detectionSupported_reading hd with ⟨base', neg', hrcut, -, hsup⟩ | ⟨hrcut, hsup⟩
  · simp only [SpacingKept, hrcut] at hsp
    cases hcut : cut andNotSep (rawCondition h detection) with
    | none => simp [hcut] at hsp
    | some p =>
      obtain ⟨base, neg⟩ := p
      simp only [hcut] at hsp
      obtain ⟨hneg, hsame⟩ := hsp
      obtain ⟨b, hb, heval⟩ := evalCondition_base hrs hnd hlike hsup (stripped_strip base) hsame
      refine ⟨⟨b, some neg'⟩, by simp only [reading, hrcut, hb, Option.map_some], ?_⟩
      simp only [evalWithNegation, hcut, Bool.and_eq_true, heval, Condition.Holds, hneg,
        Option.mem_some_iff, forall_eq', Bool.not_eq_true', Bool.not_eq_true]
  · simp only [SpacingKept, hrcut] at hsp
    cases hcut : cut andNotSep (rawCondition h detection) with
    | some p => simp [hcut] at hsp
    | none =>
      simp only [hcut] at hsp
      obtain ⟨b, hb, heval⟩ := evalCondition_base hrs hnd hlike hsup (stripped_strip _) hsp
      refine ⟨⟨b, none⟩, by simp only [reading, hrcut, hb, Option.map_some], ?_⟩
      simp [evalWithNegation, hcut, heval, Condition.Holds]

/-! ### The selections -/

theorem allM_returns {α : Type} {p : α → Option Bool} : ∀ {xs : List α},
    (∀ x ∈ xs, ∃ b, p x = some b) → ∃ b, xs.allM p = some b
  | [], _ => ⟨true, rfl⟩
  | x :: xs, h => by
    obtain ⟨b, hb⟩ := h x (by simp)
    obtain ⟨c, hc⟩ := allM_returns fun y hy => h y (List.mem_cons_of_mem x hy)
    cases b with
    | false => exact ⟨false, by simp [List.allM, hb]⟩
    | true => exact ⟨c, by simp [List.allM, hb, hc]⟩

theorem anyM_returns {α : Type} {p : α → Option Bool} : ∀ {xs : List α},
    (∀ x ∈ xs, ∃ b, p x = some b) → ∃ b, xs.anyM p = some b
  | [], _ => ⟨false, rfl⟩
  | x :: xs, h => by
    obtain ⟨b, hb⟩ := h x (by simp)
    obtain ⟨c, hc⟩ := anyM_returns fun y hy => h y (List.mem_cons_of_mem x hy)
    cases b with
    | false => exact ⟨c, by simp [List.anyM, hb, hc]⟩
    | true => exact ⟨true, by simp [List.anyM, hb]⟩

theorem matchField_returns {h : Host} {fields : List (Str × FieldVal)} {e : Key × Val}
    (hs : fieldSupported h e = .ok ()) (hshort : ∀ v ∈ e.2.asList, v.isLong = false)
    (htext : (fieldOf fields e.1.field).text.isSome = true) :
    ∃ b, matchField h fields e = some b := by
  obtain ⟨key, expected⟩ := e
  cases key with
  | other => simp [fieldSupported] at hs
  | str key =>
    simp only [fieldSupported] at hs
    split at hs
    · simp at hs
    split at hs
    · simp at hs
    rename_i hparts
    split at hs
    · simp at hs
    split at hs
    · simp at hs
    obtain ⟨fv, hfv⟩ := Option.isSome_iff_exists.mp htext
    simp only [matchField, hparts, if_false]
    refine anyM_returns fun v hv => ?_
    obtain ⟨ev, hev⟩ := expectedText_supported (Raising.forM_ok_iff.mp hs v hv) (hshort v hv)
    exact ⟨_, by simp only [matchValue, show (fieldOf fields ((splitOn ['|'] key).headD [])).text =
      some fv from hfv, hev, bind, Option.bind]; rfl⟩

/-- A supported selection of short values is evaluated on fields that have texts. -/
theorem matchSelection_returns {h : Host} {fields : List (Str × FieldVal)} {sel : Val}
    (hs : selectionSupported h sel = .ok ()) (hshort : ∀ b ∈ sel.asList, b.allShort = true)
    (htext : ∀ b ∈ sel.asList, b.readable fields = true) :
    ∃ b, matchSelection h fields sel = some b := by
  simp only [selectionSupported] at hs
  split at hs
  · simp at hs
  split at hs
  · simp at hs
  rename_i hmaps
  have hmap : ∀ branch ∈ sel.asList, branch.isNonemptyMap = true := by simpa using hmaps
  rw [matchSelection_eq h fields hmap]
  refine anyM_returns fun branch hb => ?_
  have hbranch := Raising.forM_ok_iff.mp hs branch hb
  have hshort' := hshort branch hb
  have htext' := htext branch hb
  cases branch with
  | map entries text =>
    simp only [mapSupported] at hbranch
    split at hbranch
    · simp at hbranch
    simp only [Val.allShort, Val.readable, List.all_eq_true, Bool.not_eq_true'] at hshort' htext'
    rw [matchSelection]
    exact allM_returns fun e he =>
      matchField_returns (Raising.forM_ok_iff.mp hbranch e he) (hshort' e he) (htext' e he)
  | _ => exact absurd (hmap _ hb) (by simp [Val.isNonemptyMap])

/-- The results of a readable event: under each name, whether its selection holds. -/
theorem selectionResults_holds {h : Host} {detection : List (Key × Val)} {event : Event}
    (hd : detectionSupported h detection = .ok ()) (hshort : allShort detection = true)
    (hread : readable detection event = true) :
    ∃ fields rs, eventFields event = some fields ∧ selectionResults h detection event = some rs ∧
      ∀ n, resultOf rs n = true ↔ SelectionHolds h detection fields n := by
  obtain ⟨fields, hfields, hall⟩ := (Option.any_eq_true _ _).mp hread
  simp only [allShort, List.all_eq_true] at hshort hall
  have hsel := (detectionSupported_ok hd).1
  have hreturns : ∀ e ∈ selectionsOf detection,
      ∃ r, (do some (h.lower e.1.text, ← matchSelection h fields e.2)) = some r := by
    intro e he
    obtain ⟨b, hb⟩ := matchSelection_returns (hsel e he) (hshort e he) (hall e he)
    exact ⟨(h.lower e.1.text, b), by rw [hb]; rfl⟩
  obtain ⟨rs, hrs, hpairs⟩ := mapM_some hreturns
  have hresults : selectionResults h detection event = some rs := by
    rw [selectionResults, hfields]
    exact hrs
  have hnd : (rs.map (·.1)).Nodup := selectionResults_names hresults ▸ (lowerNames_nameLike hd).1
  have hmem : ∀ n b, (n, b) ∈ rs ↔ ∃ e ∈ selectionsOf detection,
      h.lower e.1.text = n ∧ matchSelection h fields e.2 = some b := by
    intro n b
    have hpair : ∀ e : Key × Val, (do some (h.lower e.1.text, ← matchSelection h fields e.2)) = some (n, b) ↔
        h.lower e.1.text = n ∧ matchSelection h fields e.2 = some b := by
      intro e
      cases matchSelection h fields e.2 with
      | none => simp
      | some c => simp
    simp only [← hpair]
    exact mem_forall₂ hpairs
  refine ⟨fields, rs, hfields, hresults, fun n => ⟨fun hn => ?_, fun hn => ?_⟩⟩
  · by_cases hin : n ∈ rs.map (·.1)
    · obtain ⟨⟨m, b⟩, hm, rfl⟩ := List.mem_map.mp hin
      rw [resultOf_of_mem hnd hm] at hn
      exact (hmem m true).mp (hn ▸ hm)
    · rw [resultOf_not_mem hin] at hn
      cases hn
  · exact resultOf_of_mem hnd ((hmem n true).mpr hn)

/-- CORRECT: an admitted rule whose condition is spaced as its normal form, and that compares no
    integer of more than 4300 digits, matches exactly those readable events on which the condition
    that was admitted holds. -/
theorem matchRule_iff_reference {h : Host} {envelope : Bool} {rule : Val}
    {detection : List (Key × Val)} (hr : ruleSupported h envelope rule = .ok ())
    (hdet : detectionOf rule = some detection) (hsp : SpacingKept h detection)
    (hshort : allShort detection = true) (event : Event)
    (hread : readable detection event = true) :
    matchRule h rule event = true ↔ Reference h detection event := by
  obtain ⟨hr', hd⟩ := ruleSupported_ok hr hdet
  obtain ⟨fields, rs, hfields, hrs, hholds⟩ := selectionResults_holds hd hshort hread
  obtain ⟨c, hc, heval⟩ := evalWithNegation_reading hd hsp (selectionResults_names hrs)
  have hvalue : (fun n => resultOf rs n = true) = SelectionHolds h detection fields :=
    funext fun n => propext (hholds n)
  rw [hvalue] at heval
  simp only [matchRule, hr', hdet, hrs, Option.map_some, Option.getD_some, heval, Reference, hfields,
    hc, Option.some.injEq]
  constructor
  · exact fun hh => ⟨fields, c, rfl, rfl, hh⟩
  · rintro ⟨_, _, rfl, rfl, hh⟩
    exact hh

/-- An event with a message and nothing else. -/
def messageEvent (message : String) : Event := ⟨.null, .obj (some message.toList), .null, none⟩

theorem matchRule_iff_reference_filter :
    matchRule asciiHost (detectionRule (messageDetection ["a", "b"] "a  and not b"))
        (messageEvent "a") = true ↔
      Reference asciiHost (messageDetection ["a", "b"] "a  and not b") (messageEvent "a") :=
  @matchRule_iff_reference asciiHost false _ _ rfl rfl (by
    have hcut : cut andNotSep (rawCondition asciiHost (messageDetection ["a", "b"] "a  and not b")) =
        some ("a ".toList, "b".toList) := rfl
    have hrcut : rcut andNotSep (join [' '] (words (rawCondition asciiHost
        (messageDetection ["a", "b"] "a  and not b")))) = some ("a".toList, "b".toList) := rfl
    simp only [SpacingKept, hcut, hrcut]
    exact ⟨rfl, rfl, by decide⟩) rfl (messageEvent "a") rfl

/-- A rule document with a title and one detection. -/
def titledRule (detection : List (Key × Val)) : Val :=
  .map [(.str "title".toList, .str "t".toList),
    (.str "detection".toList, .map detection none)] none

/-- Admission reads `a and not and not b` as `(a and not) and not b`, the matcher as `a` and not the
    selector `and not b`, which there is none of: a message that equals `a` only is matched. -/
theorem matchRule_ignores_conjunct :
    ruleSupported asciiHost true
        (titledRule (messageDetection ["a", "not", "b"] "a and not and not b")) = .ok () ∧
      allShort (messageDetection ["a", "not", "b"] "a and not and not b") = true ∧
      readable (messageDetection ["a", "not", "b"] "a and not and not b") (messageEvent "a") = true ∧
      ¬Reference asciiHost (messageDetection ["a", "not", "b"] "a and not and not b")
        (messageEvent "a") ∧
      matchRule asciiHost (titledRule (messageDetection ["a", "not", "b"] "a and not and not b"))
        (messageEvent "a") = true := by
  refine ⟨rfl, rfl, rfl, ?_, ?_⟩
  · rintro ⟨fields, c, hfields, hc, hholds⟩
    have hread : reading asciiHost (messageDetection ["a", "not", "b"] "a and not and not b") =
        some ⟨.conj ["a".toList, "not".toList], some "b".toList⟩ := rfl
    obtain rfl := Option.some.inj (hread.symm.trans hc)
    obtain ⟨e, he, hname, hmatch⟩ := hholds.1 "not".toList (by simp)
    have hselections : selectionsOf (messageDetection ["a", "not", "b"] "a and not and not b") =
        ["a", "not", "b"].map fun n =>
          (.str n.toList, .map [(.str "message".toList, .str n.toList)] none) := rfl
    obtain rfl := Option.some.inj hfields
    rw [hselections] at he
    obtain ⟨n, hn, rfl⟩ := List.mem_map.mp he
    fin_cases hn
    · exact absurd hname (by decide)
    · have hfalse : matchSelection asciiHost
          [("module".toList, .null), ("message".toList, .obj (some "a".toList)),
            ("severity".toList, .null)]
          (.map [(.str "message".toList, .str "not".toList)] none) = some false := rfl
      exact absurd (hfalse.symm.trans hmatch) (by decide)
    · exact absurd hname (by decide)
  · have hsup : ruleSupported asciiHost false
        (titledRule (messageDetection ["a", "not", "b"] "a and not and not b")) = .ok () := rfl
    have hdet : detectionOf (titledRule (messageDetection ["a", "not", "b"] "a and not and not b")) =
        some (messageDetection ["a", "not", "b"] "a and not and not b") := rfl
    have hres : selectionResults asciiHost (messageDetection ["a", "not", "b"] "a and not and not b")
        (messageEvent "a") =
          some [("a".toList, true), ("not".toList, false), ("b".toList, false)] := rfl
    have hcut : cut andNotSep (rawCondition asciiHost
        (messageDetection ["a", "not", "b"] "a and not and not b")) =
          some ("a".toList, "and not b".toList) := rfl
    have heval : evalCondition [("a".toList, true), ("not".toList, false), ("b".toList, false)]
        (strip "a".toList) = true := evalCondition_of_noSpace _ (by decide) (by decide)
    simp only [matchRule, hsup, hdet, hres, Option.map_some, Option.getD_some, evalWithNegation,
      hcut, heval]
    rfl

end Angerona.Sigma
