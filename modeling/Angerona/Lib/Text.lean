import Mathlib

/-!
    String operations over character lists, in the shape a Python program uses them: `strip`, the
    argument-free `split`, cutting at the first or the last occurrence of a separator, splitting at
    every non-overlapping occurrence, and joining.

    The lemmas relate the two ways a string can be taken apart. `words` cuts at any run of
    whitespace; `splitOn` cuts only at a literal separator. The bridge is `words_append_sep`: a
    literal separator `" w "` always shows up as the single word `w`, so whatever a literal cut
    sees, the words see too — and not the other way round. -/

namespace Text

/-- A string is the list of its characters. -/
abbrev Str := List Char

instance : LawfulBEq Str := List.instLawfulBEq

/-- `len(s.encode("utf-8"))`. -/
def utf8Length (s : Str) : ℕ := (s.map Char.utf8Size).sum

/-- `str.isspace` on one character. -/
def isSpace (c : Char) : Bool :=
  let n := c.toNat
  (9 ≤ n && n ≤ 13) || (28 ≤ n && n ≤ 32) || n == 0x85 || n == 0xA0 || n == 0x1680 ||
    (0x2000 ≤ n && n ≤ 0x200A) || n == 0x2028 || n == 0x2029 || n == 0x202F || n == 0x205F ||
    n == 0x3000

def lstrip (s : Str) : Str := s.dropWhile isSpace

def rstrip (s : Str) : Str := (s.reverse.dropWhile isSpace).reverse

/-- `s.strip()`. -/
def strip (s : Str) : Str := rstrip (lstrip s)

/-- `s.split()`: the maximal whitespace-free runs. -/
def words (s : Str) : List Str := (s.splitOnP isSpace).filter (· ≠ [])

def isHexDigit (c : Char) : Bool := ('0' ≤ c ∧ c ≤ '9') ∨ ('a' ≤ c ∧ c ≤ 'f')

/-- `n` lower-case hexadecimal digits. -/
def isHex (n : ℕ) (s : Str) : Bool := s.length = n ∧ s.all isHexDigit

/-- `sep.join(parts)`. -/
def join (sep : Str) (parts : List Str) : Str := sep.intercalate parts

/-- The text before and after the first occurrence of `sep`; `none` when `sep` does not occur. -/
def cut (sep : Str) : Str → Option (Str × Str)
  | [] => if sep = [] then some ([], []) else none
  | c :: t =>
    if sep.isPrefixOf (c :: t) then some ([], (c :: t).drop sep.length)
    else (cut sep t).map fun p => (c :: p.1, p.2)

/-- The text before and after the last occurrence of `sep`. -/
def rcut (sep : Str) : Str → Option (Str × Str)
  | [] => if sep = [] then some ([], []) else none
  | c :: t =>
    match rcut sep t with
    | some p => some (c :: p.1, p.2)
    | none => if sep.isPrefixOf (c :: t) then some ([], (c :: t).drop sep.length) else none

/-- `sep in s`. -/
def occurs (sep s : Str) : Bool := (cut sep s).isSome

/-- `splitOn` with an explicit bound on the number of cuts. -/
def splitOnFuel (sep : Str) : Nat → Str → List Str
  | 0, s => [s]
  | n + 1, s =>
    match cut sep s with
    | none => [s]
    | some (a, b) => a :: splitOnFuel sep n b

/-- `s.split(sep)`: the pieces between the non-overlapping occurrences, found left to right. -/
def splitOn (sep s : Str) : List Str := splitOnFuel sep s.length s

/-- `s.count(sep)`. -/
def count (sep s : Str) : Nat := (splitOn sep s).length - 1

/-! ### Cutting -/

theorem cut_append {sep : Str} : ∀ {s a b : Str}, cut sep s = some (a, b) → s = a ++ sep ++ b
  | [], a, b, h => by
    by_cases he : sep = [] <;> simp_all [cut]
  | c :: t, a, b, h => by
    by_cases hp : sep.isPrefixOf (c :: t) = true
    · obtain ⟨r, hr⟩ := List.isPrefixOf_iff_prefix.mp hp
      simp only [cut, hp, if_true, Option.some.injEq, Prod.mk.injEq] at h
      obtain ⟨rfl, rfl⟩ := h
      rw [← hr]
      simp
    · simp only [cut, hp, Bool.false_eq_true, if_false, Option.map_eq_some_iff, Prod.mk.injEq] at h
      obtain ⟨⟨a', b'⟩, hc, rfl, rfl⟩ := h
      have ih := cut_append hc
      simp [ih]

theorem cut_isSome_append (sep a b : Str) : (cut sep (a ++ sep ++ b)).isSome = true := by
  induction a with
  | nil =>
    cases hs : sep ++ b with
    | nil => simp_all [cut]
    | cons c t =>
      have hp : sep.isPrefixOf (c :: t) = true :=
        List.isPrefixOf_iff_prefix.mpr ⟨b, hs⟩
      simp [hs, cut, hp]
  | cons c a ih =>
    simp only [List.cons_append, cut]
    split
    · rfl
    · simpa using ih

/-- `sep in s` exactly when `s` is something, then `sep`, then something. -/
theorem occurs_iff {sep s : Str} : occurs sep s = true ↔ ∃ a b, s = a ++ sep ++ b := by
  constructor
  · intro h
    obtain ⟨⟨a, b⟩, hc⟩ := Option.isSome_iff_exists.mp h
    exact ⟨a, b, cut_append hc⟩
  · rintro ⟨a, b, rfl⟩
    exact cut_isSome_append sep a b

theorem cut_eq_none_iff {sep s : Str} : cut sep s = none ↔ occurs sep s = false := by
  simp [occurs]

theorem cut_length {sep s a b : Str} (h : cut sep s = some (a, b)) :
    a.length + sep.length + b.length = s.length := by
  rw [cut_append h]
  simp only [List.length_append]

/-! ### Splitting -/

theorem splitOnFuel_eq (sep : Str) (hsep : sep ≠ []) :
    ∀ (n : Nat) (s : Str), s.length ≤ n → splitOnFuel sep n s = splitOnFuel sep s.length s
  | 0, s, h => by
    have : s.length = 0 := by omega
    rw [this]
  | n + 1, s, h => by
    cases hl : s.length with
    | zero =>
      obtain rfl := List.length_eq_zero_iff.mp hl
      simp [splitOnFuel, cut, hsep]
    | succ m =>
      simp only [splitOnFuel]
      cases hc : cut sep s with
      | none => rfl
      | some p =>
        have hlen := cut_length (a := p.1) (b := p.2) hc
        have hpos : 0 < sep.length := List.length_pos_iff.mpr hsep
        simp only
        rw [splitOnFuel_eq sep hsep n p.2 (by omega), splitOnFuel_eq sep hsep m p.2 (by omega)]

/-- The recursion `splitOn` stands for: cut once, then split the rest. -/
theorem splitOn_eq {sep : Str} (hsep : sep ≠ []) (s : Str) :
    splitOn sep s = match cut sep s with
      | none => [s]
      | some (a, b) => a :: splitOn sep b := by
  cases hl : s.length with
  | zero =>
    obtain rfl := List.length_eq_zero_iff.mp hl
    simp [splitOn, splitOnFuel, cut, hsep]
  | succ m =>
    rw [splitOn, hl, splitOnFuel]
    cases hc : cut sep s with
    | none => rfl
    | some p =>
      have hlen := cut_length (a := p.1) (b := p.2) hc
      have hpos : 0 < sep.length := List.length_pos_iff.mpr hsep
      simp only [splitOn]
      rw [splitOnFuel_eq sep hsep m p.2 (by omega)]

theorem splitOn_of_not_occurs {sep s : Str} (hsep : sep ≠ []) (h : occurs sep s = false) :
    splitOn sep s = [s] := by
  rw [splitOn_eq hsep, cut_eq_none_iff.mpr h]

theorem splitOn_ne_nil {sep : Str} (hsep : sep ≠ []) (s : Str) : splitOn sep s ≠ [] := by
  rw [splitOn_eq hsep]
  split <;> simp

theorem splitOn_length_of_occurs {sep s : Str} (hsep : sep ≠ []) (ho : occurs sep s = true) :
    2 ≤ (splitOn sep s).length := by
  obtain ⟨⟨a, b⟩, hc⟩ := Option.isSome_iff_exists.mp ho
  have := List.length_pos_iff.mpr (splitOn_ne_nil hsep b)
  rw [splitOn_eq hsep, hc]
  simp only [List.length_cons]
  omega

/-- Every piece of a string in which the separator occurs is shorter than the string. -/
theorem length_lt_of_mem_splitOn {sep s p : Str} (hsep : sep ≠ []) (ho : occurs sep s = true)
    (hp : p ∈ splitOn sep s) : p.length < s.length := by
  have hle : ∀ (n : Nat) (s : Str), s.length ≤ n → ∀ p ∈ splitOn sep s, p.length ≤ s.length := by
    intro n
    induction n with
    | zero =>
      intro s hs p hp
      obtain rfl := List.length_eq_zero_iff.mp (Nat.le_zero.mp hs)
      simp_all [splitOn, splitOnFuel]
    | succ n ih =>
      intro s hs p hp
      rw [splitOn_eq hsep] at hp
      cases hc : cut sep s with
      | none => simp_all
      | some q =>
        have hlen := cut_length (a := q.1) (b := q.2) hc
        have hpos : 0 < sep.length := List.length_pos_iff.mpr hsep
        simp only [hc, List.mem_cons] at hp
        rcases hp with rfl | hp
        · omega
        · have := ih q.2 (by omega) p hp
          omega
  rw [splitOn_eq hsep] at hp
  cases hc : cut sep s with
  | none => simp [occurs, hc] at ho
  | some q =>
    have hlen := cut_length (a := q.1) (b := q.2) hc
    have hpos : 0 < sep.length := List.length_pos_iff.mpr hsep
    simp only [hc, List.mem_cons] at hp
    rcases hp with rfl | hp
    · omega
    · have := hle _ q.2 (le_refl _) p hp
      omega

/-- Joining the pieces with the separator gives the string back. -/
theorem join_splitOn {sep : Str} (hsep : sep ≠ []) : ∀ (s : Str), join sep (splitOn sep s) = s := by
  suffices h : ∀ (n : Nat) (s : Str), s.length ≤ n → join sep (splitOn sep s) = s from
    fun s => h s.length s (le_refl _)
  intro n
  induction n with
  | zero =>
    intro s hs
    obtain rfl := List.length_eq_zero_iff.mp (Nat.le_zero.mp hs)
    rfl
  | succ n ih =>
    intro s hs
    rw [splitOn_eq hsep]
    cases hc : cut sep s with
    | none => simp [join]
    | some q =>
      have hlen := cut_length (a := q.1) (b := q.2) hc
      have hpos : 0 < sep.length := List.length_pos_iff.mpr hsep
      have hrest := ih q.2 (by omega)
      simp only
      rw [join, List.intercalate_cons_of_ne_nil (splitOn_ne_nil hsep q.2)]
      rw [join] at hrest
      rw [hrest]
      exact (cut_append hc).symm

/-! ### Words -/

theorem words_append_space {c : Char} (hc : isSpace c = true) (a b : Str) :
    words (a ++ c :: b) = words a ++ words b := by
  simp [words, List.splitOnP_append_cons a b hc]

theorem words_space_cons {c : Char} (hc : isSpace c = true) (b : Str) :
    words (c :: b) = words b := by
  simpa [words] using words_append_space hc [] b

theorem words_concat_space {c : Char} (hc : isSpace c = true) (a : Str) :
    words (a ++ [c]) = words a := by
  simpa [words] using words_append_space hc a []

/-- No character is a space, tested one by one. -/
theorem spaceFree_of_all {s : Str} (h : (s.all fun c => !isSpace c) = true) :
    ∀ c ∈ s, isSpace c = false := by simpa using h

/-- A nonempty whitespace-free string is its own only word. -/
theorem words_of_spaceFree {w : Str} (hw : ∀ c ∈ w, isSpace c = false) (hne : w ≠ []) :
    words w = [w] := by
  rw [words, List.splitOnP_eq_singleton hw]
  simp [hne]

/-- A string with some non-whitespace character has a word. -/
theorem words_ne_nil {s : Str} (h : ∃ c ∈ s, isSpace c = false) : words s ≠ [] := by
  induction s with
  | nil => simp at h
  | cons c t ih =>
    by_cases hc : isSpace c = true
    · rw [words_space_cons hc]
      obtain ⟨d, hd, hds⟩ := h
      rcases List.mem_cons.mp hd with rfl | hd
      · simp [hc] at hds
      · exact ih ⟨d, hd, hds⟩
    · -- the first word starts at `c`, whatever follows it
      rw [words, List.splitOnP_cons_eq_if_modifyHead]
      simp only [hc, Bool.false_eq_true, if_false]
      cases hs : List.splitOnP isSpace t with
      | nil => exact absurd hs (List.splitOnP_ne_nil isSpace t)
      | cons p ps => simp

theorem words_lstrip (s : Str) : words (lstrip s) = words s := by
  induction s with
  | nil => rfl
  | cons c t ih =>
    by_cases hc : isSpace c = true
    · rw [words_space_cons hc, ← ih]
      simp [lstrip, hc]
    · simp [lstrip, hc]

theorem words_rstrip (s : Str) : words (rstrip s) = words s := by
  induction s using List.reverseRecOn with
  | nil => rfl
  | append_singleton s c ih =>
    by_cases hc : isSpace c = true
    · rw [words_concat_space hc, ← ih]
      simp [rstrip, hc]
    · simp [rstrip, hc]

/-- Stripping changes no word. -/
theorem words_strip (s : Str) : words (strip s) = words s := by
  rw [strip, words_rstrip, words_lstrip]

/-- `" w "`, the literal form in which a program looks for the word `w`. -/
def spaced (w : Str) : Str := ' ' :: w ++ [' ']

theorem spaced_ne_nil (w : Str) : spaced w ≠ [] := by simp [spaced]

/-- A literal `" w "` is seen by `words` as the single word `w`. -/
theorem words_append_sep {w : Str} (hw : ∀ c ∈ w, isSpace c = false) (hne : w ≠ []) (a b : Str) :
    words (a ++ spaced w ++ b) = words a ++ w :: words b := by
  have hsp : isSpace ' ' = true := by decide
  have he : a ++ spaced w ++ b = a ++ ' ' :: (w ++ ' ' :: b) := by simp [spaced]
  rw [he, words_append_space hsp, words_append_space hsp, words_of_spaceFree hw hne]
  rfl

/-- The words of a string are the words of its literal pieces with the separator's word between. -/
theorem words_splitOn {w : Str} (hw : ∀ c ∈ w, isSpace c = false) (hne : w ≠ []) :
    ∀ (s : Str), words s = [w].intercalate ((splitOn (spaced w) s).map words) := by
  suffices h : ∀ (n : Nat) (s : Str), s.length ≤ n →
      words s = [w].intercalate ((splitOn (spaced w) s).map words) from
    fun s => h s.length s (le_refl _)
  intro n
  induction n with
  | zero =>
    intro s hs
    obtain rfl := List.length_eq_zero_iff.mp (Nat.le_zero.mp hs)
    rfl
  | succ n ih =>
    intro s hs
    rw [splitOn_eq (spaced_ne_nil w)]
    cases hc : cut (spaced w) s with
    | none => simp
    | some q =>
      have hlen := cut_length (a := q.1) (b := q.2) hc
      have hpos : 0 < (spaced w).length := by simp [spaced]
      have hne' : (splitOn (spaced w) q.2).map words ≠ [] := by
        simpa using splitOn_ne_nil (spaced_ne_nil w) q.2
      simp only [List.map_cons]
      rw [List.intercalate_cons_of_ne_nil hne', ← ih q.2 (by omega), cut_append hc,
        words_append_sep hw hne]
      simp

/-! ### Strings without outer whitespace -/

/-- No whitespace at either end. -/
def Stripped (s : Str) : Prop :=
  (∀ c ∈ s.head?, isSpace c = false) ∧ ∀ c ∈ s.getLast?, isSpace c = false

theorem stripped_strip (s : Str) : Stripped (strip s) := by
  have hl : ∀ t : Str, ∀ c ∈ (t.dropWhile isSpace).head?, isSpace c = false := by
    intro t c hc
    have := List.head?_dropWhile_not isSpace t
    cases h : (t.dropWhile isSpace).head? with
    | none => simp [h] at hc
    | some d =>
      simp only [h, Option.mem_def, Option.some.injEq] at hc this
      subst hc
      simpa using this
  refine ⟨?_, ?_⟩
  · intro c hc
    have hpre : rstrip (lstrip s) <+: lstrip s := by
      rw [← List.reverse_suffix, rstrip, List.reverse_reverse]
      exact List.dropWhile_suffix isSpace
    obtain ⟨r, hr⟩ := hpre
    cases hs : strip s with
    | nil => simp [hs] at hc
    | cons d t =>
      rw [strip] at hs
      refine hl s c ?_
      rw [hs] at hr
      rw [strip, hs] at hc
      have hd : s.dropWhile isSpace = d :: t ++ r := hr.symm
      rw [hd]
      simpa using hc
  · intro c hc
    have : (strip s).getLast? = ((lstrip s).reverse.dropWhile isSpace).head? := by
      simp [strip, rstrip]
    rw [this] at hc
    exact hl _ c hc

theorem strip_of_stripped {s : Str} (h : Stripped s) : strip s = s := by
  have hdrop : ∀ t : Str, (∀ c ∈ t.head?, isSpace c = false) → t.dropWhile isSpace = t := by
    intro t ht
    cases t with
    | nil => rfl
    | cons c t => exact List.dropWhile_cons_of_neg (by simp [ht c rfl])
  rw [strip, lstrip, hdrop s h.1, rstrip, hdrop s.reverse (by simpa using h.2), List.reverse_reverse]

@[simp] theorem strip_strip (s : Str) : strip (strip s) = strip s :=
  strip_of_stripped (stripped_strip s)

/-- Inside a stripped string a literal `" w "` has a word on either side. -/
theorem words_of_occurs {w s : Str} (hw : ∀ c ∈ w, isSpace c = false) (hne : w ≠ [])
    (hs : Stripped s) (ho : occurs (spaced w) s = true) :
    ∃ u v, u ≠ [] ∧ v ≠ [] ∧ words s = u ++ w :: v := by
  obtain ⟨a, b, rfl⟩ := occurs_iff.mp ho
  refine ⟨words a, words b, ?_, ?_, words_append_sep hw hne a b⟩
  · cases a with
    | nil =>
      have := hs.1 ' ' (by simp [spaced])
      simp [isSpace] at this
    | cons c a =>
      have := hs.1 c (by simp)
      exact words_ne_nil ⟨c, by simp, this⟩
  · cases b using List.reverseRecOn with
    | nil =>
      have he : a ++ spaced w ++ [] = (a ++ ' ' :: w) ++ [' '] := by simp [spaced]
      have := hs.2 ' ' (by rw [he, List.getLast?_concat]; rfl)
      simp [isSpace] at this
    | append_singleton b c =>
      have := hs.2 c (by simp)
      exact words_ne_nil ⟨c, by simp, this⟩

theorem join_append {sep : Str} : ∀ {u v : List Str}, u ≠ [] → v ≠ [] →
    join sep (u ++ v) = join sep u ++ sep ++ join sep v
  | [], _, hu, _ => absurd rfl hu
  | [x], v, _, hv => by simp [join, List.intercalate_cons_of_ne_nil hv]
  | x :: y :: u, v, _, hv => by
    have ih := @join_append sep (y :: u) v (by simp) hv
    simp only [join, List.cons_append, List.intercalate_cons_cons] at ih ⊢
    rw [ih]
    simp

/-- In a string joined from words by single spaces, every inner word is spaced. -/
theorem occurs_join {u v : List Str} {w : Str} (hu : u ≠ []) (hv : v ≠ []) :
    occurs (spaced w) (join [' '] (u ++ w :: v)) = true := by
  refine occurs_iff.mpr ⟨join [' '] u, join [' '] v, ?_⟩
  rw [join_append hu (by simp), join, join, join, List.intercalate_cons_of_ne_nil hv]
  simp [spaced]

theorem join_singleton (sep s : Str) : join sep [s] = s := by
  simp [join, List.intercalate]

/-- Two texts agree when they agree up to the first occurrence of a character and after it. -/
theorem append_cons_inj {c : Char} : ∀ {a b r s : Str}, c ∉ a → c ∉ b →
    a ++ c :: r = b ++ c :: s → a = b ∧ r = s
  | [], [], _, _, _, _, h => ⟨rfl, (List.cons.inj h).2⟩
  | [], d :: b, _, _, _, hb, h => by
    obtain ⟨rfl, -⟩ := List.cons.inj h
    exact absurd List.mem_cons_self hb
  | d :: a, [], _, _, ha, _, h => by
    obtain ⟨rfl, -⟩ := List.cons.inj h
    exact absurd List.mem_cons_self ha
  | d :: a, e :: b, _, _, ha, hb, h => by
    obtain ⟨rfl, htail⟩ := List.cons.inj h
    obtain ⟨rfl, hrest⟩ := append_cons_inj (fun hc => ha (List.mem_cons_of_mem _ hc))
      (fun hc => hb (List.mem_cons_of_mem _ hc)) htail
    exact ⟨rfl, hrest⟩

end Text
