import Mathlib
import Angerona.Lib.LazyBuckets

/-!
    Pairing the names that disappeared with the names that appeared, `_rename_pairs`.

    The new names are indexed by their folded name, by their folded stem and by what stands before each
    dot of their folded name. An old name asks the buckets that can hold a match. The pairs are those
    of the search that compares each old name with every new name that is left. -/

namespace Angerona.Ransomware
open LazyBuckets

/-- A file name: its code points, lone surrogates among them. -/
abbrev Name := List ℕ

def dot : ℕ := '.'.toNat

/-- The two functions of the interpreter that names are compared by. -/
structure Naming where
  /-- `str.casefold`. -/
  casefold : Name → Name
  /-- `Path(name).stem`. -/
  stem : Name → Name

/-- What stands before each dot of a name. -/
def dotPrefixes (name : Name) : List Name :=
  ((List.range name.length).filter fun i => name[i]? = some dot).map name.take

/-- A bucket of one of the three indexes. -/
inductive BucketKey where
  | byName (folded : Name)
  | byStem (stem : Name)
  | byDot (before : Name)
  deriving DecidableEq

namespace Naming

variable (N : Naming)

/-- The buckets a new name is put in. -/
def keys (new : Name) : List BucketKey :=
  .byName (N.casefold new) :: .byStem (N.casefold (N.stem new)) ::
    (dotPrefixes (N.casefold new)).map .byDot

/-- The buckets an old name asks. -/
def asked (old : Name) : List BucketKey :=
  .byDot (N.casefold old) ::
    ((if N.casefold (N.stem old) ≠ [] then [.byStem (N.casefold (N.stem old))] else []) ++
      (dotPrefixes (N.casefold old)).map .byName)

/-- One pass of the loop over the old names. -/
def pair (state : Finset Name × Buckets BucketKey Name × List (Name × Name)) (old : Name) :
    Finset Name × Buckets BucketKey Name × List (Name × Name) :=
  let found := firsts state.1 state.2.1 (N.asked old)
  match found.1.min? with
  | none => (state.1, found.2, state.2.2)
  | some new => (state.1.erase new, found.2, state.2.2 ++ [(old, new)])

/-- `_rename_pairs`, without a caller that stops it. -/
def renamePairs (disappeared appeared : Finset Name) : List (Name × Name) :=
  ((disappeared.sort (· ≤ ·)).foldl N.pair
    (appeared, index N.keys (appeared.sort (· ≤ ·)), [])).2.2

/-! ### The rule -/

/-- A new name that an old one may have become: with a suffix added after a dot, with the same stem,
    or with a suffix taken off. -/
def Related (old new : Name) : Prop :=
  N.casefold old ++ [dot] <+: N.casefold new ∨
    (N.casefold (N.stem old) ≠ [] ∧ N.casefold (N.stem new) = N.casefold (N.stem old)) ∨
      N.casefold new ++ [dot] <+: N.casefold old

instance (old new : Name) : Decidable (N.Related old new) :=
  inferInstanceAs (Decidable (_ ∨ _ ∨ _))

/-- Each old name in turn takes the least related new name that is left. -/
def greedy (state : Finset Name × List (Name × Name)) (old : Name) : Finset Name × List (Name × Name) :=
  match (state.1.sort (· ≤ ·)).find? fun new => N.Related old new with
  | none => state
  | some new => (state.1.erase new, state.2 ++ [(old, new)])

def greedyPairs (disappeared appeared : Finset Name) : List (Name × Name) :=
  ((disappeared.sort (· ≤ ·)).foldl N.greedy (appeared, [])).2

end Naming

/-! ### Buckets and the rule -/

theorem mem_dotPrefixes {name before : Name} :
    before ∈ dotPrefixes name ↔ before ++ [dot] <+: name := by
  rw [dotPrefixes, List.mem_map]
  constructor
  · rintro ⟨i, hi, rfl⟩
    obtain ⟨hi, hdot⟩ := List.mem_filter.mp hi
    rw [List.mem_range] at hi
    rw [decide_eq_true_eq, List.getElem?_eq_getElem hi, Option.some.injEq] at hdot
    rw [← hdot, List.take_append_getElem hi]
    exact List.take_prefix _ _
  · rintro ⟨rest, rfl⟩
    refine ⟨before.length, List.mem_filter.mpr ⟨?_, ?_⟩, ?_⟩
    · simp
    · simp
    · simp

theorem nodup_dotPrefixes (name : Name) : (dotPrefixes name).Nodup := by
  refine (List.nodup_range.filter _).map_on fun i hi j hj he => ?_
  have hi' := List.mem_range.mp (List.mem_of_mem_filter hi)
  have hj' := List.mem_range.mp (List.mem_of_mem_filter hj)
  have hlength := congrArg List.length he
  rw [List.length_take_of_le hi'.le, List.length_take_of_le hj'.le] at hlength
  exact hlength

variable {N : Naming}

theorem nodup_keys (new : Name) : (N.keys new).Nodup := by
  have hdots : ((dotPrefixes (N.casefold new)).map BucketKey.byDot).Nodup :=
    (nodup_dotPrefixes _).map fun _ _ => BucketKey.byDot.inj
  rw [Naming.keys, List.nodup_cons, List.nodup_cons]
  exact ⟨by simp, by simp, hdots⟩

/-- A new name is in a bucket that is asked exactly when the two names are related. -/
theorem related_iff {old new : Name} : N.Related old new ↔ ∃ key ∈ N.asked old, key ∈ N.keys new := by
  rw [Naming.Related, ← mem_dotPrefixes, ← mem_dotPrefixes, Naming.asked, Naming.keys]
  constructor
  · rintro (h | ⟨hne, h⟩ | h)
    · exact ⟨.byDot (N.casefold old), by simp, by simp [h]⟩
    · exact ⟨.byStem (N.casefold (N.stem old)), by simp [hne], by simp [h]⟩
    · exact ⟨.byName (N.casefold new), by simp [h], by simp⟩
  · rintro ⟨key, hasked, hkey⟩
    rcases List.mem_cons.mp hasked with rfl | hasked
    · exact Or.inl (by simpa using hkey)
    rcases List.mem_append.mp hasked with hstem | hname
    · split at hstem
      · rename_i hne
        obtain rfl := List.mem_singleton.mp hstem
        exact Or.inr (Or.inl ⟨hne, (by simpa using hkey : _ = _).symm⟩)
      · cases hstem
    · obtain ⟨before, hbefore, rfl⟩ := List.mem_map.mp hname
      have hbefore' : before = N.casefold new := by simpa using hkey
      exact Or.inr (Or.inr (hbefore' ▸ hbefore))

/-- The names that are left, in order, are what is left of all names in order. -/
theorem filter_sort {appeared available : Finset Name} (hsub : available ⊆ appeared) :
    (appeared.sort (· ≤ ·)).filter (· ∈ available) = available.sort (· ≤ ·) := by
  refine List.Perm.eq_of_pairwise (fun a b _ _ => le_antisymm)
    ((appeared.pairwise_sort (· ≤ ·)).filter _) (available.pairwise_sort (· ≤ ·)) ?_
  refine (List.perm_ext_iff_of_nodup ((appeared.sort_nodup (· ≤ ·)).filter _)
    (available.sort_nodup (· ≤ ·))).mpr fun a => ?_
  rw [List.mem_filter, Finset.mem_sort, Finset.mem_sort, decide_eq_true_eq]
  exact ⟨fun h => h.2, fun h => ⟨hsub h, h⟩⟩

/-- The least of the firsts of the buckets is what the search through all names that are left finds. -/
theorem min?_firsts {appeared available : Finset Name} (hsub : available ⊆ appeared) (old : Name) :
    ((N.asked old).flatMap fun key => ((index N.keys (appeared.sort (· ≤ ·)) key).filter
      (· ∈ available)).head?.toList).min? =
        (available.sort (· ≤ ·)).find? fun new => N.Related old new := by
  have hbucket : ∀ key, ((index N.keys (appeared.sort (· ≤ ·)) key).filter (· ∈ available)).head? =
      (available.sort (· ≤ ·)).find? fun new => key ∈ N.keys new := by
    intro key
    rw [index_eq nodup_keys, List.filter_comm, filter_sort hsub, List.head?_filter]
  simp only [hbucket]
  rw [min?_find? (N.asked old) (available.sortedLT_sort).pairwise]
  congr 1
  funext new
  rw [Bool.eq_iff_iff, List.any_eq_true, decide_eq_true_eq, related_iff]
  simp

/-! ### The pairs -/

/-- The state of the indexed loop that stands for a state of the plain one. -/
structure Stands (N : Naming) (appeared : Finset Name)
    (state : Finset Name × Buckets BucketKey Name × List (Name × Name))
    (plain : Finset Name × List (Name × Name)) : Prop where
  available : state.1 = plain.1
  pairs : state.2.2 = plain.2
  sub : plain.1 ⊆ appeared
  holds : Holds plain.1 state.2.1 (index N.keys (appeared.sort (· ≤ ·)))

/-- One old name does the same to both. -/
theorem Stands.pair {appeared : Finset Name}
    {state : Finset Name × Buckets BucketKey Name × List (Name × Name)}
    {plain : Finset Name × List (Name × Name)} (h : Stands N appeared state plain) (old : Name) :
    Stands N appeared (N.pair state old) (N.greedy plain old) := by
  obtain ⟨available, b, pairs⟩ := state
  obtain ⟨havailable, hpairs, hsub, hholds⟩ := h
  obtain rfl : available = plain.1 := havailable
  obtain rfl : pairs = plain.2 := hpairs
  obtain ⟨hfound, hheld⟩ := firsts_spec (N.asked old) hholds
  have hleast : (firsts plain.1 b (N.asked old)).1.min? =
      (plain.1.sort (· ≤ ·)).find? fun new => N.Related old new := by
    rw [hfound, min?_firsts hsub]
  rw [Naming.pair, Naming.greedy]
  dsimp only
  rw [hleast]
  cases (plain.1.sort (· ≤ ·)).find? fun new => N.Related old new with
  | none => exact ⟨rfl, rfl, hsub, hheld⟩
  | some new => exact ⟨rfl, rfl, (Finset.erase_subset _ _).trans hsub, hheld.erase new⟩

theorem renamePairs_eq (disappeared appeared : Finset Name) :
    N.renamePairs disappeared appeared = N.greedyPairs disappeared appeared := by
  rw [Naming.renamePairs, Naming.greedyPairs]
  have hstart : Stands N appeared (appeared, index N.keys (appeared.sort (· ≤ ·)), [])
      (appeared, []) := ⟨rfl, rfl, subset_rfl, holds_refl _ _⟩
  generalize disappeared.sort (· ≤ ·) = olds
  generalize (appeared, index N.keys (appeared.sort (· ≤ ·)), ([] : List (Name × Name))) = state at hstart ⊢
  generalize (appeared, ([] : List (Name × Name))) = plain at hstart ⊢
  induction olds generalizing state plain with
  | nil => exact hstart.pairs
  | cons old olds ih => exact ih _ _ (hstart.pair old)

/-- The pairs so far: old names in order, new names that are no longer there, no name twice. -/
structure Paired (N : Naming) (appeared : Finset Name) (olds : List Name)
    (plain : Finset Name × List (Name × Name)) : Prop where
  olds : (plain.2.map Prod.fst).Sublist olds
  news : (plain.2.map Prod.snd).Nodup
  taken : ∀ p ∈ plain.2, p.2 ∈ appeared ∧ p.2 ∉ plain.1
  sub : plain.1 ⊆ appeared
  related : ∀ p ∈ plain.2, N.Related p.1 p.2

theorem Paired.greedy {appeared : Finset Name} {olds : List Name}
    {plain : Finset Name × List (Name × Name)} (h : Paired N appeared olds plain) (old : Name) :
    Paired N appeared (olds ++ [old]) (N.greedy plain old) := by
  rw [Naming.greedy]
  cases hfound : (plain.1.sort (· ≤ ·)).find? fun new => N.Related old new with
  | none => exact { h with olds := h.olds.trans (List.sublist_append_left _ _) }
  | some new =>
    have hnew : new ∈ plain.1 := (Finset.mem_sort _).mp (List.mem_of_find?_eq_some hfound)
    have hrelated : N.Related old new := by simpa using List.find?_some hfound
    refine ⟨?_, ?_, ?_, (Finset.erase_subset _ _).trans h.sub, ?_⟩
    · rw [List.map_append]
      exact h.olds.append_right _
    · rw [List.map_append, List.nodup_append]
      refine ⟨h.news, List.nodup_singleton _, ?_⟩
      intro taken htaken other hother
      obtain ⟨p, hp, rfl⟩ := List.mem_map.mp htaken
      obtain rfl := List.mem_singleton.mp hother
      exact fun he => (h.taken p hp).2 (he ▸ hnew)
    · intro p hp
      rcases List.mem_append.mp hp with hp | hp
      · exact ⟨(h.taken p hp).1, fun he => (h.taken p hp).2 (Finset.mem_of_mem_erase he)⟩
      · obtain rfl := List.mem_singleton.mp hp
        exact ⟨h.sub hnew, Finset.notMem_erase _ _⟩
    · intro p hp
      rcases List.mem_append.mp hp with hp | hp
      · exact h.related p hp
      · obtain rfl := List.mem_singleton.mp hp
        exact hrelated

theorem paired_greedyPairs (disappeared appeared : Finset Name) :
    ∃ available, Paired N appeared (disappeared.sort (· ≤ ·))
      (available, N.greedyPairs disappeared appeared) := by
  have hrun : ∀ (olds seen : List Name) (plain : Finset Name × List (Name × Name)),
      Paired N appeared seen plain → Paired N appeared (seen ++ olds) (olds.foldl N.greedy plain) := by
    intro olds
    induction olds with
    | nil => exact fun seen plain h => by simpa using h
    | cons old olds ih =>
      intro seen plain h
      have := ih (seen ++ [old]) _ (h.greedy old)
      rwa [List.append_assoc] at this
  have hstart : Paired N appeared [] (appeared, []) :=
    ⟨List.Sublist.slnil, List.nodup_nil, by simp, subset_rfl, by simp⟩
  exact ⟨_, hrun (disappeared.sort (· ≤ ·)) [] _ hstart⟩

/-- CORRECT: the indexed search pairs what the comparison of every old name with every new name
    pairs, each name at most once. -/
theorem renamePairs_greedy (N : Naming) (disappeared appeared : Finset Name) :
    N.renamePairs disappeared appeared = N.greedyPairs disappeared appeared ∧
      ((N.renamePairs disappeared appeared).map Prod.fst).Nodup ∧
      ((N.renamePairs disappeared appeared).map Prod.snd).Nodup ∧
      ∀ p ∈ N.renamePairs disappeared appeared,
        p.1 ∈ disappeared ∧ p.2 ∈ appeared ∧ N.Related p.1 p.2 := by
  obtain ⟨available, h⟩ := paired_greedyPairs (N := N) disappeared appeared
  rw [renamePairs_eq]
  refine ⟨rfl, h.olds.nodup (disappeared.sort_nodup (· ≤ ·)), h.news, fun p hp => ?_⟩
  have hold := h.olds.subset (List.mem_map_of_mem hp)
  exact ⟨(Finset.mem_sort _).mp hold, (h.taken p hp).1, h.related p hp⟩

end Angerona.Ransomware
