import Mathlib.Data.Finset.Sort
import Mathlib.Data.List.MinMax
import Mathlib.Logic.Function.Basic

/-!
    Buckets from which entries are taken late: an entry that is no longer available leaves its bucket
    only when it is met at the front.

    A bucket is a heap that was filled in order, so its front is its least entry. What is found is what
    a search through the available entries themselves would find. -/

namespace LazyBuckets

variable {κ α : Type} [DecidableEq κ]

abbrev Buckets (κ α : Type) := κ → List α

/-- `buckets.setdefault(key, []).append(entry)`. -/
def add (b : Buckets κ α) (entry : α) (key : κ) : Buckets κ α :=
  Function.update b key (b key ++ [entry])

/-- The buckets of entries that are added in order, each under all its keys. -/
def index (keys : α → List κ) (entries : List α) : Buckets κ α :=
  entries.foldl (fun b entry => (keys entry).foldl (fun b key => add b entry key) b) fun _ => []

variable [DecidableEq α]

/-- The first available entry of a bucket; the ones before it are popped. -/
def first (available : Finset α) (b : Buckets κ α) (key : κ) : Option α × Buckets κ α :=
  let rest := (b key).dropWhile fun entry => entry ∉ available
  (rest.head?, Function.update b key rest)

/-- The first available entries of several buckets, asked one after the other. -/
def firsts (available : Finset α) : Buckets κ α → List κ → List α × Buckets κ α
  | b, [] => ([], b)
  | b, key :: keys =>
    let found := first available b key
    let rest := firsts available found.2 keys
    (found.1.toList ++ rest.1, rest.2)

/-- The buckets hold the available entries of other buckets, in the same order. -/
def Holds (available : Finset α) (b original : Buckets κ α) : Prop :=
  ∀ key, (b key).filter (· ∈ available) = (original key).filter (· ∈ available)

variable {keys : α → List κ} {entries : List α} {available : Finset α} {b original : Buckets κ α}

/-! ### Filling -/

omit [DecidableEq α] in
theorem foldl_add (entry : α) : ∀ {ks : List κ}, ks.Nodup → ∀ (b : Buckets κ α) (key : κ),
    ks.foldl (fun b key => add b entry key) b key = b key ++ if key ∈ ks then [entry] else []
  | [], _, b, key => by simp
  | k :: ks, hnodup, b, key => by
    obtain ⟨hk, hnodup⟩ := List.nodup_cons.mp hnodup
    rw [List.foldl_cons, foldl_add entry hnodup, add]
    by_cases hkey : key = k
    · subst hkey
      simp [hk]
    · rw [Function.update_of_ne hkey]
      simp [hkey]

omit [DecidableEq α] in
/-- A bucket holds the entries with its key, in the order they were added. -/
theorem index_eq (hkeys : ∀ entry, (keys entry).Nodup) (key : κ) :
    index keys entries key = entries.filter fun entry => key ∈ keys entry := by
  induction entries using List.reverseRecOn with
  | nil => rfl
  | append_singleton entries entry ih =>
    rw [index, List.foldl_concat, foldl_add entry (hkeys entry), List.filter_append]
    rw [index] at ih
    rw [ih]
    congr 1
    by_cases hkey : key ∈ keys entry
    · simp [hkey]
    · simp [hkey]

/-! ### Searching -/

omit [DecidableEq κ] in
theorem holds_refl (available : Finset α) (b : Buckets κ α) : Holds available b b := fun _ => rfl

omit [DecidableEq κ] in
theorem Holds.erase (h : Holds available b original) (entry : α) :
    Holds (available.erase entry) b original := by
  intro key
  have hfilter : ∀ l : List α, l.filter (· ∈ available.erase entry) =
      (l.filter (· ∈ available)).filter (· ≠ entry) := by
    intro l
    rw [List.filter_filter]
    refine List.filter_congr fun a _ => ?_
    simp [Finset.mem_erase]
  rw [hfilter, hfilter, h key]

omit [DecidableEq κ] in
theorem filter_dropWhile (l : List α) :
    (l.dropWhile fun entry => entry ∉ available).filter (· ∈ available) =
      l.filter (· ∈ available) := by
  induction l with
  | nil => rfl
  | cons a l ih =>
    by_cases ha : a ∈ available
    · rw [List.dropWhile_cons_of_neg (by simpa using ha)]
    · rw [List.dropWhile_cons_of_pos (by simpa using ha), ih, List.filter_cons_of_neg (by simpa using ha)]

omit [DecidableEq κ] in
theorem head?_dropWhile (l : List α) :
    (l.dropWhile fun entry => entry ∉ available).head? = (l.filter (· ∈ available)).head? := by
  induction l with
  | nil => rfl
  | cons a l ih =>
    by_cases ha : a ∈ available
    · rw [List.dropWhile_cons_of_neg (by simpa using ha), List.filter_cons_of_pos (by simpa using ha)]
      rfl
    · rw [List.dropWhile_cons_of_pos (by simpa using ha), ih, List.filter_cons_of_neg (by simpa using ha)]

/-- One bucket gives its first available entry, and holds what it held. -/
theorem first_spec (h : Holds available b original) (key : κ) :
    (first available b key).1 = ((original key).filter (· ∈ available)).head? ∧
      Holds available (first available b key).2 original := by
  refine ⟨by rw [first, head?_dropWhile, h key], fun k => ?_⟩
  have hbuckets : (first available b key).2 =
      Function.update b key ((b key).dropWhile fun entry => entry ∉ available) := rfl
  rw [hbuckets]
  by_cases hk : k = key
  · subst hk
    rw [Function.update_self, filter_dropWhile]
    exact h k
  · rw [Function.update_of_ne hk]
    exact h k

theorem firsts_spec : ∀ (ks : List κ) {b : Buckets κ α}, Holds available b original →
    (firsts available b ks).1 =
        ks.flatMap (fun key => ((original key).filter (· ∈ available)).head?.toList) ∧
      Holds available (firsts available b ks).2 original
  | [], b, h => ⟨rfl, h⟩
  | key :: ks, b, h => by
    obtain ⟨hfound, hheld⟩ := first_spec h key
    obtain ⟨hrest, hheld⟩ := firsts_spec ks hheld
    rw [firsts, List.flatMap_cons]
    exact ⟨by rw [hfound, hrest], hheld⟩

/-! ### The least one -/

omit [DecidableEq κ] [DecidableEq α] in
/-- The least of what several searches of a sorted list find is what one search for all finds. -/
theorem min?_find? [LinearOrder α] {p : κ → α → Bool} (ks : List κ) : ∀ {l : List α},
    l.Pairwise (· < ·) → (ks.flatMap fun key => (l.find? (p key)).toList).min? =
      l.find? fun a => ks.any fun key => p key a
  | [], _ => by simp
  | a :: l, hsorted => by
    obtain ⟨hleast, hsorted⟩ := List.pairwise_cons.mp hsorted
    rw [List.find?_cons]
    cases ha : ks.any fun key => p key a with
    | true =>
      rw [List.min?_eq_some_iff]
      obtain ⟨key, hkey, hpa⟩ := List.any_eq_true.mp ha
      refine ⟨List.mem_flatMap.mpr ⟨key, hkey, ?_⟩, fun c hc => ?_⟩
      · rw [List.find?_cons_of_pos hpa]
        exact List.mem_singleton_self a
      · obtain ⟨key', -, hc⟩ := List.mem_flatMap.mp hc
        rcases List.mem_cons.mp (List.mem_of_find?_eq_some (Option.mem_toList.mp hc)) with rfl | hc
        · exact le_rfl
        · exact (hleast c hc).le
    | false =>
      have hnone : ∀ key ∈ ks, p key a = false := fun key hkey => by
        have := List.any_eq_false.mp ha key hkey
        simpa using this
      rw [← min?_find? ks hsorted]
      congr 1
      refine List.flatMap_congr fun key hkey => ?_
      rw [List.find?_cons_of_neg (by simp [hnone key hkey])]

end LazyBuckets
