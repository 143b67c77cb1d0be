import Mathlib

/-!
    Searching a relation that is given by its successors, over what a finite closed set bounds.

    `search` keeps a stack and returns what it reaches; `levels` goes level by level and lists what it
    finds in the order it finds it. Both are given fuel; a finite set that is closed under successors
    bounds the fuel that is enough. -/

namespace Reach
open Relation

variable {ι : Type} [DecidableEq ι] (next : ι → List ι)

/-- `b` is a successor of `a`. -/
def Next (a b : ι) : Prop := b ∈ next a

/-- A finite set that no successor leaves. -/
def Closed (all : Finset ι) : Prop := ∀ x ∈ all, ∀ y ∈ next x, y ∈ all

/-! ### With a stack -/

/-- Everything that a stack reaches, with what was seen: `none` when the fuel runs out. -/
def search : ℕ → List ι → List ι → Option (List ι)
  | _, [], seen => some seen
  | 0, _ :: _, _ => none
  | n + 1, x :: stack, seen =>
    if seen.contains x then search n stack seen else search n (next x ++ stack) (x :: seen)

/-- The steps that a search can still take. -/
def steps (all : Finset ι) (stack seen : List ι) : ℕ :=
  stack.length + ∑ x ∈ all.filter (· ∉ seen), (next x).length

variable {next} {all : Finset ι}

theorem steps_cons_seen {x : ι} {stack seen : List ι} :
    steps next all (x :: stack) seen = steps next all stack seen + 1 := by
  rw [steps, steps, List.length_cons]
  omega

theorem steps_cons_new {x : ι} {stack seen : List ι} (hx : x ∈ all) (hnew : x ∉ seen) :
    steps next all (x :: stack) seen = steps next all (next x ++ stack) (x :: seen) + 1 := by
  have herase : all.filter (· ∉ x :: seen) = (all.filter (· ∉ seen)).erase x := by
    ext y
    simp only [Finset.mem_filter, Finset.mem_erase, List.mem_cons, not_or]
    tauto
  have hsum := Finset.add_sum_erase (all.filter (· ∉ seen)) (fun y => (next y).length)
    (Finset.mem_filter.mpr ⟨hx, hnew⟩)
  rw [steps, steps, herase, List.length_cons, List.length_append]
  omega

/-- With fuel for its steps a search returns. -/
theorem search_returns (hclosed : Closed next all) : ∀ {n : ℕ} {stack seen : List ι},
    (∀ x ∈ stack, x ∈ all) → steps next all stack seen ≤ n → ∃ r, search next n stack seen = some r
  | n, [], seen, _, _ => ⟨seen, by rw [search]⟩
  | 0, x :: stack, seen, _, hn => by
    rw [steps_cons_seen] at hn
    omega
  | n + 1, x :: stack, seen, hall, hn => by
    rw [search]
    by_cases hx : x ∈ seen
    · rw [if_pos (by simpa using hx)]
      rw [steps_cons_seen] at hn
      exact search_returns hclosed (fun y hy => hall y (List.mem_cons_of_mem _ hy)) (by omega)
    · rw [if_neg (by simpa using hx)]
      rw [steps_cons_new (hall x List.mem_cons_self) hx] at hn
      refine search_returns hclosed (fun y hy => ?_) (by omega)
      rcases List.mem_append.mp hy with hy | hy
      · exact hclosed x (hall x List.mem_cons_self) y hy
      · exact hall y (List.mem_cons_of_mem _ hy)

omit [DecidableEq ι] in
/-- Leaving what was seen goes through the stack. -/
theorem leaves_seen {stack seen : List ι} (hseen : ∀ x ∈ seen, ∀ y ∈ next x, y ∈ seen ∨ y ∈ stack)
    {x z : ι} (hx : x ∈ seen) (h : ReflTransGen (Next next) x z) :
    z ∈ seen ∨ ∃ s ∈ stack, ReflTransGen (Next next) s z := by
  induction h using ReflTransGen.head_induction_on with
  | refl => exact Or.inl hx
  | head hxy hyz ih =>
    rcases hseen _ hx _ hxy with hy | hy
    · exact ih hy
    · exact Or.inr ⟨_, hy, hyz⟩

/-- A search finds what was seen and what the stack reaches. -/
theorem search_spec : ∀ {n : ℕ} {stack seen r : List ι}, search next n stack seen = some r →
    (∀ x ∈ seen, ∀ y ∈ next x, y ∈ seen ∨ y ∈ stack) →
      ∀ z, z ∈ r ↔ z ∈ seen ∨ ∃ s ∈ stack, ReflTransGen (Next next) s z
  | n, [], seen, r, h, _, z => by
    rw [search] at h
    obtain rfl := Option.some.inj h
    simp
  | 0, x :: stack, seen, r, h, _, z => by
    rw [search] at h
    cases h
  | n + 1, x :: stack, seen, r, h, hseen, z => by
    rw [search] at h
    by_cases hx : x ∈ seen
    · rw [if_pos (by simpa using hx)] at h
      have hrest : ∀ a ∈ seen, ∀ y ∈ next a, y ∈ seen ∨ y ∈ stack := by
        intro a ha y hy
        rcases hseen a ha y hy with hy | hy
        · exact Or.inl hy
        · rcases List.mem_cons.mp hy with rfl | hy
          · exact Or.inl hx
          · exact Or.inr hy
      rw [search_spec h hrest z]
      constructor
      · rintro (hz | ⟨s, hs, hz⟩)
        · exact Or.inl hz
        · exact Or.inr ⟨s, List.mem_cons_of_mem _ hs, hz⟩
      · rintro (hz | ⟨s, hs, hz⟩)
        · exact Or.inl hz
        · rcases List.mem_cons.mp hs with rfl | hs
          · exact leaves_seen hrest hx hz
          · exact Or.inr ⟨s, hs, hz⟩
    · rw [if_neg (by simpa using hx)] at h
      have hrest : ∀ a ∈ x :: seen, ∀ y ∈ next a, y ∈ x :: seen ∨ y ∈ next x ++ stack := by
        intro a ha y hy
        rcases List.mem_cons.mp ha with rfl | ha
        · exact Or.inr (List.mem_append_left _ hy)
        · rcases hseen a ha y hy with hy | hy
          · exact Or.inl (List.mem_cons_of_mem _ hy)
          · rcases List.mem_cons.mp hy with rfl | hy
            · exact Or.inl List.mem_cons_self
            · exact Or.inr (List.mem_append_right _ hy)
      rw [search_spec h hrest z]
      constructor
      · rintro (hz | ⟨s, hs, hz⟩)
        · rcases List.mem_cons.mp hz with rfl | hz
          · exact Or.inr ⟨z, List.mem_cons_self, .refl⟩
          · exact Or.inl hz
        · rcases List.mem_append.mp hs with hs | hs
          · exact Or.inr ⟨x, List.mem_cons_self, .head hs hz⟩
          · exact Or.inr ⟨s, List.mem_cons_of_mem _ hs, hz⟩
      · rintro (hz | ⟨s, hs, hz⟩)
        · exact Or.inl (List.mem_cons_of_mem _ hz)
        · rcases List.mem_cons.mp hs with rfl | hs
          · rcases hz.cases_head with rfl | ⟨y, hy, hz⟩
            · exact Or.inl List.mem_cons_self
            · exact Or.inr ⟨y, List.mem_append_left _ hy, hz⟩
          · exact Or.inr ⟨s, List.mem_append_right _ hs, hz⟩

/-- What the successors of a node reach is what the node reaches in a step or more. -/
theorem search_successors {n : ℕ} {x : ι} {r : List ι} (h : search next n (next x) [] = some r) (z : ι) :
    z ∈ r ↔ TransGen (Next next) x z := by
  rw [search_spec h (fun a ha => absurd ha List.not_mem_nil) z, TransGen.head'_iff]
  simp [Next]

/-! ### Level by level -/

/-- A successor is taken into the next level if it is new. -/
def visit (acc : List ι × List ι) (y : ι) : List ι × List ι :=
  if acc.1.contains y then acc else (y :: acc.1, acc.2 ++ [y])

variable (next) in
/-- What the levels after `frontier` list: `none` when the fuel runs out. -/
def levels : ℕ → List ι → List ι → Option (List ι)
  | _, [], _ => some []
  | 0, _ :: _, _ => none
  | n + 1, x :: frontier, seen =>
    let level := ((x :: frontier).flatMap next).foldl visit (seen, [])
    (levels n level.2 level.1).map (level.2 ++ ·)

/-- The next level: what is new among the successors, each once. -/
theorem visit_spec : ∀ (ys seen found : List ι),
    ∃ new, (ys.foldl visit (seen, found)).2 = found ++ new ∧ new.Nodup ∧
      (∀ z, z ∈ new ↔ z ∈ ys ∧ z ∉ seen) ∧
      ∀ z, z ∈ (ys.foldl visit (seen, found)).1 ↔ z ∈ seen ∨ z ∈ ys := by
  intro ys
  induction ys with
  | nil =>
    intro seen found
    exact ⟨[], by simp, List.nodup_nil, by simp, by simp⟩
  | cons y ys ih =>
    intro seen found
    rw [List.foldl_cons, visit]
    by_cases hy : y ∈ seen
    · rw [if_pos (by simpa using hy)]
      obtain ⟨new, hfound, hnodup, hnew, hseen⟩ := ih seen found
      refine ⟨new, hfound, hnodup, fun z => ?_, fun z => ?_⟩
      · rw [hnew, List.mem_cons]
        constructor
        · rintro ⟨hz, hzs⟩
          exact ⟨Or.inr hz, hzs⟩
        · rintro ⟨rfl | hz, hzs⟩
          · exact absurd hy hzs
          · exact ⟨hz, hzs⟩
      · rw [hseen, List.mem_cons]
        constructor
        · rintro (hz | hz)
          · exact Or.inl hz
          · exact Or.inr (Or.inr hz)
        · rintro (hz | rfl | hz)
          · exact Or.inl hz
          · exact Or.inl hy
          · exact Or.inr hz
    · rw [if_neg (by simpa using hy)]
      obtain ⟨new, hfound, hnodup, hnew, hseen⟩ := ih (y :: seen) (found ++ [y])
      refine ⟨y :: new, ?_, ?_, fun z => ?_, fun z => ?_⟩
      · rw [hfound, List.append_assoc, List.singleton_append]
      · refine List.nodup_cons.mpr ⟨fun h => ?_, hnodup⟩
        exact ((hnew y).mp h).2 List.mem_cons_self
      · rw [List.mem_cons, hnew, List.mem_cons, List.mem_cons, not_or]
        constructor
        · rintro (rfl | ⟨hz, -, hzs⟩)
          · exact ⟨Or.inl rfl, hy⟩
          · exact ⟨Or.inr hz, hzs⟩
        · rintro ⟨rfl | hz, hzs⟩
          · exact Or.inl rfl
          · by_cases hzy : z = y
            · exact Or.inl hzy
            · exact Or.inr ⟨hz, hzy, hzs⟩
      · rw [hseen, List.mem_cons, List.mem_cons]
        tauto

omit [DecidableEq ι] in
/-- A path that leaves what was seen leaves it from one of the places not yet gone on from. -/
theorem leaves_level {level seen : List ι} (hseen : ∀ x ∈ seen, x ∈ level ∨ ∀ y ∈ next x, y ∈ seen)
    {x z : ι} (hx : x ∈ seen) (hz : z ∉ seen) (h : ReflTransGen (Next next) x z) :
    ∃ f ∈ level, TransGen (Next next) f z := by
  induction h using ReflTransGen.head_induction_on with
  | refl => exact absurd hx hz
  | head hxy hyz ih =>
    rename_i a b
    by_cases hb : b ∈ seen
    · exact ih hb
    · rcases hseen a hx with ha | ha
      · exact ⟨a, ha, TransGen.head' hxy hyz⟩
      · exact absurd (ha b hxy) hb

omit [DecidableEq ι] in
/-- After a level, what was seen is in the new level or was gone on from. -/
theorem goes_on {frontier seen new seen' : List ι}
    (hseen : ∀ x ∈ seen, x ∈ frontier ∨ ∀ y ∈ next x, y ∈ seen)
    (hnew : ∀ z, z ∈ new ↔ z ∈ frontier.flatMap next ∧ z ∉ seen)
    (hafter : ∀ z, z ∈ seen' ↔ z ∈ seen ∨ z ∈ frontier.flatMap next) :
    ∀ a ∈ seen', a ∈ new ∨ ∀ y ∈ next a, y ∈ seen' := by
  intro a ha
  by_cases has : a ∈ seen
  · refine Or.inr fun y hy => (hafter y).mpr ?_
    rcases hseen a has with hfrontier | hnext
    · exact Or.inr (List.mem_flatMap.mpr ⟨a, hfrontier, hy⟩)
    · exact Or.inl (hnext y hy)
  · exact Or.inl ((hnew a).mpr ⟨((hafter a).mp ha).resolve_left has, has⟩)

/-- The levels list what lies a step or more after the frontier and was not seen, each once. -/
theorem levels_spec : ∀ {n : ℕ} {frontier seen r : List ι}, levels next n frontier seen = some r →
    (∀ x ∈ seen, x ∈ frontier ∨ ∀ y ∈ next x, y ∈ seen) →
      r.Nodup ∧ ∀ z, z ∈ r ↔ z ∉ seen ∧ ∃ f ∈ frontier, TransGen (Next next) f z
  | n, [], seen, r, h, _ => by
    rw [levels] at h
    obtain rfl := Option.some.inj h
    simp
  | 0, x :: frontier, seen, r, h, _ => by
    rw [levels] at h
    cases h
  | n + 1, x :: frontier, seen, r, h, hseen => by
    rw [levels] at h
    obtain ⟨rest, hrest, rfl⟩ := Option.map_eq_some_iff.mp h
    obtain ⟨new, hfound, hnodup, hnew, hafter⟩ := visit_spec ((x :: frontier).flatMap next) seen []
    rw [List.nil_append] at hfound
    rw [hfound] at hrest ⊢
    have hgone := goes_on hseen hnew hafter
    obtain ⟨hrestnodup, hrestmem⟩ := levels_spec hrest hgone
    refine ⟨List.nodup_append.mpr ⟨hnodup, hrestnodup, ?_⟩, fun z => ?_⟩
    · rintro a ha _ hb rfl
      exact ((hrestmem a).mp hb).1 ((hafter a).mpr (Or.inr ((hnew a).mp ha).1))
    · rw [List.mem_append, hnew, hrestmem, hafter, List.mem_flatMap]
      constructor
      · rintro (⟨⟨f, hf, hz⟩, hzs⟩ | ⟨hzs, f', hf', hpath⟩)
        · exact ⟨hzs, f, hf, .single hz⟩
        · obtain ⟨f, hf, hff'⟩ := List.mem_flatMap.mp ((hnew f').mp hf').1
          exact ⟨fun hz => hzs (Or.inl hz), f, hf, .head hff' hpath⟩
      · rintro ⟨hzs, f, hf, hpath⟩
        by_cases hz : ∃ g ∈ x :: frontier, z ∈ next g
        · exact Or.inl ⟨hz, hzs⟩
        · refine Or.inr ⟨fun h => h.elim hzs hz, ?_⟩
          obtain ⟨y, hfy, hyz⟩ := TransGen.head'_iff.mp hpath
          refine leaves_level hgone ((hafter y).mpr (Or.inr (List.mem_flatMap.mpr ⟨f, hf, hfy⟩)))
            (fun h => ?_) hyz
          rcases (hafter z).mp h with h | h
          · exact hzs h
          · exact hz (List.mem_flatMap.mp h)

/-- With fuel for the places not seen, and a round more, the levels end. -/
theorem levels_returns (hclosed : Closed next all) : ∀ {n : ℕ} {frontier seen : List ι},
    (∀ x ∈ frontier, x ∈ all) → (all.filter (· ∉ seen)).card + 1 ≤ n →
      ∃ r, levels next n frontier seen = some r
  | n, [], seen, _, _ => ⟨[], by rw [levels]⟩
  | 0, x :: frontier, seen, _, hn => by omega
  | n + 1, x :: frontier, seen, hall, hn => by
    rw [levels]
    obtain ⟨new, hfound, -, hnew, hafter⟩ := visit_spec ((x :: frontier).flatMap next) seen []
    rw [List.nil_append] at hfound
    rw [hfound]
    have hin : ∀ y ∈ new, y ∈ all := by
      intro y hy
      obtain ⟨f, hf, hfy⟩ := List.mem_flatMap.mp ((hnew y).mp hy).1
      exact hclosed f (hall f hf) y hfy
    suffices h : ∃ r, levels next n new
        (((x :: frontier).flatMap next).foldl visit (seen, [])).1 = some r by
      obtain ⟨r, hr⟩ := h
      exact ⟨new ++ r, by rw [hr, Option.map_some]⟩
    rcases new with _ | ⟨y, new⟩
    · exact ⟨[], by rw [levels]⟩
    · refine levels_returns hclosed hin ?_
      have hy := (hnew y).mp List.mem_cons_self
      refine Nat.succ_le_of_lt (lt_of_lt_of_le ?_ (Nat.le_of_succ_le_succ hn))
      refine Finset.card_lt_card (Finset.ssubset_iff_of_subset (fun z hz => ?_) |>.mpr ⟨y, ?_, ?_⟩)
      · obtain ⟨hz, hzs⟩ := Finset.mem_filter.mp hz
        exact Finset.mem_filter.mpr ⟨hz, fun h => hzs ((hafter z).mpr (Or.inl h))⟩
      · exact Finset.mem_filter.mpr ⟨hin y List.mem_cons_self, hy.2⟩
      · exact fun h => (Finset.mem_filter.mp h).2 ((hafter y).mpr (Or.inr hy.1))

/-! ### Nearest first -/

/-- A walk of so many steps. -/
def Walk (r : ι → ι → Prop) : ℕ → ι → ι → Prop
  | 0, a, b => a = b
  | k + 1, a, b => ∃ c, r a c ∧ Walk r k c b

omit [DecidableEq ι] in
/-- A walk that leaves what was seen has fewer steps to go from where it leaves. -/
theorem walk_leaves {level seen : List ι} (hseen : ∀ x ∈ seen, x ∈ level ∨ ∀ y ∈ next x, y ∈ seen)
    {z : ι} (hz : z ∉ seen) : ∀ {k : ℕ} {x : ι}, x ∈ seen → Walk (Next next) k x z →
      ∃ i, i + 1 ≤ k ∧ ∃ f ∈ level, Walk (Next next) (i + 1) f z := by
  intro k
  induction k with
  | zero =>
    intro x hx hwalk
    rw [Walk] at hwalk
    exact absurd (hwalk ▸ hx) hz
  | succ k ih =>
    intro x hx hwalk
    obtain ⟨y, hy, hwalk'⟩ := hwalk
    by_cases hys : y ∈ seen
    · obtain ⟨i, hi, f, hf, hwalk''⟩ := ih hys hwalk'
      exact ⟨i, by omega, f, hf, hwalk''⟩
    · rcases hseen x hx with hlevel | hnext
      · exact ⟨k, le_rfl, x, hlevel, y, hy, hwalk'⟩
      · exact absurd (hnext y hy) hys

/-- The levels list what is nearer first. -/
theorem levels_nearest : ∀ {n : ℕ} {frontier seen r : List ι}, levels next n frontier seen = some r →
    (∀ x ∈ seen, x ∈ frontier ∨ ∀ y ∈ next x, y ∈ seen) →
      r.Pairwise fun a b => ∀ k, (∃ f ∈ frontier, Walk (Next next) (k + 1) f b) →
        ∃ j ≤ k, ∃ f ∈ frontier, Walk (Next next) (j + 1) f a
  | n, [], seen, r, h, _ => by
    rw [levels] at h
    obtain rfl := Option.some.inj h
    exact List.Pairwise.nil
  | 0, x :: frontier, seen, r, h, _ => by
    rw [levels] at h
    cases h
  | n + 1, x :: frontier, seen, r, h, hseen => by
    rw [levels] at h
    obtain ⟨rest, hrest, rfl⟩ := Option.map_eq_some_iff.mp h
    obtain ⟨new, hfound, -, hnew, hafter⟩ := visit_spec ((x :: frontier).flatMap next) seen []
    rw [List.nil_append] at hfound
    rw [hfound] at hrest ⊢
    have hgone := goes_on hseen hnew hafter
    have hfirst : ∀ a ∈ new, ∃ f ∈ x :: frontier, Walk (Next next) 1 f a := by
      intro a ha
      obtain ⟨f, hf, hfa⟩ := List.mem_flatMap.mp ((hnew a).mp ha).1
      exact ⟨f, hf, a, hfa, rfl⟩
    have hout := (levels_spec hrest hgone).2
    refine List.pairwise_append.mpr ⟨?_, ?_, ?_⟩
    · exact List.pairwise_of_forall_mem_list fun a ha b _ k _ => ⟨0, Nat.zero_le k, hfirst a ha⟩
    · refine (levels_nearest hrest hgone).imp_of_mem fun {a b} _ hb hab k hwalk => ?_
      obtain ⟨f, hf, y, hy, hwalk'⟩ := hwalk
      have hys := (hafter y).mpr (Or.inr (List.mem_flatMap.mpr ⟨f, hf, hy⟩))
      obtain ⟨i, hi, f', hf', hwalk''⟩ := walk_leaves hgone ((hout b).mp hb).1 hys hwalk'
      obtain ⟨j, hj, f'', hf'', ha⟩ := hab i ⟨f', hf', hwalk''⟩
      obtain ⟨f₀, hf₀, hf₀f''⟩ := List.mem_flatMap.mp ((hnew f'').mp hf'').1
      exact ⟨j + 1, by omega, f₀, hf₀, f'', hf₀f'', ha⟩
    · exact fun a ha b _ k _ => ⟨0, Nat.zero_le k, hfirst a ha⟩

/-! ### Adding an edge -/

omit [DecidableEq ι] in
/-- A path over one edge more, which goes over it or not. -/
theorem path_over {r : ι → ι → Prop} {p c x y : ι} (hback : ¬ReflTransGen r c p)
    (h : TransGen (fun a b => r a b ∨ a = p ∧ b = c) x y) :
    TransGen r x y ∨ ReflTransGen r x p ∧ ReflTransGen r c y := by
  induction h with
  | single h =>
    rcases h with h | ⟨rfl, rfl⟩
    · exact Or.inl (.single h)
    · exact Or.inr ⟨.refl, .refl⟩
  | tail _ h ih =>
    rcases ih with ih | ⟨hp, hc⟩ <;> rcases h with h | ⟨rfl, rfl⟩
    · exact Or.inl (.tail ih h)
    · exact Or.inr ⟨ih.to_reflTransGen, .refl⟩
    · exact Or.inr ⟨hp, .tail hc h⟩
    · exact absurd hc hback

omit [DecidableEq ι] in
/-- An edge that closes no cycle keeps a relation acyclic. -/
theorem acyclic_insert {r : ι → ι → Prop} {p c : ι} (hr : ∀ x, ¬TransGen r x x)
    (hback : ¬ReflTransGen r c p) (x : ι) : ¬TransGen (fun a b => r a b ∨ a = p ∧ b = c) x x := by
  intro h
  rcases path_over hback h with h | ⟨hp, hc⟩
  · exact hr x h
  · exact hback (hc.trans hp)

end Reach
