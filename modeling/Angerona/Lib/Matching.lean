import Mathlib.Data.Finset.Card
import Angerona.Lib.Dict

/-!
    Bipartite matching by augmenting paths.

    Every subject has options, each under a key; a key is given to one option. A subject takes a
    free key, or one whose holder can move to another key. `assign` follows one path, with the keys
    it has tried; `assignAll` does so for every subject in turn. -/

namespace Matching

variable {σ κ α : Type} [DecidableEq κ]

/-- The keys tried so far, and the options that hold keys. -/
abbrev Search (κ α : Type) := List κ × Dict κ α

section Search

-- the options of a subject, and the subject of an option
variable (options : σ → List (κ × α)) (owner : α → σ)

/-- The loop over the options of one subject; `search` moves the holder of a key. -/
def tryKeys (search : σ → Search κ α → Bool × Search κ α) :
    List (κ × α) → Search κ α → Bool × Search κ α
  | [], st => (false, st)
  | (key, a) :: rest, (seen, assigned) =>
    if key ∈ seen then tryKeys search rest (seen, assigned)
    else
      match assigned.get? key with
      | none => (true, key :: seen, assigned.set key a)
      | some b =>
        match search (owner b) (key :: seen, assigned) with
        | (true, seen', assigned') => (true, seen', assigned'.set key a)
        | (false, st) => tryKeys search rest st

/-- A path from a subject; every call tries a key that no call before it tried. -/
def assign : ℕ → σ → Search κ α → Bool × Search κ α
  | 0, _, st => (false, st)
  | fuel + 1, s, st => tryKeys owner (assign fuel) (options s) st

/-- The options that hold keys once every subject has searched. -/
def assignAll (fuel : ℕ) (subjects : List σ) : Dict κ α :=
  subjects.foldl (fun assigned s => (assign options owner fuel s ([], assigned)).2.2) Dict.empty

end Search

/-! ### One path -/

section Path

variable {options : σ → List (κ × α)} {owner : α → σ}

/-- Every key is held by an option under it, and every subject holds one key. -/
structure Matched (options : σ → List (κ × α)) (owner : α → σ) (A : Dict κ α) : Prop where
  option : ∀ k a, A.get? k = some a → (k, a) ∈ options (owner a)
  injective : ∀ k l a b, A.get? k = some a → A.get? l = some b → owner a = owner b → k = l

/-- The subject holds the key. -/
def Holds (owner : α → σ) (A : Dict κ α) (s : σ) (k : κ) : Prop :=
  ∃ a, A.get? k = some a ∧ owner a = s

/-- A successful path of `s` from `A` to `A'`: `s` holds one key more than before, and the keys
    tried before are held as they were. -/
structure Augments (options : σ → List (κ × α)) (owner : α → σ) (s : σ) (seen : List κ)
    (A A' : Dict κ α) : Prop where
  option : ∀ k a, A'.get? k = some a → (k, a) ∈ options (owner a)
  agrees : ∀ k ∈ seen, A'.get? k = A.get? k
  owners : ∀ k a, A'.get? k = some a → owner a = s ∨ ∃ l, Holds owner A (owner a) l
  conflict : ∀ k l a b, A'.get? k = some a → A'.get? l = some b → owner a = owner b →
    k = l ∨ owner a = s ∧ (Holds owner A s k ∨ Holds owner A s l)

variable {A A' : Dict κ α} {s : σ} {seen seen' : List κ} {key : κ} {a : α}

/-- A free key is taken. -/
theorem augments_free (hA : Matched options owner A) (ha : (key, a) ∈ options (owner a))
    (hfree : A.get? key = none) (hkey : key ∉ seen) :
    Augments options owner (owner a) seen A (A.set key a) where
  option k b h := by
    rw [Dict.get?_set] at h
    split at h
    · rename_i hk
      obtain rfl := Option.some.inj h
      rwa [hk]
    · exact hA.option k b h
  agrees k hk := by
    rw [Dict.get?_set, if_neg]
    rintro rfl
    exact hkey hk
  owners k b h := by
    rw [Dict.get?_set] at h
    split at h
    · obtain rfl := Option.some.inj h
      exact Or.inl rfl
    · exact Or.inr ⟨k, b, h, rfl⟩
  conflict k l b c hb hc hbc := by
    rw [Dict.get?_set] at hb hc
    split at hb
    · rename_i hk
      obtain rfl := Option.some.inj hb
      split at hc
      · rename_i hl
        exact Or.inl (hk.trans hl.symm)
      · exact Or.inr ⟨rfl, Or.inr ⟨c, hc, hbc.symm⟩⟩
    · split at hc
      · obtain rfl := Option.some.inj hc
        exact Or.inr ⟨hbc, Or.inl ⟨b, hb, hbc⟩⟩
      · exact Or.inl (hA.injective k l b c hb hc hbc)

/-- A held key is taken once its holder has moved. -/
theorem augments_moved {b : α} (hA : Matched options owner A) (ha : (key, a) ∈ options (owner a))
    (hs : ∀ k, Holds owner A (owner a) k → k ∈ seen) (hb : A.get? key = some b) (hkey : key ∉ seen)
    (hmove : Augments options owner (owner b) (key :: seen) A A') :
    Augments options owner (owner a) seen A (A'.set key a) := by
  have hne : owner a ≠ owner b := fun he => hkey (hs key ⟨b, hb, he.symm⟩)
  -- a key that the subject holds after the move it held before
  have hkept : ∀ l c, A'.get? l = some c → owner c = owner a → Holds owner A (owner a) l := by
    intro l c hc hca
    obtain ⟨k, d, hd, hda⟩ := (hmove.owners l c hc).resolve_left fun he => hne (hca.symm.trans he)
    have hk := hmove.agrees k (List.mem_cons_of_mem _ (hs k ⟨d, hd, hda.trans hca⟩))
    rcases hmove.conflict k l d c (hk.trans hd) hc hda with rfl | ⟨he, -⟩
    · exact ⟨d, hd, hda.trans hca⟩
    · exact absurd ((hca.symm.trans hda.symm).trans he) hne
  refine ⟨fun k c h => ?_, fun k hk => ?_, fun k c h => ?_, fun k l c d hc hd hcd => ?_⟩
  · rw [Dict.get?_set] at h
    split at h
    · rename_i hk
      obtain rfl := Option.some.inj h
      rwa [hk]
    · exact hmove.option k c h
  · rw [Dict.get?_set, if_neg (by rintro rfl; exact hkey hk)]
    exact hmove.agrees k (List.mem_cons_of_mem _ hk)
  · rw [Dict.get?_set] at h
    split at h
    · obtain rfl := Option.some.inj h
      exact Or.inl rfl
    · rcases hmove.owners k c h with he | hold
      · exact Or.inr ⟨key, b, hb, he.symm⟩
      · exact Or.inr hold
  · rw [Dict.get?_set] at hc hd
    split at hc
    · rename_i hk
      obtain rfl := Option.some.inj hc
      split at hd
      · rename_i hl
        exact Or.inl (hk.trans hl.symm)
      · exact Or.inr ⟨rfl, Or.inr (hkept l d hd hcd.symm)⟩
    · rename_i hk
      split at hd
      · obtain rfl := Option.some.inj hd
        exact Or.inr ⟨hcd, Or.inl (hkept k c hc hcd)⟩
      · rename_i hl
        rcases hmove.conflict k l c d hc hd hcd with rfl | ⟨he, hold⟩
        · exact Or.inl rfl
        -- the mover holds its old key only, which is `key`
        · rcases hold with ⟨e, he', heb⟩ | ⟨e, he', heb⟩
          · exact absurd (hA.injective k key e b he' hb heb) hk
          · exact absurd (hA.injective l key e b he' hb heb) hl

/-- What a search does: it fails and moves nothing, or it augments. -/
def Sound (options : σ → List (κ × α)) (owner : α → σ)
    (search : σ → Search κ α → Bool × Search κ α) : Prop :=
  ∀ s seen A, Matched options owner A → (∀ k, Holds owner A s k → k ∈ seen) →
    match search s (seen, A) with
    | (true, _, A') => Augments options owner s seen A A'
    | (false, seen', A') => A' = A ∧ ∀ k ∈ seen, k ∈ seen'

theorem Augments.mono {seen' : List κ} (h : Augments options owner s seen' A A')
    (hseen : ∀ k ∈ seen, k ∈ seen') : Augments options owner s seen A A' :=
  ⟨h.option, fun k hk => h.agrees k (hseen k hk), h.owners, h.conflict⟩

theorem tryKeys_sound {search : σ → Search κ α → Bool × Search κ α}
    (hsearch : Sound options owner search) (hA : Matched options owner A) :
    ∀ {rest : List (κ × α)} {seen : List κ}, (∀ i ∈ rest, i ∈ options s ∧ owner i.2 = s) →
      (∀ k, Holds owner A s k → k ∈ seen) →
      match tryKeys owner search rest (seen, A) with
      | (true, _, A') => Augments options owner s seen A A'
      | (false, seen', A') => A' = A ∧ ∀ k ∈ seen, k ∈ seen' := by
  intro rest
  induction rest with
  | nil => exact fun _ _ => ⟨rfl, fun _ hk => hk⟩
  | cons i rest ih =>
    intro seen hopt hs
    obtain ⟨key, a⟩ := i
    obtain ⟨ha, rfl⟩ := hopt _ List.mem_cons_self
    have hopt' := fun i hi => hopt i (List.mem_cons_of_mem _ hi)
    rw [tryKeys]
    by_cases hkey : key ∈ seen
    · rw [if_pos hkey]
      exact ih hopt' hs
    · rw [if_neg hkey]
      rcases hb : A.get? key with _ | b
      · exact augments_free hA ha hb hkey
      · have hhold : ∀ k, Holds owner A (owner b) k → k ∈ key :: seen := by
          rintro k ⟨c, hc, hcb⟩
          exact List.mem_cons.mpr (Or.inl (hA.injective k key c b hc hb hcb))
        have hmove := hsearch (owner b) (key :: seen) A hA hhold
        rcases hr : search (owner b) (key :: seen, A) with ⟨_ | _, seen', A'⟩
        · rw [hr] at hmove
          obtain ⟨rfl, hsub⟩ := hmove
          have hseen : ∀ k ∈ seen, k ∈ seen' := fun k hk => hsub k (List.mem_cons_of_mem _ hk)
          have hrest := @ih seen' hopt' fun k hk => hseen k (hs k hk)
          simp only [hr]
          rcases htry : tryKeys owner search rest (seen', A') with ⟨_ | _, seen'', A''⟩
          · rw [htry] at hrest
            exact ⟨hrest.1, fun k hk => hrest.2 k (hseen k hk)⟩
          · rw [htry] at hrest
            exact hrest.mono hseen
        · rw [hr] at hmove
          simp only [hr]
          exact augments_moved hA ha hs hb hkey hmove

theorem assign_sound (hown : ∀ s, ∀ i ∈ options s, owner i.2 = s) (fuel : ℕ) :
    Sound options owner (assign options owner fuel) := by
  induction fuel with
  | zero => exact fun _ _ _ _ _ => ⟨rfl, fun _ hk => hk⟩
  | succ fuel ih => exact fun s _ _ hA hs => tryKeys_sound ih hA (fun i hi => ⟨hi, hown s i hi⟩) hs

/-! ### A search that leaves no path untried -/

/-- The number of keys that have not been tried. -/
def untried (keys : Finset κ) (seen : List κ) : ℕ := (keys.filter (· ∉ seen)).card

theorem untried_mono {keys : Finset κ} (h : ∀ k ∈ seen, k ∈ seen') :
    untried keys seen' ≤ untried keys seen :=
  Finset.card_le_card (Finset.monotone_filter_right _ fun k _ hk hmem => hk (h k hmem))

theorem untried_cons {keys : Finset κ} (hk : key ∈ keys) (hseen : key ∉ seen) :
    untried keys (key :: seen) < untried keys seen := by
  refine Finset.card_lt_card (Finset.ssubset_iff_of_subset ?_ |>.mpr ⟨key, ?_, ?_⟩)
  · exact Finset.monotone_filter_right _ fun k _ hk' hmem => hk' (List.mem_cons_of_mem _ hmem)
  · exact Finset.mem_filter.mpr ⟨hk, hseen⟩
  · simp

/-- The key is held, by one who has no option outside `S`. -/
def Blocked (options : σ → List (κ × α)) (owner : α → σ) (A : Dict κ α) (S : Set κ) (k : κ) :
    Prop :=
  ∃ b, A.get? k = some b ∧ ∀ i ∈ options (owner b), i.1 ∈ S

/-- Keys that no path leaves. -/
def Closed (options : σ → List (κ × α)) (owner : α → σ) (A : Dict κ α) (S : Set κ) : Prop :=
  ∀ k ∈ S, Blocked options owner A S k

/-- A successful path: `s` gets a new key, nobody loses all keys, and closed keys stay as they
    are. -/
structure Advances (options : σ → List (κ × α)) (owner : α → σ) (s : σ) (seen : List κ)
    (A A' : Dict κ α) : Prop where
  gains : ∃ k, k ∉ seen ∧ Holds owner A' s k
  keeps : ∀ t k, Holds owner A t k → ∃ l, Holds owner A' t l
  leaves : ∀ S, Closed options owner A S → ∃ i ∈ options s, i.1 ∉ S
  avoids : ∀ S, Closed options owner A S → ∀ k ∈ S, A'.get? k = A.get? k

/-- A failed search: every option was tried, and every new key that was tried is blocked. -/
structure Exhausted (options : σ → List (κ × α)) (owner : α → σ) (A : Dict κ α)
    (rest : List (κ × α)) (seen seen' : List κ) : Prop where
  tried : ∀ i ∈ rest, i.1 ∈ seen'
  blocked : ∀ k ∈ seen', k ∈ seen ∨ Blocked options owner A {l | l ∈ seen'} k

theorem Blocked.mono {S T : Set κ} {k : κ} (h : Blocked options owner A S k) (hST : S ⊆ T) :
    Blocked options owner A T k := by
  obtain ⟨b, hb, hS⟩ := h
  exact ⟨b, hb, fun i hi => hST (hS i hi)⟩

theorem holds_set {t : σ} {k : κ} : Holds owner (A.set key a) t k ↔
    (k = key ∧ owner a = t) ∨ (k ≠ key ∧ Holds owner A t k) := by
  rw [Holds, Dict.get?_set]
  by_cases hk : k = key
  · rw [if_pos hk]
    simp [hk]
  · rw [if_neg hk]
    simp [hk, Holds]

theorem advances_free {i : κ × α} (hi : i ∈ options (owner i.2)) (hfree : A.get? i.1 = none)
    (hseen : i.1 ∉ seen) : Advances options owner (owner i.2) seen A (A.set i.1 i.2) where
  gains := ⟨i.1, hseen, holds_set.mpr (Or.inl ⟨rfl, rfl⟩)⟩
  keeps t k h := by
    obtain ⟨b, hb, hbt⟩ := h
    refine ⟨k, holds_set.mpr (Or.inr ⟨?_, b, hb, hbt⟩)⟩
    rintro rfl
    rw [hfree] at hb
    cases hb
  leaves S hS := by
    refine ⟨i, hi, fun hmem => ?_⟩
    obtain ⟨b, hb, -⟩ := hS i.1 hmem
    rw [hfree] at hb
    cases hb
  avoids S hS k hk := by
    rw [Dict.get?_set, if_neg]
    rintro rfl
    obtain ⟨b, hb, -⟩ := hS _ hk
    rw [hfree] at hb
    cases hb

theorem advances_moved {i : κ × α} {b : α} (hi : i ∈ options (owner i.2))
    (hb : A.get? i.1 = some b) (hseen : i.1 ∉ seen) (hagrees : A'.get? i.1 = A.get? i.1)
    (hmove : Advances options owner (owner b) (i.1 :: seen) A A') :
    Advances options owner (owner i.2) seen A (A'.set i.1 i.2) where
  gains := ⟨i.1, hseen, holds_set.mpr (Or.inl ⟨rfl, rfl⟩)⟩
  keeps t k h := by
    obtain ⟨l, hl⟩ := hmove.keeps t k h
    by_cases hne : l = i.1
    -- the holder of the key has moved to another one
    · subst hne
      obtain ⟨c, hc, rfl⟩ := hl
      rw [hagrees, hb] at hc
      obtain rfl := Option.some.inj hc
      obtain ⟨m, hm, hold⟩ := hmove.gains
      exact ⟨m, holds_set.mpr (Or.inr ⟨fun he => hm (List.mem_cons.mpr (Or.inl he)), hold⟩)⟩
    · exact ⟨l, holds_set.mpr (Or.inr ⟨hne, hl⟩)⟩
  leaves S hS := by
    refine ⟨i, hi, fun hmem => ?_⟩
    obtain ⟨c, hc, hin⟩ := hS i.1 hmem
    obtain rfl := Option.some.inj (hb.symm.trans hc)
    obtain ⟨j, hj, hout⟩ := hmove.leaves S hS
    exact hout (hin j hj)
  avoids S hS k hk := by
    rw [Dict.get?_set, if_neg]
    · exact hmove.avoids S hS k hk
    · rintro rfl
      obtain ⟨c, hc, hin⟩ := hS _ hk
      obtain rfl := Option.some.inj (hb.symm.trans hc)
      obtain ⟨j, hj, hout⟩ := hmove.leaves S hS
      exact hout (hin j hj)

/-- What a search of enough depth does: it advances, or it has tried everything. -/
def Complete (options : σ → List (κ × α)) (owner : α → σ) (keys : Finset κ) (fuel : ℕ)
    (search : σ → Search κ α → Bool × Search κ α) : Prop :=
  ∀ s seen A, Matched options owner A → (∀ k, Holds owner A s k → k ∈ seen) →
    untried keys seen < fuel →
    match search s (seen, A) with
    | (true, _, A') => Advances options owner s seen A A'
    | (false, seen', _) => Exhausted options owner A (options s) seen seen'

theorem Advances.mono (h : Advances options owner s seen' A A') (hseen : ∀ k ∈ seen, k ∈ seen') :
    Advances options owner s seen A A' := by
  obtain ⟨k, hk, hold⟩ := h.gains
  exact ⟨⟨k, fun hmem => hk (hseen k hmem), hold⟩, h.keeps, h.leaves, h.avoids⟩

theorem tryKeys_complete {search : σ → Search κ α → Bool × Search κ α} {keys : Finset κ} {fuel : ℕ}
    (hsound : Sound options owner search) (hsearch : Complete options owner keys fuel search)
    (hkeys : ∀ s, ∀ i ∈ options s, i.1 ∈ keys) (hA : Matched options owner A) :
    ∀ {rest : List (κ × α)} {seen : List κ}, (∀ i ∈ rest, i ∈ options s ∧ owner i.2 = s) →
      (∀ k, Holds owner A s k → k ∈ seen) → untried keys seen < fuel + 1 →
      match tryKeys owner search rest (seen, A) with
      | (true, _, A') => Advances options owner s seen A A'
      | (false, seen', _) => Exhausted options owner A rest seen seen' := by
  intro rest
  induction rest with
  | nil => exact fun _ _ _ => ⟨by simp, fun k hk => Or.inl hk⟩
  | cons i rest ih =>
    intro seen hopt hs hfuel
    obtain ⟨key, a⟩ := i
    obtain ⟨ha, rfl⟩ := hopt _ List.mem_cons_self
    have hopt' := fun i hi => hopt i (List.mem_cons_of_mem _ hi)
    have hgrow := @tryKeys_sound σ κ α _ options owner A (owner a) search hsound hA rest
    rw [tryKeys]
    by_cases hkey : key ∈ seen
    · rw [if_pos hkey]
      have hrest := ih hopt' hs hfuel
      have hsub := hgrow hopt' hs
      rcases htry : tryKeys owner search rest (seen, A) with ⟨_ | _, seen', A'⟩
      · rw [htry] at hrest hsub
        refine ⟨fun i hi => ?_, hrest.blocked⟩
        rcases List.mem_cons.mp hi with rfl | hi
        · exact hsub.2 _ hkey
        · exact hrest.tried i hi
      · rw [htry] at hrest
        exact hrest
    · rw [if_neg hkey]
      rcases hb : A.get? key with _ | b
      · exact advances_free (i := (key, a)) ha hb hkey
      · have hhold : ∀ k, Holds owner A (owner b) k → k ∈ key :: seen := by
          rintro k ⟨c, hc, hcb⟩
          exact List.mem_cons.mpr (Or.inl (hA.injective k key c b hc hb hcb))
        have hmove := hsound (owner b) (key :: seen) A hA hhold
        have hless : untried keys (key :: seen) < untried keys seen :=
          untried_cons (hkeys _ _ ha) hkey
        have hfull := hsearch (owner b) (key :: seen) A hA hhold (by omega)
        rcases hr : search (owner b) (key :: seen, A) with ⟨_ | _, seen', A'⟩
        · rw [hr] at hmove hfull
          obtain ⟨rfl, hsub⟩ := hmove
          have hseen : ∀ k ∈ seen, k ∈ seen' := fun k hk => hsub k (List.mem_cons_of_mem _ hk)
          have hfuel' : untried keys seen' < fuel + 1 := (untried_mono hseen).trans_lt hfuel
          have hs' := fun k hk => hseen k (hs k hk)
          have hrest := @ih seen' hopt' hs' hfuel'
          have hsub' := @hgrow seen' hopt' hs'
          simp only [hr]
          rcases htry : tryKeys owner search rest (seen', A') with ⟨_ | _, seen'', A''⟩
          · rw [htry] at hrest hsub'
            refine ⟨fun i hi => ?_, fun k hk => ?_⟩
            · rcases List.mem_cons.mp hi with rfl | hi
              · exact hsub'.2 _ (hsub _ List.mem_cons_self)
              · exact hrest.tried i hi
            · rcases hrest.blocked k hk with hold | hblock
              · rcases hfull.blocked k hold with hold' | hblock
                · rcases List.mem_cons.mp hold' with rfl | hold'
                  · exact Or.inr ⟨b, hb, fun i hi => hsub'.2 _ (hfull.tried i hi)⟩
                  · exact Or.inl hold'
                · exact Or.inr (hblock.mono hsub'.2)
              · exact Or.inr hblock
          · rw [htry] at hrest
            exact hrest.mono hseen
        · rw [hr] at hmove hfull
          simp only [hr]
          exact advances_moved (i := (key, a)) ha hb hkey
            (hmove.agrees key List.mem_cons_self) hfull

theorem assign_complete {keys : Finset κ} (hown : ∀ s, ∀ i ∈ options s, owner i.2 = s)
    (hkeys : ∀ s, ∀ i ∈ options s, i.1 ∈ keys) (fuel : ℕ) :
    Complete options owner keys fuel (assign options owner fuel) := by
  induction fuel with
  | zero => exact fun _ _ _ _ _ h => absurd h (Nat.not_lt_zero _)
  | succ fuel ih =>
    exact fun s _ _ hA hs hfuel => tryKeys_complete (assign_sound hown fuel) ih hkeys hA
      (fun i hi => ⟨hi, hown s i hi⟩) hs hfuel

/-! ### Every subject -/

/-- The search of one subject that holds no key. -/
theorem assign_matched (hown : ∀ s, ∀ i ∈ options s, owner i.2 = s) (fuel : ℕ)
    (hA : Matched options owner A) (hs : ∀ k, ¬Holds owner A s k) :
    Matched options owner (assign options owner fuel s ([], A)).2.2 ∧
      ∀ t k, Holds owner (assign options owner fuel s ([], A)).2.2 t k →
        t = s ∨ ∃ l, Holds owner A t l := by
  have hstep := assign_sound hown fuel s [] A hA fun k hk => absurd hk (hs k)
  rcases hr : assign options owner fuel s ([], A) with ⟨_ | _, seen', A'⟩
  · rw [hr] at hstep
    obtain ⟨rfl, -⟩ := hstep
    exact ⟨hA, fun t k hold => Or.inr ⟨k, hold⟩⟩
  · rw [hr] at hstep
    refine ⟨⟨hstep.option, fun k l a b ha hb hab => ?_⟩, ?_⟩
    · rcases hstep.conflict k l a b ha hb hab with he | ⟨-, hold | hold⟩
      · exact he
      · exact absurd hold (hs k)
      · exact absurd hold (hs l)
    · rintro t k ⟨a, ha, rfl⟩
      exact hstep.owners k a ha

/-- Different subjects come out of their searches with different keys. -/
theorem assignAll_matched (hown : ∀ s, ∀ i ∈ options s, owner i.2 = s) (fuel : ℕ)
    {subjects : List σ} (hn : subjects.Nodup) :
    Matched options owner (assignAll options owner fuel subjects) := by
  suffices hgen : ∀ (A : Dict κ α), Matched options owner A →
      (∀ s ∈ subjects, ∀ k, ¬Holds owner A s k) → Matched options owner
        (subjects.foldl (fun assigned s => (assign options owner fuel s ([], assigned)).2.2) A) from
    hgen Dict.empty ⟨by simp, by simp⟩ fun s _ k ⟨a, ha, _⟩ => by simp at ha
  induction subjects with
  | nil => exact fun A hA _ => hA
  | cons s subjects ih =>
    intro A hA hfree
    rw [List.nodup_cons] at hn
    obtain ⟨hmatched, howners⟩ := assign_matched hown fuel hA (hfree s List.mem_cons_self)
    rw [List.foldl_cons]
    refine ih hn.2 _ hmatched fun t ht k hold => ?_
    rcases howners t k hold with rfl | ⟨l, hold⟩
    · exact hn.1 ht
    · exact hfree t (List.mem_cons_of_mem _ ht) l hold

/-- Closed keys take all options of the subjects that hold no key: a cover of the options, by
    closed keys and by the holders of the others. -/
structure Covers (options : σ → List (κ × α)) (owner : α → σ) (A : Dict κ α) (subjects : List σ)
    (S : Set κ) : Prop where
  closed : Closed options owner A S
  unmatched : ∀ s ∈ subjects, (∃ k, Holds owner A s k) ∨ ∀ i ∈ options s, i.1 ∈ S

theorem Closed.union {S T : Set κ} (hS : Closed options owner A S) (hT : Closed options owner A T) :
    Closed options owner A (S ∪ T) := by
  rintro k (hk | hk)
  · exact (hS k hk).mono Set.subset_union_left
  · exact (hT k hk).mono Set.subset_union_right

/-- One more search leaves a cover, for one more subject. -/
theorem assign_covers {keys : Finset κ} (hown : ∀ s, ∀ i ∈ options s, owner i.2 = s)
    (hkeys : ∀ s, ∀ i ∈ options s, i.1 ∈ keys) {fuel : ℕ} (hfuel : keys.card < fuel)
    (hA : Matched options owner A) (hs : ∀ k, ¬Holds owner A s k) {subjects : List σ} {S : Set κ}
    (hS : Covers options owner A subjects S) :
    ∃ T, Covers options owner (assign options owner fuel s ([], A)).2.2 (subjects ++ [s]) T := by
  have hfuel' : untried keys [] < fuel := by simpa [untried] using hfuel
  have hfree : ∀ k, Holds owner A s k → k ∈ [] := fun k hk => absurd hk (hs k)
  have hsound := assign_sound hown fuel s [] A hA hfree
  have hfull := assign_complete hown hkeys fuel s [] A hA hfree hfuel'
  rcases hr : assign options owner fuel s ([], A) with ⟨_ | _, seen', A'⟩
  · rw [hr] at hsound hfull
    obtain ⟨rfl, -⟩ := hsound
    have htried : Closed options owner A' {k | k ∈ seen'} := by
      intro k hk
      rcases hfull.blocked k hk with hold | hblock
      · cases hold
      · exact hblock
    refine ⟨S ∪ {k | k ∈ seen'}, hS.closed.union htried, fun t ht => ?_⟩
    rcases List.mem_append.mp ht with ht | ht
    · rcases hS.unmatched t ht with hold | hall
      · exact Or.inl hold
      · exact Or.inr fun i hi => Or.inl (hall i hi)
    · obtain rfl := List.mem_singleton.mp ht
      exact Or.inr fun i hi => Or.inr (hfull.tried i hi)
  · rw [hr] at hfull
    refine ⟨S, fun k hk => ?_, fun t ht => ?_⟩
    · obtain ⟨b, hb, hall⟩ := hS.closed k hk
      exact ⟨b, (hfull.avoids S hS.closed k hk).trans hb, hall⟩
    · rcases List.mem_append.mp ht with ht | ht
      · rcases hS.unmatched t ht with ⟨k, hold⟩ | hall
        · exact Or.inl (hfull.keeps t k hold)
        · exact Or.inr hall
      · obtain rfl := List.mem_singleton.mp ht
        obtain ⟨k, -, hold⟩ := hfull.gains
        exact Or.inl ⟨k, hold⟩

/-- With enough depth, the searches leave a cover. -/
theorem assignAll_covers {keys : Finset κ} (hown : ∀ s, ∀ i ∈ options s, owner i.2 = s)
    (hkeys : ∀ s, ∀ i ∈ options s, i.1 ∈ keys) {fuel : ℕ} (hfuel : keys.card < fuel)
    {subjects : List σ} (hn : subjects.Nodup) :
    ∃ S, Covers options owner (assignAll options owner fuel subjects) subjects S := by
  suffices hgen : ∀ (before : List σ) (A : Dict κ α) (S : Set κ), Matched options owner A →
      (∀ s ∈ subjects, ∀ k, ¬Holds owner A s k) → Covers options owner A before S →
      ∃ T, Covers options owner
        (subjects.foldl (fun assigned s => (assign options owner fuel s ([], assigned)).2.2) A)
        (before ++ subjects) T from
    hgen [] Dict.empty ∅ ⟨by simp, by simp⟩ (fun s _ k ⟨a, ha, _⟩ => by simp at ha)
      ⟨fun k hk => absurd hk (Set.notMem_empty k), by simp⟩
  induction subjects with
  | nil =>
    intro before A S _ _ hS
    exact ⟨S, by simpa using hS⟩
  | cons s subjects ih =>
    intro before A S hA hfree hS
    rw [List.nodup_cons] at hn
    have hs := hfree s List.mem_cons_self
    obtain ⟨hmatched, howners⟩ := assign_matched hown fuel hA hs
    obtain ⟨T, hT⟩ := assign_covers hown hkeys hfuel hA hs hS
    rw [List.foldl_cons]
    have hrest := ih hn.2 (before ++ [s]) _ T hmatched (fun t ht k hold => ?_) hT
    · simpa using hrest
    · rcases howners t k hold with rfl | ⟨l, hold⟩
      · exact hn.1 ht
      · exact hfree t (List.mem_cons_of_mem _ ht) l hold

/-- No matching is larger than one that leaves a cover. -/
theorem Covers.length_le {subjects : List σ} {S : Set κ} (hS : Covers options owner A subjects S)
    {M : List (σ × κ)} (hsubjects : (M.map Prod.fst).Nodup) (hkeys : (M.map Prod.snd).Nodup)
    (hM : ∀ e ∈ M, e.1 ∈ subjects ∧ ∃ i ∈ options e.1, i.1 = e.2) : M.length ≤ A.size := by
  classical
  rcases M.eq_nil_or_concat' with rfl | ⟨_, e₀, -⟩
  · exact Nat.zero_le _
  have : Nonempty κ := ⟨e₀.2⟩
  -- an edge is counted at its key when that is closed, and else at the key its subject holds
  have hcount : ∀ e ∈ M, ∃ k, (∃ a, A.get? k = some a) ∧
      (e.2 ∈ S ∧ k = e.2 ∨ e.2 ∉ S ∧ k ∉ S ∧ Holds owner A e.1 k) := by
    intro e he
    obtain ⟨hsub, i, hi, hik⟩ := hM e he
    by_cases hmem : e.2 ∈ S
    · obtain ⟨b, hb, -⟩ := hS.closed e.2 hmem
      exact ⟨e.2, ⟨b, hb⟩, Or.inl ⟨hmem, rfl⟩⟩
    · rcases hS.unmatched e.1 hsub with ⟨k, a, ha, hae⟩ | hall
      · refine ⟨k, ⟨a, ha⟩, Or.inr ⟨hmem, fun hk => hmem ?_, a, ha, hae⟩⟩
        obtain ⟨b, hb, hin⟩ := hS.closed k hk
        obtain rfl := Option.some.inj (ha.symm.trans hb)
        rw [hae] at hin
        exact hik ▸ hin i hi
      · exact absurd (hik ▸ hall i hi) hmem
  choose! f hheld hf using hcount
  have hinj : ∀ e ∈ M, ∀ g ∈ M, f e = f g → e = g := by
    intro e he g hg heq
    rcases hf e he with ⟨heS, hek⟩ | ⟨-, hekS, a, ha, hae⟩
    · rcases hf g hg with ⟨-, hgk⟩ | ⟨-, hgkS, -⟩
      · exact List.inj_on_of_nodup_map hkeys he hg (hek.symm.trans (heq.trans hgk))
      · exact absurd (heq ▸ hek ▸ heS) hgkS
    · rcases hf g hg with ⟨hgS, hgk⟩ | ⟨-, -, b, hb, hbg⟩
      · exact absurd (heq ▸ hgk ▸ hgS) hekS
      · rw [heq, hb] at ha
        obtain rfl := Option.some.inj ha
        exact List.inj_on_of_nodup_map hsubjects he hg (hae.symm.trans hbg)
  have hnodup : (M.map f).Nodup := List.Nodup.map_on hinj (List.Nodup.of_map _ hkeys)
  have hsubset : M.map f ⊆ A.items.map Prod.fst := by
    intro k hk
    obtain ⟨e, he, rfl⟩ := List.mem_map.mp hk
    obtain ⟨a, ha⟩ := hheld e he
    exact Dict.mem_keys.mpr (by rw [ha]; rfl)
  have hle := (List.subperm_of_subset hnodup hsubset).length_le
  rwa [List.length_map, List.length_map] at hle

end Path

end Matching
