import Mathlib
import Angerona.Lib.Overlay
import Angerona.Policies.DryRun

/-!
    What an effective policy settles on, over whole runs of a manager.

    The resolution goes through the layers once and keeps values, sources and locks. Seen at one key
    it is the overlay of layers that lock only what they set, so the layer that governs a key is the
    highest one that locks it, or else the lowest one that sets it. -/

namespace Angerona.Policies
open Binary64 Text PyJson Response Raising Transition Overlay

/-- The place of a layer in `order`. -/
def PolicyLayer.rank : PolicyLayer → ℕ
  | .fleet => 0
  | .group => 1
  | .local => 2

/-- A bundle sets a key to a value. -/
def PolicyBundle.Sets (b : PolicyBundle) (key : Str) (v : Value) : Prop :=
  ∃ row ∈ b.settings, row.key = key ∧ row.value = v

def setsKey (key : Str) (b : PolicyBundle) : Bool := (b.settings.map Row.key).contains key

def locksKey (key : Str) (b : PolicyBundle) : Bool := b.lockedKeys.contains key

theorem setsKey_of_locksKey (key : Str) (b : PolicyBundle) (h : locksKey key b = true) :
    setsKey key b = true := by
  rw [locksKey, List.contains_iff_mem] at h
  rw [setsKey, List.contains_iff_mem]
  exact b.locked.2 key h

theorem sets_iff {key : Str} {b : PolicyBundle} : setsKey key b = true ↔ ∃ v, b.Sets key v := by
  rw [setsKey, List.contains_iff_mem, List.mem_map]
  constructor
  · rintro ⟨row, hrow, hkey⟩
    exact ⟨row.value, row, hrow, hkey, rfl⟩
  · rintro ⟨v, row, hrow, hkey, -⟩
    exact ⟨row, hrow, hkey⟩

/-- A bundle sets each key to one value. -/
theorem Sets_unique {b : PolicyBundle} {key : Str} {v w : Value} (hv : b.Sets key v)
    (hw : b.Sets key w) : v = w := by
  obtain ⟨row, hrow, hkey, rfl⟩ := hv
  obtain ⟨row', hrow', hkey', rfl⟩ := hw
  rw [List.inj_on_of_nodup_map b.keys.2.1 hrow hrow' (hkey.trans hkey'.symm)]

theorem mem_sorted {b : PolicyBundle} {settings : List (Str × Value)} (h : b.sorted = .ok settings)
    {key : Str} {v : Value} : (key, v) ∈ settings ↔ b.Sets key v := by
  rw [PolicyBundle.sorted] at h
  split at h
  · cases h
  · rw [← Except.ok.inj h, List.mem_insertionSort, List.mem_map, PolicyBundle.Sets]
    simp only [Prod.mk.injEq]

/-! ### One layer -/

/-- The settings of a bundle whose key is not locked are written. -/
theorem foldl_apply (bundleId : Str) : ∀ (items : List (Str × Value)) (w : Resolution),
    (items.foldl (Resolution.apply bundleId) w).locked = w.locked ∧
      (items.foldl (Resolution.apply bundleId) w).values =
        w.values.update (items.filter fun i => !w.locked.contains i.1) ∧
      (items.foldl (Resolution.apply bundleId) w).sources =
        w.sources.update ((items.filter fun i => !w.locked.contains i.1).map fun i => (i.1, bundleId))
  | [], w => ⟨rfl, rfl, rfl⟩
  | item :: items, w => by
    obtain ⟨hlocked, hvalues, hsources⟩ := foldl_apply bundleId items (w.apply bundleId item)
    rw [List.foldl_cons, hlocked, hvalues, hsources]
    rcases hitem : w.locked.contains item.1 with _ | _
    · have happly : (w.apply bundleId item).locked = w.locked ∧
          (w.apply bundleId item).values = w.values.set item.1 item.2 ∧
          (w.apply bundleId item).sources = w.sources.set item.1 bundleId := by
        rw [Resolution.apply, if_neg (by rw [hitem]; decide)]
        exact ⟨rfl, rfl, rfl⟩
      rw [happly.1, happly.2.1, happly.2.2, List.filter_cons_of_pos (by rw [hitem]; rfl)]
      exact ⟨rfl, rfl, rfl⟩
    · have happly : (w.apply bundleId item).locked = w.locked ∧
          (w.apply bundleId item).values = w.values ∧
          (w.apply bundleId item).sources = w.sources := by
        rw [Resolution.apply, if_pos hitem]
        exact ⟨rfl, rfl, rfl⟩
      rw [happly.1, happly.2.1, happly.2.2, List.filter_cons_of_neg (by rw [hitem]; decide)]
      exact ⟨rfl, rfl, rfl⟩

/-- What the layers so far made of a key. -/
def pick (key : Str) (bs : List PolicyBundle) : Option PolicyBundle × Bool :=
  bs.foldl (lay (setsKey key) (locksKey key)) (none, false)

/-- A resolution that shows what some layers settle on. -/
structure Settled (w : Resolution) (bs : List PolicyBundle) : Prop where
  values : ∀ key v, w.values.get? key = some v ↔ ∃ b, (pick key bs).1 = some b ∧ b.Sets key v
  sources : ∀ key, w.sources.get? key = (pick key bs).1.map PolicyBundle.bundleId
  locked : ∀ key, w.locked.contains key = (pick key bs).2

theorem settled_new : Settled Resolution.new [] where
  values key v := by
    refine iff_of_false (fun h => by cases h) ?_
    rintro ⟨b, hb, -⟩
    cases hb
  sources _ := rfl
  locked _ := rfl

theorem settled_layer {w w' : Resolution} {bs : List PolicyBundle} {b : PolicyBundle}
    (hw : Settled w bs) (h : w.layer (some b) = .ok w') : Settled w' (bs ++ [b]) := by
  obtain ⟨settings, hsettings, h⟩ := bind_ok.mp h
  obtain rfl := Except.ok.inj h
  obtain ⟨hlocked, hvalues, hsources⟩ :=
    foldl_apply b.bundleId settings { w with used := w.used ++ [b.bundleId] }
  have hpick : ∀ key, pick key (bs ++ [b]) =
      lay (setsKey key) (locksKey key) (pick key bs) b := fun key => by
    rw [pick, List.foldl_append, List.foldl_cons, List.foldl_nil, ← pick]
  -- what the settings that are not locked give a key
  have hlast : ∀ {γ : Type} (f : Str × Value → γ) (key : Str),
      Dict.last key ((settings.filter fun i => !w.locked.contains i.1).map fun i => (i.1, f i)) =
        none ∧ ((pick key bs).2 = true ∨ setsKey key b = false) ∨
      (∃ v, b.Sets key v ∧ Dict.last key ((settings.filter fun i =>
        !w.locked.contains i.1).map fun i => (i.1, f i)) = some (f (key, v))) ∧
          (pick key bs).2 = false ∧ setsKey key b = true := by
    intro γ f key
    rcases hl : Dict.last key ((settings.filter fun i => !w.locked.contains i.1).map
      fun i => (i.1, f i)) with _ | x
    · refine Or.inl ⟨hl, ?_⟩
      by_contra hno
      obtain ⟨hfree, hset⟩ := not_or.mp hno
      obtain ⟨v, hv⟩ := sets_iff.mp (Bool.not_eq_false _ ▸ hset)
      have hmem : (key, f (key, v)) ∈ (settings.filter fun i => !w.locked.contains i.1).map
          fun i => (i.1, f i) := by
        refine List.mem_map.mpr ⟨(key, v), List.mem_filter.mpr ⟨(mem_sorted hsettings).mpr hv, ?_⟩, rfl⟩
        rw [hw.locked key]
        simpa using hfree
      obtain ⟨y, hy⟩ := Dict.last_isSome hmem
      rw [hl] at hy
      cases hy
    · refine Or.inr ?_
      obtain ⟨i, hi, hix⟩ := List.mem_map.mp (Dict.mem_of_last hl)
      obtain ⟨hi, hfree⟩ := List.mem_filter.mp hi
      obtain ⟨rfl, rfl⟩ := Prod.mk.inj hix
      have hset := (mem_sorted hsettings).mp (show (i.1, i.2) ∈ settings from hi)
      rw [hw.locked i.1] at hfree
      exact ⟨⟨i.2, hset, hl⟩, by simpa using hfree, sets_iff.mpr ⟨i.2, hset⟩⟩
  refine ⟨fun key v => ?_, fun key => ?_, fun key => ?_⟩
  · have hid : (settings.filter fun i => !w.locked.contains i.1).map (fun i => (i.1, i.2)) =
        settings.filter fun i => !w.locked.contains i.1 := List.map_id' _
    dsimp only
    rw [hvalues, Dict.get?_update, ← hid, hpick, lay]
    rcases hlast Prod.snd key with ⟨hnone, hstays⟩ | ⟨⟨u, hu, hsome⟩, hfree, hset⟩
    · rw [hnone, Option.none_or, hw.values]
      rcases hstays with hstays | hstays
      · rw [hstays]
        rfl
      · rw [hstays, Bool.and_false]
        rfl
    · rw [hsome, hfree, hset]
      constructor
      · intro hv
        exact ⟨b, rfl, Option.some.inj hv ▸ hu⟩
      · rintro ⟨b', hb', hv⟩
        obtain rfl := Option.some.inj hb'
        rw [Sets_unique hv hu]
        rfl
  · dsimp only
    rw [hsources, Dict.get?_update, hpick, lay]
    rcases hlast (fun _ => b.bundleId) key with ⟨hnone, hstays⟩ | ⟨⟨u, hu, hsome⟩, hfree, hset⟩
    · rw [hnone, Option.none_or, hw.sources]
      rcases hstays with hstays | hstays
      · rw [hstays]
        rfl
      · rw [hstays, Bool.and_false]
        rfl
    · rw [hsome, hfree, hset]
      rfl
  · dsimp only
    rw [hlocked, hpick, lay, ← hw.locked, locksKey, Bool.eq_iff_iff]
    simp

/-- The layers in their order. -/
theorem settled_layers (look : PolicyLayer → Option PolicyBundle) : ∀ (ls : List PolicyLayer)
    {w w' : Resolution} {bs : List PolicyBundle}, Settled w bs →
    ls.foldlM (fun w l => w.layer (look l)) w = .ok w' → Settled w' (bs ++ ls.filterMap look)
  | [], w, w', bs, hw, h => by
    rw [← Except.ok.inj h, List.filterMap_nil, List.append_nil]
    exact hw
  | l :: ls, w, w', bs, hw, h => by
    rw [List.foldlM_cons] at h
    obtain ⟨v, hv, h⟩ := bind_ok.mp h
    rcases hl : look l with _ | b
    · rw [hl] at hv
      rw [List.filterMap_cons_none hl]
      exact settled_layers look ls (Except.ok.inj hv ▸ hw) h
    · rw [hl] at hv
      rw [List.filterMap_cons_some hl, List.append_cons]
      exact settled_layers look ls (settled_layer hw hv) h

/-! ### Who governs a key -/

section Governs

variable (m : Machine) (manager : PolicyManager) (c : Channel) (now : PyFloat)

/-- The stored bundle of a layer, which has not expired and still verifies. -/
structure Live (l : PolicyLayer) (b : PolicyBundle) : Prop where
  stored : manager.good.get? (c, l) = some b
  unexpired : PolicyManager.unexpired b now = true
  verified : (verifyBundle m manager.trust b now).1 = true

/-- The highest layer that locks a key governs it, or else the lowest one that sets it. -/
def Governs (key : Str) (l : PolicyLayer) (b : PolicyBundle) : Prop :=
  Live m manager c now l b ∧
    (key ∈ b.lockedKeys ∧
        (∀ l' b', Live m manager c now l' b' → l'.rank < l.rank → key ∉ b'.lockedKeys) ∨
      key ∈ b.settings.map Row.key ∧ (∀ l' b', Live m manager c now l' b' → key ∉ b'.lockedKeys) ∧
        ∀ l' b', Live m manager c now l' b' → l.rank < l'.rank → key ∉ b'.settings.map Row.key)

variable {m manager c now}

theorem liveChoice_iff (hkeyed : Keyed manager.good) {l : PolicyLayer} {b : PolicyBundle} :
    liveChoice m manager c now l = some b ↔ Live m manager c now l b := by
  rw [liveChoice, chosen_stored hkeyed, decide_eq_true_iff]
  constructor
  · rintro ⟨hget, -, hunexpired, hverified⟩
    exact ⟨hget, hunexpired, hverified⟩
  · rintro ⟨hget, hunexpired, hverified⟩
    exact ⟨hget, (Prod.mk.inj (hkeyed _ _ hget)).1.symm, hunexpired, hverified⟩

/-- The overlay of the live bundles picks the one that governs. -/
theorem pick_iff (hkeyed : Keyed manager.good) (key : Str) (b : PolicyBundle) :
    (pick key (order.filterMap (liveChoice m manager c now))).1 = some b ↔
      ∃ l, Governs m manager c now key l b := by
  have hdown : order.Pairwise fun l l' => l.rank < l'.rank := by decide
  have hup : order.reverse.Pairwise fun l l' => l'.rank < l.rank := by decide
  have hlock := find?_filterMap_iff _ (liveChoice m manager c now) (locksKey key)
    (fun h h' => absurd h (by omega)) hdown
  have hset := find?_filterMap_iff _ (liveChoice m manager c now) (setsKey key)
    (fun h h' => absurd h (by omega)) hup
  have hnolock : (order.filterMap (liveChoice m manager c now)).find? (locksKey key) = none ↔
      ∀ l' b', Live m manager c now l' b' → key ∉ b'.lockedKeys := by
    rw [List.find?_eq_none]
    constructor
    · intro h l' b' hlive
      have hmem := List.mem_filterMap.mpr ⟨l', mem_order l', (liveChoice_iff hkeyed).mpr hlive⟩
      simpa [locksKey] using h b' hmem
    · intro h b' hb'
      obtain ⟨l', -, hl'⟩ := List.mem_filterMap.mp hb'
      simpa [locksKey] using h l' b' ((liveChoice_iff hkeyed).mp hl')
  rw [pick, foldl_lay _ _ (setsKey_of_locksKey key), winner, Option.or_eq_some_iff, hnolock,
    ← List.filterMap_reverse, hlock, hset]
  constructor
  · rintro (⟨l, -, hl, hb, hbefore⟩ | ⟨hno, l, -, hl, hb, hafter⟩)
    · refine ⟨l, (liveChoice_iff hkeyed).mp hl, Or.inl ⟨by simpa [locksKey] using hb, ?_⟩⟩
      intro l' b' hlive hlt
      simpa [locksKey] using hbefore l' (mem_order l') hlt b' ((liveChoice_iff hkeyed).mpr hlive)
    · refine ⟨l, (liveChoice_iff hkeyed).mp hl, Or.inr ⟨List.contains_iff_mem.mp hb, hno, ?_⟩⟩
      intro l' b' hlive hlt hmem
      have hsets := hafter l' (List.mem_reverse.mpr (mem_order l')) hlt b'
        ((liveChoice_iff hkeyed).mpr hlive)
      rw [setsKey, List.contains_iff_mem.mpr hmem] at hsets
      cases hsets
  · rintro ⟨l, hlive, ⟨hb, hbefore⟩ | ⟨hb, hno, hafter⟩⟩
    · refine Or.inl ⟨l, mem_order l, (liveChoice_iff hkeyed).mpr hlive, by simpa [locksKey] using hb, ?_⟩
      intro l' _ hlt b' hl'
      simpa [locksKey] using hbefore l' b' ((liveChoice_iff hkeyed).mp hl') hlt
    · refine Or.inr ⟨hno, l, List.mem_reverse.mpr (mem_order l), (liveChoice_iff hkeyed).mpr hlive,
        List.contains_iff_mem.mpr hb, ?_⟩
      intro l' _ hlt b' hl'
      rw [setsKey, Bool.eq_false_iff]
      exact fun h => hafter l' b' ((liveChoice_iff hkeyed).mp hl') hlt (List.contains_iff_mem.mp h)

/-- CORRECT: the effective policy of a manager that any submissions have reached. It resolves
    unless a live bundle mixes lists and tuples in its settings; then a key has the value and the
    source of the bundle that governs it, the highest live layer that locks the key or else the
    lowest that sets it, so that no layer ever overrides what a higher one has locked. -/
theorem effective_layers {trust : Trust} {ls : List (PolicyBundle × PyFloat)}
    (hrun : Run (Step m) (.new trust) ls manager) (c : Channel) (now : PyFloat) :
    ((∃ p, manager.effective m c now = .ok p) ↔ ∀ l b, Live m manager c now l b → ¬b.mixed) ∧
      ∀ p, manager.effective m c now = .ok p →
        (p.settings.map Prod.fst).Nodup ∧
        (∀ key v, (key, v) ∈ p.settings ↔ ∃ l b, Governs m manager c now key l b ∧ b.Sets key v) ∧
        (∀ key id, (key, id) ∈ p.sources ↔
          ∃ l b, Governs m manager c now key l b ∧ b.bundleId = id) ∧
        ∀ key, key ∈ p.lockedKeys ↔ ∃ l b, Live m manager c now l b ∧ key ∈ b.lockedKeys := by
  have hkeyed := run_keyed hrun
  obtain ⟨hok, -⟩ := resolved_spec (liveChoice m manager c now) c
  rw [PolicyManager.effective_eq]
  refine ⟨?_, fun p hp => ?_⟩
  · rw [← show (∀ l, ∀ b ∈ liveChoice m manager c now l, ¬b.mixed) ↔ _ from
      forall_congr' fun l => forall_congr' fun b => by rw [Option.mem_def, liveChoice_iff hkeyed],
      ← hok]
    constructor
    · rintro ⟨p, hp⟩
      obtain ⟨⟨p', diffs⟩, hr, -⟩ := map_ok.mp hp
      exact ⟨p', diffs, hr⟩
    · rintro ⟨p, diffs, hr⟩
      exact ⟨p, map_ok.mpr ⟨_, hr, rfl⟩⟩
  · obtain ⟨⟨p', diffs⟩, hr, rfl⟩ := map_ok.mp hp
    obtain ⟨w, hw, h⟩ := bind_ok.mp hr
    obtain ⟨hp', -⟩ := Prod.mk.inj (Except.ok.inj h)
    have hsettled := settled_layers (liveChoice m manager c now) order settled_new hw
    rw [List.nil_append] at hsettled
    dsimp only
    rw [← hp', Resolution.effective]
    dsimp only
    refine ⟨?_, fun key v => ?_, fun key id => ?_, fun key => ?_⟩
    · exact ((List.perm_insertionSort textLe w.values.items).map Prod.fst).nodup_iff.mpr w.values.nodup
    · rw [List.mem_insertionSort, Dict.mem_items, hsettled.values]
      constructor
      · rintro ⟨b, hb, hv⟩
        obtain ⟨l, hl⟩ := (pick_iff hkeyed key b).mp hb
        exact ⟨l, b, hl, hv⟩
      · rintro ⟨l, b, hl, hv⟩
        exact ⟨b, (pick_iff hkeyed key b).mpr ⟨l, hl⟩, hv⟩
    · rw [List.mem_insertionSort, Dict.mem_items, hsettled.sources, Option.map_eq_some_iff]
      constructor
      · rintro ⟨b, hb, hid⟩
        obtain ⟨l, hl⟩ := (pick_iff hkeyed key b).mp hb
        exact ⟨l, b, hl, hid⟩
      · rintro ⟨l, b, hl, hid⟩
        exact ⟨b, (pick_iff hkeyed key b).mpr ⟨l, hl⟩, hid⟩
    · rw [List.mem_insertionSort, List.mem_eraseDups, ← List.contains_iff_mem, hsettled.locked, pick,
        foldl_lay _ _ (setsKey_of_locksKey key), List.any_eq_true]
      constructor
      · rintro ⟨b, hb, hlock⟩
        obtain ⟨l, -, hl⟩ := List.mem_filterMap.mp hb
        exact ⟨l, b, (liveChoice_iff hkeyed).mp hl, by simpa [locksKey] using hlock⟩
      · rintro ⟨l, b, hl, hlock⟩
        exact ⟨b, List.mem_filterMap.mpr ⟨l, mem_order l, (liveChoice_iff hkeyed).mpr hl⟩,
          by simpa [locksKey] using hlock⟩

/-- Both bundles of the sample before the fleet bundle expires: the local one sets the key that the
    fleet bundle locks. -/
theorem effective_layers_locked :
    let manager := (sampleManager.submit sampleMachine localBundle (.finite .zero)).1
    ∃ p, manager.effective sampleMachine .configuration (.finite .zero) = .ok p ∧
      (p.sources, p.lockedKeys, p.bundleIds) = ([("k".toList, "fleet-1".toList)], ["k".toList],
        ["fleet-1".toList, "local-1".toList]) ∧
      (∀ key v, (key, v) ∈ p.settings ↔
        ∃ l b, Governs sampleMachine manager .configuration (.finite .zero) key l b ∧
          b.Sets key v) ∧
      ∀ key id, (key, id) ∈ p.sources ↔
        ∃ l b, Governs sampleMachine manager .configuration (.finite .zero) key l b ∧
          b.bundleId = id := by
  intro manager
  have hrun : Run (Step sampleMachine) (.new sampleTrust)
      ([(fleetBundle, .finite .zero)] ++ [(localBundle, .finite .zero)]) manager :=
    sampleRun.snoc rfl
  have hresolved : (manager.effective sampleMachine .configuration (.finite .zero)).map
      (fun p => (p.sources, p.lockedKeys, p.bundleIds)) = .ok ([("k".toList, "fleet-1".toList)],
        ["k".toList], ["fleet-1".toList, "local-1".toList]) := by decide +kernel
  obtain ⟨p, hp, hshown⟩ := map_ok.mp hresolved
  have hlayers := (effective_layers hrun .configuration (.finite .zero)).2 p hp
  exact ⟨p, hp, hshown, hlayers.2.1, hlayers.2.2.1⟩

end Governs

/-! ### The order of the submissions -/

section Newest

variable {m : Machine} {trust : Trust}

/-- What a run has stored under a key: one of its verified submissions, with the greatest version. -/
structure Newest (m : Machine) (trust : Trust) (ls : List (PolicyBundle × PyFloat))
    (manager : PolicyManager) : Prop where
  trusts : manager.trust = trust
  submitted : ∀ k x, manager.good.get? k = some x →
    ∃ now, (x, now) ∈ ls ∧ (verifyBundle m trust x now).1 = true
  newest : ∀ a ∈ ls, (verifyBundle m trust a.1 a.2).1 = true →
    ∃ x, manager.good.get? (a.1.channel, a.1.layer) = some x ∧ a.1.version ≤ x.version

theorem submit_spec (manager : PolicyManager) (b : PolicyBundle) (now : PyFloat) :
    (verifyBundle m manager.trust b now).1 = false ∧ (manager.submit m b now).1 = manager ∨
      (verifyBundle m manager.trust b now).1 = true ∧
        ((∃ x, manager.good.get? (b.channel, b.layer) = some x ∧ b.version ≤ x.version ∧
            (manager.submit m b now).1 = manager) ∨
          (manager.submit m b now).1 =
            { manager with good := manager.good.set (b.channel, b.layer) b } ∧
              ∀ x, manager.good.get? (b.channel, b.layer) = some x → x.version < b.version) := by
  rw [PolicyManager.submit]
  split
  · rename_i h
    exact Or.inl ⟨by rw [h], rfl⟩
  · rename_i h
    refine Or.inr ⟨by rw [h], ?_⟩
    split
    · rename_i current hcurrent
      split
      · rename_i hle
        exact Or.inl ⟨current, hcurrent, hle, rfl⟩
      · rename_i hlt
        refine Or.inr ⟨rfl, fun x hx => ?_⟩
        rw [hcurrent] at hx
        rw [← Option.some.inj hx]
        omega
    · rename_i hnone
      refine Or.inr ⟨rfl, fun x hx => ?_⟩
      rw [hnone] at hx
      cases hx

theorem newest_step {ls : List (PolicyBundle × PyFloat)} {manager : PolicyManager}
    (h : Newest m trust ls manager) (b : PolicyBundle) (now : PyFloat) :
    Newest m trust (ls ++ [(b, now)]) (manager.submit m b now).1 := by
  have hspec := submit_spec (m := m) manager b now
  rw [h.trusts] at hspec
  have hkeep : ∀ k x, manager.good.get? k = some x →
      ∃ t, (x, t) ∈ ls ++ [(b, now)] ∧ (verifyBundle m trust x t).1 = true := by
    intro k x hx
    obtain ⟨t, ht, hv⟩ := h.submitted k x hx
    exact ⟨t, List.mem_append_left _ ht, hv⟩
  rcases hspec with ⟨hv, hsame⟩ | ⟨hv, ⟨x, hx, hle, hsame⟩ | ⟨hset, hnewer⟩⟩
  · rw [hsame]
    refine ⟨h.trusts, hkeep, fun a ha hva => ?_⟩
    rcases List.mem_append.mp ha with ha | ha
    · exact h.newest a ha hva
    · rw [List.mem_singleton.mp ha, hv] at hva
      cases hva
  · rw [hsame]
    refine ⟨h.trusts, hkeep, fun a ha hva => ?_⟩
    rcases List.mem_append.mp ha with ha | ha
    · exact h.newest a ha hva
    · rw [List.mem_singleton.mp ha]
      exact ⟨x, hx, hle⟩
  · rw [hset]
    refine ⟨rfl, fun k y hy => ?_, fun a ha hva => ?_⟩
    · rw [Dict.get?_set] at hy
      split at hy
      · rw [← Option.some.inj hy]
        exact ⟨now, List.mem_append_right _ List.mem_cons_self, hv⟩
      · exact hkeep k y hy
    · rw [Dict.get?_set]
      rcases List.mem_append.mp ha with ha | ha
      · obtain ⟨y, hy, hle⟩ := h.newest a ha hva
        split
        · rename_i hk
          rw [hk] at hy
          exact ⟨b, rfl, hle.trans (hnewer y hy).le⟩
        · exact ⟨y, hy, hle⟩
      · rw [List.mem_singleton.mp ha, if_pos rfl]
        exact ⟨b, rfl, le_rfl⟩

theorem run_newest {ls : List (PolicyBundle × PyFloat)} {manager : PolicyManager}
    (hrun : Run (Step m) (.new trust) ls manager) : Newest m trust ls manager := by
  induction hrun with
  | nil =>
    exact ⟨rfl, fun k x hx => (by cases hx), fun a ha => (by cases ha)⟩
  | snoc hrun hstep ih =>
    rw [← hstep]
    exact newest_step ih _ _

/-- What two runs of the same submissions store under a key. -/
theorem stored_perm {ls ls' : List (PolicyBundle × PyFloat)} {manager manager' : PolicyManager}
    (h : Newest m trust ls manager) (h' : Newest m trust ls' manager') (hperm : ls.Perm ls')
    (hkeyed : Keyed manager.good) (hkeyed' : Keyed manager'.good)
    (hone : ∀ a ∈ ls, ∀ a' ∈ ls, (verifyBundle m trust a.1 a.2).1 = true →
      (verifyBundle m trust a'.1 a'.2).1 = true → a.1.channel = a'.1.channel →
        a.1.layer = a'.1.layer → a.1.version = a'.1.version → a.1 = a'.1)
    {k : Channel × PolicyLayer} {x : PolicyBundle} (hx : manager.good.get? k = some x) :
    manager'.good.get? k = some x := by
  obtain ⟨t, ht, hv⟩ := h.submitted k x hx
  have hk := hkeyed k x hx
  obtain ⟨y, hy, hxy⟩ := h'.newest (x, t) (hperm.mem_iff.mp ht) hv
  obtain ⟨t', ht', hv'⟩ := h'.submitted _ y hy
  obtain ⟨hc, hl⟩ := Prod.mk.inj (hkeyed' _ y hy)
  obtain ⟨z, hz, hyz⟩ := h.newest (y, t') (hperm.mem_iff.mpr ht') hv'
  dsimp only at hc hl hz hyz hxy hy
  rw [← hc, ← hl, ← hk, hx] at hz
  rw [← Option.some.inj hz] at hyz
  have hsame := hone (x, t) ht (y, t') (hperm.mem_iff.mpr ht') hv hv' hc hl (le_antisymm hxy hyz)
  dsimp only at hsame
  rw [hk, hy, hsame]

/-- CORRECT: a manager does not depend on the order in which bundles reach it. Two runs of the same
    submissions in any two orders give the same effective policy for every channel at every time,
    when no two different verified bundles share channel, layer and version. -/
theorem effective_perm {ls ls' : List (PolicyBundle × PyFloat)} {manager manager' : PolicyManager}
    (hrun : Run (Step m) (.new trust) ls manager) (hrun' : Run (Step m) (.new trust) ls' manager')
    (hperm : ls.Perm ls')
    (hone : ∀ a ∈ ls, ∀ a' ∈ ls, (verifyBundle m trust a.1 a.2).1 = true →
      (verifyBundle m trust a'.1 a'.2).1 = true → a.1.channel = a'.1.channel →
        a.1.layer = a'.1.layer → a.1.version = a'.1.version → a.1 = a'.1)
    (c : Channel) (now : PyFloat) : manager.effective m c now = manager'.effective m c now := by
  have h := run_newest hrun
  have h' := run_newest hrun'
  have hkeyed := run_keyed hrun
  have hkeyed' := run_keyed hrun'
  have hone' : ∀ a ∈ ls', ∀ a' ∈ ls', (verifyBundle m trust a.1 a.2).1 = true →
      (verifyBundle m trust a'.1 a'.2).1 = true → a.1.channel = a'.1.channel →
        a.1.layer = a'.1.layer → a.1.version = a'.1.version → a.1 = a'.1 :=
    fun a ha a' ha' => hone a (hperm.mem_iff.mpr ha) a' (hperm.mem_iff.mpr ha')
  have hsame : liveChoice m manager c now = liveChoice m manager' c now := by
    funext l
    refine Option.ext fun x => ?_
    rw [liveChoice_iff hkeyed, liveChoice_iff hkeyed']
    constructor
    · rintro ⟨hstored, hunexpired, hverified⟩
      rw [h.trusts, ← h'.trusts] at hverified
      exact ⟨stored_perm h h' hperm hkeyed hkeyed' hone hstored, hunexpired, hverified⟩
    · rintro ⟨hstored, hunexpired, hverified⟩
      rw [h'.trusts, ← h.trusts] at hverified
      exact ⟨stored_perm h' h hperm.symm hkeyed' hkeyed hone' hstored, hunexpired, hverified⟩
  rw [PolicyManager.effective_eq, PolicyManager.effective_eq, hsame]

/-- The two bundles of the sample, in both orders. -/
theorem effective_perm_sample :
    ((sampleManager.submit sampleMachine localBundle (.finite .zero)).1.effective sampleMachine
      .configuration (.finite .zero) =
    ((((PolicyManager.new sampleTrust).submit sampleMachine localBundle (.finite .zero)).1.submit
      sampleMachine fleetBundle (.finite .zero)).1.effective sampleMachine .configuration
        (.finite .zero))) := by
  have hrun : Run (Step sampleMachine) (.new sampleTrust)
      ([(fleetBundle, .finite .zero)] ++ [(localBundle, .finite .zero)])
      (sampleManager.submit sampleMachine localBundle (.finite .zero)).1 := sampleRun.snoc rfl
  have hlocal : Run (Step sampleMachine) (.new sampleTrust) ([] ++ [(localBundle, .finite .zero)])
      ((PolicyManager.new sampleTrust).submit sampleMachine localBundle (.finite .zero)).1 :=
    Run.nil.snoc rfl
  refine effective_perm hrun (hlocal.snoc rfl) (List.Perm.swap _ _ []) ?_ .configuration _
  intro a ha a' ha' _ _ _ hlayer _
  rcases List.mem_cons.mp ha with rfl | ha <;> rcases List.mem_cons.mp ha' with rfl | ha'
  · rfl
  · rw [List.mem_singleton.mp ha'] at hlayer
    cases hlayer
  · rw [List.mem_singleton.mp ha] at hlayer
    cases hlayer
  · rw [List.mem_singleton.mp ha, List.mem_singleton.mp ha']

end Newest

end Angerona.Policies
