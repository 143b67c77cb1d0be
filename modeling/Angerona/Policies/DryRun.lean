import Angerona.Policies.Bundle

/-!
    When a dry run shows what a submission does.

    `simulate` resolves the new bundle over every stored bundle of the channel, `effective` over those
    that still verify. The effective policy names the bundles it was made of, so the two agree only
    when they were made of the same bundles. -/

namespace Angerona.Policies
open Binary64 Text PyJson Response Raising Transition

/-! ### The resolution of a choice of bundles -/

/-- `resolve_effective` of the bundles chosen for the layers. -/
def resolved (look : PolicyLayer → Option PolicyBundle) (channel : Channel) :
    Except Fault (EffectivePolicy × List PolicyDiff) := do
  let w ← order.foldlM (fun w l => w.layer (look l)) Resolution.new
  .ok (w.effective channel, w.diffs)

/-- Lists and tuples among the settings. -/
def PolicyBundle.mixed (b : PolicyBundle) : Prop :=
  b.settings.any Row.tuple ∧ b.settings.any (!·.tuple)

theorem sorted_ok_iff {b : PolicyBundle} : (∃ settings, b.sorted = .ok settings) ↔ ¬b.mixed := by
  rw [PolicyBundle.sorted]
  split
  · rename_i hmixed
    refine iff_of_false ?_ fun h => h hmixed
    rintro ⟨settings, h⟩
    cases h
  · rename_i hmixed
    exact iff_of_true ⟨_, rfl⟩ hmixed

theorem apply_used (bundleId : Str) (w : Resolution) (item : Str × Value) :
    (w.apply bundleId item).used = w.used := by
  rw [Resolution.apply]
  split <;> rfl

theorem foldl_apply_used (bundleId : Str) : ∀ (settings : List (Str × Value)) (w : Resolution),
    (settings.foldl (Resolution.apply bundleId) w).used = w.used
  | [], _ => rfl
  | item :: settings, w => by
    rw [List.foldl_cons, foldl_apply_used bundleId settings, apply_used]

/-- A layer is added unless its bundle mixes lists and tuples, and its bundle is then named. -/
theorem layer_spec (w : Resolution) (choice : Option PolicyBundle) :
    ((∃ w', w.layer choice = .ok w') ↔ ∀ b ∈ choice, ¬b.mixed) ∧
      ∀ w', w.layer choice = .ok w' → w'.used = w.used ++ choice.toList.map PolicyBundle.bundleId := by
  rcases choice with _ | b
  · refine ⟨iff_of_true ⟨w, rfl⟩ fun b hb => (by cases hb), fun w' h => ?_⟩
    rw [← Except.ok.inj h]
    exact (List.append_nil _).symm
  · refine ⟨⟨?_, fun h => ?_⟩, fun w' h => ?_⟩
    · rintro ⟨w', h⟩ b' hb'
      obtain ⟨settings, hsettings, -⟩ := bind_ok.mp h
      rw [← Option.some.inj hb']
      exact sorted_ok_iff.mp ⟨settings, hsettings⟩
    · obtain ⟨settings, hsettings⟩ := sorted_ok_iff.mpr (h b rfl)
      exact ⟨_, bind_ok.mpr ⟨settings, hsettings, rfl⟩⟩
    · obtain ⟨settings, -, h⟩ := bind_ok.mp h
      rw [← Except.ok.inj h]
      exact foldl_apply_used b.bundleId settings _

theorem layers_spec (look : PolicyLayer → Option PolicyBundle) : ∀ (ls : List PolicyLayer)
    (w : Resolution), ((∃ w', ls.foldlM (fun w l => w.layer (look l)) w = .ok w') ↔
      ∀ l ∈ ls, ∀ b ∈ look l, ¬b.mixed) ∧
      ∀ w', ls.foldlM (fun w l => w.layer (look l)) w = .ok w' →
        w'.used = w.used ++ (ls.filterMap look).map PolicyBundle.bundleId
  | [], w => by
    refine ⟨iff_of_true ⟨w, rfl⟩ fun l hl => (by cases hl), fun w' h => ?_⟩
    rw [← Except.ok.inj h]
    exact (List.append_nil _).symm
  | l :: ls, w => by
    obtain ⟨hone, hnamed⟩ := layer_spec w (look l)
    have hrest := layers_spec look ls
    rw [List.foldlM_cons, List.forall_mem_cons]
    refine ⟨⟨?_, ?_⟩, fun w' h => ?_⟩
    · rintro ⟨w', h⟩
      obtain ⟨v, hv, h⟩ := bind_ok.mp h
      exact ⟨hone.mp ⟨v, hv⟩, (hrest v).1.mp ⟨w', h⟩⟩
    · rintro ⟨hl, hls⟩
      obtain ⟨v, hv⟩ := hone.mpr hl
      obtain ⟨w', hw'⟩ := (hrest v).1.mpr hls
      exact ⟨w', bind_ok.mpr ⟨v, hv, hw'⟩⟩
    · obtain ⟨v, hv, h⟩ := bind_ok.mp h
      rw [(hrest v).2 w' h, hnamed v hv, List.append_assoc, ← List.map_append]
      rcases hlook : look l with _ | b
      · rw [List.filterMap_cons_none hlook]
        rfl
      · rw [List.filterMap_cons_some hlook]
        rfl

theorem mem_order (l : PolicyLayer) : l ∈ order := by
  cases l <;> decide

theorem resolved_spec (look : PolicyLayer → Option PolicyBundle) (channel : Channel) :
    ((∃ p diffs, resolved look channel = .ok (p, diffs)) ↔ ∀ l, ∀ b ∈ look l, ¬b.mixed) ∧
      ∀ p diffs, resolved look channel = .ok (p, diffs) →
        p.bundleIds = (order.filterMap look).map PolicyBundle.bundleId := by
  obtain ⟨hok, hused⟩ := layers_spec look order Resolution.new
  refine ⟨⟨?_, fun h => ?_⟩, fun p diffs h => ?_⟩
  · rintro ⟨p, diffs, h⟩
    obtain ⟨w, hw, -⟩ := bind_ok.mp h
    exact fun l => hok.mp ⟨w, hw⟩ l (mem_order l)
  · obtain ⟨w, hw⟩ := hok.mpr fun l _ => h l
    exact ⟨_, _, bind_ok.mpr ⟨w, hw, rfl⟩⟩
  · obtain ⟨w, hw, h⟩ := bind_ok.mp h
    rw [← (Prod.mk.inj (Except.ok.inj h)).1]
    exact hused w hw

/-- A choice that leaves some layers out names fewer bundles. -/
theorem same_choice {look look' : PolicyLayer → Option PolicyBundle}
    (hsub : ∀ l x, look' l = some x → look l = some x) : ∀ {ls : List PolicyLayer},
    (ls.filterMap look').length = (ls.filterMap look).length → ∀ l ∈ ls, look' l = look l
  | [], _, l, hl => by cases hl
  | l :: ls, hlength, k, hk => by
    have hle : (ls.filterMap look').length ≤ (ls.filterMap look).length := by
      rw [List.length_filterMap_eq_countP, List.length_filterMap_eq_countP]
      refine List.countP_mono_left fun j _ hj => ?_
      obtain ⟨x, hx⟩ := Option.isSome_iff_exists.mp hj
      rw [hsub j x hx]
      rfl
    rcases hl' : look' l with _ | x
    · rw [List.filterMap_cons_none hl'] at hlength
      rcases hl : look l with _ | y
      · rw [List.filterMap_cons_none hl] at hlength
        rcases List.mem_cons.mp hk with rfl | hk
        · rw [hl', hl]
        · exact same_choice hsub hlength k hk
      · rw [List.filterMap_cons_some hl, List.length_cons] at hlength
        omega
    · rw [List.filterMap_cons_some hl', List.filterMap_cons_some (hsub l x hl'),
        List.length_cons, List.length_cons] at hlength
      rcases List.mem_cons.mp hk with rfl | hk
      · rw [hl', hsub k x hl']
      · exact same_choice hsub (by omega) k hk

/-! ### The bundles that are chosen -/

/-- The bundles of different layers are all chosen. -/
theorem byLayer_iff {bundles : List PolicyBundle} (hnodup : (bundles.map PolicyBundle.layer).Nodup)
    {l : PolicyLayer} {x : PolicyBundle} :
    (byLayer bundles).get? l = some x ↔ x ∈ bundles ∧ x.layer = l := by
  induction bundles using List.reverseRecOn generalizing l x with
  | nil => exact iff_of_false (fun h => by cases h) fun h => by cases h.1
  | append_singleton bundles b ih =>
    rw [List.map_append, List.nodup_append] at hnodup
    obtain ⟨hbundles, -, hfresh⟩ := hnodup
    have hnone : (byLayer bundles).get? b.layer = none := by
      rcases h : (byLayer bundles).get? b.layer with _ | y
      · rfl
      · obtain ⟨hy, hlayer⟩ := (ih hbundles).mp h
        exact absurd hlayer (hfresh _ (List.mem_map_of_mem hy) _ List.mem_cons_self)
    have hstep : byLayer (bundles ++ [b]) = (byLayer bundles).set b.layer b := by
      rw [byLayer, List.foldl_append, List.foldl_cons, List.foldl_nil, ← byLayer, hnone]
    rw [hstep, Dict.get?_set, List.mem_append, List.mem_singleton]
    split
    · rename_i hl
      constructor
      · intro h
        rw [← Option.some.inj h]
        exact ⟨.inr rfl, hl.symm⟩
      · rintro ⟨hx | rfl, hxl⟩
        · exact absurd (hxl.trans hl) (hfresh _ (List.mem_map_of_mem hx) _ List.mem_cons_self)
        · rfl
    · rename_i hl
      rw [ih hbundles]
      refine and_congr_left fun hxl => ⟨.inl, fun h => h.resolve_right ?_⟩
      rintro rfl
      exact hl hxl.symm

/-- Every bundle is stored under its channel and its layer. -/
def Keyed (d : Dict (Channel × PolicyLayer) PolicyBundle) : Prop :=
  ∀ k x, d.get? k = some x → k = (x.channel, x.layer)

variable {m : Machine} {manager manager' : PolicyManager} {b : PolicyBundle} {now : PyFloat}

/-- The stored bundles of one channel are of different layers. -/
theorem nodup_layers {d : Dict (Channel × PolicyLayer) PolicyBundle} (hkeyed : Keyed d)
    (items : List ((Channel × PolicyLayer) × PolicyBundle)) (hsub : items.Sublist d.items)
    {c : Channel} (hc : ∀ i ∈ items, i.2.channel = c) :
    ((items.map Prod.snd).map PolicyBundle.layer).Nodup := by
  have hkeys : (items.map Prod.fst).Nodup := (hsub.map Prod.fst).nodup d.nodup
  have hkey : ∀ i ∈ items, i.1 = (i.2.channel, i.2.layer) := fun i hi =>
    hkeyed i.1 i.2 (Dict.mem_items.mp (hsub.subset hi))
  rw [List.map_map]
  refine List.Nodup.of_map (fun l => (c, l)) ?_
  rw [List.map_map]
  have hsame : items.map ((fun l => (c, l)) ∘ PolicyBundle.layer ∘ Prod.snd) = items.map Prod.fst :=
    List.map_congr_left fun i hi => by
      rw [hkey i hi, hc i hi]
      rfl
  rw [hsame]
  exact hkeys

/-- What is chosen among the stored bundles of a channel that pass a test. -/
theorem chosen_stored {d : Dict (Channel × PolicyLayer) PolicyBundle} (hkeyed : Keyed d)
    (p : PolicyBundle → Bool) {c : Channel} {l : PolicyLayer} {x : PolicyBundle} :
    (byLayer ((d.values.filter p).filter fun b => b.channel = c)).get? l = some x ↔
      d.get? (c, l) = some x ∧ p x = true := by
  have hitems : (d.values.filter p).filter (fun b => b.channel = c) =
      (d.items.filter fun i => decide (i.2.channel = c) && p i.2).map Prod.snd := by
    rw [List.filter_filter, Dict.values, List.filter_map]
    rfl
  have hchannel : ∀ i ∈ d.items.filter (fun i => decide (i.2.channel = c) && p i.2),
      i.2.channel = c := fun i hi => by
    have hboth := (List.mem_filter.mp hi).2
    rw [Bool.and_eq_true, decide_eq_true_iff] at hboth
    exact hboth.1
  rw [hitems, byLayer_iff (nodup_layers hkeyed _ List.filter_sublist hchannel)]
  constructor
  · rintro ⟨hx, rfl⟩
    obtain ⟨i, hi, rfl⟩ := List.mem_map.mp hx
    obtain ⟨hmem, hboth⟩ := List.mem_filter.mp hi
    rw [Bool.and_eq_true] at hboth
    have hget := Dict.mem_items.mp hmem
    rw [hkeyed _ _ hget, hchannel i hi] at hget
    exact ⟨hget, hboth.2⟩
  · rintro ⟨hget, hp⟩
    obtain ⟨hc, hl⟩ := Prod.mk.inj (hkeyed _ _ hget)
    refine ⟨List.mem_map.mpr ⟨((c, l), x), List.mem_filter.mpr ⟨Dict.mem_items.mpr hget, ?_⟩, rfl⟩,
      hl.symm⟩
    rw [Bool.and_eq_true, decide_eq_true_iff]
    exact ⟨hc.symm, hp⟩

/-- The bundles that `simulate` resolves, by layer. -/
def dryChoice (d : Dict (Channel × PolicyLayer) PolicyBundle) (b : PolicyBundle) (l : PolicyLayer) :
    Option PolicyBundle :=
  (byLayer (((d.items.filter fun item => item.1.1 = b.channel ∧
    item.1 ≠ (b.channel, b.layer)).map Prod.snd ++ [b]).filter fun y => y.channel = b.channel)).get? l

/-- The bundles that `effective` resolves, by layer. -/
def liveChoice (m : Machine) (manager : PolicyManager) (c : Channel) (now : PyFloat)
    (l : PolicyLayer) : Option PolicyBundle :=
  (byLayer ((manager.good.values.filter fun y => y.channel = c ∧ PolicyManager.unexpired y now ∧
    (verifyBundle m manager.trust y now).1).filter fun y => y.channel = c)).get? l

/-- What is chosen in a dry run: the new bundle for its layer, the stored ones for the others. -/
theorem dryChoice_iff {d : Dict (Channel × PolicyLayer) PolicyBundle} (hkeyed : Keyed d)
    {l : PolicyLayer} {x : PolicyBundle} : dryChoice d b l = some x ↔
      if l = b.layer then x = b else d.get? (b.channel, l) = some x := by
  have hitem : ∀ i ∈ d.items.filter (fun item => item.1.1 = b.channel ∧
      item.1 ≠ (b.channel, b.layer)), d.get? (b.channel, i.2.layer) = some i.2 ∧
        i.2.channel = b.channel ∧ i.2.layer ≠ b.layer := by
    intro i hi
    obtain ⟨hmem, hboth⟩ := List.mem_filter.mp hi
    obtain ⟨hc, hne⟩ := of_decide_eq_true hboth
    have hget := Dict.mem_items.mp hmem
    have hkey := hkeyed _ _ hget
    rw [hkey] at hc hne hget
    dsimp only at hc
    rw [hc] at hne hget
    exact ⟨hget, hc, fun hl => hne (by rw [hl])⟩
  have hall : ((d.items.filter fun item => item.1.1 = b.channel ∧
      item.1 ≠ (b.channel, b.layer)).map Prod.snd ++ [b]).filter (fun y => y.channel = b.channel) =
        (d.items.filter fun item => item.1.1 = b.channel ∧
          item.1 ≠ (b.channel, b.layer)).map Prod.snd ++ [b] := by
    refine List.filter_eq_self.mpr fun y hy => decide_eq_true ?_
    rcases List.mem_append.mp hy with hy | hy
    · obtain ⟨i, hi, rfl⟩ := List.mem_map.mp hy
      exact (hitem i hi).2.1
    · rw [List.mem_singleton.mp hy]
  have hnodup : (((d.items.filter fun item => item.1.1 = b.channel ∧
      item.1 ≠ (b.channel, b.layer)).map Prod.snd ++ [b]).map PolicyBundle.layer).Nodup := by
    rw [List.map_append]
    refine List.nodup_append.mpr ⟨nodup_layers hkeyed _ List.filter_sublist fun i hi =>
      (hitem i hi).2.1, List.nodup_singleton _, ?_⟩
    intro l hl l' hl'
    obtain ⟨y, hy, rfl⟩ := List.mem_map.mp hl
    obtain ⟨i, hi, rfl⟩ := List.mem_map.mp hy
    rw [List.mem_singleton.mp hl']
    exact (hitem i hi).2.2
  rw [dryChoice, hall, byLayer_iff hnodup, List.mem_append, List.mem_singleton]
  split
  · rename_i hl
    constructor
    · rintro ⟨hx | hx, hxl⟩
      · obtain ⟨i, hi, rfl⟩ := List.mem_map.mp hx
        exact absurd (hxl.trans hl) (hitem i hi).2.2
      · exact hx
    · rintro rfl
      exact ⟨.inr rfl, hl.symm⟩
  · rename_i hl
    constructor
    · rintro ⟨hx | rfl, rfl⟩
      · obtain ⟨i, hi, rfl⟩ := List.mem_map.mp hx
        exact (hitem i hi).1
      · exact absurd rfl hl
    · intro hget
      obtain ⟨-, hxl⟩ := Prod.mk.inj (hkeyed _ _ hget)
      refine ⟨.inl (List.mem_map.mpr ⟨_, List.mem_filter.mpr ⟨Dict.mem_items.mpr hget,
        decide_eq_true ⟨rfl, fun he => hl (Prod.mk.inj he).2⟩⟩, rfl⟩), hxl.symm⟩

/-! ### The manager -/

/-- A submission at a time. -/
def Step (m : Machine) (manager : PolicyManager) (a : PolicyBundle × PyFloat)
    (manager' : PolicyManager) : Prop := (manager.submit m a.1 a.2).1 = manager'

theorem submit_cases (b : PolicyBundle) (now : PyFloat) :
    (manager.submit m b now).1 = manager ∧ (manager.submit m b now).2.1 = false ∨
      (verifyBundle m manager.trust b now).1 = true ∧ (manager.submit m b now).1 =
        { manager with good := manager.good.set (b.channel, b.layer) b } := by
  rw [PolicyManager.submit]
  split
  · exact .inl ⟨rfl, rfl⟩
  · rename_i hverified
    rw [hverified]
    split
    · split
      · exact .inl ⟨rfl, rfl⟩
      · exact .inr ⟨rfl, rfl⟩
    · exact .inr ⟨rfl, rfl⟩

theorem keyed_set {d : Dict (Channel × PolicyLayer) PolicyBundle} (hkeyed : Keyed d)
    (b : PolicyBundle) : Keyed (d.set (b.channel, b.layer) b) := by
  intro k x hx
  rw [Dict.get?_set] at hx
  split at hx
  · rename_i hk
    rw [hk, ← Option.some.inj hx]
  · exact hkeyed k x hx

theorem run_keyed {trust : Trust} {ls : List (PolicyBundle × PyFloat)}
    (hrun : Run (Step m) (.new trust) ls manager) : Keyed manager.good := by
  refine hrun.invariant (I := fun manager => Keyed manager.good) ?_ fun k x hx => by cases hx
  intro manager a manager' hkeyed hstep
  rw [← hstep]
  rcases submit_cases a.1 a.2 with ⟨hsame, -⟩ | ⟨-, hset⟩
  · rw [hsame]
    exact hkeyed
  · rw [hset]
    exact keyed_set hkeyed a.1

/-- A bundle that verifies has not expired. -/
theorem unexpired_of_verified {trust : Trust} (h : (verifyBundle m trust b now).1 = true) :
    PolicyManager.unexpired b now = true := by
  rcases now with t | neg | -
  · rw [verifyBundle] at h
    split at h
    · cases h
    · rename_i hle
      rw [Stamp.le, Bool.not_eq_true', Bool.not_eq_false] at hle
      exact hle
  · cases h
  · cases h

/-- After a submission the manager chooses what the dry run does, of what verifies. -/
theorem liveChoice_submitted (hkeyed : Keyed manager.good)
    (hverified : (verifyBundle m manager.trust b now).1 = true) (l : PolicyLayer) (x : PolicyBundle) :
    liveChoice m { manager with good := manager.good.set (b.channel, b.layer) b } b.channel now l =
        some x ↔
      dryChoice manager.good b l = some x ∧ (verifyBundle m manager.trust x now).1 = true := by
  rw [dryChoice_iff hkeyed, liveChoice, chosen_stored (keyed_set hkeyed b), Dict.get?_set,
    decide_eq_true_iff]
  by_cases hl : l = b.layer
  · rw [if_pos (by rw [hl]), if_pos hl]
    constructor
    · rintro ⟨hx, -, -, hv⟩
      exact ⟨(Option.some.inj hx).symm, hv⟩
    · rintro ⟨rfl, hv⟩
      exact ⟨rfl, rfl, unexpired_of_verified hv, hv⟩
  · rw [if_neg fun he => hl (Prod.mk.inj he).2, if_neg hl]
    refine and_congr_right fun hget => ⟨fun h => h.2.2, fun hv => ?_⟩
    exact ⟨(Prod.mk.inj (hkeyed _ _ hget)).1.symm, unexpired_of_verified hv, hv⟩

theorem simulate_eq (hverified : (verifyBundle m manager.trust b now).1 = true) :
    manager.simulate m b now = resolved (dryChoice manager.good b) b.channel := by
  rw [PolicyManager.simulate]
  split
  · rename_i h
    rw [h] at hverified
    cases hverified
  · rfl

theorem PolicyManager.effective_eq (manager : PolicyManager) (c : Channel) (now : PyFloat) :
    manager.effective m c now = (resolved (liveChoice m manager c now) c).map Prod.fst := rfl

/-- The stored bundles of the other layers verify, and no bundle mixes lists and tuples. -/
structure OthersHold (m : Machine) (manager : PolicyManager) (b : PolicyBundle) (now : PyFloat) :
    Prop where
  verified : ∀ l x, l ≠ b.layer → manager.good.get? (b.channel, l) = some x →
    (verifyBundle m manager.trust x now).1 = true
  plain : ¬b.mixed ∧ ∀ l x, l ≠ b.layer → manager.good.get? (b.channel, l) = some x → ¬x.mixed

/-- CORRECT: a dry run of a bundle that would be accepted shows the effective policy that its
    submission leads to exactly when the stored bundles of the other layers of its channel still
    verify, and none of them and not the bundle itself mixes lists and tuples in its settings. -/
theorem simulate_exact {trust : Trust} {ls : List (PolicyBundle × PyFloat)}
    (hrun : Run (Step m) (.new trust) ls manager) (haccepted : (manager.submit m b now).2.1 = true) :
    (∃ p diffs, manager.simulate m b now = .ok (p, diffs) ∧
      (manager.submit m b now).1.effective m b.channel now = .ok p) ↔
        OthersHold m manager b now := by
  have hkeyed := run_keyed hrun
  rcases @submit_cases m manager b now with ⟨-, hrefused⟩ | ⟨hverified, hset⟩
  · rw [haccepted] at hrefused
    cases hrefused
  have hdry := fun l x => @dryChoice_iff b manager.good hkeyed l x
  have hlive := fun l x => @liveChoice_submitted m manager b now hkeyed hverified l x
  rw [simulate_eq hverified, hset, PolicyManager.effective_eq]
  obtain ⟨hdryok, hdryids⟩ := resolved_spec (dryChoice manager.good b) b.channel
  obtain ⟨hliveok, hliveids⟩ := resolved_spec (liveChoice m
    { manager with good := manager.good.set (b.channel, b.layer) b } b.channel now) b.channel
  constructor
  · rintro ⟨p, diffs, hs, he⟩
    obtain ⟨⟨p', diffs'⟩, heffective, rfl⟩ := map_ok.mp he
    have hids := congrArg List.length ((hliveids _ _ heffective).symm.trans (hdryids _ _ hs))
    rw [List.length_map, List.length_map] at hids
    have hsame := same_choice (fun l x h => ((hlive l x).mp h).1) hids
    have hplain := hdryok.mp ⟨_, _, hs⟩
    refine ⟨fun l x hl hget => ?_, hplain b.layer b ((hdry _ _).mpr (by rw [if_pos rfl])),
      fun l x hl hget => hplain l x ((hdry _ _).mpr (by rw [if_neg hl]; exact hget))⟩
    have hchosen : dryChoice manager.good b l = some x := (hdry _ _).mpr (by rw [if_neg hl]; exact hget)
    rw [← hsame l (mem_order l)] at hchosen
    exact ((hlive l x).mp hchosen).2
  · rintro ⟨hothers, hplain, hplains⟩
    have hsame : liveChoice m { manager with good := manager.good.set (b.channel, b.layer) b }
        b.channel now = dryChoice manager.good b := by
      funext l
      refine Option.ext fun x => ?_
      rw [hlive]
      refine ⟨fun h => h.1, fun h => ⟨h, ?_⟩⟩
      rw [hdry] at h
      split at h
      · rw [h]
        exact hverified
      · rename_i hl
        exact hothers l x hl h
    obtain ⟨p, diffs, hp⟩ := hdryok.mpr fun l x hx => by
      rw [Option.mem_def, hdry] at hx
      split at hx
      · rw [hx]
        exact hplain
      · rename_i hl
        exact hplains l x hl hx
    refine ⟨p, diffs, hp, ?_⟩
    rw [hsame, hp]
    rfl

/-! ### A fleet bundle that expires -/

def samplePublisher : List UInt8 :=
  [3, 161, 7, 191, 243, 206, 16, 190, 29, 112, 221, 24, 231, 75, 192, 153, 103, 228, 214, 48, 155,
    165, 13, 95, 29, 220, 134, 100, 18, 85, 49, 184]

def sampleTrust : Trust := ⟨Dict.empty.set "pub".toList samplePublisher, .empty⟩

theorem ten_finite : (Stamp.int 10).isFinite = true := by decide +kernel

/-- A fleet bundle that locks its setting. -/
def fleetBundle : PolicyBundle where
  bundleId := "fleet-1".toList
  version := 1
  publisherId := "pub".toList
  channel := .configuration
  layer := .fleet
  settings := [⟨true, "k".toList, .int 1⟩]
  lockedKeys := ["k".toList]
  rollout := .staged
  canaryPercent := 0
  highImpact := false
  expiresAt := .int 10
  approvals := []
  signature :=
    "OW6XKFWo1AZPG_-xYzl8eW4BotdFj69zjwmk6nrN4WEUbmzr_3wohAwZx0qgVqXB-Eo3Z_aIX2_ZotNEiDcyDQ".toList
  named := by decide
  finite := ten_finite
  keys := by decide
  locked := by decide
  approved := by decide
  percent := by decide

def localBundle : PolicyBundle where
  bundleId := "local-1".toList
  version := 1
  publisherId := "pub".toList
  channel := .configuration
  layer := .local
  settings := [⟨true, "k".toList, .int 2⟩]
  lockedKeys := []
  rollout := .staged
  canaryPercent := 0
  highImpact := false
  expiresAt := .int 100
  approvals := []
  signature :=
    "QuIqyX-pvWTLZorg8W-37TDNBA6XGLrtMqONY0Pf7GBwBUCLK7tVm8P4bSsOIDopWnodNOODTTYLTvxk8dJvBQ".toList
  named := by decide
  finite := by decide +kernel
  keys := by decide
  locked := by decide
  approved := by decide
  percent := by decide

/-- With the signatures of the two bundles. -/
def sampleMachine : Machine where
  identity := {
    repr := fun _ => "0.0".toList
    sha256 := fun _ => List.replicate 64 'a'
    fingerprint := fun _ => List.replicate 64 'a'
    hmac := fun _ => List.replicate 64 'a'
    hmac_hex := fun _ => rfl
    stateHmac := fun _ => List.replicate 64 'a'
    ed25519 := fun _ _ _ => false }
  sha256 := fun _ => List.replicate 64 'a'
  signed := fun key _ signature => key = samplePublisher ∧
    (signature = fleetBundle.signature ∨ signature = localBundle.signature)

def sampleManager : PolicyManager :=
  ((PolicyManager.new sampleTrust).submit sampleMachine fleetBundle (.finite .zero)).1

theorem twenty_fits : 20 ≤ 2 ^ 53 := by decide

def afterExpiry : PyFloat := .finite (Double.ofNat 20 twenty_fits)

theorem sampleRun : Run (Step sampleMachine) (.new sampleTrust) [(fleetBundle, .finite .zero)]
    sampleManager := by
  rw [← List.nil_append [_]]
  exact Run.nil.snoc rfl

/-- Before the fleet bundle expires. -/
theorem simulate_exact_sample : (∃ p diffs,
    sampleManager.simulate sampleMachine localBundle (.finite .zero) = .ok (p, diffs) ∧
      (sampleManager.submit sampleMachine localBundle (.finite .zero)).1.effective sampleMachine
        localBundle.channel (.finite .zero) = .ok p) ↔
    OthersHold sampleMachine sampleManager localBundle (.finite .zero) := by
  have haccepted : (sampleManager.submit sampleMachine localBundle (.finite .zero)).2.1 = true := by
    decide +kernel
  exact simulate_exact sampleRun haccepted

/-- The dry run of a local bundle still shows a fleet bundle that has expired. -/
theorem expired_shown : (∃ ls, Run (Step sampleMachine) (.new sampleTrust) ls sampleManager) ∧
    (sampleManager.submit sampleMachine localBundle afterExpiry).2.1 = true ∧
    ¬∃ p diffs, sampleManager.simulate sampleMachine localBundle afterExpiry = .ok (p, diffs) ∧
      (sampleManager.submit sampleMachine localBundle afterExpiry).1.effective sampleMachine
        localBundle.channel afterExpiry = .ok p := by
  have hverified : (verifyBundle sampleMachine sampleManager.trust localBundle afterExpiry).1 =
      true := by decide +kernel
  have haccepted : (sampleManager.submit sampleMachine localBundle afterExpiry).2.1 = true := by
    decide +kernel
  refine ⟨⟨_, sampleRun⟩, haccepted, ?_⟩
  rintro ⟨p, diffs, hs, he⟩
  rw [simulate_eq hverified] at hs
  rw [PolicyManager.effective_eq] at he
  obtain ⟨⟨p', diffs'⟩, heffective, rfl⟩ := map_ok.mp he
  have hdry := (resolved_spec (dryChoice sampleManager.good localBundle)
    localBundle.channel).2 _ diffs hs
  have hlive := (resolved_spec (liveChoice sampleMachine (sampleManager.submit sampleMachine
    localBundle afterExpiry).1 localBundle.channel afterExpiry) localBundle.channel).2 p' diffs' heffective
  have hdiffer : (order.filterMap (dryChoice sampleManager.good localBundle)).map
      PolicyBundle.bundleId ≠ (order.filterMap (liveChoice sampleMachine (sampleManager.submit
        sampleMachine localBundle afterExpiry).1 localBundle.channel afterExpiry)).map
          PolicyBundle.bundleId := by decide +kernel
  exact hdiffer (hdry.symm.trans hlive)

end Angerona.Policies
