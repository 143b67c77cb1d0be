import Mathlib
import Angerona.Fabric.Runs

/-!
    The rate state after a restart.

    The rate state that is rebuilt from the retained evidence starts from one token, and replays what
    is left in the order it was recorded. That grants no more than the whole history when pruning has
    taken the evidence that was recorded first. It takes the evidence that the devices claim to have
    observed first, and never the newest of a device: a device that stays silent keeps an old record
    in front of the gap, from which the bucket of the tenant fills again. -/

namespace Angerona.Fabric
open Text BucketReplay Raising Transition

variable {s : FleetFabricStore}

/-- Two elements of a list that is ordered pairwise. -/
theorem pairwise_mem {α : Type} {R : α → α → Prop} : ∀ {l : List α}, l.Pairwise R → ∀ {a b : α},
    a ∈ l → b ∈ l → a = b ∨ R a b ∨ R b a := by
  intro l hl
  induction hl with
  | nil => intro a b ha; cases ha
  | cons hx _ ih =>
    intro a b ha hb
    rcases List.mem_cons.mp ha with rfl | ha'
    · rcases List.mem_cons.mp hb with rfl | hb'
      · exact .inl rfl
      · exact .inr (.inl (hx b hb'))
    · rcases List.mem_cons.mp hb with rfl | hb'
      · exact .inr (.inr (hx a ha'))
      · exact ih ha' hb'

/-! ### What pruning selects -/

/-- Retained evidence and the heads of the chains. -/
structure Chained (records : List FleetHealthEvidence) (heads : Dict Str FleetHealthEvidence) :
    Prop where
  keys : (records.map FleetHealthEvidence.rowKey).Nodup
  kept : ∀ d h, heads.get? d = some h → h ∈ records ∧ h.sample.deviceId = d
  newest : ∀ a ∈ records, ∃ h, heads.get? a.sample.deviceId = some h ∧
    (a = h ∨ a.sequence < h.sequence)
  order : ∀ a ∈ records, ∀ b ∈ records, a.sample.deviceId = b.sample.deviceId →
    a = b ∨ a.sequence < b.sequence ∧ a.recordedAt ≤ b.recordedAt ∨ b.sequence < a.sequence

/-- The `excess` records that were recorded first are no heads, and of the records that are none they
    claim the earliest observations. -/
def OldestFirst (records : List FleetHealthEvidence) (heads : Dict Str FleetHealthEvidence)
    (excess : ℕ) : Prop :=
  (∀ a ∈ (replayOrder records).take excess, heads.get? a.sample.deviceId ≠ some a) ∧
    ∀ a ∈ (replayOrder records).take excess, ∀ b ∈ (replayOrder records).drop excess,
      heads.get? b.sample.deviceId ≠ some b → pruneKey a < pruneKey b

instance (records : List FleetHealthEvidence) (heads : Dict Str FleetHealthEvidence) (excess : ℕ) :
    Decidable (OldestFirst records heads excess) :=
  inferInstanceAs (Decidable (_ ∧ _))

variable {records selected : List FleetHealthEvidence} {heads : Dict Str FleetHealthEvidence}
  {d : Str} {a b h : FleetHealthEvidence} {excess : ℕ}

theorem perm_deviceRows (d : Str) (records : List FleetHealthEvidence) :
    (deviceRows d records).Perm (ofDevice d records) := List.perm_insertionSort _ _

theorem mem_deviceRows : a ∈ deviceRows d records ↔ a ∈ records ∧ a.sample.deviceId = d :=
  (perm_deviceRows d records).mem_iff.trans mem_ofDevice

theorem sequence_le_of_chainKey (hab : chainKey a ≤ chainKey b) : a.sequence ≤ b.sequence :=
  Prod.Lex.monotone_fst _ _ hab

theorem sorted_deviceRows (d : Str) (records : List FleetHealthEvidence) :
    (deviceRows d records).Pairwise fun a b => a.sequence ≤ b.sequence :=
  (List.pairwise_insertionSort _ _).imp sequence_le_of_chainKey

namespace Chained

theorem nodup (hc : Chained records heads) : records.Nodup := hc.keys.of_map _

/-- The rows of a device end with its head. -/
theorem deviceRows_eq (hc : Chained records heads) (hh : heads.get? d = some h) :
    ∃ rest, deviceRows d records = rest ++ [h] := by
  have hmem : h ∈ deviceRows d records := mem_deviceRows.mpr (hc.kept d h hh)
  obtain ⟨rest, last, hrows⟩ := (List.eq_nil_or_concat _).resolve_left (List.ne_nil_of_mem hmem)
  rw [List.concat_eq_append] at hrows
  have hlast : last ∈ deviceRows d records := hrows ▸ List.mem_append_right _ List.mem_cons_self
  obtain ⟨hrecord, rfl⟩ := mem_deviceRows.mp hlast
  obtain ⟨h', hh', rfl | hlt⟩ := hc.newest last hrecord
  · exact ⟨rest, by rw [hrows, Option.some.inj (hh.symm.trans hh')]⟩
  -- the head would stand before a smaller sequence number
  · obtain rfl := Option.some.inj (hh.symm.trans hh')
    have hsorted := sorted_deviceRows last.sample.deviceId records
    rw [hrows] at hmem hsorted
    rcases List.mem_append.mp hmem with hmem | hmem
    · exact absurd ((List.pairwise_append.mp hsorted).2.2 h hmem last List.mem_cons_self)
        (not_le.mpr hlt)
    · rw [List.mem_singleton.mp hmem] at hlt
      exact absurd hlt (lt_irrefl _)

/-- The candidates are the records that are no heads. -/
theorem mem_candidates (hc : Chained records heads) :
    a ∈ (candidates records heads).flatten ↔
      a ∈ records ∧ heads.get? a.sample.deviceId ≠ some a := by
  rw [candidates, List.mem_flatten]
  constructor
  · rintro ⟨rows, hrows, ha⟩
    obtain ⟨⟨d, h⟩, hitem, rfl⟩ := List.mem_map.mp hrows
    have hh : heads.get? d = some h := Dict.mem_items.mp hitem
    obtain ⟨hrecord, rfl⟩ := mem_deviceRows.mp (List.mem_of_mem_dropLast ha)
    refine ⟨hrecord, fun hself => ?_⟩
    obtain rfl := Option.some.inj (hh.symm.trans hself)
    obtain ⟨rest, hrest⟩ := hc.deviceRows_eq hh
    have hnodup := (perm_deviceRows h.sample.deviceId records).nodup_iff.mpr (hc.nodup.filter _)
    rw [hrest] at ha hnodup
    rw [List.dropLast_concat] at ha
    exact (List.nodup_append.mp hnodup).2.2 h ha h List.mem_cons_self rfl
  · rintro ⟨hrecord, hself⟩
    obtain ⟨h, hh, -⟩ := hc.newest a hrecord
    obtain ⟨rest, hrest⟩ := hc.deviceRows_eq hh
    refine ⟨_, List.mem_map.mpr ⟨(_, h), Dict.mem_items.mpr hh, rfl⟩, ?_⟩
    have hrow : a ∈ deviceRows a.sample.deviceId records := mem_deviceRows.mpr ⟨hrecord, rfl⟩
    rw [hrest] at hrow ⊢
    rw [List.dropLast_concat]
    refine (List.mem_append.mp hrow).resolve_right fun hlast => hself ?_
    rw [hh, List.mem_singleton.mp hlast]

theorem nodup_candidates (hc : Chained records heads) :
    (candidates records heads).flatten.Nodup := by
  refine List.nodup_flatten.mpr ⟨?_, ?_⟩
  · rintro rows hrows
    obtain ⟨⟨d, h⟩, -, rfl⟩ := List.mem_map.mp hrows
    exact ((perm_deviceRows d records).nodup_iff.mpr (hc.nodup.filter _)).sublist
      (List.dropLast_sublist _)
  · refine List.pairwise_map.mpr ((List.pairwise_map.mp heads.nodup).imp fun hne => ?_)
    intro a ha hb
    exact hne ((mem_deviceRows.mp (List.mem_of_mem_dropLast ha)).2.symm.trans
      (mem_deviceRows.mp (List.mem_of_mem_dropLast hb)).2)

/-- Within a device, what was recorded first comes first in its chain. -/
theorem replayKey_le (hc : Chained records heads) (ha : a ∈ records) (hb : b ∈ records)
    (hd : a.sample.deviceId = b.sample.deviceId) (hab : a.sequence ≤ b.sequence) :
    replayKey a ≤ replayKey b := by
  rcases hc.order a ha b hb hd with rfl | ⟨hlt, hle⟩ | hlt
  · exact le_rfl
  · rw [replayKey, replayKey, Prod.Lex.toLex_le_toLex]
    rcases hle.lt_or_eq with hlt' | heq
    · exact .inl hlt'
    · refine .inr ⟨heq, ?_⟩
      rw [Prod.Lex.toLex_le_toLex]
      refine .inr ⟨hd, ?_⟩
      rw [Prod.Lex.toLex_le_toLex]
      exact .inl hlt
  · exact absurd hlt (not_lt.mpr hab)

theorem eq_of_replayKey (hc : Chained records heads) (ha : a ∈ records) (hb : b ∈ records)
    (hab : replayKey a = replayKey b) : a = b := by
  simp only [replayKey, EmbeddingLike.apply_eq_iff_eq, Prod.mk.injEq] at hab
  exact List.inj_on_of_nodup_map hc.keys ha hb (Prod.ext hab.2.1 hab.2.2.2)

/-- Of two records, the one that is replayed first is among the oldest when the other is. -/
theorem mem_take (hc : Chained records heads) (ha : a ∈ records) (hab : replayKey a ≤ replayKey b)
    (hb : b ∈ (replayOrder records).take excess) : a ∈ (replayOrder records).take excess := by
  have hmem : a ∈ (replayOrder records).take excess ++ (replayOrder records).drop excess := by
    rw [List.take_append_drop]
    exact (perm_replayOrder records).mem_iff.mpr ha
  refine (List.mem_append.mp hmem).resolve_right fun hdrop => ?_
  have hsorted := pairwise_replayOrder records
  rw [← List.take_append_drop excess (replayOrder records)] at hsorted
  have hba := (List.pairwise_append.mp hsorted).2.2 b hb a hdrop
  have hb' : b ∈ records := (perm_replayOrder records).mem_iff.mp (List.mem_of_mem_take hb)
  obtain rfl := hc.eq_of_replayKey ha hb' (le_antisymm hab hba)
  have hnodup := (perm_replayOrder records).nodup_iff.mpr hc.nodup
  rw [← List.take_append_drop excess (replayOrder records)] at hnodup
  exact (List.nodup_append.mp hnodup).2.2 a hb a hdrop rfl

/-- When the oldest records are no heads and claim the earliest observations, they are what pruning
    selects. -/
theorem selects (hc : Chained records heads)
    (ho : OldestFirst records heads (records.length - s.maxHealth))
    (hp : s.pruneHealth records heads = .ok selected) :
    selected.Perm ((replayOrder records).take (records.length - s.maxHealth)) := by
  generalize hexcess : records.length - s.maxHealth = excess at ho
  set oldest := (replayOrder records).take excess with holdest
  have hsub : ∀ a ∈ oldest, a ∈ records := fun a ha =>
    (perm_replayOrder records).mem_iff.mp (List.mem_of_mem_take ha)
  have hfirst : ∀ q ∈ candidates records heads,
      q.Pairwise fun a b => decide (b ∈ oldest) = true → decide (a ∈ oldest) = true := by
    intro q hq
    obtain ⟨⟨d, h⟩, -, rfl⟩ := List.mem_map.mp hq
    refine ((sorted_deviceRows d records).sublist (List.dropLast_sublist _)).imp_of_mem ?_
    intro a b ha hb hab hmem
    obtain ⟨ha, hda⟩ := mem_deviceRows.mp (List.mem_of_mem_dropLast ha)
    obtain ⟨hb, hdb⟩ := mem_deviceRows.mp (List.mem_of_mem_dropLast hb)
    exact decide_eq_true (hc.mem_take ha (hc.replayKey_le ha hb (hda.trans hdb.symm) hab)
      (of_decide_eq_true hmem))
  have hless : ∀ a ∈ (candidates records heads).flatten, ∀ b ∈ (candidates records heads).flatten,
      decide (a ∈ oldest) = true → decide (b ∈ oldest) = false → pruneKey a < pruneKey b := by
    intro a _ b hb hain hbout
    obtain ⟨hb, hself⟩ := hc.mem_candidates.mp hb
    refine ho.2 a (of_decide_eq_true hain) b ?_ hself
    have hmem : b ∈ oldest ++ (replayOrder records).drop excess := by
      rw [List.take_append_drop]
      exact (perm_replayOrder records).mem_iff.mpr hb
    exact (List.mem_append.mp hmem).resolve_left (of_decide_eq_false hbout)
  -- the oldest are all candidates
  have hfilter : ((candidates records heads).flatten.filter fun a => decide (a ∈ oldest)).Perm
      oldest := by
    refine (List.perm_ext_iff_of_nodup (hc.nodup_candidates.filter _) ?_).mpr fun a => ?_
    · exact ((perm_replayOrder records).nodup_iff.mpr hc.nodup).sublist (List.take_sublist _ _)
    · rw [List.mem_filter, hc.mem_candidates, decide_eq_true_iff]
      exact ⟨And.right, fun ha => ⟨⟨hsub a ha, ho.1 a ha⟩, ha⟩⟩
  have hcount : (candidates records heads).flatten.countP (fun a => decide (a ∈ oldest)) =
      excess := by
    rw [List.countP_eq_length_filter, hfilter.length_eq, holdest, List.length_take,
      (perm_replayOrder records).length_eq]
    omega
  obtain ⟨out, hout, hperm⟩ := QueueDrain.drain_perm (fun a => decide (a ∈ oldest)) hfirst hless
  rw [hcount] at hout
  have hselected : selected = out ∨ excess = 0 ∧ selected = [] := by
    rw [FleetFabricStore.pruneHealth, hexcess] at hp
    split at hp
    · rename_i hzero
      exact .inr ⟨hzero, (Except.ok.inj hp).symm⟩
    · obtain ⟨-, hp⟩ := if_error_ok.mp hp
      obtain ⟨-, hp⟩ := if_error_ok.mp hp
      obtain ⟨-, hp⟩ := if_error_ok.mp hp
      rw [hout] at hp
      exact .inl (Except.ok.inj hp).symm
  rcases hselected with rfl | ⟨rfl, rfl⟩
  · exact hperm.trans hfilter
  · exact .refl _

end Chained

/-! ### The guard and the invariant -/

/-- A sample that makes the store prune finds the oldest evidence first in the order of pruning. -/
def FleetFabricStore.PrunesOldest (s : FleetFabricStore) (w : World) : Call → Prop
  | .recordHealth i envelope =>
    ∀ gap ∈ (s.chainGap (w.tenant.heads.get? envelope.sample.deviceId)
        envelope.toHealthPayload).toOption,
      let e := s.evidenceOf envelope i.clock gap
      let records := (w.tenant.records.set e.rowKey e).values
      OldestFirst records (w.tenant.heads.set e.sample.deviceId e) (records.length - s.maxHealth)
  | _ => True

instance (w : World) : (c : Call) → Decidable (s.PrunesOldest w c)
  | .recordHealth _ _ => Option.decidableForallMem _
  | .stageRollout _ _ => isTrue trivial
  | .startCanary _ _ _ _ => isTrue trivial
  | .evaluateCanary _ _ _ _ => isTrue trivial
  | .roster _ _ _ => isTrue trivial
  | .restart => isTrue trivial

/-- Only the evidence that was recorded first is gone, the heads are retained, and every rate state
    in use grants no more than the history. -/
structure Retained (s : FleetFabricStore) (w : World) : Prop extends Recorded s w where
  pruned : ∃ gone, Pruned gone w.tenant.records.values w.accepted ∧
    w.tenant.healthRetentionDrops = gone.length
  headKept : ∀ d h, w.tenant.heads.get? d = some h → h ∈ w.tenant.records.values
  admitted : Admitted s w.accepted
  cached : ∀ state, w.tenant.cache = some state → Covered s state w.accepted

variable {w w' : World} {f' : Tenant} {i : Surroundings} {envelope : SignedFleetHealthEnvelope}
  {e : FleetHealthEvidence} {state : HealthRateState}

theorem retained_initial : Retained s World.initial where
  toRecorded := recorded_initial
  pruned := ⟨[], ⟨.refl _, by simp, by simp [World.initial]⟩, rfl⟩
  headKept d h hh := by cases hh
  admitted := ⟨trivial, fun _ => trivial⟩
  cached state h := by cases h

theorem Retained.rebuild (h : Retained s w) : ∃ state,
    s.healthRateStateFromRecords w.tenant.healthRetentionDrops w.tenant.records.values = .ok state ∧
      Covered s state w.accepted := by
  obtain ⟨gone, hpruned, hdrops⟩ := h.pruned
  rw [hdrops]
  refine rebuild_covered hpruned h.ordered (fun a ha => ?_) h.admitted
  exact h.tenants a (hpruned.perm.mem_iff.mpr (List.mem_append_right _ ha))

/-- Whatever the source of the rate state that is charged, it grants no more than the history. -/
theorem Retained.verified {cacheCurrent : Bool} (h : Retained s w)
    (hv : s.verifiedRateState w.tenant cacheCurrent = .ok state) : Covered s state w.accepted := by
  obtain ⟨rebuilt, hrebuilt, hcovered⟩ := h.rebuild
  rw [FleetFabricStore.verifiedRateState, hrebuilt] at hv
  split at hv
  · rename_i cached hcached
    split at hv
    · exact Except.ok.inj hv ▸ h.cached cached hcached
    · exact Except.ok.inj hv ▸ hcovered
  · exact Except.ok.inj hv ▸ hcovered

theorem Retained.quiet (h : Retained s w) (ha : w'.accepted = w.accepted)
    (hq : Quiet s w.tenant w'.tenant) : Retained s w' where
  toRecorded := h.toRecorded.quiet ha hq
  pruned := by rw [ha, hq.records, hq.drops]; exact h.pruned
  headKept := by rw [hq.records, hq.heads]; exact h.headKept
  admitted := ha ▸ h.admitted
  cached := by
    intro state hstate
    rw [ha]
    rcases hq.cache state hstate with hcache | hrebuilt
    · exact h.cached state hcache
    · obtain ⟨rebuilt, hok, hcovered⟩ := h.rebuild
      exact Except.ok.inj (hok.symm.trans hrebuilt) ▸ hcovered

/-- The retained evidence with new evidence behind it. -/
theorem values_set_fresh {records : Dict (Str × Str) FleetHealthEvidence}
    (h : records.get? e.rowKey = none) :
    (records.set e.rowKey e).values = records.values ++ [e] := by
  have hkey : e.rowKey ∉ records.items.map Prod.fst := by
    rw [Dict.mem_keys, h]
    simp
  exact (congrArg (List.map Prod.snd) (Dict.put_fresh hkey)).trans List.map_append

/-- The store with new evidence, before it is pruned, is chained. -/
theorem Retained.chained (h : Retained s w) (hr : Recorded s ⟨f', w.accepted ++ [e], w.starts⟩)
    (hfresh : w.tenant.records.get? e.rowKey = none)
    (hheads : f'.heads = w.tenant.heads.set e.sample.deviceId e) :
    Chained (w.tenant.records.set e.rowKey e).values (w.tenant.heads.set e.sample.deviceId e) := by
  have hmem : ∀ a ∈ (w.tenant.records.set e.rowKey e).values, a ∈ w.accepted ++ [e] := by
    intro a ha
    rw [values_set_fresh hfresh] at ha
    rcases List.mem_append.mp ha with ha | ha
    · obtain ⟨k, hk⟩ := Dict.mem_values.mp ha
      exact List.mem_append_left _ (h.keyed k a hk).2
    · exact List.mem_append_right _ ha
  constructor
  · have hkeys : (w.tenant.records.set e.rowKey e).values.map FleetHealthEvidence.rowKey =
        (w.tenant.records.set e.rowKey e).items.map Prod.fst := by
      rw [Dict.values, List.map_map]
      refine List.map_congr_left fun item hitem => ?_
      obtain ⟨k, a⟩ := item
      have hk := Dict.mem_items.mp hitem
      rw [Dict.get?_set] at hk
      by_cases hke : k = e.rowKey
      · rw [if_pos hke] at hk
        rw [Function.comp_apply, ← Option.some.inj hk, hke]
      · rw [if_neg hke] at hk
        exact (h.keyed k a hk).1
    rw [hkeys]
    exact (w.tenant.records.set e.rowKey e).nodup
  · intro d a ha
    rw [Dict.get?_set] at ha
    rw [values_set_fresh hfresh]
    by_cases hd : d = e.sample.deviceId
    · rw [if_pos hd] at ha
      obtain rfl := Option.some.inj ha
      exact ⟨List.mem_append_right _ List.mem_cons_self, hd.symm⟩
    · rw [if_neg hd] at ha
      refine ⟨List.mem_append_left _ (h.headKept d a ha), ?_⟩
      rw [h.heads] at ha
      exact (mem_ofDevice.mp (List.mem_of_getLast? ha)).2
  · intro a ha
    have ha' := mem_ofDevice.mpr ⟨hmem a ha, rfl⟩
    have hheads' := hr.heads a.sample.deviceId
    rw [hheads] at hheads'
    rcases hlast : (ofDevice a.sample.deviceId (w.accepted ++ [e])).getLast? with - | head
    · rw [List.getLast?_eq_none_iff.mp hlast] at ha'
      cases ha'
    · refine ⟨head, hheads'.trans hlast, ?_⟩
      exact hr.sequence_le (by rw [hheads]; exact hheads'.trans hlast) ha'
  · intro a ha b hb hd
    rcases pairwise_mem (hr.ordered.and hr.chains) (hmem a ha) (hmem b hb) with h | h | h
    · exact .inl h
    · exact .inr (.inl ⟨h.2 hd, h.1⟩)
    · exact .inr (.inr (h.2 hd.symm))

/-- Deleting the selected evidence leaves the rest. -/
theorem values_commit {records : Dict (Str × Str) FleetHealthEvidence} {kept : List _}
    (hkeyed : ∀ k a, records.get? k = some a → a.rowKey = k)
    (hnodup : (records.values.map FleetHealthEvidence.rowKey).Nodup)
    (hperm : records.values.Perm (selected ++ kept)) :
    (records.keep fun r => selected.all fun e => e.rowKey ≠ r.1).values.Perm kept := by
  have hvalues : (records.keep fun r => selected.all fun e => e.rowKey ≠ r.1).values =
      records.values.filter fun a => selected.all fun e => e.rowKey ≠ a.rowKey := by
    rw [Dict.values, Dict.values, Dict.keep, List.filter_map]
    refine congrArg _ (List.filter_congr fun item hitem => ?_)
    obtain ⟨k, a⟩ := item
    rw [Function.comp_apply, hkeyed k a (Dict.mem_items.mp hitem)]
  have hkeys := (hperm.map FleetHealthEvidence.rowKey).nodup_iff.mp hnodup
  rw [List.map_append, List.nodup_append] at hkeys
  rw [hvalues]
  refine (hperm.filter _).trans ?_
  rw [List.filter_append, List.filter_eq_nil_iff.mpr, List.filter_eq_self.mpr, List.nil_append]
  · intro a ha
    refine List.all_eq_true.mpr fun e he => decide_eq_true fun hkey => ?_
    exact hkeys.2.2 _ (List.mem_map.mpr ⟨e, he, rfl⟩) _ (List.mem_map.mpr ⟨a, ha, rfl⟩) hkey
  · intro a ha hall
    exact of_decide_eq_true (List.all_eq_true.mp hall a ha) rfl

theorem Retained.accept (h : Retained s w) (ha : Accepted s w.tenant i envelope f' e)
    (hg : s.PrunesOldest w (.recordHealth i envelope)) : Retained s ⟨f', w.accepted ++ [e], w.starts⟩ := by
  have hr := h.toRecorded.accept ha
  obtain ⟨-, hclock, -, hfresh, ⟨gap, hgap, he⟩, verified, updated, selected, hverified, hupdated,
    hselected, hf'⟩ := ha
  have hheads : f'.heads = w.tenant.heads.set e.sample.deviceId e := hf' ▸ rfl
  have hchained := h.chained hr hfresh hheads
  obtain ⟨hcovered, hadmitted⟩ := (h.verified hverified).admits h.admitted hupdated
  have holdest := hg gap (by rw [hgap]; rfl)
  rw [← he] at holdest
  set records := (w.tenant.records.set e.rowKey e) with hrecords
  set excess := records.values.length - s.maxHealth with hexcess
  have hperm := hchained.selects holdest hselected
  set kept := (replayOrder records.values).drop excess with hkept
  have hsplit : records.values.Perm (selected ++ kept) := by
    refine ((perm_replayOrder records.values).symm.trans ?_)
    rw [← List.take_append_drop excess (replayOrder records.values)]
    exact hperm.symm.append_right _
  have hkeyed : ∀ k a, records.get? k = some a → a.rowKey = k := by
    intro k a hk
    rw [hrecords, Dict.get?_set] at hk
    by_cases hke : k = e.rowKey
    · rw [if_pos hke] at hk
      rw [← Option.some.inj hk, hke]
    · rw [if_neg hke] at hk
      exact (h.keyed k a hk).1
  have hvalues : f'.records.values.Perm kept := by
    rw [hf']
    exact values_commit hkeyed hchained.keys hsplit
  -- every head is left, since none was selected
  have hhead : ∀ d a, f'.heads.get? d = some a → a ∈ kept := by
    intro d a hd
    rw [hheads] at hd
    obtain ⟨hmem, rfl⟩ := hchained.kept d a hd
    refine (List.mem_append.mp (hsplit.mem_iff.mp hmem)).resolve_left fun hsel => ?_
    exact holdest.1 a (hperm.mem_iff.mp hsel) hd
  refine ⟨hr, ?_, fun d a hd => hvalues.mem_iff.mpr (hhead d a hd), hadmitted, ?_⟩
  · obtain ⟨gone, hpruned, hdrops⟩ := h.pruned
    refine ⟨gone ++ selected, ⟨?_, ?_, ?_⟩, ?_⟩
    · rw [List.append_assoc]
      refine (hpruned.perm.append_right [e]).trans ?_
      rw [List.append_assoc, ← values_set_fresh hfresh]
      exact (hsplit.trans (hvalues.symm.append_left _)).append_left _
    · have hlast : ∀ a ∈ w.accepted, a.recordedAt ≤ e.recordedAt := by
        intro a ha
        rw [he]
        exact (h.past a ha).trans hclock
      intro a ha b hb
      have hb' : b ∈ kept := hvalues.mem_iff.mp hb
      rcases List.mem_append.mp ha with ha | ha
      · have hmem : b ∈ records.values := hsplit.mem_iff.mpr (List.mem_append_right _ hb')
        rw [hrecords, values_set_fresh hfresh] at hmem
        rcases List.mem_append.mp hmem with hmem | hmem
        · exact hpruned.older a ha b hmem
        · rw [List.mem_singleton.mp hmem]
          exact hlast a (hpruned.perm.mem_iff.mpr (List.mem_append_left _ ha))
      · have hsorted := sorted_replayOrder records.values
        rw [← List.take_append_drop excess (replayOrder records.values)] at hsorted
        exact (List.pairwise_append.mp hsorted).2.2 a (hperm.mem_iff.mp ha) b hb'
    · intro a ha
      have ha' := mem_ofDevice.mpr ⟨ha, rfl⟩
      rcases hlast : (ofDevice a.sample.deviceId (w.accepted ++ [e])).getLast? with - | head
      · rw [List.getLast?_eq_none_iff.mp hlast] at ha'
        cases ha'
      · refine ⟨head, hvalues.mem_iff.mpr (hhead a.sample.deviceId head ?_), ?_⟩
        · exact (hr.heads _).trans hlast
        · exact (mem_ofDevice.mp (List.mem_of_getLast? hlast)).2
    · rw [hf', List.length_append]
      exact congrArg (· + selected.length) hdrops
  · intro state hstate
    rw [hf'] at hstate
    exact Option.some.inj hstate ▸ hcovered

theorem run_retained {calls : List Call}
    (h : Run (Guarded s.PrunesOldest s.Step) World.initial calls w) : Retained s w := by
  refine h.invariant (fun w c w' hw hstep => ?_) retained_initial
  obtain ⟨hguard, rfl⟩ := hstep
  rcases step_cases w c with ⟨i, envelope, f', e, rfl, haccepted, hw'⟩ | ⟨hsame, hquiet⟩
  · rw [hw']
    exact hw.accept haccepted hguard
  · exact hw.quiet hsame hquiet

/-! ### Restarting -/

/-- At `t` one bucket grants at most what the other does. -/
def GrantsAtMost (rate : ℚ) (burst : ℕ) (b c : Bucket ℚ) (t : ℚ) : Prop :=
  ∃ x y, refillHealthRateBucket b t rate burst = .ok x ∧
    refillHealthRateBucket c t rate burst = .ok y ∧ x ≤ y

/-- The rate state that is rebuilt grants, from now on, at most what is left of the bursts after
    every event that was ever accepted. -/
def FleetFabricStore.NeverMints (s : FleetFabricStore) (w : World) : Prop :=
  ∃ state,
    s.healthRateStateFromRecords w.tenant.healthRetentionDrops w.tenant.records.values = .ok state ∧
    ∀ t, w.tenant.clockFloor ≤ t →
      GrantsAtMost s.limiter.tenantRate s.limiter.tenantBurst state.tenant
        (s.tenantCharged w.accepted) t ∧
      ∀ d, GrantsAtMost s.limiter.deviceRate s.limiter.deviceBurst (s.deviceBucket state d)
        (s.deviceCharged w.accepted d) t

theorem Below.grants {b c : Bucket ℚ} {rate t : ℚ} {burst : ℕ} (h : b.Below c)
    (hlast : ∀ u ∈ c.last, u ≤ t) : GrantsAtMost rate burst b c t :=
  ⟨_, _, refill_eq (h.last ▸ hlast), refill_eq hlast, h.level t⟩

/-- CORRECT: while pruning takes the oldest evidence, a restart never grants more than the history
    allows. -/
theorem restart_never_mints {calls : List Call}
    (h : Run (Guarded s.PrunesOldest s.Step) World.initial calls w) : s.NeverMints w := by
  have hretained := run_retained h
  obtain ⟨state, hstate, hcovered⟩ := hretained.rebuild
  refine ⟨state, hstate, fun t ht => ⟨?_, fun d => ?_⟩⟩
  · exact Below.grants hcovered.tenant
      (last_replay_le fun e he => (hretained.past e he).trans ht)
  · exact Below.grants (hcovered.devices d)
      (last_replay_le fun e he => (hretained.past e (mem_ofDevice.mp he).1).trans ht)

/-! ### A silent device -/

/-- One device reports once and stays silent; four seconds later another one reports four times. -/
def silentDeviceCalls : List Call :=
  [.roster 0 "dev-a".toList (some deviceKey), .roster 0 "dev-b".toList (some deviceKey),
    .recordHealth (quietSurroundings 0)
      (signed (healthySample "dev-a".toList "a-1".toList 0 named_a1 at_zero) 0 digest_zero),
    .recordHealth (quietSurroundings 4)
      (signed (healthySample "dev-b".toList "b-1".toList 4 named_b1 at_four) 0 digest_zero),
    .recordHealth (quietSurroundings 4)
      (signed (healthySample "dev-b".toList "b-2".toList 4 named_b2 at_four) 1 digest_one),
    .recordHealth (quietSurroundings 4)
      (signed (healthySample "dev-b".toList "b-3".toList 4 named_b3 at_four) 2 digest_two),
    .recordHealth (quietSurroundings 4)
      (signed (healthySample "dev-b".toList "b-4".toList 4 named_b4 at_four) 3 digest_three)]

def silentDevice : World := silentDeviceCalls.foldl smallStore.step World.initial

theorem silentDevice_rebuilt :
    (smallStore.healthRateStateFromRecords silentDevice.tenant.healthRetentionDrops
      silentDevice.tenant.records.values).toOption.map (·.tenant) = some ⟨39, some 4⟩ := by
  decide +kernel

theorem silentDevice_charged : smallStore.tenantCharged silentDevice.accepted = ⟨36, some 4⟩ := by
  decide +kernel

/-- The restarted store holds 39 tokens, where the five events have left 36. -/
theorem silent_device_mints : ¬ ∀ (s : FleetFabricStore) (calls : List Call) (w : World),
    Run s.Step World.initial calls w → s.NeverMints w := by
  intro h
  have hguarded : Run (Guarded (fun _ _ => True) smallStore.Step) World.initial silentDeviceCalls
      silentDevice := Run.of_foldl fun _ _ _ => trivial
  have hrun := hguarded.mono fun _ _ _ hstep => hstep.2
  obtain ⟨state, hstate, hgrants⟩ := h smallStore silentDeviceCalls silentDevice hrun
  have hrebuilt := silentDevice_rebuilt
  rw [hstate] at hrebuilt
  have htenant : state.tenant = ⟨39, some 4⟩ := Option.some.inj hrebuilt
  obtain ⟨⟨x, y, hx, hy, hle⟩, -⟩ := hgrants 4 (by decide +kernel)
  rw [htenant] at hx
  rw [silentDevice_charged] at hy
  have hx39 : x = 39 := by
    have hlevel := refill_ok hx
    rw [hlevel]
    decide +kernel
  have hy36 : y = 36 := by
    have hlevel := refill_ok hy
    rw [hlevel]
    decide +kernel
  rw [hx39, hy36] at hle
  exact absurd hle (by decide)

/-- A device that reports three times, of which the first is deleted. -/
def steadyCalls : List Call :=
  [.roster 0 "dev-a".toList (some deviceKey),
    .recordHealth (quietSurroundings 0)
      (signed (healthySample "dev-a".toList "a-1".toList 0 named_a1 at_zero) 0 digest_zero),
    .recordHealth (quietSurroundings 4)
      (signed (healthySample "dev-a".toList "a-2".toList 4 named_a2 at_four) 1 digest_one),
    .recordHealth (quietSurroundings 5)
      (signed (healthySample "dev-a".toList "a-3".toList 5 named_a3 at_five) 2 digest_two)]

theorem restart_never_mints_sample : ∃ w,
    Run (Guarded smallStore.PrunesOldest smallStore.Step) World.initial steadyCalls w ∧
      w.tenant.healthRetentionDrops = 1 ∧ smallStore.NeverMints w := by
  have hexec : (steadyCalls.foldlM (fun w c =>
      if smallStore.PrunesOldest w c then some (smallStore.step w c) else none)
        World.initial).any (fun w => w.tenant.healthRetentionDrops = 1) = true := by
    decide +kernel
  obtain ⟨w, hw, hdrops⟩ := (Option.any_eq_true _ _).mp hexec
  have hrun : Run (Guarded smallStore.PrunesOldest smallStore.Step) World.initial steadyCalls w :=
    Run.of_checked hw
  exact ⟨w, hrun, of_decide_eq_true hdrops, restart_never_mints hrun⟩

end Angerona.Fabric
