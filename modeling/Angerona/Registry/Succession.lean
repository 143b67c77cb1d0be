import Angerona.Registry.Lifecycle
import Angerona.Registry.Reopen

/-!
    What the calls on a registry do to its active versions.

    At most one version of a package is active. While no call stages an active version, or its
    predecessor, against the signature that is stored for it, and none activates an active version
    over again, only a successful transition changes what `active` returns, and a rollback returns
    to the predecessor. -/

namespace Angerona.Registry
open Text Effect Transition

variable {S : Seals} {F : Format} {valid : Valid} {s s' : Depot} {m : Manifest} {p : Policy}
  {packageId digest : Str} {packages : Packages}

/-! ### Records -/

theorem Packages.record_setRecord (packages : Packages) (packageId digest : Str) (record : Record)
    (i d : Str) : (packages.setRecord packageId digest record).record i d =
      if i = packageId ∧ d = digest then some record else packages.record i d := by
  rw [Packages.record, Packages.setRecord, Dict.get?_set]
  by_cases hi : i = packageId
  · subst hi
    rw [if_pos rfl, Option.bind_some, Dict.get?_set]
    by_cases hd : d = digest
    · rw [if_pos hd, if_pos ⟨rfl, hd⟩]
    · rw [if_neg hd, if_neg fun h => hd h.2, Packages.record]
      rcases packages.get? i with _ | versions
      · rfl
      · rfl
  · rw [if_neg hi, if_neg fun h => hi h.1, Packages.record]

/-- A version that makes room for another. -/
def Record.demoted (r : Record) : Record :=
  if r.state = .active then { r with state := .retired } else r

theorem Record.demoted_ne_active (r : Record) : r.demoted.state ≠ .active := by
  rw [Record.demoted]
  split
  · simp
  · assumption

/-- The packages when `digest` becomes active. -/
def Packages.activate (packages : Packages) (packageId digest : Str) (record : Record) : Packages :=
  packages.set packageId (activated ((packages.get? packageId).getD Dict.empty) digest record)

/-- The digest that is active, other than `digest`. -/
def Packages.other (packages : Packages) (packageId : Str) (digest : Option Str) : Option Str :=
  firstActive ((packages.get? packageId).getD Dict.empty) digest

theorem Packages.record_activate (packages : Packages) (packageId digest : Str) (record : Record)
    (i d : Str) : (packages.activate packageId digest record).record i d =
      if i = packageId then
        if d = digest then some { record with
          state := .active, previousDigest := packages.other packageId (some digest) }
        else (packages.record i d).map Record.demoted
      else packages.record i d := by
  rw [Packages.record, Packages.activate, Dict.get?_set]
  by_cases hi : i = packageId
  · subst hi
    rw [if_pos rfl, if_pos rfl, Option.bind_some, activated, Dict.get?_set]
    by_cases hd : d = digest
    · rw [if_pos hd, if_pos hd]
      rfl
    · rw [if_neg hd, if_neg hd, Dict.get?_map, Packages.record]
      rcases packages.get? i with _ | versions
      · rfl
      · rw [Option.getD_some, Option.bind_some]
        refine congrArg (Option.map · (versions.get? d)) (funext fun r => ?_)
        simp [Record.demoted, hd]
  · rw [if_neg hi, if_neg hi, Packages.record]

/-- The version is active. -/
def Packages.Active (packages : Packages) (packageId digest : Str) : Prop :=
  ∃ r, packages.record packageId digest = some r ∧ r.state = .active

theorem Packages.record_eq (packages : Packages) (packageId digest : Str) :
    packages.record packageId digest =
      ((packages.get? packageId).getD Dict.empty).get? digest := by
  rw [Packages.record]
  rcases packages.get? packageId with _ | versions
  · rfl
  · rfl

theorem Packages.active_of_other {digest : Option Str} {d : Str}
    (h : packages.other packageId digest = some d) :
    packages.Active packageId d ∧ some d ≠ digest := by
  obtain ⟨i, hfind, rfl⟩ := Option.map_eq_some_iff.mp h
  have hi := List.find?_some hfind
  rw [decide_eq_true_iff] at hi
  refine ⟨⟨i.2, ?_, hi.1⟩, hi.2⟩
  rw [Packages.record_eq, ← Dict.mem_items]
  exact List.mem_of_find?_eq_some hfind

theorem Packages.other_isSome {digest : Option Str} {d : Str} (h : packages.Active packageId d)
    (hd : some d ≠ digest) : ∃ d', packages.other packageId digest = some d' := by
  obtain ⟨r, hr, hactive⟩ := h
  rw [Packages.record_eq, ← Dict.mem_items] at hr
  rcases hfind : packages.other packageId digest with _ | d'
  · rw [Packages.other, firstActive, Option.map_eq_none_iff, List.find?_eq_none] at hfind
    exact absurd (decide_eq_true ⟨hactive, hd⟩) (hfind _ hr)
  · exact ⟨d', rfl⟩

/-! ### At most one active version -/

/-- At most one version of a package is active, and it is not its own predecessor. -/
structure Packages.Orderly (packages : Packages) : Prop where
  single : ∀ i d d', packages.Active i d → packages.Active i d' → d = d'
  apart : ∀ i d r, packages.record i d = some r → r.state = .active → r.previousDigest ≠ some d

theorem Packages.Orderly.other_eq (h : packages.Orderly) {digest : Option Str} {d : Str}
    (hd : packages.Active packageId d) (hne : some d ≠ digest) :
    packages.other packageId digest = some d := by
  obtain ⟨d', hd'⟩ := Packages.other_isSome hd hne
  rw [hd', h.single _ _ _ (Packages.active_of_other hd').1 hd]

/-- A record that is active only where the old one was, with the same predecessor. -/
def Record.Keeps (r : Option Record) (r' : Record) : Prop :=
  r'.state = .active → ∃ o, r = some o ∧ o.state = .active ∧ o.previousDigest = r'.previousDigest

theorem Packages.active_setRecord {r' : Record} {i d : Str}
    (hr : Record.Keeps (packages.record packageId digest) r')
    (h : (packages.setRecord packageId digest r').Active i d) : packages.Active i d := by
  obtain ⟨r, hrec, hactive⟩ := h
  rw [Packages.record_setRecord] at hrec
  split at hrec
  · rename_i heq
    obtain ⟨rfl, rfl⟩ := heq
    obtain rfl := Option.some.inj hrec
    obtain ⟨o, ho, hstate, -⟩ := hr hactive
    exact ⟨o, ho, hstate⟩
  · exact ⟨r, hrec, hactive⟩

theorem Packages.Orderly.setRecord (h : packages.Orderly) {r' : Record}
    (hr : Record.Keeps (packages.record packageId digest) r') :
    (packages.setRecord packageId digest r').Orderly := by
  refine ⟨fun i d d' hd hd' => h.single i d d' (Packages.active_setRecord hr hd)
    (Packages.active_setRecord hr hd'), fun i d r hrec hactive => ?_⟩
  rw [Packages.record_setRecord] at hrec
  split at hrec
  · rename_i heq
    obtain ⟨rfl, rfl⟩ := heq
    obtain rfl := Option.some.inj hrec
    obtain ⟨o, ho, hstate, hprev⟩ := hr hactive
    rw [← hprev]
    exact h.apart _ _ o ho hstate
  · exact h.apart i d r hrec hactive

/-- What is active after an activation. -/
theorem Packages.active_activate {record : Record} {i d : Str}
    (h : (packages.activate packageId digest record).Active i d) :
    (i = packageId ∧ d = digest) ∨ (i ≠ packageId ∧ packages.Active i d) := by
  obtain ⟨r, hrec, hactive⟩ := h
  rw [Packages.record_activate] at hrec
  split at hrec
  · rename_i hi
    split at hrec
    · rename_i hd
      exact .inl ⟨hi, hd⟩
    · obtain ⟨o, -, rfl⟩ := Option.map_eq_some_iff.mp hrec
      exact absurd hactive o.demoted_ne_active
  · rename_i hi
    exact .inr ⟨hi, r, hrec, hactive⟩

theorem Packages.Orderly.activate (h : packages.Orderly) (packageId digest : Str)
    (record : Record) : (packages.activate packageId digest record).Orderly := by
  refine ⟨fun i d d' hd hd' => ?_, fun i d r hrec hactive => ?_⟩
  · rcases Packages.active_activate hd with ⟨rfl, rfl⟩ | ⟨hi, ha⟩
    · rcases Packages.active_activate hd' with ⟨-, rfl⟩ | ⟨hi, -⟩
      · rfl
      · exact absurd rfl hi
    · rcases Packages.active_activate hd' with ⟨hi', -⟩ | ⟨-, ha'⟩
      · exact absurd hi' hi
      · exact h.single i d d' ha ha'
  · rw [Packages.record_activate] at hrec
    split at hrec
    · rename_i hi
      split at hrec
      · rename_i hd
        subst hi hd
        obtain rfl := Option.some.inj hrec
        exact fun hother => (Packages.active_of_other hother).2 rfl
      · obtain ⟨o, -, rfl⟩ := Option.map_eq_some_iff.mp hrec
        exact absurd hactive o.demoted_ne_active
    · exact h.apart i d r hrec hactive

/-! ### What a call may do -/

/-- The registry with other packages in its manifest. -/
def Depot.write (s : Depot) (m : Manifest) (packages : Packages) : Depot :=
  { s with root := { s.root with manifest := some { m with packages } } }

/-- The registry that keeps the bytes of a package. -/
def Depot.retained (s : Depot) (digest : Str) (raw : Raw) (sig : Option Raw)
    (signer : Option Str) : Depot :=
  { s with
    files := Function.update s.files digest (some raw)
    sigs := if signer.isSome then Function.update s.sigs digest sig else s.sigs }

def Call.handle : Call → Handle
  | .stage h _ _ => h
  | .activate h _ _ _ => h
  | .rollback h _ _ => h
  | .retire h _ _ _ => h
  | .active h _ => h

/-- The call failed. -/
def Reply.Failed : Reply → Prop
  | .report r => r.ok = false
  | .package _ => False

/-- The calls that may make a version active. -/
inductive Call.Activates : Call → Str → Str → Prop where
  | activate (h : Handle) (capability : Option Authority) (packageId digest : Str) :
      Activates (.activate h capability packageId digest) packageId digest
  | rollback (h : Handle) (capability : Option Authority) (packageId digest : Str) :
      Activates (.rollback h capability packageId) packageId digest

/-- What a call may do, and what it replies. -/
inductive Outcome (S : Seals) (F : Format) (valid : Valid) (s : Depot) :
    Call → Reply → Depot → Prop where
  | refused {c : Call} {r : Report} : r.ok = false → Outcome S F valid s c (.report r) s
  | shown {h : Handle} {packageId : Str} {d : Option Str} :
      Outcome S F valid s (.active h packageId) (.package d) s
  | kept {h : Handle} {raw : Raw} {sig : Option Raw} {packageId digest : Str}
      {signer : Option Str} {r : Report} : s.root.manifest = none → r.ok = false →
      (s.files digest = none ∨ s.files digest = some raw) →
      Outcome S F valid s (.stage h raw sig) (.report r) (s.retained digest raw sig signer)
  | staged {h : Handle} {raw : Raw} {sig : Option Raw} {packageId digest : Str}
      {signer : Option Str} {r : Report} {m : Manifest} : s.root.manifest = some m →
      F.ident raw = some (packageId, digest) → judge F h.trusted raw sig = .ok signer →
      (s.files digest = none ∨ s.files digest = some raw) →
      Outcome S F valid s (.stage h raw sig) (.report r)
        ((s.retained digest raw sig signer).write m (m.packages.setRecord packageId digest
          (stagedRecord m.packages packageId digest signer)))
  | rejected {c : Call} {r : Reply} {m : Manifest} {p : Policy} {packageId digest : Str}
      {record : Record} {e : Raised} : s.root.manifest = some m → m.governance = some p →
      p.trustedKeysPath = c.handle.trusted → m.packages.record packageId digest = some record →
      vet F c.handle valid p.requireSigned s packageId digest record = .error e →
      (∀ q, r = .report q → q.ok = false) →
      Outcome S F valid s c r (s.write m (m.packages.setRecord packageId digest
        { record with state := .quarantined }))
  | activated {c : Call} {r : Report} {m : Manifest} {p : Policy} {packageId digest : Str}
      {record : Record} : s.root.manifest = some m → m.governance = some p →
      p.trustedKeysPath = c.handle.trusted → m.packages.record packageId digest = some record →
      vet F c.handle valid p.requireSigned s packageId digest record = .ok () →
      c.Activates packageId digest → r.ok = true →
      Outcome S F valid s c (.report r) (s.write m (m.packages.activate packageId digest record))
  | retired {h : Handle} {capability : Option Authority} {packageId digest : Str} {r : Report}
      {m : Manifest} {record : Record} : s.root.manifest = some m →
      m.packages.record packageId digest = some record → r.ok = true →
      Outcome S F valid s (.retire h capability packageId digest) (.report r)
        (s.write m (m.packages.setRecord packageId digest { record with state := .retired }))

/-! ### The steps of a call -/

section Steps

variable {ρ : Type} {E : Raised → Depot → Prop}

theorem wp_manifest {Q : Manifest → Depot → Prop} :
    wp (inRoot readManifest) Q E s ↔ (∀ m, s.root.manifest = some m → Q m s) ∧
      (s.root.manifest = none → E (.validation "registry manifest is invalid") s) := by
  rw [inRoot, wp_zoom, readManifest, wp_bind, wp_read, wp_demand]

theorem wp_write (hb : s.root.budget = none) {m : Manifest} {packages : Packages}
    {Q : Unit → Depot → Prop} :
    wp (inRoot (writeManifest { m with packages })) Q E s ↔ Q () (s.write m packages) := by
  rw [inRoot, wp_zoom, writeManifest, wp_durable, hb]
  simp [Depot.write, hb]

theorem wp_policy (h : Handle) (transition : Bool) (m : Manifest) :
    wp (inRoot (assertManifestPolicy S h transition m))
      (fun p t => t = s ∧ m.governance = some p ∧ p.trustedKeysPath = h.trusted)
      (fun _ t => t = s) s := by
  rw [inRoot, wp_zoom]
  refine wp_mono (wp_assertManifestPolicy h transition m) ?_ ?_
  · rintro p w ⟨rfl, hp, ht⟩
    exact ⟨rfl, hp, ht⟩
  · rintro e w rfl
    rfl

/-- A method of the lifecycle is its locked section, or refused. -/
theorem wp_governed {h : Handle} {capability : Option Authority} {digest : Option Str}
    {n : Op Report} {Q : Report → Depot → Prop} (hfail : ∀ r t, r.ok = false → t = s → Q r t)
    (hn : capability = h.authority → wp n Q (fun _ t => t = s) s) :
    wp (governed h capability packageId digest n) Q E s := by
  rw [governed]
  by_cases hc : capability = h.authority
  · rw [if_pos hc, wp_handle]
    exact wp_mono (hn hc) (fun _ _ hq => hq) fun e t ht => hfail _ t rfl ht
  · rw [if_neg hc, wp_handle, wp_bind, assertTransitionAuthority, inRoot, wp_zoom, wp_check]
    exact ⟨fun hc' => absurd hc' hc, fun _ => hfail _ _ rfl rfl⟩

theorem wp_stage (hb : s.root.budget = none) (h : Handle) (raw : Raw) (sig : Option Raw) :
    wp (stage F h valid raw sig)
      (fun r t => Outcome S F valid s (.stage h raw sig) (.report r) t) E s := by
  have hload : ∀ i, load F valid raw = some i → F.ident raw = some i := by
    intro i hi
    rw [load] at hi
    split at hi
    · exact hi
    · exact absurd hi (by simp)
  rw [stage, wp_handle, wp_bind, wp_demand]
  refine ⟨fun i hi => ?_, fun _ => .refused rfl⟩
  rw [wp_bind, wp_lift]
  refine ⟨fun signer hsigner => ?_, fun _ _ => .refused rfl⟩
  rw [stageLocked, wp_bind, retain, wp_bind, wp_read, wp_bind, wp_check]
  refine ⟨fun hsame => ?_, fun _ => .refused rfl⟩
  rw [wp_modify, wp_bind, wp_manifest]
  refine ⟨fun m hm => ?_, fun hm => @Outcome.kept _ _ _ _ _ _ _ i.1 _ _ _ hm rfl hsame⟩
  rw [wp_bind]
  refine (wp_write (s := s.retained i.2 raw sig signer) hb).mpr ?_
  exact .staged hm (hload i hi) hsigner hsame

/-- Writing the packages that are there changes nothing. -/
theorem Depot.write_self (hm : s.root.manifest = some m) : s.write m m.packages = s := by
  obtain ⟨root, files, sigs⟩ := s
  obtain ⟨manifest, anchor, floors, enrolled, budget, log⟩ := root
  obtain rfl : manifest = some m := hm
  rfl

/-- An activation under the lock. -/
theorem wp_activateLocked (hb : s.root.budget = none) {c : Call}
    (hc : c.Activates packageId digest) :
    wp (activateLocked S F c.handle valid packageId digest)
      (fun r t => Outcome S F valid s c (.report r) t) (fun _ t => t = s) s := by
  rw [activateLocked, wp_bind, wp_manifest]
  refine ⟨fun m hm => ?_, fun _ => rfl⟩
  rw [wp_bind]
  refine wp_mono (wp_policy c.handle true m) ?_ fun _ _ ht => ht
  rintro p t ⟨rfl, hp, htrust⟩
  rw [wp_bind, wp_read, wp_bind, wp_write hb, wp_pure, prepare, ← Packages.record_eq]
  rcases hrec : m.packages.record packageId digest with _ | record
  · dsimp only
    rw [Depot.write_self hm]
    exact .refused rfl
  · dsimp only
    by_cases hq : record.state = .quarantined
    · rw [if_pos hq, Depot.write_self hm]
      exact .refused rfl
    · rw [if_neg hq]
      rcases hvet : vet F c.handle valid p.requireSigned t packageId digest record with e | _
      · refine .rejected hm hp htrust hrec hvet fun q hq => ?_
        obtain rfl := Reply.report.inj hq
        rfl
      · exact .activated hm hp htrust hrec hvet hc rfl

theorem wp_activate (hb : s.root.budget = none) (h : Handle) (capability : Option Authority)
    (packageId digest : Str) :
    wp (activate S F h capability valid packageId digest)
      (fun r t => Outcome S F valid s (.activate h capability packageId digest) (.report r) t)
      E s := by
  refine wp_governed (fun r t hr ht => ht ▸ .refused hr) fun _ => ?_
  exact wp_activateLocked hb (.activate h capability packageId digest)

theorem wp_rollback (hb : s.root.budget = none) (h : Handle) (capability : Option Authority)
    (packageId : Str) :
    wp (rollback S F h capability valid packageId)
      (fun r t => Outcome S F valid s (.rollback h capability packageId) (.report r) t) E s := by
  refine wp_governed (fun r t hr ht => ht ▸ .refused hr) fun _ => ?_
  rw [wp_bind, wp_manifest]
  refine ⟨fun m _ => ?_, fun _ => rfl⟩
  rcases rollbackTarget m.packages packageId with _ | digest
  · exact .refused rfl
  · exact wp_activateLocked hb (.rollback h capability packageId digest)

theorem wp_retire (hb : s.root.budget = none) (h : Handle) (capability : Option Authority)
    (packageId digest : Str) :
    wp (retire S h capability packageId digest)
      (fun r t => Outcome S F valid s (.retire h capability packageId digest) (.report r) t)
      E s := by
  refine wp_governed (fun r t hr ht => ht ▸ .refused hr) fun _ => ?_
  rw [retireLocked, wp_bind, wp_manifest]
  refine ⟨fun m hm => ?_, fun _ => rfl⟩
  rw [wp_bind]
  refine wp_mono (wp_policy h true m) ?_ fun _ _ ht => ht
  rintro p t ⟨rfl, -, -⟩
  rcases hrec : m.packages.record packageId digest with _ | record
  · exact .refused rfl
  · rw [Option.elim_some, wp_bind, wp_write hb, wp_pure]
    exact .retired hm hrec rfl

theorem wp_active (hb : s.root.budget = none) (h : Handle) (packageId : Str) :
    wp (active S F h valid packageId)
      (fun d t => Outcome S F valid s (.active h packageId) (.package d) t) E s := by
  rw [active, wp_handle, wp_bind, wp_manifest]
  refine ⟨fun m hm => ?_, fun _ => .shown⟩
  rcases hother : m.packages.other packageId none with _ | digest
  · rw [Packages.other] at hother
    rw [hother]
    exact .shown
  · obtain ⟨⟨record, hrec, hactive⟩, -⟩ := Packages.active_of_other hother
    rw [Packages.other] at hother
    rw [hother, Option.elim_some, trustedActive, wp_bind]
    refine wp_mono (wp_policy h false m) ?_ ?_
    · rintro p t ⟨rfl, hp, htrust⟩
      rw [wp_bind, wp_read, hrec, Option.elim_some]
      rcases hvet : vet F h valid p.requireSigned t packageId digest record with e | _
      · dsimp only
        rw [wp_bind, wp_write hb, wp_pure]
        exact .rejected (c := .active h packageId) hm hp htrust hrec hvet (by simp)
      · exact .shown
    · rintro e t rfl
      exact .shown

/-- Every call has one of the outcomes. -/
theorem wp_run (hb : s.root.budget = none) (c : Call) :
    wp (c.run S F valid) (Outcome S F valid s c) E s := by
  cases c with
  | stage h raw sig => exact wp_bind.mpr (wp_stage hb h raw sig)
  | activate h capability i d => exact wp_bind.mpr (wp_activate hb h capability i d)
  | rollback h capability i => exact wp_bind.mpr (wp_rollback hb h capability i)
  | retire h capability i d => exact wp_bind.mpr (wp_retire hb h capability i d)
  | active h i => exact wp_bind.mpr (wp_active hb h i)

end Steps

/-! ### One active version in every run -/

/-- No call is killed, and the packages are orderly. -/
structure Depot.Tidy (s : Depot) : Prop where
  budget : s.root.budget = none
  orderly : ∀ m, s.root.manifest = some m → m.packages.Orderly

theorem Depot.Tidy.write (h : s.Tidy) {packages : Packages} (ho : packages.Orderly) :
    (s.write m packages).Tidy := by
  refine ⟨h.budget, fun m' hm' => ?_⟩
  obtain rfl := Option.some.inj hm'
  exact ho

theorem Depot.Tidy.retained (h : s.Tidy) (digest : Str) (raw : Raw) (sig : Option Raw)
    (signer : Option Str) : (s.retained digest raw sig signer).Tidy := ⟨h.budget, h.orderly⟩

theorem Record.keeps_of_ne {r : Option Record} {r' : Record} (h : r'.state ≠ .active) :
    Record.Keeps r r' := fun ha => absurd ha h

theorem keeps_stagedRecord (packages : Packages) (packageId digest : Str) (signer : Option Str) :
    Record.Keeps (packages.record packageId digest)
      (stagedRecord packages packageId digest signer) := by
  intro ha
  rcases hrec : packages.record packageId digest with _ | r
  · simp [stagedRecord, hrec] at ha
  · refine ⟨r, rfl, ?_, ?_⟩
    · by_contra hn
      simp [stagedRecord, hrec, hn] at ha
    · simp [stagedRecord, hrec]

theorem Outcome.tidy {c : Call} {r : Reply} (h : s.Tidy) (ho : Outcome S F valid s c r s') :
    s'.Tidy := by
  cases ho with
  | refused _ => exact h
  | shown => exact h
  | kept hm _ _ => exact ⟨h.budget, fun m hm' => absurd (hm.symm.trans hm') (by simp)⟩
  | staged hm _ _ _ =>
    exact (h.retained _ _ _ _).write ((h.orderly _ hm).setRecord (keeps_stagedRecord _ _ _ _))
  | rejected hm _ _ _ _ _ =>
    exact h.write ((h.orderly _ hm).setRecord (Record.keeps_of_ne (by simp)))
  | activated hm _ _ _ _ _ _ => exact h.write ((h.orderly _ hm).activate _ _ _)
  | retired hm _ _ => exact h.write ((h.orderly _ hm).setRecord (Record.keeps_of_ne (by simp)))

/-- The registry after a call. -/
def Depot.after (S : Seals) (F : Format) (s : Depot) (a : Valid × Call) : Depot :=
  (a.2.run S F a.1 s).2

/-- Every call replies, with one of its outcomes. -/
theorem outcome_after (hb : s.root.budget = none) (a : Valid × Call) :
    ∃ r, a.2.run S F a.1 s = (.ok r, s.after S F a) ∧ Outcome S F a.1 s a.2 r (s.after S F a) := by
  have hrun : wp (a.2.run S F a.1) (Outcome S F a.1 s a.2) (fun _ _ => False) s := wp_run hb a.2
  rw [Depot.after]
  rcases hend : a.2.run S F a.1 s with ⟨e | r, t⟩
  · exact (wp_error hrun hend).elim
  · exact ⟨r, rfl, wp_ok hrun hend⟩

/-! ### Versions that pass their gates -/

/-- What `active`, or a rollback, may return: an active version, or the predecessor of one. -/
inductive Packages.Live (packages : Packages) (packageId : Str) : Str → Prop where
  | active {d : Str} : packages.Active packageId d → packages.Live packageId d
  | predecessor {a d : Str} {r : Record} : packages.record packageId a = some r →
      r.state = .active → r.previousDigest = some d → packages.Live packageId d

/-- The file of a version is kept, and the record agrees with the stored signature. -/
structure Vetted (F : Format) (p : Policy) (s : Depot) (packageId digest : Str) (r : Record) :
    Prop where
  file : ∃ raw, s.files digest = some raw ∧ F.ident raw = some (packageId, digest) ∧
    judge F p.trustedKeysPath raw (s.sigs digest) = .ok r.signer
  trusted : r.trusted = r.signer.isSome
  signed : p.requireSigned = true → r.signer ≠ none

theorem vet_ok {h : Handle} {r : Record} (htrust : p.trustedKeysPath = h.trusted) :
    vet F h valid p.requireSigned s packageId digest r = .ok () ↔
      Vetted F p s packageId digest r ∧ ∃ raw, s.files digest = some raw ∧ valid raw = true := by
  rw [vet]
  rcases hraw : s.files digest with _ | raw
  · rw [Option.bind_none]
    refine ⟨fun hn => absurd hn (by simp), ?_⟩
    rintro ⟨-, raw, hn, -⟩
    exact absurd hn (by simp)
  · rw [Option.bind_some, load]
    by_cases hvalid : valid raw = true
    · rw [if_pos hvalid]
      by_cases hident : F.ident raw = some (packageId, digest)
      · rw [hident, Option.map_some]
        dsimp only
        rw [if_neg fun hne => hne rfl]
        rcases hjudge : judge F h.trusted raw (s.sigs digest) with e | signer
        · refine ⟨fun hn => absurd hn (by simp), ?_⟩
          rintro ⟨hv, -⟩
          obtain ⟨raw', he, -, hj⟩ := hv.file
          obtain rfl := Option.some.inj (hraw.symm.trans he)
          rw [htrust, hjudge] at hj
          exact absurd hj (by simp)
        · dsimp only
          constructor
          · intro hok
            split at hok
            · exact absurd hok (by simp)
            · rename_i hsame
              rw [not_or, not_not, not_not] at hsame
              split at hok
              · exact absurd hok (by simp)
              · rename_i hsigned
                refine ⟨⟨⟨raw, hraw, hident, ?_⟩, hsame.1 ▸ hsame.2 ▸ rfl, fun hp hn => ?_⟩,
                  raw, rfl, hvalid⟩
                · rw [htrust, hjudge, hsame.2]
                · exact hsigned ⟨hp, hsame.2.trans hn⟩
          · rintro ⟨hv, -⟩
            obtain ⟨raw', he, -, hj⟩ := hv.file
            obtain rfl := Option.some.inj (hraw.symm.trans he)
            rw [htrust, hjudge] at hj
            have hsigner : signer = r.signer := Except.ok.inj hj
            rw [if_neg, if_neg]
            · rintro ⟨hp, hn⟩
              exact hv.signed hp (hsigner.symm.trans hn)
            · rintro (hne | hne)
              · exact hne (by rw [hsigner, hv.trusted])
              · exact hne hsigner
      · refine iff_of_false (fun hok => ?_) ?_
        · rcases hi : F.ident raw with _ | i
          · rw [hi] at hok
            exact absurd hok (by simp)
          · rw [hi, Option.map_some] at hok
            dsimp only at hok
            rw [if_pos fun he => hident (by rw [hi, he])] at hok
            exact absurd hok (by simp)
        · rintro ⟨hv, -⟩
          obtain ⟨raw', he, hi, -⟩ := hv.file
          obtain rfl := Option.some.inj (hraw.symm.trans he)
          exact hident hi
    · rw [if_neg hvalid]
      refine ⟨fun hn => absurd hn (by simp), ?_⟩
      rintro ⟨-, raw', he, hv⟩
      obtain rfl := Option.some.inj he
      exact absurd hv hvalid

/-! ### What careful calls keep -/

/-- Validly signed packages are still unexpired. -/
def Depot.Steady (s : Depot) (valid : Valid) : Prop :=
  ∀ d raw, s.files d = some raw → valid raw = true

/-- A stage of a live version finds what the stored signature says, and no activation names a
    version that is active with a predecessor. -/
def Call.Careful (F : Format) (s : Depot) : Call → Prop
  | .stage h raw sig => ∀ m p packageId digest signer, s.root.manifest = some m →
      m.governance = some p → F.ident raw = some (packageId, digest) →
      m.packages.Live packageId digest → judge F h.trusted raw sig = .ok signer →
      judge F p.trustedKeysPath raw (if signer.isSome then sig else s.sigs digest) = .ok signer
  | .activate _ _ packageId digest => ∀ m r, s.root.manifest = some m →
      m.packages.record packageId digest = some r → r.state = .active → r.previousDigest = none
  | _ => True

/-- Every live version passes its gates. -/
structure Depot.Sound (F : Format) (s : Depot) : Prop where
  tidy : s.Tidy
  vetted : ∀ m i d, s.root.manifest = some m → m.packages.Live i d →
    ∃ p r, m.governance = some p ∧ m.packages.record i d = some r ∧ r.state ≠ .quarantined ∧
      Vetted F p s i d r

theorem Packages.live_setRecord {r' : Record} {i d : Str}
    (hr : Record.Keeps (packages.record packageId digest) r')
    (h : (packages.setRecord packageId digest r').Live i d) : packages.Live i d := by
  cases h with
  | active ha => exact .active (Packages.active_setRecord hr ha)
  | predecessor hrec hactive hprev =>
    rw [Packages.record_setRecord] at hrec
    split at hrec
    · rename_i heq
      obtain ⟨rfl, rfl⟩ := heq
      obtain rfl := Option.some.inj hrec
      obtain ⟨o, ho, hstate, hsame⟩ := hr hactive
      exact .predecessor ho hstate (hsame.trans hprev)
    · exact .predecessor hrec hactive hprev

theorem Vetted.congr {r r' : Record} {i d : Str} (h : Vetted F p s i d r)
    (hf : s'.files d = s.files d) (hg : s'.sigs d = s.sigs d) (ht : r'.trusted = r.trusted)
    (hr : r'.signer = r.signer) : Vetted F p s' i d r' := by
  obtain ⟨raw, hraw, hident, hjudge⟩ := h.file
  exact ⟨⟨raw, hf.trans hraw, hident, by rw [hg, hr, hjudge]⟩, by rw [ht, hr, h.trusted],
    fun hp => hr ▸ h.signed hp⟩

/-- A changed record that keeps the verdict. -/
theorem Depot.Sound.setRecord (h : s.Sound F) (hm : s.root.manifest = some m) {r' : Record}
    (hr : Record.Keeps (m.packages.record packageId digest) r')
    (hlive : m.packages.Live packageId digest → r'.state ≠ .quarantined ∧
      ∀ r, m.packages.record packageId digest = some r →
        r'.trusted = r.trusted ∧ r'.signer = r.signer) :
    (s.write m (m.packages.setRecord packageId digest r')).Sound F := by
  refine ⟨h.tidy.write ((h.tidy.orderly m hm).setRecord hr), fun m' i d hm' hl => ?_⟩
  obtain rfl := Option.some.inj hm'
  have hold := Packages.live_setRecord hr hl
  obtain ⟨p, r, hp, hrec, hq, hv⟩ := h.vetted m i d hm hold
  by_cases heq : i = packageId ∧ d = digest
  · obtain ⟨rfl, rfl⟩ := heq
    obtain ⟨hq', hsame⟩ := hlive hold
    obtain ⟨ht, hs⟩ := hsame r hrec
    refine ⟨p, r', hp, ?_, hq', hv.congr rfl rfl ht hs⟩
    rw [Packages.record_setRecord, if_pos ⟨rfl, rfl⟩]
  · refine ⟨p, r, hp, ?_, hq, hv.congr rfl rfl rfl rfl⟩
    rw [Packages.record_setRecord, if_neg heq, hrec]

/-- A rejected version is not live. -/
theorem Depot.Sound.not_live (h : s.Sound F) (hsteady : s.Steady valid) {handle : Handle}
    {record : Record} {e : Raised} (hm : s.root.manifest = some m) (hp : m.governance = some p)
    (htrust : p.trustedKeysPath = handle.trusted)
    (hrec : m.packages.record packageId digest = some record)
    (hvet : vet F handle valid p.requireSigned s packageId digest record = .error e) :
    ¬m.packages.Live packageId digest := by
  intro hl
  obtain ⟨p', r, hp', hrec', -, hv⟩ := h.vetted m packageId digest hm hl
  obtain rfl := Option.some.inj (hp.symm.trans hp')
  obtain rfl := Option.some.inj (hrec.symm.trans hrec')
  obtain ⟨raw, hraw, -⟩ := hv.file
  have hok := (vet_ok htrust).mpr ⟨hv, raw, hraw, hsteady digest raw hraw⟩
  rw [hvet] at hok
  exact absurd hok (by simp)

/-- What is live after an activation was active, or is the version itself. -/
theorem Packages.live_activate {record : Record} {i d : Str}
    (h : (packages.activate packageId digest record).Live i d) :
    (i = packageId ∧ d = digest) ∨ (i = packageId ∧ d ≠ digest ∧ packages.Active i d) ∨
      (i ≠ packageId ∧ packages.Live i d) := by
  cases h with
  | active ha =>
    rcases Packages.active_activate ha with heq | ⟨hi, ha⟩
    · exact .inl heq
    · exact .inr (.inr ⟨hi, .active ha⟩)
  | predecessor hrec hactive hprev =>
    rw [Packages.record_activate] at hrec
    split at hrec
    · rename_i hi
      split at hrec
      · obtain rfl := Option.some.inj hrec
        obtain ⟨ha, hne⟩ := Packages.active_of_other hprev
        exact .inr (.inl ⟨hi, fun he => hne (congrArg some he), hi ▸ ha⟩)
      · obtain ⟨o, -, rfl⟩ := Option.map_eq_some_iff.mp hrec
        exact absurd hactive o.demoted_ne_active
    · rename_i hi
      exact .inr (.inr ⟨hi, .predecessor hrec hactive hprev⟩)

theorem Depot.Sound.activate (h : s.Sound F) (hm : s.root.manifest = some m)
    (hp : m.governance = some p) {record : Record}
    (hv : Vetted F p s packageId digest record) :
    (s.write m (m.packages.activate packageId digest record)).Sound F := by
  refine ⟨h.tidy.write ((h.tidy.orderly m hm).activate _ _ _), fun m' i d hm' hl => ?_⟩
  obtain rfl := Option.some.inj hm'
  rcases Packages.live_activate hl with ⟨rfl, rfl⟩ | ⟨rfl, hd, ha⟩ | ⟨hi, hl⟩
  · refine ⟨p, { record with
      state := .active, previousDigest := m.packages.other i (some d) }, hp, ?_, by simp,
      hv.congr rfl rfl rfl rfl⟩
    rw [Packages.record_activate, if_pos rfl, if_pos rfl]
  · obtain ⟨p', r, hp', hrec, -, hv'⟩ := h.vetted m i d hm (.active ha)
    refine ⟨p', r.demoted, hp', ?_, ?_, hv'.congr rfl rfl ?_ ?_⟩
    · rw [Packages.record_activate, if_pos rfl, if_neg hd, hrec]
      rfl
    · obtain ⟨r', hrec', hactive⟩ := ha
      obtain rfl := Option.some.inj (hrec.symm.trans hrec')
      simp [Record.demoted, hactive]
    · rw [Record.demoted]
      split <;> rfl
    · rw [Record.demoted]
      split <;> rfl
  · obtain ⟨p', r, hp', hrec, hq, hv'⟩ := h.vetted m i d hm hl
    refine ⟨p', r, hp', ?_, hq, hv'.congr rfl rfl rfl rfl⟩
    rw [Packages.record_activate, if_neg hi, hrec]

theorem Depot.sigs_retained (s : Depot) (digest : Str) (raw : Raw) (sig : Option Raw)
    (signer : Option Str) (d : Str) : (s.retained digest raw sig signer).sigs d =
      if d = digest ∧ signer.isSome = true then sig else s.sigs d := by
  rw [Depot.retained]
  dsimp only
  by_cases hs : signer.isSome = true
  · rw [if_pos hs, Function.update_apply]
    by_cases hd : d = digest
    · rw [if_pos hd, if_pos ⟨hd, hs⟩]
    · rw [if_neg hd, if_neg fun h => hd h.1]
  · rw [if_neg hs, if_neg fun h => hs h.2]

theorem stagedRecord_state (packages : Packages) (packageId digest : Str) (signer : Option Str) :
    (stagedRecord packages packageId digest signer).state ≠ .quarantined := by
  rw [stagedRecord]
  dsimp only
  split
  · simp
  · simp

/-- A stage that agrees with the stored signature keeps every verdict. -/
theorem Depot.Sound.stage (h : s.Sound F) (hm : s.root.manifest = some m) {handle : Handle}
    {raw : Raw} {sig : Option Raw} {signer : Option Str}
    (hcareful : (Call.stage handle raw sig).Careful F s)
    (hident : F.ident raw = some (packageId, digest))
    (hjudge : judge F handle.trusted raw sig = .ok signer)
    (hsame : s.files digest = none ∨ s.files digest = some raw) :
    ((s.retained digest raw sig signer).write m (m.packages.setRecord packageId digest
      (stagedRecord m.packages packageId digest signer))).Sound F := by
  have hkeeps := keeps_stagedRecord m.packages packageId digest signer
  refine ⟨(h.tidy.retained _ _ _ _).write ((h.tidy.orderly m hm).setRecord hkeeps),
    fun m' i d hm' hl => ?_⟩
  obtain rfl := Option.some.inj hm'
  have hold := Packages.live_setRecord hkeeps hl
  obtain ⟨p, r, hp, hrec, hq, hv⟩ := h.vetted m i d hm hold
  obtain ⟨raw', hraw, hident', hjudge'⟩ := hv.file
  by_cases heq : i = packageId ∧ d = digest
  · obtain ⟨rfl, rfl⟩ := heq
    have hagree := hcareful m p i d signer hm hp hident hold hjudge
    have hrr : raw' = raw := by
      rcases hsame with hn | he
      · exact absurd (hn.symm.trans hraw) (by simp)
      · exact Option.some.inj (hraw.symm.trans he)
    subst hrr
    refine ⟨p, stagedRecord m.packages i d signer, hp, ?_, stagedRecord_state _ _ _ _,
      ⟨⟨raw', Function.update_self .., hident, ?_⟩, rfl, fun hsigned hn => ?_⟩⟩
    · rw [Packages.record_setRecord, if_pos ⟨rfl, rfl⟩]
    · change judge F p.trustedKeysPath raw' ((s.retained d raw' sig signer).sigs d) = .ok signer
      rw [Depot.sigs_retained]
      by_cases hs : signer.isSome = true
      · rw [if_pos ⟨rfl, hs⟩]
        rwa [if_pos hs] at hagree
      · rw [if_neg fun h => hs h.2]
        rwa [if_neg hs] at hagree
    · -- nothing is stored, so the version was unsigned before
      have hnone : signer = none := hn
      rw [hnone, if_neg (by simp), hjudge'] at hagree
      exact hv.signed hsigned (Except.ok.inj hagree)
  · have hd : d ≠ digest := by
      rintro rfl
      rcases hsame with hn | he
      · exact absurd (hn.symm.trans hraw) (by simp)
      · obtain rfl := Option.some.inj (hraw.symm.trans he)
        obtain ⟨rfl, -⟩ := Prod.mk.inj (Option.some.inj (hident'.symm.trans hident))
        exact heq ⟨rfl, rfl⟩
    refine ⟨p, r, hp, ?_, hq, hv.congr (Function.update_of_ne hd ..) ?_ rfl rfl⟩
    · rw [Packages.record_setRecord, if_neg heq, hrec]
    · change (s.retained digest raw sig signer).sigs d = s.sigs d
      rw [Depot.sigs_retained, if_neg fun h => hd h.1]

/-- Careful calls keep every verdict. -/
theorem Outcome.sound {c : Call} {r : Reply} (h : s.Sound F) (hsteady : s.Steady valid)
    (hcareful : c.Careful F s) (ho : Outcome S F valid s c r s') : s'.Sound F := by
  cases ho with
  | refused _ => exact h
  | shown => exact h
  | kept hm _ _ =>
    exact ⟨h.tidy.retained _ _ _ _, fun m _ _ hm' => absurd (hm.symm.trans hm') (by simp)⟩
  | staged hm hident hjudge hsame => exact h.stage hm hcareful hident hjudge hsame
  | rejected hm hp htrust hrec hvet _ =>
    exact h.setRecord hm (Record.keeps_of_ne (by simp)) fun hl =>
      absurd hl (h.not_live hsteady hm hp htrust hrec hvet)
  | activated hm hp htrust _ hvet _ _ =>
    exact h.activate hm hp ((vet_ok htrust).mp hvet).1
  | retired hm hrec _ =>
    refine h.setRecord hm (Record.keeps_of_ne (by simp)) fun _ => ⟨by simp, fun r hr => ?_⟩
    obtain rfl := Option.some.inj (hrec.symm.trans hr)
    exact ⟨rfl, rfl⟩

/-! ### What is returned -/

/-- The checks of the policy accept the handle. -/
def Accepted (S : Seals) (h : Handle) (transition : Bool) (m : Manifest) (w : World) : Prop :=
  ∃ p, (assertManifestPolicy S h transition m w).1 = .ok p

/-- The packages have no part in the checks of the policy. -/
theorem accepted_write {h : Handle} {transition : Bool} {w : World} {manifest : Option Manifest} :
    Accepted S h transition { m with packages } { w with manifest } ↔
      Accepted S h transition m w := by
  have hhandle : ∀ p : Policy,
      wp (checkHandle S h transition p) (fun _ _ => True) (fun _ _ => False)
        { w with manifest } ↔
      wp (checkHandle S h transition p) (fun _ _ => True) (fun _ _ => False) w := by
    intro p
    rw [checkHandle]
    split
    · simp only [readAnchor, assertAnchor, wp_bind, wp_demand, wp_check, wp_read, wp_pure]
    · simp only [wp_bind, wp_check, wp_read]
      rfl
    · simp only [wp_check]
  rw [Accepted, Accepted, ← wp_returns, ← wp_returns]
  simp only [assertManifestPolicy, wp_bind, wp_demand, wp_check, wp_read, wp_pure, hhandle]
  rfl

/-- What `active` returns of a registry whose live versions pass their gates. -/
def Depot.Shows (S : Seals) (s : Depot) (h : Handle) (valid : Valid) (packageId digest : Str) :
    Prop :=
  ∃ m raw, s.root.manifest = some m ∧ Accepted S h false m s.root ∧
    m.packages.Active packageId digest ∧ s.files digest = some raw ∧ valid raw = true

theorem wp_accepted (h : Handle) (transition : Bool) (m : Manifest) :
    wp (inRoot (assertManifestPolicy S h transition m))
      (fun p t => Accepted S h transition m s.root ∧ t = s ∧ m.governance = some p ∧
        p.trustedKeysPath = h.trusted)
      (fun _ t => ¬Accepted S h transition m s.root ∧ t = s) s := by
  have hself := wp_self (assertManifestPolicy S h transition m) s.root
  have hpolicy := wp_policy (S := S) (s := s) h transition m
  rw [inRoot, wp_zoom] at hpolicy ⊢
  refine wp_mono (wp_and hself hpolicy) ?_ ?_
  · rintro p w ⟨hend, hw⟩
    exact ⟨⟨p, by rw [hend]⟩, hw⟩
  · rintro e w ⟨hend, hw⟩
    refine ⟨?_, hw⟩
    rintro ⟨p, hp⟩
    rw [hend] at hp
    exact absurd hp (by simp)

theorem active_shows (hs : s.Sound F) (h : Handle) (packageId : Str) :
    ∃ o, (active S F h valid packageId s).1 = .ok o ∧
      ∀ d, o = some d ↔ s.Shows S h valid packageId d := by
  have hrun : wp (active S F h valid packageId)
      (fun o _ => ∀ d, o = some d ↔ s.Shows S h valid packageId d) (fun _ _ => False) s := by
    rw [active, wp_handle, wp_bind, wp_manifest]
    refine ⟨fun m hm => ?_, fun hm d => iff_of_false (by simp) ?_⟩
    swap
    · rintro ⟨m, -, hm', -⟩
      exact absurd (hm.symm.trans hm') (by simp)
    have horderly := hs.tidy.orderly m hm
    rcases hother : m.packages.other packageId none with _ | digest
    · have hnone : ∀ d, ¬m.packages.Active packageId d := by
        intro d hd
        obtain ⟨d', hd'⟩ : ∃ d', m.packages.other packageId none = some d' :=
          Packages.other_isSome hd (by simp)
        exact absurd (hother.symm.trans hd') (by simp)
      rw [Packages.other] at hother
      rw [hother]
      refine fun d => iff_of_false (by simp) ?_
      rintro ⟨m', -, hm', -, ha, -⟩
      obtain rfl := Option.some.inj (hm.symm.trans hm')
      exact hnone d ha
    · have ha := (Packages.active_of_other hother).1
      have honly : ∀ d, s.Shows S h valid packageId d → d = digest ∧
          Accepted S h false m s.root ∧ ∃ raw, s.files digest = some raw ∧ valid raw = true := by
        rintro d ⟨m', raw, hm', hacc, hd, hraw, hvalid⟩
        obtain rfl := Option.some.inj (hm.symm.trans hm')
        obtain rfl := horderly.single _ _ _ hd ha
        exact ⟨rfl, hacc, raw, hraw, hvalid⟩
      rw [Packages.other] at hother
      rw [hother, Option.elim_some, trustedActive, wp_bind]
      refine wp_mono (wp_accepted h false m) ?_ ?_
      · rintro p t ⟨hacc, rfl, hp, htrust⟩
        obtain ⟨p', r, hp', hrec, -, hv⟩ := hs.vetted m packageId digest hm (.active ha)
        obtain rfl := Option.some.inj (hp.symm.trans hp')
        rw [wp_bind, wp_read, hrec, Option.elim_some]
        have hiff : vet F h valid p.requireSigned t packageId digest r = .ok () ↔
          Vetted F p t packageId digest r ∧ ∃ raw, t.files digest = some raw ∧ valid raw = true :=
            vet_ok htrust
        rcases hvet : vet F h valid p.requireSigned t packageId digest r with e | _
        · dsimp only
          rw [wp_bind, wp_write hs.tidy.budget, wp_pure]
          refine fun d => iff_of_false (by simp) fun hd => ?_
          have hok := hiff.mpr ⟨hv, (honly d hd).2.2⟩
          rw [hvet] at hok
          exact absurd hok (by simp)
        · intro d
          constructor
          · intro hd
            obtain rfl := Option.some.inj hd
            obtain ⟨raw, hraw, hvalid⟩ := (hiff.mp hvet).2
            exact ⟨m, raw, hm, hacc, ha, hraw, hvalid⟩
          · exact fun hd => congrArg some (honly d hd).1.symm
      · rintro e t ⟨hacc, rfl⟩
        exact fun d => iff_of_false (by simp) fun hd => hacc (honly d hd).2.1
  rcases hend : active S F h valid packageId s with ⟨e | o, t⟩
  · exact (wp_error hrun hend).elim
  · exact ⟨o, rfl, wp_ok hrun hend⟩

/-- A stage, or a call that fails. -/
def Call.Harmless (c : Call) (r : Reply) : Prop :=
  (∃ h raw sig, c = .stage h raw sig) ∨ r.Failed

theorem Packages.active_setRecord_iff {r' : Record} (i d : Str)
    (hr : Record.Keeps (packages.record packageId digest) r')
    (hkeep : packages.Active packageId digest → r'.state = .active) :
    (packages.setRecord packageId digest r').Active i d ↔ packages.Active i d := by
  refine ⟨Packages.active_setRecord hr, ?_⟩
  rintro ⟨r, hrec, hactive⟩
  by_cases heq : i = packageId ∧ d = digest
  · refine ⟨r', ?_, ?_⟩
    · rw [Packages.record_setRecord, if_pos heq]
    · obtain ⟨rfl, rfl⟩ := heq
      exact hkeep ⟨r, hrec, hactive⟩
  · refine ⟨r, ?_, hactive⟩
    rw [Packages.record_setRecord, if_neg heq, hrec]

/-- Other packages with the same active versions, whose files are the same. -/
theorem Depot.shows_write (hm : s.root.manifest = some m) (hroot : s'.root = s.root)
    (hactive : ∀ i d, packages.Active i d ↔ m.packages.Active i d)
    (hfiles : ∀ i d, m.packages.Active i d → s'.files d = s.files d) (handle : Handle)
    (i d : Str) :
    (s'.write m packages).Shows S handle valid i d ↔ s.Shows S handle valid i d := by
  constructor
  · rintro ⟨m', raw, hm', hacc, ha, hraw, hvalid⟩
    obtain rfl := Option.some.inj hm'
    have hold := (hactive i d).mp ha
    refine ⟨m, raw, hm, ?_, hold, (hfiles i d hold).symm.trans hraw, hvalid⟩
    rw [Depot.write, hroot] at hacc
    exact accepted_write.mp hacc
  · rintro ⟨m', raw, hm', hacc, ha, hraw, hvalid⟩
    obtain rfl := Option.some.inj (hm.symm.trans hm')
    refine ⟨_, raw, rfl, ?_, (hactive i d).mpr ha, (hfiles i d ha).trans hraw, hvalid⟩
    rw [Depot.write, hroot]
    exact accepted_write.mpr hacc

/-- A harmless call changes at most records that are not active. -/
theorem Outcome.shows {c : Call} {r : Reply} (h : s.Sound F) (hsteady : s.Steady valid)
    (ho : Outcome S F valid s c r s') (hless : c.Harmless r) (handle : Handle) (valid' : Valid)
    (i d : Str) : s'.Shows S handle valid' i d ↔ s.Shows S handle valid' i d := by
  cases ho with
  | refused _ => exact Iff.rfl
  | shown => exact Iff.rfl
  | kept hm _ _ =>
    refine iff_of_false ?_ ?_
    · rintro ⟨m, -, hm', -⟩
      exact absurd (hm.symm.trans hm') (by simp)
    · rintro ⟨m, -, hm', -⟩
      exact absurd (hm.symm.trans hm') (by simp)
  | @staged _ raw sig packageId digest signer _ m hm hident hjudge hsame =>
    have hroot : (s.retained digest raw sig signer).root = s.root := rfl
    refine Depot.shows_write hm hroot (fun i d => ?_)
      (fun i d ha => ?_) handle i d
    · refine Packages.active_setRecord_iff i d (keeps_stagedRecord _ _ _ _) ?_
      rintro ⟨o, ho, hactive⟩
      simp [stagedRecord, ho, hactive]
    · obtain ⟨p, o, -, -, -, hv⟩ := h.vetted m i d hm (.active ha)
      obtain ⟨raw', hraw, -⟩ := hv.file
      by_cases hd : d = digest
      · subst hd
        rcases hsame with hn | he
        · exact absurd (hn.symm.trans hraw) (by simp)
        · exact (Function.update_self ..).trans he.symm
      · exact Function.update_of_ne hd ..
  | rejected hm hp htrust hrec hvet _ =>
    refine Depot.shows_write hm rfl (fun i d => ?_) (fun i d ha => rfl) handle i d
    refine Packages.active_setRecord_iff i d (Record.keeps_of_ne (by simp)) fun ha => ?_
    exact absurd (.active ha) (h.not_live hsteady hm hp htrust hrec hvet)
  | activated _ _ _ _ _ hc hr =>
    rcases hless with ⟨_, _, _, rfl⟩ | hf
    · cases hc
    · exact absurd (hr.symm.trans hf) (by simp)
  | retired _ _ hr =>
    rcases hless with ⟨_, _, _, he⟩ | hf
    · exact absurd he (by simp)
    · exact absurd (hr.symm.trans hf) (by simp)

/-! ### The predecessor -/

/-- The version is active, and records its predecessor. -/
def Depot.Follows (s : Depot) (packageId digest prior : Str) : Prop :=
  ∃ m r, s.root.manifest = some m ∧ m.packages.record packageId digest = some r ∧
    r.state = .active ∧ r.previousDigest = some prior

/-- The version is active. -/
def Depot.Active (s : Depot) (packageId digest : Str) : Prop :=
  ∃ m, s.root.manifest = some m ∧ m.packages.Active packageId digest

theorem Depot.Follows.active {prior : Str} (h : s.Follows packageId digest prior) :
    s.Active packageId digest := by
  obtain ⟨m, r, hm, hrec, hactive, -⟩ := h
  exact ⟨m, hm, r, hrec, hactive⟩

theorem Depot.follows_setRecord (hm : s.root.manifest = some m) {d prior i : Str}
    (h : s.Follows i d prior) {r' : Record}
    (hkeep : ∀ r, i = packageId ∧ d = digest → m.packages.record i d = some r →
      r.state = .active → r'.state = .active ∧ r'.previousDigest = r.previousDigest) :
    (s'.write m (m.packages.setRecord packageId digest r')).Follows i d prior := by
  obtain ⟨m', r, hm', hrec, hactive, hprev⟩ := h
  obtain rfl := Option.some.inj (hm.symm.trans hm')
  by_cases heq : i = packageId ∧ d = digest
  · obtain ⟨ha, hp⟩ := hkeep r heq hrec hactive
    refine ⟨_, r', rfl, ?_, ha, hp.trans hprev⟩
    rw [Packages.record_setRecord, if_pos heq]
  · refine ⟨_, r, rfl, ?_, hactive, hprev⟩
    rw [Packages.record_setRecord, if_neg heq, hrec]

/-- A read, or a harmless call. -/
def Call.Spares (c : Call) (r : Reply) : Prop := c.Harmless r ∨ ∃ h i, c = .active h i

theorem Outcome.follows {c : Call} {r : Reply} {i d prior : Str} (h : s.Sound F)
    (hsteady : s.Steady valid) (ho : Outcome S F valid s c r s') (hless : c.Spares r)
    (hf : s.Follows i d prior) : s'.Follows i d prior := by
  have hnot : ∀ {r : Report}, r.ok = true → c.Spares (.report r) →
      (∃ h raw sig, c = .stage h raw sig) ∨ ∃ h i, c = .active h i := by
    intro r hr hless
    rcases hless with (hstage | hfail) | hread
    · exact .inl hstage
    · exact absurd (hr.symm.trans hfail) (by simp)
    · exact .inr hread
  cases ho with
  | refused _ => exact hf
  | shown => exact hf
  | kept hm _ _ =>
    obtain ⟨m, -, hm', -⟩ := hf
    exact absurd (hm.symm.trans hm') (by simp)
  | @staged _ raw sig packageId digest signer _ m hm _ _ _ =>
    refine Depot.follows_setRecord hm hf fun o heq hrec hactive => ?_
    rw [heq.1, heq.2] at hrec
    simp [stagedRecord, hrec, hactive]
  | rejected hm hp htrust hrec hvet _ =>
    refine Depot.follows_setRecord hm hf fun o heq hrec' hactive => ?_
    rw [heq.1, heq.2] at hrec'
    exact absurd (.active ⟨o, hrec', hactive⟩) (h.not_live hsteady hm hp htrust hrec hvet)
  | activated _ _ _ _ _ hc hr =>
    rcases hnot hr hless with ⟨_, _, _, rfl⟩ | ⟨_, _, rfl⟩
    · cases hc
    · cases hc
  | retired _ _ hr =>
    rcases hnot hr hless with ⟨_, _, _, he⟩ | ⟨_, _, he⟩
    · exact absurd he (by simp)
    · exact absurd he (by simp)

/-- An activation over an active version records it. -/
theorem Outcome.activated_over {h : Handle} {capability : Option Authority} {r : Report}
    {i d prior : Str} (htidy : s.Tidy)
    (ho : Outcome S F valid s (.activate h capability i d) (.report r) s') (hr : r.ok = true)
    (hprior : s.Active i prior) (hne : d ≠ prior) : s'.Follows i d prior := by
  obtain ⟨m', hm', ha⟩ := hprior
  cases ho with
  | refused hr' => exact absurd (hr.symm.trans hr') (by simp)
  | rejected _ _ _ _ _ hfail => exact absurd (hr.symm.trans (hfail r rfl)) (by simp)
  | @activated _ _ m p _ _ record hm _ _ _ _ hc _ =>
    cases hc
    obtain rfl := Option.some.inj (hm.symm.trans hm')
    refine ⟨_, { record with
      state := .active, previousDigest := m.packages.other i (some d) }, rfl, ?_, rfl, ?_⟩
    · rw [Packages.record_activate, if_pos rfl, if_pos rfl]
    · exact (htidy.orderly m hm).other_eq ha fun he => hne (Option.some.inj he).symm

theorem Packages.Orderly.rollbackTarget (h : packages.Orderly) {r : Record}
    (hrec : packages.record packageId digest = some r) (hactive : r.state = .active) :
    rollbackTarget packages packageId = r.previousDigest := by
  have hother : packages.other packageId none = some digest :=
    h.other_eq ⟨r, hrec, hactive⟩ (by simp)
  rw [Packages.other] at hother
  rw [Packages.record] at hrec
  obtain ⟨versions, hversions, hget⟩ := Option.bind_eq_some_iff.mp hrec
  rw [hversions, Option.getD_some] at hother
  rw [Registry.rollbackTarget, hversions]
  change (firstActive versions none).bind (fun active => (versions.get? active).bind _) = _
  rw [hother, Option.bind_some, hget, Option.bind_some]

/-- A handle that the policy accepts for a transition. -/
def Depot.Accepts (S : Seals) (s : Depot) (h : Handle) : Prop :=
  ∃ m, s.root.manifest = some m ∧ Accepted S h true m s.root

/-- A rollback finds the predecessor live. -/
theorem wp_rollback_follows (h : s.Sound F) (hsteady : s.Steady valid) {i d prior : Str}
    (hf : s.Follows i d prior) {handle : Handle} (hacc : s.Accepts S handle) :
    wp (rollback S F handle handle.authority valid i)
      (fun r t => r.ok = true ∧ t.Active i prior) (fun _ _ => False) s := by
  obtain ⟨m, r, hm, hrec, hactive, hprev⟩ := hf
  obtain ⟨p, o, hp, ho, hstate, hv⟩ := h.vetted m i prior hm (.predecessor hrec hactive hprev)
  rw [rollback, governed, if_pos rfl, wp_handle, wp_bind, wp_manifest]
  refine ⟨fun m' hm' => ?_, fun hn => absurd (hm.symm.trans hn) (by simp)⟩
  obtain rfl := Option.some.inj (hm.symm.trans hm')
  rw [(h.tidy.orderly m hm).rollbackTarget hrec hactive, hprev, Option.elim_some,
    activateLocked, wp_bind, wp_manifest]
  refine ⟨fun m' hm'' => ?_, fun hn => absurd (hm.symm.trans hn) (by simp)⟩
  obtain rfl := Option.some.inj (hm.symm.trans hm'')
  rw [wp_bind]
  refine wp_mono (wp_accepted handle true m) ?_ ?_
  · rintro p' t ⟨-, rfl, hp', htrust⟩
    obtain rfl := Option.some.inj (hp.symm.trans hp')
    obtain ⟨raw, hraw, -⟩ := hv.file
    have hvet := (vet_ok htrust).mpr ⟨hv, raw, hraw, hsteady prior raw hraw⟩
    rw [wp_bind, wp_read, wp_bind, wp_write h.tidy.budget, wp_pure, prepare, ← Packages.record_eq,
      ho]
    dsimp only
    rw [if_neg hstate, hvet]
    refine ⟨rfl, _, rfl, { o with
      state := .active, previousDigest := m.packages.other i (some prior) }, ?_, rfl⟩
    exact (Packages.record_activate m.packages i prior o i prior).trans
      (by rw [if_pos rfl, if_pos rfl])
  · rintro e t ⟨hno, -⟩
    obtain ⟨m', hm', hacc⟩ := hacc
    obtain rfl := Option.some.inj (hm.symm.trans hm')
    exact absurd hacc hno

/-! ### Every run -/

/-- A root with no packages, and no call that is killed. -/
structure Depot.Started (s : Depot) : Prop where
  budget : s.root.budget = none
  empty : ∀ m, s.root.manifest = some m → m.packages = Dict.empty

theorem record_empty (packageId digest : Str) :
    Packages.record Dict.empty packageId digest = none := rfl

theorem Depot.Started.tidy (h : s.Started) : s.Tidy := by
  refine ⟨h.budget, fun m hm => ?_⟩
  rw [h.empty m hm]
  refine ⟨?_, fun i d r hr => absurd hr (by simp [record_empty])⟩
  rintro i d d' ⟨r, hr, -⟩
  exact absurd hr (by simp [record_empty])

theorem Depot.Started.sound (h : s.Started) : s.Sound F := by
  refine ⟨h.tidy, fun m i d hm hl => ?_⟩
  rw [h.empty m hm] at hl
  cases hl with
  | active ha =>
    obtain ⟨r, hr, -⟩ := ha
    exact absurd hr (by simp [record_empty])
  | predecessor hr _ _ => exact absurd hr (by simp [record_empty])

/-- Runs of calls that the guard allows. -/
def Calls (S : Seals) (F : Format) (guard : Depot → Valid × Call → Prop) :
    Depot → List (Valid × Call) → Depot → Prop :=
  Run (Guarded guard fun s a t => s.after S F a = t)

/-- Careful calls, while packages stay valid. -/
def Steadily (F : Format) (s : Depot) (a : Valid × Call) : Prop :=
  s.Steady a.1 ∧ a.2.Careful F s

/-- Careful calls that are stages, reads, or fail. -/
def Sparingly (S : Seals) (F : Format) (s : Depot) (a : Valid × Call) : Prop :=
  Steadily F s a ∧ ∀ r, (a.2.run S F a.1 s).1 = .ok r → a.2.Spares r

/-- Whatever is called, at most one version of a package is active. -/
theorem run_single {guard : Depot → Valid × Call → Prop} {s₀ : Depot} (h0 : s₀.Started)
    {calls : List (Valid × Call)} (hrun : Calls S F guard s₀ calls s) (i d d' : Str)
    (hd : s.Active i d) (hd' : s.Active i d') : d = d' := by
  have htidy : s.Tidy := by
    refine hrun.invariant (I := Depot.Tidy) (fun s a s' h hstep => ?_) h0.tidy
    obtain ⟨-, rfl⟩ := hstep
    obtain ⟨r, -, ho⟩ := outcome_after (S := S) (F := F) h.budget a
    exact ho.tidy h
  obtain ⟨m, hm, ha⟩ := hd
  obtain ⟨m', hm', ha'⟩ := hd'
  obtain rfl := Option.some.inj (hm.symm.trans hm')
  exact (htidy.orderly m hm).single i d d' ha ha'

theorem Calls.sound {calls : List (Valid × Call)} (hrun : Calls S F (Steadily F) s calls s')
    (h : s.Sound F) : s'.Sound F := by
  refine hrun.invariant (I := Depot.Sound F) (fun s a s' h hstep => ?_) h
  obtain ⟨⟨hsteady, hcareful⟩, rfl⟩ := hstep
  obtain ⟨r, -, ho⟩ := outcome_after (S := S) (F := F) h.tidy.budget a
  exact ho.sound h hsteady hcareful

/-- A run that spares the active version leaves it with its predecessor. -/
theorem Calls.follows {calls : List (Valid × Call)} (hrun : Calls S F (Sparingly S F) s calls s')
    (h : s.Sound F) {i d prior : Str} (hf : s.Follows i d prior) :
    s'.Sound F ∧ s'.Follows i d prior := by
  refine hrun.invariant (I := fun s => s.Sound F ∧ s.Follows i d prior)
    (fun s a s' hs hstep => ?_) ⟨h, hf⟩
  obtain ⟨⟨⟨hsteady, hcareful⟩, hless⟩, rfl⟩ := hstep
  obtain ⟨hsound, hf⟩ := hs
  obtain ⟨r, hr, ho⟩ := outcome_after (S := S) (F := F) hsound.tidy.budget a
  exact ⟨ho.sound hsound hsteady hcareful, ho.follows hsound hsteady (hless r (by rw [hr])) hf⟩

/-- CORRECT: of every package at most one version is active. While calls are careful, no stage and
    no call that fails changes what `active` returns, and a version activated over another stays
    active, through stages and calls that fail, until a rollback returns to the other. -/
theorem careful_succession {s₀ : Depot} (h0 : s₀.Started) {calls : List (Valid × Call)}
    (hrun : Calls S F (Steadily F) s₀ calls s) :
    (∀ i d d', s.Active i d → s.Active i d' → d = d') ∧
    (∀ a r, Steadily F s a → (a.2.run S F a.1 s).1 = .ok r → a.2.Harmless r →
      ∀ h valid i, (active S F h valid i (s.after S F a)).1 = (active S F h valid i s).1) ∧
    ∀ i prior d h capability valid r, s.Active i prior → d ≠ prior →
      Steadily F s (valid, .activate h capability i d) →
      ((Call.activate h capability i d).run S F valid s).1 = .ok (.report r) → r.ok = true →
      ∀ calls t, Calls S F (Sparingly S F) (s.after S F (valid, .activate h capability i d)) calls t →
        t.Active i d ∧ ∀ h' valid', t.Accepts S h' → t.Steady valid' → ∃ r' u,
          rollback S F h' h'.authority valid' i t = (.ok r', u) ∧ r'.ok = true ∧
            u.Active i prior := by
  have hsound := hrun.sound h0.sound
  refine ⟨run_single h0 hrun, fun a r hsteady hr hless h valid i => ?_, ?_⟩
  · obtain ⟨r', hr', ho⟩ := outcome_after (S := S) (F := F) hsound.tidy.budget a
    rw [hr'] at hr
    obtain rfl := Except.ok.inj hr
    have hshows : ∀ {t : Depot}, t.Sound F → ∃ o, (active S F h valid i t).1 = .ok o ∧
        ∀ d, o = some d ↔ t.Shows S h valid i d := fun ht => active_shows ht h i
    obtain ⟨o, ho', hshow⟩ := hshows hsound
    obtain ⟨o', ho'', hshow'⟩ := hshows (ho.sound hsound hsteady.1 hsteady.2)
    rw [ho', ho'']
    refine congrArg _ (Option.ext fun d => ?_)
    rw [hshow, hshow']
    exact ho.shows hsound hsteady.1 hless h valid i d
  · intro i prior d h capability valid r hprior hne hsteady hr hok calls t hcalls
    obtain ⟨r', hr', ho⟩ := outcome_after (S := S) (F := F) hsound.tidy.budget
      (valid, .activate h capability i d)
    rw [hr'] at hr
    obtain rfl := Except.ok.inj hr
    have hf := ho.activated_over hsound.tidy hok hprior hne
    obtain ⟨hsound', hf'⟩ := hcalls.follows (ho.sound hsound hsteady.1 hsteady.2) hf
    refine ⟨hf'.active, fun h' valid' hacc hsteady' => ?_⟩
    have hback := wp_rollback_follows hsound' hsteady' hf' hacc
    rcases hend : rollback S F h' h'.authority valid' i t with ⟨e | r', u⟩
    · exact (wp_error hback hend).elim
    · obtain ⟨hok', hactive⟩ := wp_ok hback hend
      exact ⟨r', u, rfl, hok', hactive⟩

/-! ### An activation repeated, and a signature left out -/

/-- Two packages; a signature verifies when it is one byte. -/
def sampleFormat : Format :=
  ⟨fun raw => if raw.length ≤ 1 then some ("p".toList, raw.map fun _ => 'x') else none,
    fun _ _ sig => if sig.length = 1 then some "k".toList else none⟩

/-- A root without authority whose trust store is `trusted`. -/
def sampleDepot (trusted : Option Str) : Depot :=
  ⟨⟨some ⟨Dict.empty, some (activation false), some ⟨.none, none, false, trusted, none⟩⟩, none,
    fun _ => none, fun _ => none, none, []⟩, fun _ => none, fun _ => none⟩

def sampleHandle (trusted : Option Str) : Handle := ⟨0, none, false, trusted⟩

theorem sampleDepot_started (trusted : Option Str) : (sampleDepot trusted).Started := by
  refine ⟨rfl, fun m hm => ?_⟩
  obtain rfl := Option.some.inj hm
  rfl

/-- A call while every package is valid. -/
def sampleCall (c : Call) : Valid × Call := (fun _ => true, c)

/-- The first package is active and the second is staged. -/
def sampleCalls : List (Valid × Call) :=
  [sampleCall (.stage (sampleHandle none) [] none),
    sampleCall (.activate (sampleHandle none) none "p".toList []),
    sampleCall (.stage (sampleHandle none) [0] none)]

def sampleEnd (trusted : Option Str) (calls : List (Valid × Call)) : Depot :=
  calls.foldl (Depot.after sampleSeals sampleFormat) (sampleDepot trusted)

theorem steady_sample (s : Depot) (c : Call) : s.Steady (sampleCall c).1 := fun _ _ _ => rfl

def Depot.stateOf (s : Depot) (packageId digest : Str) : Option State :=
  (s.root.manifest.bind fun m => m.packages.record packageId digest).map Record.state

theorem active_of_state (h : s.stateOf packageId digest = some .active) :
    s.Active packageId digest := by
  obtain ⟨r, hr, hstate⟩ := Option.map_eq_some_iff.mp h
  obtain ⟨m, hm, hrec⟩ := Option.bind_eq_some_iff.mp hr
  exact ⟨m, hm, r, hrec, hstate⟩

theorem inactive_of_state (h : s.stateOf packageId digest ≠ some .active) :
    ¬s.Active packageId digest := by
  rintro ⟨m, hm, r, hrec, hactive⟩
  refine h ?_
  rw [Depot.stateOf, hm, Option.bind_some, hrec, Option.map_some, hactive]

theorem careful_activate (h : s.stateOf packageId digest ≠ some .active) (handle : Handle)
    (capability : Option Authority) :
    (Call.activate handle capability packageId digest).Careful F s := by
  intro m r hm hrec hactive
  exact absurd ⟨m, hm, r, hrec, hactive⟩ (inactive_of_state h)

theorem careful_stage (h : (s.root.manifest.bind fun m => m.governance.map fun p =>
    p.trustedKeysPath) = some none) (raw : Raw) :
    (Call.stage (sampleHandle none) raw none).Careful F s := by
  intro m p i d signer hm hp _ _ hjudge
  rw [hm, Option.bind_some, hp, Option.map_some] at h
  rw [Option.some.inj h]
  exact hjudge

/-- The activation of the second package. -/
def sampleSecond : Valid × Call :=
  sampleCall (.activate (sampleHandle none) none "p".toList ['x'])

theorem sampleCalls_careful : Calls sampleSeals sampleFormat (Steadily sampleFormat)
    (sampleDepot none) sampleCalls (sampleEnd none sampleCalls) := by
  have hfirst : Calls sampleSeals sampleFormat (Steadily sampleFormat) (sampleDepot none)
      [sampleCall (.stage (sampleHandle none) [] none)] (sampleEnd none (sampleCalls.take 1)) :=
    .single ⟨⟨steady_sample _ _, careful_stage rfl _⟩, rfl⟩
  have hsecond : Calls sampleSeals sampleFormat (Steadily sampleFormat) (sampleDepot none)
      (sampleCalls.take 2) (sampleEnd none (sampleCalls.take 2)) :=
    .snoc hfirst ⟨⟨steady_sample _ _, careful_activate (by decide) _ _⟩, rfl⟩
  exact .snoc hsecond ⟨⟨steady_sample _ _, careful_stage (by decide) _⟩, rfl⟩

/-- Whether a call succeeds, where it reports. -/
def Depot.succeeds (s : Depot) (a : Valid × Call) : Option Bool :=
  (a.2.run sampleSeals sampleFormat a.1 s).1.toOption.bind fun
    | .report r => some r.ok
    | .package _ => none

theorem report_of_succeeds {a : Valid × Call} {b : Bool} (h : s.succeeds a = some b) :
    ∃ r, (a.2.run sampleSeals sampleFormat a.1 s).1 = .ok (.report r) ∧ r.ok = b := by
  rw [Depot.succeeds] at h
  rcases hend : (a.2.run sampleSeals sampleFormat a.1 s).1 with e | r | d
  · rw [hend] at h
    exact absurd h (by simp [Except.toOption])
  · rw [hend] at h
    exact ⟨r, rfl, Option.some.inj h⟩
  · rw [hend] at h
    exact absurd h (by simp [Except.toOption])

theorem accepts_of_isSome {h : Handle} (hs : (s.root.manifest.bind fun m =>
    (assertManifestPolicy sampleSeals h true m s.root).1.toOption).isSome = true) :
    s.Accepts sampleSeals h := by
  rcases hm : s.root.manifest with _ | m
  · rw [hm] at hs
    exact absurd hs (by simp)
  · rw [hm, Option.bind_some] at hs
    refine ⟨m, hm, ?_⟩
    rcases hend : (assertManifestPolicy sampleSeals h true m s.root).1 with e | p
    · rw [hend] at hs
      exact absurd hs (by simp [Except.toOption])
    · exact ⟨p, hend⟩

/-- The registry after the second package was activated. -/
def sampleOver : Depot := (sampleEnd none sampleCalls).after sampleSeals sampleFormat sampleSecond

/-- The first package staged again, an activation of an unknown version, and a read. -/
def sampleLater : List (Valid × Call) :=
  [sampleCall (.stage (sampleHandle none) [] none),
    sampleCall (.activate (sampleHandle none) none "p".toList ['y']),
    sampleCall (.active (sampleHandle none) "p".toList)]

def sampleLast (n : ℕ) : Depot :=
  (sampleLater.take n).foldl (Depot.after sampleSeals sampleFormat) sampleOver

theorem sampleLater_sparing : Calls sampleSeals sampleFormat (Sparingly sampleSeals sampleFormat)
    sampleOver sampleLater (sampleLast 3) := by
  have hstaged : Calls sampleSeals sampleFormat (Sparingly sampleSeals sampleFormat) sampleOver
      (sampleLater.take 1) (sampleLast 1) :=
    .single ⟨⟨⟨steady_sample _ _, careful_stage (by decide) _⟩,
      fun _ _ => .inl (.inl ⟨_, _, _, rfl⟩)⟩, rfl⟩
  have hrefused : Calls sampleSeals sampleFormat (Sparingly sampleSeals sampleFormat) sampleOver
      (sampleLater.take 2) (sampleLast 2) := by
    refine .snoc hstaged ⟨⟨⟨steady_sample _ _, careful_activate (by decide) _ _⟩, fun r hr => ?_⟩, rfl⟩
    obtain ⟨r', hr', hok⟩ := report_of_succeeds (s := sampleLast 1)
      (a := sampleCall (.activate (sampleHandle none) none "p".toList ['y'])) (b := false) (by decide)
    obtain rfl := Except.ok.inj (hr.symm.trans hr')
    exact .inl (.inr hok)
  exact .snoc hrefused ⟨⟨⟨steady_sample _ _, trivial⟩, fun _ _ => .inr ⟨_, _, rfl⟩⟩, rfl⟩

/-- After later calls the second package is still active, and its rollback returns to the first. -/
theorem careful_succession_sample : (sampleLast 3).Active "p".toList ['x'] ∧
    ∃ r u, rollback sampleSeals sampleFormat (sampleHandle none) none (fun _ => true) "p".toList
      (sampleLast 3) = (.ok r, u) ∧ r.ok = true ∧ u.Active "p".toList [] := by
  have hactive : (sampleEnd none sampleCalls).Active "p".toList [] :=
    active_of_state (by decide)
  have hsteady : Steadily sampleFormat (sampleEnd none sampleCalls) sampleSecond :=
    ⟨steady_sample _ _, careful_activate (by decide) _ _⟩
  obtain ⟨r, hr, hok⟩ := report_of_succeeds (s := sampleEnd none sampleCalls)
    (a := sampleSecond) (b := true) (by decide)
  obtain ⟨hstays, hback⟩ := (careful_succession (sampleDepot_started none)
    sampleCalls_careful).2.2 _ _ _ _ _ _ r hactive (by simp) hsteady hr hok sampleLater
      (sampleLast 3) sampleLater_sparing
  exact ⟨hstays, hback _ (fun _ => true) (accepts_of_isSome (by decide)) fun _ _ _ => rfl⟩

/-- The first package staged with its signature and active, in a root with a trust store. -/
def sampleSigned : List (Valid × Call) :=
  [sampleCall (.stage (sampleHandle (some [])) [] (some [7])),
    sampleCall (.activate (sampleHandle (some [])) none "p".toList [])]

/-- The same package staged again without its signature. -/
def sampleUnsigned : Valid × Call := sampleCall (.stage (sampleHandle (some [])) [] none)

theorem steady_calls (trusted : Option Str) (calls : List (Valid × Call))
    (hcalls : ∀ a ∈ calls, a.1 = fun _ => true) : Calls sampleSeals sampleFormat
      (fun s a => s.Steady a.1) (sampleDepot trusted) calls (sampleEnd trusted calls) :=
  Run.of_foldl fun s a ha d raw _ => by rw [hcalls a ha]

/-- An activation repeated after it succeeded makes the rollback fail; and an active package that is
    staged again without its signature is no longer returned. -/
theorem careless_calls_lose :
    (∃ calls s, Calls sampleSeals sampleFormat (fun s a => s.Steady a.1) (sampleDepot none) calls s ∧
      s.Active "p".toList [] ∧ s.succeeds sampleSecond = some true ∧
      sampleOver = s.after sampleSeals sampleFormat sampleSecond ∧
      sampleOver.succeeds sampleSecond = some true ∧
      ∃ t, t = sampleOver.after sampleSeals sampleFormat sampleSecond ∧
        t.succeeds (sampleCall (.rollback (sampleHandle none) none "p".toList)) = some false ∧
        ¬(t.after sampleSeals sampleFormat
          (sampleCall (.rollback (sampleHandle none) none "p".toList))).Active "p".toList []) ∧
    ∃ calls s, Calls sampleSeals sampleFormat (fun s a => s.Steady a.1) (sampleDepot (some []))
      calls s ∧
      (active sampleSeals sampleFormat (sampleHandle (some [])) (fun _ => true) "p".toList s).1 ≠
      (active sampleSeals sampleFormat (sampleHandle (some [])) (fun _ => true) "p".toList
        (s.after sampleSeals sampleFormat sampleUnsigned)).1 := by
  refine ⟨⟨_, _, steady_calls none sampleCalls (by simp [sampleCalls, sampleCall]),
      active_of_state (by decide), by decide, rfl, by decide, _, rfl, by decide,
      inactive_of_state (by decide)⟩,
    _, _, steady_calls (some []) sampleSigned (by simp [sampleSigned, sampleCall]), fun he => ?_⟩
  have hbefore : (active sampleSeals sampleFormat (sampleHandle (some [])) (fun _ => true)
    "p".toList (sampleEnd (some []) sampleSigned)).1.toOption = some (some []) := by decide
  have hafter : (active sampleSeals sampleFormat (sampleHandle (some [])) (fun _ => true)
    "p".toList ((sampleEnd (some []) sampleSigned).after sampleSeals sampleFormat
      sampleUnsigned)).1.toOption = some none := by decide
  rw [he, hafter] at hbefore
  exact absurd hbefore (by simp)

end Angerona.Registry
