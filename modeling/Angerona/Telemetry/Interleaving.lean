import Angerona.Lib.Reservation
import Angerona.Lib.Transition
import Angerona.Telemetry.Budget

/-!
    Workers that share a budget: what admission, release and probes in any order leave of the sizes
    of the database and its WAL.

    A probe looks at the files while other workers write and release. What it has seen may be used
    because nothing is admitted during a probe, and because a release of a lease that wrote makes it
    stale: so all that was added since is what the present leases have used. -/

namespace Angerona.Telemetry
open Transition Reservation

/-- The sizes of the database and of the WAL. -/
structure Sizes where
  db : ℕ
  wal : ℕ

/-- A call of the sampler: when `refresh_on_worker` began, and the sizes at one moment since. -/
structure Probe where
  generation : ℕ
  now : ℚ
  seen : Option Sizes

/-- The budget, the files, what each lease has added to them, and the sampler that is running. -/
structure World where
  budget : Budget
  sizes : Sizes
  usedDb : ℕ → ℕ
  usedWal : ℕ → ℕ
  probe : Option Probe

inductive Action where
  | admitUnit (unitBytes : ℤ) (now : ℚ)
  | release (lease : Option ℕ) (wrote : Bool)
  | refresh (force : Bool) (now : ℚ)
  /-- The moment whose sizes the sampler returns. -/
  | look
  | finish (sample : Option Sample)
  /-- A lease holder adds to the files. -/
  | write (lease db wal : ℕ)
  /-- The files become smaller. -/
  | shrink (sizes : Sizes)

namespace World

def admitted (w : World) (unitBytes : ℤ) (now : ℚ) : World :=
  match w.budget.admitUnit unitBytes now with
  | (b, .lease id) =>
    { w with
      budget := b
      usedDb := Function.update w.usedDb id 0
      usedWal := Function.update w.usedWal id 0 }
  | (b, _) => { w with budget := b }

def refreshed (w : World) (force : Bool) (now : ℚ) : World :=
  match w.budget.refreshBegin force now with
  | (b, some generation) => { w with budget := b, probe := some ⟨generation, now, none⟩ }
  | (b, none) => { w with budget := b }

end World

/-- The steps, with any clock. A holder adds at most what it was admitted for, to the database and to
    the WAL, and says so at its release. -/
inductive Step : World → Action → World → Prop where
  | admitUnit (w : World) (unitBytes : ℤ) (now : ℚ) :
    Step w (.admitUnit unitBytes now) (w.admitted unitBytes now)
  | release {w : World} {lease : Option ℕ} {wrote : Bool}
    (h : ∀ id ∈ lease, ∀ q, w.budget.leases.get? id = some q →
      w.usedDb id ≠ 0 ∨ w.usedWal id ≠ 0 → wrote = true) :
    Step w (.release lease wrote) { w with budget := w.budget.release lease wrote }
  | refresh (w : World) (force : Bool) (now : ℚ) :
    Step w (.refresh force now) (w.refreshed force now)
  | look {w : World} {p : Probe} (h : w.probe = some p) :
    Step w .look { w with probe := some { p with seen := some w.sizes } }
  | finish {w : World} {p : Probe} {sample : Option Sample} (h : w.probe = some p)
    (hseen : ∀ s ∈ sample, p.seen = some ⟨s.facts.dbBytes, s.facts.walBytes⟩) :
    Step w (.finish sample)
      { w with budget := w.budget.refreshEnd p.generation p.now sample, probe := none }
  | write {w : World} {lease q db wal : ℕ} (h : w.budget.leases.get? lease = some q)
    (hdb : w.usedDb lease + db ≤ q) (hwal : w.usedWal lease + wal ≤ q) :
    Step w (.write lease db wal)
      { w with
        sizes := ⟨w.sizes.db + db, w.sizes.wal + wal⟩
        usedDb := Function.update w.usedDb lease (w.usedDb lease + db)
        usedWal := Function.update w.usedWal lease (w.usedWal lease + wal) }
  | shrink {w : World} {sizes : Sizes} (hdb : sizes.db ≤ w.sizes.db) (hwal : sizes.wal ≤ w.sizes.wal) :
    Step w (.shrink sizes) { w with sizes := sizes }

/-- A budget to which one policy was given, and files of some sizes. -/
def start (policy : Policy) (sizes : Sizes) : World :=
  ⟨(Budget.new.configure policy).2, sizes, fun _ => 0, fun _ => 0, none⟩

/-! ### What holds in every state -/

/-- What was seen of the files tells their sizes, up to what the present leases have added. -/
def Explains (w : World) (seen : Sizes) : Prop :=
  w.sizes.db ≤ seen.db + spent w.budget.leases w.usedDb ∧
    w.sizes.wal ≤ seen.wal + spent w.budget.leases w.usedWal

/-- The files, and what may still be added to them, are within the targets, or within the sizes they
    had at first. -/
structure Inv (policy : Policy) (first : Sizes) (w : World) : Prop where
  given : w.budget.policy = some policy
  generation : w.budget.generation = 1
  reserved : w.budget.reserved = granted w.budget.leases
  serial : ∀ id q, w.budget.leases.get? id = some q → id ≤ w.budget.serial
  withinDb : Within w.budget.leases w.usedDb
  withinWal : Within w.budget.leases w.usedWal
  safeDb : w.sizes.db + remaining w.budget.leases w.usedDb ≤ max policy.dbTargetBytes first.db
  safeWal : w.sizes.wal + remaining w.budget.leases w.usedWal ≤ max policy.walTargetBytes first.wal
  probing : w.budget.probing = w.probe.isSome
  probe : ∀ p, w.probe = some p → p.generation = 1
  facts : w.budget.stale = false → w.budget.probing = false → ∀ f, w.budget.facts = some f →
    Explains w ⟨f.dbBytes, f.walBytes⟩
  seen : w.budget.dirty = false → ∀ p, w.probe = some p → ∀ s, p.seen = some s → Explains w s

/-- The budgets differ in nothing but age, staleness and what is reported. -/
structure Quiet (b b' : Budget) : Prop where
  policy : b'.policy = b.policy
  generation : b'.generation = b.generation
  facts : b'.facts = b.facts
  reserved : b'.reserved = b.reserved
  leases : b'.leases = b.leases
  serial : b'.serial = b.serial
  probing : b'.probing = b.probing
  dirty : b'.dirty = b.dirty
  stale : b'.stale = false → b.stale = false

variable {policy : Policy} {first : Sizes} {w w' : World} {b b' : Budget}

theorem quiet_aged (b : Budget) (now : ℚ) : Quiet b (b.aged now) := by
  rw [Budget.aged]
  split
  · exact ⟨rfl, rfl, rfl, rfl, rfl, rfl, rfl, rfl, id⟩
  · exact ⟨rfl, rfl, rfl, rfl, rfl, rfl, rfl, rfl, fun h => (Bool.or_eq_false_iff.mp h).1⟩

theorem Inv.quiet (h : Inv policy first w) (hq : Quiet w.budget b') :
    Inv policy first { w with budget := b' } where
  given := hq.policy.trans h.given
  generation := hq.generation.trans h.generation
  reserved := by
    dsimp only
    rw [hq.reserved, hq.leases]
    exact h.reserved
  serial := by
    dsimp only
    rw [hq.leases, hq.serial]
    exact h.serial
  withinDb := by
    dsimp only
    rw [hq.leases]
    exact h.withinDb
  withinWal := by
    dsimp only
    rw [hq.leases]
    exact h.withinWal
  safeDb := by
    dsimp only
    rw [hq.leases]
    exact h.safeDb
  safeWal := by
    dsimp only
    rw [hq.leases]
    exact h.safeWal
  probing := hq.probing.trans h.probing
  probe := h.probe
  facts := by
    unfold Explains
    dsimp only
    rw [hq.leases, hq.probing, hq.facts]
    exact fun hs => h.facts (hq.stale hs)
  seen := by
    unfold Explains
    dsimp only
    rw [hq.leases, hq.dirty]
    exact h.seen

/-! ### Admission -/

theorem reason_of_unavailable (h : b.unavailable = true) : b.reason ≠ none := by
  rw [Budget.unavailable, decide_eq_true_eq] at h
  rcases h with h | h
  · simp [h]
  · simp [h]

/-- Without a reason there are facts, and they may be used. -/
theorem reasonLocked_none (hpolicy : b.policy = some policy) (h : b.reasonLocked = none) :
    b.stale = false ∧ b.probing = false ∧ ∃ f, b.facts = some f := by
  rw [Budget.reasonLocked, hpolicy] at h
  dsimp only at h
  split at h
  · cases h
  split at h
  · cases h
  rename_i hprobing
  split at h
  · rename_i hstale
    exact absurd h (reason_of_unavailable hstale.2)
  split at h
  · cases h
  · rename_i facts hfacts
    split at h
    · cases h
    split at h
    · split at h
      · rename_i hunavailable
        exact absurd h (reason_of_unavailable hunavailable)
      · cases h
    · rename_i hfresh
      exact ⟨Bool.eq_false_iff.mpr hfresh, Bool.eq_false_iff.mpr hprobing, facts, hfacts⟩

/-- A unit is admitted only beside facts that may be used, and within the targets. -/
theorem refusal_none {unitBytes : ℤ} (hpolicy : b.policy = some policy)
    (h : b.refusal unitBytes = none) :
    b.stale = false ∧ b.probing = false ∧ ∃ f, b.facts = some f ∧
      f.dbBytes + (b.reserved + max 0 unitBytes) ≤ policy.dbTargetBytes ∧
      f.walBytes + (b.reserved + max 0 unitBytes) ≤ policy.walTargetBytes := by
  rw [Budget.refusal] at h
  split at h
  · cases h
  cases hreason : b.reasonLocked with
  | some reason =>
    rw [hreason] at h
    cases h
  | none =>
    obtain ⟨hstale, hprobing, f, hfacts⟩ := reasonLocked_none hpolicy hreason
    rw [hreason, hfacts, hpolicy] at h
    dsimp only at h
    rw [Budget.projected] at h
    split at h
    · cases h
    rename_i hdb
    split at h
    · cases h
    rename_i hwal
    exact ⟨hstale, hprobing, f, hfacts, not_lt.mp hdb, not_lt.mp hwal⟩

theorem admit_kept (h : Inv policy first w) (unitBytes : ℤ) (now : ℚ) :
    Inv policy first (w.admitted unitBytes now) := by
  have haged := h.quiet (quiet_aged w.budget now)
  rw [World.admitted, Budget.admitUnit, h.given]
  dsimp only
  cases hrefusal : (w.budget.aged now).refusal unitBytes with
  | some reason => exact haged.quiet ⟨rfl, rfl, rfl, rfl, rfl, rfl, rfl, rfl, id⟩
  | none =>
    generalize w.budget.aged now = b at haged hrefusal
    obtain ⟨hstale, hprobing, f, hfacts, hdb, hwal⟩ := refusal_none haged.given hrefusal
    have hnew : b.leases.get? (b.serial + 1) = none := by
      rw [Option.eq_none_iff_forall_ne_some]
      intro q hq
      have hle := haged.serial _ q hq
      dsimp only at hle
      omega
    obtain ⟨hexplainsDb, hexplainsWal⟩ := haged.facts hstale hprobing f hfacts
    have hreserved := haged.reserved
    have htotalDb := remaining_add_spent haged.withinDb
    have htotalWal := remaining_add_spent haged.withinWal
    have hunit : max 0 unitBytes = (unitBytes.toNat : ℤ) := by omega
    dsimp only at hexplainsDb hexplainsWal hreserved htotalDb htotalWal hfacts hdb hwal
    rw [hreserved, hunit] at hdb hwal
    dsimp only
    have hexplains : ∀ seen, Explains { w with budget := b } seen →
        w.sizes.db ≤ seen.db + spent (b.leases.set (b.serial + 1) unitBytes.toNat)
            (Function.update w.usedDb (b.serial + 1) 0) ∧
          w.sizes.wal ≤ seen.wal + spent (b.leases.set (b.serial + 1) unitBytes.toNat)
            (Function.update w.usedWal (b.serial + 1) 0) := by
      intro seen h
      rw [spent_grant hnew, spent_grant hnew]
      exact h
    exact {
      given := haged.given
      generation := haged.generation
      reserved := by
        dsimp only
        rw [granted_grant hnew, hreserved, hunit, Int.natCast_add]
      serial := by
        intro id q hq
        dsimp only at hq ⊢
        rw [Dict.get?_set] at hq
        split at hq
        · omega
        · have hle := haged.serial id q hq
          dsimp only at hle
          omega
      withinDb := within_grant haged.withinDb _ _
      withinWal := within_grant haged.withinWal _ _
      safeDb := by
        dsimp only
        rw [remaining_grant hnew]
        omega
      safeWal := by
        dsimp only
        rw [remaining_grant hnew]
        omega
      probing := haged.probing
      probe := haged.probe
      facts := fun hs hp f' hf => hexplains _ (haged.facts hs hp f' hf)
      seen := fun hd p hp s hs => hexplains _ (haged.seen hd p hp s hs) }

/-! ### Release, probes and writes -/

theorem release_kept (h : Inv policy first w) {lease : Option ℕ} {wrote : Bool}
    (hwrote : ∀ id ∈ lease, ∀ q, w.budget.leases.get? id = some q →
      w.usedDb id ≠ 0 ∨ w.usedWal id ≠ 0 → wrote = true) :
    Inv policy first { w with budget := w.budget.release lease wrote } := by
  cases lease with
  | none => exact h
  | some id =>
    have hreserved := h.reserved
    have hgranted : granted (w.budget.leases.erase id) + (w.budget.leases.get? id).getD 0 =
        granted w.budget.leases := granted_release id
    have hsafeDb := h.safeDb
    have hsafeWal := h.safeWal
    have hlessDb : remaining (w.budget.leases.erase id) w.usedDb ≤ remaining w.budget.leases w.usedDb :=
      remaining_release id
    have hlessWal : remaining (w.budget.leases.erase id) w.usedWal ≤
        remaining w.budget.leases w.usedWal := remaining_release id
    -- a lease that wrote makes what was seen stale; another has added nothing
    have hexplains : wrote = false → ∀ seen, Explains w seen →
        w.sizes.db ≤ seen.db + spent (w.budget.leases.erase id) w.usedDb ∧
          w.sizes.wal ≤ seen.wal + spent (w.budget.leases.erase id) w.usedWal := by
      intro hno seen hseen
      have hunused : ∀ q, w.budget.leases.get? id = some q → w.usedDb id = 0 ∧ w.usedWal id = 0 := by
        intro q hq
        by_contra hused
        have hyes := hwrote id rfl q hq (not_and_or.mp hused)
        rw [hno] at hyes
        cases hyes
      rw [spent_release fun q hq => (hunused q hq).1, spent_release fun q hq => (hunused q hq).2]
      exact hseen
    exact {
      given := h.given
      generation := h.generation
      reserved := by
        dsimp only [Budget.release]
        omega
      serial := by
        intro j q hq
        dsimp only [Budget.release] at hq
        rw [Dict.get?_erase] at hq
        split at hq
        · cases hq
        · exact h.serial j q hq
      withinDb := within_release h.withinDb id
      withinWal := within_release h.withinWal id
      safeDb := by
        dsimp only [Budget.release]
        omega
      safeWal := by
        dsimp only [Budget.release]
        omega
      probing := h.probing
      probe := h.probe
      facts := fun hs hp f hf =>
        hexplains (Bool.or_eq_false_iff.mp hs).2 _ (h.facts (Bool.or_eq_false_iff.mp hs).1 hp f hf)
      seen := fun hd p hp s hs =>
        hexplains (Bool.or_eq_false_iff.mp hd).2 _ (h.seen (Bool.or_eq_false_iff.mp hd).1 p hp s hs) }

/-- A refresh that does not call the sampler only takes the age; one that does finds no other
    sampler running. -/
theorem refreshBegin_cases (hpolicy : b.policy = some policy) (force : Bool) (now : ℚ) :
    b.refreshBegin force now = (b.aged now, none) ∨
      ((b.aged now).probing = false ∧ b.refreshBegin force now =
        ({ b.aged now with probing := true, lastProbe := some now, dirty := false },
          some (b.aged now).generation)) := by
  rw [Budget.refreshBegin, hpolicy]
  dsimp only
  split
  · exact .inl rfl
  · rename_i hidle
    split
    · exact .inl rfl
    split
    · exact .inl rfl
    · exact .inr ⟨Bool.eq_false_iff.mpr (not_or.mp hidle).2, rfl⟩

theorem refresh_kept (h : Inv policy first w) (force : Bool) (now : ℚ) :
    Inv policy first (w.refreshed force now) := by
  have haged := h.quiet (quiet_aged w.budget now)
  rw [World.refreshed]
  rcases refreshBegin_cases h.given force now with hbegin | ⟨-, hbegin⟩
  · rw [hbegin]
    exact haged
  · rw [hbegin]
    exact {
      given := haged.given
      generation := haged.generation
      reserved := haged.reserved
      serial := haged.serial
      withinDb := haged.withinDb
      withinWal := haged.withinWal
      safeDb := haged.safeDb
      safeWal := haged.safeWal
      probing := rfl
      probe := by
        intro p hp
        obtain rfl := Option.some.inj hp
        exact haged.generation
      facts := fun _ hp => by cases hp
      seen := by
        intro _ p hp s hs
        obtain rfl := Option.some.inj hp
        cases hs }

theorem look_kept (h : Inv policy first w) {p : Probe} (hp : w.probe = some p) :
    Inv policy first { w with probe := some { p with seen := some w.sizes } } :=
  { h with
    probing := by
      rw [h.probing, hp]
      rfl
    probe := by
      intro p' hp'
      obtain rfl := Option.some.inj hp'
      exact h.probe p hp
    seen := by
      intro _ p' hp' s hs
      obtain rfl := Option.some.inj hp'
      obtain rfl := Option.some.inj hs
      exact ⟨Nat.le_add_right _ _, Nat.le_add_right _ _⟩ }

/-- What the sampler leaves: its facts only if no lease was released that wrote. -/
theorem refreshEnd_spec (b : Budget) (now : ℚ) (sample : Option Sample) :
    ∃ b₁ : Budget, b.refreshEnd b.generation now sample = b₁ ∧
      Quiet { b with probing := false, facts := b₁.facts, stale := b₁.stale } b₁ ∧
      (b₁.stale = false → b.dirty = false ∧ ∃ s ∈ sample, b₁.facts = some s.facts) := by
  rw [Budget.refreshEnd]
  dsimp only
  rw [if_neg (not_not_intro rfl)]
  split
  · exact ⟨_, rfl, ⟨rfl, rfl, rfl, rfl, rfl, rfl, rfl, rfl, id⟩, fun h => by cases h⟩
  · rename_i s hs
    split
    · exact ⟨_, rfl, ⟨rfl, rfl, rfl, rfl, rfl, rfl, rfl, rfl, id⟩, fun h => by cases h⟩
    · exact ⟨_, rfl, ⟨rfl, rfl, rfl, rfl, rfl, rfl, rfl, rfl, id⟩,
        fun h => ⟨h, s, (Option.filter_eq_some_iff.mp hs).1, rfl⟩⟩

theorem finish_kept (h : Inv policy first w) {p : Probe} {sample : Option Sample}
    (hp : w.probe = some p)
    (hseen : ∀ s ∈ sample, p.seen = some ⟨s.facts.dbBytes, s.facts.walBytes⟩) :
    Inv policy first
      { w with budget := w.budget.refreshEnd p.generation p.now sample, probe := none } := by
  obtain ⟨b₁, hend, hquiet, hfacts⟩ := refreshEnd_spec w.budget p.now sample
  rw [(h.probe p hp).trans h.generation.symm, hend]
  have hidle : Inv policy first { w with
      budget := { w.budget with probing := false, facts := b₁.facts, stale := b₁.stale }
      probe := none } :=
    { given := h.given
      generation := h.generation
      reserved := h.reserved
      serial := h.serial
      withinDb := h.withinDb
      withinWal := h.withinWal
      safeDb := h.safeDb
      safeWal := h.safeWal
      probing := rfl
      probe := fun _ hp => by cases hp
      facts := by
        intro hstale _ f hf
        obtain ⟨hdirty, s, hs, hb₁⟩ := hfacts hstale
        obtain rfl := Option.some.inj (hb₁.symm.trans hf)
        exact h.seen hdirty p hp _ (hseen s hs)
      seen := fun _ _ hp => by cases hp }
  exact hidle.quiet hquiet

theorem write_kept (h : Inv policy first w) {lease q db wal : ℕ}
    (hlease : w.budget.leases.get? lease = some q) (hdb : w.usedDb lease + db ≤ q)
    (hwal : w.usedWal lease + wal ≤ q) :
    Inv policy first { w with
      sizes := ⟨w.sizes.db + db, w.sizes.wal + wal⟩
      usedDb := Function.update w.usedDb lease (w.usedDb lease + db)
      usedWal := Function.update w.usedWal lease (w.usedWal lease + wal) } := by
  have hsafeDb := h.safeDb
  have hsafeWal := h.safeWal
  have hleftDb := remaining_use h.withinDb hlease hdb
  have hleftWal := remaining_use h.withinWal hlease hwal
  have hexplains : ∀ seen, Explains w seen → Explains { w with
      sizes := ⟨w.sizes.db + db, w.sizes.wal + wal⟩
      usedDb := Function.update w.usedDb lease (w.usedDb lease + db)
      usedWal := Function.update w.usedWal lease (w.usedWal lease + wal) } seen := by
    rintro seen ⟨hseenDb, hseenWal⟩
    unfold Explains
    dsimp only
    rw [spent_use hlease, spent_use hlease]
    omega
  exact { h with
    withinDb := within_use h.withinDb hlease hdb
    withinWal := within_use h.withinWal hlease hwal
    safeDb := by
      dsimp only
      omega
    safeWal := by
      dsimp only
      omega
    facts := fun hs hp f hf => hexplains _ (h.facts hs hp f hf)
    seen := fun hd p hp s hs => hexplains _ (h.seen hd p hp s hs) }

theorem shrink_kept (h : Inv policy first w) {sizes : Sizes} (hdb : sizes.db ≤ w.sizes.db)
    (hwal : sizes.wal ≤ w.sizes.wal) : Inv policy first { w with sizes := sizes } := by
  have hsafeDb := h.safeDb
  have hsafeWal := h.safeWal
  have hexplains : ∀ seen, Explains w seen → Explains { w with sizes := sizes } seen :=
    fun seen hseen => ⟨hdb.trans hseen.1, hwal.trans hseen.2⟩
  exact { h with
    safeDb := by
      dsimp only
      omega
    safeWal := by
      dsimp only
      omega
    facts := fun hs hp f hf => hexplains _ (h.facts hs hp f hf)
    seen := fun hd p hp s hs => hexplains _ (h.seen hd p hp s hs) }

/-! ### Runs -/

theorem step_kept {a : Action} (h : Inv policy first w) (hs : Step w a w') :
    Inv policy first w' := by
  cases hs with
  | admitUnit unitBytes now => exact admit_kept h unitBytes now
  | release hwrote => exact release_kept h hwrote
  | refresh force now => exact refresh_kept h force now
  | look hp => exact look_kept h hp
  | finish hp hseen => exact finish_kept h hp hseen
  | write hlease hdb hwal => exact write_kept h hlease hdb hwal
  | shrink hdb hwal => exact shrink_kept h hdb hwal

theorem start_inv (hok : policy.ok = true) (first : Sizes) : Inv policy first (start policy first) := by
  rw [start, Budget.configure, if_neg (by simp [hok])]
  exact {
    given := rfl
    generation := rfl
    reserved := rfl
    serial := fun _ _ hq => by cases hq
    withinDb := fun _ _ hq => by cases hq
    withinWal := fun _ _ hq => by cases hq
    safeDb := le_max_right _ _
    safeWal := le_max_right _ _
    probing := rfl
    probe := fun _ hp => by cases hp
    facts := fun hs => by cases hs
    seen := fun _ _ hp => by cases hp }

/-- CORRECT: in every state of every run neither file is larger than its target or than it was at
    first, and the reserved total is the sum of the outstanding leases. -/
theorem sizes_within {actions : List Action} (hok : policy.ok = true)
    (hrun : Run Step (start policy first) actions w) :
    w.sizes.db ≤ max policy.dbTargetBytes first.db ∧
      w.sizes.wal ≤ max policy.walTargetBytes first.wal ∧
      w.budget.reserved = (w.budget.leases.items.map Prod.snd).sum := by
  have hinv := hrun.invariant (fun _ _ _ h hs => step_kept h hs) (start_inv hok first)
  refine ⟨(Nat.le_add_right _ _).trans hinv.safeDb, (Nat.le_add_right _ _).trans hinv.safeWal, ?_⟩
  exact hinv.reserved

/-- Small files, a probe, a unit that is admitted, and half of it written. -/
theorem sizes_within_sample : ∃ w, Run Step (start ⟨false, 16 * mib, 4 * mib, 512 * mib⟩ ⟨0, 0⟩)
      [.refresh true 0, .look, .finish (some ⟨⟨0, 0, 0, 1024 * mib⟩, ⟨(1, 1), (1, 2)⟩⟩),
        .admitUnit 100 0, .write 1 50 50] w ∧
    w.sizes.db ≤ 16 * mib := by
  have hrefresh := Step.refresh (start ⟨false, 16 * mib, 4 * mib, 512 * mib⟩ ⟨0, 0⟩) true 0
  have hlook := Run.nil.snoc hrefresh |>.snoc (Step.look (p := ⟨1, 0, none⟩) rfl)
  have hfinish := hlook.snoc (@Step.finish _ ⟨1, 0, some ⟨0, 0⟩⟩
    (some ⟨⟨0, 0, 0, 1024 * mib⟩, ⟨(1, 1), (1, 2)⟩⟩) rfl
    (by rintro s hs; obtain rfl := Option.some.inj hs; rfl))
  have hwrite := (hfinish.snoc (Step.admitUnit _ 100 0)).snoc
    (@Step.write _ 1 100 50 50 (by decide +kernel) (by decide +kernel) (by decide +kernel))
  obtain ⟨hdb, -, -⟩ := sizes_within (by decide +kernel) hwrite
  exact ⟨_, hwrite, hdb.trans_eq (max_eq_left (Nat.zero_le _))⟩

/-- Files that are larger than their targets at first stay so. -/
theorem larger_at_first : (Policy.mk false (16 * mib) (4 * mib) (512 * mib)).ok = true ∧
    ∃ w, Run Step (start ⟨false, 16 * mib, 4 * mib, 512 * mib⟩ ⟨16 * mib + 1, 0⟩) [] w ∧
      16 * mib < w.sizes.db :=
  ⟨by decide +kernel, _, .nil, Nat.lt_succ_self _⟩

end Angerona.Telemetry
