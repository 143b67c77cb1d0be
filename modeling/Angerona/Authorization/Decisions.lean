import Angerona.Authorization.Policy
import Angerona.Lib.Expiry
import Angerona.Lib.Transition

/-!
    What a remembered decision says.

    A decision is remembered until the first expiry among the principal and all the bindings that
    were in force, whether their roles allowed, denied or said nothing. Until then the same bindings
    are in force, so a new evaluation would say the same. -/

namespace Angerona.Authorization
open Binary64 Text PyJson Response Expiry Transition

/-! ### What a policy permits -/

/-- A scope, or a scope above it. -/
def AtOrAbove (a b : Str) : Prop := segments '/' a <+: segments '/' b

/-- A rule is the permission, or it ends in a wildcard for the rest of it. -/
def Covers (rule permission : Str) : Prop :=
  segments '.' rule = segments '.' permission ∨
    ∃ front rest, segments '.' rule = front ++ [['*']] ∧ rest ≠ [] ∧
      segments '.' permission = front ++ rest

/-- The time itself, in units of the least float; `none` when there is none. -/
def Deadline.due (d : Deadline) : Option ℤ :=
  if d.stamp.truthy = false then none
  else
    match d.stamp with
    | .int n => some (n * 2 ^ Double.unitExponent)
    | .float (.finite f) => some f.val
    | .float _ => none

/-- The binding is one of the principal's, in force, and its scope contains the requested one. -/
structure Applies (policy : AuthorizationPolicy) (r : AuthorizationRequest) (t : Double)
    (b : RoleBinding) : Prop where
  bound : b ∈ policy.bindings
  principal : b.principalId = r.principalId
  unexpired : Live b.expiresAt.due t.val
  scope : AtOrAbove b.scope r.scope

structure Permitted (policy : AuthorizationPolicy) (r : AuthorizationRequest) (t : Double) : Prop where
  principal : ∃ p, policy.principals.get? r.principalId = some p ∧ p.enabled = true ∧
    Live p.expiresAt.due t.val
  allowed : ∃ b role rule, Applies policy r t b ∧ policy.roles.get? b.roleId = some role ∧
    rule ∈ role.allow ∧ Covers rule r.permission
  undenied : ¬∃ b role rule, Applies policy r t b ∧ policy.roles.get? b.roleId = some role ∧
    rule ∈ role.deny ∧ Covers rule r.permission

/-! ### Scopes and permissions -/

theorem scopeContains_iff {scope requested : Str} (h : isScope scope = true) :
    scopeContains scope requested = true ↔ AtOrAbove scope requested := by
  have hlast : scope.getLast? ≠ some '/' := by
    simp only [isScope, decide_eq_true_eq] at h
    exact h.2.2.1
  have hstrip : rstripSlash scope = scope := by
    rw [rstripSlash, List.rdropWhile_eq_self_iff]
    intro hne hc
    exact hlast (by rw [List.getLast?_eq_some_getLast hne, of_decide_eq_true hc])
  rw [scopeContains, decide_eq_true_iff, hstrip, AtOrAbove, segments_prefix]
  exact or_congr eq_comm .rfl

theorem matchesPermission_iff {rule requested : Str} (h : isPermission rule = true) :
    matchesPermission rule requested = true ↔ Covers rule requested := by
  rw [matchesPermission, decide_eq_true_iff, Covers]
  refine or_congr ⟨fun he => he ▸ rfl, segments_inj⟩ ?_
  have hstar : segments '.' ['*'] = [['*']] := rfl
  constructor
  · rintro ⟨⟨base, rfl⟩, hprefix⟩
    have hdrop : (base ++ ".*".toList).dropLast = base ++ ['.'] := by
      rw [show ".*".toList = ['.'] ++ ['*'] from rfl, ← List.append_assoc, List.dropLast_concat]
    rw [hdrop] at hprefix
    obtain ⟨x, rfl⟩ := hprefix
    refine ⟨segments '.' base, segments '.' x, ?_, segments_ne_nil x, ?_⟩
    · rw [← hstar, ← segments_append]
      rfl
    · rw [← segments_append, List.append_assoc]
      rfl
  · rintro ⟨front, rest, hrule, hrest, hrequested⟩
    have hfront : front ≠ [] := by
      rintro rfl
      simp only [isPermission, hrule, decide_eq_true_eq] at h
      exact absurd h.1 (by decide)
    have hrule' : rule = join ['.'] front ++ ['.'] ++ ['*'] := by
      rw [← join_segments (c := '.') rule, hrule, join_append hfront (List.cons_ne_nil _ _),
        join_singleton]
    have hrequested' : requested = join ['.'] front ++ ['.'] ++ join ['.'] rest := by
      rw [← join_segments (c := '.') requested, hrequested, join_append hfront hrest]
    refine ⟨⟨join ['.'] front, ?_⟩, ?_⟩
    · rw [hrule', List.append_assoc]
      rfl
    · rw [hrule', List.dropLast_concat, hrequested']
      exact List.prefix_append _ _

/-! ### Deadlines -/

namespace Deadline

variable {d : Deadline} {t : Double}

theorem live_of_not_truthy (h : d.stamp.truthy = false) : Live d.due t.val := by
  rw [due, if_pos h]
  intro u hu
  cases hu

/-- The comparison of a clock reading with an expiry is exact. -/
theorem lt_iff (h : d.stamp.truthy = true) :
    (reading t).lt d.stamp = true ↔ Live d.due t.val := by
  obtain ⟨stamp, hfinite, hnonneg⟩ := d
  rw [due, if_neg (by rw [h]; exact Bool.noConfusion)]
  rcases stamp with n | (f | b | -)
  · simp [Stamp.lt, reading, Stamp.num, PyFloat.num, Num.lt, Live]
  · simp [Stamp.lt, reading, Stamp.num, PyFloat.num, Num.lt, Live]
  · cases hfinite
  · cases hfinite

theorem inForce_iff :
    (d.stamp.truthy = false ∨ (reading t).lt d.stamp = true) ↔ Live d.due t.val := by
  cases htruthy : d.stamp.truthy with
  | false => exact iff_of_true (.inl rfl) (live_of_not_truthy htruthy)
  | true => exact (or_iff_right Bool.noConfusion).trans (lt_iff htruthy)

theorem expired_iff :
    (d.stamp.truthy = true ∧ d.stamp.le (reading t) = true) ↔ ¬Live d.due t.val := by
  rw [← inForce_iff, not_or, Bool.not_eq_false, Stamp.le, Bool.not_eq_true', Bool.not_eq_true]

theorem float_spec (h : d.stamp.truthy = true) : 0 < d.float.val ∧
    (t < d.float → Live d.due t.val) := by
  obtain ⟨stamp, hfinite, hnonneg⟩ := d
  rw [due, if_neg (by rw [h]; exact Bool.noConfusion)]
  rcases stamp with n | (f | b | -)
  · have hsome : (Double.ofInt n).isSome = true := hfinite
    obtain ⟨f, hf⟩ := Option.isSome_iff_exists.mp hsome
    have hn : 0 ≤ n := by simpa [Stamp.le, Stamp.lt, Stamp.num, Num.lt] using hnonneg
    have hpos : n ≠ 0 := by simpa [Stamp.truthy] using h
    obtain ⟨hneg, hmag⟩ := Double.ofInt_spec hn hf
    have hval : (float ⟨.int n, hfinite, hnonneg⟩).val =
        (roundMag (n.natAbs * 2 ^ Double.unitExponent) : ℕ) := by
      change ((Double.ofInt n).getD .zero).val = _
      rw [hf, Option.getD_some, Double.val, hneg, hmag, if_neg Bool.false_ne_true]
    refine ⟨?_, fun ht u hu => ?_⟩
    · rw [hval]
      have hscaled : 0 < n.natAbs * 2 ^ Double.unitExponent :=
        Nat.mul_pos (Int.natAbs_pos.mpr hpos) (Nat.two_pow_pos _)
      exact Int.natCast_pos.mpr (Double.roundMag_pos hscaled)
    · -- rounding is monotone and leaves the reading as it is
      obtain rfl := Option.some.inj hu
      rw [Double.lt_def, hval] at ht
      by_contra hle
      rw [not_lt] at hle
      have hn' : (n.natAbs : ℤ) = n := Int.natAbs_of_nonneg hn
      have ht0 : 0 ≤ t.val := (mul_nonneg hn (by positivity)).trans hle
      have hmag' := Double.mag_of_nonneg ht0
      have hle' : n.natAbs * 2 ^ Double.unitExponent ≤ t.mag := by
        have : ((n.natAbs * 2 ^ Double.unitExponent : ℕ) : ℤ) ≤ t.mag := by
          rw [Nat.cast_mul, hn', hmag', Nat.cast_pow]
          exact hle
        exact_mod_cast this
      have hround : (roundMag (n.natAbs * 2 ^ Double.unitExponent) : ℤ) ≤ t.mag :=
        Int.ofNat_le.mpr (roundMag_le t.round_mag hle')
      omega
  · have hn : 0 ≤ f.val := by
      simpa [Stamp.le, Stamp.lt, Stamp.num, PyFloat.num, Num.lt] using hnonneg
    have hpos : f.val ≠ 0 := by simpa [Stamp.truthy] using h
    refine ⟨lt_of_le_of_ne hn hpos.symm, fun ht u hu => ?_⟩
    obtain rfl := Option.some.inj hu
    exact ht
  · cases hfinite
  · cases hfinite

end Deadline

/-- The earliest of some times is one of them, and none is earlier. -/
theorem earliest_spec {d : Double} {ds : List Double} (hd : d ∈ ds) :
    earliest ds ∈ ds ∧ (earliest ds).val ≤ d.val := by
  obtain ⟨x, xs, rfl⟩ := List.exists_cons_of_ne_nil (List.ne_nil_of_mem hd)
  rw [earliest]
  induction xs using List.reverseRecOn generalizing d with
  | nil =>
    rw [List.mem_singleton.mp hd]
    exact ⟨List.mem_cons_self, le_rfl⟩
  | append_singleton xs y ih =>
    rw [List.foldl_append, List.foldl_cons, List.foldl_nil]
    obtain ⟨hmem, -⟩ := ih List.mem_cons_self
    rw [← List.cons_append, List.mem_append, List.mem_singleton] at hd
    rw [← List.cons_append]
    split
    · rename_i hlt
      refine ⟨List.mem_append_right _ List.mem_cons_self, ?_⟩
      rcases hd with hd | rfl
      · exact (le_of_lt hlt).trans (ih hd).2
      · exact le_rfl
    · rename_i hge
      refine ⟨List.mem_append_left _ hmem, ?_⟩
      rcases hd with hd | rfl
      · exact (ih hd).2
      · exact Double.not_lt.mp hge

/-! ### Evaluations -/

namespace AuthorizationPolicy

variable {policy : AuthorizationPolicy} {r : AuthorizationRequest} {s t : Double}

theorem mem_rolesOf {bs : List RoleBinding} {role : Role} :
    role ∈ policy.rolesOf bs ↔ ∃ b ∈ bs, policy.roles.get? b.roleId = some role := by
  rw [rolesOf, List.mem_filterMap]
  constructor
  · rintro ⟨i, hi, hrole⟩
    rw [List.mem_insertionSort, List.mem_eraseDups, List.mem_map] at hi
    obtain ⟨b, hb, rfl⟩ := hi
    exact ⟨b, hb, hrole⟩
  · rintro ⟨b, hb, hrole⟩
    refine ⟨b.roleId, ?_, hrole⟩
    rw [List.mem_insertionSort, List.mem_eraseDups]
    exact List.mem_map_of_mem hb

theorem mem_activeBindings {p : Principal} (hp : policy.principals.get? r.principalId = some p)
    {b : RoleBinding} : b ∈ policy.activeBindings p r t ↔ Applies policy r t b := by
  rw [activeBindings, List.mem_filter, decide_eq_true_iff, Deadline.inForce_iff,
    scopeContains_iff b.canonical, policy.keyed.1 _ _ hp]
  exact ⟨fun ⟨h, h₁, h₂, h₃⟩ => ⟨h, h₁, h₂, h₃⟩, fun ⟨h, h₁, h₂, h₃⟩ => ⟨h, h₁, h₂, h₃⟩⟩

/-- Some role in force has a rule of a kind that covers the permission. -/
theorem any_rule_iff {p : Principal} (hp : policy.principals.get? r.principalId = some p)
    (rules : Role → List Str) (hrules : ∀ role, ∀ rule ∈ rules role, isPermission rule = true) :
    ((policy.rolesOf (policy.activeBindings p r t)).any fun role =>
      (rules role).any (matchesPermission · r.permission)) = true ↔
    ∃ b role rule, Applies policy r t b ∧ policy.roles.get? b.roleId = some role ∧
      rule ∈ rules role ∧ Covers rule r.permission := by
  rw [List.any_eq_true]
  constructor
  · rintro ⟨role, hrole, hany⟩
    obtain ⟨b, hb, hget⟩ := mem_rolesOf.mp hrole
    obtain ⟨rule, hrule, hmatch⟩ := List.any_eq_true.mp hany
    exact ⟨b, role, rule, (mem_activeBindings hp).mp hb, hget, hrule,
      (matchesPermission_iff (hrules role rule hrule)).mp hmatch⟩
  · rintro ⟨b, role, rule, hb, hget, hrule, hcovers⟩
    exact ⟨role, mem_rolesOf.mpr ⟨b, (mem_activeBindings hp).mpr hb, hget⟩, List.any_eq_true.mpr
      ⟨rule, hrule, (matchesPermission_iff (hrules role rule hrule)).mpr hcovers⟩⟩

/-- An evaluation allows exactly what the policy permits at that time. -/
theorem evaluate_allowed_iff :
    (policy.evaluate r t).allowed = true ↔ Permitted policy r t := by
  rw [evaluate]
  split
  · rename_i hnone
    refine iff_of_false Bool.false_ne_true fun h => ?_
    obtain ⟨p, hp, -⟩ := h.principal
    rw [hnone] at hp
    cases hp
  · rename_i p hp
    split
    · rename_i hdisabled
      refine iff_of_false Bool.false_ne_true fun h => ?_
      obtain ⟨p', hp', henabled, -⟩ := h.principal
      rw [hp] at hp'
      obtain rfl := Option.some.inj hp'
      rw [hdisabled] at henabled
      cases henabled
    · rename_i henabled
      split
      · rename_i hexpired
        refine iff_of_false Bool.false_ne_true fun h => ?_
        obtain ⟨p', hp', -, hlive⟩ := h.principal
        rw [hp] at hp'
        obtain rfl := Option.some.inj hp'
        exact Deadline.expired_iff.mp hexpired hlive
      · rename_i hexpired
        have hlive : Live p.expiresAt.due t.val := by
          by_contra hdead
          exact hexpired (Deadline.expired_iff.mpr hdead)
        have hallow := any_rule_iff (t := t) hp Role.allow fun role rule hrule =>
          role.formed rule (List.mem_append_left _ hrule)
        have hdeny := any_rule_iff (t := t) hp Role.deny fun role rule hrule =>
          role.formed rule (List.mem_append_right _ hrule)
        have hiff : Permitted policy r t ↔
            (∃ b role rule, Applies policy r t b ∧ policy.roles.get? b.roleId = some role ∧
              rule ∈ role.allow ∧ Covers rule r.permission) ∧
            ¬∃ b role rule, Applies policy r t b ∧ policy.roles.get? b.roleId = some role ∧
              rule ∈ role.deny ∧ Covers rule r.permission :=
          ⟨fun h => ⟨h.allowed, h.undenied⟩,
            fun h => ⟨⟨p, hp, by simpa using henabled, hlive⟩, h.1, h.2⟩⟩
        rw [hiff, ← hallow, ← hdeny]
        dsimp only
        split
        · rename_i hdenied
          exact iff_of_false Bool.false_ne_true fun h => h.2 hdenied
        · rename_i hdenied
          split
          · rename_i hpermitted
            exact iff_of_true rfl ⟨hpermitted, hdenied⟩
          · rename_i hpermitted
            exact iff_of_false Bool.false_ne_true fun h => hpermitted h.1

/-- CORRECT: until a verdict's time is over, a new evaluation is the same. -/
theorem evaluate_stable (hst : s.val ≤ t.val) (hvalid : (policy.evaluate r s).validUntil.val = 0 ∨
    t < (policy.evaluate r s).validUntil) : policy.evaluate r t = policy.evaluate r s := by
  rcases hp : policy.principals.get? r.principalId with _ | p
  · rw [evaluate, evaluate, hp]
  by_cases henabled : p.enabled = false
  · rw [evaluate, evaluate, hp]
    simp only [henabled, if_true]
  by_cases hlive : Live p.expiresAt.due s.val
  · have hnot : ∀ {u : Double}, Live p.expiresAt.due u.val →
        ¬(p.expiresAt.stamp.truthy = true ∧ p.expiresAt.stamp.le (reading u) = true) :=
      fun hu he => Deadline.expired_iff.mp he hu
    have hcovers : ∀ d ∈ p.expiresAt :: (policy.activeBindings p r s).map RoleBinding.expiresAt,
        Live d.due t.val := by
      intro d hd
      cases htruthy : d.stamp.truthy with
      | false => exact Deadline.live_of_not_truthy htruthy
      | true =>
        obtain ⟨-, hbefore⟩ := Deadline.float_spec (t := t) htruthy
        have hmem : d.float ∈ ((p.expiresAt :: (policy.activeBindings p r s).map
            RoleBinding.expiresAt).filter (·.stamp.truthy)).map Deadline.float :=
          List.mem_map_of_mem (List.mem_filter.mpr ⟨hd, htruthy⟩)
        obtain ⟨hearliest, hle⟩ := earliest_spec hmem
        have huntil : (policy.evaluate r s).validUntil = earliest (((p.expiresAt ::
            (policy.activeBindings p r s).map RoleBinding.expiresAt).filter
              (·.stamp.truthy)).map Deadline.float) := by
          rw [evaluate, hp]
          dsimp only
          rw [if_neg henabled, if_neg (hnot hlive)]
          split
          · rfl
          · split <;> rfl
        rw [huntil] at hvalid
        obtain ⟨e, he, hfloat⟩ := List.mem_map.mp hearliest
        obtain ⟨hpos, -⟩ := Deadline.float_spec (t := t) (List.mem_filter.mp he).2
        rw [hfloat] at hpos
        rcases hvalid with hzero | hlt
        · omega
        · exact hbefore (Double.lt_of_lt_of_le hlt hle)
    have hsame : policy.activeBindings p r t = policy.activeBindings p r s := by
      refine List.filter_congr fun b hb => ?_
      rw [decide_eq_decide, Deadline.inForce_iff, Deadline.inForce_iff]
      refine and_congr_right fun hprincipal => and_congr_left fun hscope => ?_
      refine ⟨fun h => h.earlier hst, fun h => hcovers _ (List.mem_cons_of_mem _ ?_)⟩
      refine List.mem_map_of_mem (List.mem_filter.mpr ⟨hb, decide_eq_true ⟨hprincipal, ?_, hscope⟩⟩)
      exact Deadline.inForce_iff.mpr h
    rw [evaluate, evaluate, hp]
    dsimp only
    rw [if_neg henabled, if_neg henabled, if_neg (hnot hlive),
      if_neg (hnot (hcovers _ List.mem_cons_self)), hsame]
  · have hdead : ¬Live p.expiresAt.due t.val := fun h => hlive (h.earlier hst)
    rw [evaluate, evaluate, hp]
    dsimp only
    rw [if_neg henabled, if_neg henabled, if_pos (Deadline.expired_iff.mpr hlive),
      if_pos (Deadline.expired_iff.mpr hdead)]

end AuthorizationPolicy

/-! ### Calls -/

structure Call where
  request : AuthorizationRequest
  now : PyFloat

section Runs

variable {m : Machine} {policy : AuthorizationPolicy} {sink : AuthorizationDecision → Bool}
variable {receipts receipts' : Receipts} {r : AuthorizationRequest} {now : PyFloat}
variable {d : AuthorizationDecision}

/-- A call and what came of it. -/
def Step (m : Machine) (policy : AuthorizationPolicy) (sink : AuthorizationDecision → Bool)
    (receipts : Receipts) (a : Call × Except Fault AuthorizationDecision) (receipts' : Receipts) :
    Prop :=
  decide m policy sink receipts a.1.request a.1.now = (a.2, receipts')

/-- The clock did not go back. -/
def Advancing (calls : List Call) : Prop :=
  calls.Pairwise fun a b => ∀ s t, a.now = .finite s → b.now = .finite t → s ≤ t

/-- The decision is about the request. -/
structure Names (d : AuthorizationDecision) (r : AuthorizationRequest) : Prop where
  requestId : d.requestId = r.requestId
  principalId : d.principalId = r.principalId
  permission : d.permission = r.permission
  scope : d.scope = r.scope
  resourceId : d.resourceId = r.resourceId

theorem get?_append {i j : Str} {v w : Str × AuthorizationDecision}
    (h : (receipts.append i v).get? j = some w) :
    j = i ∧ w = v ∨ receipts.get? j = some w := by
  rw [Receipts.append, Dict.get?_set] at h
  split at h
  · rename_i hj
    exact .inl ⟨hj, (Option.some.inj h).symm⟩
  · rename_i hj
    rw [Dict.get?_erase, if_neg hj] at h
    exact .inr h

theorem get?_trim {j : Str} {w : Str × AuthorizationDecision}
    (h : receipts.trim.get? j = some w) : receipts.get? j = some w := by
  have hitems : receipts.trim.items = receipts.items.drop (receipts.size - maxReceipts) := by
    rw [Receipts.trim]
  rw [← Dict.mem_items, hitems] at h
  exact Dict.mem_items.mp (List.mem_of_mem_drop h)

/-- What a new decision leaves remembered. -/
theorem decideAnew_cases {t : Double} (hnew : receipts.get? r.requestId = none) :
    (∃ e, (decideAnew m policy sink receipts r t).1 = .error e ∧
      (decideAnew m policy sink receipts r t).2 = receipts) ∨
    (decideAnew m policy sink receipts r t).1 = .ok (policy.decision m r t) ∧
      ∀ j w, (decideAnew m policy sink receipts r t).2.get? j = some w →
        j = r.requestId ∧ w = (m.requestDigest r, policy.decision m r t) ∨
          receipts.get? j = some w := by
  rw [decideAnew]
  split
  · exact .inl ⟨_, rfl, rfl⟩
  · rw [hnew]
    exact .inr ⟨rfl, fun j w h => get?_append (get?_trim h)⟩

/-- A call raises, or answers with what it remembers, or decides anew. -/
theorem decide_cases (h : decide m policy sink receipts r now = (.ok d, receipts')) :
    ∃ t, now = .finite t ∧
      ((receipts.get? r.requestId = some (m.requestDigest r, d) ∧
        (d.validUntil.val = 0 ∨ t < d.validUntil)) ∨ d = policy.decision m r t) := by
  rcases now with t | b | -
  · refine ⟨t, rfl, ?_⟩
    rw [decide] at h
    split at h
    · cases h
    split at h
    · rename_i digest existing hexisting
      split at h
      · cases h
      rename_i hdigest
      rw [not_not] at hdigest
      split at h
      · rename_i hvalid
        obtain ⟨he, -⟩ := Prod.mk.inj h
        obtain rfl := Except.ok.inj he
        exact .inl ⟨hdigest ▸ hexisting, hvalid⟩
      · have hnew : Dict.get? (receipts.erase r.requestId) r.requestId = none := by
          rw [Dict.get?_erase, if_pos rfl]
        rcases decideAnew_cases (m := m) (t := t) hnew with ⟨e, he, -⟩ | ⟨hok, -⟩
        · rw [h] at he
          cases he
        · rw [h] at hok
          exact .inr (Except.ok.inj hok)
    · rename_i hnew
      rcases decideAnew_cases (m := m) (t := t) hnew with ⟨e, he, -⟩ | ⟨hok, -⟩
      · rw [h] at he
        cases he
      · rw [h] at hok
        exact .inr (Except.ok.inj hok)
  · cases h
  · cases h

/-- What a call leaves remembered was remembered before, or it is its own decision. -/
theorem decide_remembers {result : Except Fault AuthorizationDecision}
    (h : decide m policy sink receipts r now = (result, receipts')) {j : Str}
    {w : Str × AuthorizationDecision} (hw : receipts'.get? j = some w) :
    receipts.get? j = some w ∨ ∃ t, now = .finite t ∧ j = r.requestId ∧
      w = (m.requestDigest r, policy.decision m r t) := by
  have hanew : ∀ {receipts : Receipts} {t : Double}, receipts.get? r.requestId = none →
      (decideAnew m policy sink receipts r t).2.get? j = some w →
        receipts.get? j = some w ∨ j = r.requestId ∧
          w = (m.requestDigest r, policy.decision m r t) := by
    intro receipts t hnew hw
    rcases @decideAnew_cases m policy sink receipts r t hnew with
      ⟨e, -, hsame⟩ | ⟨-, hkept⟩
    · rw [hsame] at hw
      exact .inl hw
    · exact (hkept j w hw).symm
  have hreceipts : (decide m policy sink receipts r now).2 = receipts' := congrArg Prod.snd h
  rw [← hreceipts] at hw
  rcases now with t | b | -
  · rw [decide] at hw
    split at hw
    · exact .inl hw
    split at hw
    · rename_i digest existing hexisting
      split at hw
      · exact .inl hw
      split at hw
      · rcases get?_append hw with ⟨rfl, rfl⟩ | hold
        · exact .inl hexisting
        · exact .inl hold
      · have hnew : Dict.get? (receipts.erase r.requestId) r.requestId = none := by
          rw [Dict.get?_erase, if_pos rfl]
        rcases hanew hnew hw with hold | ⟨hj, hw⟩
        · rw [Dict.get?_erase] at hold
          split at hold
          · cases hold
          · exact .inl hold
        · exact .inr ⟨t, rfl, hj, hw⟩
    · rename_i hnew
      rcases hanew hnew hw with hold | ⟨hj, hw⟩
      · exact .inl hold
      · exact .inr ⟨t, rfl, hj, hw⟩
  · exact .inl hw
  · exact .inl hw

/-- What is remembered was decided by a call of the run. -/
theorem remembered_decided {ls : List (Call × Except Fault AuthorizationDecision)}
    (hrun : Run (Step m policy sink) .empty ls receipts) {i : Str} {w : Str × AuthorizationDecision}
    (hw : receipts.get? i = some w) : ∃ a ∈ ls, ∃ t, a.1.now = .finite t ∧
      a.1.request.requestId = i ∧
        w = (m.requestDigest a.1.request, policy.decision m a.1.request t) := by
  induction hrun with
  | nil => cases hw
  | @snoc ls receipts receipts' a _ hstep ih =>
    rcases decide_remembers hstep hw with hold | ⟨t, ht, hi, hw⟩
    · obtain ⟨b, hb, hrest⟩ := ih hold
      exact ⟨b, List.mem_append_left _ hb, hrest⟩
    · exact ⟨a, List.mem_append_right _ List.mem_cons_self, t, ht, hi.symm, hw⟩

theorem decision_names (t : Double) : Names (policy.decision m r t) r := ⟨rfl, rfl, rfl, rfl, rfl⟩

/-- A decision is about one request only. -/
theorem core_of_names {r r' : AuthorizationRequest} (h : Names d r) (h' : Names d r') :
    r'.core = r.core := by
  rw [AuthorizationRequest.core, AuthorizationRequest.core, ← h.requestId, ← h.principalId,
    ← h.permission, ← h.scope, ← h.resourceId, h'.requestId, h'.principalId, h'.permission,
    h'.scope, h'.resourceId]

/-- An id that is remembered for a request with another digest is answered for no request. -/
theorem decide_bound {digest : Str} {existing : AuthorizationDecision} {t : Double}
    (ht : ¬t.val < 0) (hget : receipts.get? r.requestId = some (digest, existing))
    (hdigest : digest ≠ m.requestDigest r) :
    decide m policy sink receipts r (.finite t) = (.error .bound, receipts) := by
  rw [decide, if_neg ht, hget]
  exact if_pos hdigest

/-- Without a time no request is answered. -/
theorem decide_untimed (h : ∀ t, now = .finite t → t.val < 0) :
    decide m policy sink receipts r now = (.error .time, receipts) := by
  rcases now with t | b | -
  · rw [decide, if_pos (h t rfl)]
  · rfl
  · rfl

/-- CORRECT: whatever was asked and answered before, a decision is about the request of the call and
    allows it exactly when the policy permits it at the time of the call; and a call whose id is
    remembered with the digest of another request is refused, and leaves what is remembered. -/
theorem decision_fresh {ls : List (Call × Except Fault AuthorizationDecision)} {call : Call}
    {result : Except Fault AuthorizationDecision}
    (hrun : Run (Step m policy sink) .empty ls receipts)
    (hstep : Step m policy sink receipts (call, result) receipts')
    (hclock : Advancing (ls.map Prod.fst ++ [call]))
    (hdigest : ∀ a ∈ ls, m.requestDigest a.1.request = m.requestDigest call.request →
      a.1.request = call.request) :
    (∀ d, result = .ok d → ∃ t, call.now = .finite t ∧ Names d call.request ∧
      (d.allowed = true ↔ Permitted policy call.request t)) ∧
    ∀ digest existing, receipts.get? call.request.requestId = some (digest, existing) →
      (digest = m.requestDigest call.request ↔ Names existing call.request) ∧
      (digest ≠ m.requestDigest call.request → receipts' = receipts ∧
        ((∃ t, call.now = .finite t ∧ ¬t.val < 0 ∧ result = .error .bound) ∨
          (∀ t, call.now = .finite t → t.val < 0) ∧ result = .error .time)) := by
  refine ⟨fun d hd => ?_, fun digest existing hget => ⟨?_, fun hother => ?_⟩⟩
  · subst hd
    obtain ⟨t, ht, hanswer⟩ := decide_cases hstep
    refine ⟨t, ht, ?_⟩
    rcases hanswer with ⟨hget, hvalid⟩ | hanew
    · obtain ⟨b, hb, s, hs, -, hw⟩ := remembered_decided hrun hget
      obtain ⟨hsame, rfl⟩ := Prod.mk.inj hw
      rw [hdigest b hb hsame.symm] at hvalid ⊢
      have hst : s ≤ t := by
        rw [Advancing, List.pairwise_append] at hclock
        exact hclock.2.2 b.1 (List.mem_map_of_mem hb) call List.mem_cons_self s t hs ht
      have hstable := AuthorizationPolicy.evaluate_stable hst hvalid
      refine ⟨decision_names s, ?_⟩
      rw [← AuthorizationPolicy.evaluate_allowed_iff, hstable]
      exact Iff.rfl
    · rw [hanew]
      exact ⟨decision_names t, AuthorizationPolicy.evaluate_allowed_iff⟩
  · -- what is remembered for the id is the decision of an earlier call with it
    obtain ⟨b, hb, s, -, -, hw⟩ := remembered_decided hrun hget
    obtain ⟨rfl, rfl⟩ := Prod.mk.inj hw
    constructor
    · intro hsame
      rw [hdigest b hb hsame]
      exact decision_names s
    · intro hnames
      rw [Machine.requestDigest, Machine.requestDigest, core_of_names hnames (decision_names s)]
  · by_cases htime : ∀ t, call.now = .finite t → t.val < 0
    · have huntimed := hstep.symm.trans (decide_untimed htime)
      obtain ⟨hresult, hreceipts⟩ := Prod.mk.inj huntimed
      exact ⟨hreceipts, .inr ⟨htime, hresult⟩⟩
    · push Not at htime
      obtain ⟨t, ht, hge⟩ := htime
      have hcall : decide m policy sink receipts call.request call.now = (result, receipts') := hstep
      rw [ht] at hcall
      have hbound := hcall.symm.trans (decide_bound (not_lt.mpr hge) hget hother)
      obtain ⟨hresult, hreceipts⟩ := Prod.mk.inj hbound
      exact ⟨hreceipts, .inl ⟨t, ht, not_lt.mpr hge, hresult⟩⟩

end Runs

/-! ### A policy with a denial that expires -/

def never : Deadline := ⟨.int 0, by decide +kernel, by decide +kernel⟩

def ten : Deadline := ⟨.int 10, by decide +kernel, by decide +kernel⟩

def sampleRole : Role where
  roleId := "viewer".toList
  allow := ["case.*".toList]
  deny := []
  named := by decide
  size := by decide
  formed := by decide

def frozenRole : Role where
  roleId := "frozen".toList
  allow := []
  deny := ["case.read".toList]
  named := by decide
  size := by decide
  formed := by decide

def sampleBinding : RoleBinding where
  principalId := "ada".toList
  roleId := "viewer".toList
  scope := "site".toList
  expiresAt := never
  named := by decide
  canonical := by decide

def frozenBinding : RoleBinding where
  principalId := "ada".toList
  roleId := "frozen".toList
  scope := "site/a".toList
  expiresAt := ten
  named := by decide
  canonical := by decide

def samplePrincipal : Principal where
  principalId := "ada".toList
  kind := .human
  enabled := true
  expiresAt := never
  named := by decide
  bounded := nofun

def requestOn (scope : Str) (canonical : isScope scope = true) : AuthorizationRequest where
  requestId := "r1".toList
  principalId := "ada".toList
  permission := "case.read".toList
  scope := scope
  resourceId := []
  named := by decide
  formed := by decide
  canonical := canonical
  resource := by decide

def samplePolicy : AuthorizationPolicy where
  principals := Dict.empty.set "ada".toList samplePrincipal
  roles := (Dict.empty.set "viewer".toList sampleRole).set "frozen".toList frozenRole
  bindings := [sampleBinding, frozenBinding]
  policyHash := []
  keyed := by
    refine ⟨fun i p hp => ?_, fun i r hr => ?_⟩
    · rw [Dict.get?_set] at hp
      split at hp
      · rename_i hi
        rw [hi, ← Option.some.inj hp]
        rfl
      · cases hp
    · rw [Dict.get?_set, Dict.get?_set] at hr
      split at hr
      · rename_i hi
        rw [hi, ← Option.some.inj hr]
        rfl
      · split at hr
        · rename_i hi
          rw [hi, ← Option.some.inj hr]
          rfl
        · cases hr
  bound := by
    intro b hb
    rcases List.mem_cons.mp hb with rfl | hb
    · exact ⟨rfl, rfl⟩
    · rw [List.mem_singleton.mp hb]
      exact ⟨rfl, rfl⟩

theorem siteA_canonical : isScope "site/a".toList = true := by decide

theorem siteB_canonical : isScope "site/b".toList = true := by decide

/-- With the SHA-256 digests of the requests on `site/a` and `site/b`. -/
def sampleMachine : Machine where
  sha256 v :=
    if (v.dict?.bind fun items => (getItem "scope".toList items).text?) = some "site/a".toList then
      "d31700db1db12782b4f084115fb3877d6ce6fa2cbfcb1f92e359177cc680b9e8".toList
    else "7304290eae87786ff51287b223f367f4c263a64dd9cc4ac8f96a50392034f572".toList
  hmac := fun _ => []

theorem five_fits : 5 ≤ 2 ^ 53 := by decide

theorem ten_fits : 10 ≤ 2 ^ 53 := by decide

/-- The request on `site/a`, at three times. -/
def firstCall : Call := ⟨requestOn "site/a".toList siteA_canonical, .finite .zero⟩

def secondCall : Call := ⟨requestOn "site/a".toList siteA_canonical, .finite (.ofNat 5 five_fits)⟩

def lastCall : Call := ⟨requestOn "site/a".toList siteA_canonical, .finite (.ofNat 10 ten_fits)⟩

/-- The same id for `site/b`. -/
def otherCall : Call := ⟨requestOn "site/b".toList siteB_canonical, .finite (.ofNat 5 five_fits)⟩

def reply (receipts : Receipts) (c : Call) : Except Fault AuthorizationDecision × Receipts :=
  decide sampleMachine samplePolicy (fun _ => true) receipts c.request c.now

theorem step_reply (receipts : Receipts) (c : Call) :
    Step sampleMachine samplePolicy (fun _ => true) receipts (c, (reply receipts c).1)
      (reply receipts c).2 := rfl

/-- What is remembered after the first call, and after the second one. -/
def afterFirst : Receipts := (reply .empty firstCall).2

def afterSecond : Receipts := (reply afterFirst secondCall).2

/-- Whether the answer allows the request. -/
def answer (result : Except Fault AuthorizationDecision) : Option Bool :=
  result.toOption.map (·.allowed)

theorem ordered_times : Double.zero ≤ Double.ofNat 5 five_fits ∧
    Double.zero ≤ Double.ofNat 10 ten_fits ∧ Double.ofNat 5 five_fits ≤ Double.ofNat 10 ten_fits ∧
    Double.ofNat 5 five_fits ≤ Double.ofNat 5 five_fits ∧
    ¬(Double.ofNat 5 five_fits).val < 0 := by decide +kernel

/-- A time is not before the time of the first or the second call. -/
theorem advancing_third {c : Call} {t : Double} (hc : c.now = .finite t)
    (hfirst : Double.zero ≤ t) (hsecond : Double.ofNat 5 five_fits ≤ t) :
    Advancing [firstCall, secondCall, c] := by
  refine List.pairwise_cons.mpr ⟨fun b hb x y hx hy => ?_, List.pairwise_cons.mpr
    ⟨fun b hb x y hx hy => ?_, List.pairwise_singleton _ _⟩⟩
  · obtain rfl := PyFloat.finite.inj hx
    rcases List.mem_cons.mp hb with rfl | hb
    · obtain rfl := PyFloat.finite.inj hy
      exact ordered_times.1
    · rw [List.mem_singleton.mp hb, hc] at hy
      exact PyFloat.finite.inj hy ▸ hfirst
  · obtain rfl := PyFloat.finite.inj hx
    rw [List.mem_singleton.mp hb, hc] at hy
    exact PyFloat.finite.inj hy ▸ hsecond

/-- The denial is made, and remembered; its id is refused to another request; when it has expired
    the request is permitted, and allowed. -/
theorem decision_fresh_sample : answer (reply .empty firstCall).1 = some false ∧
    answer (reply afterFirst secondCall).1 = some false ∧
    (reply afterSecond otherCall).1 = .error .bound ∧
    answer (reply afterSecond lastCall).1 = some true ∧
    Permitted samplePolicy lastCall.request (.ofNat 10 ten_fits) := by
  have hrun := (Run.nil.snoc (step_reply .empty firstCall)).snoc (step_reply afterFirst secondCall)
  obtain ⟨hzero, hten, hlater, hsame, hpositive⟩ := ordered_times
  have hlast : answer (reply afterSecond lastCall).1 = some true := by decide +kernel
  have hdigests : sampleMachine.requestDigest firstCall.request ≠
      sampleMachine.requestDigest otherCall.request := by decide +kernel
  refine ⟨by decide +kernel, by decide +kernel, ?_, hlast, ?_⟩
  · have hfresh := decision_fresh hrun (step_reply afterSecond otherCall)
      (advancing_third rfl hzero hsame) fun a ha he => by
        simp only [List.nil_append, List.singleton_append, List.mem_cons, List.not_mem_nil,
          or_false] at ha
        rcases ha with rfl | rfl
        · exact absurd he hdigests
        · exact absurd he hdigests
    have hget : (afterSecond.get? "r1".toList).map Prod.fst =
        some (sampleMachine.requestDigest firstCall.request) := by decide +kernel
    obtain ⟨⟨digest, existing⟩, hget, hdigest⟩ := Option.map_eq_some_iff.mp hget
    rcases (hfresh.2 digest existing hget).2 (fun he => hdigests (hdigest.symm.trans he)) with
      ⟨-, ⟨t, -, -, he⟩ | ⟨hneg, -⟩⟩
    · exact he
    · exact absurd (hneg _ rfl) hpositive
  · have hfresh := decision_fresh hrun (step_reply afterSecond lastCall)
      (advancing_third rfl hten hlater) fun a ha _ => by
        simp only [List.nil_append, List.singleton_append, List.mem_cons, List.not_mem_nil,
          or_false] at ha
        rcases ha with rfl | rfl
        · rfl
        · rfl
    rcases hr : (reply afterSecond lastCall).1 with e | d
    · rw [hr] at hlast
      cases hlast
    · obtain ⟨t, ht, -, hallowed⟩ := hfresh.1 d hr
      rw [hr] at hlast
      obtain rfl := PyFloat.finite.inj ht
      exact hallowed.mp (Option.some.inj hlast)

end Angerona.Authorization
