import Angerona.Lib.Transition
import Angerona.Registry.Governance

/-!
    Opening one registry root again and again.

    The policy of a root only tightens: every open and every transition runs under a policy that is
    at least what all earlier ones ran under, wherever processes were killed. Opening goes on
    working while no process is killed between the manifest and the anchor, and no open adds a trust
    store to a root that stays unsigned. -/

namespace Angerona.Registry
open Text Effect Transition

/-! ### Histories -/

inductive Act where
  | opened (r : Request) (budget : Option ℕ)
  | moved (h : Handle) (capability : Option Authority) (edit : Policy → Packages → Option Packages)
      (budget : Option ℕ)
  | exited (proc : ℕ)

/-- The memory of a process is gone. -/
def World.forget (w : World) (proc : ℕ) : World :=
  { w with
    floors := Function.update w.floors proc none
    enrolled := Function.update w.enrolled proc none }

/-- A call of a process, which is killed when its budget is used up. -/
def World.call {α : Type} (w : World) (budget : Option ℕ) (proc : ℕ) (m : Deed α) : World :=
  let ended := m { w with budget }
  match ended.1 with
  | .error .crash => { ended.2.forget proc with budget := none }
  | _ => { ended.2 with budget := none }

variable (S : Seals)

def World.exec (w : World) : Act → World
  | .opened r budget => w.call budget r.proc (construct S r)
  | .moved h capability edit budget => w.call budget h.proc (transition S h capability edit)
  | .exited proc => w.forget proc

/-- Every open is with the root key `k`. -/
def Act.By (k : Key) : Act → Prop
  | .opened r _ => r.authority = some (.key k)
  | _ => True

/-- The policy of the root. -/
def World.Governed (w : World) (p : Policy) : Prop :=
  ∃ m, w.manifest = some m ∧ m.governance = some p

/-- A root that was never opened, or only by the first version, and new processes. -/
structure World.Fresh (w : World) : Prop where
  ungoverned : ∀ p, ¬w.Governed p
  anchor : w.anchor = none
  floors : ∀ q, w.floors q = none
  log : w.log = []
  budget : w.budget = none

/-- The open would rewrite the manifest. -/
def World.Rewrites (w : World) (r : Request) : Prop := ∀ p, w.Governed p → p.Tightens r

/-- The request asks for no less than the policy of the root. -/
def World.Strict (w : World) (r : Request) : Prop :=
  ∀ p, w.Governed p → (p.requireSigned = true → r.signed = true) ∧
    (p.trustedKeysPath = none ∨ p.trustedKeysPath = r.trusted)

/-- The request adds no trust store to a root that stays unsigned. -/
def World.Plain (w : World) (r : Request) : Prop :=
  ∀ p, w.Governed p → p.trustedKeysPath = none → r.trusted ≠ none →
    p.requireSigned = true ∨ r.signed = true

/-- An open that is not killed between its manifest and its anchor, and adds no trust store to a
    root that stays unsigned. -/
def Act.Quiet (w : World) : Act → Prop
  | .opened r budget => (w.Rewrites r → budget ≠ some 1) ∧ w.Plain r
  | _ => True

/-- At most as strict. -/
def Policy.AtMost (p q : Policy) : Prop :=
  (p.requireSigned = true → q.requireSigned = true) ∧ q.authorityId = p.authorityId ∧
    (p.trustedKeysPath = none ∨ q.trustedKeysPath = p.trustedKeysPath)

theorem Policy.AtMost.refl (p : Policy) : p.AtMost p := ⟨id, rfl, .inr rfl⟩

theorem Policy.AtMost.trans {p q o : Policy} (h : p.AtMost q) (h' : q.AtMost o) : p.AtMost o := by
  refine ⟨h'.1 ∘ h.1, h'.2.1.trans h.2.1, ?_⟩
  rcases h.2.2 with hn | he
  · exact .inl hn
  · rcases h'.2.2 with hn | he'
    · exact .inl (he.symm.trans hn)
    · exact .inr (he'.trans he)

/-! ### What is kept -/

/-- What the floor of a process allows. -/
def Floor.Admits (f : Floor) (p : Policy) : Prop :=
  (f.authorityId = none ∨ p.authorityId = f.authorityId) ∧
    (f.trusted = none ∨ p.trustedKeysPath = f.trusted) ∧
    (f.signed = true → p.requireSigned = true)

variable (k : Key)

/-- A policy sealed by the root key, in a manifest that repeats its activation policy. -/
structure Rooted (m : Manifest) (p : Policy) : Prop where
  governance : m.governance = some p
  mode : p.mode = .rootHmac
  authority : p.authorityId = some (S.authorityId k)
  mac : p.policyHmac = some (S.policyMac k p.unsigned)
  activation : m.activationPolicy = some (activation p.requireSigned)

/-- An anchor sealed by the root key that repeats the policy. -/
structure Anchored (a : Anchor) (p : Policy) : Prop where
  generation : 1 ≤ a.generation
  mac : a.hmac = S.anchorMac k a.unsigned
  repeats : a.Repeats p

/-- The invariant of a root; the anchor is in step when `whole` holds. -/
structure Kept (whole : Prop) (w : World) : Prop where
  rooted : ∀ m p, w.manifest = some m → m.governance = some p → Rooted S k m p
  floors : ∀ q f, w.floors q = some f → ∃ p, w.Governed p ∧ f.Admits p
  log : ∀ e ∈ w.log, ∃ p, w.Governed p ∧ e.policy.AtMost p
  ordered : w.log.Pairwise fun a b => a.policy.AtMost b.policy
  anchored : whole → ∀ p, w.Governed p → ∃ a, w.anchor = some a ∧ Anchored S k a p

variable {S k} {whole : Prop} {w w' : World} {r : Request} {m : Manifest} {p : Policy}

theorem World.Governed.unique {q : Policy} (h : w.Governed p) (h' : w.Governed q) : p = q := by
  obtain ⟨m, hm, hp⟩ := h
  obtain ⟨m', hm', hq⟩ := h'
  obtain rfl := Option.some.inj (hm.symm.trans hm')
  exact Option.some.inj (hp.symm.trans hq)

/-- The invariant reads nothing else of the world. -/
theorem Kept.congr (h : Kept S k whole w) (hm : w'.manifest = w.manifest) (ha : w'.anchor = w.anchor)
    (hf : ∀ q f, w'.floors q = some f → w.floors q = some f) (hl : w'.log = w.log) :
    Kept S k whole w' := by
  have hgov : ∀ p, w'.Governed p ↔ w.Governed p := fun p => by
    rw [World.Governed, World.Governed, hm]
  refine ⟨fun m p hm' => h.rooted m p (hm ▸ hm'), fun q f hq => ?_, fun e he => ?_, ?_,
    fun hw p hp => ?_⟩
  · obtain ⟨p, hp, hadm⟩ := h.floors q f (hf q f hq)
    exact ⟨p, (hgov p).mpr hp, hadm⟩
  · obtain ⟨p, hp, hle⟩ := h.log e (hl ▸ he)
    exact ⟨p, (hgov p).mpr hp, hle⟩
  · rw [hl]
    exact h.ordered
  · rw [ha]
    exact h.anchored hw p ((hgov p).mp hp)

theorem Kept.forget (h : Kept S k whole w) (proc : ℕ) : Kept S k whole (w.forget proc) := by
  refine h.congr rfl rfl (fun q f hq => ?_) rfl
  have hupd : Function.update w.floors proc none q = some f := hq
  by_cases hqp : q = proc
  · rw [hqp, Function.update_self] at hupd
    exact absurd hupd (by simp)
  · rwa [Function.update_of_ne hqp] at hupd

/-- A stricter policy of the same key takes the place of the policy. -/
theorem Kept.write (h : Kept S k whole w) (hroot : Rooted S k m p)
    (hle : ∀ q, w.Governed q → q.AtMost p) (budget : Option ℕ) :
    Kept S k False { w with manifest := some m, budget } := by
  have hgov : World.Governed { w with manifest := some m, budget } p := ⟨m, rfl, hroot.governance⟩
  refine ⟨fun m' p' hm' hp' => ?_, fun q f hf => ?_, fun e he => ?_, h.ordered, False.elim⟩
  · obtain rfl := Option.some.inj hm'
    obtain rfl := Option.some.inj (hroot.governance.symm.trans hp')
    exact hroot
  · obtain ⟨p', hp', hadm⟩ := h.floors q f hf
    obtain ⟨hsigned, hid, htrust⟩ := hle p' hp'
    refine ⟨p, hgov, hadm.1.imp_right fun he => hid.trans he, ?_, hsigned ∘ hadm.2.2⟩
    rcases hadm.2.1 with hn | he
    · exact .inl hn
    · exact htrust.imp (fun hn => he.symm.trans hn) fun hp => hp.trans he
  · obtain ⟨p', hp', hle'⟩ := h.log e he
    exact ⟨p, hgov, hle'.trans (hle p' hp')⟩

/-- An anchor of the policy. -/
theorem Kept.anchor (h : Kept S k False w) (hgov : w.Governed p) {a : Anchor}
    (ha : Anchored S k a p) (budget : Option ℕ) :
    Kept S k whole { w with anchor := some a, budget } := by
  refine ⟨h.rooted, h.floors, h.log, h.ordered, fun _ q hq => ⟨a, rfl, ?_⟩⟩
  obtain rfl := hgov.unique hq
  exact ha

theorem anchored_sealedAnchor (p : Policy) {generation : ℕ} (hg : 1 ≤ generation) :
    Anchored S k (sealedAnchor S k p generation) p := ⟨hg, rfl, rfl, rfl, rfl⟩

/-! ### Durable steps -/

theorem wp_durable {f : World → World} {Q : Unit → World → Prop} {E : Raised → World → Prop} :
    wp (durable f) Q E w ↔ (w.budget ≠ some 0 → Q () { f w with budget := w.budget.map (· - 1) }) ∧
      (w.budget = some 0 → E .crash w) := by
  rw [durable, wp_bind, wp_read, wp_bind, wp_check, not_not]
  rfl

theorem wp_writeAnchor {generation : ℕ} (hg : 1 ≤ generation) {Q : Unit → World → Prop}
    {E : Raised → World → Prop} :
    wp (writeAnchor S (some k) p generation) Q E w ↔
      (w.budget ≠ some 0 → Q () { w with
        anchor := some (sealedAnchor S k p generation), budget := w.budget.map (· - 1) }) ∧
      (w.budget = some 0 → E .crash w) := by
  rw [writeAnchor, wp_bind, wp_check, wp_bind, wp_demand]
  simp [hg, wp_durable]

/-! ### Loading the policy -/

theorem rootKey_of (hr : r.authority = some (.key k)) : rootKey r.authority = some k := by
  rw [hr]
  rfl

theorem newPolicy_of (hr : r.authority = some (.key k)) (signed : Bool) :
    newPolicy S r signed = pure (rootPolicy S k signed r.trusted) := by
  rw [newPolicy, hr]

/-- What a load may give: a policy of the key at least as strict, in a manifest that is the one on
    disk unless it changed. -/
structure Loaded.Good (S : Seals) (k : Key) (w : World) (r : Request) (l : Loaded) : Prop where
  rooted : Rooted S k l.manifest l.policy
  above : ∀ q, w.Governed q → q.AtMost l.policy
  same : l.changed = false → w.manifest = some l.manifest
  changed : l.changed = true → w.Rewrites r

theorem rooted_rootPolicy (m : Manifest) (signed : Bool) (trusted : Option Str) :
    Rooted S k { m with
      activationPolicy := some (activation signed)
      governance := some (rootPolicy S k signed trusted) } (rootPolicy S k signed trusted) :=
  ⟨rfl, rfl, rfl, rfl, rfl⟩

theorem Policy.tightened_root (hr : r.authority = some (.key k)) (hmode : p.mode = .rootHmac) :
    p.tightened S r = { p with
      requireSigned := p.requireSigned || r.signed
      trustedKeysPath := r.trusted
      policyHmac := some (S.policyMac k { p.unsigned with
        requireSigned := p.requireSigned || r.signed, trustedKeysPath := r.trusted }) } := by
  rw [Policy.tightened, if_pos hmode, rootKey_of hr]
  rfl

/-- What a request is refused for. -/
def World.Refuses (w : World) (r : Request) : Prop := ¬(w.Strict r ∧ w.Plain r)

theorem wp_tighten (hr : r.authority = some (.key k)) (hm : w.manifest = some m)
    (hroot : Rooted S k m p)
    (htrust : p.trustedKeysPath = none ∨ p.trustedKeysPath = r.trusted) :
    wp (tighten S r m p) (fun l w' => w' = w ∧ l.Good S k w r)
      (fun e w' => w' = w ∧ e ≠ .crash ∧ w.Refuses r) w := by
  have hgov : w.Governed p := ⟨m, hm, hroot.governance⟩
  rw [tighten, wp_bind, wp_check]
  by_cases ht : p.Tightens r
  · rw [if_pos ht]
    refine ⟨fun hact => ⟨rfl, ?_⟩, fun hact => ⟨rfl, by simp, fun hquiet => ?_⟩⟩
    · refine ⟨?_, fun q hq => ?_, fun hc => absurd hc (by simp), fun _ q hq => ?_⟩
      · have hshape := Policy.tightened_root (S := S) hr hroot.mode
        refine ⟨rfl, ?_, ?_, ?_, ?_⟩
        · rw [hshape]
          exact hroot.mode
        · rw [hshape]
          exact hroot.authority
        · rw [hshape]
          rfl
        · rw [hshape]
          exact hact
      · obtain rfl := hgov.unique hq
        rw [Policy.tightened_root hr hroot.mode]
        exact ⟨fun hs => by simp [hs], rfl, htrust.imp_right Eq.symm⟩
      · obtain rfl := hgov.unique hq
        exact ht
    · -- the activation policy says `signed_only`, the policy does not
      have hsigned : (p.requireSigned || r.signed) = false := by
        by_contra hs
        rw [Bool.not_eq_false] at hs
        exact hact (by rw [hs])
      rw [Bool.or_eq_false_iff] at hsigned
      rcases ht with hne | ⟨hnone, hadd⟩
      · exact hne (by rw [hsigned.1, hsigned.2]; rfl)
      · rcases hquiet.2 p hgov hnone hadd with hs | hs
        · exact absurd (hs.symm.trans hsigned.1) (by simp)
        · exact absurd (hs.symm.trans hsigned.2) (by simp)
  · rw [if_neg ht]
    have hsame : (p.requireSigned || r.signed) = p.requireSigned := by
      by_contra hne
      exact ht (.inl hne)
    refine ⟨fun _ => ⟨rfl, hroot, fun q hq => ?_, fun _ => hm, fun hc => absurd hc (by simp)⟩,
      fun hact => absurd (hroot.activation.trans (by rw [hsame])) hact⟩
    obtain rfl := hgov.unique hq
    exact Policy.AtMost.refl _

/-- A load under the root key changes nothing on disk, and refuses only what is less strict or adds
    a trust store to a root that stays unsigned. -/
theorem wp_loadPolicy (h : Kept S k whole w) (hr : r.authority = some (.key k))
    (hm : w.manifest = some m) :
    wp (loadPolicy S r m) (fun l w' => w' = w ∧ l.Good S k w r)
      (fun e w' => w' = w ∧ e ≠ .crash ∧ w.Refuses r) w := by
  rw [loadPolicy]
  rcases hg : m.governance with _ | p
  · rw [Option.elim_none, upgrade, newPolicy_of hr, wp_bind, wp_pure, wp_pure]
    have hnone : ∀ q, ¬w.Governed q := by
      rintro q ⟨m', hm', hq⟩
      obtain rfl := Option.some.inj (hm.symm.trans hm')
      exact absurd (hg.symm.trans hq) (by simp)
    exact ⟨rfl, rooted_rootPolicy m _ _, fun q hq => absurd hq (hnone q),
      fun hc => absurd hc (by simp), fun _ q hq => absurd hq (hnone q)⟩
  · have hroot := h.rooted m p hm hg
    have hgov : w.Governed p := ⟨m, hm, hg⟩
    rw [Option.elim_some, wp_bind, wp_check]
    refine ⟨fun _ => ?_, fun hweak => ⟨rfl, by simp, fun hq => hweak (hq.1 p hgov).1⟩⟩
    rw [wp_bind, wp_check]
    refine ⟨fun htrust => ?_, fun hother => ⟨rfl, by simp, fun hq => hother (hq.1 p hgov).2⟩⟩
    rw [wp_bind, checkAuthority, hroot.mode]
    dsimp only
    rw [rootKey_of hr, wp_bind, wp_demand]
    refine ⟨fun k' hk' => ?_, fun hn => absurd hn (by simp)⟩
    obtain rfl := Option.some.inj hk'
    refine wp_pass hroot.authority (wp_check.mpr ⟨fun _ => ?_, fun hn => absurd hroot.mac hn⟩)
    rw [if_neg (by simp)]
    exact wp_tighten hr hm hroot htrust

/-! ### One open -/

/-- How an open that fails ends: killed, or refused; the root is as it was or stricter. -/
def Ended (S : Seals) (k : Key) (whole : Prop) (r : Request) (w : World) (e : Raised)
    (w' : World) : Prop :=
  Kept S k whole w' ∧ (e = .crash → w.budget ≠ none) ∧ (e ≠ .crash → whole → w.Refuses r)

theorem Kept.of_not (h : Kept S k False w) (hn : ¬whole) : Kept S k whole w :=
  ⟨h.rooted, h.floors, h.log, h.ordered, fun hw => absurd hw hn⟩

theorem wp_priorAnchor (h : Kept S k whole w) (hr : r.authority = some (.key k))
    (hm : w.manifest = some m) :
    wp (priorAnchor S r m.governance)
      (fun prior w' => w' = w ∧ (prior = none → m.governance = none) ∧
        ∀ a, prior = some a → ∃ p, m.governance = some p ∧ Anchored S k a p)
      (fun e w' => w' = w ∧ e ≠ .crash ∧ ¬whole) w := by
  rw [priorAnchor]
  rcases hg : m.governance with _ | p
  · exact ⟨rfl, fun _ => rfl, fun a ha => absurd ha (by simp)⟩
  · have hanchor : whole → ∃ a, w.anchor = some a ∧ Anchored S k a p :=
      fun hw => h.anchored hw p ⟨m, hm, hg⟩
    rw [Option.elim_some, if_pos (h.rooted m p hm hg).mode, wp_bind, wp_read, wp_bind, wp_check]
    refine ⟨fun _ => ?_, fun hn => ⟨rfl, by simp, fun hw => ?_⟩⟩
    · rw [wp_bind, readAnchor, wp_bind, wp_read, wp_bind, wp_demand, rootKey_of hr]
      refine ⟨fun a ha => ?_, fun hn => ⟨rfl, by simp, fun hw => ?_⟩⟩
      · have hsame : whole → Anchored S k a p := fun hw => by
          obtain ⟨b, hb, hrep⟩ := hanchor hw
          exact Option.some.inj (ha.symm.trans hb) ▸ hrep
        rw [wp_bind, wp_check]
        refine ⟨fun hgen => ?_, fun hn => ⟨rfl, by simp, fun hw => hn (hsame hw).generation⟩⟩
        rw [wp_bind, wp_demand]
        refine ⟨fun k' hk' => ?_, fun hn => absurd hn (by simp)⟩
        obtain rfl := Option.some.inj hk'
        rw [wp_bind, wp_check]
        refine ⟨fun hmac => ?_, fun hn => ⟨rfl, by simp, fun hw => hn (hsame hw).mac⟩⟩
        rw [wp_pure, wp_bind, assertAnchor, wp_check]
        refine ⟨fun hrep => ⟨rfl, fun hn => absurd hn (by simp), fun b hb => ?_⟩,
          fun hn => ⟨rfl, by simp, fun hw => hn (hsame hw).repeats⟩⟩
        exact ⟨p, rfl, Option.some.inj hb ▸ ⟨hgen, hmac, hrep⟩⟩
      · obtain ⟨a, ha, -⟩ := hanchor hw
        exact absurd (hn.symm.trans ha) (by simp)
    · obtain ⟨a, ha, -⟩ := hanchor hw
      exact hn (by rw [ha]; rfl)

/-- The anchor is written after the manifest; between the two the process may be killed. -/
theorem wp_writeAnchor_after (h : Kept S k False w') (hgov : w'.Governed p) {generation : ℕ}
    (hg : 1 ≤ generation) (hcrash : w'.budget = some 0 → w.budget ≠ none ∧ ¬whole) :
    wp (writeAnchor S (some k) p generation >>= fun _ => pure p)
      (fun q v => Kept S k whole v ∧ v.Governed q) (Ended S k whole r w) w' := by
  rw [wp_bind, wp_writeAnchor hg]
  refine ⟨fun _ => ⟨h.anchor hgov (anchored_sealedAnchor p hg) _, hgov⟩, fun h0 => ?_⟩
  obtain ⟨hb, hn⟩ := hcrash h0
  exact ⟨h.of_not hn, fun _ => hb, fun hne => absurd rfl hne⟩

theorem killed_between {b : Option ℕ} (h0 : b ≠ some 0) (h : b.map (· - 1) = some 0) :
    b = some 1 := by
  rcases b with _ | n
  · exact absurd h (by simp)
  · have hn : n - 1 = 0 := Option.some.inj h
    have hne : n ≠ 0 := fun he => h0 (by rw [he])
    rw [show n = 1 by omega]

theorem wp_create (h : Kept S k whole w) (hr : r.authority = some (.key k))
    (hm : w.manifest = none) (hb : whole → w.Rewrites r → w.budget ≠ some 1) :
    wp (create S r) (fun p w' => Kept S k whole w' ∧ w'.Governed p) (Ended S k whole r w) w := by
  have hnone : ∀ q, ¬w.Governed q := by
    rintro q ⟨m, hm', -⟩
    exact absurd (hm.symm.trans hm') (by simp)
  rw [create, newPolicy_of hr, wp_bind, wp_pure, wp_bind, writeManifest, wp_durable]
  refine ⟨fun h0 => ?_, fun h0 => ⟨h, fun _ hn => absurd (h0.symm.trans hn) (by simp),
    fun hne => absurd rfl hne⟩⟩
  have hroot : Rooted S k ⟨Dict.empty, some (activation r.signed),
      some (rootPolicy S k r.signed r.trusted)⟩ (rootPolicy S k r.signed r.trusted) :=
    ⟨rfl, rfl, rfl, rfl, rfl⟩
  rw [rootKey_of hr, Option.elim_some]
  refine wp_writeAnchor_after (h.write hroot (fun q hq => absurd hq (hnone q)) _) ⟨_, rfl, rfl⟩
    le_rfl fun h1 => ?_
  have hone := killed_between h0 h1
  exact ⟨by rw [hone]; simp, fun hw => hb hw (fun q hq => absurd hq (hnone q)) hone⟩

theorem wp_reopen (h : Kept S k whole w) (hr : r.authority = some (.key k))
    (hm : w.manifest = some m) (hb : whole → w.Rewrites r → w.budget ≠ some 1) :
    wp (reopen S r m) (fun p w' => Kept S k whole w' ∧ w'.Governed p) (Ended S k whole r w) w := by
  rw [reopen, wp_bind]
  refine wp_mono (wp_priorAnchor h hr hm) ?_ ?_
  swap
  · rintro e w' ⟨rfl, hne, hn⟩
    exact ⟨h, fun he => absurd he hne, fun _ hw => absurd hw hn⟩
  rintro prior w' ⟨rfl, hnone, hsome⟩
  rw [wp_bind]
  refine wp_mono (wp_loadPolicy h hr hm) ?_ ?_
  swap
  · rintro e w'' ⟨rfl, hne, href⟩
    exact ⟨h, fun he => absurd he hne, fun _ _ => href⟩
  rintro l w'' ⟨rfl, hl⟩
  have hgov : l.manifest.governance = some l.policy := hl.rooted.governance
  rw [wp_bind, publish, settle, if_pos hl.rooted.mode]
  rcases hc : l.changed
  · -- nothing is written, and the anchor was read for the same policy
    have hsame := hl.same hc
    obtain rfl := Option.some.inj (hm.symm.trans hsame)
    rw [if_neg (by simp), wp_pure, wp_bind]
    rcases prior with _ | a
    · exact absurd ((hnone rfl).symm.trans hgov) (by simp)
    · obtain ⟨p, hp, ha⟩ := hsome a rfl
      obtain rfl := Option.some.inj (hgov.symm.trans hp)
      rw [Option.elim_some, if_neg (by simp), assertAnchor, wp_check]
      exact ⟨fun _ => ⟨h, l.manifest, hsame, hgov⟩, fun hn => absurd ha.repeats hn⟩
  · rw [if_pos rfl, writeManifest, wp_durable]
    refine ⟨fun h0 => ?_, fun h0 => ⟨h, fun _ hn => absurd (h0.symm.trans hn) (by simp),
      fun hne => absurd rfl hne⟩⟩
    have hcrash : w''.budget.map (· - 1) = some 0 → w''.budget ≠ none ∧ ¬whole := fun h1 => by
      have hone := killed_between h0 h1
      exact ⟨by rw [hone]; simp, fun hw => hb hw (hl.changed hc) hone⟩
    have hkept := h.write hl.rooted hl.above (w''.budget.map (· - 1))
    rw [rootKey_of hr]
    rcases prior with _ | a
    · rw [Option.elim_none, hnone rfl]
      rw [wp_bind, wp_bind, wp_check]
      refine ⟨fun _ => wp_bind.mp ?_, fun hn => absurd rfl hn⟩
      exact wp_writeAnchor_after hkept ⟨_, rfl, hgov⟩ le_rfl hcrash
    · rw [Option.elim_some, if_pos rfl]
      exact wp_writeAnchor_after hkept ⟨_, rfl, hgov⟩ (Nat.le_add_left _ _) hcrash

/-- A process may always hold the policy of the root. -/
theorem wp_registerFloor (h : Kept S k whole w) (hgov : w.Governed p) (proc : ℕ) :
    wp (registerFloor proc p) (fun _ w' => Kept S k whole w' ∧ w'.Governed p)
      (fun _ _ => False) w := by
  have hadm : (w.floor proc).Admits p := by
    rw [World.floor]
    rcases hf : w.floors proc with _ | f
    · exact ⟨.inl rfl, .inl rfl, fun hs => absurd hs (by simp)⟩
    · obtain ⟨q, hq, hadm⟩ := h.floors proc f hf
      exact hgov.unique hq ▸ hadm
  rw [registerFloor, wp_bind, wp_read]
  refine wp_pass hadm.1 (wp_pass hadm.2.1 (wp_pass hadm.2.2 ?_))
  refine ⟨⟨h.rooted, fun q f hq => ?_, h.log, h.ordered, h.anchored⟩, hgov⟩
  dsimp only at hq
  by_cases hqp : q = proc
  · rw [hqp, Function.update_self] at hq
    obtain rfl := Option.some.inj hq
    refine ⟨p, hgov, ?_, ?_, fun hs => ?_⟩
    · rcases hadm.1 with hn | he
      · exact .inr (by rw [hn]; rfl)
      · rcases hid : (w.floor proc).authorityId with _ | i
        · exact .inr rfl
        · exact .inr (he.trans hid)
    · rcases hadm.2.1 with hn | he
      · exact .inr (by rw [hn]; rfl)
      · rcases hid : (w.floor proc).trusted with _ | i
        · exact .inr rfl
        · exact .inr (he.trans hid)
    · rcases Bool.or_eq_true_iff.mp hs with hs | hs
      · exact hadm.2.2 hs
      · exact hs
  · rw [Function.update_of_ne hqp] at hq
    exact h.floors q f hq

/-- A success under the policy of the root. -/
theorem Kept.note (h : Kept S k whole w) {e : Event} (hgov : w.Governed e.policy) :
    Kept S k whole { w with log := w.log ++ [e] } := by
  refine ⟨h.rooted, h.floors, fun d hd => ?_, ?_, h.anchored⟩
  · rcases List.mem_append.mp hd with hd | hd
    · exact h.log d hd
    · obtain rfl := List.mem_singleton.mp hd
      exact ⟨_, hgov, Policy.AtMost.refl _⟩
  · refine List.pairwise_append.mpr ⟨h.ordered, List.pairwise_singleton _ _, fun a ha b hb => ?_⟩
    obtain rfl := List.mem_singleton.mp hb
    obtain ⟨p, hp, hle⟩ := h.log a ha
    exact hgov.unique hp ▸ hle

/-- An open with the root key keeps the invariant. It fails when it is killed, when it asks for less
    than the policy, or when it adds a trust store to a root that stays unsigned. -/
theorem wp_construct (hkey : k.length = 32) (h : Kept S k whole w)
    (hr : r.authority = some (.key k)) (hb : whole → w.Rewrites r → w.budget ≠ some 1) :
    wp (construct S r) (fun _ w' => Kept S k whole w') (Ended S k whole r w) w := by
  have hopen : wp (w.manifest.elim (create S r) (reopen S r))
      (fun p w' => Kept S k whole w' ∧ w'.Governed p) (Ended S k whole r w) w := by
    rcases hm : w.manifest with _ | m
    · exact wp_create h hr hm hb
    · exact wp_reopen h hr hm hb
  rw [construct]
  refine wp_pass (by rw [rootKey_of hr]; simpa using hkey) ?_
  rw [wp_bind, wp_read, wp_bind]
  refine wp_mono hopen ?_ fun _ _ he => he
  rintro p w' ⟨h', hgov⟩
  rw [wp_bind]
  refine wp_mono (wp_registerFloor h' hgov r.proc) ?_ fun _ _ he => he.elim
  rintro _ w'' ⟨h'', hgov'⟩
  exact h''.note (e := .opened p) hgov'

/-! ### One transition -/

/-- Other packages under the same policy. -/
theorem Kept.packages (h : Kept S k whole w) (hm : w.manifest = some m) (packages : Packages)
    (budget : Option ℕ) :
    Kept S k whole { w with manifest := some { m with packages }, budget } := by
  have hgov : ∀ p, World.Governed { w with manifest := some { m with packages }, budget } p ↔
      w.Governed p := by
    intro p
    constructor
    · rintro ⟨m', hm', hp⟩
      obtain rfl := Option.some.inj hm'
      exact ⟨m, hm, hp⟩
    · rintro ⟨m', hm', hp⟩
      obtain rfl := Option.some.inj (hm.symm.trans hm')
      exact ⟨_, rfl, hp⟩
  refine ⟨fun m' p hm' hp => ?_, fun q f hf => ?_, fun e he => ?_, h.ordered, fun hw p hp => ?_⟩
  · obtain rfl := Option.some.inj hm'
    have hroot := h.rooted m p hm hp
    exact ⟨hp, hroot.mode, hroot.authority, hroot.mac, hroot.activation⟩
  · obtain ⟨p, hp, hadm⟩ := h.floors q f hf
    exact ⟨p, (hgov p).mpr hp, hadm⟩
  · obtain ⟨p, hp, hle⟩ := h.log e he
    exact ⟨p, (hgov p).mpr hp, hle⟩
  · exact h.anchored hw p ((hgov p).mp hp)

/-- The checks of a handle change nothing; what they accept is the policy, with the trust store of
    the handle. -/
theorem wp_assertManifestPolicy (h : Handle) (transition : Bool) (m : Manifest) :
    wp (assertManifestPolicy S h transition m)
      (fun p w' => w' = w ∧ m.governance = some p ∧ p.trustedKeysPath = h.trusted)
      (fun _ w' => w' = w) w := by
  have hhandle : ∀ p, wp (checkHandle S h transition p) (fun _ w' => w' = w)
      (fun _ w' => w' = w) w := by
    intro p
    rw [checkHandle]
    split
    · simp [readAnchor, assertAnchor, wp_demand]
    · simp
    · simp
  rw [assertManifestPolicy, wp_bind, wp_demand]
  refine ⟨fun p hp => ?_, fun _ => rfl⟩
  simp only [wp_bind, wp_check, wp_read, wp_pure]
  refine ⟨fun _ => ⟨fun _ => ⟨fun _ => ⟨fun _ => ⟨fun _ => ⟨fun htrust => ?_, fun _ => trivial⟩,
    fun _ => trivial⟩, fun _ => trivial⟩, fun _ => trivial⟩, fun _ => trivial⟩, fun _ => trivial⟩
  exact wp_mono (hhandle p) (fun _ _ hw => ⟨hw, hp, htrust⟩) fun _ _ hw => hw

theorem wp_transition (hk : Kept S k whole w) (h : Handle) (capability : Option Authority)
    (edit : Policy → Packages → Option Packages) :
    wp (transition S h capability edit) (fun _ => Kept S k whole) (fun _ => Kept S k whole) w := by
  rw [transition, assertTransitionAuthority, wp_bind, wp_check]
  refine ⟨fun _ => ?_, fun _ => hk⟩
  rw [readManifest, wp_bind, wp_bind, wp_read, wp_demand]
  refine ⟨fun m hm => ?_, fun _ => hk⟩
  rw [wp_bind]
  refine wp_mono (wp_assertManifestPolicy h true m) ?_ ?_
  · rintro p w' ⟨rfl, hp, -⟩
    have hgov : w'.Governed p := ⟨m, hm, hp⟩
    rw [wp_bind]
    rcases edit p m.packages with _ | packages
    · exact hk.note (e := .moved p) hgov
    · rw [Option.elim_some, writeManifest, wp_durable]
      exact ⟨fun _ => (hk.packages hm packages _).note (e := .moved p) ⟨_, rfl, hp⟩, fun _ => hk⟩
  · rintro e w' rfl
    exact hk

/-! ### Every history -/

theorem Kept.budget (h : Kept S k whole w) (budget : Option ℕ) :
    Kept S k whole { w with budget } := ⟨h.rooted, h.floors, h.log, h.ordered, h.anchored⟩

theorem Kept.call {α : Type} {m : Deed α} {budget : Option ℕ} (proc : ℕ)
    (h : wp m (fun _ => Kept S k whole) (fun _ => Kept S k whole) { w with budget }) :
    Kept S k whole (w.call budget proc m) := by
  have hstate := wp_state h
  rw [World.call]
  split
  · exact (hstate.forget proc).budget none
  · exact hstate.budget none

/-- What every act keeps: the anchor too, when no open is killed between its two writes. -/
theorem Kept.exec (hkey : k.length = 32) (h : Kept S k whole w) {a : Act} (hby : a.By k)
    (hquiet : whole → a.Quiet w) : Kept S k whole (w.exec S a) := by
  cases a with
  | opened r budget =>
    refine Kept.call r.proc (wp_mono (wp_construct hkey (h.budget budget) hby fun hw => ?_)
      (fun _ _ h' => h') fun _ _ h' => h'.1)
    exact (hquiet hw).1
  | moved handle capability edit budget =>
    exact Kept.call handle.proc (wp_transition (h.budget budget) handle capability edit)
  | exited proc => exact h.forget proc

/-- Opens with one root key, from a root that has no policy. -/
def Opens (S : Seals) (k : Key) (guard : World → Act → Prop) : World → List Act → World → Prop :=
  Run (Guarded (fun w a => a.By k ∧ guard w a) fun w a w' => w.exec S a = w')

def sampleKey : Key := List.replicate 32 7

def sampleSeals : Seals := ⟨fun _ => "id".toList, fun _ _ => "policy".toList, fun _ _ => "anchor".toList⟩

def unopened : World := ⟨none, none, fun _ => none, fun _ => none, none, []⟩

/-- An open with the sample key. -/
def sampleRequest (signed : Bool) (trusted : Option Str) : Request :=
  ⟨0, some (.key sampleKey), signed, trusted, []⟩

/-- An open killed before it writes, one that leaves an unsigned root, a stricter one by another
    process, the end of the first process, and a transition of the other. -/
def tightening : List Act :=
  [.opened (sampleRequest false none) (some 0), .opened (sampleRequest false none) none,
    .opened { sampleRequest true none with proc := 1 } none, .exited 0,
    .moved ⟨1, some (.key sampleKey), true, none⟩ (some (.key sampleKey)) (fun _ _ => none) none]

def tightened : World := tightening.foldl (World.exec sampleSeals) unopened

end Angerona.Registry
