import Angerona.Response.Calls
import Angerona.Response.Storage

/-!
    Which handlers the broker calls.

    The history of a run lists the approvals, the completed revocations and the invocations.
    `Sound` says what the history before an invocation and the broker's state at that moment hold.
    It follows from two relations: the saved records account for the history (`Stored`), and the
    records of the running broker extend the saved ones (`Live`). -/

namespace Angerona.Response
open Text PyJson Effect Transition

/-! ### Sound invocations -/

/-- A principal that counts for an invocation: one of the credentials that proved the digest, not
    the requester, not revoked and not expired. -/
structure Counts (m : Machine) (pre : List Event) (i : Invocation) (p : VerifiedPrincipal) :
    Prop where
  proof : ∃ proof record stamp, Event.approved i.digest proof ∈ pre ∧
    Proven m i.verifier proof i.digest stamp record ∧ p = m.principal record proof
  other : ∃ requester, m.resolvePrincipal i.verifier i.proposal.requestedBy = some requester ∧
    p.principalId ≠ requester ∧ ∀ record ∈ i.verifier.credentials,
      record.principalId m = requester → p.keyFingerprint ≠ record.keyFingerprint m
  unrevoked : p.keyFingerprint ∉ i.records.revokedKeys ∧
    p.principalId ∉ i.records.revokedSubjects ∧ Event.credentialRevoked p.keyFingerprint ∉ pre
  unexpired : (reading i.dispatchedAt).lt p.expiresAt = true

/-- The invocation is the first of its proposal, and the proposal and its approvals are in force. -/
structure Sound (m : Machine) (pre : List Event) (i : Invocation) : Prop where
  once : ∀ j, Event.invoked j ∈ pre → j.proposal.proposalId ≠ i.proposal.proposalId
  real : i.proposal.dryRun = false
  digest : ∃ text, i.proposal.text m = some text ∧ i.digest = m.sha256 text
  operation : i.operation.operationId = i.proposal.operationId
  window : i.proposal.validAt i.dispatchedAt = true
  unrevoked : i.digest ∉ i.records.revokedProposals ∧ Event.proposalRevoked i.digest ∉ pre
  enough : i.operation.risk.required ≤ i.principals.length
  subjects : (i.principals.map (·.principalId)).Nodup
  keys : (i.principals.map (·.keyFingerprint)).Nodup
  counts : ∀ p ∈ i.principals, Counts m pre i p
  verifier : i.operation.risk.severe = true → i.operation.verifyOutcome = true

/-! ### What the records account for -/

/-- The saved records hold what the history says. -/
structure Stored (m : Machine) (disk : Disk) (saved : Records) (log : List Event) : Prop where
  file : ∀ text, disk.file = some text → saved.encode m = .ok text
  attempted : ∀ i, Event.invoked i ∈ log →
    (saved.attempts.get? i.proposal.proposalId).isSome = true
  proposals : ∀ d, Event.proposalRevoked d ∈ log → d ∈ saved.revokedProposals
  keys : ∀ k, Event.credentialRevoked k ∈ log → k ∈ saved.revokedKeys
  approvals : ∀ d c p, saved.proof d c = some p → Event.approved d p ∈ log
  sound : ∀ pre i post, log = pre ++ Event.invoked i :: post → Sound m pre i

/-- The records of the running broker extend the saved ones. -/
structure Live (saved : Records) (log : List Event) (records : Records)
    (operations : Dict Str ResponseOperation) : Prop where
  attempts : ∀ k, (saved.attempts.get? k).isSome = true → (records.attempts.get? k).isSome = true
  proposals : ∀ d ∈ saved.revokedProposals, d ∈ records.revokedProposals
  keys : ∀ k ∈ saved.revokedKeys, k ∈ records.revokedKeys
  approvals : ∀ d c p, records.proof d c = some p → Event.approved d p ∈ log
  operations : ∀ k o, operations.get? k = some o → o.operationId = k

structure Good (m : Machine) (s : Site) : Prop where
  enrolled : s.disk.marker = true
  stored : Stored m s.disk s.saved s.log
  live : Live s.saved s.log s.broker.records s.broker.operations

/-- An event appended to a sound history. -/
theorem sound_append {m : Machine} {log : List Event} {e : Event}
    (h : ∀ pre i post, log = pre ++ Event.invoked i :: post → Sound m pre i)
    (he : ∀ i, e = .invoked i → Sound m log i) :
    ∀ pre i post, log ++ [e] = pre ++ Event.invoked i :: post → Sound m pre i := by
  intro pre i post heq
  rcases List.eq_nil_or_concat post with rfl | ⟨post, f, rfl⟩
  · obtain ⟨rfl, hlast⟩ := List.append_inj' heq rfl
    exact he i (List.cons.inj hlast).1
  · rw [List.concat_eq_append, ← List.cons_append, ← List.append_assoc] at heq
    exact h pre i post (List.append_inj' heq rfl).1

/-! ### Calls that read -/

/-- The two sites differ in their tapes and latches only. -/
structure Alike (s t : Site) : Prop where
  records : t.broker.records = s.broker.records
  operations : t.broker.operations = s.broker.operations
  disk : t.disk = s.disk
  saved : t.saved = s.saved
  log : t.log = s.log

theorem Alike.refl (s : Site) : Alike s s := ⟨rfl, rfl, rfl, rfl, rfl⟩

theorem Alike.trans {s t u : Site} (h : Alike s t) (h' : Alike t u) : Alike s u :=
  ⟨h'.records.trans h.records, h'.operations.trans h.operations, h'.disk.trans h.disk,
    h'.saved.trans h.saved, h'.log.trans h.log⟩

/-- A property of sites that reads neither tape nor latches. -/
def Framed (I : Site → Prop) : Prop := ∀ s t, I s → Alike s t → I t

variable {m : Machine} {v : ApprovalIdentityVerifier} {s t : Site} {α β : Type}

theorem framed_good : Framed (Good m) := by
  intro s t h ha
  refine ⟨?_, ?_, ?_⟩
  · rw [ha.disk]
    exact h.enrolled
  · rw [ha.disk, ha.saved, ha.log]
    exact h.stored
  · rw [ha.saved, ha.log, ha.records, ha.operations]
    exact h.live

/-- The call changes tape and latches only, and returns as `R` says. -/
def Quiet (c : Call α) (R : Site → α → Prop) : Prop :=
  ∀ s, wp c (fun a t => Alike s t ∧ R s a) (fun _ t => Alike s t) s

/-- A quiet call before another one. -/
theorem Quiet.bind {c : Call α} {R : Site → α → Prop} {f : α → Call β} {Q : β → Site → Prop}
    {E : Refusal → Site → Prop} (hc : Quiet c R) (hE : ∀ e t, Alike s t → E e t)
    (h : ∀ a t, Alike s t → R s a → wp (f a) Q E t) : wp (c >>= f) Q E s :=
  wp_bind.mpr (wp_mono (hc s) (fun a t ha => h a t ha.1 ha.2) hE)

theorem Quiet.weaken {c : Call α} {R R' : Site → α → Prop} (hc : Quiet c R)
    (h : ∀ s a, R s a → R' s a) : Quiet c R' :=
  fun s => wp_mono (hc s) (fun a _ ha => ⟨ha.1, h s a ha.2⟩) fun _ _ ht => ht

/-- After a quiet call, a quiet call. -/
theorem Quiet.then {c : Call α} {R : Site → α → Prop} {P : β → Prop} {f : α → Call β}
    (hc : Quiet c R)
    (hf : ∀ a t, R s a → Alike s t → wp (f a) (fun b u => Alike t u ∧ P b)
      (fun _ u => Alike t u) t) :
    wp (c >>= f) (fun b u => Alike s u ∧ P b) (fun _ u => Alike s u) s :=
  hc.bind (fun _ _ ha => ha) fun a t ha hR =>
    wp_mono (hf a t hR ha) (fun _ _ hu => ⟨ha.trans hu.1, hu.2⟩) fun _ _ hu => ha.trans hu

theorem quiet_now : Quiet now fun _ _ => True := by
  intro s
  rw [wp, now]
  split
  · rename_i h
    split at h
    · obtain ⟨-, rfl⟩ := Prod.mk.inj h
      exact ⟨⟨rfl, rfl, rfl, rfl, rfl⟩, trivial⟩
    · cases h
    · cases h
  · rename_i h
    split at h
    · cases h
    · obtain ⟨-, rfl⟩ := Prod.mk.inj h
      exact ⟨rfl, rfl, rfl, rfl, rfl⟩
    · obtain ⟨-, rfl⟩ := Prod.mk.inj h
      exact .refl _

theorem quiet_isClosing : Quiet isClosing fun _ _ => True := by
  intro s
  rcases hc : s.tape.closes with _ | ⟨closed, rest⟩
  · simp only [wp, isClosing, hc]
    exact ⟨.refl s, trivial⟩
  · simp only [wp, isClosing, hc]
    exact ⟨⟨rfl, rfl, rfl, rfl, rfl⟩, trivial⟩

theorem quiet_check {p : Prop} [Decidable p] {e : Refusal} :
    Quiet (check p e : Call Unit) fun _ _ => p := by
  intro s
  rw [wp_check]
  exact ⟨fun hp => ⟨.refl s, hp⟩, fun _ => .refl s⟩

theorem quiet_demand {o : Option α} {e : Refusal} :
    Quiet (demand o e : Call α) fun _ a => o = some a := by
  intro s
  rw [wp_demand]
  exact ⟨fun _ ha => ⟨.refl s, ha⟩, fun _ => .refl s⟩

theorem quiet_pure {a : α} : Quiet (pure a : Call α) fun _ b => b = a := fun s => ⟨.refl s, rfl⟩

theorem quiet_ensureAccepting : Quiet ensureAccepting fun _ _ => True := by
  intro s
  refine quiet_isClosing.then fun closing t _ _ => ?_
  exact quiet_check.weaken (fun _ _ _ => trivial) t

theorem quiet_configured : Quiet (approvalConfigured m v) fun _ _ => True := by
  intro s
  refine Quiet.then (R := fun _ _ => True) ?_ fun identity t _ _ => ?_
  · intro s
    rcases hc : s.tape.identityClock with _ | ⟨stamp, rest⟩
    · simp only [wp, hc]
      exact ⟨.refl s, trivial⟩
    · simp only [wp, hc]
      exact ⟨⟨rfl, rfl, rfl, rfl, rfl⟩, trivial⟩
  · refine quiet_isClosing.then fun closing u _ _ => ?_
    exact ⟨.refl u, trivial⟩

/-- A verified principal that is admissible, and the proof it comes from. -/
def Certified (m : Machine) (v : ApprovalIdentityVerifier) (records : Records)
    (digest requestedBy : Str) (proofs : List SignedPrincipalProof) (p : VerifiedPrincipal) : Prop :=
  ∃ proof ∈ proofs, ∃ record stamp, Proven m v proof digest stamp record ∧
    p = m.principal record proof ∧ admissible m v requestedBy records p = true

theorem quiet_verifyApproval {proof : SignedPrincipalProof} {digest requestedBy : Str} :
    Quiet (verifyApproval m v proof digest requestedBy) fun s p =>
      Certified m v s.broker.records digest requestedBy [proof] p := by
  intro s
  refine quiet_ensureAccepting.bind (fun _ _ ha => ha) fun _ t hst _ => ?_
  refine quiet_now.bind (fun _ _ ha => hst.trans ha) fun stamp u htu _ => ?_
  refine quiet_demand.bind (fun _ _ ha => (hst.trans htu).trans ha) fun p w huw hp => ?_
  have hsw := (hst.trans htu).trans huw
  rw [wp_bind, wp_read, wp_bind, wp_check]
  refine ⟨fun hadmissible => ⟨hsw, ?_⟩, fun _ => hsw⟩
  obtain ⟨record, hproven, rfl⟩ := verify_some hp
  rw [hsw.records] at hadmissible
  exact ⟨proof, List.mem_singleton_self proof, record, stamp, hproven, rfl, hadmissible⟩

theorem Certified.mono {records : Records} {digest requestedBy : Str}
    {proofs proofs' : List SignedPrincipalProof} {p : VerifiedPrincipal}
    (h : Certified m v records digest requestedBy proofs p) (hsub : ∀ q ∈ proofs, q ∈ proofs') :
    Certified m v records digest requestedBy proofs' p := by
  obtain ⟨proof, hproof, hrest⟩ := h
  exact ⟨proof, hsub proof hproof, hrest⟩

theorem quiet_verifyAll {digest requestedBy : Str} : ∀ {proofs : List SignedPrincipalProof},
    Quiet (verifyAll m v digest requestedBy proofs) fun s ps =>
      ∀ p ∈ ps, Certified m v s.broker.records digest requestedBy proofs p
  | [], s => ⟨.refl s, by simp⟩
  | proof :: proofs, s => by
    have hone : Quiet (attempt (· = .permission) (verifyApproval m v proof digest requestedBy))
        fun s o => ∀ p ∈ o.toList, Certified m v s.broker.records digest requestedBy [proof] p := by
      intro s
      refine wp_attempt (wp_mono (quiet_verifyApproval s) (fun p t h => ⟨h.1, ?_⟩) fun e t h => ?_)
      · intro q hq
        obtain rfl : q = p := by simpa using hq
        exact h.2
      · split
        · exact ⟨h, by simp⟩
        · exact h
    refine hone.then fun o t ho hst => ?_
    refine quiet_verifyAll.then fun rest u hrest htu => ⟨.refl u, fun p hp => ?_⟩
    rcases List.mem_append.mp hp with hp | hp
    · exact (ho p hp).mono fun q hq => List.mem_cons.mpr (Or.inl (List.mem_singleton.mp hq))
    · exact (hst.records ▸ hrest p hp).mono fun q hq => List.mem_cons_of_mem _ hq

/-- The principals counted for a digest are independent, and each holds a proof of it. -/
theorem quiet_verifiedApprovals {digest requestedBy : Str} :
    Quiet (verifiedApprovals m v digest requestedBy) fun s ps =>
      (ps.map (·.principalId)).Nodup ∧ (ps.map (·.keyFingerprint)).Nodup ∧ ∀ p ∈ ps,
        Certified m v s.broker.records digest requestedBy (s.broker.records.proofs digest) p := by
  intro s
  rw [verifiedApprovals, wp_bind, wp_read]
  refine quiet_verifyAll.then fun verified t hverified _ => ?_
  refine quiet_check.then fun _ u _ htu => ?_
  obtain ⟨hsubjects, hkeys, hmem⟩ := independentPrincipals_spec verified
  exact ⟨.refl u, hsubjects, hkeys, fun p hp => hverified p (hmem p hp)⟩

/-! ### Calls that write -/

/-- The state file was replaced by the text of the records. -/
structure Wrote (m : Machine) (s t : Site) : Prop where
  records : t.broker.records = s.broker.records
  operations : t.broker.operations = s.broker.operations
  log : t.log = s.log
  saved : t.saved = s.broker.records
  file : ∃ text, s.broker.records.encode m = .ok text ∧ text.length m.repr 0 ≤ Records.maxStateBytes ∧
    t.disk = { s.disk with file := some text }

/-- A save that returns has written the records; one that raises may have. -/
theorem wp_saveState : wp (saveState m) (fun _ t => Wrote m s t)
    (fun _ t => Alike s t ∨ Wrote m s t) s := by
  rw [saveState, wp_bind, wp_read]
  refine quiet_check.bind (fun _ _ ha => Or.inl ha) fun _ t hst _ => ?_
  refine quiet_demand.bind (fun _ _ ha => Or.inl (hst.trans ha)) fun text u htu htext => ?_
  have hsu := hst.trans htu
  have hencode : s.broker.records.encode m = .ok text := by
    rcases he : s.broker.records.encode m with e | j
    · rw [he] at htext
      cases htext
    · rw [he] at htext
      exact congrArg _ (Option.some.inj htext)
  rw [wp_ite]
  refine ⟨fun _ => ?_, fun hlen => ?_⟩
  · rw [wp_bind, wp_modify, wp_raise]
    exact Or.inl (hsu.trans ⟨rfl, rfl, rfl, rfl, rfl⟩)
  · have hfile : ∀ w : Site, w.disk = { u.disk with file := some text } →
        ∃ text, s.broker.records.encode m = .ok text ∧
          text.length m.repr 0 ≤ Records.maxStateBytes ∧ w.disk = { s.disk with file := some text } :=
      fun w hw => ⟨text, hencode, Nat.le_of_not_lt hlen, hsu.disk ▸ hw⟩
    rw [wp, replaceFile]
    rcases hw : u.tape.writes.head? with _ | _ | _ | _
    · exact ⟨hsu.records, hsu.operations, hsu.log, hsu.records, hfile _ rfl⟩
    · exact ⟨hsu.records, hsu.operations, hsu.log, hsu.records, hfile _ rfl⟩
    · exact Or.inl (hsu.trans ⟨rfl, rfl, rfl, rfl, rfl⟩)
    · exact Or.inr ⟨hsu.records, hsu.operations, hsu.log, hsu.records, hfile _ rfl⟩

theorem Good.wrote (h : Good m s) (hw : Wrote m s t) : Good m t := by
  obtain ⟨text, hencode, -, hdisk⟩ := hw.file
  refine ⟨by rw [hdisk]; exact h.enrolled, ⟨?_, ?_, ?_, ?_, ?_, ?_⟩, ⟨?_, ?_, ?_, ?_, ?_⟩⟩
  · intro text' htext'
    rw [hdisk] at htext'
    obtain rfl := Option.some.inj htext'
    rw [hw.saved, hencode]
  · intro i hi
    rw [hw.saved]
    exact h.live.attempts _ (h.stored.attempted i (hw.log ▸ hi))
  · intro d hd
    rw [hw.saved]
    exact h.live.proposals d (h.stored.proposals d (hw.log ▸ hd))
  · intro k hk
    rw [hw.saved]
    exact h.live.keys k (h.stored.keys k (hw.log ▸ hk))
  · intro d c p hp
    rw [hw.log]
    exact h.live.approvals d c p (hw.saved ▸ hp)
  · exact hw.log ▸ h.stored.sound
  · rw [hw.saved, hw.records]
    exact fun _ hk => hk
  · rw [hw.saved, hw.records]
    exact fun _ hk => hk
  · rw [hw.saved, hw.records]
    exact fun _ hk => hk
  · rw [hw.log, hw.records]
    exact h.live.approvals
  · rw [hw.operations]
    exact h.live.operations

theorem good_saveState (h : Good m s) :
    wp (saveState m) (fun _ t => Good m t ∧ Wrote m s t) (fun _ => Good m) s :=
  wp_mono wp_saveState (fun _ _ hw => ⟨h.wrote hw, hw⟩) fun _ _ ht =>
    ht.elim (framed_good s _ h) h.wrote

/-- Records that keep the attempts, revocations and approvals they had. -/
structure Extends (r r' : Records) : Prop where
  attempts : ∀ k, (r.attempts.get? k).isSome = true → (r'.attempts.get? k).isSome = true
  proposals : ∀ d ∈ r.revokedProposals, d ∈ r'.revokedProposals
  keys : ∀ k ∈ r.revokedKeys, k ∈ r'.revokedKeys

theorem Good.setRecords {f : Records → Records} (h : Good m s)
    (he : Extends s.broker.records (f s.broker.records))
    (hproofs : ∀ d c, (f s.broker.records).proof d c = s.broker.records.proof d c) :
    Good m (s.setRecords f) :=
  ⟨h.enrolled, h.stored, fun k hk => he.attempts k (h.live.attempts k hk),
    fun d hd => he.proposals d (h.live.proposals d hd), fun k hk => he.keys k (h.live.keys k hk),
    fun d c p hp => h.live.approvals d c p (hproofs d c ▸ hp), h.live.operations⟩

/-- An event that the records account for. -/
theorem Good.note {e : Event} (h : Good m s)
    (hinvoked : ∀ i, e = .invoked i → Sound m s.log i ∧
      (s.saved.attempts.get? i.proposal.proposalId).isSome = true)
    (hproposal : ∀ d, e = .proposalRevoked d → d ∈ s.saved.revokedProposals)
    (hkey : ∀ k, e = .credentialRevoked k → k ∈ s.saved.revokedKeys) : Good m (s.note e) := by
  have hold : ∀ {f : Event}, f ∈ s.log ++ [e] → f ∈ s.log ∨ e = f := fun hf =>
    (List.mem_append.mp hf).imp_right fun he => (List.mem_singleton.mp he).symm
  refine ⟨h.enrolled, ⟨h.stored.file, fun i hi => ?_, fun d hd => ?_, fun k hk => ?_, fun d c p hp => ?_, ?_⟩,
    ⟨h.live.attempts, h.live.proposals, h.live.keys, fun d c p hp => ?_, h.live.operations⟩⟩
  · exact (hold hi).elim (h.stored.attempted i) fun he => (hinvoked i he).2
  · exact (hold hd).elim (h.stored.proposals d) (hproposal d)
  · exact (hold hk).elim (h.stored.keys k) (hkey k)
  · exact List.mem_append_left _ (h.stored.approvals d c p hp)
  · exact sound_append h.stored.sound fun i he => (hinvoked i he).1
  · exact List.mem_append_left _ (h.live.approvals d c p hp)

/-! ### Admission -/

theorem alike_finishClose (s : Site) : Alike s (finishClose s) := by
  rw [finishClose]
  split
  · split
    · exact ⟨rfl, rfl, rfl, rfl, rfl⟩
    · exact ⟨rfl, rfl, rfl, rfl, rfl⟩
  · exact ⟨rfl, rfl, rfl, rfl, rfl⟩

theorem alike_leave (s : Site) : Alike s (leave s) := by
  have hactive : Alike s { s with broker := { s.broker with active := s.broker.active - 1 } } :=
    ⟨rfl, rfl, rfl, rfl, rfl⟩
  have hlook := hactive.trans (wp_state (wp_mono (quiet_isClosing
    { s with broker := { s.broker with active := s.broker.active - 1 } })
    (fun _ _ h => h.1) fun _ _ h => h))
  rw [leave]
  split
  · exact hlook.trans (alike_finishClose _)
  · exact hlook

theorem quiet_enter : Quiet enter fun _ _ => True := by
  intro s
  refine quiet_ensureAccepting.bind (fun _ _ ha => ha) fun _ t hst _ => ?_
  rw [wp_modify]
  exact ⟨hst.trans ⟨rfl, rfl, rfl, rfl, rfl⟩, trivial⟩

/-- What the body of an admitted call gives, the call gives. -/
theorem wp_admitted {body : Call α} {Q E : Site → Prop} (hQ : Framed Q) (hE : Framed E)
    (hs : E s) (h : ∀ t, Alike s t → wp body (fun _ => Q) (fun _ => E) t) :
    wp (admitted body) (fun _ => Q) (fun _ => E) s := by
  refine quiet_enter.bind (fun _ t ha => hE s t hs ha) fun _ t hst _ => ?_
  exact wp_ensuring.mpr (wp_mono (h t hst) (fun _ u hu => hQ u _ hu (alike_leave u))
    fun _ u hu => hE u _ hu (alike_leave u))

theorem good_admitted {body : Call α} (hs : Good m s)
    (h : ∀ t, Good m t → wp body (fun _ => Good m) (fun _ => Good m) t) :
    wp (admitted body) (fun _ => Good m) (fun _ => Good m) s :=
  wp_admitted framed_good framed_good hs fun t ha => h t (framed_good s t hs ha)

/-- A quiet call keeps what is framed. -/
theorem Quiet.framed {I : Site → Prop} {c : Call α} {R : Site → α → Prop} (hI : Framed I)
    (hc : Quiet c R) (h : I s) : wp c (fun _ => I) (fun _ => I) s :=
  wp_mono (hc s) (fun _ t ha => hI s t h ha.1) fun _ t ha => hI s t h ha

/-- A quiet call in front of one that keeps a framed property. -/
theorem Quiet.bindFramed {I : Site → Prop} {c : Call α} {R : Site → α → Prop} {f : α → Call β}
    {Q : β → Site → Prop} (hI : Framed I) (hc : Quiet c R) (hs : I s)
    (h : ∀ a t, I t → Alike s t → R s a → wp (f a) Q (fun _ => I) t) :
    wp (c >>= f) Q (fun _ => I) s :=
  hc.bind (fun _ t ha => hI s t hs ha) fun a t ha hR => h a t (hI s t hs ha) ha hR

theorem Quiet.bindGood {c : Call α} {R : Site → α → Prop} {f : α → Call β} {Q : β → Site → Prop}
    (hc : Quiet c R) (hs : Good m s)
    (h : ∀ a t, Good m t → Alike s t → R s a → wp (f a) Q (fun _ => Good m) t) :
    wp (c >>= f) Q (fun _ => Good m) s := hc.bindFramed framed_good hs h

/-! ### Approvals and revocations -/

theorem proof_approve (r : Records) (digest : Str) (proof : SignedPrincipalProof) (d c : Str) :
    (r.approve digest proof).proof d c =
      if d = digest ∧ c = proof.credentialId then some proof else r.proof d c := by
  rw [Records.proof, Records.proof, Records.approve, Dict.get?_set]
  by_cases hd : d = digest
  · subst hd
    rw [if_pos rfl, Option.bind_some, Dict.get?_set]
    by_cases hc : c = proof.credentialId
    · rw [if_pos hc, if_pos ⟨rfl, hc⟩]
    · rw [if_neg hc, if_neg fun h => hc h.2]
      rcases r.approvals.get? d with _ | proofs
      · rfl
      · rfl
  · rw [if_neg hd, if_neg fun h => hd h.1]

theorem good_approve {digest : Str} {proof : SignedPrincipalProof} (h : Good m s) :
    Good m ((s.setRecords (Records.approve digest proof)).note (.approved digest proof)) := by
  refine ⟨h.enrolled, (h.note (by simp) (by simp) (by simp)).stored, h.live.attempts, h.live.proposals,
    h.live.keys, fun d c p hp => ?_, h.live.operations⟩
  change (s.broker.records.approve digest proof).proof d c = some p at hp
  rw [proof_approve] at hp
  split at hp
  · rename_i hdc
    obtain rfl := Option.some.inj hp
    obtain ⟨rfl, -⟩ := hdc
    exact List.mem_append_right _ (List.mem_singleton_self _)
  · exact List.mem_append_left _ (h.live.approvals d c p hp)

theorem good_storeApproval {ticket : Ticket} (h : Good m s) :
    wp (storeApproval m v ticket) (fun _ => Good m) (fun _ => Good m) s := by
  refine good_admitted h fun s hs => ?_
  rw [wp_bind, wp_read]
  refine quiet_check.bindGood hs fun _ t ht _ _ => ?_
  refine quiet_check.bindGood ht fun _ u hu _ _ => ?_
  refine quiet_check.bindGood hu fun _ w hw _ _ => ?_
  rw [wp_bind, wp_modify, wp_bind]
  refine wp_mono (good_saveState (good_approve hw)) (fun _ t ht => ?_) fun _ _ ht => ht
  refine quiet_verifiedApprovals.bindGood ht.1 fun ps u hu _ _ => ?_
  exact hu

theorem good_revokeCredential {credentialId : Str} (h : Good m s) :
    wp (revokeCredential m v credentialId) (fun _ => Good m) (fun _ => Good m) s := by
  refine quiet_demand.bindGood h fun record t ht _ _ => ?_
  refine good_admitted ht fun s hs => ?_
  rw [wp_bind, wp_modify, wp_bind]
  have hgood := hs.setRecords (f := fun r =>
    { r with revokedKeys := record.keyFingerprint m :: r.revokedKeys })
    ⟨fun _ hk => hk, fun _ hd => hd, fun _ hk => List.mem_cons_of_mem _ hk⟩ fun _ _ => rfl
  refine wp_mono (good_saveState hgood) (fun _ t ht => ?_) fun _ _ ht => ht
  rw [wp_modify]
  refine ht.1.note (by simp) (by simp) fun k hk => ?_
  obtain rfl := Event.credentialRevoked.inj hk
  rw [ht.2.saved]
  exact List.mem_cons_self

theorem good_revokeProposal {digest : Str} (h : Good m s) :
    wp (revokeProposal m digest) (fun _ => Good m) (fun _ => Good m) s := by
  refine quiet_check.bindGood h fun _ t ht _ _ => ?_
  refine good_admitted ht fun s hs => ?_
  rw [wp_bind, wp_modify, wp_bind]
  have hgood := hs.setRecords (f := fun r =>
    { r with revokedProposals := digest :: r.revokedProposals })
    ⟨fun _ hk => hk, fun _ hd => List.mem_cons_of_mem _ hd, fun _ hk => hk⟩ fun _ _ => rfl
  refine wp_mono (good_saveState hgood) (fun _ t ht => ?_) fun _ _ ht => ht
  rw [wp_modify]
  refine ht.1.note (by simp) (fun d hd => ?_) (by simp)
  obtain rfl := Event.proposalRevoked.inj hd
  rw [ht.2.saved]
  exact List.mem_cons_self

theorem good_register {o : ResponseOperation} (h : Good m s) :
    wp (register o) (fun _ => Good m) (fun _ => Good m) s := by
  refine quiet_check.bindGood h fun _ t ht _ _ => ?_
  refine good_admitted ht fun s hs => ?_
  rw [wp_bind, wp_read]
  refine quiet_check.bindGood hs fun _ t ht _ _ => ?_
  rw [wp_modify]
  refine ⟨ht.enrolled, ht.stored, ht.live.attempts, ht.live.proposals, ht.live.keys,
    ht.live.approvals, fun k o' ho' => ?_⟩
  rw [Dict.get?_set] at ho'
  split at ho'
  · rename_i hk
    obtain rfl := Option.some.inj ho'
    exact hk.symm
  · exact ht.live.operations k o' ho'

/-! ### Execution -/

section Execution

variable {proposal : ResponseProposal} {digest outcome : Str} {operation : ResponseOperation}

theorem good_recordReceipt {executed tupled : Bool} {approvals : List Str}
    {result : List (Key × Value)} (h : Good m s) :
    wp (recordReceipt m proposal digest outcome executed approvals result tupled)
      (fun _ => Good m) (fun _ => Good m) s := by
  refine quiet_demand.bindGood h fun encoded t ht _ _ => ?_
  refine quiet_check.bindGood ht fun _ u hu _ _ => ?_
  refine quiet_now.bindGood hu fun recordedAt w hw _ _ => ?_
  refine quiet_demand.bindGood hw fun text x hx _ _ => ?_
  rw [wp_bind, wp_modify, wp_bind]
  refine wp_mono (good_saveState (hx.setRecords ⟨fun _ hk => hk, fun _ hd => hd, fun _ hk => hk⟩
    fun _ _ => rfl)) (fun _ t ht => ht.1) fun _ _ ht => ht

/-- No handler was called for the proposal's id. -/
def Fresh (proposal : ResponseProposal) (log : List Event) : Prop :=
  ∀ j, Event.invoked j ∈ log → j.proposal.proposalId ≠ proposal.proposalId

/-- An id without an attempt is fresh; once burned, its attempt is saved. -/
theorem good_burn (h : Good m s) : wp (burn m v proposal digest operation)
    (fun _ t => Good m t ∧ t.log = s.log ∧ Fresh proposal s.log ∧
      (t.saved.attempts.get? proposal.proposalId).isSome = true ∧
      (operation.risk.severe = true → operation.verifyOutcome = true))
    (fun _ => Good m) s := by
  refine quiet_configured.bindGood h fun configured t ht hst _ => ?_
  refine quiet_check.bindGood ht fun _ u hu htu _ => ?_
  rw [wp_bind, wp_read]
  refine quiet_check.bindGood hu fun _ w hw huw _ => ?_
  refine quiet_check.bindGood hw fun _ x hx hwx hnone => ?_
  refine quiet_check.bindGood hx fun _ y hy hxy hverify => ?_
  have hux := huw.trans (hwx.trans hxy)
  have hsy := (hst.trans htu).trans hux
  have hfresh : Fresh proposal s.log := by
    intro j hj he
    have hsome := hy.live.attempts _ (hy.stored.attempted j (hsy.log ▸ hj))
    rw [he, hux.records, hnone] at hsome
    cases hsome
  rw [wp_bind, wp_modify]
  have hattempts : ∀ k, (y.broker.records.attempts.get? k).isSome = true →
      ((y.broker.records.attempts.set proposal.proposalId digest).get? k).isSome = true := by
    intro k hk
    rw [Dict.get?_set]
    split
    · rfl
    · exact hk
  refine wp_mono (good_saveState (hy.setRecords ⟨hattempts, fun _ hd => hd, fun _ hk => hk⟩
    fun _ _ => rfl)) (fun _ z hz => ?_) fun _ _ ht => ht
  refine ⟨hz.1, hz.2.log.trans hsy.log, hfresh, ?_, hverify⟩
  rw [hz.2.saved]
  change ((y.broker.records.attempts.set _ _).get? _).isSome = true
  rw [Dict.get?_set, if_pos rfl]
  rfl

theorem mem_proofs {r : Records} {proof : SignedPrincipalProof} (h : proof ∈ r.proofs digest) :
    ∃ c, r.proof digest c = some proof := by
  obtain ⟨c, hc⟩ := Dict.mem_values.mp h
  refine ⟨c, ?_⟩
  rw [Records.proof]
  rcases hd : r.approvals.get? digest with _ | proofs
  · rw [hd] at hc
    cases hc
  · rw [hd] at hc
    exact hc

/-- A certified principal that is not expired counts. -/
theorem Certified.counts {p : VerifiedPrincipal} {finalAt : Double} (h : Good m s)
    (hp : Certified m v s.broker.records digest proposal.requestedBy
      (s.broker.records.proofs digest) p)
    (hunexpired : (reading finalAt).lt p.expiresAt = true) (current : List VerifiedPrincipal) :
    Counts m s.log ⟨proposal, digest, operation, current, finalAt, s.broker.records, v⟩ p := by
  obtain ⟨proof, hproof, record, stamp, hproven, rfl, hadmissible⟩ := hp
  obtain ⟨c, hc⟩ := mem_proofs hproof
  rw [admissible] at hadmissible
  split at hadmissible
  · cases hadmissible
  · rename_i requester hrequester
    simp only [Bool.decide_and, Bool.and_eq_true, decide_eq_true_eq, not_or] at hadmissible
    obtain ⟨⟨hsubject, hkeys⟩, hkey, hsub⟩ := hadmissible
    refine ⟨⟨proof, record, stamp, h.live.approvals digest c proof hc, hproven, rfl⟩,
      ⟨requester, hrequester, hsubject, fun other hother hr he => hkeys ?_⟩,
      ⟨hkey, hsub, fun hrevoked => hkey ?_⟩, hunexpired⟩
    · exact List.mem_map.mpr ⟨other, List.mem_filter.mpr ⟨hother, by simpa using hr⟩, he.symm⟩
    · exact h.live.keys _ (h.stored.keys _ hrevoked)

theorem good_dispatch {admittedAt : Double} {text : Json} (h : Good m s)
    (hfresh : Fresh proposal s.log)
    (hburned : (s.saved.attempts.get? proposal.proposalId).isSome = true)
    (hreal : proposal.dryRun = false) (htext : proposal.text m = some text)
    (hoperation : operation.operationId = proposal.operationId)
    (hverify : operation.risk.severe = true → operation.verifyOutcome = true) :
    wp (dispatch m v proposal (m.sha256 text) operation admittedAt) (fun _ => Good m)
      (fun _ => Good m) s := by
  refine quiet_ensureAccepting.bindGood h fun _ a ha hsa _ => ?_
  refine quiet_now.bindGood ha fun dispatchAt b hb hab _ => ?_
  rw [wp_ite]
  refine ⟨fun _ => ?_, fun _ => ?_⟩
  · rw [wp_bind, wp_modify, wp_raise]
    exact framed_good b _ hb ⟨rfl, rfl, rfl, rfl, rfl⟩
  refine quiet_check.bindGood hb fun _ c hc hbc _ => ?_
  rw [wp_bind, wp_read]
  refine quiet_check.bindGood hc fun _ d hd hcd _ => ?_
  refine quiet_configured.bindGood hd fun configured e he hde _ => ?_
  refine quiet_check.bindGood he fun _ f hf hef hrevoked => ?_
  refine quiet_verifiedApprovals.bindGood hf fun current g hg hfg hcurrent => ?_
  refine quiet_now.bindGood hg fun finalAt k hk hgk _ => ?_
  rw [wp_ite]
  refine ⟨fun _ => ?_, fun _ => ?_⟩
  · rw [wp_bind, wp_modify, wp_raise]
    exact framed_good k _ hk ⟨rfl, rfl, rfl, rfl, rfl⟩
  refine quiet_check.bindGood hk fun _ l hl hkl hfinal => ?_
  refine quiet_ensureAccepting.bindGood hl fun _ n hn hln _ => ?_
  rw [wp_bind, wp_modify, wp_pure]
  have hfn := hfg.trans (hgk.trans (hkl.trans hln))
  have hcn := hcd.trans (hde.trans (hef.trans hfn))
  have hsn := hsa.trans (hab.trans (hbc.trans hcn))
  obtain ⟨hsubjects, hkeys, hcertified⟩ := hcurrent
  obtain ⟨hwindow, henough, hunexpired⟩ := hfinal
  rw [← hfn.records] at hcertified
  have hproposal : m.sha256 text ∉ n.broker.records.revokedProposals := by
    rw [hcn.records]
    exact hrevoked.2
  refine hn.note (fun i hi => ?_) (by simp) (by simp)
  obtain rfl := Event.invoked.inj hi
  refine ⟨?_, by rw [hsn.saved]; exact hburned⟩
  exact
    { once := fun j hj => hfresh j (hsn.log ▸ hj)
      real := hreal
      digest := ⟨text, htext, rfl⟩
      operation := hoperation
      window := hwindow
      unrevoked := ⟨hproposal, fun hmem => hproposal
        (hn.live.proposals _ (hn.stored.proposals _ hmem))⟩
      enough := henough
      subjects := hsubjects
      keys := hkeys
      counts := fun p hp => (hcertified p hp).counts hn (hunexpired p hp) current
      verifier := hverify }

theorem good_prepare {valid : Bool} {text : Json} (h : Good m s)
    (htext : proposal.text m = some text) :
    wp (prepare m v proposal (m.sha256 text) valid) (fun _ => Good m) (fun _ => Good m) s := by
  rw [prepare, wp_bind, wp_read]
  rcases s.broker.records.receipts.get? proposal.proposalId with _ | existing
  · refine quiet_demand.bindGood h fun operation a ha _ hoperation => ?_
    refine quiet_now.bindGood ha fun admittedAt b hb _ _ => ?_
    refine quiet_check.bindGood hb fun _ c hc _ _ => ?_
    refine quiet_check.bindGood hc fun _ d hd _ _ => ?_
    refine quiet_verifiedApprovals.bindGood hd fun verified e he _ _ => ?_
    refine quiet_check.bindGood he fun _ f hf _ _ => ?_
    rw [wp_ite]
    refine ⟨fun _ => ?_, fun hreal => ?_⟩
    · rw [wp_bind]
      exact wp_mono (good_recordReceipt hf) (fun _ _ ht => ht) fun _ _ ht => ht
    · rw [wp_bind]
      refine wp_mono (good_burn hf) (fun _ t ht => ?_) fun _ _ ht => ht
      obtain ⟨hgood, hlog, hfresh, hburned, hverify⟩ := ht
      exact good_dispatch hgood (hlog ▸ hfresh) hburned (by simpa using hreal) htext
        (h.live.operations _ _ hoperation) hverify
  · refine quiet_check.bindGood h fun _ a ha _ _ => ?_
    have hstatus : Quiet (if proposal.dryRun then pure true else approvalConfigured m v)
        fun _ _ => True := by
      split
      · exact quiet_pure.weaken fun _ _ _ => trivial
      · exact quiet_configured
    refine hstatus.bindGood ha fun configured b hb _ _ => ?_
    refine quiet_check.bindGood hb fun _ c hc _ _ => ?_
    exact hc

theorem good_execute {valid : Bool} (h : Good m s) :
    wp (execute m v proposal valid) (fun _ => Good m) (fun _ => Good m) s := by
  refine quiet_demand.bindGood h fun text a ha _ htext => ?_
  refine quiet_enter.bindGood ha fun _ b hb _ _ => ?_
  have hprepare : wp (prepare m v proposal (m.sha256 text) valid) (fun _ => Good m)
      (fun _ => Good m) b := good_prepare hb htext
  unfold wp at hprepare ⊢
  dsimp only
  rcases hp : prepare m v proposal (m.sha256 text) valid b with ⟨e | ⟨r | r⟩, c⟩
  · rw [hp] at hprepare
    exact framed_good c _ hprepare (alike_leave c)
  · rw [hp] at hprepare
    exact framed_good c _ hprepare (alike_leave c)
  · rw [hp] at hprepare
    exact hprepare

theorem good_finish {r : Running} {o : Outcome} (h : Good m s) :
    wp (finish m r o) (fun _ => Good m) (fun _ => Good m) s := by
  have hleave : ∀ t, Good m t → Good m (leave t) := fun t ht =>
    framed_good t _ ht (alike_leave t)
  unfold finish
  rw [wp_ensuring]
  cases o with
  | raised => exact hleave s h
  | notMapping => exact hleave s h
  | returned result tupled verdict =>
    have hverdict : Quiet (if r.operation.verifyOutcome then demand verdict .callback
        else pure true : Call Bool) fun _ _ => True := by
      split
      · exact quiet_demand.weaken fun _ _ _ => trivial
      · exact quiet_pure.weaken fun _ _ _ => trivial
    refine hverdict.bind (fun _ t ha => hleave t (framed_good s t h ha)) fun passed t ha _ => ?_
    exact wp_mono (good_recordReceipt (framed_good s t h ha)) (fun _ u hu => hleave u hu)
      fun _ u hu => hleave u hu

theorem quiet_close : Quiet close fun _ _ => True := by
  intro s
  rw [close, wp_bind, wp_modify, wp_modify]
  have hlatch : Alike s { s with broker := { s.broker with closing := true } } :=
    ⟨rfl, rfl, rfl, rfl, rfl⟩
  refine ⟨?_, trivial⟩
  split
  · exact hlatch.trans (alike_finishClose _)
  · exact hlatch

/-- The proof of a ticket was verified. -/
theorem quiet_verifyTicket {proof : SignedPrincipalProof} :
    Quiet (verifyTicket m v proposal proof) fun _ t => t.proof.wellFormed = true := by
  intro s
  refine quiet_demand.then fun text a _ _ => ?_
  refine quiet_verifyApproval.then fun p b hp _ => ?_
  refine quiet_now.then fun stamp c _ _ => ?_
  refine quiet_check.then fun _ d _ _ => ⟨.refl d, ?_⟩
  obtain ⟨q, hq, record, _, hproven, -⟩ := hp
  obtain rfl := List.mem_singleton.mp hq
  obtain ⟨body, hbody, -⟩ := hproven.signed
  rw [Machine.signingBytes] at hbody
  split at hbody
  · assumption
  · cases hbody

end Execution

/-! ### Runs -/

namespace World

/-- What every state of a run keeps. -/
structure Accounted (m : Machine) (w : World) : Prop where
  stored : Stored m w.disk w.saved w.log
  live : ∀ b, w.broker = some b →
    w.disk.marker = true ∧ Live w.saved w.log b.records b.operations
  blank : w.disk.marker = false → w.log = [] ∧ w.saved = .empty

variable {w w' : World} {b : Broker} {tape : Tape}

theorem Accounted.site (h : Accounted m w) (hb : w.broker = some b) : Good m (w.site b tape) :=
  ⟨(h.live b hb).1, h.stored, (h.live b hb).2⟩

theorem accounted_start (v : ApprovalIdentityVerifier) : Accounted m (World.start v) :=
  ⟨⟨by simp [World.start], by simp [World.start], by simp [World.start], by simp [World.start],
    fun d c p hp => by simp [World.start, Records.proof, Records.empty] at hp,
    by simp [World.start]⟩, by simp [World.start], fun _ => ⟨rfl, rfl⟩⟩

/-- A world with the parts of a good site is accounted for. -/
theorem accounted_of_good {s : Site} (h : Good m s) (hbroker : ∀ b, w.broker = some b → b = s.broker)
    (hdisk : w.disk = s.disk) (hsaved : w.saved = s.saved) (hlog : w.log = s.log) :
    Accounted m w := by
  refine ⟨by rw [hdisk, hsaved, hlog]; exact h.stored, fun b hb => ?_, fun hm => ?_⟩
  · obtain rfl := hbroker b hb
    rw [hdisk, hsaved, hlog]
    exact ⟨h.enrolled, h.live⟩
  · rw [hdisk, h.enrolled] at hm
    cases hm

/-- A call that keeps its site good keeps the world accounted for. -/
theorem Accounted.call {c : Call α} {keep : α → World → World} (h : Accounted m w)
    (hb : w.broker = some b) (hc : ∀ s, Good m s → wp c (fun _ => Good m) (fun _ => Good m) s)
    (hkeep : ∀ a w, (keep a w).broker = w.broker ∧ (keep a w).disk = w.disk ∧
      (keep a w).saved = w.saved ∧ (keep a w).log = w.log) :
    Accounted m (w.call b tape c keep) := by
  have hgood : Good m (c (w.site b tape)).2 := wp_state (hc _ (h.site hb))
  unfold World.call
  dsimp only
  split
  · rename_i a _
    obtain ⟨h1, h2, h3, h4⟩ := hkeep a (w.after (c (w.site b tape)).1 (c (w.site b tape)).2)
    exact accounted_of_good hgood (fun b' hb' => (Option.some.inj (h1.symm.trans hb')).symm) h2 h3 h4
  · exact accounted_of_good hgood (fun b' hb' => (Option.some.inj hb').symm) rfl rfl rfl

theorem Accounted.construct (h : Accounted m w) : Accounted m (w.construct m v tape) := by
  have hnone : ∀ (smooth : Bool), Accounted m { w with
      broker := none, verifier := v, tickets := [], running := [], smooth := smooth } :=
    fun _ => ⟨h.stored, by simp, h.blank⟩
  rw [World.construct]
  dsimp only
  split
  · rename_i hmarker
    rcases hload : w.disk.file.bind (Records.load m) with _ | records
    · exact hnone false
    · obtain ⟨text, htext, hload⟩ := Option.bind_eq_some_iff.mp hload
      obtain ⟨happrovals, hattempts, hproposals, hkeys, -⟩ :=
        Records.load_encode (h.stored.file text htext) hload
      refine ⟨h.stored, fun b hb => ⟨hmarker, ?_⟩, h.blank⟩
      obtain rfl := Option.some.inj hb
      refine ⟨fun k hk => ?_, fun d hd => ?_, fun k hk => ?_, fun d c p hp => ?_, by simp [Broker.fresh]⟩
      · change (records.attempts.get? k).isSome = true
        rw [hattempts]
        simpa [Records.arranged] using hk
      · change d ∈ records.revokedProposals
        rw [hproposals]
        exact Records.mem_setOf.mpr hd
      · change k ∈ records.revokedKeys
        rw [hkeys]
        exact Records.mem_setOf.mpr hk
      · change records.proof d c = some p at hp
        have hproof : records.proof d c = w.saved.arranged.proof d c := by
          rw [Records.proof, Records.proof, happrovals]
        rw [hproof, Records.proof_arranged] at hp
        exact h.stored.approvals d c p hp
  · rename_i hmarker
    split
    · exact hnone false
    · obtain ⟨hlog, hsaved⟩ := h.blank (by simpa using hmarker)
      have hgood : ∀ s : Site, s.disk.marker = true → s.disk.file = w.disk.file →
          s.saved = w.saved → s.log = w.log → s.broker = .fresh .empty → Good m s := by
        intro s hm hf hs hl hb
        refine ⟨hm, ?_, ?_⟩
        · rw [hs, hl]
          exact ⟨fun text ht => h.stored.file text (hf ▸ ht), h.stored.attempted,
            h.stored.proposals, h.stored.keys, h.stored.approvals, h.stored.sound⟩
        · rw [hs, hl, hb, hsaved]
          exact ⟨fun _ hk => hk, fun _ hd => hd, fun _ hk => hk,
            fun d c p hp => by simp [Broker.fresh, Records.proof, Records.empty] at hp,
            by simp [Broker.fresh]⟩
      have hsave := wp_state (wp_mono (good_saveState (hgood
        ({ w with broker := none, verifier := v, tickets := [], running := [], smooth := true
                  disk := { w.disk with marker := true } : World }.site (.fresh .empty) tape)
        rfl rfl rfl rfl rfl)) (fun _ _ ht => ht.1) fun _ _ ht => ht)
      split
      · rename_i hr
        rw [hr] at hsave
        exact accounted_of_good hsave (fun b' hb' => (Option.some.inj hb').symm) rfl rfl rfl
      · rename_i hr
        rw [hr] at hsave
        exact accounted_of_good hsave (by simp) rfl rfl rfl

theorem Accounted.exec {l : Label} (h : Accounted m w) (hb : w.broker = some b)
    (he : w.exec m b l = some w') : Accounted m w' := by
  cases l with
  | start v tape => cases he
  | register o tape =>
    obtain rfl := Option.some.inj he
    exact h.call hb (fun _ hs => good_register hs) fun _ _ => ⟨rfl, rfl, rfl, rfl⟩
  | verify proposal proof tape =>
    obtain rfl := Option.some.inj he
    exact h.call hb (fun _ hs => quiet_verifyTicket.framed framed_good hs)
      fun _ _ => ⟨rfl, rfl, rfl, rfl⟩
  | approve i tape =>
    obtain ⟨t, -, he⟩ := Option.bind_eq_some_iff.mp he
    obtain rfl := Option.some.inj he
    exact h.call hb (fun _ hs => good_storeApproval hs) fun _ _ => ⟨rfl, rfl, rfl, rfl⟩
  | execute proposal valid tape =>
    obtain rfl := Option.some.inj he
    refine h.call hb (fun _ hs => good_execute hs) fun p w => ?_
    cases p with
    | done receipt => exact ⟨rfl, rfl, rfl, rfl⟩
    | running r => exact ⟨rfl, rfl, rfl, rfl⟩
  | finish i o tape =>
    obtain ⟨r, -, he⟩ := Option.bind_eq_some_iff.mp he
    obtain rfl := Option.some.inj he
    have hw : Accounted m { w with running := w.running.eraseIdx i } := ⟨h.stored, h.live, h.blank⟩
    exact hw.call hb (fun _ hs => good_finish hs) fun _ _ => ⟨rfl, rfl, rfl, rfl⟩
  | change proposalId result tupled =>
    obtain ⟨receipt, -, rfl⟩ := Option.map_eq_some_iff.mp he
    refine ⟨h.stored, fun b' hb' => ?_, h.blank⟩
    obtain rfl := Option.some.inj hb'
    obtain ⟨hmarker, hlive⟩ := h.live b hb
    exact ⟨hmarker, hlive.attempts, hlive.proposals, hlive.keys, hlive.approvals, hlive.operations⟩
  | revokeCredential id tape =>
    obtain rfl := Option.some.inj he
    exact h.call hb (fun _ hs => good_revokeCredential hs) fun _ _ => ⟨rfl, rfl, rfl, rfl⟩
  | revokeProposal digest tape =>
    obtain rfl := Option.some.inj he
    exact h.call hb (fun _ hs => good_revokeProposal hs) fun _ _ => ⟨rfl, rfl, rfl, rfl⟩
  | revokeIdentity id => cases he
  | close tape =>
    obtain rfl := Option.some.inj he
    exact h.call hb (fun _ hs => quiet_close.framed framed_good hs) fun _ _ => ⟨rfl, rfl, rfl, rfl⟩
  | crash => cases he

theorem Accounted.step {l : Label} (h : Accounted m w) (hs : w.Step m l w') : Accounted m w' := by
  have hexec : w.broker.bind (fun b => w.exec m b l) = some w' → Accounted m w' := fun he => by
    obtain ⟨b, hb, he⟩ := Option.bind_eq_some_iff.mp he
    exact h.exec hb he
  cases l with
  | start v tape =>
    rw [World.Step, World.step] at hs
    split at hs
    · cases hs
    · obtain rfl := Option.some.inj hs
      exact h.construct
  | revokeIdentity id =>
    obtain ⟨record, -, rfl⟩ := Option.map_eq_some_iff.mp hs
    exact ⟨h.stored, h.live, h.blank⟩
  | crash =>
    obtain rfl := Option.some.inj hs
    exact ⟨h.stored, by simp, h.blank⟩
  | _ => exact hexec hs

end World

/-- CORRECT: in every run of a broker, with any clocks, failing writes, crashes and restarts, a
    handler is called at most once for a proposal id, and each call is of a proposal that is in
    force, with enough independent approvals that are in force. -/
theorem handlers_sound {labels : List Label} {w : World}
    (h : Run (World.Step m) (World.start v) labels w) {pre post : List Event} {i : Invocation}
    (hlog : w.log = pre ++ Event.invoked i :: post) : Sound m pre i :=
  (h.invariant (fun _ _ _ hw hs => World.Accounted.step hw hs)
    (World.accounted_start v)).stored.sound pre i post hlog

/-! ### A run -/

/-- The member of an object. -/
def memberOf (name : Str) : Json → Json
  | .obj members => ((members.find? fun m => m.1 = name).map Prod.snd).getD .null
  | _ => .null

/-- The name of the first member of the first receipt's result. -/
def firstName (body : Json) : Str :=
  match memberOf "receipts".toList body with
  | .obj ((_, receipt) :: _) =>
    match memberOf "result".toList receipt with
    | .obj ((name, _) :: _) => name
    | _ => []
  | _ => []

/-- A machine for one plan; the state digest sees the order of a result. -/
def deskMachine : Machine where
  repr _ := "0.0".toList
  sha256 text :=
    match text with
    | .arr [_, .str subject] => subject
    | _ => List.replicate 64 'a'
  fingerprint key :=
    List.replicate 64 (if key = [1] then '1' else if key = [2] then '2' else '3')
  hmac _ := List.replicate 64 '0'
  hmac_hex _ := rfl
  stateHmac body := List.replicate 64 (if firstName body = "2".toList then '2' else '0')
  ed25519 _ _ _ := true

def credential (name : String) (key : UInt8) : PrincipalCredential :=
  ⟨name.toList, "desk".toList, name.toList, [key], true, .int 0⟩

def desk : ApprovalIdentityVerifier :=
  ⟨[credential "alice" 1, credential "bob" 2, credential "carol" 3], by decide, []⟩

def isolate : ResponseOperation :=
  ⟨"host.isolate".toList, .critical, "Isolate a host".toList, "Reconnect it".toList, true⟩

def isolation : ResponseProposal :=
  ⟨"plan-1".toList, "host.isolate".toList, [], "host-1".toList, "alice".toList, .int 100, .int 200,
    false⟩

/-- What an operator signs, with the nonce of the same digit as the key's fingerprint. -/
def consent (name : String) (digit : Char) : SignedPrincipalProof :=
  ⟨name.toList, "desk".toList, name.toList, List.replicate 64 digit, List.replicate 64 'a',
    .int 100, .int 200, List.replicate 32 digit, List.replicate 86 'A'⟩

def noon : Tape :=
  ⟨List.replicate 8 (.finite (Double.ofNat 150 (by decide))), List.replicate 8 (.int 150), [], [], []⟩

/-- A critical plan that two operators approve, up to the end of its handler and of its verifier. -/
def plan (result : List (Key × Value)) : List Label :=
  [.start desk noon, .register isolate noon, .verify isolation (consent "bob" '2') noon,
    .approve 0 noon, .verify isolation (consent "carol" '3') noon, .approve 1 noon,
    .execute isolation true noon, .finish 0 (.returned result false (some true)) noon]

/-- The history is two approvals and an invocation with both approvers. -/
def approvedTwice : List Event → Bool
  | [.approved _ _, .approved _ _, .invoked i] => i.operation.risk.severe && i.principals.length = 2
  | _ => false

theorem handlers_sound_plan : ∃ w d p d' q i,
    Run (World.Step deskMachine) (World.start desk) (plan []) w ∧
    w.log = [Event.approved d p, Event.approved d' q, Event.invoked i] ∧
    i.operation.risk.severe = true ∧ i.principals.length = 2 ∧
    Sound deskMachine [Event.approved d p, Event.approved d' q] i := by
  have hrun : ((plan []).foldlM (World.step deskMachine) (World.start desk)).any
      (fun w => approvedTwice w.log) = true := by decide +kernel
  obtain ⟨w, hw, hlog⟩ := (Option.any_eq_true _ _).mp hrun
  have hsteps : Run (World.Step deskMachine) (World.start desk) (plan []) w := .of_exec hw
  rw [approvedTwice.eq_def] at hlog
  split at hlog
  · rename_i d p d' q i he
    obtain ⟨hsevere, hlength⟩ := Bool.and_eq_true_iff.mp hlog
    exact ⟨w, d, p, d', q, i, hsteps, he, hsevere, by simpa using hlength, handlers_sound hsteps
      (show w.log = [Event.approved d p, Event.approved d' q] ++ Event.invoked i :: [] from he)⟩
  · cases hlog

end Angerona.Response
