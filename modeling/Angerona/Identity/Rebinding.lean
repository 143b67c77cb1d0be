import Mathlib
import Angerona.Identity.Model

/-!
    When a reference is reported as rebound.

    Of the uses of a reference only the last pair of a principal and a device is remembered, and it is
    compared as a whole. What the claim of a rebinding means is said over all uses in the window: one
    of them names another principal or another device. -/

namespace Angerona.Identity
open Text

variable {T : Type} [LinearOrder T]

inductive Reference where
  | luid
  | session
  deriving DecidableEq

/-- A call of `observe`, with the clock it reads. -/
structure Call (T : Type) where
  row : Row T
  now : T

def Reference.token : Reference → Row T → Str
  | .luid, row => row.luid
  | .session, row => row.session

def Reference.owners : Reference → Analytics T → Store T
  | .luid, s => s.luidOwners
  | .session, s => s.sessionOwners

def Reference.rule : Reference → String
  | .luid => "identity_session.luid_rebinding"
  | .session => "identity_session.session_rebinding"

namespace Analytics

/-- The state after some calls. -/
def run (A : Analyzer T) (calls : List (Call T)) : Analytics T :=
  calls.foldl (fun s call => (s.observe A call.row call.now).1) new

/-- Every call is admitted. -/
def Admitted (A : Analyzer T) : Analytics T → List (Call T) → Prop
  | _, [] => True
  | s, call :: calls => s.Admits A call.row call.now ∧
      Admitted A (s.observe A call.row call.now).1 calls

end Analytics

/-! ### The uses of a reference -/

/-- The uses of a reference since it was last ended. -/
def uses (ref : Reference) (key : Str) (calls : List (Call T)) : List (Row T) :=
  calls.foldl (fun used call =>
    if ref.token call.row ≠ key then used
    else if call.row.kind = .sessionEnd then []
    else used ++ [call.row]) []

/-- The uses of a row's reference that are in its window. -/
def recent (A : Analyzer T) (ref : Reference) (calls : List (Call T)) (row : Row T) : List (Row T) :=
  (uses ref (ref.token row) calls).filter fun item => A.since row.timestamp ≤ item.timestamp

/-- Two rows name different principals or different devices. -/
def Conflict (first second : Row T) : Prop :=
  (first.principal ≠ [] ∧ second.principal ≠ [] ∧ first.principal ≠ second.principal) ∨
    (first.device ≠ [] ∧ second.device ≠ [] ∧ first.device ≠ second.device)

/-- An earlier use in the window conflicts with a row. -/
def Rebound (A : Analyzer T) (ref : Reference) (calls : List (Call T)) (row : Row T) : Prop :=
  ref.token row ≠ [] ∧ ∃ item ∈ recent A ref calls row, Conflict item row

/-- The finding is reported. -/
def Reported (A : Analyzer T) (ref : Reference) (s : Analytics T) (call : Call T) : Prop :=
  ∃ f ∈ (s.observe A call.row call.now).2.findings, f.ruleId = ref.rule

instance : DecidableRel (Conflict (T := T)) := fun _ _ => inferInstanceAs (Decidable (_ ∨ _))

instance (A : Analyzer T) (ref : Reference) (calls : List (Call T)) (row : Row T) :
    Decidable (Rebound A ref calls row) := inferInstanceAs (Decidable (_ ∧ _))

instance (A : Analyzer T) (ref : Reference) (s : Analytics T) (call : Call T) :
    Decidable (Reported A ref s call) := inferInstanceAs (Decidable (∃ f ∈ _, _))

/-- Two rows name the same parts of an owner. -/
def SameParts (first second : Row T) : Prop :=
  (first.principal = [] ↔ second.principal = []) ∧ (first.device = [] ↔ second.device = [])

/-- A row names all that another one names. -/
def Covers (latest item : Row T) : Prop :=
  (item.principal ≠ [] → latest.principal = item.principal) ∧
    (item.device ≠ [] → latest.device = item.device)

instance : DecidableRel (SameParts (T := T)) := fun _ _ => inferInstanceAs (Decidable (_ ∧ _))

instance : DecidableRel (Covers (T := T)) := fun _ _ => inferInstanceAs (Decidable (_ ∧ _))

/-- A row that ends no session names nobody, or finds no use in the window, or the last one names
    another principal or device, or else all that the uses before it name and, if it names anything,
    the same parts as the row. -/
def Attributed (A : Analyzer T) (ref : Reference) (calls : List (Call T)) (row : Row T) : Prop :=
  ref.token row = [] ∨ named row.owner = false ∨
    ∀ latest ∈ (recent A ref calls row).getLast?,
      row.kind ≠ .sessionEnd ∧
        (Conflict latest row ∨ (named latest.owner = false ∨ SameParts latest row) ∧
          ∀ item ∈ recent A ref calls row, Covers latest item)

instance (A : Analyzer T) (ref : Reference) (calls : List (Call T)) (row : Row T) :
    Decidable (Attributed A ref calls row) := inferInstanceAs (Decidable (_ ∨ _ ∨ ∀ _ ∈ _, _ ∧ _))

omit [LinearOrder T] in
theorem uses_concat (ref : Reference) (key : Str) (calls : List (Call T)) (call : Call T) :
    uses ref key (calls ++ [call]) =
      if ref.token call.row ≠ key then uses ref key calls
      else if call.row.kind = .sessionEnd then []
      else uses ref key calls ++ [call.row] := List.foldl_concat ..

omit [LinearOrder T] in
theorem uses_sublist (ref : Reference) (key : Str) (calls : List (Call T)) :
    (uses ref key calls).Sublist (calls.map Call.row) := by
  induction calls using List.reverseRecOn with
  | nil => exact List.Sublist.slnil
  | append_singleton calls call ih =>
    rw [uses_concat, List.map_append]
    split
    · exact ih.trans (List.sublist_append_left _ _)
    · split
      · exact List.nil_sublist _
      · exact ih.append_right _

/-- The last row of the window is the last row, if that is in the window. -/
theorem getLast?_filter_since {rows : List (Row T)} {start : T}
    (hordered : rows.Pairwise fun a b => a.timestamp ≤ b.timestamp) :
    (rows.filter fun item => start ≤ item.timestamp).getLast? =
      rows.getLast?.filter fun item => start ≤ item.timestamp := by
  induction rows using List.reverseRecOn with
  | nil => rfl
  | append_singleton rows row _ =>
    rw [List.filter_append, List.getLast?_concat]
    by_cases hrow : start ≤ row.timestamp
    · simp [Option.filter_some, hrow]
    · have hnone : rows.filter (fun item => start ≤ item.timestamp) = [] := by
        refine List.filter_eq_nil_iff.mpr fun item hitem => ?_
        have hle := (List.pairwise_append.mp hordered).2.2 item hitem row (List.mem_singleton_self row)
        simpa using lt_of_le_of_lt hle (not_le.mp hrow)
      simp [Option.filter_some, hrow, hnone]

/-! ### The owners -/

omit [LinearOrder T] in
theorem lookup_pop (store : Store T) (key key' : Str) :
    lookup (pop store key) key' = if key' = key then none else lookup store key' := by
  rw [lookup, lookup, pop, List.find?_filter]
  by_cases hkey : key' = key
  · subst hkey
    rw [if_pos rfl, List.find?_eq_none.mpr fun entry _ => by simp]
    rfl
  · rw [if_neg hkey]
    congr 2
    funext entry
    by_cases hentry : entry.1 = key'
    · simp [hentry, hkey]
    · simp [hentry]

omit [LinearOrder T] in
theorem lookup_put (store : Store T) (key : Str) (value : Owner × T) (key' : Str) :
    lookup (pop store key ++ [(key, value)]) key' = if key' = key then some value else lookup store key' := by
  have hpop := lookup_pop store key key'
  rw [lookup] at hpop
  rw [lookup, List.find?_append]
  by_cases hkey : key' = key
  · subst hkey
    rw [if_pos rfl, Option.map_eq_none_iff] at hpop
    rw [hpop]
    simp
  · rw [if_neg hkey] at hpop
    rw [if_neg hkey, ← hpop]
    have hne : key ≠ key' := Ne.symm hkey
    simp [hne]

/-- The store of a reference after a row. -/
theorem owners_admitted (A : Analyzer T) (ref : Reference) (s : Analytics T) (row : Row T) (now : T) :
    ref.owners (s.admitted A row now) =
      if row.kind = .sessionEnd then
        if ref.token row = [] then ref.owners s else pop (ref.owners s) (ref.token row)
      else (Analytics.associate A (ref.owners s) (ref.token row) row.owner row.timestamp).2 := by
  cases ref with
  | luid =>
    simp only [Analytics.admitted, Analytics.own, Reference.owners, Reference.token]
    split
    · rfl
    · rfl
  | session =>
    simp only [Analytics.admitted, Analytics.own, Reference.owners, Reference.token]
    split
    · rfl
    · rfl

/-- The references that some calls name. -/
def tokens (ref : Reference) (calls : List (Call T)) : Finset Str :=
  ((calls.map fun call => ref.token call.row).filter (· ≠ [])).toFinset

/-- The store has the last use of every reference. -/
structure Owned (ref : Reference) (calls : List (Call T)) (store : Store T) : Prop where
  latest : ∀ key, key ≠ [] → lookup store key =
    (uses ref key calls).getLast?.map fun row => (row.owner, row.timestamp)
  nodup : (store.map Prod.fst).Nodup
  keys : ∀ key ∈ store.map Prod.fst, key ∈ tokens ref calls

omit [LinearOrder T] in
theorem tokens_concat (ref : Reference) (calls : List (Call T)) (call : Call T) :
    tokens ref calls ⊆ tokens ref (calls ++ [call]) := by
  intro key hkey
  simp only [tokens, List.mem_toFinset, List.mem_filter, List.map_append, List.mem_append] at hkey ⊢
  exact ⟨Or.inl hkey.1, hkey.2⟩

omit [LinearOrder T] in
theorem nodup_pop {store : Store T} (h : (store.map Prod.fst).Nodup) (key : Str) :
    ((pop store key).map Prod.fst).Nodup := h.sublist (List.filter_sublist.map _)

omit [LinearOrder T] in
theorem mem_keys_pop {store : Store T} {key key' : Str} (h : key' ∈ (pop store key).map Prod.fst) :
    key' ∈ store.map Prod.fst ∧ key' ≠ key := by
  obtain ⟨entry, hentry, rfl⟩ := List.mem_map.mp h
  obtain ⟨hmem, hne⟩ := List.mem_filter.mp hentry
  exact ⟨List.mem_map_of_mem hmem, by simpa using hne⟩

theorem Owned.admitted {A : Analyzer T} {ref : Reference} {calls : List (Call T)} {s : Analytics T}
    (h : Owned ref calls (ref.owners s)) (call : Call T)
    (hcapacity : (tokens ref (calls ++ [call])).card ≤ maxAssociations) :
    Owned ref (calls ++ [call]) (ref.owners (s.admitted A call.row call.now)) := by
  have hgrown := tokens_concat ref calls call
  rw [owners_admitted]
  by_cases htoken : ref.token call.row = []
  · -- a row that does not name the reference leaves its store
    have hsame : Owned ref (calls ++ [call]) (ref.owners s) := by
      refine ⟨fun key hkey => ?_, h.nodup, fun key hkey => hgrown (h.keys key hkey)⟩
      rw [uses_concat, if_pos (by rw [htoken]; exact hkey.symm), h.latest key hkey]
    rw [Analytics.associate, if_pos htoken, if_pos htoken]
    split
    · exact hsame
    · exact hsame
  rw [if_neg htoken]
  by_cases hkind : call.row.kind = .sessionEnd
  · rw [if_pos hkind]
    refine ⟨fun key hkey => ?_, nodup_pop h.nodup _, fun key hkey => ?_⟩
    · rw [lookup_pop, uses_concat]
      by_cases hsame : key = ref.token call.row
      · rw [if_pos hsame, if_neg (by simp [hsame]), if_pos hkind]
        rfl
      · rw [if_neg hsame, if_pos (Ne.symm hsame), h.latest key hkey]
    · exact hgrown (h.keys key (mem_keys_pop hkey).1)
  · rw [if_neg hkind, Analytics.associate, if_neg htoken]
    have hnodup : ((pop (ref.owners s) (ref.token call.row) ++
        [(ref.token call.row, call.row.owner, call.row.timestamp)]).map Prod.fst).Nodup := by
      rw [List.map_append, List.nodup_append]
      refine ⟨nodup_pop h.nodup _, List.nodup_singleton _, fun key hkey other hother => ?_⟩
      obtain rfl := List.mem_singleton.mp hother
      exact (mem_keys_pop hkey).2
    have hkeys : ∀ key ∈ (pop (ref.owners s) (ref.token call.row) ++
        [(ref.token call.row, call.row.owner, call.row.timestamp)]).map Prod.fst,
        key ∈ tokens ref (calls ++ [call]) := by
      intro key hkey
      rw [List.map_append, List.mem_append] at hkey
      rcases hkey with hkey | hkey
      · exact hgrown (h.keys key (mem_keys_pop hkey).1)
      · obtain rfl := List.mem_singleton.mp hkey
        simp [tokens, htoken]
    have hlength : (pop (ref.owners s) (ref.token call.row) ++
        [(ref.token call.row, call.row.owner, call.row.timestamp)]).length ≤ maxAssociations := by
      rw [← List.length_map Prod.fst, ← List.toFinset_card_of_nodup hnodup]
      refine (Finset.card_le_card fun key hkey => ?_).trans hcapacity
      exact hkeys key (List.mem_toFinset.mp hkey)
    have hbounded : bounded (pop (ref.owners s) (ref.token call.row) ++
        [(ref.token call.row, call.row.owner, call.row.timestamp)]) =
        pop (ref.owners s) (ref.token call.row) ++
          [(ref.token call.row, call.row.owner, call.row.timestamp)] := by
      rw [bounded, Nat.sub_eq_zero_of_le hlength, List.drop_zero]
    dsimp only
    rw [hbounded]
    refine ⟨fun key hkey => ?_, hnodup, hkeys⟩
    rw [lookup_put, uses_concat]
    by_cases hsame : key = ref.token call.row
    · rw [if_pos hsame, if_neg (by simp [hsame]), if_neg hkind, List.getLast?_concat]
      rfl
    · rw [if_neg hsame, if_pos (Ne.symm hsame), h.latest key hkey]

theorem admitted_concat {A : Analyzer T} {s : Analytics T} {calls : List (Call T)} {call : Call T} :
    Analytics.Admitted A s (calls ++ [call]) ↔ Analytics.Admitted A s calls ∧
      (calls.foldl (fun s call => (s.observe A call.row call.now).1) s).Admits A call.row call.now := by
  induction calls generalizing s with
  | nil => simp [Analytics.Admitted]
  | cons first calls ih =>
    rw [List.cons_append, Analytics.Admitted, Analytics.Admitted, ih, and_assoc]
    rfl

theorem owned_run {A : Analyzer T} (ref : Reference) {calls : List (Call T)}
    (hadmitted : Analytics.Admitted A Analytics.new calls)
    (hcapacity : (tokens ref calls).card ≤ maxAssociations) :
    Owned ref calls (ref.owners (Analytics.run A calls)) := by
  induction calls using List.reverseRecOn with
  | nil =>
    have hempty : ref.owners (Analytics.run A []) = [] := by cases ref <;> rfl
    rw [hempty]
    exact ⟨fun key _ => rfl, List.nodup_nil, fun key hkey => absurd hkey List.not_mem_nil⟩
  | append_singleton calls call ih =>
    obtain ⟨hbefore, hadmits⟩ := admitted_concat.mp hadmitted
    have howned := ih hbefore ((Finset.card_le_card (tokens_concat ref calls call)).trans hcapacity)
    have hrun : Analytics.run A (calls ++ [call]) =
        (Analytics.run A calls).admitted A call.row call.now := by
      rw [Analytics.run, List.foldl_concat]
      exact (Analytics.observe_of_admits hadmits).1
    rw [hrun]
    exact howned.admitted call hcapacity

/-! ### Reports -/

/-- The owner a row is compared with. -/
def Reference.previous (A : Analyzer T) (ref : Reference) (s : Analytics T) (row : Row T) :
    Option Owner :=
  match ref with
  | .luid => (s.own A row).1.luid
  | .session => (s.own A row).1.session

theorem previous_eq (A : Analyzer T) (ref : Reference) (s : Analytics T) (row : Row T) :
    ref.previous A s row =
      if row.kind = .sessionEnd then none
      else (Analytics.associate A (ref.owners s) (ref.token row) row.owner row.timestamp).1 := by
  cases ref with
  | luid =>
    simp only [Reference.previous, Analytics.own, Reference.owners, Reference.token]
    split
    · rfl
    · rfl
  | session =>
    simp only [Reference.previous, Analytics.own, Reference.owners, Reference.token]
    split
    · rfl
    · rfl

omit [LinearOrder T] in
theorem mem_paired {rule severity reason : String} {first : Option (Row T)} {f : Finding T} :
    f ∈ paired rule severity reason first row ↔
      ∃ item, first = some item ∧ f = finding rule severity reason [item] row := by
  rw [paired, List.mem_map]
  simp only [Option.mem_toList]
  exact exists_congr fun item => and_congr_right fun _ => eq_comm

omit [LinearOrder T] in
/-- The rules about rows that follow one another are other rules. -/
theorem rule_transitions {row : Row T} {prior : List (Row T)} {f : Finding T}
    (h : f ∈ Analytics.transitions row prior) (ref : Reference) : f.ruleId ≠ ref.rule := by
  have hpaired : ∀ {rule severity reason : String} {first : Option (Row T)},
      f ∈ paired rule severity reason first row → f.ruleId = rule := by
    intro rule severity reason first hf
    obtain ⟨item, -, rfl⟩ := mem_paired.mp hf
    rfl
  have hrule : f.ruleId ∈ ["identity_session.device_code_new_device",
      "identity_session.browser_store_transition", "identity_session.rmm_privilege_transition",
      "identity_session.remote_privilege_transition", "identity_session.privileged_device_code_flow"] := by
    simp only [Analytics.transitions, List.mem_append] at h
    rcases h with ((h | h) | h) | h
    · split at h
      · simp [hpaired h]
      · cases h
    · split at h
      · simp [hpaired h]
      · cases h
    · split at h
      · rcases List.mem_append.mp h with h | h
        · simp [hpaired h]
        · split at h
          · obtain rfl := List.mem_singleton.mp h
            simp [finding]
          · cases h
      · cases h
    · split at h
      · obtain rfl := List.mem_singleton.mp h
        simp [finding]
      · cases h
  intro he
  rw [he] at hrule
  cases ref with
  | luid => revert hrule; decide
  | session => revert hrule; decide

omit [LinearOrder T] in
theorem mem_rebinding {rule : String} {previous : Option Owner} {row : Row T} {f : Finding T} :
    f ∈ Analytics.rebinding rule previous row → f.ruleId = rule ∧ f.rows = [row] := by
  intro h
  cases previous with
  | none => cases h
  | some owner =>
    rw [Analytics.rebinding] at h
    split at h
    · obtain rfl := List.mem_singleton.mp h
      exact ⟨rfl, rfl⟩
    · cases h

omit [LinearOrder T] in
theorem rebinding_ne_nil (rule : String) {previous : Option Owner} {row : Row T} :
    Analytics.rebinding rule previous row ≠ [] ↔
      ∃ owner, previous = some owner ∧ owner ≠ row.owner ∧ named row.owner ∧ named owner := by
  cases previous with
  | none => simp [Analytics.rebinding]
  | some owner => simp [Analytics.rebinding]

theorem reported_iff {A : Analyzer T} {ref : Reference} {s : Analytics T} {call : Call T}
    (h : s.Admits A call.row call.now) :
    Reported A ref s call ↔ ∃ owner, ref.previous A s call.row = some owner ∧
      owner ≠ call.row.owner ∧ named call.row.owner ∧ named owner := by
  rw [Reported, (Analytics.observe_of_admits h).2, ← rebinding_ne_nil ref.rule]
  constructor
  · rintro ⟨f, hf, hrule⟩
    simp only [Analytics.findings, List.mem_append] at hf
    rcases hf with ((hf | hf) | hf) | hf
    · cases ref with
      | luid => exact List.ne_nil_of_mem hf
      | session => exact absurd ((mem_rebinding hf).1.symm.trans hrule) (by decide)
    · cases ref with
      | luid => exact absurd ((mem_rebinding hf).1.symm.trans hrule) (by decide)
      | session => exact List.ne_nil_of_mem hf
    · have henrolled : f.ruleId = "identity_session.new_device_enrollment" := by
        rw [Analytics.enrollment] at hf
        split at hf
        · obtain rfl := List.mem_singleton.mp hf
          rfl
        · cases hf
      rw [henrolled] at hrule
      cases ref with
      | luid => exact absurd hrule (by decide)
      | session => exact absurd hrule (by decide)
    · exact absurd hrule (rule_transitions hf ref)
  · intro hne
    obtain ⟨f, hf⟩ := List.exists_mem_of_ne_nil _ hne
    refine ⟨f, ?_, (mem_rebinding hf).1⟩
    simp only [Analytics.findings, List.mem_append]
    cases ref with
    | luid => exact Or.inl (Or.inl (Or.inl hf))
    | session => exact Or.inl (Or.inl (Or.inr hf))

/-- What is remembered of a reference in the window. -/
theorem previous_of_owned {A : Analyzer T} {ref : Reference} {calls : List (Call T)} {s : Analytics T}
    {row : Row T} (howned : Owned ref calls (ref.owners s)) (htoken : ref.token row ≠ [])
    (hkind : row.kind ≠ .sessionEnd)
    (hordered : (calls.map Call.row).Pairwise fun a b => a.timestamp ≤ b.timestamp) :
    ref.previous A s row = (recent A ref calls row).getLast?.map Row.owner := by
  rw [previous_eq, if_neg hkind, Analytics.associate, if_neg htoken, howned.latest _ htoken, recent,
    getLast?_filter_since (hordered.sublist (uses_sublist ref _ calls))]
  cases (uses ref (ref.token row) calls).getLast? with
  | none => rfl
  | some latest =>
    by_cases hsince : A.since row.timestamp ≤ latest.timestamp
    · simp [Option.filter_some, hsince]
    · simp [Option.filter_some, hsince]

omit [LinearOrder T] in
/-- Of two rows that name the same parts, another owner is a conflict. -/
theorem SameParts.conflict_iff {first second : Row T} (h : SameParts first second) :
    Conflict first second ↔ first.owner ≠ second.owner := by
  obtain ⟨hprincipal, hdevice⟩ := h
  simp only [Conflict, Row.owner, ne_eq, Prod.mk.injEq]
  by_cases hp : first.principal = []
  · have hp' := hprincipal.mp hp
    by_cases hd : first.device = []
    · simp [hp, hp', hd, hdevice.mp hd]
    · simp [hp, hp', hd, mt hdevice.mpr hd]
  · have hp' := mt hprincipal.mpr hp
    by_cases hd : first.device = []
    · simp [hp, hp', hd, hdevice.mp hd]
    · have hd' := mt hdevice.mpr hd
      simp only [hp, hp', hd, hd', not_false_eq_true, true_and]
      tauto

omit [LinearOrder T] in
/-- A conflict with what a row covers is one with the row. -/
theorem Covers.conflict {latest item row : Row T} (h : Covers latest item) (hconflict : Conflict item row) :
    Conflict latest row := by
  rcases hconflict with ⟨hitem, hrow, hne⟩ | ⟨hitem, hrow, hne⟩
  · have hlatest := h.1 hitem
    exact Or.inl ⟨hlatest ▸ hitem, hrow, hlatest ▸ hne⟩
  · have hlatest := h.2 hitem
    exact Or.inr ⟨hlatest ▸ hitem, hrow, hlatest ▸ hne⟩

omit [LinearOrder T] in
theorem Conflict.owner_ne {first second : Row T} (h : Conflict first second) :
    first.owner ≠ second.owner := by
  intro he
  obtain ⟨hprincipal, hdevice⟩ := Prod.mk.inj he
  rcases h with h | h
  · exact h.2.2 hprincipal
  · exact h.2.2 hdevice

omit [LinearOrder T] in
theorem Conflict.named_right {first second : Row T} (h : Conflict first second) :
    Identity.named second.owner = true := by
  rcases h with h | h
  · simp [Identity.named, Row.owner, h.2.1]
  · simp [Identity.named, Row.owner, h.2.1]

omit [LinearOrder T] in
theorem Conflict.named_left {first second : Row T} (h : Conflict first second) :
    Identity.named first.owner = true := by
  rcases h with h | h
  · simp [Identity.named, Row.owner, h.1]
  · simp [Identity.named, Row.owner, h.1]

/-- What is reported is decided by the last use in the window. -/
theorem reported_iff_latest {A : Analyzer T} {ref : Reference} {calls : List (Call T)} {s : Analytics T}
    {call : Call T} (howned : Owned ref calls (ref.owners s)) (hadmits : s.Admits A call.row call.now)
    (hordered : (calls.map Call.row).Pairwise fun a b => a.timestamp ≤ b.timestamp)
    (htoken : ref.token call.row ≠ []) (hkind : call.row.kind ≠ .sessionEnd) :
    Reported A ref s call ↔ ∃ latest, (recent A ref calls call.row).getLast? = some latest ∧
      latest.owner ≠ call.row.owner ∧ named call.row.owner ∧ named latest.owner := by
  rw [reported_iff hadmits, previous_of_owned howned htoken hkind hordered]
  constructor
  · rintro ⟨owner, howner, hreported⟩
    obtain ⟨latest, hlatest, rfl⟩ := Option.map_eq_some_iff.mp howner
    exact ⟨latest, hlatest, hreported⟩
  · rintro ⟨latest, hlatest, hreported⟩
    exact ⟨latest.owner, by rw [hlatest]; rfl, hreported⟩

/-- A row that names no reference, or nobody, is neither reported nor a conflict. -/
theorem silent {A : Analyzer T} {ref : Reference} {calls : List (Call T)} {s : Analytics T}
    {call : Call T} (hadmits : s.Admits A call.row call.now)
    (h : ref.token call.row = [] ∨ named call.row.owner = false) :
    ¬Reported A ref s call ∧ ¬Rebound A ref calls call.row := by
  rw [reported_iff hadmits, Rebound]
  rcases h with htoken | hnamed
  · have hnone : ref.previous A s call.row = none := by
      rw [previous_eq, Analytics.associate, if_pos htoken]
      split
      · rfl
      · rfl
    simp [htoken, hnone]
  · constructor
    · rintro ⟨-, -, -, hother, -⟩
      rw [hnamed] at hother
      exact Bool.false_ne_true hother
    · rintro ⟨-, item, -, hconflict⟩
      rw [hconflict.named_right] at hnamed
      exact Bool.false_ne_true hnamed.symm

/-- A row of an attributed reference is reported exactly when it was rebound. -/
theorem reported_of_attributed {A : Analyzer T} {ref : Reference} {calls : List (Call T)}
    {s : Analytics T} {call : Call T} (howned : Owned ref calls (ref.owners s))
    (hadmits : s.Admits A call.row call.now)
    (hordered : (calls.map Call.row).Pairwise fun a b => a.timestamp ≤ b.timestamp)
    (h : Attributed A ref calls call.row) :
    Reported A ref s call ↔ Rebound A ref calls call.row := by
  by_cases hsilent : ref.token call.row = [] ∨ named call.row.owner = false
  · have hquiet : ¬Reported A ref s call ∧ ¬Rebound A ref calls call.row := silent hadmits hsilent
    exact iff_of_false hquiet.1 hquiet.2
  push Not at hsilent
  obtain ⟨htoken, hnamed⟩ := hsilent
  have hattributed := (h.resolve_left htoken).resolve_left hnamed
  cases hlatest : (recent A ref calls call.row).getLast? with
  | none =>
    -- no use in the window: nothing is remembered and nothing conflicts
    have hempty := List.getLast?_eq_none_iff.mp hlatest
    refine iff_of_false (fun hreported => ?_) ?_
    · obtain ⟨owner, howner, -⟩ := (reported_iff hadmits).mp hreported
      by_cases hkind : call.row.kind = .sessionEnd
      · rw [previous_eq, if_pos hkind] at howner
        cases howner
      · rw [previous_of_owned howned htoken hkind hordered, hlatest] at howner
        cases howner
    · rintro ⟨-, item, hitem, -⟩
      rw [hempty] at hitem
      exact List.not_mem_nil hitem
  | some latest =>
    have hmem := List.mem_of_getLast? hlatest
    obtain ⟨hkind, hconflict | ⟨hparts, hcovers⟩⟩ := hattributed latest hlatest
    · rw [reported_iff_latest howned hadmits hordered htoken hkind]
      refine iff_of_true ⟨latest, hlatest, hconflict.owner_ne, ?_, hconflict.named_left⟩ ?_
      · exact hconflict.named_right
      · exact ⟨htoken, latest, hmem, hconflict⟩
    · -- the last use stands for all of them
      have hrebound : Rebound A ref calls call.row ↔ Conflict latest call.row := by
        constructor
        · rintro ⟨-, item, hitem, hconflict⟩
          exact (hcovers item hitem).conflict hconflict
        · exact fun hconflict => ⟨htoken, latest, hmem, hconflict⟩
      rw [reported_iff_latest howned hadmits hordered htoken hkind, hrebound]
      constructor
      · rintro ⟨other, hother, hne, -, hremembered⟩
        obtain rfl := Option.some.inj (hlatest.symm.trans hother)
        refine (SameParts.conflict_iff (hparts.resolve_left ?_)).mpr hne
        simp [hremembered]
      · intro hconflict
        exact ⟨latest, hlatest, hconflict.owner_ne, hconflict.named_right, hconflict.named_left⟩

/-- Where the last use names all that the others name, nothing else is reported rightly. -/
theorem attributed_of_reported {A : Analyzer T} {ref : Reference} {calls : List (Call T)}
    {s : Analytics T} {call : Call T} (howned : Owned ref calls (ref.owners s))
    (hadmits : s.Admits A call.row call.now)
    (hordered : (calls.map Call.row).Pairwise fun a b => a.timestamp ≤ b.timestamp)
    (hkind : call.row.kind ≠ .sessionEnd)
    (hcovers : ∀ latest ∈ (recent A ref calls call.row).getLast?,
      ∀ item ∈ recent A ref calls call.row, Covers latest item)
    (h : Reported A ref s call ↔ Rebound A ref calls call.row) :
    Attributed A ref calls call.row := by
  by_cases htoken : ref.token call.row = []
  · exact Or.inl htoken
  by_cases hnamed : named call.row.owner = false
  · exact Or.inr (Or.inl hnamed)
  rw [Bool.not_eq_false] at hnamed
  refine Or.inr (Or.inr fun latest hlatest => ⟨hkind, ?_⟩)
  by_cases hconflict : Conflict latest call.row
  · exact Or.inl hconflict
  refine Or.inr ⟨?_, hcovers latest hlatest⟩
  by_cases hremembered : named latest.owner = false
  · exact Or.inl hremembered
  rw [Bool.not_eq_false] at hremembered
  right
  by_cases hsame : latest.owner = call.row.owner
  · obtain ⟨hprincipal, hdevice⟩ := Prod.mk.inj hsame
    exact ⟨by rw [hprincipal], by rw [hdevice]⟩
  · -- another owner is reported, so some use conflicts, and then the last one does
    have hreported := (reported_iff_latest howned hadmits hordered htoken hkind).mpr
      ⟨latest, hlatest, hsame, hnamed, hremembered⟩
    obtain ⟨-, item, hitem, hother⟩ := h.mp hreported
    exact absurd ((hcovers latest hlatest item hitem).conflict hother) hconflict

/-- CORRECT: after every run of admitted rows in order and within capacity, the next row is reported
    for an attributed reference exactly when an earlier use in the window conflicts with it; and where
    the last use names all that the others name, only for an attributed one. -/
theorem rebinding_reported (A : Analyzer T) (calls : List (Call T)) (call : Call T)
    (hadmitted : Analytics.Admitted A Analytics.new (calls ++ [call]))
    (hordered : ((calls ++ [call]).map Call.row).Pairwise fun a b => a.timestamp ≤ b.timestamp)
    (hcapacity : ∀ ref, (tokens ref calls).card ≤ maxAssociations) :
    (∀ ref, Attributed A ref calls call.row →
        (Reported A ref (Analytics.run A calls) call ↔ Rebound A ref calls call.row)) ∧
      ((∀ ref, Attributed A ref calls call.row) →
        ((∃ ref, Reported A ref (Analytics.run A calls) call) ↔ ∃ ref, Rebound A ref calls call.row)) ∧
      (∀ ref, call.row.kind ≠ .sessionEnd →
        (∀ latest ∈ (recent A ref calls call.row).getLast?,
          ∀ item ∈ recent A ref calls call.row, Covers latest item) →
        (Reported A ref (Analytics.run A calls) call ↔ Rebound A ref calls call.row) →
          Attributed A ref calls call.row) := by
  obtain ⟨hbefore, hadmits⟩ := admitted_concat.mp hadmitted
  have hpast : (calls.map Call.row).Pairwise fun a b => a.timestamp ≤ b.timestamp := by
    rw [List.map_append] at hordered
    exact (List.pairwise_append.mp hordered).1
  have howned : ∀ ref : Reference, Owned ref calls (ref.owners (Analytics.run A calls)) :=
    fun ref => owned_run ref hbefore (hcapacity ref)
  have hsteps : ∀ ref, Attributed A ref calls call.row →
      (Reported A ref (Analytics.run A calls) call ↔ Rebound A ref calls call.row) := fun ref =>
    reported_of_attributed (howned ref) hadmits hpast
  refine ⟨hsteps, fun hall => exists_congr fun ref => hsteps ref (hall ref), ?_⟩
  intro ref hkind hcovers
  exact attributed_of_reported (howned ref) hadmits hpast hkind hcovers

/-! ### Partly attributed rows -/

/-- Whole seconds, with a window of 15 minutes. -/
def plainAnalyzer : Analyzer ℕ where
  secretShaped _ := false
  casefold := List.map Char.toLower
  hmac _ text := text
  shown t := (toString t).toList
  late t := t + 300
  early t := t - 3600
  since t := t - 900
  late_mono := fun _ _ h => Nat.add_le_add_right h 300
  since_mono := fun _ _ h => Nat.sub_le_sub_right h 900
  early_le t := by omega
  maxEvents := 4096
  maxEvents_ge := by decide

/-- Evidence about the session with one LUID: who used it, and from which device. -/
def evidence (kind : Kind) (timestamp : ℕ) (principal device : String) : Evidence ℕ where
  timestamp := timestamp
  kind := kind
  principalRef := principal.toList
  luid := "0x3e7".toList
  sessionRef := []
  deviceRef := device.toList
  sourceRef := "console".toList
  processRef := []
  outcome := .unknown
  privileged := false
  remote := false

/-- A call of `observe` with evidence. -/
def given (e : Evidence ℕ) : Call ℕ := ⟨plainAnalyzer.tokenize e .unprovenanced, e.timestamp⟩

/-- Ann's logon and what she does on her laptop. -/
def annCalls : List (Call ℕ) :=
  [given (evidence .logonSession 10 "ann" ""), given (evidence .authenticationAttempt 15 "ann" "laptop")]

theorem rebinding_reported_logons :
    Reported plainAnalyzer .luid (Analytics.run plainAnalyzer annCalls)
        (given (evidence .logonSession 20 "bob" "desk")) ∧
      ¬Reported plainAnalyzer .luid (Analytics.run plainAnalyzer annCalls)
        (given (evidence .privilegeChange 20 "ann" "laptop")) := by
  have hrun : ∀ call : Call ℕ, call ∈ [given (evidence .logonSession 20 "bob" "desk"),
      given (evidence .privilegeChange 20 "ann" "laptop")] →
      Analytics.Admitted plainAnalyzer Analytics.new (annCalls ++ [call]) ∧
      ((annCalls ++ [call]).map Call.row).Pairwise (fun a b => a.timestamp ≤ b.timestamp) ∧
      ∀ ref, (tokens ref annCalls).card ≤ maxAssociations := by
    intro call hcall
    refine ⟨?_, ?_, fun ref => ?_⟩
    · rcases List.mem_pair.mp hcall with rfl | rfl
      · exact ⟨⟨by decide +kernel, by decide +kernel⟩, ⟨by decide +kernel, by decide +kernel⟩,
          ⟨by decide +kernel, by decide +kernel⟩, trivial⟩
      · exact ⟨⟨by decide +kernel, by decide +kernel⟩, ⟨by decide +kernel, by decide +kernel⟩,
          ⟨by decide +kernel, by decide +kernel⟩, trivial⟩
    · rcases List.mem_pair.mp hcall with rfl | rfl
      · simp [annCalls, given, evidence, Analyzer.tokenize]
      · simp [annCalls, given, evidence, Analyzer.tokenize]
    · cases ref with
      | luid => decide +kernel
      | session => decide +kernel
  constructor
  · obtain ⟨hadmitted, hordered, hcapacity⟩ := hrun (given (evidence .logonSession 20 "bob" "desk")) (by simp)
    refine ((rebinding_reported plainAnalyzer annCalls _ hadmitted hordered hcapacity).1 .luid ?_).mpr ?_
    · decide +kernel
    · decide +kernel
  · obtain ⟨hadmitted, hordered, hcapacity⟩ :=
      hrun (given (evidence .privilegeChange 20 "ann" "laptop")) (by simp)
    refine (not_congr
      ((rebinding_reported plainAnalyzer annCalls _ hadmitted hordered hcapacity).1 .luid ?_)).mpr ?_
    · decide +kernel
    · decide +kernel

/-- A remote session that names nobody hides that bob took ann's session, and ann's own logon without
    its device is reported. -/
theorem partly_attributed :
    (∀ e ∈ [evidence .logonSession 10 "ann" "laptop", evidence .rmmSession 15 "" "",
        evidence .logonSession 20 "bob" "desk", evidence .authenticationAttempt 20 "ann" ""],
      plainAnalyzer.postInit e = .ok ()) ∧
    (¬Reported plainAnalyzer .luid
        (Analytics.run plainAnalyzer [given (evidence .logonSession 10 "ann" "laptop"),
          given (evidence .rmmSession 15 "" "")])
        (given (evidence .logonSession 20 "bob" "desk")) ∧
      Rebound plainAnalyzer .luid [given (evidence .logonSession 10 "ann" "laptop"),
        given (evidence .rmmSession 15 "" "")] (given (evidence .logonSession 20 "bob" "desk")).row) ∧
    Reported plainAnalyzer .luid
      (Analytics.run plainAnalyzer [given (evidence .logonSession 10 "ann" "laptop")])
      (given (evidence .authenticationAttempt 20 "ann" "")) ∧
    ¬Rebound plainAnalyzer .luid [given (evidence .logonSession 10 "ann" "laptop")]
      (given (evidence .authenticationAttempt 20 "ann" "")).row := by
  exact ⟨by decide +kernel, ⟨by decide +kernel, by decide +kernel⟩, by decide +kernel,
    by decide +kernel⟩

end Angerona.Identity
