import Angerona.Lib.Dict
import Angerona.Lib.Text

/-!
    `migrate_legacy_env` (`core/secure_store.py`): plaintext files are merged, a later pair over an
    earlier one; what is not protected yet is written to the protected store and read back; then the
    files are deleted.

    An empty value deletes a key when it is written and is a value when it is read back. Deletion is
    decided for all files at once, whatever the merge left of each. -/

namespace Angerona.Secrets
open Text

/-! ### Plaintext files -/

/-- The pair that a line of `parse_env` gives. -/
def pairOf (line : Str) : Option (Str × Str) :=
  if strip line = [] ∨ (strip line).head? = some '#' then none
  else
    match cut ['='] (strip line) with
    | none => none
    | some (key, value) => if strip key = [] then none else some (strip key, strip value)

/-- The pairs that a file holds, in order. -/
def pairs (lines : List Str) : List (Str × Str) := lines.filterMap pairOf

/-- `parse_env`. -/
def parseEnv (lines : List Str) : Dict Str Str := Dict.empty.update (pairs lines)

/-- A canonical path. -/
abbrev Path := Str

/-- Ordinary files that do not change meanwhile. -/
structure Disk where
  lines : Path → List Str
  /-- `unlink()` succeeds. -/
  unlinks : Path → Bool

/-- The paths in order, each once; `seen` came before. -/
def distinct (seen : List Path) : List Path → List Path
  | [] => []
  | p :: paths => if p ∈ seen then distinct seen paths else p :: distinct (p :: seen) paths

/-- `merged` and `sources`. -/
def collect (disk : Disk) (paths : List Path) : Dict Str Str × List Path :=
  (distinct [] paths).foldl (fun acc p =>
    let values := parseEnv (disk.lines p)
    if values.items = [] then acc else (acc.1.update values.items, acc.2 ++ [p])) (Dict.empty, [])

/-! ### The protected store -/

/-- The update rules of `_write_secret_map_locked`. -/
def writeSecretMap (updates : List (Str × Str)) (values : Dict Str Str) : Dict Str Str :=
  updates.foldl (fun values u =>
    if strip u.1 = [] then values
    else if u.2 = [] then values.erase (strip u.1)
    else values.set (strip u.1) u.2) values

structure Store where
  secrets : Dict Str Str
  reads : Bool
  writes : Bool
  rereads : Bool
  /-- What a write that failed has left. -/
  torn : Dict Str Str

/-- The reads and writes of the store succeed. -/
def Store.succeeds (st : Store) : Prop := st.reads = true ∧ st.writes = true ∧ st.rereads = true

structure Result where
  raised : Bool
  removed : List Path
  secrets : Dict Str Str

/-- `migrate_legacy_env`. -/
def migrateLegacyEnv (st : Store) (disk : Disk) (paths : List Path) : Result :=
  let (merged, sources) := collect disk paths
  if merged.items = [] then ⟨false, [], st.secrets⟩
  else if !st.reads then ⟨true, [], st.secrets⟩
  else if !st.writes then ⟨true, [], st.torn⟩
  else
    let updates := merged.items.filter fun i => (st.secrets.get? i.1).isNone
    let stored := writeSecretMap updates st.secrets
    if !st.rereads then ⟨true, [], stored⟩
    else if (merged.update st.secrets.items).items.any fun i => stored.get? i.1 ≠ some i.2 then
      ⟨true, [], stored⟩
    else ⟨false, sources.filter disk.unlinks, stored⟩

/-! ### What a migration owes -/

/-- Nothing that was protected changes, and no credential is lost with a file. -/
structure Kept (secrets : Dict Str Str) (disk : Disk) (r : Result) : Prop where
  protected_ : ∀ k v, secrets.get? k = some v → r.secrets.get? k = some v
  removed : ∀ p ∈ r.removed, ∀ kv ∈ pairs (disk.lines p), kv.2 ≠ [] →
    r.secrets.get? kv.1 = some kv.2 ∨ (secrets.get? kv.1).isSome = true

/-- With a store that works it does not raise and loses nothing; when it raises no file is gone. -/
structure Migrates (st : Store) (disk : Disk) (paths : List Path) : Prop where
  returns : st.succeeds → (migrateLegacyEnv st disk paths).raised = false
  kept : st.succeeds → Kept st.secrets disk (migrateLegacyEnv st disk paths)
  refuses : (migrateLegacyEnv st disk paths).raised = true →
    (migrateLegacyEnv st disk paths).removed = []

/-- The pairs of all files. -/
def given (disk : Disk) (paths : List Path) : List (Str × Str) :=
  (distinct [] paths).flatMap fun p => pairs (disk.lines p)

/-- The last value of a key that is not protected is not empty, and no file that can be removed has
    another value for it. -/
def Unambiguous (secrets : Dict Str Str) (disk : Disk) (paths : List Path) : Prop :=
  ∀ k v, Dict.last k (given disk paths) = some v → secrets.get? k = none →
    v ≠ [] ∧ ∀ p ∈ paths, disk.unlinks p = true →
      ∀ w, (k, w) ∈ pairs (disk.lines p) → w ≠ [] → w = v

/-! ### Collecting -/

variable {disk : Disk} {paths : List Path} {secrets : Dict Str Str}

theorem mem_distinct {p : Path} : ∀ {paths seen : List Path},
    p ∈ distinct seen paths ↔ p ∈ paths ∧ p ∉ seen
  | [], seen => by simp [distinct]
  | q :: paths, seen => by
    rw [distinct]
    split
    · rename_i hq
      rw [mem_distinct, List.mem_cons]
      constructor
      · exact fun h => ⟨Or.inr h.1, h.2⟩
      · rintro ⟨rfl | hp, hseen⟩
        · exact absurd hq hseen
        · exact ⟨hp, hseen⟩
    · rename_i hq
      rw [List.mem_cons, mem_distinct, List.mem_cons, List.mem_cons]
      constructor
      · rintro (rfl | ⟨hp, hseen⟩)
        · exact ⟨Or.inl rfl, hq⟩
        · exact ⟨Or.inr hp, fun hmem => hseen (Or.inr hmem)⟩
      · rintro ⟨rfl | hp, hseen⟩
        · exact Or.inl rfl
        · by_cases hpq : p = q
          · exact Or.inl hpq
          · exact Or.inr ⟨hp, fun hmem => hmem.elim hpq hseen⟩

theorem pairOf_key {line : Str} {kv : Str × Str} (h : pairOf line = some kv) :
    strip kv.1 = kv.1 ∧ kv.1 ≠ [] := by
  rw [pairOf] at h
  split at h
  · cases h
  · split at h
    · cases h
    · split at h
      · cases h
      · rename_i hkey
        obtain rfl := Option.some.inj h
        exact ⟨strip_strip _, hkey⟩

theorem mem_given {kv : Str × Str} :
    kv ∈ given disk paths ↔ ∃ p ∈ paths, kv ∈ pairs (disk.lines p) := by
  simp [given, mem_distinct]

theorem given_key {kv : Str × Str} (h : kv ∈ given disk paths) : strip kv.1 = kv.1 ∧ kv.1 ≠ [] := by
  obtain ⟨p, -, hkv⟩ := mem_given.mp h
  obtain ⟨line, -, hline⟩ := List.mem_filterMap.mp hkv
  exact pairOf_key hline

theorem parseEnv_get? (lines : List Str) (k : Str) :
    (parseEnv lines).get? k = Dict.last k (pairs lines) := by
  rw [parseEnv, Dict.get?_update, Dict.get?_empty, Option.or_none]

theorem parseEnv_empty {lines : List Str} : (parseEnv lines).items = [] ↔ pairs lines = [] := by
  constructor
  · intro h
    refine List.eq_nil_iff_forall_not_mem.mpr fun kv hkv => ?_
    obtain ⟨w, hw⟩ := Dict.last_isSome (k := kv.1) (v := kv.2) hkv
    rw [← parseEnv_get?, ← Dict.mem_items, h] at hw
    cases hw
  · intro h
    rw [parseEnv, h]
    rfl

theorem collect_spec (disk : Disk) (paths : List Path) :
    (∀ k, (collect disk paths).1.get? k = Dict.last k (given disk paths)) ∧
      ∀ p, p ∈ (collect disk paths).2 ↔ p ∈ paths ∧ pairs (disk.lines p) ≠ [] := by
  have hgen : ∀ ps : List Path,
      let acc := ps.foldl (fun (acc : Dict Str Str × List Path) p =>
        let values := parseEnv (disk.lines p)
        if values.items = [] then acc else (acc.1.update values.items, acc.2 ++ [p]))
          (Dict.empty, [])
      (∀ k, acc.1.get? k = Dict.last k (ps.flatMap fun p => pairs (disk.lines p))) ∧
        ∀ p, p ∈ acc.2 ↔ p ∈ ps ∧ pairs (disk.lines p) ≠ [] := by
    intro ps
    induction ps using List.reverseRecOn with
    | nil => exact ⟨fun k => rfl, by simp⟩
    | append_singleton ps q ih =>
      obtain ⟨hget, hmem⟩ := ih
      simp only [List.foldl_append, List.foldl_cons, List.foldl_nil, List.flatMap_append]
      rw [List.flatMap_singleton]
      split
      · rename_i hempty
        rw [parseEnv_empty] at hempty
        refine ⟨fun k => by rw [hempty, List.append_nil, hget k], fun p => ?_⟩
        rw [hmem p, List.mem_append, List.mem_singleton]
        constructor
        · exact fun h => ⟨Or.inl h.1, h.2⟩
        · rintro ⟨hp | rfl, hpairs⟩
          · exact ⟨hp, hpairs⟩
          · exact absurd hempty hpairs
      · rename_i hvalues
        rw [parseEnv_empty] at hvalues
        refine ⟨fun k => ?_, fun p => ?_⟩
        · rw [Dict.get?_update, Dict.last_items, parseEnv_get?, hget k, Dict.last_append]
        · rw [List.mem_append, hmem p, List.mem_append, List.mem_singleton]
          constructor
          · rintro (⟨hp, hpairs⟩ | rfl)
            · exact ⟨Or.inl hp, hpairs⟩
            · exact ⟨Or.inr rfl, hvalues⟩
          · rintro ⟨hp | rfl, hpairs⟩
            · exact Or.inl ⟨hp, hpairs⟩
            · exact Or.inr rfl
  obtain ⟨hget, hmem⟩ := hgen (distinct [] paths)
  refine ⟨hget, fun p => (hmem p).trans ?_⟩
  rw [mem_distinct]
  simp

/-! ### Writing -/

theorem writeSecretMap_get? {updates : List (Str × Str)} {values : Dict Str Str}
    (h : ∀ u ∈ updates, strip u.1 = u.1 ∧ u.1 ≠ []) (k : Str) :
    (writeSecretMap updates values).get? k =
      match Dict.last k updates with
      | none => values.get? k
      | some v => if v = [] then none else some v := by
  induction updates using List.reverseRecOn with
  | nil => rfl
  | append_singleton updates u ih =>
    have hrest := ih fun w hw => h w (List.mem_append_left _ hw)
    obtain ⟨hstrip, hne⟩ := h u (by simp)
    rw [writeSecretMap, List.foldl_append, List.foldl_cons, List.foldl_nil, ← writeSecretMap, hstrip,
      if_neg hne, Dict.last_append]
    by_cases hk : k = u.1
    · have hlast : Dict.last k [u] = some u.2 := by simp [Dict.last, hk]
      rw [hlast]
      split
      · rename_i hv
        simp [hk, hv]
      · rename_i hv
        simp [hk, hv]
    · have hlast : Dict.last k [u] = none := by simp [Dict.last, Ne.symm hk]
      rw [hlast, Option.none_or, ← hrest]
      split
      · simp [hk]
      · simp [hk]

/-- What a migration writes for the pairs that are not protected. -/
def written (secrets : Dict Str Str) (disk : Disk) (paths : List Path) : Dict Str Str :=
  writeSecretMap ((collect disk paths).1.items.filter fun i => (secrets.get? i.1).isNone) secrets

theorem written_get? (secrets : Dict Str Str) (disk : Disk) (paths : List Path) (k : Str) :
    (written secrets disk paths).get? k =
      if (secrets.get? k).isSome then secrets.get? k
      else (Dict.last k (given disk paths)).filter (· ≠ []) := by
  have hkeep : Dict.last k ((collect disk paths).1.items.filter fun i => (secrets.get? i.1).isNone) =
      (Dict.last k (given disk paths)).filter fun _ => (secrets.get? k).isNone := by
    rw [← (collect_spec disk paths).1 k, ← Dict.get?_keep
      (collect disk paths).1 (fun i => (secrets.get? i.1).isNone) k, ← Dict.last_items]
    rfl
  rw [written, writeSecretMap_get?, hkeep]
  · rcases hs : secrets.get? k with _ | s
    · rcases hl : Dict.last k (given disk paths) with _ | v
      · simp
      · by_cases hv : v = []
        · simp [hv, Option.filter]
        · simp [hv, Option.filter]
    · simp
  · intro u hu
    have hmem := Dict.mem_items.mp (List.mem_filter.mp hu).1
    rw [(collect_spec disk paths).1] at hmem
    exact given_key (Dict.mem_of_last hmem)

/-! ### The migration -/

variable {st : Store}

/-- No key that is not protected is left with an empty value. -/
def Filled (secrets : Dict Str Str) (disk : Disk) (paths : List Path) : Prop :=
  ∀ k v, Dict.last k (given disk paths) = some v → secrets.get? k = none → v ≠ []

/-- The check of what was read back fails on an empty value, which was not written. -/
theorem verify_iff : ((((collect disk paths).1.update secrets.items).items.any fun i =>
    (written secrets disk paths).get? i.1 ≠ some i.2) = true) ↔ ¬Filled secrets disk paths := by
  rw [List.any_eq_true]
  constructor
  · rintro ⟨⟨k, v⟩, hi, hbad⟩ hall
    rw [Dict.mem_items, Dict.get?_update, Dict.last_items, (collect_spec disk paths).1] at hi
    simp only [ne_eq, decide_eq_true_eq] at hbad
    rw [written_get?] at hbad
    rcases hs : secrets.get? k with _ | s
    · rw [hs, Option.none_or] at hi
      simp [hs, hi, Option.filter, hall k v hi hs] at hbad
    · simp [hs] at hi hbad
      exact hbad hi
  · intro hnot
    rw [Filled] at hnot
    push Not at hnot
    obtain ⟨k, v, hlast, hs, hv⟩ := hnot
    refine ⟨(k, v), ?_, ?_⟩
    · rw [Dict.mem_items, Dict.get?_update, Dict.last_items, (collect_spec disk paths).1, hs, hlast]
      rfl
    · simp [written_get?, hs, hlast, hv, Option.filter]

/-- A store that works, and something to migrate. -/
theorem migrate_of_succeeds (h : st.succeeds) (hne : (collect disk paths).1.items ≠ []) :
    (Filled st.secrets disk paths → migrateLegacyEnv st disk paths =
      ⟨false, (collect disk paths).2.filter disk.unlinks, written st.secrets disk paths⟩) ∧
    (¬Filled st.secrets disk paths → (migrateLegacyEnv st disk paths).raised = true) := by
  obtain ⟨hreads, hwrites, hrereads⟩ := h
  have hstored : writeSecretMap ((collect disk paths).1.items.filter
      fun i => (st.secrets.get? i.1).isNone) st.secrets = written st.secrets disk paths := rfl
  rw [migrateLegacyEnv]
  simp only [hreads, hwrites, hrereads, if_neg hne, Bool.not_true, Bool.false_eq_true, if_false,
    hstored]
  constructor
  · intro hfilled
    rw [if_neg fun hany => verify_iff.mp hany hfilled]
  · intro hnot
    rw [if_pos (verify_iff.mpr hnot)]

theorem migrate_refuses (st : Store) (disk : Disk) (paths : List Path)
    (h : (migrateLegacyEnv st disk paths).raised = true) :
    (migrateLegacyEnv st disk paths).removed = [] := by
  rw [migrateLegacyEnv] at h ⊢
  generalize collect disk paths = c at h ⊢
  dsimp only at h ⊢
  split_ifs at h ⊢ <;> rfl

theorem collect_empty (h : (collect disk paths).1.items = []) : given disk paths = [] := by
  refine List.eq_nil_iff_forall_not_mem.mpr fun kv hkv => ?_
  obtain ⟨w, hw⟩ := Dict.last_isSome (k := kv.1) (v := kv.2) hkv
  rw [← (collect_spec disk paths).1, ← Dict.mem_items, h] at hw
  cases hw

/-- CORRECT: with every store that holds the protected credentials, a migration returns and loses
    nothing exactly when what the files say of the other keys is unambiguous. -/
theorem migrates_iff_unambiguous (secrets : Dict Str Str) (disk : Disk) (paths : List Path) :
    (∀ st, st.secrets = secrets → Migrates st disk paths) ↔ Unambiguous secrets disk paths := by
  constructor
  · intro h k v hlast hs
    have hst : Store.succeeds ⟨secrets, true, true, true, secrets⟩ := ⟨rfl, rfl, rfl⟩
    obtain ⟨hreturns, hkept, -⟩ := h ⟨secrets, true, true, true, secrets⟩ rfl
    have hne : (collect disk paths).1.items ≠ [] := by
      intro hempty
      rw [collect_empty hempty] at hlast
      cases hlast
    have hmigrate := migrate_of_succeeds hst hne
    by_cases hall : Filled secrets disk paths
    · have hmigrate := hmigrate.1 hall
      refine ⟨hall k v hlast hs, fun p hp hunlink w hw hwne => ?_⟩
      obtain ⟨-, hremoved⟩ := hkept hst
      have hsource : p ∈ (collect disk paths).2.filter disk.unlinks :=
        List.mem_filter.mpr ⟨((collect_spec disk paths).2 p).mpr
          ⟨hp, List.ne_nil_of_mem hw⟩, hunlink⟩
      have hread := hremoved p (by rw [hmigrate]; exact hsource) (k, w) hw hwne
      rw [hmigrate, hs] at hread
      have hget := hread.resolve_right (by simp)
      simp only [written_get?, hs, hlast, Option.isSome_none, Bool.false_eq_true, if_false,
        Option.filter] at hget
      split at hget
      · exact (Option.some.inj hget).symm
      · cases hget
    · have hraised := hreturns hst
      rw [hmigrate.2 hall] at hraised
      cases hraised
  · rintro h st rfl
    have hfilled : Filled st.secrets disk paths := fun k v hlast hs => (h k v hlast hs).1
    refine ⟨fun hst => ?_, fun hst => ?_, migrate_refuses st disk paths⟩
    · by_cases hne : (collect disk paths).1.items = []
      · simp [migrateLegacyEnv, hne]
      · rw [(migrate_of_succeeds hst hne).1 hfilled]
    · by_cases hne : (collect disk paths).1.items = []
      · have hsame : migrateLegacyEnv st disk paths = ⟨false, [], st.secrets⟩ := by
          simp [migrateLegacyEnv, hne]
        rw [hsame]
        exact ⟨fun k v hs => hs, fun p hp => by cases hp⟩
      · rw [(migrate_of_succeeds hst hne).1 hfilled]
        refine ⟨fun k v hs => ?_, fun p hp kv hkv hv => ?_⟩
        · rw [written_get?, hs]
          rfl
        · obtain ⟨hsource, hunlink⟩ := List.mem_filter.mp hp
          have hpaths := (((collect_spec disk paths).2 p).mp hsource).1
          rcases hs : st.secrets.get? kv.1 with _ | s
          · obtain ⟨v, hlast⟩ := Dict.last_isSome (mem_given.mpr ⟨p, hpaths, hkv⟩)
            have hsame := (h kv.1 v hlast hs).2 p hpaths hunlink kv.2 hkv hv
            left
            simp [written_get?, hs, hlast, ← hsame, hv, Option.filter]
          · exact Or.inr rfl

/-! ### Where it fails -/

/-- A store that works, with nothing in it. -/
def emptyStore : Store := ⟨Dict.empty, true, true, true, Dict.empty⟩

/-- An empty assignment in one file. -/
def blankDisk : Disk := ⟨fun _ => ["API_KEY=".toList], fun _ => true⟩

/-- Two files with different values of one key. -/
def rivalDisk : Disk :=
  ⟨fun p => if p = "a".toList then ["API_KEY=first".toList] else ["API_KEY=second".toList],
    fun _ => true⟩

/-- A line that assigns nothing makes the migration raise; and of two values of a key one is gone
    with its file. -/
theorem migration_loses : (migrateLegacyEnv emptyStore blankDisk ["a".toList]).raised = true ∧
    (migrateLegacyEnv emptyStore rivalDisk ["a".toList, "b".toList]).removed =
      ["a".toList, "b".toList] ∧
    ("API_KEY".toList, "first".toList) ∈ pairs (rivalDisk.lines "a".toList) ∧
    (migrateLegacyEnv emptyStore rivalDisk ["a".toList, "b".toList]).secrets.get?
      "API_KEY".toList = some "second".toList := by
  decide +kernel

end Angerona.Secrets
