import Angerona.Lib.Transition
import Angerona.Shutdown.Command

/-!
    Whether the two command formats of the resilience layer keep their purposes apart.

    An adversary without the key places any files; HMAC is ideal, so a document it places passes a
    reader's signature check only when the reader authenticates a text that an honest call
    published. Nothing in that text says which kind of call it was: a signed restart of `core` is a
    signed stand-down for the reason `core`, and the other way round.

    `authorised_iff` says for which histories of honest calls no reader is misled. -/

namespace Angerona.Shutdown
open Text PyJson Raising Transition

variable (h : Host) (components : List Str)

/-! ### The directory -/

structure Ipc where
  files : Path → Option File
  /-- Every command published so far. -/
  published : List Published

def Ipc.start : Ipc := ⟨fun _ => none, []⟩

def Ipc.publish (w : Ipc) (p : Published) : Ipc :=
  ⟨Function.update w.files p.path (some p.file), w.published ++ [p]⟩

/-- The inboxes of a supervisor of `components`. -/
def inboxes : List (Option Str) := none :: components.map some

/-- `is_standdown_requested`. -/
def Ipc.isStanddownRequested (w : Ipc) (now : Double) : Except PyError Bool :=
  match w.files .standdown with
  | some f => h.verifyStanddown now f
  | none => .ok false

/-- `_pop_restart_requests`: the forced names; the clock is read once a file. -/
def Ipc.popRestartRequests (w : Ipc) (clock : Option Str → Double) : List Str :=
  (inboxes components).flatMap fun i =>
    match w.files (.restart i) with
    | some f => h.restartNames components (clock i) f
    | none => []

inductive Act where
  | call (c : Call)
  /-- The adversary writes or removes a file. -/
  | place (path : Path) (file : Option File)
  | isStanddownRequested (now : Double)
  | popRestartRequests (clock : Option Str → Double)

def Act.call? : Act → Option Call
  | .call c => some c
  | _ => none

def Ipc.exec (w : Ipc) : Act → Ipc
  | .call c => (c.published h).foldl Ipc.publish w
  | .place path file => { w with files := Function.update w.files path file }
  | .isStanddownRequested _ => w
  | .popRestartRequests _ =>
    { w with files := fun path =>
        if ∃ i ∈ inboxes components, path = .restart i then none else w.files path }

/-- What the reader of a file authenticates. -/
def Host.claimOf : Path → File → Option Command
  | .standdown, f =>
    match h.standdownOf f with
    | .ok (some (_, c)) => some c
    | _ => none
  | .restart _, f => (h.restartOf f).map Prod.fst

/-- The file does not hold a signature of a text that was never published. -/
def Host.Unforged (known : List Published) (path : Path) (f : File) : Prop :=
  ∀ c, h.claimOf path f = some c → c.genuine h = true →
    ∃ p ∈ known, p.signed.payload = c.payload

def Act.Possible (w : Ipc) : Act → Prop
  | .place path (some f) => h.Unforged w.published path f
  | _ => True

/-- Histories of the directory. -/
abbrev History : List Act → Ipc → Prop :=
  Run (Guarded (Act.Possible h) fun w a t => w.exec h components a = t) .start

/-! ### Purposes -/

/-- The reasons that stand-down calls signed. -/
def reasons (known : List Published) : List Str :=
  (known.filter (·.path = .standdown)).map (·.signed.text)

/-- The targets that restart calls signed. -/
def targets (known : List Published) : List Str :=
  (known.filter (·.path ≠ .standdown)).map (·.signed.text)

/-- The reason in `standdown.cmd`. -/
def Ipc.fileReason (w : Ipc) : Option Str :=
  match w.files .standdown with
  | some ⟨_, some (.dict cmd)⟩ => some (h.textField "reason" cmd)
  | _ => none

/-- A reader that accepts a command had a call of its purpose for it. -/
def Ipc.Authorised (w : Ipc) : Act → Prop
  | .isStanddownRequested now => w.isStanddownRequested h now = .ok true →
      ∃ r ∈ reasons w.published, w.fileReason h = some r
  | .popRestartRequests clock => ∀ n ∈ w.popRestartRequests h components clock,
      n ∈ targets w.published ∨ star ∈ targets w.published
  | _ => True

/-- The published commands say the same read for either purpose. -/
structure Apart (known : List Published) : Prop where
  /-- A signed target, unless its time is negative, is a signed reason too. -/
  stops : ∀ p ∈ known, p.path ≠ .standdown → 0 ≤ p.signed.time.trunc →
    p.signed.text ∈ reasons known
  /-- What a signed reason names as a list of targets is a signed target too. -/
  restarts : ∀ r ∈ reasons known, ∀ names, join [','] names = r → ∀ n ∈ names,
    strip n = star ∨ strip n ∈ components → strip n ∈ targets known ∨ star ∈ targets known

theorem mem_reasons {known : List Published} {r : Str} :
    r ∈ reasons known ↔ ∃ p ∈ known, p.path = .standdown ∧ p.signed.text = r := by
  simp [reasons, and_assoc]

theorem mem_targets {known : List Published} {t : Str} :
    t ∈ targets known ↔ ∃ p ∈ known, p.path ≠ .standdown ∧ p.signed.text = t := by
  simp [targets, and_assoc]

/-! ### What is authenticated -/

theorem payload_inj {n n' t t' : Str} {ts ts' : ℤ} (hn : nul ∉ n) (ht : nul ∉ t)
    (heq : payload n ts t = payload n' ts' t') : n = n' ∧ ts = ts' ∧ t = t' := by
  have hdigits : ∀ m : ℤ, nul ∉ intText m := fun m hm => by
    rcases mem_intText hm with hc | hc
    · exact absurd hc (by decide)
    · exact absurd hc (by decide)
  -- both sides have two separators, so the texts on the right have none either
  have hcount := congrArg (List.count nul) heq
  simp only [payload, List.count_append, List.count_cons_self, List.count_eq_zero.mpr hn,
    List.count_eq_zero.mpr ht, List.count_eq_zero.mpr (hdigits _)] at hcount
  have hn' : nul ∉ n' := List.count_eq_zero.mp (by omega)
  obtain ⟨rfl, hrest⟩ := append_cons_inj hn hn' heq
  obtain ⟨hts, rfl⟩ := append_cons_inj (hdigits ts) (hdigits ts') hrest
  exact ⟨rfl, intText_inj hts, rfl⟩

theorem nul_not_hex {n : ℕ} {s : Str} (hs : isHex n s = true) : nul ∉ s := by
  intro hmem
  simp only [isHex, decide_eq_true_eq, List.all_eq_true] at hs
  exact absurd (hs.2 _ hmem) (by decide)

theorem nul_not_reason {s : Str} (hs : reasonOk s = true) : nul ∉ s := by
  intro hmem
  simp only [reasonOk, decide_eq_true_eq, List.all_eq_true] at hs
  exact absurd (hs.2.2 _ hmem) (by decide)

theorem target_reason : ∀ t ∈ validRestartTargets, reasonOk t = true := by decide

theorem target_strip : ∀ t ∈ validRestartTargets, strip t = t := by decide

theorem target_comma : ∀ t ∈ validRestartTargets, ',' ∉ t := by decide

/-! ### Honest commands -/

/-- What a call publishes: a proper text, and a file whose reader authenticates it. -/
structure Published.Formed (p : Published) : Prop where
  hex : isHex 32 p.signed.nonce = true
  reason : reasonOk p.signed.text = true
  target : p.path ≠ .standdown → p.signed.text ∈ validRestartTargets
  claim : ∀ c, h.claimOf p.path p.file = some c → c.payload = p.signed.payload

theorem mem_publishAll {p : Published} : ∀ {l : List (Except PyError Published)},
    p ∈ publishAll l → .ok p ∈ l
  | .ok q :: l, hp => by
    rcases List.mem_cons.mp hp with rfl | hp
    · exact List.mem_cons_self
    · exact List.mem_cons_of_mem _ (mem_publishAll hp)

theorem encode_fields {gap : ℕ} {command : List (Str × Value)} {f : File}
    (hf : h.encode gap command = .ok f) (hn : (command.map Prod.fst).Nodup) :
    ∃ d, f.document = some (.dict d) ∧ ∀ e ∈ command, ∃ j, e.2.dumps h.repr false = .ok j ∧
      getItem e.1 d = j.loads := by
  rw [Host.encode] at hf
  rcases hj : (record command).dumps h.repr false with _ | j
  · rw [hj] at hf
    cases hf
  · rw [hj] at hf
    obtain rfl := Except.ok.inj hf
    obtain ⟨d, hd, -, hget⟩ := loads_fields hn hj
    exact ⟨d, congrArg some hd, hget⟩

theorem getOr_scalar {name : Str} {default v : Value} {d : List (Key × Value)}
    (hget : ∃ j, v.dumps h.repr false = .ok j ∧ getItem name d = j.loads) (hs : v.scalar = true)
    (hv : v ≠ .null) : getOr name default d = v := by
  obtain ⟨j, hj, hget⟩ := hget
  exact getOr_of_getItem (hget.trans (loads_scalar hs hj)) hv

theorem textField_str {name : String} {s : Str} {d : List (Key × Value)}
    (hget : ∃ j, (Value.str s).dumps h.repr false = .ok j ∧ getItem name.toList d = j.loads) :
    h.textField name d = s := by
  rw [Host.textField, getOr_scalar h hget rfl (by simp)]
  rfl

/-- The reading of a stand-down file that has the right form. -/
theorem standdownOf_some {f : File} {ts : Double} {c : Command}
    (hc : h.standdownOf f = .ok (some (ts, c))) : ∃ cmd, f.document = some (.dict cmd) ∧
      h.float (getOr "ts".toList (.int 0) cmd) = .ok (.finite ts) ∧
      c = ⟨h.textField "nonce" cmd, ts.trunc, h.textField "reason" cmd, h.textField "sig" cmd⟩ ∧
      isHex 32 c.nonce = true ∧ reasonOk c.text = true := by
  rw [Host.standdownOf] at hc
  split at hc
  · cases hc
  · split at hc
    · rename_i cmd hcmd
      split at hc
      · cases hc
      · rename_i ts' hts
        dsimp only at hc
        split at hc
        · rename_i hform
          obtain ⟨rfl, rfl⟩ := Prod.mk.inj (Option.some.inj (Except.ok.inj hc))
          exact ⟨cmd, hcmd, hts, rfl, hform.1, hform.2.2⟩
        · cases hc
      · cases hc
    · cases hc

/-- The reading of a restart file that has the right form. -/
theorem restartOf_some {f : File} {c : Command} {names : List Str}
    (hc : h.restartOf f = some (c, names)) : ∃ cmd xs, f.document = some (.dict cmd) ∧
      h.int (getOr "ts".toList (.int 0) cmd) = .ok c.ts ∧
      getOr "targets".toList (.list []) cmd = .list xs ∧ names = xs.map h.str ∧
      c = ⟨h.textField "nonce" cmd, c.ts, join [','] names, h.textField "sig" cmd⟩ := by
  rw [Host.restartOf] at hc
  split at hc
  · rename_i cmd hcmd
    split at hc
    · rename_i ts xs hts hxs
      obtain ⟨rfl, rfl⟩ := Prod.mk.inj (Option.some.inj hc)
      exact ⟨cmd, xs, hcmd, hts, hxs, rfl, rfl⟩
    · cases hc
  · cases hc

theorem claimOf_standdown {f : File} {c : Command} (hc : h.claimOf .standdown f = some c) :
    ∃ ts, h.standdownOf f = .ok (some (ts, c)) := by
  rw [Host.claimOf] at hc
  split at hc
  · rename_i ts c' hread
    obtain rfl := Option.some.inj hc
    exact ⟨ts, hread⟩
  · cases hc

theorem claimOf_restart {component : Option Str} {f : File} {c : Command}
    (hc : h.claimOf (.restart component) f = some c) : ∃ names, h.restartOf f = some (c, names) := by
  obtain ⟨⟨c', names⟩, hread, rfl⟩ := Option.map_eq_some_iff.mp hc
  exact ⟨names, hread⟩

theorem standdown_formed {reason : Str} {draw : Draw} {p : Published}
    (hp : h.standdownPublished reason draw = .ok p) : p.path = .standdown ∧ p.Formed h := by
  obtain ⟨⟨signed, file⟩, hcommand, rfl⟩ := map_ok.mp hp
  rw [Host.standdownCommand] at hcommand
  split at hcommand
  · rename_i hreason
    obtain ⟨f, hf, hcommand⟩ := bind_ok.mp hcommand
    obtain ⟨-, hpair⟩ := if_error_ok.mp hcommand
    obtain ⟨rfl, rfl⟩ := Prod.mk.inj (Except.ok.inj hpair)
    obtain ⟨d, hd, hget⟩ := encode_fields h hf
      (by decide : ["nonce".toList, "ts".toList, "reason".toList, "sig".toList].Nodup)
    simp only [List.forall_mem_cons] at hget
    obtain ⟨hnonce, hts, htext, -, -⟩ := hget
    refine ⟨rfl, draw.hex, hreason, fun hne => absurd rfl hne, fun c hc => ?_⟩
    obtain ⟨ts, hread⟩ := claimOf_standdown h hc
    obtain ⟨cmd, hcmd, hfloat, rfl, -, -⟩ := standdownOf_some h hread
    obtain rfl := Value.dict.inj (Option.some.inj (hd.symm.trans hcmd))
    rw [getOr_scalar h hts rfl (by simp)] at hfloat
    obtain rfl := PyFloat.finite.inj (Except.ok.inj hfloat)
    rw [Command.payload, textField_str h hnonce, textField_str h htext]
    rfl
  · cases hcommand

theorem restart_formed {target : Str} {draw : Draw} {p : Published}
    (ht : target ∈ validRestartTargets) (hp : h.restartPublished target draw = .ok p) :
    p.path ≠ .standdown ∧ p.Formed h := by
  obtain ⟨⟨signed, file⟩, hcommand, rfl⟩ := map_ok.mp hp
  obtain ⟨f, hf, hcommand⟩ := bind_ok.mp hcommand
  obtain ⟨rfl, rfl⟩ := Prod.mk.inj (Except.ok.inj hcommand)
  obtain ⟨d, hd, hget⟩ := encode_fields h hf
    (by decide : ["nonce".toList, "ts".toList, "targets".toList, "sig".toList].Nodup)
  simp only [List.forall_mem_cons] at hget
  obtain ⟨hnonce, hts, ⟨j, hj, htargets⟩, -, -⟩ := hget
  refine ⟨by simp, draw.hex, target_reason _ ht, fun _ => ht, fun c hc => ?_⟩
  obtain ⟨names, hread⟩ := claimOf_restart h hc
  obtain ⟨cmd, xs, hcmd, hint, hxs, rfl, hc⟩ := restartOf_some h hread
  obtain rfl := Value.dict.inj (Option.some.inj (hd.symm.trans hcmd))
  rw [getOr_scalar h hts rfl (by simp)] at hint
  rw [getOr_of_getItem (htargets.trans (loads_texts hj)) (by simp)] at hxs
  obtain rfl := Value.list.inj hxs
  rw [hc, Command.payload, textField_str h hnonce, ← Except.ok.inj hint]
  change payload _ _ (join [','] [target]) = _
  rw [join_singleton]
  rfl

theorem restartTargets_valid {names : List Str} : ∀ t ∈ h.restartTargets names,
    t ∈ validRestartTargets := by
  intro t ht
  unfold Host.restartTargets at ht
  dsimp only at ht
  generalize (if names = [] then [star] else names) = named at ht
  split at ht
  · rw [List.mem_singleton.mp ht]
    decide
  · exact of_decide_eq_true (List.mem_filter.mp ht).2

theorem published_formed {call : Call} : ∀ p ∈ call.published h, p.Formed h := by
  intro p hp
  cases call with
  | requestRestart names draws =>
    obtain ⟨⟨target, draw⟩, hmem, hp⟩ := List.mem_map.mp (mem_publishAll hp)
    exact (restart_formed h (restartTargets_valid h _ (List.of_mem_zip hmem).1) hp).2
  | requestStanddown reason draw =>
    exact (standdown_formed h (List.mem_singleton.mp (mem_publishAll hp)).symm).2
  | requestOperatorStop reason draw =>
    exact (standdown_formed h (List.mem_singleton.mp (mem_publishAll hp)).symm).2

/-! ### Histories -/

theorem foldl_publish (ps : List Published) (w : Ipc) :
    (ps.foldl Ipc.publish w).published = w.published ++ ps := by
  induction ps generalizing w with
  | nil => exact (List.append_nil _).symm
  | cons p ps ih => rw [List.foldl_cons, ih, Ipc.publish, List.append_assoc, List.singleton_append]

theorem Host.Unforged.mono {known known' : List Published} {path : Path} {f : File}
    (hf : h.Unforged known path f) (hsub : ∀ p ∈ known, p ∈ known') :
    h.Unforged known' path f := by
  intro c hc hgenuine
  obtain ⟨p, hp, hpayload⟩ := hf c hc hgenuine
  exact ⟨p, hsub p hp, hpayload⟩

/-- No file holds a forged signature. -/
structure Ipc.Sound (w : Ipc) : Prop where
  formed : ∀ p ∈ w.published, p.Formed h
  unforged : ∀ path f, w.files path = some f → h.Unforged w.published path f

theorem Ipc.Sound.publish {w : Ipc} (hw : w.Sound h) {p : Published} (hp : p.Formed h) :
    (w.publish p).Sound h := by
  refine ⟨fun q hq => ?_, fun path f hf => ?_⟩
  · rcases List.mem_append.mp hq with hq | hq
    · exact hw.formed q hq
    · rwa [List.mem_singleton.mp hq]
  · rw [Ipc.publish] at hf ⊢
    dsimp only at hf
    by_cases hpath : path = p.path
    · rw [hpath, Function.update_self] at hf
      obtain rfl := Option.some.inj hf
      intro c hc _
      rw [hpath] at hc
      exact ⟨p, List.mem_append_right _ List.mem_cons_self, (hp.claim c hc).symm⟩
    · rw [Function.update_of_ne hpath] at hf
      exact (hw.unforged path f hf).mono h fun q hq => List.mem_append_left _ hq

theorem Ipc.Sound.exec {w : Ipc} (hw : w.Sound h) {a : Act} (ha : a.Possible h w) :
    (w.exec h components a).Sound h := by
  cases a with
  | call c =>
    have hformed : ∀ p ∈ c.published h, p.Formed h := published_formed h
    rw [Ipc.exec]
    generalize c.published h = ps at hformed ⊢
    clear ha
    induction ps generalizing w with
    | nil => exact hw
    | cons p ps ih =>
      rw [List.forall_mem_cons] at hformed
      exact ih (hw.publish h hformed.1) hformed.2
  | place path file =>
    refine ⟨hw.formed, fun path' f hf => ?_⟩
    rw [Ipc.exec] at hf
    dsimp only at hf
    by_cases hpath : path' = path
    · rw [hpath, Function.update_self] at hf
      subst hf
      rw [hpath]
      exact ha
    · rw [Function.update_of_ne hpath] at hf
      exact hw.unforged path' f hf
  | isStanddownRequested now => exact hw
  | popRestartRequests clock =>
    refine ⟨hw.formed, fun path f hf => ?_⟩
    rw [Ipc.exec] at hf
    dsimp only at hf
    split at hf
    · cases hf
    · exact hw.unforged path f hf

theorem history_sound {acts : List Act} {w : Ipc} (hrun : History h components acts w) :
    w.Sound h :=
  hrun.invariant (fun _ _ _ hs hstep => hstep.2 ▸ hs.exec h components hstep.1)
    ⟨fun _ hp => absurd hp List.not_mem_nil, fun _ _ hf => nomatch hf⟩

/-- The published commands are those of the calls made. -/
theorem history_published {acts : List Act} {w : Ipc} (hrun : History h components acts w) :
    w.published = (acts.filterMap Act.call?).flatMap (Call.published h) := by
  induction hrun with
  | nil => rfl
  | snoc _ hstep ih =>
    obtain ⟨-, rfl⟩ := hstep
    rw [List.filterMap_append, List.flatMap_append, ← ih]
    rename_i a _
    cases a with
    | call c => simp [Ipc.exec, foldl_publish, Act.call?]
    | place path file => simp [Ipc.exec, Act.call?]
    | isStanddownRequested now => simp [Ipc.exec, Act.call?]
    | popRestartRequests clock => simp [Ipc.exec, Act.call?]

/-! ### Readers of published commands -/

/-- A reader that accepts a file authenticates a published command. -/
theorem Ipc.Sound.accepted {w : Ipc} (hw : w.Sound h) {path : Path} {f : File} {c : Command}
    (hf : w.files path = some f) (hc : h.claimOf path f = some c) (hgenuine : c.genuine h = true) :
    ∃ p ∈ w.published, p.signed.nonce = c.nonce ∧ p.signed.time.trunc = c.ts ∧
      p.signed.text = c.text := by
  obtain ⟨p, hp, hpayload⟩ := hw.unforged path f hf c hc hgenuine
  have hformed := hw.formed p hp
  exact ⟨p, hp, payload_inj (nul_not_hex hformed.hex) (nul_not_reason hformed.reason) hpayload⟩

/-- A list whose joined text has no comma is its one element. -/
theorem names_of_join {names : List Str} {t n : Str} (hjoin : join [','] names = t)
    (ht : ',' ∉ t) (hn : n ∈ names) : n = t := by
  rcases names with _ | ⟨m, _ | ⟨m', names⟩⟩
  · exact absurd hn List.not_mem_nil
  · rw [List.mem_singleton.mp hn, ← hjoin, join_singleton]
  · refine absurd ?_ ht
    rw [← hjoin, show m :: m' :: names = [m] ++ m' :: names from rfl,
      join_append (List.cons_ne_nil _ _) (List.cons_ne_nil _ _)]
    simp

theorem Ipc.Sound.standdown {w : Ipc} (hw : w.Sound h) (hapart : Apart components w.published)
    (now : Double) : w.Authorised h components (.isStanddownRequested now) := by
  intro htrue
  rw [Ipc.isStanddownRequested] at htrue
  split at htrue
  · rename_i f hf
    obtain ⟨r, hread, hr⟩ := map_ok.mp htrue
    rcases r with _ | ⟨ts, c⟩
    · cases hr
    simp only [Bool.and_eq_true] at hr
    obtain ⟨hfresh, hgenuine⟩ := hr
    have hclaim : h.claimOf .standdown f = some c := by
      rw [Host.claimOf, hread]
    obtain ⟨p, hp, -, htime, htext⟩ := hw.accepted h hf hclaim hgenuine
    obtain ⟨cmd, hcmd, -, rfl, -, -⟩ := standdownOf_some h hread
    have hreason : w.fileReason h = some p.signed.text := by
      rw [Ipc.fileReason, hf]
      rcases f with ⟨size, document⟩
      obtain rfl := hcmd
      rw [htext]
    refine ⟨p.signed.text, ?_, hreason⟩
    by_cases hpath : p.path = .standdown
    · exact mem_reasons.mpr ⟨p, hp, hpath, rfl⟩
    · refine hapart.stops p hp hpath ?_
      have hpos : 0 < ts.val := by
        simp only [freshStop, Bool.and_eq_true, decide_eq_true_eq] at hfresh
        exact hfresh.1.2
      rw [htime]
      exact Int.tdiv_nonneg hpos.le (by positivity)
  · cases htrue

theorem Ipc.Sound.restart {w : Ipc} (hw : w.Sound h) (hapart : Apart components w.published)
    (clock : Option Str → Double) : w.Authorised h components (.popRestartRequests clock) := by
  intro n hn
  obtain ⟨i, -, hn⟩ := List.mem_flatMap.mp hn
  split at hn
  · rename_i f hf
    rw [Host.restartNames] at hn
    split at hn
    · rename_i c names hread
      split at hn
      · rename_i hok
        obtain ⟨hmem, hname⟩ := List.mem_filter.mp hn
        obtain ⟨m, hm, rfl⟩ := List.mem_map.mp hmem
        have hname := of_decide_eq_true hname
        have hclaim : h.claimOf (.restart i) f = some c := by
          rw [Host.claimOf, hread]
          rfl
        obtain ⟨p, hp, -, -, htext⟩ := hw.accepted h hf hclaim (Bool.and_eq_true_iff.mp hok).2
        obtain ⟨cmd, xs, -, -, -, rfl, hc⟩ := restartOf_some h hread
        have hjoin : join [','] (xs.map h.str) = p.signed.text := by rw [htext, hc]
        by_cases hpath : p.path = .standdown
        · exact hapart.restarts _ (mem_reasons.mpr ⟨p, hp, hpath, rfl⟩) _ hjoin m hm hname
        · have ht := (hw.formed p hp).target hpath
          rw [names_of_join hjoin (target_comma _ ht) hm, target_strip _ ht]
          exact .inl (mem_targets.mpr ⟨p, hp, hpath, rfl⟩)
      · cases hn
    · cases hn
  · cases hn

/-! ### Re-packaging -/

theorem freshRestart_self {now : Double} {ts : ℤ} (hnow : Double.ofInt ts = some now) :
    freshRestart now ts = true := by
  have hage : (seconds 30 (by decide)).lt (.finite Double.zero) = false := by decide +kernel
  rw [freshRestart, hnow, Option.elim_some, PyFloat.sub_self, hage]
  rfl

/-- The members of a stand-down command that says what a published command says. -/
def Signed.asStop (s : Signed) (ts : Double) : List (Str × Value) :=
  [("nonce".toList, .str s.nonce), ("ts".toList, .float (.finite ts)),
    ("reason".toList, .str s.text), ("sig".toList, .str (h.mac s.payload))]

/-- The members of a restart command for `names` with the signature of a published command. -/
def Signed.asRestart (s : Signed) (names : List Str) : List (Str × Value) :=
  [("nonce".toList, .str s.nonce), ("ts".toList, .int s.time.trunc),
    ("targets".toList, .list (names.map .str)), ("sig".toList, .str (h.mac s.payload))]

/-- A file of these members, within the bound of a stand-down. -/
def packed (fields : List (Str × Value)) : File := ⟨4096, some (.dict (fields.map strItem))⟩

theorem getOr_record {fields : List (Str × Value)} (hn : (fields.map Prod.fst).Nodup)
    {name : Str} {v : Value} (hf : (name, v) ∈ fields) (hv : v ≠ .null) (default : Value) :
    getOr name default (fields.map strItem) = v :=
  getOr_of_getItem (getItem_record hn hf) hv

theorem textField_record {fields : List (Str × Value)} (hn : (fields.map Prod.fst).Nodup)
    (name : String) {s : Str} (hf : (name.toList, .str s) ∈ fields) :
    h.textField name (fields.map strItem) = s := by
  rw [Host.textField, getOr_record hn hf (by simp)]
  rfl

/-- A positive time with a given whole part. -/
theorem exists_positive {d : Double} (hd : 0 ≤ d.trunc) :
    ∃ t : Double, t.trunc = d.trunc ∧ 0 < t.val := by
  rcases hd.eq_or_lt with h0 | hpos
  · let t : Double := ⟨false, 1, by decide, by decide +kernel⟩
    have ht : t.trunc = 0 := by decide +kernel
    exact ⟨t, ht.trans h0, by decide⟩
  · refine ⟨d, rfl, ?_⟩
    by_contra hneg
    have hle : 0 ≤ (-d.val).tdiv (2 ^ Double.unitExponent) :=
      Int.tdiv_nonneg (by omega) (by positivity)
    rw [Int.neg_tdiv, ← Double.trunc] at hle
    omega

theorem freshStop_self {ts : Double} (hpos : 0 < ts.val) (reason : Str) :
    freshStop ts ts reason = true := by
  have hskew : PyFloat.lt (.finite Double.zero)
      (.finite (Double.ofNat 30 (by decide)).opposite) = false := by decide +kernel
  have hage : (seconds 3600 (by decide)).lt (.finite Double.zero) = false := by decide +kernel
  rw [freshStop, PyFloat.sub_self, hskew, hage]
  simp [hpos]

theorem standdownOf_asStop {s : Signed} (ts : Double) (hhex : isHex 32 s.nonce = true)
    (hreason : reasonOk s.text = true) :
    h.standdownOf (packed (s.asStop h ts)) =
        .ok (some (ts, ⟨s.nonce, ts.trunc, s.text, h.mac s.payload⟩)) ∧
      h.textField "reason" ((s.asStop h ts).map strItem) = s.text := by
  have hn : ((s.asStop h ts).map Prod.fst).Nodup :=
    (by decide : ["nonce".toList, "ts".toList, "reason".toList, "sig".toList].Nodup)
  have hnonce : h.textField "nonce" _ = s.nonce := textField_record h hn _ List.mem_cons_self
  have htext : h.textField "reason" _ = s.text :=
    textField_record h hn _ (by simp [Signed.asStop])
  have hsig : h.textField "sig" _ = h.mac s.payload :=
    textField_record h hn _ (by simp [Signed.asStop])
  have hts : getOr "ts".toList (.int 0) _ = .float (.finite ts) :=
    getOr_record hn (by simp [Signed.asStop]) (by simp) _
  refine ⟨?_, htext⟩
  rw [Host.standdownOf, packed, if_neg (Nat.lt_irrefl _)]
  dsimp only
  rw [hts, Interpreter.float]
  dsimp only
  rw [hnonce, htext, hsig, if_pos ⟨hhex, h.mac_hex _, hreason⟩]

/-- A published restart command, as a stand-down for the reason that its target spells. -/
theorem repackaged_stop {known : List Published} {p : Published} (hp : p ∈ known)
    (hformed : p.Formed h) (htime : 0 ≤ p.signed.time.trunc) : ∃ f now,
      h.Unforged known .standdown f ∧ h.verifyStanddown now f = .ok true ∧
      ∃ cmd, f.document = some (.dict cmd) ∧ h.textField "reason" cmd = p.signed.text := by
  obtain ⟨ts, hts, hpos⟩ := exists_positive htime
  obtain ⟨hread, htext⟩ := standdownOf_asStop h ts hformed.hex hformed.reason
  have hpayload : p.signed.payload = payload p.signed.nonce ts.trunc p.signed.text := by
    rw [hts]
    rfl
  refine ⟨packed (p.signed.asStop h ts), ts, fun c hc _ => ⟨p, hp, ?_⟩, ?_, _, rfl, htext⟩
  · rw [Host.claimOf, hread] at hc
    obtain rfl := Option.some.inj hc
    exact hpayload
  · have hgenuine : Command.genuine h
        ⟨p.signed.nonce, ts.trunc, p.signed.text, h.mac p.signed.payload⟩ = true := by
      rw [Command.genuine, Command.payload, ← hpayload, decide_eq_true rfl]
    rw [Host.verifyStanddown, hread, Except.map]
    dsimp only
    rw [freshStop_self hpos, hgenuine]
    rfl

theorem restartOf_asRestart (s : Signed) (names : List Str) :
    h.restartOf (packed (s.asRestart h names)) =
      some (⟨s.nonce, s.time.trunc, join [','] names, h.mac s.payload⟩, names) := by
  have hn : ((s.asRestart h names).map Prod.fst).Nodup :=
    (by decide : ["nonce".toList, "ts".toList, "targets".toList, "sig".toList].Nodup)
  have hnonce : h.textField "nonce" _ = s.nonce := textField_record h hn _ List.mem_cons_self
  have hsig : h.textField "sig" _ = h.mac s.payload :=
    textField_record h hn _ (by simp [Signed.asRestart])
  have hts : getOr "ts".toList (.int 0) _ = .int s.time.trunc :=
    getOr_record hn (by simp [Signed.asRestart]) (by simp) _
  have htargets : getOr "targets".toList (.list []) _ = .list (names.map .str) :=
    getOr_record hn (by simp [Signed.asRestart]) (by simp) _
  have hnames : (names.map Value.str).map h.str = names := by
    rw [List.map_map]
    exact List.map_id names
  rw [Host.restartOf, packed]
  dsimp only
  rw [hts, htargets, Interpreter.int]
  dsimp only
  rw [hnonce, hsig, hnames]

/-- A published stand-down, as a restart of the targets that its reason spells. -/
theorem repackaged_restart {known : List Published} {p : Published} (hp : p ∈ known)
    {names : List Str} (hjoin : join [','] names = p.signed.text) : ∃ f now,
      h.Unforged known (.restart none) f ∧
      h.restartNames components now f =
        (names.map strip).filter fun n => n = star ∨ n ∈ components := by
  have hread := restartOf_asRestart h p.signed names
  obtain ⟨now, hnow⟩ := Option.isSome_iff_exists.mp (Double.ofInt_trunc_isSome p.signed.time)
  have hpayload : p.signed.payload =
      payload p.signed.nonce p.signed.time.trunc (join [','] names) := by
    rw [hjoin]
    rfl
  refine ⟨packed (p.signed.asRestart h names), now, fun c hc _ => ⟨p, hp, ?_⟩, ?_⟩
  · rw [Host.claimOf, hread] at hc
    obtain rfl := Option.some.inj hc
    exact hpayload
  · have hgenuine : Command.genuine h ⟨p.signed.nonce, p.signed.time.trunc, join [','] names,
        h.mac p.signed.payload⟩ = true := by
      rw [Command.genuine, Command.payload, ← hpayload, decide_eq_true rfl]
    rw [Host.restartNames, hread]
    dsimp only
    rw [freshRestart_self hnow, hgenuine]
    rfl

/-! ### The exact condition -/

theorem calls_run (past : List Call) : ∃ w, History h components (past.map .call) w := by
  refine ⟨_, Run.of_foldl fun w a ha => ?_⟩
  obtain ⟨c, -, rfl⟩ := List.mem_map.mp ha
  trivial

theorem filterMap_calls (past : List Call) : (past.map Act.call).filterMap Act.call? = past := by
  rw [List.filterMap_map]
  exact List.filterMap_some

/-- In every state of every history with these calls, the readers are authorised. -/
def Trusted (past : List Call) : Prop :=
  ∀ acts w, History h components acts w → acts.filterMap Act.call? = past →
    ∀ a, w.Authorised h components a

theorem trusted_iff (past : List Call) :
    Trusted h components past ↔ Apart components (past.flatMap (Call.published h)) := by
  constructor
  · intro htrusted
    obtain ⟨w, hrun⟩ := calls_run h components past
    have hpublished := history_published h components hrun
    rw [filterMap_calls] at hpublished
    -- the adversary's file, after the calls
    have hplace : ∀ path f, h.Unforged w.published path f →
        History h components (past.map Act.call ++ [Act.place path (some f)])
          { w with files := Function.update w.files path (some f) } :=
      fun path f hf => hrun.snoc ⟨hf, rfl⟩
    have hcalls : ∀ path f, (past.map Act.call ++ [Act.place path (some f)]).filterMap Act.call? = past :=
      fun path f => by rw [List.filterMap_append, filterMap_calls]; exact List.append_nil _
    rw [← hpublished]
    have hsound := history_sound h components hrun
    refine ⟨fun p hp hpath htime => ?_, fun r hr names hjoin n hn hname => ?_⟩
    · obtain ⟨f, now, hunforged, hverify, cmd, hcmd, htext⟩ :=
        repackaged_stop h hp (hsound.formed p hp) htime
      have hauth := htrusted _ _ (hplace _ f hunforged) (hcalls _ f) (.isStanddownRequested now)
      simp only [Ipc.Authorised, Ipc.isStanddownRequested, Ipc.fileReason,
        Function.update_self] at hauth
      obtain ⟨r, hr, hreason⟩ := hauth hverify
      rcases f with ⟨size, document⟩
      obtain rfl := hcmd
      rwa [← htext, Option.some.inj hreason]
    · obtain ⟨p, hp, hpath, rfl⟩ := mem_reasons.mp hr
      obtain ⟨f, now, hunforged, hforced⟩ := repackaged_restart h components hp hjoin
      have hauth := htrusted _ _ (hplace _ f hunforged) (hcalls _ f)
        (.popRestartRequests fun _ => now)
      refine hauth (strip n) (List.mem_flatMap.mpr ⟨none, List.mem_cons_self, ?_⟩)
      simp only [Function.update_self]
      rw [hforced]
      exact List.mem_filter.mpr ⟨List.mem_map.mpr ⟨n, hn, rfl⟩, decide_eq_true hname⟩
  · rintro hapart acts w hrun rfl a
    rw [← history_published h components hrun] at hapart
    have hsound := history_sound h components hrun
    cases a with
    | isStanddownRequested now => exact hsound.standdown h components hapart now
    | popRestartRequests clock => exact hsound.restart h components hapart clock
    | call c => trivial
    | place path file => trivial

/-- CORRECT: no reader is ever misled, whatever the adversary places and the clocks read, if and
    only if at every point of the history the published commands say the same for either
    purpose. -/
theorem authorised_iff (calls : List Call) :
    (∀ acts w, History h components acts w → acts.filterMap Act.call? <+: calls →
      ∀ a, w.Authorised h components a) ↔
    ∀ past, past <+: calls → Apart components (past.flatMap (Call.published h)) := by
  constructor
  · intro hauth past hpast
    refine (trusted_iff h components past).mp fun acts w hrun hcalls => ?_
    exact hauth acts w hrun (hcalls ▸ hpast)
  · intro hapart acts w hrun hpast
    exact (trusted_iff h components _).mpr (hapart _ hpast) acts w hrun rfl

/-! ### Two misleading calls -/

def sampleNonce : Str := "00112233445566778899aabbccddeeff".toList

def sampleTime : Double := Double.ofNat 1700000000 (by decide)

def sampleDraw : Draw := ⟨sampleNonce, by decide, sampleTime⟩

/-- A host with the key `000102…1f`, for the one text that is signed below. -/
def sampleHost : Host where
  repr _ := "1700000000.0".toList
  shown _ := []
  parseFloat _ := none
  parseInt _ := none
  lower s := s.map Char.toLower
  mac text :=
    if text = payload sampleNonce 1700000000 "core".toList then
      "8580b57c9abce04cc5cc3cdd4c32acd3056c87d4a51a3cc165ebfe48ff1dc5a5".toList
    else List.replicate 64 '0'
  mac_hex text := by split <;> decide

/-- A signed restart of `core` passes as a stand-down, and a signed stand-down for the reason `core`
    passes as a restart. -/
theorem core_crosses_over :
    ¬Trusted sampleHost ["core".toList] [.requestRestart ["core".toList] [sampleDraw]] ∧
      ¬Trusted sampleHost ["core".toList] [.requestStanddown "core".toList sampleDraw] := by
  rw [trusted_iff, trusted_iff]
  constructor
  · generalize hknown : [Call.requestRestart ["core".toList] [sampleDraw]].flatMap
      (Call.published sampleHost) = known
    have hreasons : reasons known = [] := hknown ▸ by decide +kernel
    have hsigned : known.map (fun p => (p.path, p.signed.time.trunc, p.signed.text)) =
        [(.restart (some "core".toList), 1700000000, "core".toList)] := hknown ▸ by decide +kernel
    intro hapart
    obtain ⟨p, hp, heq⟩ := List.mem_map.mp (hsigned ▸ List.mem_singleton_self _)
    obtain ⟨hpath, heq⟩ := Prod.mk.inj heq
    have htext := hapart.stops p hp (by rw [hpath]; simp) (by rw [(Prod.mk.inj heq).1]; decide)
    rw [hreasons] at htext
    exact List.not_mem_nil htext
  · generalize hknown : [Call.requestStanddown "core".toList sampleDraw].flatMap
      (Call.published sampleHost) = known
    have htargets : targets known = [] := hknown ▸ by decide +kernel
    have hreasons : reasons known = ["core".toList] := hknown ▸ by decide +kernel
    intro hapart
    have hnamed := hapart.restarts "core".toList (hreasons ▸ List.mem_singleton_self _)
      ["core".toList] (join_singleton _ _) _ List.mem_cons_self (.inr (by decide))
    rw [htargets] at hnamed
    exact hnamed.elim List.not_mem_nil List.not_mem_nil

end Angerona.Shutdown
