import Angerona.Shutdown.Separation

/-!
    How often one signed restart command takes effect (`resilience/supervisor.py`).

    A supervisor empties its inboxes on every tick and forgets what it read: the nonce of a command
    is signed but never remembered. A party without the key may copy a command file and drop it
    again, so a command takes effect on every tick of its half minute that finds a copy.

    `restarts_once` is about the histories in which no inbox receives a command again after a tick
    acted on it. -/

namespace Angerona.Shutdown
open Text PyJson Transition

variable (h : Host) (components : List Str)

/-! ### A supervisor at work -/

/-- A component that a tick restarts, and the command it does so for. -/
structure Forcing where
  command : Command
  component : Str
  now : Double

/-- What one inbox file forces; the wildcard is for every component. -/
def Host.forcings (now : Double) (f : File) : List Forcing :=
  match h.restartOf f with
  | some (c, _) =>
    let names := h.restartNames components now f
    (components.filter fun n => n ∈ names ∨ star ∈ names).map fun n => ⟨c, n, now⟩
  | none => []

structure Watch where
  ipc : Ipc
  /-- What each tick forced, oldest first. -/
  ticks : List (List Forcing)

/-- The inbox files that a tick reads and deletes; one that cannot be deleted is passed over. -/
def Watch.taken (w : Watch) (stuck : Option Str → Bool) : List (Option Str × File) :=
  (inboxes components).filterMap fun i =>
    if stuck i then none else (w.ipc.files (.restart i)).map fun f => (i, f)

/-- What `_tick_locked` forces. -/
def Watch.forced (w : Watch) (stuck : Option Str → Bool) (clock : Option Str → Double) :
    List Forcing :=
  (w.taken components stuck).flatMap fun p => h.forcings components (clock p.1) p.2

inductive Deed where
  | call (c : Call)
  /-- Another party, or another supervisor, writes or removes a file. -/
  | place (path : Path) (file : Option File)
  /-- A tick; under a stand-down it empties the inboxes and restarts nothing. -/
  | tick (standdown : Bool) (stuck : Option Str → Bool) (clock : Option Str → Double)

def Watch.exec (w : Watch) : Deed → Watch
  | .call c => { w with ipc := (c.published h).foldl Ipc.publish w.ipc }
  | .place path file =>
    { w with ipc := { w.ipc with files := Function.update w.ipc.files path file } }
  | .tick standdown stuck clock =>
    let files := fun path =>
      if ∃ i ∈ inboxes components, stuck i = false ∧ path = .restart i then none
      else w.ipc.files path
    { ipc := { w.ipc with files }
      ticks := if standdown then w.ticks else w.ticks ++ [w.forced h components stuck clock] }

def Watch.start : Watch := ⟨.start, []⟩

/-- Nonces are distinct, and nobody but a call signs. -/
def Deed.Possible (w : Watch) : Deed → Prop
  | .call c => ((w.ipc.published ++ c.published h).map (·.signed.nonce)).Nodup
  | .place path (some f) => h.Unforged w.ipc.published path f
  | _ => True

/-- Histories of a supervisor and the directory. -/
abbrev Watched : List Deed → Watch → Prop :=
  Run (Guarded (Deed.Possible h) fun w a t => w.exec h components a = t) .start

/-! ### What a command does -/

/-- A tick restarts a component for the command. -/
def Forces (t : List Forcing) (p : Published) (n : Str) : Prop :=
  ∃ f ∈ t, f.command.payload = p.signed.payload ∧ f.component = n

instance (t : List Forcing) (p : Published) (n : Str) : Decidable (Forces t p n) :=
  inferInstanceAs (Decidable (∃ f ∈ t, _))

/-- Every command restarts a component at most once, and within 30 seconds. -/
structure Watch.Prompt (w : Watch) : Prop where
  once : ∀ p ∈ w.ipc.published, ∀ n, w.ticks.countP (Forces · p n) ≤ 1
  timely : ∀ t ∈ w.ticks, ∀ f ∈ t, ∀ p ∈ w.ipc.published,
    f.command.payload = p.signed.payload →
      f.now.val - p.signed.time.val ≤ 30 * 2 ^ Double.unitExponent

/-- A tick acted on the command with this text. -/
def Watch.Acted (w : Watch) (text : Str) : Prop :=
  ∃ t ∈ w.ticks, ∃ f ∈ t, f.command.payload = text

/-- An inbox file holds a genuine command with this text. -/
def Host.Holds (i : Option Str) (f : File) (text : Str) : Prop :=
  ∃ c, h.claimOf (.restart i) f = some c ∧ c.genuine h = true ∧ c.payload = text

/-- Commands are signed after 1970, an inbox receives no command that a tick acted on, and a file
    that a tick cannot delete holds none that it acts on. -/
def Deed.Fresh (w : Watch) : Deed → Prop
  | .call c => ∀ p ∈ c.published h, 0 ≤ p.signed.time.val
  | .place path file => ∀ i ∈ inboxes components, path = .restart i → ∀ f, file = some f →
      ∀ text, h.Holds i f text → ¬w.Acted text
  | .tick _ stuck clock => ∀ i ∈ inboxes components, stuck i = true →
      ∀ f, w.ipc.files (.restart i) = some f → ∀ text, h.Holds i f text →
        ∀ g ∈ w.forced h components stuck clock, g.command.payload ≠ text

/-! ### One tick -/

variable {h} {components}

theorem mem_forcings {now : Double} {file : File} {f : Forcing}
    (hf : f ∈ h.forcings components now file) :
    (∃ names, h.restartOf file = some (f.command, names)) ∧ f.command.genuine h = true ∧
      freshRestart now f.command.ts = true ∧ f.now = now := by
  rw [Host.forcings] at hf
  split at hf
  · rename_i c names hread
    obtain ⟨n, hn, rfl⟩ := List.mem_map.mp hf
    have hnames := of_decide_eq_true (List.mem_filter.mp hn).2
    rw [Host.restartNames, hread] at hnames
    dsimp only at hnames
    split at hnames
    · rename_i hfresh
      rw [Bool.and_eq_true] at hfresh
      exact ⟨⟨names, hread⟩, hfresh.2, hfresh.1, rfl⟩
    · simp at hnames
  · cases hf

/-- What a tick forces, it read from an inbox that it could empty. -/
theorem mem_forced {w : Watch} {stuck : Option Str → Bool} {clock : Option Str → Double}
    {f : Forcing} (hf : f ∈ w.forced h components stuck clock) :
    ∃ i ∈ inboxes components, ∃ file, w.ipc.files (.restart i) = some file ∧
      h.Holds i file f.command.payload ∧ f.command.genuine h = true ∧
      freshRestart f.now f.command.ts = true ∧ h.claimOf (.restart i) file = some f.command := by
  obtain ⟨⟨i, file⟩, hmem, hf⟩ := List.mem_flatMap.mp hf
  obtain ⟨j, hj, htaken⟩ := List.mem_filterMap.mp hmem
  split at htaken
  · cases htaken
  · obtain ⟨file', hfile, heq⟩ := Option.map_eq_some_iff.mp htaken
    obtain ⟨rfl, rfl⟩ := Prod.mk.inj heq
    obtain ⟨⟨names, hread⟩, hgenuine, hfresh, hnow⟩ := mem_forcings hf
    have hclaim : h.claimOf (.restart j) file' = some f.command := by rw [Host.claimOf, hread]; rfl
    exact ⟨j, hj, file', hfile, ⟨f.command, hclaim, hgenuine, rfl⟩, hgenuine, hnow ▸ hfresh, hclaim⟩

/-- The age of a restart command that is fresh, without rounding. -/
theorem fresh_age {now time : Double} (htime : 0 ≤ time.val)
    (h : freshRestart now time.trunc = true) :
    now.val - time.val ≤ (30 * 2 ^ Double.unitExponent : ℕ) := by
  obtain ⟨t, ht⟩ := Option.isSome_iff_exists.mp (Double.ofInt_trunc_isSome time)
  have hle := Double.ofInt_trunc_le htime ht
  have htrunc : 0 ≤ time.trunc := Int.tdiv_nonneg htime (by positivity)
  obtain ⟨hneg, hmag⟩ := Double.ofInt_spec htrunc ht
  have hpos : 0 ≤ t.val := by
    rw [Double.val, hneg]
    exact Int.natCast_nonneg _
  refine Int.le_trans (Int.sub_le_sub_left hle _) ?_
  rcases lt_or_ge now.val t.val with hlt | hge
  · exact Int.le_trans (Int.sub_neg_of_lt hlt).le (Int.natCast_nonneg _)
  obtain ⟨d, hd⟩ := Option.isSome_iff_exists.mp (Double.sub_isSome hpos hge)
  rw [freshRestart, ht, Option.elim, Bool.not_eq_true', PyFloat.sub, hd] at h
  have hage := Int.not_lt.mp (of_decide_eq_false h)
  rw [Double.ofNat_val] at hage
  refine Double.sub_le_seconds (by decide) (by decide) hpos ?_ hd hage
  rw [hmag]
  exact Binary64.dvd_roundMag (Nat.dvd_mul_left _ _)

/-! ### Histories -/

/-- What a step of a fresh history preserves. -/
structure Watch.Sound (h : Host) (components : List Str) (w : Watch) : Prop where
  ipc : w.ipc.Sound h
  nonces : (w.ipc.published.map (·.signed.nonce)).Nodup
  signed : ∀ p ∈ w.ipc.published, 0 ≤ p.signed.time.val
  genuine : ∀ t ∈ w.ticks, ∀ f ∈ t, ∃ p ∈ w.ipc.published,
    p.signed.payload = f.command.payload ∧ freshRestart f.now p.signed.time.trunc = true
  once : ∀ text, w.ticks.countP (fun t => ∃ f ∈ t, f.command.payload = text) ≤ 1
  held : ∀ i ∈ inboxes components, ∀ f, w.ipc.files (.restart i) = some f → ∀ text,
    h.Holds i f text → ¬w.Acted text

/-- The command that an inbox holds was published, and says when it was signed. -/
theorem Ipc.Sound.held {ipc : Ipc} (hw : ipc.Sound h) {i : Option Str} {file : File} {c : Command}
    (hf : ipc.files (.restart i) = some file) (hc : h.claimOf (.restart i) file = some c)
    (hgenuine : c.genuine h = true) : ∃ p ∈ ipc.published, p.signed.payload = c.payload ∧
      p.signed.time.trunc = c.ts := by
  obtain ⟨p, hp, hpayload⟩ := hw.unforged _ file hf c hc hgenuine
  have hformed := hw.formed p hp
  have htime := (payload_inj (nul_not_hex hformed.hex) (nul_not_reason hformed.reason) hpayload).2.1
  exact ⟨p, hp, hpayload, htime⟩

theorem payload_nonce {p q : Published} (hp : p.Formed h) (heq : p.signed.payload = q.signed.payload) :
    p.signed.nonce = q.signed.nonce :=
  (payload_inj (nul_not_hex hp.hex) (nul_not_reason hp.reason) heq).1

theorem not_acted {w : Watch} {text : Str} (h : ¬w.Acted text) :
    w.ticks.countP (fun t => ∃ f ∈ t, f.command.payload = text) = 0 := by
  rw [List.countP_eq_zero]
  intro t ht hmem
  exact h ⟨t, ht, of_decide_eq_true hmem⟩

theorem foldl_files {path : Path} {f : File} : ∀ {ps : List Published} {ipc : Ipc},
    (ps.foldl Ipc.publish ipc).files path = some f →
      ipc.files path = some f ∨ ∃ p ∈ ps, p.path = path ∧ p.file = f := by
  intro ps
  induction ps with
  | nil => exact fun hf => .inl hf
  | cons p ps ih =>
    intro ipc hf
    rcases ih hf with hold | ⟨q, hq, heq⟩
    · rw [Ipc.publish] at hold
      dsimp only at hold
      by_cases hpath : path = p.path
      · rw [hpath, Function.update_self] at hold
        exact .inr ⟨p, List.mem_cons_self, hpath.symm, Option.some.inj hold⟩
      · rw [Function.update_of_ne hpath] at hold
        exact .inl hold
    · exact .inr ⟨q, List.mem_cons_of_mem _ hq, heq⟩

theorem Watch.Sound.call {w : Watch} (hw : w.Sound h components) {c : Call}
    (hnonces : ((w.ipc.published ++ c.published h).map (·.signed.nonce)).Nodup)
    (hsigned : ∀ p ∈ c.published h, 0 ≤ p.signed.time.val) :
    (w.exec h components (.call c)).Sound h components := by
  have hpub : ((c.published h).foldl Ipc.publish w.ipc).published =
      w.ipc.published ++ c.published h := foldl_publish _ _
  have hipc : ((c.published h).foldl Ipc.publish w.ipc).Sound h :=
    hw.ipc.exec h components (a := .call c) trivial
  refine ⟨hipc, ?_, ?_, ?_, hw.once, ?_⟩
  · rw [Watch.exec]
    exact hpub ▸ hnonces
  · intro p hp
    rw [Watch.exec, hpub] at hp
    rcases List.mem_append.mp hp with hp | hp
    · exact hw.signed p hp
    · exact hsigned p hp
  · intro t ht f hf
    obtain ⟨p, hp, hpayload⟩ := hw.genuine t ht f hf
    exact ⟨p, by rw [Watch.exec, hpub]; exact List.mem_append_left _ hp, hpayload⟩
  · intro i hi f hf text hholds hacted
    rw [Watch.exec] at hf
    rcases foldl_files hf with hold | ⟨p, hp, hpath, rfl⟩
    · exact hw.held i hi f hold text hholds hacted
    -- a new command has a nonce of its own, and what was acted on was published before
    · obtain ⟨d, hd, -, rfl⟩ := hholds
      obtain ⟨t, ht, g, hg, htext⟩ := hacted
      obtain ⟨q, hq, hpayload, -⟩ := hw.genuine t ht g hg
      have hformed := published_formed h p hp
      have hsame : q.signed.payload = p.signed.payload :=
        hpayload.trans (htext.trans (hformed.claim d (hpath ▸ hd)))
      rw [List.map_append, List.nodup_append] at hnonces
      exact hnonces.2.2 _ (List.mem_map_of_mem hq) _ (List.mem_map_of_mem hp)
        (payload_nonce (hw.ipc.formed q hq) hsame)

theorem Watch.Sound.place {w : Watch} (hw : w.Sound h components) {path : Path}
    {file : Option File} (hposs : (Deed.place path file).Possible h w)
    (hfresh : (Deed.place path file).Fresh h components w) :
    (w.exec h components (.place path file)).Sound h components := by
  refine ⟨?_, hw.nonces, hw.signed, hw.genuine, hw.once, fun i hi f hf text hholds => ?_⟩
  · refine hw.ipc.exec h components (a := .place path file) ?_
    cases file with
    | none => trivial
    | some f => exact hposs
  · rw [Watch.exec] at hf
    dsimp only at hf
    by_cases hpath : .restart i = path
    · rw [← hpath, Function.update_self] at hf
      exact hfresh i hi hpath.symm f hf text hholds
    · rw [Function.update_of_ne hpath] at hf
      exact hw.held i hi f hf text hholds

theorem Watch.Sound.tick {w : Watch} (hw : w.Sound h components) {standdown : Bool}
    {stuck : Option Str → Bool} {clock : Option Str → Double}
    (hfresh : (Deed.tick standdown stuck clock).Fresh h components w) :
    (w.exec h components (.tick standdown stuck clock)).Sound h components := by
  have hleft : ∀ {path : Path} {f : File},
      (w.exec h components (.tick standdown stuck clock)).ipc.files path = some f →
      w.ipc.files path = some f ∧
        ∀ i ∈ inboxes components, path = .restart i → stuck i = true := by
    intro path f hf
    rw [Watch.exec] at hf
    dsimp only at hf
    split at hf
    · cases hf
    · rename_i hnone
      refine ⟨hf, fun i hi hpath => ?_⟩
      rw [← Bool.not_eq_false]
      exact fun hstuck => hnone ⟨i, hi, hstuck, hpath⟩
  have hticks : (w.exec h components (.tick standdown stuck clock)).ticks = w.ticks ∨
      (w.exec h components (.tick standdown stuck clock)).ticks =
        w.ticks ++ [w.forced h components stuck clock] := by
    rw [Watch.exec]
    cases standdown with
    | true => exact .inl rfl
    | false => exact .inr rfl
  have hipc : (w.exec h components (.tick standdown stuck clock)).ipc.Sound h :=
    ⟨hw.ipc.formed, fun path f hf => hw.ipc.unforged path f (hleft hf).1⟩
  rcases hticks with hsame | hnew
  · refine ⟨hipc, hw.nonces, hw.signed, hsame ▸ hw.genuine, hsame ▸ hw.once,
      fun i hi f hf text hholds hacted => hw.held i hi f (hleft hf).1 text hholds ?_⟩
    rwa [Watch.Acted, hsame] at hacted
  -- what this tick acts on was in an inbox, so no tick before it acted on it
  have hfirst : ∀ f ∈ w.forced h components stuck clock, ¬w.Acted f.command.payload := by
    intro f hf
    obtain ⟨i, hi, file, hfile, hholds, -⟩ := mem_forced hf
    exact hw.held i hi file hfile _ hholds
  refine ⟨hipc, hw.nonces, hw.signed, ?_, ?_, ?_⟩
  · rw [hnew]
    intro t ht f hf
    rcases List.mem_append.mp ht with ht | ht
    · exact hw.genuine t ht f hf
    · obtain rfl := List.mem_singleton.mp ht
      obtain ⟨i, -, file, hfile, -, hgenuine, hage, hclaim⟩ := mem_forced hf
      obtain ⟨p, hp, hpayload, htime⟩ := hw.ipc.held hfile hclaim hgenuine
      exact ⟨p, hp, hpayload, htime ▸ hage⟩
  · intro text
    rw [hnew, List.countP_append]
    by_cases hacts : ∃ f ∈ w.forced h components stuck clock, f.command.payload = text
    · obtain ⟨f, hf, rfl⟩ := hacts
      rw [not_acted (hfirst f hf), Nat.zero_add]
      exact List.countP_le_length
    · have hzero : [w.forced h components stuck clock].countP
          (fun t => ∃ f ∈ t, f.command.payload = text) = 0 := by
        rw [List.countP_eq_zero]
        intro t ht
        rw [List.mem_singleton.mp ht]
        exact fun hmem => hacts (of_decide_eq_true hmem)
      rw [hzero]
      exact hw.once text
  · rintro i hi f hf text hholds ⟨t, ht, g, hg, htext⟩
    obtain ⟨hold, hstuck⟩ := hleft hf
    rw [hnew] at ht
    rcases List.mem_append.mp ht with ht | ht
    · exact hw.held i hi f hold text hholds ⟨t, ht, g, hg, htext⟩
    · obtain rfl := List.mem_singleton.mp ht
      exact hfresh i hi (hstuck i hi rfl) f hold text hholds g hg htext

theorem watched_sound {deeds : List Deed} {w : Watch}
    (hrun : Run (Guarded (fun w a => a.Possible h w ∧ a.Fresh h components w)
      fun w a t => w.exec h components a = t) .start deeds w) : w.Sound h components := by
  refine hrun.invariant (fun w a t hw hstep => ?_) ⟨⟨?_, ?_⟩, List.nodup_nil, ?_, ?_, ?_, ?_⟩
  · obtain ⟨⟨hposs, hfresh⟩, rfl⟩ := hstep
    cases a with
    | call c => exact hw.call hposs hfresh
    | place path file => exact hw.place hposs hfresh
    | tick standdown stuck clock => exact hw.tick hfresh
  · exact fun _ hp => absurd hp List.not_mem_nil
  · exact fun _ _ hf => absurd hf (by simp [Watch.start, Ipc.start])
  · exact fun _ hp => absurd hp List.not_mem_nil
  · exact fun _ ht => absurd ht List.not_mem_nil
  · exact fun _ => Nat.zero_le _
  · exact fun _ _ _ hf => absurd hf (by simp [Watch.start, Ipc.start])

/-- CORRECT: in a history where no inbox receives a command that a tick acted on, every signed
    command restarts a component at most once, and at most 30 seconds after it was signed. -/
theorem restarts_once {deeds : List Deed} {w : Watch}
    (hrun : Run (Guarded (fun w a => a.Possible h w ∧ a.Fresh h components w)
      fun w a t => w.exec h components a = t) .start deeds w) : w.Prompt := by
  have hw := watched_sound hrun
  refine ⟨fun p hp n => ?_, fun t ht f hf p hp hpayload => ?_⟩
  · refine Nat.le_trans (List.countP_mono_left fun t _ hforces => ?_) (hw.once p.signed.payload)
    obtain ⟨f, hf, hpayload, -⟩ := of_decide_eq_true hforces
    exact decide_eq_true ⟨f, hf, hpayload⟩
  · obtain ⟨q, hq, hqayload, hage⟩ := hw.genuine t ht f hf
    have hp' := hw.ipc.formed p hp
    have htime := (payload_inj (nul_not_hex hp'.hex) (nul_not_reason hp'.reason)
      (hpayload.symm.trans hqayload.symm)).2.1
    exact_mod_cast fresh_age (hw.signed p hp) (htime ▸ hage)

/-! ### A command dropped again -/

def sampleCall : Call := .requestRestart ["core".toList] [sampleDraw]

/-- A tick of a supervisor of `core` in the second of the draw. -/
def sampleTick : Deed := .tick false (fun _ => false) fun _ => sampleTime

def requested : Watch := Watch.start.exec sampleHost ["core".toList] (.call sampleCall)

def restartedOnce : Watch := requested.exec sampleHost ["core".toList] sampleTick

theorem sampleCall_possible : (Deed.call sampleCall).Possible sampleHost .start := by
  rw [Deed.Possible]
  decide +kernel

/-- A requested restart of `core` is carried out once, in time. -/
theorem restarts_once_core :
    restartedOnce.Prompt ∧ restartedOnce.ticks.map (·.map (·.component)) = [["core".toList]] := by
  have hsigned : ∀ p ∈ sampleCall.published sampleHost, 0 ≤ p.signed.time.val := by decide +kernel
  refine ⟨@restarts_once sampleHost ["core".toList] ([] ++ [.call sampleCall] ++ [sampleTick]) _ ?_,
    by decide +kernel⟩
  refine Run.snoc (t := requested) (Run.snoc .nil ⟨⟨sampleCall_possible, hsigned⟩, ?_⟩) ⟨⟨?_, ?_⟩, ?_⟩
  · rw [requested]
  · exact trivial
  · exact fun _ _ hstuck => absurd hstuck (by simp)
  · rw [restartedOnce]

/-- The file that the tick deleted, as anybody could copy it before. -/
@[irreducible] def sampleCopy : Option File := (sampleCall.published sampleHost).head?.map (·.file)

def sampleDrop : Deed := .place (.restart (some "core".toList)) sampleCopy

def redropped : Watch := restartedOnce.exec sampleHost ["core".toList] sampleDrop

/-- The next tick finds the copy. -/
def restartedTwice : Watch := redropped.exec sampleHost ["core".toList] sampleTick

theorem exec_call_published (w : Watch) (c : Call) :
    (w.exec h components (.call c)).ipc.published = w.ipc.published ++ c.published h :=
  foldl_publish _ _

theorem exec_tick_published (w : Watch) (standdown : Bool) (stuck : Option Str → Bool)
    (clock : Option Str → Double) :
    (w.exec h components (.tick standdown stuck clock)).ipc.published = w.ipc.published := rfl

theorem sampleDrop_possible : sampleDrop.Possible sampleHost restartedOnce := by
  rw [sampleDrop]
  rcases hf : sampleCopy with _ | f
  · trivial
  · unfold sampleCopy at hf
    obtain ⟨p, hp, rfl⟩ := Option.map_eq_some_iff.mp hf
    have hmem := List.mem_of_mem_head? hp
    have hpath : ∀ q ∈ sampleCall.published sampleHost, q.path = .restart (some "core".toList) := by
      decide +kernel
    have hpub : p ∈ restartedOnce.ipc.published := by
      rw [restartedOnce, sampleTick, exec_tick_published, requested, exec_call_published]
      exact List.mem_append_right _ hmem
    intro c hc _
    exact ⟨p, hpub, ((published_formed sampleHost p hmem).claim c (hpath p hmem ▸ hc)).symm⟩

/-- The nonce of a restart command is not remembered: a copy restarts `core` again. -/
theorem restart_replayed :
    (∃ deeds, Watched sampleHost ["core".toList] deeds restartedTwice) ∧ ¬restartedTwice.Prompt := by
  constructor
  · have hcall : Watched sampleHost ["core".toList] ([] ++ [.call sampleCall]) requested :=
      Run.nil.snoc ⟨sampleCall_possible, by rw [requested]⟩
    have htick : Watched sampleHost ["core".toList] ([] ++ [.call sampleCall] ++ [sampleTick])
        restartedOnce := hcall.snoc ⟨trivial, by rw [restartedOnce]⟩
    have hdrop : Watched sampleHost ["core".toList]
        ([] ++ [.call sampleCall] ++ [sampleTick] ++ [sampleDrop]) redropped :=
      htick.snoc (And.intro sampleDrop_possible (by rw [redropped]))
    exact ⟨_, hdrop.snoc (a := sampleTick) ⟨trivial, by rw [restartedTwice]⟩⟩
  · intro hprompt
    have htwice : ∃ p ∈ restartedTwice.ipc.published,
        2 ≤ restartedTwice.ticks.countP (Forces · p "core".toList) := by decide +kernel
    obtain ⟨p, hp, htwice⟩ := htwice
    exact absurd (htwice.trans (hprompt.once p hp _)) (by decide)

end Angerona.Shutdown
