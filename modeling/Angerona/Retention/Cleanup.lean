import Mathlib
import Angerona.Lib.BoundedHeap
import Angerona.Lib.Text

/-!
    The resumable cleanup of alert archives, `cleanup_alert_archives` of `core/alert_retention.py`.

    A scan of the directory takes several calls. Each call reads a bounded number of entries, keeps the
    oldest archives it may delete in a bounded heap, and then deletes from the heap. The directory
    changes by these calls only, and every open, stat and delete succeeds; a link under a managed name
    is refused. -/

namespace Angerona.Retention
open Text BoundedHeap

/-- A directory entry; `plain` is what `_plain` says of its metadata. -/
structure File (T : Type) where
  name : Str
  size : ℕ
  stamp : T
  plain : Bool
  deriving DecidableEq

def activeName : Str := "runtime_alerts.log".toList

def maxEntries : ℕ := 1024

def maxDeletions : ℕ := 64

/-- `_ARCHIVE.fullmatch(name)`. -/
def isArchive (name : Str) : Bool :=
  match splitOn ".".toList name with
  | [first, digits, identifier, last] =>
    first = "runtime_alerts".toList && 1 ≤ digits.length && digits.length ≤ 20 &&
      digits.all (fun c => '0' ≤ c ∧ c ≤ '9') && isHex 32 identifier && last = "log".toList
  | _ => false

def keepSuffix : Str := ".keep".toList

variable {T : Type} [LinearOrder T]

/-- `directory.exists(name + ".keep")`. -/
def pinned (files : List (File T)) (f : File T) : Bool :=
  files.any fun g => g.name = f.name ++ keepSuffix

/-- The order of the items `(-stamp, name, identity)`, oldest first; no two of them have one name. -/
def Older (a b : File T) : Prop := a.stamp < b.stamp ∨ (a.stamp = b.stamp ∧ b.name ≤ a.name)

instance : DecidableRel (Older (T := T)) := fun _ _ => inferInstanceAs (Decidable (_ ∨ _))

structure Totals where
  managedBytes : ℕ
  pinnedFiles : ℕ
  unsafeFiles : ℕ
  archives : ℕ
  deriving DecidableEq

/-- `RetentionScanCursor`; `iterator` has the entries that are not read yet. -/
structure Cursor (T : Type) where
  iterator : Option (List (File T))
  heap : Heap (File T)
  totals : Totals

def Cursor.new : Cursor T := ⟨none, ⟨[], false⟩, ⟨0, 0, 0, 0⟩⟩

/-- `close`. -/
def Cursor.close (cursor : Cursor T) : Cursor T := { cursor with iterator := none }

/-- `prepare`, of a directory that is the same one at every call. -/
def Cursor.prepare (cursor : Cursor T) (entries : List (File T)) : Cursor T :=
  match cursor.iterator with
  | none => ⟨some entries, ⟨[], false⟩, ⟨0, 0, 0, 0⟩⟩
  | some _ => cursor

/-- One entry is read. -/
def Cursor.inventory (files : List (File T)) (cursor : Cursor T) (f : File T) : Cursor T :=
  if f.name ≠ activeName ∧ !isArchive f.name then cursor
  else if !f.plain then
    { cursor with totals := { cursor.totals with unsafeFiles := cursor.totals.unsafeFiles + 1 } }
  else
    let totals := { cursor.totals with managedBytes := cursor.totals.managedBytes + f.size }
    if f.name = activeName then { cursor with totals := totals }
    else
      let totals := { totals with archives := totals.archives + 1 }
      if pinned files f then
        { cursor with totals := { totals with pinnedFiles := totals.pinnedFiles + 1 } }
      else { cursor with totals := totals, heap := push Older maxDeletions cursor.heap f }

/-- `RetentionPolicy`, with what its checks admit. -/
structure Policy where
  enabled : Bool
  days : ℕ
  maxMib : ℕ
  days_bounds : 1 ≤ days ∧ days ≤ 3650
  maxMib_bounds : 8 ≤ maxMib ∧ maxMib ≤ 16384

def Policy.limit (policy : Policy) : ℕ := policy.maxMib * 1024 * 1024

/-- What deleting leaves: what is gone, what stays in the heap, the bytes, and whether it broke off. -/
structure Pruned (T : Type) where
  deleted : List (File T)
  left : List (File T)
  managedBytes : ℕ
  stopped : Bool

/-- The loop over the candidates, oldest first; `count` archives are deleted already. -/
def prune (cutoff : T) (exhausted : Bool) (limit : ℕ) : List (File T) → ℕ → ℕ → Pruned T
  | [], managed, _ => ⟨[], [], managed, false⟩
  | c :: cs, managed, count =>
    if cutoff ≤ c.stamp ∧ (exhausted = false ∨ managed ≤ limit) then
      let rest := prune cutoff exhausted limit cs managed count
      { rest with left := c :: rest.left }
    else if maxDeletions ≤ count then ⟨[], c :: cs, managed, true⟩
    else
      let rest := prune cutoff exhausted limit cs (managed - c.size) (count + 1)
      { rest with deleted := c :: rest.deleted }

inductive Status where
  | disabled
  | clean
  | quotaPressure
  | incomplete
  deriving DecidableEq

/-- The report; `exhausted` and `deleted` are not in it but its parts come from them. -/
structure Report (T : Type) where
  status : Status
  totals : Totals
  deletedFiles : ℕ
  deletedBytes : ℕ
  incomplete : Bool
  quotaPressure : Bool
  exhausted : Bool
  deleted : List (File T)

/-- A call; `order` is the order in which the directory is listed. -/
structure Call (T : Type) where
  policy : Policy
  now : T
  order : List (File T) → List (File T)
  lists : ∀ files, (order files).Perm files

/-- The directory and the cursor; `touched` says whether the scan deleted anything so far, and the
    program does not keep it. -/
structure World (T : Type) where
  files : List (File T)
  cursor : Cursor T
  touched : Bool

def World.new (files : List (File T)) : World T := ⟨files, Cursor.new, false⟩

/-- The cursor at the start of a call. -/
def World.prepared (w : World T) (call : Call T) : Cursor T := w.cursor.prepare (call.order w.files)

/-- The entries that are still to be read. -/
def Cursor.entries (cursor : Cursor T) : List (File T) := cursor.iterator.getD []

section Cleanup

-- `now - days * 86400`
variable (cutoff : T → ℕ → T)

/-- The cursor after the entries of a call are read. -/
def World.read (w : World T) (call : Call T) : Cursor T :=
  ((w.prepared call).entries.take maxEntries).foldl (Cursor.inventory w.files) (w.prepared call)

/-- The iterator ended. -/
def World.exhausted (w : World T) (call : Call T) : Bool :=
  decide ((w.prepared call).entries.length < maxEntries)

/-- What the call deletes. -/
def World.pruned (w : World T) (call : Call T) : Pruned T :=
  prune (cutoff call.now call.policy.days) (w.exhausted call) call.policy.limit
    (w.read call).heap.kept (w.read call).totals.managedBytes 0

/-- The scan has deleted something before a call. -/
def World.wasTouched (w : World T) : Bool := w.cursor.iterator.isSome && w.touched

/-- `cleanup_alert_archives`. -/
def cleanup (w : World T) (call : Call T) : World T × Report T :=
  if !call.policy.enabled then
    ({ w with cursor := w.cursor.close }, ⟨.disabled, ⟨0, 0, 0, 0⟩, 0, 0, false, false, false, []⟩)
  else
    let read := w.read call
    let exhausted := w.exhausted call
    let p := w.pruned cutoff call
    let totals : Totals :=
      { read.totals with
        managedBytes := p.managedBytes, archives := read.totals.archives - p.deleted.length }
    let incomplete := !exhausted || p.stopped ||
      (read.heap.omitted && decide (maxDeletions ≤ p.deleted.length))
    let pressure := decide (call.policy.limit < p.managedBytes)
    let status : Status :=
      if pressure then .quotaPressure
      else if incomplete || decide (0 < totals.unsafeFiles) then .incomplete
      else .clean
    ({ files := w.files.filter fun f => p.deleted.all fun d => d.name ≠ f.name
       cursor :=
        { iterator := if exhausted then none else some ((w.prepared call).entries.drop maxEntries)
          heap := ⟨p.left, read.heap.omitted⟩
          totals := totals }
       touched := w.wasTouched || !p.deleted.isEmpty },
      { status := status, totals := totals, deletedFiles := p.deleted.length
        deletedBytes := (p.deleted.map File.size).sum, incomplete := incomplete
        quotaPressure := pressure, exhausted := exhausted, deleted := p.deleted })

/-- A sequence of calls that share a cursor. -/
def run (files : List (File T)) (calls : List (Call T)) : World T :=
  calls.foldl (fun w call => (cleanup cutoff w call).1) (World.new files)

end Cleanup

end Angerona.Retention
