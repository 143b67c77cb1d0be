import Mathlib
import Angerona.Cadence.Detector

/-!
    How often one connection is counted.

    A connection that is in the last complete table is not counted again while it stays open. One that
    is first seen in an incomplete table is counted there, and once more in the next table, whatever
    that one is: the incomplete table is not remembered. -/

namespace Angerona.Cadence
open Text

variable {T C : Type} [LinearOrder T] {H : Host T C} {d : Detector T C} {s : Snapshot T}

/-! ### One callback -/

section Connection

variable (pid : ℕ) (created : T) (ip : Str)

/-- A key of a process generation and an address. -/
def Key.mine (key : Key T) : Bool := key.pid = pid ∧ key.created = created ∧ key.ip = ip

/-- A connection of a process generation to an address is in a table. -/
def Snapshot.Shows (H : Host T C) (s : Snapshot T) : Prop :=
  (pid, ip) ∈ H.current s ∧ (s.identity pid).map Prod.fst = some created

/-- The callbacks that were counted for a connection. -/
def Detector.calls (d : Detector T C) : ℕ := d.recorded.countP (Key.mine pid created ip)

variable {pid created ip}

theorem mem_fresh : (pid, ip) ∈ d.fresh H s ↔ (pid, ip) ∈ H.current s ∧ (pid, ip) ∉ d.seenLast := by
  rw [Detector.fresh, (s.walks _).mem_iff, List.mem_filter]
  simp

/-- Every table of some polls shows the connection. -/
def Stays (H : Host T C) (pid : ℕ) (created : T) (ip : Str) (polls : List (Poll T)) : Prop :=
  ∀ s, .table s ∈ polls → s.Shows pid created ip H

end Connection

/-! ### The last complete table -/

/-- The table of a poll, if it is complete. -/
def Poll.whole : Poll T → Option (Snapshot T)
  | .unread _ => none
  | .table s => if s.complete then some s else none

end Angerona.Cadence
