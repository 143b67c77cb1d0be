import Mathlib.Data.Nat.Notation
import Mathlib.Logic.Function.Basic

/-!
    Connections to one SQLite database in WAL mode, as Python's `sqlite3` drives them.

    A connection is in autocommit mode until its first write statement, before which the module
    sends a deferred `BEGIN`; the transaction stays open until a `COMMIT`, also when the statement
    fails. A `SELECT` inside a deferred transaction fixes its snapshot. A write statement needs the
    one write lock and, in a transaction with a snapshot, that nobody has committed since.

    `β` is the content of the database; a statement is a function on it that gives the number of
    rows it changed, or fails without a change. -/

namespace Wal

variable {ι β ε : Type} [DecidableEq ι]

/-- The connection with the write lock, and what it has not committed yet. -/
structure Writer (ι β : Type) where
  conn : ι
  content : β
  /-- Some statement of the transaction changed a row. -/
  dirty : Bool

structure Database (ι β : Type) where
  committed : β
  /-- The number of commits with changes. -/
  commits : ℕ
  writer : Option (Writer ι β)
  /-- The deferred transactions, with the snapshot they have read and its number. -/
  deferred : ι → Option (Option (β × ℕ))

inductive WriteError (ε : Type) where
  | locked
  | failed (e : ε)
  deriving DecidableEq

namespace Database

def start (content : β) : Database ι β := ⟨content, 0, none, fun _ => none⟩

variable (d : Database ι β) (c : ι)

/-- `connection.in_transaction`. -/
def inTransaction : Bool := (d.deferred c).isSome || d.writer.any (·.conn = c)

/-- The content that a `SELECT` reads. -/
def view : β :=
  match d.writer.filter (·.conn = c), d.deferred c with
  | some w, _ => w.content
  | none, some (some (s, _)) => s
  | none, _ => d.committed

/-- The database after a `SELECT`. -/
def select : Database ι β :=
  match d.deferred c with
  | some none =>
    { d with deferred := Function.update d.deferred c (some (some (d.committed, d.commits))) }
  | _ => d

/-- The content that the first write statement of a transaction works on; `none` when another
    connection has the lock or the snapshot is old. -/
def acquired : Option (Writer ι β) :=
  match d.writer, d.deferred c with
  | some w, _ => if w.conn = c then some w else none
  | none, some (some (_, k)) => if k = d.commits then some ⟨c, d.committed, false⟩ else none
  | none, _ => some ⟨c, d.committed, false⟩

/-- `BEGIN`, when there is no transaction, and a write statement. -/
def write (f : β → Except ε (β × ℕ)) : Except (WriteError ε) ℕ × Database ι β :=
  match d.acquired c with
  | none =>
    (.error .locked, { d with
      deferred := Function.update d.deferred c (some ((d.deferred c).getD none)) })
  | some w =>
    let deferred := Function.update d.deferred c none
    match f w.content with
    | .ok (content, n) =>
      (.ok n, { d with writer := some ⟨c, content, w.dirty || n ≠ 0⟩, deferred := deferred })
    | .error e => (.error (.failed e), { d with writer := some w, deferred := deferred })

/-- `commit()`. -/
def commit : Database ι β :=
  match d.writer.filter (·.conn = c) with
  | some w =>
    { d with
      committed := w.content
      commits := if w.dirty then d.commits + 1 else d.commits
      writer := none }
  | none => { d with deferred := Function.update d.deferred c none }

/-! ### Lemmas -/

/-- No transaction is open on any connection but perhaps that of the writer. -/
def Quiet : Prop := ∀ c, d.deferred c = none

variable {d c}

theorem Quiet.view (h : d.Quiet) (hw : ∀ w, d.writer = some w → w.conn ≠ c) :
    d.view c = d.committed := by
  have hfilter : d.writer.filter (fun w => w.conn = c) = none :=
    Option.filter_eq_none_iff.mpr fun w hv => by simpa using hw w hv
  rw [Database.view, hfilter, h c]

theorem Quiet.select (h : d.Quiet) : d.select c = d := by
  rw [Database.select, h c]

theorem Quiet.inTransaction (h : d.Quiet) : d.inTransaction c = d.writer.any (·.conn = c) := by
  rw [Database.inTransaction, h c]
  rfl

theorem Quiet.update (h : d.Quiet) : Function.update d.deferred c none = d.deferred := by
  rw [← h c, Function.update_eq_self]

/-- The first write statement of a connection while nobody else has the lock. -/
theorem Quiet.write_first (h : d.Quiet) (hw : d.writer = none) {f : β → Except ε (β × ℕ)}
    {content : β} {n : ℕ} (hf : f d.committed = .ok (content, n)) :
    d.write c f = (.ok n, { d with writer := some ⟨c, content, decide (n ≠ 0)⟩ }) := by
  have hacquired : d.acquired c = some ⟨c, d.committed, false⟩ := by
    rw [acquired, hw, h c]
  rw [write, hacquired]
  simp only [hf, h.update, Bool.false_or]

/-- A further write statement of the writer. -/
theorem Quiet.write_next (h : d.Quiet) {w : Writer ι β} (hw : d.writer = some w)
    {f : β → Except ε (β × ℕ)} {content : β} {n : ℕ} (hf : f w.content = .ok (content, n)) :
    d.write w.conn f =
      (.ok n, { d with writer := some ⟨w.conn, content, w.dirty || n ≠ 0⟩ }) := by
  have hacquired : d.acquired w.conn = some w := by
    rw [acquired, hw]
    exact if_pos rfl
  rw [write, hacquired]
  simp only [hf, h.update]

theorem commit_writer {w : Writer ι β} (hw : d.writer = some w) :
    d.commit w.conn = { d with
      committed := w.content
      commits := if w.dirty then d.commits + 1 else d.commits
      writer := none } := by
  have hown : (some w).filter (fun v => v.conn = w.conn) = some w :=
    Option.filter_some_pos (decide_eq_true rfl)
  rw [commit, hw, hown]

end Database
end Wal
