import OfficeConnect.Core.Audit
import OfficeConnect.Lib.Journal

/-!
# Writers of the audit chain

Transactions that flush audited changes and append events, interleaved anyhow.  A write takes the
advisory lock, reads the last row it can see, hashes its rows in memory and inserts them one by one;
the lock is kept until the transaction commits or rolls back, at whatever point that is.  The
committed rows are then a valid chain in the order of their ids, and they are the rows of the writes
that committed.
-/

namespace OfficeConnect.Audit

open Lib

/-! ## The machine -/

/-- Where a transaction is in a write: outside one, waiting for the lock, about to read the last
row, or with hashed rows still to insert. -/
inductive Phase (V H : Type) where
  | idle
  | waiting (pending : List (Payload V))
  | locked (pending : List (Payload V))
  | inserting (rows : List (AuditLog V H))

/-- A transaction and the rows it has inserted and not committed. -/
structure Tx (V H : Type) where
  phase : Phase V H := .idle
  rows : List (AuditLog V H) := []

/-- The table in commit order, the id sequence, the holder of the lock and the transactions. -/
structure Db (V H : Type) where
  committed : List (AuditLog V H) := []
  nextId : ℕ := 1
  lock : Option ℕ := none
  tx : ℕ → Tx V H := fun _ => {}

inductive Move (V : Type) where
  | flush (f : Flush V)
  | appendAuthEvent (e : AuthEvent V)
  | takeLock
  | readTail
  | insertRow
  | commit
  | rollback

variable {V H : Type} {t u : ℕ} {s : Db V H}

namespace Db

def setTx (s : Db V H) (t : ℕ) (x : Tx V H) : Db V H := { s with tx := Function.update s.tx t x }

/-- What the transaction reads: the committed rows and its own. -/
def visible (s : Db V H) (t : ℕ) : List (AuditLog V H) := s.committed ++ (s.tx t).rows

/-- The end of a transaction, with the rows it leaves in the table. -/
def close (s : Db V H) (t : ℕ) (rows : List (AuditLog V H)) : Db V H :=
  { s.setTx t {} with
    committed := s.committed ++ rows
    lock := if s.lock = some t then none else s.lock }

end Db

/-- `ORDER BY id DESC LIMIT 1`, or the genesis hash. -/
def lastHash (k : Hashing V H) (rows : List (AuditLog V H)) : H :=
  ((rows.argmax (·.id)).map (·.rowHash)).getD k.genesisHash

/-- Start a write, unless there is nothing to write. -/
def begin (s : Db V H) (t : ℕ) (pending : List (Payload V)) : Db V H :=
  match (s.tx t).phase with
  | .idle => if pending = [] then s else s.setTx t { s.tx t with phase := .waiting pending }
  | _ => s

/-- One move of one transaction; a move it cannot make does nothing. -/
def step (k : Hashing V H) (redacted : V) (s : Db V H) (m : ℕ × Move V) : Db V H :=
  let t := m.1
  match m.2, (s.tx t).phase with
  | .flush f, _ => begin s t (pendingAudit redacted f)
  | .appendAuthEvent e, _ => begin s t (pendingEvent e)
  | .takeLock, .waiting pending =>
      if s.lock = none ∨ s.lock = some t then
        { s.setTx t { s.tx t with phase := .locked pending } with lock := some t }
      else s
  | .readTail, .locked pending =>
      s.setTx t { s.tx t with
        phase := .inserting (chainRows k (lastHash k (s.visible t)) pending) }
  | .insertRow, .inserting (row :: rows) =>
      { s.setTx t
          { phase := if rows = [] then .idle else .inserting rows
            rows := (s.tx t).rows ++ [{ row with id := s.nextId }] } with
        nextId := s.nextId + 1 }
  | .commit, .idle => s.close t (s.tx t).rows
  | .rollback, _ => s.close t []
  | _, _ => s

def schedule (k : Hashing V H) (redacted : V) (s : Db V H) (moves : List (ℕ × Move V)) : Db V H :=
  moves.foldl (step k redacted) s

/-- The table in id order. -/
def idOrder (rows : List (AuditLog V H)) : List (AuditLog V H) :=
  rows.insertionSort fun a b => a.id ≤ b.id

/-! ## The invariant -/

variable {k : Hashing V H} {redacted : V} {rows : List (AuditLog V H)} {n : ℕ}

/-- Rows that verify, with growing ids below the sequence. -/
structure Sound (k : Hashing V H) (n : ℕ) (rows : List (AuditLog V H)) : Prop where
  valid : k.chain.Valid k.genesisHash rows
  ordered : rows.Pairwise (·.id < ·.id)
  bounded : ∀ row ∈ rows, row.id < n

theorem Sound.left {rows' : List (AuditLog V H)} (h : Sound k n (rows ++ rows')) :
    Sound k n rows where
  valid := (HashChain.valid_append.1 h.valid).1
  ordered := (List.pairwise_append.1 h.ordered).1
  bounded row hrow := h.bounded row (List.mem_append_left _ hrow)

theorem Sound.mono {n' : ℕ} (h : Sound k n rows) (hn : n ≤ n') : Sound k n' rows :=
  { h with bounded := fun row hrow => (h.bounded row hrow).trans_le hn }

/-- A row that follows is inserted under the next id. -/
theorem Sound.concat {row : AuditLog V H} (h : Sound k n rows)
    (hrow : k.chain.Extends (k.chain.tip k.genesisHash rows) row) :
    Sound k (n + 1) (rows ++ [{ row with id := n }]) where
  valid := HashChain.valid_append.2 ⟨h.valid, HashChain.valid_singleton.2 hrow⟩
  ordered := by
    refine List.pairwise_append.2 ⟨h.ordered, List.pairwise_singleton .., ?_⟩
    intro old hold new hnew
    rw [List.mem_singleton.1 hnew]
    exact h.bounded old hold
  bounded := by
    intro old hold
    rcases List.mem_append.1 hold with hold | hnew
    · exact (h.bounded old hold).trans (Nat.lt_succ_self n)
    · rw [List.mem_singleton.1 hnew]
      exact Nat.lt_succ_self n

/-- The row with the greatest id is the last. -/
theorem Sound.lastHash_eq (h : Sound k n rows) :
    lastHash k rows = k.chain.tip k.genesisHash rows := by
  cases rows using List.reverseRecOn with
  | nil => rfl
  | append_singleton rows row =>
      have hbefore : ∀ old ∈ rows, old.id < row.id := fun old hold =>
        (List.pairwise_append.1 h.ordered).2.2 old hold row (List.mem_singleton_self _)
      have hmax : (rows ++ [row]).argmax (·.id) = some row := by
        rw [List.argmax_concat]
        cases hold : rows.argmax (·.id) with
        | none => rfl
        | some old => exact if_pos (hbefore old (List.argmax_mem hold))
      rw [lastHash, hmax, HashChain.tip_concat]
      rfl

theorem Sound.idOrder_eq (h : Sound k n rows) : idOrder rows = rows :=
  (h.ordered.imp fun hlt => hlt.le).insertionSort_eq

/-- Outside the lock. -/
def Phase.Outside : Phase V H → Prop
  | .idle | .waiting _ => True
  | .locked _ | .inserting _ => False

/-- What one transaction knows: without the lock it has written nothing, what it sees is sound, and
the rows it is about to insert follow. -/
structure Sits (k : Hashing V H) (s : Db V H) (t : ℕ) : Prop where
  alone : s.lock ≠ some t → (s.tx t).rows = [] ∧ (s.tx t).phase.Outside
  sound : Sound k s.nextId (s.visible t)
  follows : ∀ rows, (s.tx t).phase = .inserting rows →
    k.chain.Valid (k.chain.tip k.genesisHash (s.visible t)) rows

def Chained (k : Hashing V H) (s : Db V H) : Prop := ∀ t, Sits k s t

/-- A transaction that another's move leaves as it was. -/
theorem Sits.frame {s' : Db V H} (h : Sits k s u) (htx : s'.tx u = s.tx u)
    (hcommitted : s'.committed = s.committed) (hnext : s.nextId ≤ s'.nextId)
    (hlock : s'.lock ≠ some u → s.lock ≠ some u) : Sits k s' u := by
  have hvisible : s'.visible u = s.visible u := by rw [Db.visible, htx, hcommitted, Db.visible]
  constructor
  · rw [htx]
    exact fun hne => h.alone (hlock hne)
  · rw [hvisible]
    exact h.sound.mono hnext
  · rw [hvisible, htx]
    exact h.follows

/-- A transaction that has written nothing and sees sound rows. -/
theorem sits_outside (hsound : Sound k s.nextId s.committed) (hrows : (s.tx t).rows = [])
    (hphase : (s.tx t).phase.Outside) : Sits k s t where
  alone _ := ⟨hrows, hphase⟩
  sound := by rwa [Db.visible, hrows, List.append_nil]
  follows rows hins := by
    rw [hins] at hphase
    exact hphase.elim

theorem chained_start (n : ℕ) : Chained k ({ nextId := n } : Db V H) := fun _ =>
  sits_outside ⟨trivial, .nil, fun _ hrow => absurd hrow List.not_mem_nil⟩ rfl trivial

/-- Only the holder of the lock is inside a write. -/
theorem Chained.holds (h : Chained k s) (hinside : ¬ (s.tx t).phase.Outside) : s.lock = some t := by
  by_contra hlock
  exact hinside ((h t).alone hlock).2

/-! ## One move -/

@[simp] theorem Db.tx_setTx_self (s : Db V H) (t : ℕ) (x : Tx V H) : (s.setTx t x).tx t = x :=
  Function.update_self ..

theorem Db.tx_setTx_of_ne (s : Db V H) (x : Tx V H) (h : u ≠ t) : (s.setTx t x).tx u = s.tx u :=
  Function.update_of_ne h ..

/-- A transaction moves to another phase. -/
theorem Chained.enter (h : Chained k s) {p : Phase V H} (hheld : s.lock ≠ some t → p.Outside)
    (hfollows : ∀ rows, p = .inserting rows →
      k.chain.Valid (k.chain.tip k.genesisHash (s.visible t)) rows) :
    Chained k (s.setTx t { s.tx t with phase := p }) := by
  intro u
  by_cases hu : u = t
  · subst hu
    have hvisible : (s.setTx u { s.tx u with phase := p }).visible u = s.visible u := by
      simp [Db.visible, Db.setTx]
    refine ⟨fun hne => ?_, ?_, ?_⟩
    · rw [Db.tx_setTx_self]
      exact ⟨((h u).alone hne).1, hheld hne⟩
    · rw [hvisible]
      exact (h u).sound
    · rw [hvisible, Db.tx_setTx_self]
      exact hfollows
  · exact (h u).frame (s.tx_setTx_of_ne _ hu) rfl le_rfl id

theorem Chained.begin (h : Chained k s) (pending : List (Payload V)) :
    Chained k (begin s t pending) := by
  unfold Audit.begin
  split
  · split_ifs
    · exact h
    · exact h.enter (fun _ => trivial) fun rows hins => nomatch hins
  · exact h

/-- A transaction takes the free lock, or has it. -/
theorem Chained.takeLock (h : Chained k s) (hfree : s.lock = none ∨ s.lock = some t)
    (pending : List (Payload V)) :
    Chained k { s.setTx t { s.tx t with phase := .locked pending } with lock := some t } := by
  have hlocked : Chained k { s with lock := some t } := by
    intro u
    refine (h u).frame rfl rfl le_rfl fun hne hheld => ?_
    rcases hfree with hnone | hmine
    · exact nomatch hnone.symm.trans hheld
    · exact hne (hmine.symm.trans hheld)
  exact hlocked.enter (fun hne => absurd rfl hne) fun rows hins => nomatch hins

theorem Chained.insertRow (h : Chained k s) {row : AuditLog V H}
    (hphase : (s.tx t).phase = .inserting (row :: rows)) :
    Chained k { s.setTx t
        { phase := if rows = [] then .idle else .inserting rows
          rows := (s.tx t).rows ++ [{ row with id := s.nextId }] } with
      nextId := s.nextId + 1 } := by
  have hheld : s.lock = some t := h.holds (by rw [hphase]; exact id)
  obtain ⟨hrow, hrest⟩ := (h t).follows _ hphase
  intro u
  by_cases hu : u = t
  · subst hu
    refine ⟨fun hne => absurd hheld hne, ?_, ?_⟩
    · simp only [Db.visible, Db.tx_setTx_self, ← List.append_assoc]
      exact (h u).sound.concat hrow
    · simp only [Db.visible, Db.tx_setTx_self, ← List.append_assoc, HashChain.tip_concat]
      intro rest hrestPhase
      split_ifs at hrestPhase
      · rw [← Phase.inserting.inj hrestPhase]
        exact hrest
  · exact (h u).frame (s.tx_setTx_of_ne _ hu) rfl (Nat.le_succ _) id

theorem Chained.close (h : Chained k s) (hrows : rows = [] ∨ rows = (s.tx t).rows) :
    Chained k (s.close t rows) := by
  have hsound : Sound k s.nextId (s.committed ++ rows) := by
    rcases hrows with rfl | rfl
    · rw [List.append_nil]
      exact (h t).sound.left
    · exact (h t).sound
  intro u
  by_cases hu : u = t
  · subst hu
    refine sits_outside hsound ?_ ?_
    · simp [Db.close]
    · simp [Db.close, Phase.Outside]
  have htx : (s.close t rows).tx u = s.tx u := s.tx_setTx_of_ne _ hu
  by_cases hheld : s.lock = some t
  · -- The closing transaction held the lock, so `u` has written nothing.
    have halone := (h u).alone (by simpa [hheld] using fun heq => hu heq.symm)
    exact sits_outside hsound (htx ▸ halone.1) (htx ▸ halone.2)
  · have hnothing : rows = [] := hrows.elim id fun hown => hown.trans ((h t).alone hheld).1
    refine (h u).frame htx ?_ le_rfl ?_
    · simp [Db.close, Db.setTx, hnothing]
    · simp [Db.close, hheld]

theorem Chained.step (h : Chained k s) (m : ℕ × Move V) : Chained k (step k redacted s m) := by
  obtain ⟨t, m⟩ := m
  unfold Audit.step
  simp only
  split
  · exact h.begin _
  · exact h.begin _
  · split_ifs with hfree
    · exact h.takeLock hfree _
    · exact h
  · rename_i pending hphase
    have hheld : s.lock = some t := h.holds (by rw [hphase]; exact id)
    refine h.enter (fun hne => absurd hheld hne) fun rows hins => ?_
    rw [← Phase.inserting.inj hins, (h t).sound.lastHash_eq]
    exact chainRows_valid ..
  · exact h.insertRow ‹_›
  · exact h.close (.inr rfl)
  · exact h.close (.inl rfl)
  · exact h

theorem Chained.schedule (h : Chained k s) (moves : List (ℕ × Move V)) :
    Chained k (schedule k redacted s moves) := by
  induction moves generalizing s with
  | nil => exact h
  | cons m moves ih => exact ih (h.step m)

/-! ## The writes that commit -/

/-- What a move enters in the journal: the rows a write is asked for, or the end of its
transaction. -/
def entry (redacted : V) (s : Db V H) (m : ℕ × Move V) : Journal.Entry (Payload V) :=
  match m.2, (s.tx m.1).phase with
  | .flush f, .idle => .does m.1 (pendingAudit redacted f)
  | .appendAuthEvent e, .idle => .does m.1 (pendingEvent e)
  | .commit, .idle => .keeps m.1
  | .rollback, _ => .drops m.1
  | _, _ => .nothing

/-- The rows asked for by transactions that commit. -/
def written (k : Hashing V H) (redacted : V) (s : Db V H) (moves : List (ℕ × Move V)) :
    List (Payload V) :=
  (Journal.along (step k redacted) (entry redacted) s {} moves).kept

/-- The rows a write has still to insert. -/
def Phase.pending : Phase V H → List (Payload V)
  | .idle => []
  | .waiting pending => pending
  | .locked pending => pending
  | .inserting rows => rows.map buildPayload

def Tx.asked (x : Tx V H) : List (Payload V) := x.rows.map buildPayload ++ x.phase.pending

def Db.journal (s : Db V H) : Journal (Payload V) where
  opened t := (s.tx t).asked
  kept := s.committed.map buildPayload

theorem pending_inserted (rows : List (AuditLog V H)) :
    (if rows = [] then Phase.idle else .inserting rows).pending = rows.map buildPayload := by
  split_ifs with hlast
  · rw [hlast]
    rfl
  · rfl

theorem map_chainRows (k : Hashing V H) (prev : H) (ps : List (Payload V)) :
    (chainRows k prev ps).map buildPayload = ps := by
  induction ps generalizing prev with
  | nil => rfl
  | cons p ps ih =>
      rw [chainRows, List.map_cons, ih]
      rfl

theorem Db.journal_setTx (s : Db V H) (t : ℕ) (x : Tx V H) : (s.setTx t x).journal =
    { s.journal with opened := Function.update s.journal.opened t x.asked } := by
  apply Journal.ext
  · exact Function.comp_update Tx.asked s.tx t x
  · rfl

/-- A transaction that a move leaves with as much to write. -/
theorem Db.journal_same (s : Db V H) (t : ℕ) {x : Tx V H} (hx : x.asked = (s.tx t).asked) :
    (s.setTx t x).journal = s.journal := by
  have hsame : x.asked = s.journal.opened t := hx
  rw [Db.journal_setTx, hsame, Function.update_eq_self]

theorem Tx.asked_of_idle {x : Tx V H} (h : x.phase = .idle) : x.asked = x.rows.map buildPayload := by
  rw [Tx.asked, h]
  exact List.append_nil _

theorem Db.journal_close (s : Db V H) (t : ℕ) (rows : List (AuditLog V H)) :
    (s.close t rows).journal =
      { opened := Function.update s.journal.opened t []
        kept := s.journal.kept ++ rows.map buildPayload } := by
  have hopened := congrArg Journal.opened (s.journal_setTx t {})
  exact Journal.ext hopened List.map_append

theorem Db.journal_begin (s : Db V H) (t : ℕ) (pending : List (Payload V))
    (hidle : (s.tx t).phase = .idle) :
    (begin s t pending).journal = s.journal.enter (.does t pending) := by
  unfold begin
  rw [hidle]
  dsimp only
  split_ifs with hnone
  · subst hnone
    apply Journal.ext
    · simp [Journal.enter]
    · rfl
  · have hnew : ({ s.tx t with phase := .waiting pending } : Tx V H).asked =
        s.journal.opened t ++ pending := by
      show (s.tx t).rows.map buildPayload ++ pending = (s.tx t).asked ++ pending
      rw [Tx.asked_of_idle hidle]
    rw [Db.journal_setTx, hnew]
    rfl

theorem journal_step (s : Db V H) (m : ℕ × Move V) :
    (step k redacted s m).journal = s.journal.enter (entry redacted s m) := by
  obtain ⟨t, m⟩ := m
  unfold step entry
  dsimp only
  cases m with
  | flush f =>
      cases hphase : (s.tx t).phase with
      | idle => exact s.journal_begin t _ hphase
      | _ =>
          unfold begin
          rw [hphase]
          rfl
  | appendAuthEvent e =>
      cases hphase : (s.tx t).phase with
      | idle => exact s.journal_begin t _ hphase
      | _ =>
          unfold begin
          rw [hphase]
          rfl
  | takeLock =>
      cases hphase : (s.tx t).phase with
      | waiting pending =>
          dsimp only
          split_ifs
          · refine s.journal_same t ?_
            simp [Tx.asked, hphase, Phase.pending]
          · rfl
      | _ => rfl
  | readTail =>
      cases hphase : (s.tx t).phase with
      | locked pending =>
          refine s.journal_same t ?_
          simp [Tx.asked, hphase, Phase.pending, map_chainRows]
      | _ => rfl
  | insertRow =>
      cases hphase : (s.tx t).phase with
      | inserting rows =>
          cases rows with
          | nil => rfl
          | cons row rows =>
              refine s.journal_same t ?_
              -- under its id the row has the payload it had
              rw [Tx.asked, Tx.asked, pending_inserted, hphase, List.map_append, List.append_assoc]
              rfl
      | _ => rfl
  | commit =>
      cases hphase : (s.tx t).phase with
      | idle =>
          refine (s.journal_close t _).trans ?_
          rw [← Tx.asked_of_idle hphase]
          rfl
      | _ => rfl
  | rollback =>
      refine (s.journal_close t []).trans ?_
      rw [List.map_nil, List.append_nil]
      rfl

/-- The committed rows are those of the writes that committed. -/
theorem written_eq (k : Hashing V H) (redacted : V) (n : ℕ) (moves : List (ℕ × Move V)) :
    (schedule k redacted { nextId := n } moves).committed.map buildPayload =
      written k redacted { nextId := n } moves :=
  congrArg Journal.kept (Journal.read_foldl journal_step moves { nextId := n })

/-- Whatever the schedule, the committed rows verify, and they are the rows that the committed
transactions flushed and appended. -/
theorem verifyChain_schedule [DecidableEq H] (k : Hashing V H) (redacted : V) (n : ℕ)
    (moves : List (ℕ × Move V)) :
    verifyChain k (idOrder (schedule k redacted { nextId := n } moves).committed) = none ∧
      (idOrder (schedule k redacted { nextId := n } moves).committed).map buildPayload =
        written k redacted { nextId := n } moves := by
  have hchained : Chained k (schedule k redacted { nextId := n } moves) :=
    (chained_start n).schedule moves
  have hsound := (hchained 0).sound.left
  rw [hsound.idOrder_eq, verifyChain, verifyFrom_eq_none]
  exact ⟨hsound.valid, written_eq k redacted n moves⟩

/-- Two writers of one event each; the first is rolled back after its insert. -/
example :
    let k : Hashing String ℕ := { genesisHash := 0, computeRowHash := fun prev p => prev + p.rowPk }
    let logout : AuthEvent String := { event := "auth.logout", subjectUserId := 7, writtenAt := 0 }
    (schedule k "[redacted]" {}
      [(0, .appendAuthEvent logout), (1, .appendAuthEvent logout), (0, .takeLock), (1, .takeLock),
        (0, .readTail), (0, .insertRow), (0, .rollback), (1, .takeLock), (1, .readTail),
        (1, .insertRow), (1, .commit)]).committed.map (fun row => (row.id, row.rowHash)) =
      [(2, 7)] := by decide +kernel

end OfficeConnect.Audit
