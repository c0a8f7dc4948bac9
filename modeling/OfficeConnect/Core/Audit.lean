import OfficeConnect.Core.Base
import OfficeConnect.Lib.HashChain

/-!
# The audit trail

Every audited change of a flush, and every semantic event a caller appends, is a row of
`core_audit_logs` that stores the hash of the row before it and a hash over that and its own
content.  The hash is a parameter, as is the type of a serialized column value.
-/

namespace OfficeConnect.Audit

open Lib

inductive Action where
  | insert | update | softDelete
deriving DecidableEq, Repr

/-- A JSON object of serialized column values; `none` is `null`. -/
abbrev Data (V : Type) := List (String × Option V)

/-- Exactly what gets hashed (`build_payload`). -/
structure Payload (V : Type) where
  table : String
  rowPk : ℕ
  action : Action
  actorId : Option ℕ
  requestId : Option String
  createdAt : Time
  old : Option (Data V)
  new : Option (Data V)
deriving DecidableEq, Repr

structure AuditLog (V H : Type) where
  id : ℕ
  createdAt : Time
  actorId : Option ℕ
  requestId : Option String
  tableName : String
  rowPk : ℕ
  action : Action
  oldData : Option (Data V)
  newData : Option (Data V)
  prevHash : H
  rowHash : H
deriving DecidableEq, Repr

/-- The hash of the chain: `GENESIS_HASH` and `compute_row_hash`. -/
structure Hashing (V H : Type) where
  genesisHash : H
  computeRowHash : H → Payload V → H

variable {V H : Type}

/-- The payload the verifier rebuilds from a stored row. -/
def buildPayload (row : AuditLog V H) : Payload V where
  table := row.tableName
  rowPk := row.rowPk
  action := row.action
  actorId := row.actorId
  requestId := row.requestId
  createdAt := row.createdAt
  old := row.oldData
  new := row.newData

/-! ## Verification -/

/-- The loop of `verify_chain`. -/
def verifyFrom [DecidableEq H] (k : Hashing V H) : H → List (AuditLog V H) → Option ℕ
  | _, [] => none
  | prev, row :: rows =>
      if row.prevHash ≠ prev ∨ row.rowHash ≠ k.computeRowHash prev (buildPayload row) then
        some row.id
      else verifyFrom k row.rowHash rows

/-- The id of the first broken row, if any. -/
def verifyChain [DecidableEq H] (k : Hashing V H) (rows : List (AuditLog V H)) : Option ℕ :=
  verifyFrom k k.genesisHash rows

/-- The rows as links of a hash chain. -/
def Hashing.chain (k : Hashing V H) : HashChain (AuditLog V H) H (Payload V) where
  prev := AuditLog.prevHash
  hash := AuditLog.rowHash
  body := buildPayload
  digest := k.computeRowHash

section Verify

variable [DecidableEq H] {k : Hashing V H} {prev : H} {rows : List (AuditLog V H)}

variable (k prev) in
theorem verifyFrom_cons (row : AuditLog V H) (rows : List (AuditLog V H)) :
    verifyFrom k prev (row :: rows) = some row.id ∧ ¬ k.chain.Extends prev row ∨
      verifyFrom k prev (row :: rows) = verifyFrom k row.rowHash rows ∧ k.chain.Extends prev row := by
  rw [verifyFrom]
  by_cases h : row.prevHash ≠ prev ∨ row.rowHash ≠ k.computeRowHash prev (buildPayload row)
  · refine .inl ⟨if_pos h, fun hext => ?_⟩
    exact h.elim (· hext.1) (· hext.2)
  · exact .inr ⟨if_neg h, not_not.1 (not_or.1 h).1, not_not.1 (not_or.1 h).2⟩

theorem verifyFrom_eq_none : verifyFrom k prev rows = none ↔ k.chain.Valid prev rows := by
  induction rows generalizing prev with
  | nil => simp [verifyFrom, HashChain.Valid]
  | cons row rows ih =>
      rw [HashChain.Valid]
      rcases verifyFrom_cons k prev row rows with ⟨h, hext⟩ | ⟨h, hext⟩
      · simp [h, hext]
      · rw [h, ih]
        exact (and_iff_right hext).symm

/-- The row reported is the one at which the rows stop being a chain. -/
theorem verifyFrom_eq_some {id : ℕ} :
    verifyFrom k prev rows = some id ↔ ∃ row, k.chain.BreaksAt prev rows row ∧ row.id = id := by
  induction rows generalizing prev with
  | nil => simp [verifyFrom]
  | cons row rows ih =>
      simp only [HashChain.breaksAt_cons]
      rcases verifyFrom_cons k prev row rows with ⟨h, hext⟩ | ⟨h, hext⟩
      · simp [h, hext]
      · rw [h, ih]
        simp only [hext, not_true, false_and, true_and, false_or]
        rfl

end Verify

/-! ## What a flush records -/

/-- A mapped column of a tracked object: its value if loaded, and its old and new value if it has
changes. -/
structure Column (V : Type) where
  key : String
  value : Option (Option V)
  history : Option (Option V × Option V) := none

/-- An object of the unit of work; `writtenAt` is the clock when its row is built. -/
structure Tracked (V : Type) where
  table : String
  rowPk : ℕ
  audited : Bool := true
  auditExclude : List String := []
  softDeletes : Bool := true
  columns : List (Column V)
  writtenAt : Time

/-- A flush of the session, with the objects it would delete. -/
structure Flush (V : Type) where
  new : List (Tracked V) := []
  dirty : List (Tracked V) := []
  deleted : List (Tracked V) := []
  actorId : Option ℕ := none
  requestId : Option String := none

/-- The marker in place of a value that never enters the chain. -/
def redact (redacted : V) (obj : Tracked V) (key : String) (value : Option V) : Option V :=
  if key ∈ obj.auditExclude then value.map fun _ => redacted else value

/-- The changed columns, read by `side`. -/
def diff (redacted : V) (obj : Tracked V) (side : Option V × Option V → Option V) : Data V :=
  obj.columns.filterMap fun col =>
    col.history.map fun h => (col.key, redact redacted obj col.key (side h))

/-- The full row image after the INSERT; a column that was not fetched is omitted. -/
def rowImage (redacted : V) (obj : Tracked V) : Data V :=
  obj.columns.filterMap fun col =>
    col.value.map fun value => (col.key, redact redacted obj col.key value)

/-- The change sets `deleted_at`. -/
def setsDeletedAt (obj : Tracked V) : Bool :=
  obj.softDeletes ∧ ∃ col ∈ obj.columns, col.key = "deleted_at" ∧
    (col.history.any fun h => h.2.isSome)

def recordOf (f : Flush V) (obj : Tracked V) (action : Action) (old new : Option (Data V)) :
    Payload V where
  table := obj.table
  rowPk := obj.rowPk
  action := action
  actorId := f.actorId
  requestId := f.requestId
  createdAt := obj.writtenAt
  old := old
  new := new

/-- What `_capture_changes` and `_write_audit_rows` make of a flush; nothing when it is refused for
deleting a row. -/
def pendingAudit (redacted : V) (f : Flush V) : List (Payload V) :=
  if f.deleted ≠ [] then []
  else
    ((f.new.filter (·.audited)).map fun obj =>
      recordOf f obj .insert none (some (rowImage redacted obj))) ++
    (f.dirty.filter fun obj => obj.audited ∧ diff redacted obj Prod.snd ≠ []).map fun obj =>
      recordOf f obj (if setsDeletedAt obj then .softDelete else .update)
        (some (diff redacted obj Prod.fst)) (some (diff redacted obj Prod.snd))

/-- The keys an event may never carry. -/
def forbiddenEventKeys : List String :=
  ["password", "password_hash", "mfa_secret", "secret", "session_id", "sid", "code", "totp", "token"]

/-- A call of `append_auth_event`; `sessionActorId` and `sessionRequestId` are the session's own. -/
structure AuthEvent (V : Type) where
  event : V
  subjectUserId : ℕ
  actorId : Option ℕ := none
  requestId : Option String := none
  data : Data V := []
  tableName : String := "core_sessions"
  rowPk : Option ℕ := none
  sessionActorId : Option ℕ := none
  sessionRequestId : Option String := none
  writtenAt : Time

/-- `{"event": event, **data}`: an `event` key of the data wins. -/
def eventData (e : AuthEvent V) : Data V :=
  if ∃ entry ∈ e.data, entry.1 = "event" then e.data else ("event", some e.event) :: e.data

/-- The one row of an event; nothing when its data is refused. -/
def pendingEvent (e : AuthEvent V) : List (Payload V) :=
  if ∃ entry ∈ e.data, entry.1 ∈ forbiddenEventKeys then []
  else
    [{ table := e.tableName
       rowPk := e.rowPk.getD e.subjectUserId
       action := .insert
       actorId := e.actorId <|> e.sessionActorId
       requestId := e.requestId <|> e.sessionRequestId
       createdAt := e.writtenAt
       old := none
       new := some (eventData e) }]

/-- The rows to insert, each hashed over the one before; the insert assigns the ids. -/
def chainRows (k : Hashing V H) : H → List (Payload V) → List (AuditLog V H)
  | _, [] => []
  | prev, p :: ps =>
      { id := 0
        createdAt := p.createdAt
        actorId := p.actorId
        requestId := p.requestId
        tableName := p.table
        rowPk := p.rowPk
        action := p.action
        oldData := p.old
        newData := p.new
        prevHash := prev
        rowHash := k.computeRowHash prev p } :: chainRows k (k.computeRowHash prev p) ps

theorem chainRows_valid (k : Hashing V H) (prev : H) (ps : List (Payload V)) :
    k.chain.Valid prev (chainRows k prev ps) := by
  induction ps generalizing prev with
  | nil => trivial
  | cons p ps ih => exact ⟨⟨rfl, rfl⟩, ih _⟩

end OfficeConnect.Audit
