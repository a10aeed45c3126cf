import Mathlib.Data.List.Chain
import Mathlib.Data.List.Nodup
import Provisioning.Proofs.Store.Tables

/-!
# Rows move forward

Calls insert rows and move them, each at a time of its own. A call that moves a row says whether it
did, and touches no other row. However many calls there are, a row follows the moves that were
accepted for it: it starts in the queue, never returns there, stays as it is once it has ended, but
for one that finished and is undone, and keeps what it has remembered.
-/

namespace Provisioning

variable {α : Type}

/-- The statuses that follow a status. -/
inductive ExecutionStatus.Forward : ExecutionStatus → ExecutionStatus → Prop where
  /-- What has not ended may go anywhere but to the queue. -/
  | go {current next : ExecutionStatus} (running : current.isTerminal = false)
      (leaves : next ≠ .queued) : Forward current next
  /-- What finished may be undone. -/
  | undo {next : ExecutionStatus} (undone : next = .cancelled ∨ next = .cancellationFailed) :
      Forward .finished next

theorem ExecutionStatus.Forward.ne_queued {current next : ExecutionStatus}
    (h : current.Forward next) : next ≠ .queued := by
  rcases h with ⟨-, leaves⟩ | undone
  · exact leaves
  · rcases undone with rfl | rfl <;> decide

/-- Only what has not ended goes on. -/
theorem ExecutionStatus.Forward.running {current : ExecutionStatus}
    (h : current.Forward .inProgress) : current.isTerminal = false := by
  rcases h with ⟨running, -⟩ | undone
  · exact running
  · simp at undone

/-- What follows a status is an end, unless it is that of progress. -/
theorem ExecutionStatus.Forward.terminal {current next : ExecutionStatus}
    (h : current.Forward next) (stops : next ≠ .inProgress) : next.isTerminal = true := by
  have leaves := h.ne_queued
  cases next with
  | queued => exact absurd rfl leaves
  | inProgress => exact absurd rfl stops
  | finished | failed | skipped | cancelled | cancellationFailed => rfl

theorem Record.permits_iff {current next : ExecutionStatus} :
    permits current next ↔ current.Forward next := by
  constructor
  · intro permitted
    simp only [permits, Bool.and_eq_true, Bool.or_eq_true, bne_iff_ne, Bool.not_eq_true',
      beq_iff_eq] at permitted
    obtain ⟨leaves, running | ⟨rfl, undone⟩⟩ := permitted
    · exact .go running leaves
    · exact .undo undone
  · rintro (⟨running, leaves⟩ | undone)
    · simp [permits, running, leaves]
    · rcases undone with rfl | rfl <;> rfl

/-! ## What becomes of a row -/

namespace Record

/-- The status that moves lead to, from the queue. -/
def latest (moves : List Move) : ExecutionStatus := (moves.map Move.status).getLastD .queued

@[simp]
theorem latest_concat (moves : List Move) (m : Move) : latest (moves ++ [m]) = m.status := by
  simp [latest, List.getLastD_eq_getLast?]

/-- A row has come about by moves, one after the other, since it was inserted. -/
structure Follows (r : Record α) (moves : List Move) : Prop where
  /-- The statuses start in the queue, and each of them follows the one before. -/
  chain : (ExecutionStatus.queued :: moves.map Move.status).IsChain ExecutionStatus.Forward
  /-- The row has the last of them. -/
  status : r.status = .status (latest moves)
  /-- It has an end exactly if it has ended. -/
  finished : r.finishedAt.isSome ↔ (latest moves).isTerminal
  /-- It has a start exactly if it was ever in progress. -/
  started : r.startedAt.isSome ↔ .inProgress ∈ moves.map Move.status

/-- What a row becomes in the course of time. -/
structure Onward (r r' : Record α) : Prop where
  /-- It is the row with the same identifier. -/
  id : r'.id = r.id
  /-- It is about the same. -/
  data : r'.data = r.data
  /-- It does not return to the queue. -/
  queue : r'.status = .status .queued → r.status = .status .queued
  /-- Once it has ended it stays as it is, unless it finished and is undone. -/
  ended : ∀ status, r.status = .status status → status.isTerminal →
    r' = r ∨ status = .finished ∧
      (r'.status = .status .cancelled ∨ r'.status = .status .cancellationFailed)
  /-- It remembers that it started. -/
  started : r.startedAt.isSome → r'.startedAt.isSome
  /-- It remembers that it ended. -/
  finished : r.finishedAt.isSome → r'.finishedAt.isSome
  /-- It remembers that something was said about it. -/
  told : r.detail.isSome → r'.detail.isSome

theorem Onward.refl (r : Record α) : r.Onward r where
  id := rfl
  data := rfl
  queue := fun h => h
  ended := fun _ _ _ => .inl rfl
  started := fun h => h
  finished := fun h => h
  told := fun h => h

theorem Onward.trans {r r' r'' : Record α} (h : r.Onward r') (h' : r'.Onward r'') :
    r.Onward r'' where
  id := h'.id.trans h.id
  data := h'.data.trans h.data
  queue := fun queued => h.queue (h'.queue queued)
  ended := by
    intro status current terminal
    rcases h.ended status current terminal with rfl | ⟨rfl, undone⟩
    · exact h'.ended status current terminal
    -- A row that was undone has ended and did not finish: nothing follows.
    · have stays : r'' = r' := by
        rcases undone with undone | undone
        · exact (h'.ended _ undone rfl).resolve_right (by simp)
        · exact (h'.ended _ undone rfl).resolve_right (by simp)
      exact .inr ⟨rfl, stays ▸ undone⟩
  started := fun started => h'.started (h.started started)
  finished := fun finished => h'.finished (h.finished finished)
  told := fun told => h'.told (h.told told)

section

variable {now : Timestamp} {next : ExecutionStatus} {detail : Option String} {r r' : Record α}

theorem advance?_isSome_iff :
    (r.advance? now next detail).isSome ↔
      ∃ current, r.status = .status current ∧ current.Forward next := by
  unfold advance?
  split
  · simp_all
  · rename_i current readable
    rw [readable]
    by_cases permitted : permits current next
    · simpa [permitted] using permits_iff.mp permitted
    · simpa [permitted] using fun forward => permitted (permits_iff.mpr forward)

theorem Onward.of_advance (h : r.advance? now next detail = some r') : r.Onward r' := by
  obtain ⟨⟨current, readable, permitted⟩, rfl⟩ := advance?_eq_some h
  have forward := permits_iff.mp permitted
  refine
    { id := rfl
      data := rfl
      queue := fun queued => absurd (StatusCell.status.inj queued) forward.ne_queued
      ended := fun status same terminal => .inr ?_
      started := ?_
      finished := ?_
      told := ?_ }
  · obtain rfl := StatusCell.status.inj (readable.symm.trans same)
    rcases forward with ⟨running, -⟩ | undone
    · exact absurd terminal (by simp [running])
    · exact ⟨rfl, undone.imp (congrArg _) (congrArg _)⟩
  · intro started
    dsimp only
    split
    · rfl
    · exact started
  · intro finished
    dsimp only
    split
    · exact finished
    · rfl
  · intro told
    cases detail with
    | none => exact told
    | some d => rfl

end

theorem Follows.queued (row : String × α) : (Table.queued row).Follows [] where
  chain := .singleton _
  status := rfl
  finished := by simp [Table.queued, latest, ExecutionStatus.isTerminal]
  started := by simp [Table.queued]

theorem Follows.concat {now : Timestamp} {detail : Option String} {r r' : Record α}
    {moves : List Move} {m : Move} (follows : r.Follows moves)
    (h : r.advance? now m.status detail = some r') : r'.Follows (moves ++ [m]) := by
  obtain ⟨⟨current, readable, permitted⟩, rfl⟩ := advance?_eq_some h
  have forward : (latest moves).Forward m.status := by
    rw [StatusCell.status.inj (follows.status.symm.trans readable)]
    exact permits_iff.mp permitted
  constructor
  case chain =>
    rw [List.map_append, ← List.cons_append]
    refine follows.chain.append (.singleton _) fun last hlast next hnext => ?_
    obtain rfl : latest moves = last := by
      simpa [latest, List.getLast?_cons, List.getLastD_eq_getLast?] using hlast
    obtain rfl : m.status = next := by simpa using hnext
    exact forward
  case status => rw [latest_concat]
  case finished =>
    rw [latest_concat]
    by_cases going : m.status = .inProgress
    · have running := (going ▸ forward).running
      simp only [going, if_true, follows.finished, running]
      rfl
    · simp [going, forward.terminal going]
  case started =>
    by_cases going : m.status = .inProgress
    · simp [going]
    · simp [going, Ne.symm going, follows.started]

end Record

/-! ## What a move does to a table -/

namespace Table

theorem id_ne_of_nodup {before after : Table α} {r : Record α}
    (distinct : ((before ++ r :: after).map Record.id).Nodup) :
    ∀ other ∈ before ++ after, other.id ≠ r.id := by
  rw [List.map_append, List.map_cons] at distinct
  have apart := (List.nodup_cons.mp (List.nodup_middle.mp distinct)).1
  rw [← List.map_append] at apart
  exact fun other hother same => apart (List.mem_map.mpr ⟨other, hother, same⟩)

/-- A table in which one row has moved, if that row has an identifier of its own. -/
theorem modify_middle {before after : Table α} {r r' : Record α}
    (distinct : ((before ++ r :: after).map Record.id).Nodup) :
    modify (before ++ r :: after) r.id (fun _ => r') = before ++ r' :: after := by
  have others := id_ne_of_nodup distinct
  have untouched {rows : Table α} (h : ∀ other ∈ rows, other.id ≠ r.id) :
      (rows.map fun other => if other.id = r.id then r' else other) = rows := by
    conv_rhs => rw [← List.map_id rows]
    exact List.map_congr_left fun other hother => if_neg (h other hother)
  rw [modify, List.map_append, List.map_cons, if_pos rfl,
    untouched fun other hother => others other (List.mem_append_left _ hother),
    untouched fun other hother => others other (List.mem_append_right _ hother)]

variable {t : Table α} {now : Timestamp} {id : String} {next : ExecutionStatus}
  {detail : Option String}

/-- A move is accepted by one row, or by none, and then there is no row that would take it. -/
theorem advance_cases (distinct : (t.map Record.id).Nodup) :
    (∃ before r r' after, t = before ++ r :: after ∧ r.id = id ∧
        r.advance? now next detail = some r' ∧
        t.advance now id next detail = (true, before ++ r' :: after)) ∨
      (∀ r ∈ t, r.id = id → r.advance? now next detail = none) ∧
        t.advance now id next detail = (false, t) := by
  cases found : t.find? id with
  | none =>
    have absent : ∀ r ∈ t, r.id ≠ id := by simpa [find?] using found
    exact .inr ⟨fun r hr here => absurd here (absent r hr), by simp [advance, found]⟩
  | some r =>
    have here : r.id = id := by simpa using List.find?_some found
    have there : r ∈ t := List.mem_of_find?_eq_some found
    cases advanced : r.advance? now next detail with
    | none =>
      refine .inr ⟨fun other hother same => ?_, by simp [advance, found, advanced]⟩
      rw [List.inj_on_of_nodup_map distinct hother there (same.trans here.symm), advanced]
    | some r' =>
      obtain ⟨before, after, rfl⟩ := List.append_of_mem there
      refine .inl ⟨before, r, r', after, rfl, here, advanced, ?_⟩
      rw [advance, found, Option.bind_some, advanced, ← here]
      exact congrArg _ (modify_middle distinct)

theorem insert?_eq (row : String × α) :
    t.insert? row.1 row.2
      = if ∃ r ∈ t, r.id = row.1 then none else some (t ++ [queued row]) := by
  have known : (t.find? row.1).isSome = true ↔ ∃ r ∈ t, r.id = row.1 := by
    simp [find?]
  simp only [insert?, known]
  rfl

end Table

/-! ## Calls -/

/-- The tables of rows that move. -/
inductive RowKind where
  /-- The flows. -/
  | flow
  /-- The flows of applications. -/
  | applicationFlow
  /-- The stages. -/
  | stage
deriving DecidableEq, Repr

namespace RowKind

/-- What the rows are about. -/
abbrev Data : RowKind → Type
  | flow => FlowData
  | applicationFlow => ApplicationFlowData
  | stage => StageData

/-- What a row keeps of what is said about it: only a stage keeps it. -/
def told : RowKind → Option String → Option String
  | stage, detail => detail
  | _, _ => none

/-- The column of the identifier. -/
def column : RowKind → String
  | flow => "flows.id"
  | applicationFlow => "application_flows.id"
  | stage => "stages.id"

end RowKind

/-- A call that inserts a row or moves one. -/
structure RowCall where
  /-- The time of the call. -/
  now : Timestamp
  /-- The table. -/
  kind : RowKind
  /-- What is to be done. -/
  change : Change kind.Data

/-- The answer to a call. -/
inductive RowAnswer where
  /-- A row was inserted. -/
  | inserted
  /-- No row was inserted. -/
  | refused (e : StoreError)
  /-- A row was to be moved, and it was or it was not. -/
  | moved (permitted : Bool)
deriving DecidableEq, Repr

namespace Store

/-- The rows of a table. -/
def rows (s : Store) : (k : RowKind) → Table k.Data
  | .flow => s.flows
  | .applicationFlow => s.applicationFlows
  | .stage => s.stages

/-- The store with other rows in a table. -/
def setRows (s : Store) : (k : RowKind) → Table k.Data → Store
  | .flow, flows => { s with flows }
  | .applicationFlow, applicationFlows => { s with applicationFlows }
  | .stage, stages => { s with stages }

@[simp]
theorem rows_setRows (s : Store) (k : RowKind) (t : Table k.Data) : (s.setRows k t).rows k = t := by
  cases k <;> rfl

theorem rows_setRows_of_ne (s : Store) {k k' : RowKind} (t : Table k.Data) (h : k' ≠ k) :
    (s.setRows k t).rows k' = s.rows k' := by
  cases k <;> cases k' <;> first | rfl | exact absurd rfl h

@[simp]
theorem setRows_rows (s : Store) (k : RowKind) : s.setRows k (s.rows k) = s := by
  cases k <;> rfl

/-- The store at a time. -/
def atTime (s : Store) (now : Timestamp) : Store := { s with clock := now }

@[simp]
theorem rows_atTime (s : Store) (now : Timestamp) (k : RowKind) :
    (s.atTime now).rows k = s.rows k := by
  cases k <;> rfl

@[simp]
theorem clock_atTime (s : Store) (now : Timestamp) : (s.atTime now).clock = now := rfl

/-- The answer to an insertion. -/
def insertion (s : Store) : Except StoreError Store → RowAnswer × Store
  | .ok s' => (.inserted, s')
  | .error e => (.refused e, s)

/-- Changes a table, and answers. -/
def answer (s : Store) : (k : RowKind) → Change k.Data → RowAnswer × Store
  | .flow, .insert (id, data) => s.insertion (s.insertFlow id data.tenantId data.type)
  | .applicationFlow, .insert (id, data) => s.insertion (s.insertApplicationFlow id data)
  | .stage, .insert (id, data) => s.insertion (s.insertStage id data.flowId data.name)
  | .flow, .move m => (s.updateFlow m.id m.status).map .moved id
  | .applicationFlow, .move m => (s.updateApplicationFlow m.id m.status).map .moved id
  | .stage, .move m => (s.updateStage m.id m.status m.detail).map .moved id

/-- Does what a call says, and answers. -/
def call (s : Store) (c : RowCall) : RowAnswer × Store := (s.atTime c.now).answer c.kind c.change

/-- The store after calls. -/
def afterCalls (s : Store) (calls : List RowCall) : Store := calls.foldl (fun s c => (s.call c).2) s

theorem answer_insert (s : Store) (k : RowKind) (row : String × k.Data) :
    s.answer k (.insert row)
      = if ∃ r ∈ s.rows k, r.id = row.1 then
          (.refused (.notUnique k.column), s)
        else
          (.inserted, s.setRows k (s.rows k ++ [Table.queued row])) := by
  cases k with
  | flow | applicationFlow | stage =>
    simp only [answer, insertFlow, insertApplicationFlow, insertStage, Table.insert?_eq row, rows]
    split <;> simp_all [insertion, RowKind.column, setRows]

theorem answer_move (s : Store) (k : RowKind) (m : Move) :
    s.answer k (.move m)
      = ((s.rows k).advance s.clock m.id m.status (k.told m.detail)).map .moved (s.setRows k) := by
  cases k <;> rfl

/-- The rows of a table have identifiers of their own. -/
def Keyed (s : Store) : Prop := ∀ k, ((s.rows k).map Record.id).Nodup

variable {s : Store}

/-- What a call can do. -/
inductive Effect (s : Store) (c : RowCall) : Prop where
  /-- A row with a new identifier is inserted. -/
  | inserted (row : String × c.kind.Data) (inserts : c.change = .insert row)
      (absent : ∀ r ∈ s.rows c.kind, r.id ≠ row.1)
      (outcome : s.call c
        = (.inserted, (s.atTime c.now).setRows c.kind (s.rows c.kind ++ [Table.queued row])))
  /-- No row is inserted. -/
  | refused (row : String × c.kind.Data) (inserts : c.change = .insert row)
      (outcome : s.call c = (.refused (.notUnique c.kind.column), s.atTime c.now))
  /-- The row with an identifier moves. -/
  | moved (m : Move) (moves : c.change = .move m) (before after : Table c.kind.Data)
      (r r' : Record c.kind.Data) (split : s.rows c.kind = before ++ r :: after) (here : r.id = m.id)
      (advanced : r.advance? c.now m.status (c.kind.told m.detail) = some r')
      (outcome : s.call c = (.moved true, (s.atTime c.now).setRows c.kind (before ++ r' :: after)))
  /-- No row moves. -/
  | declined (m : Move) (moves : c.change = .move m)
      (declines : ∀ r ∈ s.rows c.kind, r.id = m.id →
        r.advance? c.now m.status (c.kind.told m.detail) = none)
      (outcome : s.call c = (.moved false, s.atTime c.now))

theorem call_effect (keyed : s.Keyed) (c : RowCall) : s.Effect c := by
  obtain ⟨now, k, change⟩ := c
  cases change with
  | insert row =>
    by_cases known : ∃ r ∈ s.rows k, r.id = row.1
    · exact .refused row rfl (by simp only [call, answer_insert, rows_atTime, if_pos known])
    · exact .inserted row rfl (by simpa using known)
        (by simp only [call, answer_insert, rows_atTime, if_neg known])
  | move m =>
    have outcome : s.call ⟨now, k, .move m⟩
        = ((s.rows k).advance now m.id m.status (k.told m.detail)).map .moved
            ((s.atTime now).setRows k) := by
      simp only [call, answer_move, rows_atTime, clock_atTime]
    rcases Table.advance_cases (keyed k) with
      ⟨before, r, r', after, split, here, advanced, moved⟩ | ⟨declines, moved⟩
    · exact .moved m rfl before after r r' split here advanced (by rw [outcome, moved]; rfl)
    · refine .declined m rfl declines ?_
      have same : (s.atTime now).setRows k (s.rows k) = s.atTime now := by
        rw [← s.rows_atTime now k, setRows_rows]
      rw [outcome, moved, Prod.map_apply, same]

/-! ## What a call does to the rows -/

/-- The move of the row with an identifier that a call makes. -/
def accepted? (s : Store) (k : RowKind) (id : String) (c : RowCall) : Option Move :=
  match c.change with
  | .insert _ => none
  | .move m => if c.kind = k ∧ m.id = id ∧ (s.call c).1 = .moved true then some m else none

theorem accepted?_eq_some {k : RowKind} {id : String} {c : RowCall} {m : Move}
    (h : s.accepted? k id c = some m) :
    c.change = .move m ∧ c.kind = k ∧ m.id = id ∧ (s.call c).1 = .moved true := by
  unfold accepted? at h
  split at h
  · simp at h
  · rename_i m' moves
    split at h
    · rename_i accepted
      obtain rfl := Option.some.inj h
      exact ⟨moves, accepted⟩
    · simp at h

theorem accepted?_eq_none {k : RowKind} {id : String} {c : RowCall}
    (h : ∀ m, c.change = .move m → c.kind = k → m.id = id → (s.call c).1 ≠ .moved true) :
    s.accepted? k id c = none := by
  by_contra accepted
  obtain ⟨m, accepted⟩ := Option.ne_none_iff_exists'.mp accepted
  obtain ⟨moves, same, here, yes⟩ := accepted?_eq_some accepted
  exact h m moves same here yes

/-- What a call does to a table: the moves that are accepted for its rows say whether it moves one. -/
inductive RowsEffect (s : Store) (c : RowCall) (k : RowKind) : Prop where
  /-- Nothing. -/
  | same (rows : (s.call c).2.rows k = s.rows k) (accepts : ∀ id, s.accepted? k id c = none)
  /-- A row with a new identifier is inserted. -/
  | inserted (row : String × k.Data) (absent : ∀ r ∈ s.rows k, r.id ≠ row.1)
      (rows : (s.call c).2.rows k = s.rows k ++ [Table.queued row])
      (accepts : ∀ id, s.accepted? k id c = none)
  /-- A row moves. -/
  | moved (m : Move) (before after : Table k.Data) (r r' : Record k.Data)
      (split : s.rows k = before ++ r :: after)
      (advanced : r.advance? c.now m.status (k.told m.detail) = some r')
      (rows : (s.call c).2.rows k = before ++ r' :: after)
      (accepts : ∀ id, s.accepted? k id c = if id = r.id then some m else none)

theorem rows_effect (keyed : s.Keyed) (c : RowCall) (k : RowKind) : s.RowsEffect c k := by
  by_cases here : k = c.kind
  · subst here
    cases s.call_effect keyed c with
    | inserted row inserts absent outcome =>
      exact .inserted row absent (by rw [outcome, rows_setRows])
        fun id => accepted?_eq_none (by simp [inserts])
    | refused row inserts outcome =>
      exact .same (by rw [outcome, rows_atTime]) fun id => accepted?_eq_none (by simp [inserts])
    | moved m moves before after r r' split named advanced outcome =>
      refine .moved m before after r r' split advanced (by rw [outcome, rows_setRows]) fun id => ?_
      simp only [accepted?, moves, outcome, named, true_and, and_true, eq_comm]
    | declined m moves declines outcome =>
      exact .same (by rw [outcome, rows_atTime]) fun id => accepted?_eq_none (by simp [outcome])
  · have accepts (id : String) : s.accepted? k id c = none :=
      accepted?_eq_none fun _ _ same => absurd same.symm here
    cases s.call_effect keyed c with
    | inserted row inserts absent outcome =>
      exact .same (by rw [outcome, rows_setRows_of_ne _ _ here, rows_atTime]) accepts
    | moved m moves before after r r' split named advanced outcome =>
      exact .same (by rw [outcome, rows_setRows_of_ne _ _ here, rows_atTime]) accepts
    | refused row inserts outcome => exact .same (by rw [outcome, rows_atTime]) accepts
    | declined m moves declines outcome => exact .same (by rw [outcome, rows_atTime]) accepts

/-- Rows keep identifiers of their own. -/
theorem Keyed.call (keyed : s.Keyed) (c : RowCall) : (s.call c).2.Keyed := by
  intro k
  cases s.rows_effect keyed c k with
  | same rows accepts => exact rows ▸ keyed k
  | inserted row absent rows accepts =>
    rw [rows, List.map_append]
    refine (keyed k).append (List.nodup_singleton _) fun id hid hnew => ?_
    obtain ⟨r, hr, rfl⟩ := List.mem_map.mp hid
    exact absent r hr (List.mem_singleton.mp hnew)
  | moved m before after r r' split advanced rows accepts =>
    have distinct := keyed k
    rw [split] at distinct
    rw [rows]
    rw [List.map_append, List.map_cons] at distinct ⊢
    rwa [(Record.advance?_same advanced).1]

/-- A row is still there after a call, and has gone onward. -/
theorem onward_of_call (keyed : s.Keyed) (c : RowCall) {k : RowKind} {r : Record k.Data}
    (h : r ∈ s.rows k) : ∃ r' ∈ (s.call c).2.rows k, r.Onward r' := by
  cases s.rows_effect keyed c k with
  | same rows accepts => exact ⟨r, rows ▸ h, .refl r⟩
  | inserted row absent rows accepts =>
    exact ⟨r, rows ▸ List.mem_append_left _ h, .refl r⟩
  | moved m before after old next split advanced rows accepts =>
    rw [rows]
    rw [split] at h
    simp only [List.mem_append, List.mem_cons] at h ⊢
    rcases h with h | rfl | h
    · exact ⟨r, .inl h, .refl r⟩
    · exact ⟨next, .inr (.inl rfl), .of_advance advanced⟩
    · exact ⟨r, .inr (.inr h), .refl r⟩

/-- A row after a call was there before, and no move was accepted for it, or it was inserted, or it
has made the move that was accepted for it. -/
theorem row_of_call (keyed : s.Keyed) {c : RowCall} {k : RowKind} {r' : Record k.Data}
    (h : r' ∈ (s.call c).2.rows k) :
    (r' ∈ s.rows k ∧ s.accepted? k r'.id c = none) ∨
      (∃ row, r' = Table.queued row ∧ (∀ r ∈ s.rows k, r.id ≠ r'.id) ∧
        s.accepted? k r'.id c = none) ∨
      ∃ r ∈ s.rows k, ∃ m, s.accepted? k r'.id c = some m ∧
        r.advance? c.now m.status (k.told m.detail) = some r' := by
  cases s.rows_effect keyed c k with
  | same rows accepts => exact .inl ⟨rows ▸ h, accepts _⟩
  | inserted row absent rows accepts =>
    rw [rows] at h
    rcases List.mem_append.mp h with h | h
    · exact .inl ⟨h, accepts _⟩
    · obtain rfl := List.mem_singleton.mp h
      exact .inr (.inl ⟨row, rfl, absent, accepts _⟩)
  | moved m before after r next split advanced rows accepts =>
    have distinct := keyed k
    rw [split] at distinct
    have others (beside : r' ∈ before ++ after) : r' ∈ s.rows k ∧ s.accepted? k r'.id c = none := by
      refine ⟨?_, by rw [accepts, if_neg (Table.id_ne_of_nodup distinct r' beside)]⟩
      simp only [split, List.mem_append, List.mem_cons] at beside ⊢
      exact beside.imp_right .inr
    simp only [rows, List.mem_append, List.mem_cons] at h
    rcases h with h | rfl | h
    · exact .inl (others (List.mem_append_left _ h))
    · refine .inr (.inr ⟨r, by simp [split], m, ?_, advanced⟩)
      rw [accepts, if_pos (Record.advance?_same advanced).1]
    · exact .inl (others (List.mem_append_right _ h))

/-! ## Many calls -/

theorem Keyed.afterCalls (keyed : s.Keyed) (calls : List RowCall) : (s.afterCalls calls).Keyed := by
  unfold Store.afterCalls
  induction calls generalizing s with
  | nil => exact keyed
  | cons c rest ih => exact ih (keyed.call c)

theorem onward_afterCalls (keyed : s.Keyed) (calls : List RowCall) {k : RowKind}
    {r : Record k.Data} (h : r ∈ s.rows k) : ∃ r' ∈ (s.afterCalls calls).rows k, r.Onward r' := by
  unfold Store.afterCalls
  induction calls generalizing s r with
  | nil => exact ⟨r, h, .refl r⟩
  | cons c rest ih =>
    obtain ⟨r', h', onward⟩ := s.onward_of_call keyed c h
    obtain ⟨r'', h'', later⟩ := ih (keyed.call c) h'
    exact ⟨r'', h'', onward.trans later⟩

/-- The moves of the row with an identifier that calls make. -/
def accepted (k : RowKind) (id : String) : Store → List RowCall → List Move
  | _, [] => []
  | s, c :: rest => (s.accepted? k id c).toList ++ accepted k id (s.call c).2 rest

theorem accepted_concat (s : Store) (k : RowKind) (id : String) (calls : List RowCall)
    (c : RowCall) :
    accepted k id s (calls ++ [c])
      = accepted k id s calls ++ ((s.afterCalls calls).accepted? k id c).toList := by
  induction calls generalizing s with
  | nil => simp [accepted, afterCalls]
  | cons d rest ih => rw [List.cons_append, accepted, ih, accepted, List.append_assoc]; rfl

theorem afterCalls_concat (s : Store) (calls : List RowCall) (c : RowCall) :
    s.afterCalls (calls ++ [c]) = ((s.afterCalls calls).call c).2 := by
  rw [afterCalls, List.foldl_append]
  rfl

/-- Nothing is accepted for a row that is not there. -/
theorem accepted_of_absent (keyed : s.Keyed) {k : RowKind} {id : String} {calls : List RowCall}
    (absent : ∀ r ∈ (s.afterCalls calls).rows k, r.id ≠ id) : accepted k id s calls = [] := by
  induction calls using List.reverseRecOn with
  | nil => rfl
  | append_singleton calls c ih =>
    rw [afterCalls_concat] at absent
    have keyed' := keyed.afterCalls calls
    have before : ∀ r ∈ (s.afterCalls calls).rows k, r.id ≠ id := by
      intro r hr same
      obtain ⟨r', hr', onward⟩ := (s.afterCalls calls).onward_of_call keyed' c hr
      exact absent r' hr' (onward.id.trans same)
    rw [accepted_concat, ih before]
    cases (s.afterCalls calls).rows_effect keyed' c k with
    | same rows accepts | inserted row absent rows accepts => rw [accepts]; rfl
    | moved m before' after r r' split advanced rows accepts =>
      rw [accepts, if_neg fun same => before r (by simp [split]) same.symm]
      rfl

/-- A row that calls insert follows the moves that they make. -/
theorem follows_accepted (keyed : s.Keyed) {k : RowKind} {calls : List RowCall}
    {r : Record k.Data} (h : r ∈ (s.afterCalls calls).rows k)
    (new : ∀ old ∈ s.rows k, old.id ≠ r.id) : r.Follows (accepted k r.id s calls) := by
  induction calls using List.reverseRecOn generalizing r with
  | nil => exact absurd rfl (new r h)
  | append_singleton calls c ih =>
    rw [afterCalls_concat] at h
    rw [accepted_concat]
    rcases row_of_call (keyed.afterCalls calls) h with
      ⟨there, accepts⟩ | ⟨row, rfl, absent, accepts⟩ | ⟨old, there, m, accepts, advanced⟩
    · rw [accepts, Option.toList_none, List.append_nil]
      exact ih there new
    · rw [accepts, accepted_of_absent keyed absent]
      exact .queued row
    · have same := (Record.advance?_same advanced).1
      rw [accepts, same]
      exact (ih there (same ▸ new)).concat advanced

/-! ## What a call that moves a row answers -/

/-- A call that is to move a row does so and says so exactly if there is one that may, and touches
no other row. -/
structure Heeds (s : Store) (c : RowCall) (m : Move) : Prop where
  /-- The answer is whether there is a row with the identifier that may take the status. -/
  answers : ∃ permitted, (s.call c).1 = .moved permitted ∧
    (permitted = true ↔ ∃ r ∈ s.rows c.kind, r.id = m.id ∧
      ∃ current, r.status = .status current ∧ current.Forward m.status)
  /-- The row takes the status; the others are as they were. -/
  moves : (s.call c).1 = .moved true → ∃ before r r' after,
    s.rows c.kind = before ++ r :: after ∧ (s.call c).2.rows c.kind = before ++ r' :: after ∧
      r.id = m.id ∧ r'.id = m.id ∧ r'.status = .status m.status
  /-- The rows of other tables are as they were. -/
  apart : ∀ k, k ≠ c.kind → (s.call c).2.rows k = s.rows k
  /-- If the answer is no, all rows are as they were. -/
  declines : (s.call c).1 = .moved false → ∀ k, (s.call c).2.rows k = s.rows k

theorem heeds (keyed : s.Keyed) {c : RowCall} {m : Move} (h : c.change = .move m) :
    s.Heeds c m := by
  cases s.call_effect keyed c with
  | inserted row inserts absent outcome => exact absurd (inserts.symm.trans h) nofun
  | refused row inserts outcome => exact absurd (inserts.symm.trans h) nofun
  | moved m' moves before after r r' split here advanced outcome =>
    obtain rfl : m' = m := Change.move.inj (moves.symm.trans h)
    refine ⟨⟨true, by rw [outcome], iff_of_true rfl ?_⟩, fun _ => ?_, fun k apart => ?_, ?_⟩
    · exact ⟨r, by simp [split], here, Record.advance?_isSome_iff.mp (by rw [advanced]; rfl)⟩
    · refine ⟨before, r, r', after, split, by rw [outcome, rows_setRows], here, ?_, ?_⟩
      · exact (Record.advance?_same advanced).1.trans here
      · exact Record.advance?_status advanced
    · rw [outcome, rows_setRows_of_ne _ _ apart, rows_atTime]
    · rw [outcome]
      nofun
  | declined m' moves declines outcome =>
    obtain rfl : m' = m := Change.move.inj (moves.symm.trans h)
    have same (k : RowKind) : (s.call c).2.rows k = s.rows k := by rw [outcome, rows_atTime]
    refine ⟨⟨false, by rw [outcome], iff_of_false nofun ?_⟩, ?_, fun k _ => same k, fun _ => same⟩
    · rintro ⟨r, there, here, current, readable, forward⟩
      have takes : (r.advance? c.now m'.status (c.kind.told m'.detail)).isSome :=
        Record.advance?_isSome_iff.mpr ⟨current, readable, forward⟩
      rw [declines r there here] at takes
      exact absurd takes Bool.false_ne_true
    · rw [outcome]
      nofun

/-- Rows only move forward: after any calls, on a store whose rows have identifiers of their own,
each further call answers truly and touches no row but the one that it moves, a row that the calls
have inserted follows the moves that were accepted for it, and every row goes onward with whatever
calls come later. -/
theorem rows_only_move_forward {s : Store} (keyed : s.Keyed) (calls later : List RowCall) :
    (s.afterCalls calls).Keyed ∧
      (∀ c m, c.change = .move m → (s.afterCalls calls).Heeds c m) ∧
      ∀ k, ∀ r ∈ (s.afterCalls calls).rows k,
        ((∀ old ∈ s.rows k, old.id ≠ r.id) → r.Follows (accepted k r.id s calls)) ∧
        ∃ r' ∈ ((s.afterCalls calls).afterCalls later).rows k, r.Onward r' := by
  have keyed' := keyed.afterCalls calls
  refine ⟨keyed', fun c m h => heeds keyed' h, fun k r h => ⟨follows_accepted keyed h, ?_⟩⟩
  exact onward_afterCalls keyed' later h

/-- A flow that runs, finishes and is undone, with an attempt to run it again between. -/
def undoneCalls : List RowCall :=
  [⟨0, .flow, .insert ("flow", { tenantId := "tenant", type := "STATE" })⟩,
    ⟨1, .flow, .move { id := "flow", status := .inProgress }⟩,
    ⟨2, .flow, .move { id := "flow", status := .finished }⟩,
    ⟨3, .flow, .move { id := "flow", status := .inProgress }⟩,
    ⟨4, .flow, .move { id := "flow", status := .cancelled }⟩]

theorem rows_only_move_forward_undone :
    empty.Keyed ∧
      (accepted .flow "flow" empty undoneCalls).map Move.status
        = [.inProgress, .finished, .cancelled] ∧
      ∃ r ∈ (empty.afterCalls undoneCalls).rows .flow,
        r.Follows (accepted .flow "flow" empty undoneCalls) := by
  have keyed : empty.Keyed := fun k => by cases k <;> exact List.nodup_nil
  refine ⟨keyed, by decide, ?_⟩
  obtain ⟨-, -, rows⟩ := rows_only_move_forward keyed undoneCalls []
  have there : ∃ r ∈ (empty.afterCalls undoneCalls).rows .flow, r.id = "flow" := by decide
  obtain ⟨r, there, named⟩ := there
  refine ⟨r, there, ?_⟩
  have follows := (rows .flow r there).1 fun old hold => absurd hold List.not_mem_nil
  rwa [named] at follows

end Store

end Provisioning
