import Mathlib.Data.List.Nodup
import Provisioning.Refusal
import Provisioning.Store.Query
import Provisioning.Store.Recorder

/-!
# Tables of rows

What a run does to a table: an event inserts a row or moves one, and what becomes of a row depends
on the events with its identifier only. A table grows by the rows that are announced, and each row
follows its own moves.
-/

namespace Provisioning

variable {α : Type}

/-- A move of the row with an identifier. -/
structure Move where
  /-- The identifier of the row. -/
  id : String
  /-- The status to move to. -/
  status : ExecutionStatus
  /-- What is said about it. -/
  detail : Option String := none

/-! ## Rows -/

namespace Record

/-- The row after a move, or as it was if it may not move so. -/
def move (now : Timestamp) (r : Record α) (m : Move) : Record α :=
  (r.advance? now m.status m.detail).getD r

/-- The row after those of the moves that have its identifier. -/
def follow (now : Timestamp) (moves : List Move) (r : Record α) : Record α :=
  (moves.filter (·.id = r.id)).foldl (move now) r

section

variable {now : Timestamp} {next : ExecutionStatus} {detail : Option String} {r r' : Record α}

/-- A row that advances has a status from which it may, and nothing but its status, its times and
what is said about it changes. -/
theorem advance?_eq_some (h : r.advance? now next detail = some r') :
    (∃ current, r.status = .status current ∧ permits current next) ∧
      r' = { r with
        status := .status next
        detail := detail.or r.detail
        startedAt := if next = .inProgress then some (.time now) else r.startedAt
        finishedAt := if next = .inProgress then r.finishedAt else some (.time now) } := by
  unfold advance? at h
  split at h
  · simp at h
  · rename_i current readable
    split at h
    · rename_i permitted
      exact ⟨⟨current, readable, permitted⟩, (Option.some.inj h).symm⟩
    · simp at h

theorem advance?_same (h : r.advance? now next detail = some r') :
    r'.id = r.id ∧ r'.data = r.data := by
  obtain ⟨-, rfl⟩ := advance?_eq_some h
  exact ⟨rfl, rfl⟩

theorem advance?_status (h : r.advance? now next detail = some r') :
    r'.status = .status next := by
  obtain ⟨-, rfl⟩ := advance?_eq_some h
  rfl

end

theorem move_same (now : Timestamp) (r : Record α) (m : Move) :
    (r.move now m).id = r.id ∧ (r.move now m).data = r.data := by
  unfold move
  cases h : r.advance? now m.status m.detail with
  | none => exact ⟨rfl, rfl⟩
  | some r' => exact advance?_same h

theorem foldl_move_same (now : Timestamp) (moves : List Move) (r : Record α) :
    (moves.foldl (move now) r).id = r.id ∧ (moves.foldl (move now) r).data = r.data := by
  induction moves generalizing r with
  | nil => exact ⟨rfl, rfl⟩
  | cons m rest ih =>
    have first := r.move_same now m
    have later := ih (r.move now m)
    exact ⟨later.1.trans first.1, later.2.trans first.2⟩

@[simp]
theorem follow_id (now : Timestamp) (moves : List Move) (r : Record α) :
    (r.follow now moves).id = r.id := (foldl_move_same now _ r).1

@[simp]
theorem follow_data (now : Timestamp) (moves : List Move) (r : Record α) :
    (r.follow now moves).data = r.data := (foldl_move_same now _ r).2

theorem follow_cons (now : Timestamp) (m : Move) (rest : List Move) (r : Record α) :
    r.follow now (m :: rest) = (if r.id = m.id then r.move now m else r).follow now rest := by
  by_cases h : r.id = m.id
  · rw [if_pos h, follow, follow, List.filter_cons_of_pos (by simp [h]), List.foldl_cons,
      (r.move_same now m).1]
  · rw [if_neg h, follow, follow, List.filter_cons_of_neg (by simpa using Ne.symm h)]

theorem follow_of_absent {now : Timestamp} {moves : List Move} {r : Record α}
    (h : ∀ m ∈ moves, m.id ≠ r.id) : r.follow now moves = r := by
  rw [follow, List.filter_eq_nil_iff.mpr (by simpa using h), List.foldl_nil]

/-- The row can be told of: its status is one, and its times are some. -/
structure Readable (r : Record α) : Prop where
  /-- The status. -/
  status : ∃ s, r.status = .status s
  /-- When it started. -/
  startedAt : ∀ c ∈ r.startedAt, ∃ t, c = .time t
  /-- When it ended. -/
  finishedAt : ∀ c ∈ r.finishedAt, ∃ t, c = .time t

theorem Readable.advance {now : Timestamp} {next : ExecutionStatus} {detail : Option String}
    {r r' : Record α} (readable : r.Readable) (h : r.advance? now next detail = some r') :
    r'.Readable := by
  obtain ⟨-, rfl⟩ := advance?_eq_some h
  refine ⟨⟨_, rfl⟩, ?_, ?_⟩
  · dsimp only
    split
    · simp
    · exact readable.startedAt
  · dsimp only
    split
    · exact readable.finishedAt
    · simp

theorem Readable.follow {now : Timestamp} {moves : List Move} {r : Record α}
    (readable : r.Readable) : (r.follow now moves).Readable := by
  have step (r : Record α) (m : Move) (readable : r.Readable) : (r.move now m).Readable := by
    unfold move
    cases h : r.advance? now m.status m.detail with
    | none => exact readable
    | some r' => exact readable.advance h
  unfold Record.follow
  induction moves.filter (·.id = r.id) generalizing r with
  | nil => exact readable
  | cons m rest ih => exact ih (step r m readable)

end Record

/-! ## Changes of a table -/

/-- A change of a table. -/
inductive Change (α : Type) where
  /-- A row with an identifier and data is inserted. -/
  | insert (row : String × α)
  /-- A row moves. -/
  | move (m : Move)

namespace Table

/-- The table after a change, or as it was if the change is declined. -/
def change (now : Timestamp) (t : Table α) : Change α → Table α
  | .insert row => (t.insert? row.1 row.2).getD t
  | .move m => (t.advance now m.id m.status m.detail).2

/-- Rows with an identifier are equal. -/
def Unique (t : Table α) (id : String) : Prop :=
  ∀ r ∈ t, ∀ r' ∈ t, r.id = id → r'.id = id → r = r'

/-- If rows with the identifier are equal, each of them moves. -/
theorem change_move {t : Table α} {m : Move} (unique : t.Unique m.id) (now : Timestamp) :
    t.change now (.move m) = t.map fun r => if r.id = m.id then r.move now m else r := by
  have untouched (h : ∀ r ∈ t, r.id = m.id → r.move now m = r) :
      (t.map fun r => if r.id = m.id then r.move now m else r) = t := by
    conv_rhs => rw [← List.map_id t]
    refine List.map_congr_left fun r hr => ?_
    split
    · rename_i same
      exact h r hr same
    · rfl
  rw [change, advance]
  -- A row that is not there, or that declines the move, leaves both sides as they were.
  cases found : t.find? m.id with
  | none =>
    have absent : ∀ r ∈ t, r.id ≠ m.id := by simpa [find?] using found
    exact (untouched fun r hr same => absurd same (absent r hr)).symm
  | some row =>
    have there : row ∈ t := List.mem_of_find?_eq_some found
    have here : row.id = m.id := by simpa using List.find?_some found
    rw [Option.bind_some]
    cases advanced : row.advance? now m.status m.detail with
    | none =>
      refine (untouched fun r hr same => ?_).symm
      rw [unique r hr row there same here, Record.move, advanced, Option.getD_none]
    | some next =>
      refine List.map_congr_left fun r hr => ?_
      split
      · rename_i same
        rw [unique r hr row there same here, Record.move, advanced, Option.getD_some]
      · rfl

theorem Unique.map {t : Table α} {id : String} (unique : t.Unique id) {f : Record α → Record α}
    (same : ∀ r, (f r).id = r.id) : Unique (t.map f) id := by
  intro r hr r' hr' h h'
  obtain ⟨x, hx, rfl⟩ := List.mem_map.mp hr
  obtain ⟨y, hy, rfl⟩ := List.mem_map.mp hr'
  rw [unique x hx y hy (same x ▸ h) (same y ▸ h')]

theorem foldl_move {now : Timestamp} {moves : List Move} {t : Table α}
    (unique : ∀ m ∈ moves, t.Unique m.id) :
    (moves.map Change.move).foldl (change now) t = t.map (Record.follow now moves) := by
  induction moves generalizing t with
  | nil =>
    conv_lhs => rw [List.map_nil, List.foldl_nil, ← List.map_id t]
    exact List.map_congr_left fun r _ => (Record.follow_of_absent (by simp)).symm
  | cons m rest ih =>
    rw [List.forall_mem_cons] at unique
    have same (r : Record α) : (if r.id = m.id then r.move now m else r).id = r.id := by
      split
      · exact (r.move_same now m).1
      · rfl
    rw [List.map_cons, List.foldl_cons, change_move unique.1,
      ih fun m' hm' => (unique.2 m' hm').map same, List.map_map]
    exact List.map_congr_left fun r _ => (Record.follow_cons now m rest r).symm

/-- The row with an identifier as it is inserted. -/
def queued (row : String × α) : Record α := { id := row.1, data := row.2 }

/-- Rows with identifiers of their own that are not in a table. -/
structure Fresh (t : Table α) (rows : List (String × α)) : Prop where
  /-- No two of them share an identifier. -/
  distinct : (rows.map (·.1)).Nodup
  /-- The table has none of them. -/
  absent : ∀ row ∈ rows, ∀ r ∈ t, r.id ≠ row.1

theorem foldl_insert {now : Timestamp} {rows : List (String × α)} {t : Table α}
    (fresh : t.Fresh rows) :
    (rows.map Change.insert).foldl (change now) t = t ++ rows.map queued := by
  induction rows generalizing t with
  | nil => simp
  | cons row rest ih =>
    obtain ⟨distinct, absent⟩ := fresh
    rw [List.map_cons, List.nodup_cons] at distinct
    rw [List.forall_mem_cons] at absent
    have none : (t.find? row.1).isSome = false := by simpa [find?] using absent.1
    have inserted : t.change now (.insert row) = t ++ [queued row] := by
      simp [change, insert?, none, queued]
    have later : Fresh (t ++ [queued row]) rest := by
      refine ⟨distinct.2, fun other hother r hr => ?_⟩
      rcases List.mem_append.mp hr with hr | hr
      · exact absent.2 other hother r hr
      · rw [List.mem_singleton.mp hr]
        exact fun same => distinct.1 (List.mem_map.mpr ⟨other, hother, same.symm⟩)
    rw [List.map_cons, List.foldl_cons, inserted, ih later, List.map_cons, List.append_assoc,
      List.singleton_append]

/-- A table to which rows with new identifiers are added, which then move: the rows that were there
stay as they are, and the new ones follow their moves. -/
theorem foldl_change {now : Timestamp} {rows : List (String × α)} {moves : List Move} {t : Table α}
    (fresh : t.Fresh rows) (known : ∀ m ∈ moves, m.id ∈ rows.map (·.1)) :
    ((rows.map Change.insert) ++ moves.map Change.move).foldl (change now) t
      = t ++ rows.map fun row => (queued row).follow now moves := by
  have unique : ∀ m ∈ moves, Unique (t ++ rows.map queued) m.id := by
    intro m hm
    obtain ⟨row, hrow, here⟩ := List.mem_map.mp (known m hm)
    have only : ∀ r ∈ t ++ rows.map queued, r.id = m.id → r = queued row := by
      intro r hr same
      rcases List.mem_append.mp hr with hr | hr
      · exact absurd (same.trans here.symm) (fresh.absent row hrow r hr)
      · obtain ⟨other, hother, rfl⟩ := List.mem_map.mp hr
        rw [List.inj_on_of_nodup_map fresh.distinct hother hrow (same.trans here.symm)]
    exact fun r hr r' hr' h h' => (only r hr h).trans (only r' hr' h').symm
  rw [List.foldl_append, foldl_insert fresh, foldl_move unique, List.map_append,
    List.map_map]
  congr 1
  conv_rhs => rw [← List.map_id t]
  refine List.map_congr_left fun r hr => Record.follow_of_absent fun m hm => ?_
  obtain ⟨row, hrow, here⟩ := List.mem_map.mp (known m hm)
  exact here ▸ (fresh.absent row hrow r hr).symm

/-- A new row is the only one with its identifier. -/
theorem filter_rows {rows : List (String × α)} {t : Table α} {f : Record α → Record α}
    (same : ∀ r, (f r).id = r.id) (fresh : t.Fresh rows) {row : String × α} (hrow : row ∈ rows) :
    (t ++ rows.map fun row => f (queued row)).filter (·.id = row.1) = [f (queued row)] := by
  have old : t.filter (·.id = row.1) = [] :=
    List.filter_eq_nil_iff.mpr fun r hr => by simpa using fresh.absent row hrow r hr
  have only : rows.filter (·.1 = row.1) = [row] := by
    obtain ⟨before, after, rfl⟩ := List.append_of_mem hrow
    have distinct := fresh.distinct
    rw [List.map_append, List.map_cons] at distinct
    have apart := List.nodup_middle.mp distinct
    rw [List.nodup_cons, ← List.map_append] at apart
    have others : ∀ other ∈ before ++ after, other.1 ≠ row.1 := fun other hother equal =>
      apart.1 (List.mem_map.mpr ⟨other, hother, equal⟩)
    rw [List.filter_append, List.filter_cons_of_pos (by simp), List.filter_eq_nil_iff.mpr,
      List.filter_eq_nil_iff.mpr]
    · rfl
    · exact fun other hother => by simpa using others other (List.mem_append_right _ hother)
    · exact fun other hother => by simpa using others other (List.mem_append_left _ hother)
  have new : (rows.map fun row => f (queued row)).filter (·.id = row.1)
      = (rows.filter (·.1 = row.1)).map fun row => f (queued row) := by
    rw [List.filter_map]
    congr 1
    exact List.filter_congr fun other _ => by simp [same, queued]
  rw [List.filter_append, old, new, only]
  rfl

/-- No row with an identifier has ended. -/
def Open (t : Table α) (id : String) : Prop :=
  ∀ r ∈ t, r.id = id → ∃ status, r.status = .status status ∧ status.isTerminal = false

/-- A row with the identifier ends only by a move to an end. -/
theorem Open.change {t : Table α} {id : String} (running : t.Open id) {c : Change α}
    (goes : ∀ m, c = .move m → m.id = id → m.status.isTerminal = false) (now : Timestamp) :
    Open (t.change now c) id := by
  cases c with
  | insert row =>
    rw [Table.change, insert?]
    split
    · exact running
    · intro r hr here
      rcases List.mem_append.mp hr with hr | hr
      · exact running r hr here
      · rw [List.mem_singleton.mp hr]
        exact ⟨.queued, rfl, rfl⟩
  | move m =>
    rw [Table.change, advance]
    cases advanced : (t.find? m.id).bind (Record.advance? now m.status m.detail) with
    | none => exact running
    | some next =>
      obtain ⟨row, found, advanced⟩ := Option.bind_eq_some_iff.mp advanced
      have named : row.id = m.id := by simpa using List.find?_some found
      intro r hr here
      obtain ⟨old, hold, rfl⟩ := List.mem_map.mp hr
      split at here
      · rw [(Record.advance?_same advanced).1, named] at here
        rw [if_pos ‹_›]
        exact ⟨m.status, Record.advance?_status advanced, goes m rfl here⟩
      · rw [if_neg ‹_›]
        exact running old hold here

theorem Open.foldl {t : Table α} {id : String} (running : t.Open id) {changes : List (Change α)}
    (go : ∀ m, .move m ∈ changes → m.id = id → m.status.isTerminal = false) (now : Timestamp) :
    Open (changes.foldl (Table.change now) t) id := by
  induction changes generalizing t with
  | nil => exact running
  | cons c rest ih =>
    refine ih (running.change (fun m hm => go m (hm ▸ List.mem_cons_self)) now) fun m hm => ?_
    exact go m (List.mem_cons_of_mem _ hm)

end Table

/-! ## Reading -/

namespace Record

theorem Readable.times {cell? : Option TimeCell} (h : ∀ c ∈ cell?, ∃ t, c = .time t)
    (column : Nat) : ∃ time?, cell?.mapM (TimeCell.read column) = .ok time? := by
  cases cell? with
  | none => exact ⟨none, rfl⟩
  | some c =>
    obtain ⟨t, rfl⟩ := h c rfl
    exact ⟨some t, rfl⟩

theorem Readable.queued (row : String × α) : (Table.queued row).Readable :=
  ⟨⟨_, rfl⟩, by simp [Table.queued], by simp [Table.queued]⟩

end Record

namespace Store

theorem readStage_ok {r : Record StageData} (h : r.Readable) :
    ∃ record, readStage r = .ok record ∧ record.id = r.id := by
  obtain ⟨status, read⟩ := h.status
  obtain ⟨started, reads⟩ := Record.Readable.times h.startedAt 5
  obtain ⟨finished, reads'⟩ := Record.Readable.times h.finishedAt 6
  exact ⟨_, by simp only [readStage, read, StatusCell.read, reads, reads']; rfl, rfl⟩

theorem readApplicationFlow_ok {r : Record ApplicationFlowData} (h : r.Readable) :
    ∃ record, readApplicationFlow r = .ok record ∧ record.id = r.id := by
  obtain ⟨status, read⟩ := h.status
  obtain ⟨started, reads⟩ := Record.Readable.times h.startedAt 6
  obtain ⟨finished, reads'⟩ := Record.Readable.times h.finishedAt 7
  exact ⟨_, by simp only [readApplicationFlow, read, StatusCell.read, reads, reads']; rfl, rfl⟩

theorem readFlow_ok {r : Record FlowData} (h : r.Readable) :
    ∃ record, readFlow r = .ok record ∧ r.status = .status record.status := by
  obtain ⟨status, read⟩ := h.status
  obtain ⟨started, reads⟩ := Record.Readable.times h.startedAt 4
  obtain ⟨finished, reads'⟩ := Record.Readable.times h.finishedAt 5
  exact ⟨_, by simp only [readFlow, read, StatusCell.read, reads, reads']; rfl, read⟩

end Store

/-! ## What events change -/

namespace Event

/-- The row that is inserted when the outermost flow is announced. -/
def flowRow : Event → Option (String × FlowData)
  | flowQueued flow =>
    if flow.isRoot then
      some (flow.id,
        { tenantId := (flow.scope.text? tenantParam).getD ""
          type := (flow.scope.text? typeParam).getD "" })
    else
      none
  | _ => none

/-- The row that is inserted when a nested flow is announced. -/
def applicationFlowRow : Event → Option (String × ApplicationFlowData)
  | flowQueued flow =>
    if flow.isRoot then
      none
    else
      some (flow.id,
        { flowId := flow.rootId
          tenantId := (flow.scope.text? tenantParam).getD ""
          applicationId := (flow.scope.text? applicationIdParam).getD ""
          type := (flow.scope.text? typeParam).getD "" })
  | _ => none

/-- The row that is inserted when a stage is announced. -/
def stageRow : Event → Option (String × StageData)
  | stageQueued stage => some (stage.id, { flowId := stage.flowId, name := stage.name })
  | _ => none

/-- The move of the outermost flow, or of a nested one. -/
def flowMove (root : Bool) : Event → Option Move
  | flowStart flow =>
    if flow.isRoot = root then some { id := flow.id, status := .inProgress } else none
  | flowFinish flow status => if flow.isRoot = root then some { id := flow.id, status } else none
  | _ => none

/-- The move of a stage. -/
def stageMove : Event → Option Move
  | stageStart stage => some { id := stage.id, status := .inProgress }
  | stageSuccess stage => some { id := stage.id, status := .finished }
  | stageError stage detail => some { id := stage.id, status := .failed, detail := some detail }
  | stageRollback stage status detail => some { id := stage.id, status, detail := some detail }
  | stageSkipped stage reason =>
    some { id := stage.id, status := .skipped, detail := some s!"SKIPPED: {reason}" }
  | _ => none

/-- How an event changes a table, given the row that it inserts and the move that it makes. -/
def changes (row : Event → Option (String × α)) (move : Event → Option Move) (e : Event) :
    List (Change α) :=
  (row e).toList.map .insert ++ (move e).toList.map .move

/-- Events that announce, and then events that do not: rows are inserted, and then they move. -/
theorem flatMap_changes {row : Event → Option (String × α)} {move : Event → Option Move}
    {announced events : List Event} (still : ∀ e ∈ announced, move e = none)
    (started : ∀ e ∈ events, row e = none) :
    (announced ++ events).flatMap (changes row move)
      = (announced.filterMap row).map Change.insert ++ (events.filterMap move).map Change.move := by
  have inserts : announced.flatMap (changes row move) = (announced.filterMap row).map .insert := by
    rw [List.filterMap_eq_flatMap_toList, List.map_flatMap]
    exact List.flatMap_congr fun e he => by simp [changes, still e he]
  have moves : events.flatMap (changes row move) = (events.filterMap move).map .move := by
    rw [List.filterMap_eq_flatMap_toList, List.map_flatMap]
    exact List.flatMap_congr fun e he => by simp [changes, started e he]
  rw [List.flatMap_append, inserts, moves]

end Event

/-- A table after events that announce and events that do not: it has the rows that were there, and
each row that is announced, after its moves. -/
theorem Table.foldl_changes {now : Timestamp} {row : Event → Option (String × α)}
    {move : Event → Option Move} {announced events : List Event} {t : Table α}
    (still : ∀ e ∈ announced, move e = none) (started : ∀ e ∈ events, row e = none)
    (fresh : t.Fresh (announced.filterMap row))
    (known : ∀ m ∈ events.filterMap move, m.id ∈ (announced.filterMap row).map (·.1)) :
    ((announced ++ events).flatMap (Event.changes row move)).foldl (change now) t
      = t ++ (announced.filterMap row).map fun row =>
          (queued row).follow now (events.filterMap move) := by
  rw [Event.flatMap_changes still started, foldl_change fresh known]

namespace Store

/-- An event changes each table on its own. -/
theorem record_tables (s : Store) (e : Event) :
    (s.record e).clock = s.clock ∧
      (s.record e).flows
        = (e.changes Event.flowRow (Event.flowMove true)).foldl (Table.change s.clock) s.flows ∧
      (s.record e).applicationFlows
        = (e.changes Event.applicationFlowRow (Event.flowMove false)).foldl (Table.change s.clock)
            s.applicationFlows ∧
      (s.record e).stages
        = (e.changes Event.stageRow Event.stageMove).foldl (Table.change s.clock) s.stages := by
  cases e with
  | flowQueued flow =>
    rw [record, recordFlow]
    cases root : flow.isRoot with
    | true =>
      simp only [if_pos, insertFlow]
      split <;> simp_all [orUnchanged, Event.changes, Event.flowRow, Event.applicationFlowRow,
        Event.stageRow, Event.flowMove, Event.stageMove, Table.change]
    | false =>
      simp only [Bool.false_eq_true, if_false, insertApplicationFlow]
      split <;> simp_all [orUnchanged, Event.changes, Event.flowRow, Event.applicationFlowRow,
        Event.stageRow, Event.flowMove, Event.stageMove, Table.change]
  | stageQueued stage =>
    rw [record, insertStage]
    split <;> simp_all [orUnchanged, Event.changes, Event.flowRow, Event.applicationFlowRow,
      Event.stageRow, Event.flowMove, Event.stageMove, Table.change]
  | flowStart flow | flowFinish flow =>
    rw [record, recordFlowStatus]
    cases root : flow.isRoot <;>
      simp [root, updateFlow, updateApplicationFlow, Event.changes, Event.flowRow,
        Event.applicationFlowRow, Event.stageRow, Event.flowMove, Event.stageMove, Table.change]
  | _ => exact ⟨rfl, rfl, rfl, rfl⟩

theorem recordAll_tables (s : Store) (events : List Event) :
    (s.recordAll events).flows
        = (events.flatMap (Event.changes Event.flowRow (Event.flowMove true))).foldl
            (Table.change s.clock) s.flows ∧
      (s.recordAll events).applicationFlows
        = (events.flatMap (Event.changes Event.applicationFlowRow (Event.flowMove false))).foldl
            (Table.change s.clock) s.applicationFlows ∧
      (s.recordAll events).stages
        = (events.flatMap (Event.changes Event.stageRow Event.stageMove)).foldl
            (Table.change s.clock) s.stages := by
  induction events generalizing s with
  | nil => exact ⟨rfl, rfl, rfl⟩
  | cons e rest ih =>
    obtain ⟨clock, flows, applicationFlows, stages⟩ := s.record_tables e
    have later := ih (s.record e)
    rw [clock, flows, applicationFlows, stages] at later
    simp only [List.flatMap_cons, List.foldl_append]
    exact later

end Store

end Provisioning
