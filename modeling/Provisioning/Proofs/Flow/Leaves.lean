import Provisioning.Proofs.Flow.Compensation

/-!
# The stages of a tree

Whatever the strategies in a tree, a run that does not fail has called all its stages one after
another with success (`Flow.run_completes`). A property of the machine that no call of a stage of
the tree breaks holds throughout a walk (`Walk.preserves`).
-/

namespace Provisioning

variable {α β σ : Type}

/-- The leaf with another stage. -/
def Leaf.map (f : α → β) (l : Leaf α) : Leaf β :=
  { stage := f l.stage, info := l.info, scope := l.scope }

namespace FlowNode

section

variable [Named α]

mutual

/-- The stages of a node in order, except those in flows that are not to be run. -/
def leaves (info : FlowInfo) (path : String) : FlowNode α → List (Leaf α)
  | stage s => [info.leaf path s]
  | flow header nodes =>
    if header.skipReason.isSome then []
    else leavesIn (info.child header) (childPath path header.id) nodes
  | parallel name children => leavesIn info (childPath path name) children

/-- The stages of nodes in order, except those in flows that are not to be run. -/
def leavesIn (info : FlowInfo) (path : String) : List (FlowNode α) → List (Leaf α)
  | [] => []
  | node :: rest => leaves info path node ++ leavesIn info path rest

end

mutual

theorem leaf?_mem {info : FlowInfo} {path : String} {node : FlowNode α} {p : Place} {l : Leaf α}
    (here : node.leaf? info path p = some l) : l ∈ node.leaves info path := by
  cases node with
  | stage s => cases p <;> simp_all [leaf?, leaves]
  | flow header nodes =>
    cases p with
    | nil => simp [leaf?] at here
    | cons i rest =>
      cases hs : header.skipReason with
      | some reason => simp [leaf?, hs] at here
      | none =>
        have below : leafIn? (info.child header) (childPath path header.id) nodes i rest = some l := by
          simpa [leaf?, hs] using here
        simpa [leaves, hs] using leafIn?_mem below
  | parallel name children =>
    cases p with
    | nil => simp [leaf?] at here
    | cons i rest =>
      rw [leaf?] at here
      exact leafIn?_mem here

theorem leafIn?_mem {info : FlowInfo} {path : String} {nodes : List (FlowNode α)} {i : Nat}
    {p : Place} {l : Leaf α} (here : leafIn? info path nodes i p = some l) :
    l ∈ leavesIn info path nodes := by
  cases nodes with
  | nil => simp [leafIn?] at here
  | cons node rest =>
    rw [leavesIn, List.mem_append]
    cases i with
    | zero =>
      rw [leafIn?] at here
      exact .inl (leaf?_mem here)
    | succ i =>
      rw [leafIn?] at here
      exact .inr (leafIn?_mem here)

end

@[simp]
theorem leavesIn_append (info : FlowInfo) (path : String) (ns ms : List (FlowNode α)) :
    leavesIn info path (ns ++ ms) = leavesIn info path ns ++ leavesIn info path ms := by
  induction ns with
  | nil => rfl
  | cons node rest ih => simp [leavesIn, ih]

end

/-! ## Stages without their places -/

mutual

/-- The stages of a node in order without their places, except those in flows that are not to be
run. -/
def stages : FlowNode α → List α
  | stage s => [s]
  | flow header nodes => if header.skipReason.isSome then [] else stagesIn nodes
  | parallel _ children => stagesIn children

/-- The stages of nodes in order without their places, except those in flows that are not to be
run. -/
def stagesIn : List (FlowNode α) → List α
  | [] => []
  | node :: rest => stages node ++ stagesIn rest

end

@[simp]
theorem stagesIn_append (ns ms : List (FlowNode α)) :
    stagesIn (ns ++ ms) = stagesIn ns ++ stagesIn ms := by
  induction ns with
  | nil => rfl
  | cons node rest ih => simp [stagesIn, ih]

mutual

theorem leaves_stages [Named α] (info : FlowInfo) (path : String) (node : FlowNode α) :
    (node.leaves info path).map (·.stage) = node.stages := by
  cases node with
  | stage s => rfl
  | flow header nodes =>
    rw [leaves, stages]
    split
    · rfl
    · exact leavesIn_stages _ _ nodes
  | parallel name children => exact leavesIn_stages _ _ children

theorem leavesIn_stages [Named α] (info : FlowInfo) (path : String) (nodes : List (FlowNode α)) :
    (leavesIn info path nodes).map (·.stage) = stagesIn nodes := by
  cases nodes with
  | nil => rfl
  | cons node rest =>
    simp [leavesIn, stagesIn, leaves_stages info path node, leavesIn_stages info path rest]

end

/-! ## Nodes without flows -/

mutual

/-- Whether there is no flow in a node. -/
def flat : FlowNode α → Bool
  | stage _ => true
  | flow _ _ => false
  | parallel _ children => flatIn children

/-- Whether there is no flow in nodes. -/
def flatIn : List (FlowNode α) → Bool
  | [] => true
  | node :: rest => flat node && flatIn rest

end

theorem flatIn_iff {nodes : List (FlowNode α)} : flatIn nodes ↔ ∀ node ∈ nodes, node.flat := by
  induction nodes with
  | nil => simp [flatIn]
  | cons node rest ih => simp [flatIn, ih]

theorem flatIn_append (ns ms : List (FlowNode α)) :
    flatIn (ns ++ ms) = (flatIn ns && flatIn ms) := by
  induction ns with
  | nil => rfl
  | cons node rest ih => rw [List.cons_append, flatIn, flatIn, ih, Bool.and_assoc]

mutual

theorem flat_map (f : α → β) (node : FlowNode α) : (node.map f).flat = node.flat := by
  cases node with
  | stage s => rfl
  | flow header nodes => rfl
  | parallel name children => exact flatIn_mapAll f children

theorem flatIn_mapAll (f : α → β) (nodes : List (FlowNode α)) :
    flatIn (mapAll f nodes) = flatIn nodes := by
  cases nodes with
  | nil => rfl
  | cons node rest => rw [mapAll, flatIn, flatIn, flat_map f node, flatIn_mapAll f rest]

end

mutual

theorem allCancel_of_flat {node : FlowNode α} (h : node.flat) : node.allCancel := by
  cases node with
  | stage s => rfl
  | flow header nodes => simp [flat] at h
  | parallel name children => exact allCancelIn_of_flatIn h

theorem allCancelIn_of_flatIn {nodes : List (FlowNode α)} (h : flatIn nodes) :
    allCancelIn nodes := by
  cases nodes with
  | nil => rfl
  | cons node rest =>
    rw [flatIn, Bool.and_eq_true] at h
    rw [allCancelIn, allCancel_of_flat h.1, allCancelIn_of_flatIn h.2, Bool.true_and]

end

mutual

/-- Stages around which there is no further flow see the parameters of the flow around the node. -/
theorem scope_of_flat [Named α] {info : FlowInfo} {path : String} {node : FlowNode α}
    (h : node.flat) {l : Leaf α} (hl : l ∈ node.leaves info path) : l.scope = info.scope := by
  cases node with
  | stage s => simp_all [leaves, FlowInfo.leaf]
  | flow header nodes => simp [flat] at h
  | parallel name children => exact scope_of_flatIn h hl

theorem scope_of_flatIn [Named α] {info : FlowInfo} {path : String} {nodes : List (FlowNode α)}
    (h : flatIn nodes) {l : Leaf α} (hl : l ∈ leavesIn info path nodes) :
    l.scope = info.scope := by
  cases nodes with
  | nil => simp [leavesIn] at hl
  | cons node rest =>
    rw [flatIn, Bool.and_eq_true] at h
    rw [leavesIn, List.mem_append] at hl
    rcases hl with hl | hl
    · exact scope_of_flat h.1 hl
    · exact scope_of_flatIn h.2 hl

end

/-! ## Replaced stages -/

theorem mapAll_append (f : α → β) (ns ms : List (FlowNode α)) :
    mapAll f (ns ++ ms) = mapAll f ns ++ mapAll f ms := by
  induction ns with
  | nil => rfl
  | cons node rest ih => rw [List.cons_append, mapAll, mapAll, ih, List.cons_append]

section

variable [Named α] [Named β] {f : α → β}

theorem leaf_map (names : ∀ s, Named.name (f s) = Named.name s) (info : FlowInfo) (path : String)
    (s : α) : info.leaf path (f s) = (info.leaf path s).map f := by
  simp [FlowInfo.leaf, Leaf.map, names]

mutual

theorem leaf?_map (names : ∀ s, Named.name (f s) = Named.name s) (info : FlowInfo) (path : String)
    (node : FlowNode α) (p : Place) :
    (node.map f).leaf? info path p = (node.leaf? info path p).map (·.map f) := by
  cases node with
  | stage s => cases p <;> simp [map, leaf?, leaf_map names]
  | flow header nodes =>
    cases p with
    | nil => simp [map, leaf?]
    | cons i rest =>
      simp only [map, leaf?]
      split
      · rfl
      · exact leafIn?_map names _ _ nodes i rest
  | parallel name children =>
    cases p with
    | nil => simp [map, leaf?]
    | cons i rest => exact leafIn?_map names _ _ children i rest

theorem leafIn?_map (names : ∀ s, Named.name (f s) = Named.name s) (info : FlowInfo)
    (path : String) (nodes : List (FlowNode α)) (i : Nat) (p : Place) :
    leafIn? info path (mapAll f nodes) i p = (leafIn? info path nodes i p).map (·.map f) := by
  cases nodes with
  | nil => simp [mapAll, leafIn?]
  | cons node rest =>
    cases i with
    | zero => exact leaf?_map names info path node p
    | succ i => exact leafIn?_map names info path rest i p

end

mutual

theorem leaves_map (names : ∀ s, Named.name (f s) = Named.name s) (info : FlowInfo)
    (path : String) (node : FlowNode α) :
    (node.map f).leaves info path = (node.leaves info path).map (·.map f) := by
  cases node with
  | stage s => simp [map, leaves, leaf_map names]
  | flow header nodes =>
    simp only [map, leaves]
    split
    · rfl
    · exact leavesIn_map names _ _ nodes
  | parallel name children => exact leavesIn_map names _ _ children

theorem leavesIn_map (names : ∀ s, Named.name (f s) = Named.name s) (info : FlowInfo)
    (path : String) (nodes : List (FlowNode α)) :
    leavesIn info path (mapAll f nodes) = (leavesIn info path nodes).map (·.map f) := by
  cases nodes with
  | nil => rfl
  | cons node rest =>
    simp [mapAll, leavesIn, leaves_map names info path node, leavesIn_map names info path rest]

end

end

mutual

theorem allCancel_map (f : α → β) (node : FlowNode α) : (node.map f).allCancel = node.allCancel := by
  cases node with
  | stage s => rfl
  | flow header nodes => simp [map, allCancel, allCancelIn_map f nodes]
  | parallel name children => exact allCancelIn_map f children

theorem allCancelIn_map (f : α → β) (nodes : List (FlowNode α)) :
    allCancelIn (mapAll f nodes) = allCancelIn nodes := by
  cases nodes with
  | nil => rfl
  | cons node rest =>
    simp [mapAll, allCancelIn, allCancel_map f node, allCancelIn_map f rest]

end

end FlowNode

namespace Flow

/-- The stages of a flow in order, except those in flows that are not to be run. -/
def leaves [Named α] (f : Flow α) : List (Leaf α) :=
  if f.header.skipReason.isSome then []
  else FlowNode.leavesIn (FlowInfo.root f.header) f.id f.nodes

theorem leaf?_mem [Named α] {f : Flow α} {p : Place} {l : Leaf α} (here : f.leaf? p = some l) :
    l ∈ f.leaves := by
  cases p with
  | nil => simp [leaf?] at here
  | cons i rest =>
    cases hs : f.header.skipReason with
    | some reason => simp [leaf?, hs] at here
    | none =>
      have below : FlowNode.leafIn? (FlowInfo.root f.header) f.id f.nodes i rest = some l := by
        simpa [leaf?, hs] using here
      simpa [leaves, hs] using FlowNode.leafIn?_mem below

theorem leaf?_map [Named α] [Named β] {f : α → β} (names : ∀ s, Named.name (f s) = Named.name s)
    (g : Flow α) (p : Place) : (g.map f).leaf? p = (g.leaf? p).map (·.map f) := by
  cases p with
  | nil => rfl
  | cons i rest =>
    have ih := FlowNode.leafIn?_map names (FlowInfo.root g.header) g.id g.nodes i rest
    cases hs : g.header.skipReason <;> simp_all [leaf?, map, id]

theorem leaves_map [Named α] [Named β] {f : α → β} (names : ∀ s, Named.name (f s) = Named.name s)
    (g : Flow α) : (g.map f).leaves = g.leaves.map (·.map f) := by
  have ih := FlowNode.leavesIn_map names (FlowInfo.root g.header) g.id g.nodes
  cases hs : g.header.skipReason <;> simp_all [leaves, map, id]

end Flow

/-! ## Runs that do not fail -/

/-- The stages of leaves do their work one after another on a machine, all of them with success. -/
inductive Completes : List (Leaf (Stage σ)) → Machine σ → Machine σ → Prop where
  /-- There is nothing to do. -/
  | nil (m : Machine σ) : Completes [] m m
  /-- A stage succeeds, and then the others. -/
  | cons {l : Leaf (Stage σ)} {rest : List (Leaf (Stage σ))} {m m' : Machine σ}
      (ok : (l.execute m).outcome = .ok ()) (later : Completes rest (l.executed m) m') :
      Completes (l :: rest) m m'

theorem Completes.append {ls ls' : List (Leaf (Stage σ))} {m m' m'' : Machine σ}
    (first : Completes ls m m') (second : Completes ls' m' m'') :
    Completes (ls ++ ls') m m'' := by
  induction first with
  | nil => exact second
  | cons ok _ ih => exact .cons ok (ih second)

namespace FlowNode

theorem stage_completes {s : Stage σ} {info : FlowInfo} {path : String} {m : Machine σ}
    (good : (s.run info path m).status.isFailure = false) :
    Completes [info.leaf path s] m (s.run info path m).machine := by
  cases ho : (s.execute (m.context (info.stage path s.name) info.scope) m.world).outcome with
  | ok u =>
    simp only [Stage.run, ho]
    exact .cons ho (.nil _)
  | error e => simp [Stage.run, ho, ExecutionStatus.isFailure] at good

/-- A flow that does not fail has run all its nodes, none of which has failed. -/
theorem ended_finished {info : FlowInfo} {r : SequenceRun σ}
    (good : (info.ended r).status.isFailure = false) : ∃ done, r.ending = .ran false done := by
  cases he : r.ending with
  | ran failed done =>
    cases failed with
    | false => exact ⟨done, rfl⟩
    | true => simp [FlowInfo.ended, he, ExecutionStatus.isFailure] at good
  | stopped undone => cases undone <;> simp [FlowInfo.ended, he, Rollback.status,
      ExecutionStatus.isFailure] at good

/-- A sequence in which a node has failed has not run all its nodes without a failure. -/
theorem withFailure_ending {r : SequenceRun σ} {done : List (Completed σ)} :
    r.withFailure.ending ≠ .ran false done := by
  unfold SequenceRun.withFailure
  cases he : r.ending <;> simp [he]

mutual

/-- A run of a node that does not fail has called all its stages with success. -/
theorem run_completes {info : FlowInfo} {path : String} {m : Machine σ} {node : FlowNode (Stage σ)}
    (good : (node.run info path m).status.isFailure = false) :
    Completes (node.leaves info path) m (node.run info path m).machine := by
  cases node with
  | stage s => exact stage_completes good
  | flow header nodes =>
    rw [run] at good ⊢
    cases hs : header.skipReason with
    | some reason =>
      rw [leaves, hs]
      exact .nil m
    | none =>
      simp only [hs, leaves, Option.isSome_none, Bool.false_eq_true, ↓reduceIte] at good ⊢
      have finished := ended_finished good
      exact runSequence_completes finished
  | parallel name children =>
    rw [run] at good ⊢
    exact (runChildren_completes good).2

theorem runSequence_completes {strategy : ExecutionStrategy} {info : FlowInfo} {path : String}
    {m : Machine σ} {completed : List (Completed σ)} {nodes : List (FlowNode (Stage σ))}
    (good : ∃ done, (runSequence strategy info path m completed nodes).ending = .ran false done) :
    Completes (leavesIn info path nodes) m
      (runSequence strategy info path m completed nodes).machine := by
  cases nodes with
  | nil => exact .nil m
  | cons node rest =>
    rw [runSequence.eq_def] at good ⊢
    cases hf : (run info path m node).status.isFailure with
    | true =>
      obtain ⟨done, good⟩ := good
      cases strategy with
      | cancelOnError => simp [hf, FlowInfo.stopped] at good
      | ignoreOnError =>
        simp only [hf, ↓reduceIte, SequenceRun.cons] at good
        exact absurd good withFailure_ending
    | false =>
      simp only [hf, Bool.false_eq_true, ↓reduceIte, SequenceRun.cons, leavesIn] at good ⊢
      have first := run_completes hf
      have later := runSequence_completes good
      exact first.append later

theorem runChildren_completes {info : FlowInfo} {path : String} {m : Machine σ}
    {status : ExecutionStatus} {completed : List (Completed σ)} {children : List (FlowNode (Stage σ))}
    (good : (runChildren info path m status completed children).status.isFailure = false) :
    status.isFailure = false ∧
      Completes (leavesIn info path children) m
        (runChildren info path m status completed children).machine := by
  cases children with
  | nil => exact ⟨good, .nil m⟩
  | cons child rest =>
    rw [runChildren] at good ⊢
    obtain ⟨before, later⟩ := runChildren_completes good
    rw [groupStatus_isFailure, Bool.or_eq_false_iff] at before
    have first := run_completes before.2
    exact ⟨before.1, first.append later⟩

end

end FlowNode

/-- A run of a flow that does not fail has called all its stages one after another with success. -/
theorem Flow.run_completes {f : Flow (Stage σ)} {world : σ}
    (good : (f.run world).report.status.isFailure = false) :
    Completes f.leaves { world, results := .empty } (f.run world).machine := by
  unfold run runNodes at good ⊢
  cases hs : f.header.skipReason with
  | some reason =>
    rw [leaves, hs]
    exact .nil _
  | none =>
    simp only [hs] at good ⊢
    simp only [leaves, hs, Option.isSome_none, Bool.false_eq_true, ↓reduceIte]
    have finished := FlowNode.ended_finished good
    exact FlowNode.runSequence_completes finished

/-! ## What no call breaks -/

/-- The machine after the work of a leaf has been undone. -/
def Leaf.undone (l : Leaf (Stage σ)) (cancel : StageContext → σ → StageStep σ) (m : Machine σ) :
    Machine σ :=
  m.after l.info.id (cancel (m.context l.info l.scope) m.world)

/-- A property of the machine that no call of a stage breaks holds at the end of a walk. -/
theorem Walk.preserves {leaf : Place → Option (Leaf (Stage σ))} {s t : Progress σ}
    {ms : List (Moment σ)} (walk : Walk leaf s ms t) {P : Machine σ → Prop}
    (executes : ∀ p l, leaf p = some l → ∀ m, P m → P (l.executed m))
    (cancels : ∀ p l, leaf p = some l → ∀ cancel, l.stage.cancel = some cancel →
      ∀ m, P m → P (l.undone cancel m))
    (start : P s.machine) : P t.machine := by
  induction walk with
  | nil => exact start
  | cons step _ ih =>
    refine ih ?_
    cases step with
    | succeeded m _ here ok | failed m _ here error => exact executes _ _ here m start
    | undone m _ here can ok | notUndone m _ here can error => exact cancels _ _ here _ can m start
    | told => exact start

/-- A property of the machine that no call of a stage breaks holds after a run, if no flow that goes
on after errors lies below one that cancels. -/
theorem Flow.run_preserves {f : Flow (Stage σ)} {world : σ} (closed : f.cancelClosed)
    {P : Machine σ → Prop}
    (executes : ∀ l ∈ f.leaves, ∀ m, P m → P (l.executed m))
    (cancels : ∀ l ∈ f.leaves, ∀ cancel, l.stage.cancel = some cancel →
      ∀ m, P m → P (l.undone cancel m))
    (start : P { world, results := .empty }) : P (f.run world).machine := by
  obtain ⟨left, leaves⟩ := f.moments_leaves world closed
  refine leaves.walk.preserves ?_ ?_ start
  · intro _ l here
    exact executes l (leaf?_mem here)
  · intro _ l here
    exact cancels l (leaf?_mem here)

end Provisioning
