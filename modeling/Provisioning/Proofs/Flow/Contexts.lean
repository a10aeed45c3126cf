import Mathlib.Data.List.Induction
import Mathlib.Data.List.Pairwise
import Provisioning.Proofs.Flow.Concurrent
import Provisioning.Proofs.Flow.Nesting
import Provisioning.Proofs.Ordered.Lookup

/-!
# Contexts of stages

A stage that is called sees the parameters of the flows around it and the results of all stages, and
it stores results of its own. What is called is given by its place in the tree, also when it is
called once more to undo its work; and since stages with different paths have results of their own,
what is found under a path was stored by the stage with the path. This holds for any number of
workers, however the calls of the children of a group are mixed (`Flow.MayCall`).
-/

namespace Provisioning

/-! ## Calls -/

/-- A call of the stage at a place, to do its work or to undo it. -/
structure StageCall where
  /-- The place. -/
  place : Place
  /-- The outermost flow. -/
  rootFlowId : String
  /-- The innermost flow around the stage. -/
  flowId : String
  /-- The path of the stage. -/
  stageId : String
  /-- The parameters that the stage sees. -/
  scope : Scope
  /-- Whether it is called to undo its work. -/
  undoes : Bool := false

namespace StageCall

/-- What the stage is given, when the results are these. -/
def context (c : StageCall) (results : StageResults) : StageContext :=
  { rootFlowId := c.rootFlowId, flowId := c.flowId, stageId := c.stageId, scope := c.scope, results }

/-- The stage is called once more, to undo its work. -/
def undo (c : StageCall) : StageCall := { c with undoes := true }

end StageCall

/-- The call of a stage that is at a place, to do its work. -/
def Leaf.call {α : Type} (l : Leaf α) (place : Place) : StageCall :=
  { place, rootFlowId := l.info.rootId, flowId := l.info.flowId, stageId := l.info.id
    scope := l.scope }

/-- What happens to results in the course of a run. -/
inductive Access where
  /-- A stage is called. -/
  | call (c : StageCall)
  /-- A stage that was called stores a result. -/
  | store (c : StageCall) (value : Data)

namespace Access

/-- The call that it is part of. -/
def caller : Access → StageCall
  | call c => c
  | store c _ => c

/-- The results afterwards. -/
def apply (results : StageResults) : Access → StageResults
  | call _ => results
  | store c value => ((c.context results).store value).results

/-- What is stored at a place. -/
def storedAt (p : Place) : Access → Option Data
  | call _ => none
  | store c value => if c.place = p then some value else none

end Access

/-- A call, and the results that are stored in it. -/
def StageCall.accesses (c : StageCall) (values : List Data) : List Access :=
  .call c :: values.map (.store c)

theorem StageCall.caller_of_mem {c : StageCall} {values : List Data} {a : Access}
    (h : a ∈ c.accesses values) : a.caller = c := by
  rcases List.mem_cons.mp h with rfl | h
  · rfl
  · obtain ⟨value, -, rfl⟩ := List.mem_map.mp h
    rfl

/-- The results after a run, from its start. -/
def resultsAfter (as : List Access) : StageResults := as.foldl Access.apply .empty

/-- The last value that the stage at a place has stored. -/
def lastStored (p : Place) (as : List Access) : Option Data := (as.filterMap (·.storedAt p)).getLast?

theorem resultsAfter_concat (as : List Access) (a : Access) :
    resultsAfter (as ++ [a]) = a.apply (resultsAfter as) := by
  simp [resultsAfter]

theorem lastStored_concat (p : Place) (as : List Access) (a : Access) :
    lastStored p (as ++ [a]) = (a.storedAt p).or (lastStored p as) := by
  cases h : a.storedAt p <;> simp [lastStored, h]

/-! ## What a run may call -/

variable {α : Type} [Named α]

/-- Work is undone, one piece after another: each stage is called again, unless it cannot undo. -/
inductive MayCallBack : List StageCall → List Access → Prop where
  /-- Nothing is left. -/
  | nil : MayCallBack [] []
  /-- A stage cannot undo its work. -/
  | stays {c : StageCall} {rest : List StageCall} {as : List Access} (later : MayCallBack rest as) :
      MayCallBack (c :: rest) as
  /-- A stage is called to undo its work. -/
  | undone {c : StageCall} {rest : List StageCall} {as : List Access} (values : List Data)
      (later : MayCallBack rest as) : MayCallBack (c :: rest) (c.undo.accesses values ++ as)

mutual

/-- The calls that a run of the node at a place may make, and those whose work may have to be undone
later, last first: some of the work of the node, in any order. It is left open what a stage stores,
whether it fails, and what becomes of a failure. -/
inductive MayCall : FlowInfo → String → Place → FlowNode α → List Access → List StageCall →
    Prop where
  /-- A stage is called. -/
  | stage {info : FlowInfo} {path : String} {place : Place} {s : α} {left : List StageCall}
      (values : List Data) (some_left : left.Subperm [(info.leaf path s).call place]) :
      MayCall info path place (.stage s) (((info.leaf path s).call place).accesses values) left
  /-- A flow is not to be run. -/
  | skipped {info : FlowInfo} {path : String} {place : Place} {header : FlowHeader}
      {nodes : List (FlowNode α)} (disqualified : header.skipReason.isSome) :
      MayCall info path place (.flow header nodes) [] []
  /-- A nested flow runs. -/
  | flow {info : FlowInfo} {path : String} {place : Place} {header : FlowHeader}
      {nodes : List (FlowNode α)} {as : List Access} {work left : List StageCall}
      (runs : header.skipReason = none)
      (ran : SequenceMayCall (info.child header) (FlowNode.childPath path header.id) place 0 []
        nodes as work) (some_left : left.Subperm work) :
      MayCall info path place (.flow header nodes) as left
  /-- The children of a parallel group run at the same time. -/
  | parallel {info : FlowInfo} {path : String} {place : Place} {name : String}
      {children : List (FlowNode α)} {as : List Access} {work left : List StageCall}
      (ran : EachMayCall info (FlowNode.childPath path name) place 0 children as work)
      (some_left : left.Subperm work) :
      MayCall info path place (.parallel name children) as left

/-- The calls that a run of nodes may make one after another behind work that is done (last first);
the first one is the child of a place with the position. -/
inductive SequenceMayCall : FlowInfo → String → Place → Nat → List StageCall →
    List (FlowNode α) → List Access → List StageCall → Prop where
  /-- All nodes have run. -/
  | nil {info : FlowInfo} {path : String} {place : Place} {i : Nat} {work : List StageCall} :
      SequenceMayCall info path place i work [] [] work
  /-- A node runs, and then the others. -/
  | next {info : FlowInfo} {path : String} {place : Place} {i : Nat}
      {work own done : List StageCall} {node : FlowNode α} {rest : List (FlowNode α)}
      {as bs : List Access} (first : MayCall info path (place ++ [i]) node as own)
      (later : SequenceMayCall info path place (i + 1) (own ++ work) rest bs done) :
      SequenceMayCall info path place i work (node :: rest) (as ++ bs) done
  /-- A node runs, and everything is undone. -/
  | stopped {info : FlowInfo} {path : String} {place : Place} {i : Nat}
      {work own : List StageCall} {node : FlowNode α} {rest : List (FlowNode α)}
      {as bs : List Access} (first : MayCall info path (place ++ [i]) node as own)
      (undone : MayCallBack (own ++ work) bs) :
      SequenceMayCall info path place i work (node :: rest) (as ++ bs) []

/-- The calls that nodes may make at the same time. -/
inductive EachMayCall : FlowInfo → String → Place → Nat → List (FlowNode α) → List Access →
    List StageCall → Prop where
  /-- There is none. -/
  | nil {info : FlowInfo} {path : String} {place : Place} {i : Nat} :
      EachMayCall info path place i [] [] []
  /-- The calls of one mix with the calls of the others. -/
  | cons {info : FlowInfo} {path : String} {place : Place} {i : Nat} {child : FlowNode α}
      {rest : List (FlowNode α)} {as bs cs : List Access} {own work : List StageCall}
      (first : MayCall info path (place ++ [i]) child as own)
      (later : EachMayCall info path place (i + 1) rest bs work) (mixed : Interleaves as bs cs) :
      EachMayCall info path place i (child :: rest) cs (work ++ own)

end

/-- Less of the work may be left to be undone. -/
theorem MayCall.fewer {info : FlowInfo} {path : String} {place : Place} {node : FlowNode α}
    {as : List Access} {work left : List StageCall} (h : MayCall info path place node as work)
    (some_left : left.Subperm work) : MayCall info path place node as left := by
  cases h with
  | stage values some_work => exact .stage values (some_left.trans some_work)
  | skipped disqualified =>
    rw [List.subperm_nil.mp some_left]
    exact .skipped disqualified
  | flow runs ran some_work => exact .flow runs ran (some_left.trans some_work)
  | parallel ran some_work => exact .parallel ran (some_left.trans some_work)

/-- The calls that a run of a flow may make. -/
def Flow.MayCall (f : Flow α) (as : List Access) : Prop :=
  if f.header.skipReason.isSome then as = []
  else ∃ work, SequenceMayCall (FlowInfo.root f.header) f.id [] 0 [] f.nodes as work

/-! ## Which stages are called -/

section

variable {leaf : Place → Option (Leaf α)}

omit [Named α]

/-- The call is one of the stage at its place. -/
def StageCall.IsOf (leaf : Place → Option (Leaf α)) (c : StageCall) : Prop :=
  ∃ l, leaf c.place = some l ∧ c = { l.call c.place with undoes := c.undoes }

theorem Leaf.call_isOf {place : Place} {l : Leaf α} (here : leaf place = some l) :
    (l.call place).IsOf leaf :=
  ⟨l, here, rfl⟩

theorem StageCall.IsOf.undo {c : StageCall} (h : c.IsOf leaf) : c.undo.IsOf leaf := by
  obtain ⟨l, here, same⟩ := h
  exact ⟨l, here, by rw [same]; rfl⟩

theorem StageCall.accesses_isOf {c : StageCall} (h : c.IsOf leaf) (values : List Data) :
    ∀ a ∈ c.accesses values, a.caller.IsOf leaf := by
  intro a ha
  rwa [caller_of_mem ha]

theorem MayCallBack.isOf {work : List StageCall} {as : List Access} (h : MayCallBack work as)
    (done : ∀ c ∈ work, c.IsOf leaf) : ∀ a ∈ as, a.caller.IsOf leaf := by
  induction h with
  | nil => simp
  | stays _ ih => exact ih (List.forall_mem_cons.mp done).2
  | undone values _ ih =>
    obtain ⟨first, later⟩ := List.forall_mem_cons.mp done
    exact List.forall_mem_append.mpr ⟨StageCall.accesses_isOf first.undo values, ih later⟩

end

mutual

/-- Whatever is called below a node is called for the stage at its place, and so is what may have to
be undone. -/
theorem MayCall.isOf {leaf : Place → Option (Leaf α)} {info : FlowInfo} {path : String}
    {place : Place} {node : FlowNode α} {as : List Access} {work : List StageCall}
    (h : MayCall info path place node as work)
    (located : ∀ q, leaf (place ++ q) = node.leaf? info path q) :
    (∀ a ∈ as, a.caller.IsOf leaf) ∧ ∀ c ∈ work, c.IsOf leaf := by
  cases h with
  | @stage _ _ _ s _ values some_left =>
    have here : leaf place = some (info.leaf path s) := by simpa [FlowNode.leaf?] using located []
    have called := Leaf.call_isOf here
    exact ⟨StageCall.accesses_isOf called values,
      fun c hc => List.mem_singleton.mp (some_left.subset hc) ▸ called⟩
  | skipped disqualified => exact ⟨by simp, by simp⟩
  | flow runs ran some_left =>
    obtain ⟨calls, done⟩ := ran.isOf
      (fun k q => by simpa [FlowNode.leaf?, runs] using located (k :: q)) (by simp)
    exact ⟨calls, fun c hc => done c (some_left.subset hc)⟩
  | parallel ran some_left =>
    obtain ⟨calls, done⟩ := ran.isOf
      fun k q => by simpa [FlowNode.leaf?] using located (k :: q)
    exact ⟨calls, fun c hc => done c (some_left.subset hc)⟩

theorem SequenceMayCall.isOf {leaf : Place → Option (Leaf α)} {info : FlowInfo} {path : String}
    {place : Place} {i : Nat} {work done : List StageCall} {nodes : List (FlowNode α)}
    {as : List Access} (h : SequenceMayCall info path place i work nodes as done)
    (located : ∀ k q, leaf (place ++ (i + k) :: q) = FlowNode.leafIn? info path nodes k q)
    (before : ∀ c ∈ work, c.IsOf leaf) :
    (∀ a ∈ as, a.caller.IsOf leaf) ∧ ∀ c ∈ done, c.IsOf leaf := by
  cases h with
  | nil => exact ⟨by simp, before⟩
  | next first later =>
    obtain ⟨calls, own⟩ := first.isOf (FlowNode.located_head located)
    obtain ⟨calls', done⟩ := later.isOf (FlowNode.located_tail located)
      (List.forall_mem_append.mpr ⟨own, before⟩)
    exact ⟨List.forall_mem_append.mpr ⟨calls, calls'⟩, done⟩
  | stopped first undone =>
    obtain ⟨calls, own⟩ := first.isOf (FlowNode.located_head located)
    have back := undone.isOf (List.forall_mem_append.mpr ⟨own, before⟩)
    exact ⟨List.forall_mem_append.mpr ⟨calls, back⟩, by simp⟩

theorem EachMayCall.isOf {leaf : Place → Option (Leaf α)} {info : FlowInfo} {path : String}
    {place : Place} {i : Nat} {children : List (FlowNode α)} {as : List Access}
    {work : List StageCall} (h : EachMayCall info path place i children as work)
    (located : ∀ k q, leaf (place ++ (i + k) :: q) = FlowNode.leafIn? info path children k q) :
    (∀ a ∈ as, a.caller.IsOf leaf) ∧ ∀ c ∈ work, c.IsOf leaf := by
  cases h with
  | nil => exact ⟨by simp, by simp⟩
  | cons first later mixed =>
    obtain ⟨calls, own⟩ := first.isOf (FlowNode.located_head located)
    obtain ⟨calls', others⟩ := later.isOf (FlowNode.located_tail located)
    exact ⟨fun a ha => (mixed.mem.mp ha).elim (calls a) (calls' a),
      List.forall_mem_append.mpr ⟨others, own⟩⟩

end

theorem Flow.MayCall.isOf {f : Flow α} {as : List Access} (h : f.MayCall as) :
    ∀ a ∈ as, a.caller.IsOf f.leaf? := by
  unfold Flow.MayCall at h
  split at h
  · simp [h]
  · rename_i runs
    obtain ⟨work, ran⟩ := h
    exact (ran.isOf (Flow.located (by simpa using runs)) (by simp)).1

/-! ## Stages and their paths -/

namespace FlowNode

mutual

theorem leaf?_seats {info : FlowInfo} {path : String} (place : Place) {node : FlowNode α}
    {q : Place} {l : Leaf α} (here : node.leaf? info path q = some l) :
    .stage (place ++ q) l ∈ node.seats info path place := by
  cases node with
  | stage s => cases q <;> simp_all [leaf?, seats]
  | flow header nodes =>
    cases q with
    | nil => simp [leaf?] at here
    | cons i rest =>
      rw [leaf?] at here
      split at here
      · simp at here
      · rw [seats, List.mem_cons]
        exact .inr (by simpa using leafIn?_seats place 0 here)
  | parallel name children =>
    cases q with
    | nil => simp [leaf?] at here
    | cons i rest =>
      rw [leaf?] at here
      rw [seats]
      simpa using leafIn?_seats place 0 here

theorem leafIn?_seats {info : FlowInfo} {path : String} (place : Place) (i : Nat)
    {nodes : List (FlowNode α)} {k : Nat} {q : Place} {l : Leaf α}
    (here : leafIn? info path nodes k q = some l) :
    .stage (place ++ (i + k) :: q) l ∈ seatsIn info path place i nodes := by
  cases nodes with
  | nil => simp [leafIn?] at here
  | cons node rest =>
    rw [seatsIn, List.mem_append]
    cases k with
    | zero =>
      rw [leafIn?] at here
      exact .inl (by simpa using leaf?_seats (place ++ [i]) here)
    | succ k =>
      rw [leafIn?] at here
      exact .inr (by simpa [Nat.add_assoc, Nat.add_comm 1] using leafIn?_seats place (i + 1) here)

end

end FlowNode

namespace Flow

variable {f : Flow α}

theorem leaf?_seats {p : Place} {l : Leaf α} (here : f.leaf? p = some l) :
    .stage p l ∈ f.seats := by
  cases p with
  | nil => simp [leaf?] at here
  | cons i rest =>
    rw [leaf?] at here
    split at here
    · simp at here
    · rw [seats, List.mem_cons]
      exact .inr (by simpa using FlowNode.leafIn?_seats [] 0 here)

/-- Where no two stages have the same path, a path tells the place. -/
theorem place_unique (distinct : f.stagePaths.Nodup) {p q : Place} {l l' : Leaf α}
    (hp : f.leaf? p = some l) (hq : f.leaf? q = some l') (same : l.info.id = l'.info.id) :
    p = q := by
  rw [← stages_ids, stages, List.Nodup, List.pairwise_map, List.pairwise_filterMap] at distinct
  by_contra apart
  have differ : Seat.stage p l ≠ .stage q l' := fun equal => apart (Seat.stage.inj equal).1
  have : Std.Symm fun s t : Seat α =>
      ∀ i, s.stage? = some i → ∀ j, t.stage? = some j → i.id ≠ j.id :=
    ⟨fun s t h i hi j hj => (h j hj i hi).symm⟩
  exact distinct.forall (leaf?_seats hp) (leaf?_seats hq) differ l.info rfl l'.info rfl same

end Flow

/-! ## What a stage sees -/

namespace FlowNode

variable {α : Type}

mutual

/-- The flows of a node around a place, the innermost one first. -/
def around : FlowNode α → Place → List FlowHeader
  | flow header nodes, i :: rest => aroundIn nodes i rest ++ [header]
  | parallel _ children, i :: rest => aroundIn children i rest
  | _, _ => []

/-- The flows of nodes around a place below one of them, the innermost one first. -/
def aroundIn : List (FlowNode α) → Nat → Place → List FlowHeader
  | [], _, _ => []
  | node :: _, 0, rest => around node rest
  | _ :: nodes, i + 1, rest => aroundIn nodes i rest

end

variable [Named α]

mutual

/-- A stage sees the parameters of the flows around it. -/
theorem leaf?_scope {info : FlowInfo} {path : String} {node : FlowNode α} {q : Place} {l : Leaf α}
    (here : node.leaf? info path q = some l) :
    l.scope = (node.around q).map (·.params) ++ info.scope := by
  cases node with
  | stage s =>
    cases q with
    | nil =>
      obtain rfl := Option.some.inj here
      rfl
    | cons i rest => simp [leaf?] at here
  | flow header nodes =>
    cases q with
    | nil => simp [leaf?] at here
    | cons i rest =>
      rw [leaf?] at here
      split at here
      · simp at here
      · rw [leafIn?_scope here, around, List.map_append, List.append_assoc]
        rfl
  | parallel name children =>
    cases q with
    | nil => simp [leaf?] at here
    | cons i rest =>
      rw [leaf?] at here
      rw [leafIn?_scope here, around]

theorem leafIn?_scope {info : FlowInfo} {path : String} {nodes : List (FlowNode α)} {k : Nat}
    {q : Place} {l : Leaf α} (here : leafIn? info path nodes k q = some l) :
    l.scope = (aroundIn nodes k q).map (·.params) ++ info.scope := by
  cases nodes with
  | nil => simp [leafIn?] at here
  | cons node rest =>
    cases k with
    | zero =>
      rw [leafIn?] at here
      rw [leaf?_scope here, aroundIn]
    | succ k =>
      rw [leafIn?] at here
      rw [leafIn?_scope here, aroundIn]

end

end FlowNode

/-- The flows around a place, the innermost one first. -/
def Flow.around (f : Flow α) (p : Place) : List FlowHeader :=
  (FlowNode.flow f.header f.nodes).around p

theorem Flow.leaf?_scope {f : Flow α} {p : Place} {l : Leaf α} (here : f.leaf? p = some l) :
    l.scope = (f.around p).map (·.params) := by
  cases p with
  | nil => simp [leaf?] at here
  | cons i rest =>
    rw [leaf?] at here
    split at here
    · simp at here
    · rw [FlowNode.leafIn?_scope here, around, FlowNode.around, List.map_append]
      rfl

/-- The context of the stage at a place, where it is told what the stage at each place has stored
last. -/
structure StageContext.IsolatedAt (ctx : StageContext) (f : Flow α) (p : Place)
    (stored : Place → Option Data) : Prop where
  /-- It has the path of the stage. -/
  own : (f.leaf? p).map (·.info.id) = some ctx.stageId
  /-- Of a parameter it shows the value of the innermost flow around the stage that defines it. -/
  params : ∀ key, ctx.scope.get? key = (f.around p).findSome? (·.params.get? key)
  /-- Of a stage it shows what the stage itself has stored last. -/
  results : ∀ q l, f.leaf? q = some l → ctx.results.get? l.info.id = stored q
  /-- Nothing is found under other paths. -/
  others : ∀ id, (∀ q l, f.leaf? q = some l → l.info.id ≠ id) → ctx.results.get? id = none
  /-- The result of the stage is what it has stored itself last. -/
  result : ctx.result? = stored p

namespace Flow

variable {f : Flow α} {as : List Access}

/-- Under the path of a stage stands what the stage has stored last. -/
theorem get?_resultsAfter (distinct : f.stagePaths.Nodup)
    (calls : ∀ a ∈ as, a.caller.IsOf f.leaf?) {q : Place} {l : Leaf α} (here : f.leaf? q = some l) :
    (resultsAfter as).get? l.info.id = lastStored q as := by
  induction as using List.reverseRecOn with
  | nil => rfl
  | append_singleton as a ih =>
    rw [List.forall_mem_append, List.forall_mem_singleton] at calls
    rw [resultsAfter_concat, lastStored_concat, ← ih calls.1]
    cases a with
    | call c => rfl
    | store c value =>
      obtain ⟨l', there, same⟩ := calls.2
      have id : c.stageId = l'.info.id := congrArg StageCall.stageId same
      have told : l.info.id = c.stageId ↔ c.place = q := by
        rw [id]
        refine ⟨fun h => place_unique distinct there here h.symm, ?_⟩
        rintro rfl
        rw [Option.some.inj (here.symm.trans there)]
      simp only [Access.apply, StageContext.store, StageCall.context, OrderedMap.get?_insert, told,
        Access.storedAt]
      split <;> rfl

/-- Under a path of no stage stands nothing. -/
theorem get?_resultsAfter_of_ne (calls : ∀ a ∈ as, a.caller.IsOf f.leaf?) {id : String}
    (other : ∀ q l, f.leaf? q = some l → l.info.id ≠ id) : (resultsAfter as).get? id = none := by
  induction as using List.reverseRecOn with
  | nil => rfl
  | append_singleton as a ih =>
    rw [List.forall_mem_append, List.forall_mem_singleton] at calls
    rw [resultsAfter_concat]
    cases a with
    | call c => exact ih calls.1
    | store c value =>
      obtain ⟨l, there, same⟩ := calls.2
      have own : c.stageId = l.info.id := congrArg StageCall.stageId same
      have differ : id ≠ c.stageId := own ▸ (other _ l there).symm
      rw [Access.apply, StageContext.store, StageCall.context, OrderedMap.get?_insert, if_neg differ]
      exact ih calls.1

/-- Whatever the stages of a flow have stored, the context of a stage is isolated. -/
theorem context_isolated (distinct : f.stagePaths.Nodup)
    (calls : ∀ a ∈ as, a.caller.IsOf f.leaf?) {c : StageCall} (own : c.IsOf f.leaf?) :
    (c.context (resultsAfter as)).IsolatedAt f c.place fun q => lastStored q as := by
  obtain ⟨l, here, same⟩ := own
  have id : c.stageId = l.info.id := congrArg StageCall.stageId same
  have scope : c.scope = l.scope := congrArg StageCall.scope same
  constructor
  · simp [here, StageCall.context, id]
  · intro key
    rw [StageCall.context, scope, leaf?_scope here, Scope.get?, List.findSome?_map]
    rfl
  · exact fun q l' there => get?_resultsAfter distinct calls there
  · exact fun id other => get?_resultsAfter_of_ne calls other
  · rw [StageContext.result?, StageCall.context, id]
    exact get?_resultsAfter distinct calls here

end Flow

end Provisioning
