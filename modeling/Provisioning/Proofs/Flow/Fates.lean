import Mathlib.Data.List.Flatten
import Provisioning.Proofs.Flow.Concurrent

/-!
# What becomes of each flow and stage

What a run tells of a flow or a stage and of what is in it has one of a few forms, however deep it
is and whatever goes on beside it: it was skipped, or it ran as it would by itself, and the work
that it left may have been undone afterwards (`Fate`). Work that is left and not handed on is in a
flow that ended as failed.
-/

namespace Provisioning

variable {σ : Type}

/-! ## What is told at or below a place -/

/-- What is told at or below a place. -/
def toldBelow (p : Place) (told : List Told) : List Told :=
  told.filter fun t => decide (p <+: t.place)

theorem mem_toldBelow {p : Place} {told : List Told} {t : Told} :
    t ∈ toldBelow p told ↔ t ∈ told ∧ p <+: t.place := by
  simp [toldBelow]

@[simp]
theorem toldBelow_append (p : Place) (told told' : List Told) :
    toldBelow p (told ++ told') = toldBelow p told ++ toldBelow p told' := List.filter_append _ _

@[simp] theorem toldBelow_nil (p : Place) : toldBelow p [] = [] := rfl

theorem toldBelow_toldBelow {p q : Place} (below : p <+: q) (told : List Told) :
    toldBelow q (toldBelow p told) = toldBelow q told := by
  rw [toldBelow, toldBelow, toldBelow, List.filter_filter]
  refine List.filter_congr fun t _ => ?_
  by_cases h : q <+: t.place <;> simp [h, below.trans]

theorem toldBelow_eq_self {p : Place} {told : List Told} (h : ∀ t ∈ told, p <+: t.place) :
    toldBelow p told = told :=
  List.filter_eq_self.mpr fun t ht => decide_eq_true (h t ht)

theorem toldBelow_eq_nil {p : Place} {told : List Told} (h : ∀ t ∈ told, ¬ p <+: t.place) :
    toldBelow p told = [] :=
  List.filter_eq_nil_iff.mpr fun t ht => by simpa using h t ht

namespace Place

/-- Neither place is below the other. -/
def Apart (p q : Place) : Prop := ¬ p <+: q ∧ ¬ q <+: p

theorem not_below_of_apart {p q t : Place} (h : Apart p q) (ht : q <+: t) : ¬ p <+: t := fun hp =>
  (List.prefix_or_prefix_of_prefix hp ht).elim h.1 h.2

/-- What is below one child is apart from the other children. -/
theorem apart_of_child {place p : Place} {i k : Nat} (hp : place ++ [i] <+: p) (ne : i ≠ k) :
    Apart p (place ++ [k]) :=
  ⟨fun h => ne (child_unique (hp.trans h) (List.prefix_refl _)), fun h => ne (child_unique hp h)⟩

end Place

/-- Nothing that is told of other children is below a child. -/
theorem toldBelow_other {place p : Place} {i : Nat} (hp : place ++ [i] <+: p) {told : List Told}
    (h : ∀ t ∈ told, ∃ k ≠ i, place ++ [k] <+: t.place) : toldBelow p told = [] := by
  refine toldBelow_eq_nil fun t ht => ?_
  obtain ⟨k, ne, there⟩ := h t ht
  exact Place.not_below_of_apart (Place.apart_of_child hp ne.symm) there

/-! ## Work at or below a place -/

namespace Work

mutual

/-- The places of the flows and stages of a piece of work. -/
def places : Work → List Place
  | stage p _ _ => [p]
  | flow p _ work => p :: placesAll work

/-- The places of the flows and stages of pieces of work. -/
def placesAll : List Work → List Place
  | [] => []
  | c :: rest => places c ++ placesAll rest

end

theorem placesAll_eq_flatMap (work : List Work) : placesAll work = work.flatMap places := by
  induction work with
  | nil => rfl
  | cons c rest ih => rw [placesAll, List.flatMap_cons, ih]

@[simp]
theorem placesAll_append (work work' : List Work) :
    placesAll (work ++ work') = placesAll work ++ placesAll work' := by
  simp [placesAll_eq_flatMap]

theorem mem_placesAll {work : List Work} {q : Place} :
    q ∈ placesAll work ↔ ∃ c ∈ work, q ∈ c.places := by
  rw [placesAll_eq_flatMap, List.mem_flatMap]

mutual

/-- What was done in a flow is below the flow. -/
def Nested : Work → Prop
  | stage .. => True
  | flow p _ work => (∀ q ∈ placesAll work, p <+: q) ∧ NestedAll work

/-- In all pieces of work, what was done in a flow is below the flow. -/
def NestedAll : List Work → Prop
  | [] => True
  | c :: rest => Nested c ∧ NestedAll rest

end

theorem nestedAll_iff {work : List Work} : NestedAll work ↔ ∀ c ∈ work, c.Nested := by
  induction work with
  | nil => simp [NestedAll]
  | cons c rest ih => simp [NestedAll, ih]

theorem nestedAll_append {work work' : List Work} :
    NestedAll (work ++ work') ↔ NestedAll work ∧ NestedAll work' := by
  simp only [nestedAll_iff, List.mem_append, or_imp, forall_and]

mutual

/-- The part of a piece of work that is at or below a place. -/
def part (p : Place) : Work → List Work
  | stage q info cancellable => if p <+: q then [stage q info cancellable] else []
  | flow q info work => if p <+: q then [flow q info work] else partAll p work

/-- The parts of pieces of work that are at or below a place. -/
def partAll (p : Place) : List Work → List Work
  | [] => []
  | c :: rest => part p c ++ partAll p rest

end

theorem partAll_eq_flatMap (p : Place) (work : List Work) :
    partAll p work = work.flatMap (part p) := by
  induction work with
  | nil => rfl
  | cons c rest ih => rw [partAll, List.flatMap_cons, ih]

@[simp]
theorem partAll_append (p : Place) (work work' : List Work) :
    partAll p (work ++ work') = partAll p work ++ partAll p work' := by
  simp [partAll_eq_flatMap]

theorem part_eq_self {p : Place} {c : Work} (h : ∀ q ∈ c.places, p <+: q) : part p c = [c] := by
  cases c with
  | stage => exact if_pos (h _ (by simp [places]))
  | flow => exact if_pos (h _ (by simp [places]))

theorem partAll_eq_self {p : Place} {work : List Work} (h : ∀ q ∈ placesAll work, p <+: q) :
    partAll p work = work := by
  rw [partAll_eq_flatMap, List.flatMap_congr fun c hc => part_eq_self fun q hq =>
    h q (mem_placesAll.mpr ⟨c, hc, hq⟩), List.flatMap_singleton']

mutual

theorem part_eq_nil {p : Place} {c : Work} (h : ∀ q ∈ c.places, ¬ p <+: q) : part p c = [] := by
  cases c with
  | stage => exact if_neg (h _ (by simp [places]))
  | flow q info work =>
    rw [part, if_neg (h _ (by simp [places]))]
    exact partAll_eq_nil fun q hq => h q (by simp [places, hq])

theorem partAll_eq_nil {p : Place} {work : List Work} (h : ∀ q ∈ placesAll work, ¬ p <+: q) :
    partAll p work = [] := by
  cases work with
  | nil => rfl
  | cons c rest =>
    rw [partAll, part_eq_nil fun q hq => h q (by simp [placesAll, hq]),
      partAll_eq_nil fun q hq => h q (by simp [placesAll, hq]), List.append_nil]

end

theorem partAll_other {place p : Place} {i : Nat} (hp : place ++ [i] <+: p) {work : List Work}
    (h : ∀ q ∈ placesAll work, ∃ k ≠ i, place ++ [k] <+: q) : partAll p work = [] := by
  refine partAll_eq_nil fun q hq => ?_
  obtain ⟨k, ne, there⟩ := h q hq
  exact Place.not_below_of_apart (Place.apart_of_child hp ne.symm) there

end Work

open Work

/-! ## Undoing at or below a place -/

mutual

theorem MayUndo.tells {c : Work} {u : Undoing} (h : MayUndo c u) :
    ∀ t ∈ u.told, t.place ∈ c.places := by
  cases h with
  | stays => simp [Undoing.none]
  | cancelled outcome => cases outcome <;> simp [Undoing.ofStage, places]
  | flow undone =>
    intro t ht
    simp only [Undoing.ofFlow, List.mem_append, List.mem_singleton] at ht
    rcases ht with ht | rfl
    · exact List.mem_cons_of_mem _ (undone.tells t ht)
    · exact List.mem_cons_self

theorem MayUndoAll.tells {work : List Work} {u : Undoing} (h : MayUndoAll work u) :
    ∀ t ∈ u.told, t.place ∈ placesAll work := by
  cases h with
  | nil => simp [Undoing.none]
  | cons first later =>
    intro t ht
    rw [placesAll, List.mem_append]
    exact (List.mem_append.mp ht).imp (first.tells t) (later.tells t)

end

mutual

/-- What undoing work tells at or below a place is what undoing the part that is there tells. -/
theorem MayUndo.part {c : Work} {u : Undoing} (h : MayUndo c u) (p : Place) (nested : c.Nested) :
    ∃ v, MayUndoAll (c.part p) v ∧ toldBelow p u.told = v.told := by
  cases h with
  | stays =>
    rw [Work.part]
    split
    · exact ⟨_, .single .stays, rfl⟩
    · exact ⟨_, .nil, rfl⟩
  | @cancelled place info outcome =>
    have called : MayUndo (.stage place info true) _ := .cancelled outcome
    have told := called.tells
    simp only [places, List.mem_singleton] at told
    rw [Work.part]
    split
    · rename_i here
      exact ⟨_, .single called, toldBelow_eq_self fun t ht => told t ht ▸ here⟩
    · rename_i here
      exact ⟨_, .nil, toldBelow_eq_nil fun t ht => told t ht ▸ here⟩
  | @flow place info work u undone =>
    rw [Work.part]
    split
    · rename_i here
      have again : MayUndo (.flow place info work) _ := .flow undone
      refine ⟨_, .single again, toldBelow_eq_self fun t ht => here.trans ?_⟩
      rcases List.mem_cons.mp (again.tells t ht) with same | inside
      · exact same ▸ List.prefix_refl _
      · exact nested.1 _ inside
    · rename_i here
      obtain ⟨v, undone', tells⟩ := undone.part p nested.2
      refine ⟨v, undone', ?_⟩
      rw [Undoing.ofFlow, toldBelow_append, tells, toldBelow_eq_nil (by simpa using here),
        List.append_nil]

theorem MayUndoAll.part {work : List Work} {u : Undoing} (h : MayUndoAll work u) (p : Place)
    (nested : NestedAll work) :
    ∃ v, MayUndoAll (partAll p work) v ∧ toldBelow p u.told = v.told := by
  cases h with
  | nil => exact ⟨_, .nil, rfl⟩
  | cons first later =>
    obtain ⟨v, undone, tells⟩ := first.part p nested.1
    obtain ⟨v', undone', tells'⟩ := later.part p nested.2
    exact ⟨_, undone.append undone', by simp [Undoing.andThen, tells, tells']⟩

end

/-! ## Where a run tells -/

section

variable {S : Place → Prop}

mutual

theorem FlowNode.skipTold_tells {info : FlowInfo} {path reason : String} {place : Place}
    {node : FlowNode (Stage σ)} (here : ∀ s ∈ node.seats info path place, S s.place) :
    ∀ t ∈ node.skipTold info path reason place, S t.place := by
  cases node with
  | stage s => simpa [FlowNode.skipTold, FlowNode.seats] using here
  | flow header nodes =>
    rw [FlowNode.seats, List.forall_mem_cons] at here
    intro t ht
    rw [FlowNode.skipTold, List.mem_append, List.mem_singleton] at ht
    rcases ht with ht | rfl
    · exact FlowNode.skipToldIn_tells here.2 t ht
    · exact here.1
  | parallel name children => exact FlowNode.skipToldIn_tells here

theorem FlowNode.skipToldIn_tells {info : FlowInfo} {path reason : String} {place : Place} {i : Nat}
    {nodes : List (FlowNode (Stage σ))}
    (here : ∀ s ∈ FlowNode.seatsIn info path place i nodes, S s.place) :
    ∀ t ∈ FlowNode.skipToldIn info path reason place i nodes, S t.place := by
  cases nodes with
  | nil => simp [FlowNode.skipToldIn]
  | cons node rest =>
    rw [FlowNode.seatsIn, List.forall_mem_append] at here
    rw [FlowNode.skipToldIn, List.forall_mem_append]
    exact ⟨FlowNode.skipTold_tells here.1, FlowNode.skipToldIn_tells here.2⟩

end

mutual

/-- Skipping a node tells that stages are skipped and that flows end as skipped. -/
theorem FlowNode.skipTold_event {info : FlowInfo} {path reason : String} {place : Place}
    {node : FlowNode (Stage σ)} : ∀ t ∈ node.skipTold info path reason place,
      (∃ stage, t.event = .stageSkipped stage reason) ∨
        ∃ flow, t.event = .flowFinish flow .skipped := by
  cases node with
  | stage s => simp [FlowNode.skipTold]
  | flow header nodes =>
    rw [FlowNode.skipTold, List.forall_mem_append, List.forall_mem_singleton]
    exact ⟨FlowNode.skipToldIn_event, .inr ⟨_, rfl⟩⟩
  | parallel name children => exact FlowNode.skipToldIn_event

theorem FlowNode.skipToldIn_event {info : FlowInfo} {path reason : String} {place : Place}
    {i : Nat} {nodes : List (FlowNode (Stage σ))} :
    ∀ t ∈ FlowNode.skipToldIn info path reason place i nodes,
      (∃ stage, t.event = .stageSkipped stage reason) ∨
        ∃ flow, t.event = .flowFinish flow .skipped := by
  cases nodes with
  | nil => simp [FlowNode.skipToldIn]
  | cons node rest =>
    rw [FlowNode.skipToldIn, List.forall_mem_append]
    exact ⟨FlowNode.skipTold_event, FlowNode.skipToldIn_event⟩

end

mutual

/-- A run of a node tells of the places of its flows and stages, and leaves work there. -/
theorem MayRun.tells {info : FlowInfo} {path : String} {place : Place}
    {node : FlowNode (Stage σ)} {r : NodeResult} (ran : MayRun info path place node r)
    (here : ∀ s ∈ node.seats info path place, S s.place) :
    (∀ t ∈ r.told, S t.place) ∧ ∀ q ∈ placesAll r.work, S q := by
  match ran with
  | .stage outcome =>
    rw [FlowNode.seats, List.forall_mem_singleton] at here
    cases outcome <;> simpa [NodeResult.ofStage, placesAll, places] using here
  | .flow ran =>
    rw [FlowNode.seats, List.forall_mem_cons] at here
    exact ran.tells here.1 here.2
  | .parallel ran completed =>
    obtain ⟨told, work⟩ := ran.tells here
    refine ⟨told, fun q hq => ?_⟩
    obtain ⟨c, hc, hq⟩ := mem_placesAll.mp hq
    obtain ⟨r, hr, hc⟩ := List.mem_flatMap.mp hc
    exact work r (completed.subset (List.mem_reverse.mp hr)) q (mem_placesAll.mpr ⟨c, hc, hq⟩)

theorem FlowMayRun.tells {info : FlowInfo} {path : String} {place : Place}
    {header : FlowHeader} {nodes : List (FlowNode (Stage σ))} {r : NodeResult}
    (ran : FlowMayRun info path place header nodes r) (own : S place)
    (inside : ∀ s ∈ FlowNode.seatsIn info path place 0 nodes, S s.place) :
    (∀ t ∈ r.told, S t.place) ∧ ∀ q ∈ placesAll r.work, S q := by
  match ran with
  | .skipped disqualified =>
    refine ⟨?_, by simp [NodeResult.ofSkipped, placesAll]⟩
    rw [NodeResult.ofSkipped, List.forall_mem_append, List.forall_mem_singleton]
    exact ⟨FlowNode.skipToldIn_tells inside, own⟩
  | .ended runs ran =>
    obtain ⟨told, work⟩ := ran.tells inside (by simp [placesAll])
    constructor
    · rw [NodeResult.ofFlow, List.cons_append, List.forall_mem_cons, List.forall_mem_append,
        List.forall_mem_singleton]
      exact ⟨own, told, own⟩
    · rw [NodeResult.ofFlow]
      split
      · rw [placesAll, placesAll, List.append_nil, places, List.forall_mem_cons]
        exact ⟨own, work⟩
      · simp [placesAll]

theorem SequenceMayRun.tells {strategy : ExecutionStrategy} {info : FlowInfo}
    {path : String} {place : Place} {i : Nat} {work : List Work}
    {nodes : List (FlowNode (Stage σ))} {l : NodeResult}
    (ran : SequenceMayRun strategy info path place i work nodes l)
    (here : ∀ s ∈ FlowNode.seatsIn info path place i nodes, S s.place)
    (done : ∀ q ∈ placesAll work, S q) :
    (∀ t ∈ l.told, S t.place) ∧ ∀ q ∈ placesAll l.work, S q := by
  match ran with
  | .nil => exact ⟨by simp, done⟩
  | .next first succeeds later =>
    rw [FlowNode.seatsIn, List.forall_mem_append] at here
    obtain ⟨told, left⟩ := first.tells here.1
    obtain ⟨told', left'⟩ := later.tells here.2 (by
      rw [placesAll_append, List.forall_mem_append]
      exact ⟨left, done⟩)
    exact ⟨List.forall_mem_append.mpr ⟨told, told'⟩, left'⟩
  | .ignored first fails later =>
    rw [FlowNode.seatsIn, List.forall_mem_append] at here
    obtain ⟨told', left'⟩ := later.tells here.2 done
    exact ⟨List.forall_mem_append.mpr ⟨(first.tells here.1).1, told'⟩, left'⟩
  | .stopped first fails undone =>
    rw [FlowNode.seatsIn, List.forall_mem_append] at here
    obtain ⟨told, left⟩ := first.tells here.1
    refine ⟨?_, by simp [NodeResult.ofStopped, placesAll]⟩
    rw [NodeResult.ofStopped, List.forall_mem_append, List.forall_mem_append]
    refine ⟨⟨told, fun t ht => ?_⟩, FlowNode.skipToldIn_tells here.2⟩
    have there := undone.tells t ht
    rw [placesAll_append, List.mem_append] at there
    exact there.elim (left _) (done _)

theorem EachMayRun.tells {info : FlowInfo} {path : String} {place : Place} {i : Nat}
    {children : List (FlowNode (Stage σ))} {results : List NodeResult} {told : List Told}
    (ran : EachMayRun info path place i children results told)
    (here : ∀ s ∈ FlowNode.seatsIn info path place i children, S s.place) :
    (∀ t ∈ told, S t.place) ∧ ∀ r ∈ results, ∀ q ∈ placesAll r.work, S q := by
  match ran with
  | .nil => simp
  | .cons first later mixed =>
    rw [FlowNode.seatsIn, List.forall_mem_append] at here
    obtain ⟨told, left⟩ := first.tells here.1
    obtain ⟨told', left'⟩ := later.tells here.2
    exact ⟨fun t ht => (mixed.mem.mp ht).elim (told t) (told' t),
      List.forall_mem_cons.mpr ⟨left, left'⟩⟩

end

end

theorem FlowNode.skipTold_below {info : FlowInfo} {path reason : String} {place : Place}
    {node : FlowNode (Stage σ)} :
    ∀ t ∈ node.skipTold info path reason place, place <+: t.place :=
  FlowNode.skipTold_tells fun _ hs => FlowNode.seats_below hs

theorem FlowNode.skipToldIn_below {info : FlowInfo} {path reason : String} {place : Place} {i : Nat}
    {nodes : List (FlowNode (Stage σ))} :
    ∀ t ∈ FlowNode.skipToldIn info path reason place i nodes, ∃ k ≥ i, place ++ [k] <+: t.place :=
  FlowNode.skipToldIn_tells (S := fun p => ∃ k ≥ i, place ++ [k] <+: p) fun _ hs =>
    FlowNode.seatsIn_below hs

theorem FlowNode.skipToldIn_inside {info : FlowInfo} {path reason : String} {place : Place}
    {i : Nat} {nodes : List (FlowNode (Stage σ))} :
    ∀ t ∈ FlowNode.skipToldIn info path reason place i nodes, ∃ k, place ++ [k] <+: t.place := by
  intro t ht
  obtain ⟨k, -, inside⟩ := FlowNode.skipToldIn_below t ht
  exact ⟨k, inside⟩

theorem FlowNode.toldBelow_skipToldIn_before {info : FlowInfo} {path reason : String}
    {place : Place} {i : Nat} {nodes : List (FlowNode (Stage σ))} {p : Place} {j : Nat}
    (hp : place ++ [j] <+: p) (before : j < i) :
    toldBelow p (FlowNode.skipToldIn info path reason place i nodes) = [] := by
  refine toldBelow_other hp fun t ht => ?_
  obtain ⟨k, hk, there⟩ := FlowNode.skipToldIn_below t ht
  exact ⟨k, by omega, there⟩

section

variable {info : FlowInfo} {path : String} {place : Place}

theorem MayRun.tells_below {node : FlowNode (Stage σ)} {r : NodeResult}
    (ran : MayRun info path place node r) :
    (∀ t ∈ r.told, place <+: t.place) ∧ ∀ q ∈ placesAll r.work, place <+: q :=
  ran.tells fun _ hs => FlowNode.seats_below hs

theorem FlowMayRun.tells_below {header : FlowHeader} {nodes : List (FlowNode (Stage σ))}
    {r : NodeResult} (ran : FlowMayRun info path place header nodes r) :
    (∀ t ∈ r.told, place <+: t.place) ∧ ∀ q ∈ placesAll r.work, place <+: q :=
  ran.tells (List.prefix_refl _) fun _ hs => FlowNode.seatsIn_above hs

theorem SequenceMayRun.tells_inside {strategy : ExecutionStrategy} {i : Nat}
    {nodes : List (FlowNode (Stage σ))} {l : NodeResult}
    (ran : SequenceMayRun strategy info path place i [] nodes l) :
    (∀ t ∈ l.told, ∃ k, place ++ [k] <+: t.place) ∧
      ∀ q ∈ placesAll l.work, ∃ k, place ++ [k] <+: q :=
  ran.tells (S := fun p => ∃ k, place ++ [k] <+: p)
    (fun _ hs => (FlowNode.seatsIn_below hs).imp fun _ below => below.2)
    (by simp [placesAll])

theorem EachMayRun.tells_below {i : Nat} {children : List (FlowNode (Stage σ))}
    {results : List NodeResult} {told : List Told}
    (ran : EachMayRun info path place i children results told) :
    (∀ t ∈ told, ∃ k ≥ i, place ++ [k] <+: t.place) ∧
      ∀ r ∈ results, ∀ q ∈ placesAll r.work, ∃ k ≥ i, place ++ [k] <+: q :=
  ran.tells (S := fun p => ∃ k ≥ i, place ++ [k] <+: p) fun _ hs => FlowNode.seatsIn_below hs

/-- A run of a child tells of nothing below another child, and leaves no work there. -/
theorem MayRun.other {i : Nat} {node : FlowNode (Stage σ)} {r : NodeResult}
    (ran : MayRun info path (place ++ [i]) node r) {p : Place} {j : Nat} (hp : place ++ [j] <+: p)
    (ne : i ≠ j) : toldBelow p r.told = [] ∧ partAll p r.work = [] :=
  ⟨toldBelow_other hp fun t ht => ⟨i, ne, ran.tells_below.1 t ht⟩,
    partAll_other hp fun q hq => ⟨i, ne, ran.tells_below.2 q hq⟩⟩

theorem EachMayRun.before {i : Nat} {children : List (FlowNode (Stage σ))}
    {results : List NodeResult} {told : List Told}
    (ran : EachMayRun info path place i children results told) {p : Place} {j : Nat}
    (hp : place ++ [j] <+: p) (before : j < i) :
    toldBelow p told = [] ∧ partAll p (results.flatMap (·.work)) = [] := by
  constructor
  · refine toldBelow_other hp fun t ht => ?_
    obtain ⟨k, hk, there⟩ := ran.tells_below.1 t ht
    exact ⟨k, by omega, there⟩
  · refine partAll_other hp fun q hq => ?_
    obtain ⟨c, hc, hq⟩ := mem_placesAll.mp hq
    obtain ⟨r, hr, hc⟩ := List.mem_flatMap.mp hc
    obtain ⟨k, hk, there⟩ := ran.tells_below.2 r hr q (mem_placesAll.mpr ⟨c, hc, hq⟩)
    exact ⟨k, by omega, there⟩

end

mutual

theorem MayRun.nested {info : FlowInfo} {path : String} {place : Place} {node : FlowNode (Stage σ)}
    {r : NodeResult} (ran : MayRun info path place node r) : NestedAll r.work := by
  match ran with
  | .stage outcome => cases outcome <;> simp [NodeResult.ofStage, NestedAll, Nested]
  | .flow ran => exact ran.nested
  | .parallel ran completed =>
    refine nestedAll_iff.mpr fun c hc => ?_
    obtain ⟨r, hr, hc⟩ := List.mem_flatMap.mp hc
    exact nestedAll_iff.mp (ran.nested r (completed.subset (List.mem_reverse.mp hr))) c hc

theorem FlowMayRun.nested {info : FlowInfo} {path : String} {place : Place} {header : FlowHeader}
    {nodes : List (FlowNode (Stage σ))} {r : NodeResult}
    (ran : FlowMayRun info path place header nodes r) : NestedAll r.work := by
  match ran with
  | .skipped disqualified => trivial
  | .ended runs ran =>
    rw [NodeResult.ofFlow]
    split
    · refine ⟨⟨fun q hq => ?_, ran.nested trivial⟩, trivial⟩
      obtain ⟨k, inside⟩ := ran.tells_inside.2 q hq
      exact Place.below_of_child inside
    · trivial

theorem SequenceMayRun.nested {strategy : ExecutionStrategy} {info : FlowInfo} {path : String}
    {place : Place} {i : Nat} {work : List Work} {nodes : List (FlowNode (Stage σ))}
    {l : NodeResult} (ran : SequenceMayRun strategy info path place i work nodes l)
    (done : NestedAll work) : NestedAll l.work := by
  match ran with
  | .nil => exact done
  | .next first _ later => exact later.nested (nestedAll_append.mpr ⟨first.nested, done⟩)
  | .ignored _ _ later => exact later.nested done
  | .stopped _ _ _ => trivial

theorem EachMayRun.nested {info : FlowInfo} {path : String} {place : Place} {i : Nat}
    {children : List (FlowNode (Stage σ))} {results : List NodeResult} {told : List Told}
    (ran : EachMayRun info path place i children results told) :
    ∀ r ∈ results, NestedAll r.work := by
  match ran with
  | .nil => simp
  | .cons first later _ => exact List.forall_mem_cons.mpr ⟨first.nested, later.nested⟩

end

theorem perm_eq_of_length {β : Type} {a b : List β} (h : a.Perm b) (short : b.length ≤ 1) :
    a = b := by
  match b, short with
  | [], _ => exact h.eq_nil
  | [x], _ => exact h.eq_singleton

/-! ## Fates -/

namespace Seat

/-- What may come of running a flow or a stage by itself. -/
def MayRun : Seat (Stage σ) → NodeResult → Prop
  | stage place leaf, r => ∃ outcome, r = .ofStage place leaf outcome
  | flow place path info header nodes, r => FlowMayRun info path place header nodes r

/-- What is told when a flow or a stage is skipped. -/
def skipTold (reason : String) : Seat (Stage σ) → List Told
  | stage place leaf => [⟨place, .stageSkipped leaf.info reason⟩]
  | flow place path info _ nodes =>
    FlowNode.skipToldIn info path reason place 0 nodes ++ [⟨place, .flowFinish info .skipped⟩]

/-- A flow or a stage leaves one piece of work or none. -/
theorem MayRun.work_length {s : Seat (Stage σ)} {r : NodeResult} (ran : s.MayRun r) :
    r.work.length ≤ 1 := by
  cases s with
  | stage place leaf =>
    obtain ⟨outcome, rfl⟩ := ran
    cases outcome <;> simp [NodeResult.ofStage]
  | flow place path info header nodes =>
    cases ran with
    | skipped => simp [NodeResult.ofSkipped]
    | ended runs ran =>
      rw [NodeResult.ofFlow]
      split <;> simp

end Seat

/-- The flow at a place is told to end with a status. -/
def EndsAs (told : List Told) (p : Place) (status : ExecutionStatus) : Prop :=
  ∃ info, ⟨p, .flowFinish info status⟩ ∈ told

/-- A flow around a place, or at it, is told to end with a status. -/
def EndsAround (told : List Told) (p : Place) (status : ExecutionStatus) : Prop :=
  ∃ q, q <+: p ∧ EndsAs told q status

theorem EndsAround.mono {told told' : List Told} (h : ∀ t ∈ told, t ∈ told') {p : Place}
    {status : ExecutionStatus} (ended : EndsAround told p status) : EndsAround told' p status := by
  obtain ⟨q, above, info, there⟩ := ended
  exact ⟨q, above, info, h _ there⟩

/-- What becomes of a flow or a stage: what is told of it and of what is in it, what is left of it,
and why something may be left that nobody undoes. -/
inductive Fate (s : Seat (Stage σ)) (told : List Told) (work : List Work) (lost : Prop) : Prop where
  /-- It is skipped. -/
  | skipped {reason : String} (tells : told = s.skipTold reason) (leaves : work = [])
  /-- It runs, and its work may still be undone. -/
  | ran {r : NodeResult} (ran : s.MayRun r) (tells : told = r.told) (leaves : work = r.work)
  /-- It runs, and its work is left as it is. -/
  | dropped {r : NodeResult} (ran : s.MayRun r) (tells : told = r.told) (leaves : work = [])
    (lost : lost)
  /-- It runs, and its work is undone. -/
  | undone {r : NodeResult} {u : Undoing} (ran : s.MayRun r) (undone : MayUndoAll r.work u)
    (tells : told = r.told ++ u.told) (leaves : work = [])

namespace Fate

variable {s : Seat (Stage σ)} {told : List Told} {work : List Work} {lost : Prop}

theorem imp {lost' : Prop} (h : Fate s told work lost) (weaker : lost → lost') :
    Fate s told work lost' := by
  cases h with
  | skipped tells leaves => exact .skipped tells leaves
  | ran ran tells leaves => exact .ran ran tells leaves
  | dropped ran tells leaves why => exact .dropped ran tells leaves (weaker why)
  | undone ran undone tells leaves => exact .undone ran undone tells leaves

theorem drop (h : Fate s told work lost) (why : lost) : Fate s told [] lost := by
  cases h with
  | skipped tells _ => exact .skipped tells rfl
  | ran ran tells _ => exact .dropped ran tells rfl why
  | dropped ran tells _ _ => exact .dropped ran tells rfl why
  | undone ran undone tells _ => exact .undone ran undone tells rfl

theorem undo (h : Fate s told work lost) {u : Undoing} (undone : MayUndoAll work u) :
    Fate s (told ++ u.told) [] lost := by
  cases h with
  | skipped tells leaves =>
    obtain rfl := (leaves ▸ undone).nil_eq
    exact .skipped (by simpa [Undoing.none] using tells) rfl
  | ran ran tells leaves => exact .undone ran (leaves ▸ undone) (by rw [tells]) rfl
  | dropped ran tells leaves why =>
    obtain rfl := (leaves ▸ undone).nil_eq
    exact .dropped ran (by simpa [Undoing.none] using tells) rfl why
  | undone ran before tells leaves =>
    obtain rfl := (leaves ▸ undone).nil_eq
    exact .undone ran before (by simpa [Undoing.none] using tells) rfl

/-- What comes after it leaves what is left as it is, or undoes it. -/
theorem continues (h : Fate s told work lost) {told' : List Told} {work' : List Work}
    (later : (told' = [] ∧ work' = work) ∨
      ∃ u, MayUndoAll work u ∧ told' = u.told ∧ work' = []) :
    Fate s (told ++ told') work' lost := by
  rcases later with ⟨rfl, rfl⟩ | ⟨u, undone, rfl, rfl⟩
  · rwa [List.append_nil]
  · exact h.undo undone

theorem work_length (h : Fate s told work lost) : work.length ≤ 1 := by
  cases h with
  | ran ran _ leaves => exact leaves ▸ ran.work_length
  | skipped _ leaves | dropped _ _ leaves | undone _ _ _ leaves => simp [leaves]

end Fate

mutual

theorem FlowNode.toldBelow_skipTold {info : FlowInfo} {path reason : String} {place : Place}
    {node : FlowNode (Stage σ)} {s : Seat (Stage σ)}
    (hs : s ∈ node.seats info path place) :
    toldBelow s.place (node.skipTold info path reason place) = s.skipTold reason := by
  cases node with
  | stage _ =>
    rw [FlowNode.seats, List.mem_singleton] at hs
    subst hs
    exact toldBelow_eq_self (by simp [FlowNode.skipTold])
  | flow header nodes =>
    rw [FlowNode.seats, List.mem_cons] at hs
    rcases hs with rfl | hs
    · have told (t : Told)
          (ht : t ∈ (FlowNode.flow header nodes).skipTold info path reason place) :
          place <+: t.place := FlowNode.skipTold_below t ht
      exact toldBelow_eq_self told
    · have own : ¬ s.place <+: place := FlowNode.seatsIn_inside hs
      rw [FlowNode.skipTold, toldBelow_append, FlowNode.toldBelow_skipToldIn hs,
        toldBelow_eq_nil (by simpa using own), List.append_nil]
  | parallel name children => exact FlowNode.toldBelow_skipToldIn hs

theorem FlowNode.toldBelow_skipToldIn {info : FlowInfo} {path reason : String} {place : Place}
    {i : Nat} {nodes : List (FlowNode (Stage σ))} {s : Seat (Stage σ)}
    (hs : s ∈ FlowNode.seatsIn info path place i nodes) :
    toldBelow s.place (FlowNode.skipToldIn info path reason place i nodes) = s.skipTold reason := by
  cases nodes with
  | nil => simp [FlowNode.seatsIn] at hs
  | cons node rest =>
    rw [FlowNode.seatsIn, List.mem_append] at hs
    rw [FlowNode.skipToldIn, toldBelow_append]
    rcases hs with hs | hs
    · rw [FlowNode.toldBelow_skipTold hs, FlowNode.toldBelow_skipToldIn_before
        (FlowNode.seats_below hs) (Nat.lt_succ_self i), List.append_nil]
    · obtain ⟨k, hk, here⟩ := FlowNode.seatsIn_below hs
      rw [FlowNode.toldBelow_skipToldIn hs, toldBelow_other here fun t ht => ?_, List.nil_append]
      exact ⟨i, by omega, FlowNode.skipTold_below t ht⟩

end

section

variable {info : FlowInfo} {path : String} {place : Place}

/-- A flow is finished, or it goes on on errors and has failed, or it cancels on errors and was
cancelled, in full or not. -/
theorem SequenceMayRun.ends {strategy : ExecutionStrategy} {i : Nat} {work : List Work}
    {nodes : List (FlowNode (Stage σ))} {l : NodeResult}
    (ran : SequenceMayRun strategy info path place i work nodes l) :
    l.status = .finished ∨ l.status = .failed ∧ strategy = .ignoreOnError ∨
      (∃ complete, l.status = Rollback.status complete) ∧ strategy = .cancelOnError ∧
        l.work = [] := by
  induction nodes generalizing i work l with
  | nil =>
    cases ran
    exact .inl rfl
  | cons node rest ih =>
    cases ran with
    | next _ _ later => simpa [NodeResult.andThen] using ih later
    | ignored => exact .inr (.inl ⟨rfl, rfl⟩)
    | stopped => exact .inr (.inr ⟨⟨_, rfl⟩, rfl, rfl⟩)

/-- What was left of a child before nodes run is still there after them, or it has been undone. -/
theorem SequenceMayRun.earlier {strategy : ExecutionStrategy} {i : Nat} {work : List Work}
    {nodes : List (FlowNode (Stage σ))} {l : NodeResult}
    (ran : SequenceMayRun strategy info path place i work nodes l)
    (done : NestedAll work) {p : Place} {j : Nat} (before : j < i)
    (hp : place ++ [j] <+: p) :
    (toldBelow p l.told = [] ∧ partAll p l.work = partAll p work) ∨
      ∃ u, MayUndoAll (partAll p work) u ∧ toldBelow p l.told = u.told ∧ partAll p l.work = [] := by
  -- The nodes are children behind that one, so none of them tells of it; all that can happen to it
  -- is that one of them fails and everything before is undone.
  induction nodes generalizing i work l with
  | nil =>
    cases ran
    exact .inl ⟨rfl, rfl⟩
  | cons node rest ih =>
    have none {r : NodeResult} (first : MayRun info path (place ++ [i]) node r) :
        toldBelow p r.told = [] ∧ partAll p r.work = [] := first.other hp (by omega)
    cases ran with
    | @next _ _ _ _ _ _ _ _ r l first succeeds later =>
      have together := nestedAll_append.mpr ⟨first.nested, done⟩
      simpa [NodeResult.andThen, none first] using ih later together (Nat.lt_succ_of_lt before)
    | ignored first fails later =>
      simpa [NodeResult.andThen, NodeResult.withFailure, none first] using
        ih later done (Nat.lt_succ_of_lt before)
    | @stopped _ _ _ _ _ _ _ r u first fails undone =>
      obtain ⟨v, hv, tells⟩ := undone.part p (nestedAll_append.mpr ⟨first.nested, done⟩)
      rw [partAll_append, (none first).2, List.nil_append] at hv
      have skipped : toldBelow p
          (FlowNode.skipToldIn info path skippedAfterFailure place (i + 1) rest) = [] :=
        FlowNode.toldBelow_skipToldIn_before hp (by omega)
      exact .inr ⟨v, hv, by simp [NodeResult.ofStopped, none first, tells, skipped], rfl⟩

end

mutual

/-- What becomes of each flow and stage of a node. -/
theorem MayRun.fate {info : FlowInfo} {path : String} {place : Place} {node : FlowNode (Stage σ)}
    {r : NodeResult} (ran : MayRun info path place node r) {s : Seat (Stage σ)}
    (hs : s ∈ node.seats info path place) :
    Fate s (toldBelow s.place r.told) (partAll s.place r.work)
      (EndsAround r.told s.place .failed) := by
  have inside := ran.tells_below
  match ran with
  | .stage outcome =>
    rw [FlowNode.seats, List.mem_singleton] at hs
    subst hs
    exact .ran ⟨outcome, rfl⟩ (toldBelow_eq_self inside.1) (partAll_eq_self inside.2)
  | .flow ran =>
    rw [FlowNode.seats, List.mem_cons] at hs
    rcases hs with rfl | hs
    · exact .ran ran (toldBelow_eq_self inside.1) (partAll_eq_self inside.2)
    · exact ran.fate hs
  | @MayRun.parallel _ _ _ _ _ _ results order _ ran completed =>
    have each := ran.fate hs
    -- At most one piece of work is left of it, so it does not matter which child completes first.
    have same : (partAll s.place (order.reverse.flatMap (·.work))).Perm
        (partAll s.place (results.flatMap (·.work))) := by
      simp only [partAll_eq_flatMap]
      exact (((order.reverse_perm).trans completed).flatMap_right _).flatMap_right _
    rwa [NodeResult.ofGroup, perm_eq_of_length same each.work_length]

theorem FlowMayRun.fate {info : FlowInfo} {path : String} {place : Place} {header : FlowHeader}
    {nodes : List (FlowNode (Stage σ))} {r : NodeResult}
    (ran : FlowMayRun info path place header nodes r) {s : Seat (Stage σ)}
    (hs : s ∈ FlowNode.seatsIn info path place 0 nodes) :
    Fate s (toldBelow s.place r.told) (partAll s.place r.work)
      (EndsAround r.told s.place .failed) := by
  have own : ¬ s.place <+: place := FlowNode.seatsIn_inside hs
  match ran with
  | @FlowMayRun.skipped _ _ _ _ _ _ reason disqualified =>
    have tells : toldBelow s.place (NodeResult.ofSkipped info path reason place nodes).told
        = s.skipTold reason := by
      rw [NodeResult.ofSkipped, toldBelow_append, FlowNode.toldBelow_skipToldIn hs,
        toldBelow_eq_nil (by simpa using own), List.append_nil]
    exact .skipped tells rfl
  | @FlowMayRun.ended _ _ _ _ _ _ l runs ran =>
    have nodesFate := ran.fate trivial (by simp [placesAll]) hs
    have tells : toldBelow s.place (l.ofFlow place info).told = toldBelow s.place l.told := by
      simp [NodeResult.ofFlow, toldBelow, own]
    have more : EndsAround l.told s.place .failed →
        EndsAround (l.ofFlow place info).told s.place .failed :=
      .mono fun _ ht => NodeResult.mem_told_ofFlow.mpr (.inr (.inl ht))
    have lost : l.status = .failed ∨ EndsAround l.told s.place .failed →
        EndsAround (l.ofFlow place info).told s.place .failed := by
      rintro (failed | failed)
      · exact ⟨place, FlowNode.seatsIn_above hs, info, by simp [NodeResult.ofFlow, failed]⟩
      · exact more failed
    rw [tells]
    -- Only a flow that finishes hands on what its nodes left; one that is cancelled has nothing.
    by_cases finished : l.status = .finished
    · have leaves : partAll s.place (l.ofFlow place info).work = partAll s.place l.work := by
        rw [NodeResult.ofFlow, if_pos finished, partAll, partAll, part, if_neg own, List.append_nil]
      rw [leaves]
      exact nodesFate.imp lost
    · have leaves : (l.ofFlow place info).work = [] := if_neg finished
      rw [leaves]
      rcases ran.ends with ended | ⟨failed, -⟩ | ⟨-, -, none⟩
      · exact absurd ended finished
      · exact (nodesFate.imp lost).drop (lost (.inl failed))
      · rw [none] at nodesFate
        exact nodesFate.imp lost

theorem SequenceMayRun.fate {strategy : ExecutionStrategy} {info : FlowInfo} {path : String}
    {place : Place} {i : Nat} {work : List Work} {nodes : List (FlowNode (Stage σ))}
    {l : NodeResult} (ran : SequenceMayRun strategy info path place i work nodes l)
    (nested : NestedAll work) (done : ∀ q ∈ placesAll work, ∃ k < i, place ++ [k] <+: q)
    {s : Seat (Stage σ)}
    (hs : s ∈ FlowNode.seatsIn info path place i nodes) :
    Fate s (toldBelow s.place l.told) (partAll s.place l.work)
      (l.status = .failed ∨ EndsAround l.told s.place .failed) := by
  -- The work of earlier children is apart, and so is what a child before that of `s` tells.
  have apart (here : place ++ [i] <+: s.place) : partAll s.place work = [] := by
    refine partAll_other here fun q hq => ?_
    obtain ⟨j, hj, there⟩ := done q hq
    exact ⟨j, by omega, there⟩
  have sooner : ∀ q ∈ placesAll work, ∃ k < i + 1, place ++ [k] <+: q := fun q hq =>
    (done q hq).imp fun _ before => ⟨before.1.trans (Nat.lt_succ_self i), before.2⟩
  have other {node : FlowNode (Stage σ)} {r : NodeResult}
      (first : MayRun info path (place ++ [i]) node r) {rest : List (FlowNode (Stage σ))}
      (hs : s ∈ FlowNode.seatsIn info path place (i + 1) rest) : toldBelow s.place r.told = [] := by
    obtain ⟨k, hk, here⟩ := FlowNode.seatsIn_below hs
    exact (first.other here (by omega)).1
  match ran with
  | .nil => simp [FlowNode.seatsIn] at hs
  | @SequenceMayRun.next _ _ _ _ _ _ _ node rest r l first succeeds later =>
    rw [FlowNode.seatsIn, List.mem_append] at hs
    have more : EndsAround r.told s.place .failed ∨ EndsAround l.told s.place .failed →
        EndsAround (r.andThen l).told s.place .failed := fun h =>
      h.elim (.mono fun _ => List.mem_append_left _) (.mono fun _ => List.mem_append_right _)
    rw [NodeResult.andThen, toldBelow_append]
    rcases hs with hs | hs
    · have here := FlowNode.seats_below hs
      have step := later.earlier (nestedAll_append.mpr ⟨first.nested, nested⟩)
        (Nat.lt_succ_self i) here
      rw [partAll_append, apart here, List.append_nil] at step
      exact ((first.fate hs).imp fun h => .inr (more (.inl h))).continues step
    · have together : ∀ q ∈ placesAll (r.work ++ work), ∃ k < i + 1, place ++ [k] <+: q := by
        rw [placesAll_append, List.forall_mem_append]
        exact ⟨fun q hq => ⟨i, by omega, first.tells_below.2 q hq⟩, sooner⟩
      have ih := later.fate (nestedAll_append.mpr ⟨first.nested, nested⟩) together hs
      rw [other first hs, List.nil_append]
      exact ih.imp (Or.imp_right fun h => more (.inr h))
  | @SequenceMayRun.ignored _ _ _ _ _ _ node rest r l first fails later =>
    rw [FlowNode.seatsIn, List.mem_append] at hs
    rw [NodeResult.withFailure, NodeResult.andThen, toldBelow_append]
    rcases hs with hs | hs
    · have here := FlowNode.seats_below hs
      have step := later.earlier nested (Nat.lt_succ_self i) here
      rw [apart here] at step
      exact (((first.fate hs).imp fun _ => .inl rfl).drop (.inl rfl)).continues step
    · have ih := later.fate nested sooner hs
      rw [other first hs, List.nil_append]
      exact ih.imp fun _ => .inl rfl
  | @SequenceMayRun.stopped _ _ _ _ _ _ node rest r u first fails undone =>
    rw [FlowNode.seatsIn, List.mem_append] at hs
    rw [NodeResult.ofStopped, toldBelow_append, toldBelow_append]
    rcases hs with hs | hs
    · have here := FlowNode.seats_below hs
      obtain ⟨v, undone', tells⟩ :=
        undone.part s.place (nestedAll_append.mpr ⟨first.nested, nested⟩)
      rw [partAll_append, apart here, List.append_nil] at undone'
      rw [tells, FlowNode.toldBelow_skipToldIn_before here (Nat.lt_succ_self i), List.append_nil]
      refine ((first.fate hs).undo undone').imp fun h => .inr (h.mono fun t ht => ?_)
      exact List.mem_append_left _ (List.mem_append_left _ ht)
    · obtain ⟨k, hk, here⟩ := FlowNode.seatsIn_below hs
      have nothing : toldBelow s.place u.told = [] := by
        refine toldBelow_other here fun t ht => ?_
        have there := undone.tells t ht
        rw [placesAll_append, List.mem_append] at there
        rcases there with there | there
        · exact ⟨i, by omega, first.tells_below.2 _ there⟩
        · obtain ⟨j, hj, there⟩ := done _ there
          exact ⟨j, by omega, there⟩
      rw [other first hs, nothing, FlowNode.toldBelow_skipToldIn hs]
      exact .skipped rfl rfl

theorem EachMayRun.fate {info : FlowInfo} {path : String} {place : Place} {i : Nat}
    {children : List (FlowNode (Stage σ))} {results : List NodeResult} {told : List Told}
    (ran : EachMayRun info path place i children results told) {s : Seat (Stage σ)}
    (hs : s ∈ FlowNode.seatsIn info path place i children) :
    Fate s (toldBelow s.place told) (partAll s.place (results.flatMap (·.work)))
      (EndsAround told s.place .failed) := by
  match ran with
  | .nil => simp [FlowNode.seatsIn] at hs
  | @EachMayRun.cons _ _ _ _ _ child rest r results others _ first later mixed =>
    rw [FlowNode.seatsIn, List.mem_append] at hs
    rw [List.flatMap_cons, partAll_append]
    -- Only one of the children tells anything below the place, so the mixture is that there.
    have restricted := mixed.filter fun t => decide (s.place <+: t.place)
    rcases hs with hs | hs
    · obtain ⟨nothing, none⟩ := later.before (FlowNode.seats_below hs) (Nat.lt_succ_self i)
      rw [← toldBelow, ← toldBelow, ← toldBelow, nothing] at restricted
      rw [restricted.eq_left, none, List.append_nil]
      exact (first.fate hs).imp (.mono fun t ht => mixed.mem.mpr (.inl ht))
    · obtain ⟨k, hk, here⟩ := FlowNode.seatsIn_below hs
      obtain ⟨nothing, none⟩ := first.other here (by omega)
      rw [← toldBelow, ← toldBelow, ← toldBelow, nothing] at restricted
      rw [restricted.eq_right, none, List.nil_append]
      exact (later.fate hs).imp (.mono fun t ht => mixed.mem.mpr (.inr ht))

end

theorem Flow.MayRun.fate {f : Flow (Stage σ)} {r : NodeResult} (ran : f.MayRun r)
    {s : Seat (Stage σ)} (hs : s ∈ f.seats) :
    Fate s (toldBelow s.place r.told) (partAll s.place r.work)
      (EndsAround r.told s.place .failed) := by
  have inside := FlowMayRun.tells_below ran
  rcases List.mem_cons.mp hs with rfl | hs
  · exact .ran ran (toldBelow_eq_self inside.1) (partAll_eq_self inside.2)
  · exact FlowMayRun.fate ran hs

end Provisioning
