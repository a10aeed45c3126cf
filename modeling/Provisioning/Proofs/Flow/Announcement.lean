import Provisioning.Proofs.Flow.Contexts
import Provisioning.Proofs.Flow.Paths
import Provisioning.Proofs.Flow.Reported

/-!
# What stages are announced as

The path of a stage and the innermost flow around it are worked out anew by each walk through a
tree: when its stages are listed, when they are announced, when they run, when they are skipped and
when their work is undone. All come to the names on the way down to the stage, and so whatever is
told of a stage later names it as it was announced (`Flow.told_as_announced`).
-/

namespace Provisioning

/-! ## Occurrences of stages -/

/-- A stage of a tree, at its place and as it is announced. -/
structure Occurrence where
  /-- The place. -/
  place : Place
  /-- What is announced. -/
  info : StageInfo
deriving DecidableEq, Repr

/-- The stage that is announced. -/
def Event.stageQueued? : Event → Option StageInfo
  | stageQueued stage => some stage
  | _ => none

variable {α σ : Type}

namespace Seat

/-- The stage at its place, if it is one. -/
def occurrence? : Seat α → Option Occurrence
  | stage place leaf => some { place, info := leaf.info }
  | flow .. => none

theorem map_occurrence? (s : Seat α) : s.occurrence?.map (·.info) = s.stage? := by cases s <;> rfl

theorem stageQueued?_queued (s : Seat α) : s.queued.stageQueued? = s.stage? := by cases s <;> rfl

end Seat

namespace Flow

variable [Named α]

/-- The stages of a flow, each at its place and as it is announced, in order. -/
def occurrences (f : Flow α) : List Occurrence := f.seats.filterMap Seat.occurrence?

theorem mem_occurrences {f : Flow α} {o : Occurrence} :
    o ∈ f.occurrences ↔ ∃ leaf, .stage o.place leaf ∈ f.seats ∧ leaf.info = o.info := by
  rw [occurrences, List.mem_filterMap]
  constructor
  · rintro ⟨s, hs, ho⟩
    cases s with
    | stage place leaf =>
      obtain rfl := Option.some.inj ho
      exact ⟨leaf, hs, rfl⟩
    | flow place path info header nodes => cases ho
  · rintro ⟨leaf, hs, same⟩
    exact ⟨_, hs, congrArg some (congrArg (Occurrence.mk o.place) same)⟩

theorem occurrences_info (f : Flow α) : f.occurrences.map (·.info) = f.stages := by
  rw [occurrences, List.map_filterMap, stages]
  exact congrArg (List.filterMap · f.seats) (funext Seat.map_occurrence?)

theorem announce_stages (f : Flow α) : f.announce.filterMap Event.stageQueued? = f.stages := by
  rw [announce_eq, List.filterMap_map, stages]
  exact congrArg (List.filterMap · f.seats) (funext Seat.stageQueued?_queued)

end Flow

/-! ## The order of the places -/

theorem Place.lt_child (p q : Place) (i : Nat) : p < p ++ i :: q := by
  have below : p ++ [] < p ++ i :: q := List.append_left_lt (List.nil_lt_cons i q)
  rwa [List.append_nil] at below

theorem Place.child_lt {p a b : Place} {i k : Nat} (earlier : i < k) (ha : p ++ [i] <+: a)
    (hb : p ++ [k] <+: b) : a < b := by
  obtain ⟨a, rfl⟩ := ha
  obtain ⟨b, rfl⟩ := hb
  simp only [List.append_assoc, List.singleton_append]
  exact List.append_left_lt (List.cons_lt_cons_iff.mpr (.inl earlier))

namespace FlowNode

variable [Named α]

mutual

theorem seats_sorted (info : FlowInfo) (path : String) (place : Place) (node : FlowNode α) :
    ((node.seats info path place).map Seat.place).Pairwise (· < ·) := by
  cases node with
  | stage s => exact List.pairwise_singleton _ _
  | flow header nodes =>
    rw [seats, List.map_cons, List.pairwise_cons]
    refine ⟨fun p hp => ?_, seatsIn_sorted _ _ place 0 nodes⟩
    obtain ⟨s, hs, rfl⟩ := List.mem_map.mp hp
    obtain ⟨k, -, q, hq⟩ := seatsIn_below hs
    rw [← hq, List.append_assoc]
    exact Place.lt_child place q k
  | parallel name children => exact seatsIn_sorted info (childPath path name) place 0 children

theorem seatsIn_sorted (info : FlowInfo) (path : String) (place : Place) (i : Nat)
    (nodes : List (FlowNode α)) :
    ((seatsIn info path place i nodes).map Seat.place).Pairwise (· < ·) := by
  cases nodes with
  | nil => exact List.Pairwise.nil
  | cons node rest =>
    rw [seatsIn, List.map_append, List.pairwise_append]
    refine ⟨seats_sorted info path (place ++ [i]) node,
      seatsIn_sorted info path place (i + 1) rest, fun p hp q hq => ?_⟩
    obtain ⟨s, hs, rfl⟩ := List.mem_map.mp hp
    obtain ⟨t, ht, rfl⟩ := List.mem_map.mp hq
    obtain ⟨k, later, below⟩ := seatsIn_below ht
    exact Place.child_lt later (seats_below hs) below

end

end FlowNode

/-- Stages are announced in the order of their places. -/
theorem Flow.occurrences_sorted [Named α] (f : Flow α) :
    (f.occurrences.map (·.place)).Pairwise (· < ·) := by
  have sorted := FlowNode.seatsIn_sorted (FlowInfo.root f.header) f.id [] 0 f.nodes
  rw [List.pairwise_map] at sorted ⊢
  rw [occurrences, seats, List.filterMap_cons_none rfl]
  have placed (s : Seat α) (o : Occurrence) (ho : s.occurrence? = some o) : o.place = s.place := by
    cases s with
    | stage p leaf => exact Option.some.inj ho ▸ rfl
    | flow p path info header nodes => cases ho
  refine sorted.filterMap _ fun s t earlier o ho o' ho' => ?_
  rw [placed s o ho, placed t o' ho']
  exact earlier

/-! ## The way down to a stage -/

namespace FlowNode

/-- The nodes on the way from a node down to a place, the node itself first. -/
def way (node : FlowNode α) (p : Place) : List (FlowNode α) := p.inits.filterMap node.node?

/-- The nodes on the way down to a place below one of several nodes. -/
def wayIn (nodes : List (FlowNode α)) (i : Nat) (p : Place) : List (FlowNode α) :=
  p.inits.filterMap (nodeIn? nodes i)

theorem node?_nil (node : FlowNode α) : node.node? [] = some node := by rw [node?]

theorem node?_cons (node : FlowNode α) (i : Nat) (p : Place) :
    node.node? (i :: p) = nodeIn? node.children i p := by
  cases node with
  | stage s => rw [node?, children, nodeIn?]
  | flow header nodes => rw [node?, children]
  | parallel name nodes => rw [node?, children]

theorem way_nil (node : FlowNode α) : node.way [] = [node] :=
  List.filterMap_cons_some node.node?_nil

theorem around_nil (node : FlowNode α) : node.around [] = [] := by cases node <;> simp [around]

theorem way_cons (node : FlowNode α) (i : Nat) (p : Place) :
    node.way (i :: p) = node :: wayIn node.children i p := by
  rw [way, List.inits_cons, List.filterMap_cons_some node.node?_nil, List.filterMap_map, wayIn]
  exact congrArg _ (congrArg (List.filterMap · p.inits) (funext (node.node?_cons i)))

theorem wayIn_zero (node : FlowNode α) (rest : List (FlowNode α)) (p : Place) :
    wayIn (node :: rest) 0 p = node.way p :=
  congrArg (List.filterMap · p.inits) (funext fun q => by rw [nodeIn?])

theorem wayIn_succ (node : FlowNode α) (rest : List (FlowNode α)) (i : Nat) (p : Place) :
    wayIn (node :: rest) (i + 1) p = wayIn rest i p :=
  congrArg (List.filterMap · p.inits) (funext fun q => by rw [nodeIn?])

variable [Named α]

/-- The stage in a flow, by the nodes on the way down to it below a path and by the flows around it,
the innermost one first. -/
def stageAt (info : FlowInfo) (path : String) (way : List (FlowNode α)) (around : List FlowHeader)
    (s : α) : StageInfo :=
  { id := (way.map name).foldl childPath path, name := Named.name s
    flowId := (around.map (·.id)).headD info.id, rootId := info.rootId }

theorem stageAt_child (info : FlowInfo) (path : String) (header : FlowHeader)
    (nodes way : List (FlowNode α)) (around : List FlowHeader) (s : α) :
    stageAt info path (flow header nodes :: way) (around ++ [header]) s
      = stageAt (info.child header) (childPath path header.id) way around s := by
  cases around <;> rfl

mutual

/-- The stages of a node are announced by the names on the way down to them and by the flows around
them, and so are no others. -/
theorem occurrence_iff {info : FlowInfo} {path : String} {place : Place} {node : FlowNode α}
    {o : Occurrence} :
    o ∈ (node.seats info path place).filterMap Seat.occurrence? ↔
      ∃ p s, node.node? p = some (.stage s) ∧
        o = ⟨place ++ p, stageAt info path (node.way p) (node.around p) s⟩ := by
  cases node with
  | stage s =>
    have alone : ((stage s).seats info path place).filterMap Seat.occurrence?
        = [⟨place, info.stage path (Named.name s)⟩] := rfl
    rw [alone, List.mem_singleton]
    constructor
    · rintro rfl
      refine ⟨[], s, node?_nil _, ?_⟩
      rw [way_nil, around_nil, List.append_nil]
      rfl
    · rintro ⟨p, s', here, rfl⟩
      cases p with
      | nil =>
        obtain rfl := stage.inj (Option.some.inj ((node?_nil _).symm.trans here))
        rw [way_nil, around_nil, List.append_nil]
        rfl
      | cons i p => simp [node?] at here
  | flow header nodes =>
    rw [seats, List.filterMap_cons_none rfl, occurrenceIn_iff]
    constructor
    · rintro ⟨i, p, s, here, rfl⟩
      refine ⟨i :: p, s, (node?_cons _ i p).trans here, ?_⟩
      rw [way_cons, around, stageAt_child, children, Nat.zero_add]
    · rintro ⟨p, s, here, rfl⟩
      cases p with
      | nil => simp [node?_nil] at here
      | cons i p =>
        refine ⟨i, p, s, (node?_cons _ i p).symm.trans here, ?_⟩
        rw [way_cons, around, stageAt_child, children, Nat.zero_add]
  | parallel name children =>
    rw [seats, occurrenceIn_iff]
    constructor
    · rintro ⟨i, p, s, here, rfl⟩
      refine ⟨i :: p, s, (node?_cons _ i p).trans here, ?_⟩
      rw [way_cons, around, Nat.zero_add]
      rfl
    · rintro ⟨p, s, here, rfl⟩
      cases p with
      | nil => simp [node?_nil] at here
      | cons i p =>
        refine ⟨i, p, s, (node?_cons _ i p).symm.trans here, ?_⟩
        rw [way_cons, around, Nat.zero_add]
        rfl

theorem occurrenceIn_iff {info : FlowInfo} {path : String} {place : Place} {i : Nat}
    {nodes : List (FlowNode α)} {o : Occurrence} :
    o ∈ (seatsIn info path place i nodes).filterMap Seat.occurrence? ↔
      ∃ k p s, nodeIn? nodes k p = some (.stage s) ∧
        o = ⟨place ++ (i + k) :: p, stageAt info path (wayIn nodes k p) (aroundIn nodes k p) s⟩ := by
  cases nodes with
  | nil => simp [seatsIn, nodeIn?]
  | cons node rest =>
    rw [seatsIn, List.filterMap_append, List.mem_append, occurrence_iff, occurrenceIn_iff]
    constructor
    · rintro (⟨p, s, here, rfl⟩ | ⟨k, p, s, here, rfl⟩)
      · refine ⟨0, p, s, by rw [nodeIn?, here], ?_⟩
        rw [wayIn_zero, aroundIn, List.append_assoc]
        rfl
      · refine ⟨k + 1, p, s, by rw [nodeIn?, here], ?_⟩
        rw [wayIn_succ, aroundIn, Nat.add_assoc, Nat.add_comm 1]
    · rintro ⟨k, p, s, here, rfl⟩
      cases k with
      | zero =>
        rw [nodeIn?] at here
        refine .inl ⟨p, s, here, ?_⟩
        rw [wayIn_zero, aroundIn, List.append_assoc]
        rfl
      | succ k =>
        rw [nodeIn?] at here
        refine .inr ⟨k, p, s, here, ?_⟩
        rw [wayIn_succ, aroundIn, Nat.add_assoc, Nat.add_comm 1]

end

end FlowNode

namespace Flow

/-- The nodes on the way down to a place, the flow itself first. -/
def way (f : Flow α) (p : Place) : List (FlowNode α) := (FlowNode.flow f.header f.nodes).way p

variable [Named α]

/-- What a stage at a place of a flow is told by: the names on the way down to it, the innermost
flow around it and the flow itself. -/
def stageAt (f : Flow α) (p : Place) (s : α) : StageInfo :=
  { id := "/".intercalate ((f.way p).map FlowNode.name), name := Named.name s
    flowId := ((f.around p).headD f.header).id, rootId := f.id }

theorem intercalate_slash (name : String) (names : List String) :
    "/".intercalate (name :: names) = names.foldl FlowNode.childPath name := by
  induction names generalizing name with
  | nil => exact String.intercalate_singleton
  | cons next names ih =>
    rw [List.foldl_cons, ← ih, FlowNode.childPath, String.intercalate_cons_append,
      String.intercalate_cons_cons]

theorem stageAt_cons (f : Flow α) (i : Nat) (p : Place) (s : α) :
    f.stageAt (i :: p) s = FlowNode.stageAt (FlowInfo.root f.header) f.id
      (FlowNode.wayIn f.nodes i p) (FlowNode.aroundIn f.nodes i p) s := by
  have inner (l : List FlowHeader) :
      ((l ++ [f.header]).headD f.header).id = (l.map (·.id)).headD f.header.id := by
    cases l <;> rfl
  have names : ((f.way (i :: p)).map FlowNode.name)
      = f.id :: (FlowNode.wayIn f.nodes i p).map FlowNode.name := by
    rw [way, FlowNode.way_cons]
    rfl
  rw [stageAt, names, intercalate_slash, around, FlowNode.around, inner]
  rfl

/-- The stages of the tree are announced, each by its place, and nothing else is. -/
theorem occurrences_iff {f : Flow α} {o : Occurrence} :
    o ∈ f.occurrences ↔
      ∃ s, f.node? o.place = some (.stage s) ∧ o.info = f.stageAt o.place s := by
  rw [occurrences, seats, List.filterMap_cons_none rfl, FlowNode.occurrenceIn_iff]
  constructor
  · rintro ⟨i, p, s, here, rfl⟩
    rw [← stageAt_cons, List.nil_append, Nat.zero_add]
    exact ⟨s, (FlowNode.node?_cons _ i p).trans here, rfl⟩
  · rintro ⟨s, here, same⟩
    obtain ⟨place, info⟩ := o
    obtain rfl : info = f.stageAt place s := same
    cases place with
    | nil => simp [node?, FlowNode.node?_nil] at here
    | cons i p =>
      refine ⟨i, p, s, (FlowNode.node?_cons _ i p).symm.trans here, ?_⟩
      rw [← stageAt_cons, List.nil_append, Nat.zero_add]

end Flow

/-! ## Names of siblings -/

namespace FlowNode

variable [Named α]

mutual

/-- The names of siblings, for each flow and each group of a node. -/
def siblingNames : FlowNode α → List (List String)
  | stage _ => []
  | flow _ nodes => nodes.map name :: siblingNamesIn nodes
  | parallel _ children => children.map name :: siblingNamesIn children

/-- The names of siblings, for each flow and each group of nodes. -/
def siblingNamesIn : List (FlowNode α) → List (List String)
  | [] => []
  | node :: rest => siblingNames node ++ siblingNamesIn rest

end

/-- Whether names are pairwise distinct and have no slashes. -/
def namesApart (names : List String) : Bool :=
  decide names.Nodup && names.all fun name => decide ('/' ∉ name.toList)

theorem namesApart_iff {names : List String} :
    namesApart names ↔ names.Nodup ∧ ∀ name ∈ names, '/' ∉ name.toList := by
  simp [namesApart]

/-- Nodes with such names are legible if what is below each of them is. -/
theorem Legible.of_namesApart {nodes : List (FlowNode α)} (apart : namesApart (nodes.map name))
    (inner : ∀ node ∈ nodes, Legible node.children) : Legible nodes := by
  obtain ⟨names, plain⟩ := namesApart_iff.mp apart
  exact .named (fun node hn => plain node.name (List.mem_map_of_mem hn)) names inner

mutual

theorem legible_children {node : FlowNode α} (apart : ∀ names ∈ node.siblingNames, namesApart names) :
    Legible node.children := by
  cases node with
  | stage s => exact .stages []
  | flow header nodes =>
    rw [siblingNames, List.forall_mem_cons] at apart
    exact .of_namesApart apart.1 (legible_childrenIn apart.2)
  | parallel name children =>
    rw [siblingNames, List.forall_mem_cons] at apart
    exact .of_namesApart apart.1 (legible_childrenIn apart.2)

theorem legible_childrenIn {nodes : List (FlowNode α)}
    (apart : ∀ names ∈ siblingNamesIn nodes, namesApart names) :
    ∀ node ∈ nodes, Legible node.children := by
  cases nodes with
  | nil => exact fun _ h => absurd h List.not_mem_nil
  | cons node rest =>
    rw [siblingNamesIn, List.forall_mem_append] at apart
    exact List.forall_mem_cons.mpr ⟨legible_children apart.1, legible_childrenIn apart.2⟩

end

mutual

/-- The names of stages that are siblings are among those of siblings. -/
theorem siblings_names {node : FlowNode α} {ss : List α} (hs : ss ∈ node.siblings) :
    ∃ names ∈ node.siblingNames, (ss.map Named.name).Sublist names := by
  cases node with
  | stage s => simp [siblings] at hs
  | flow header nodes =>
    rw [siblings, List.mem_cons] at hs
    rcases hs with rfl | hs
    · exact ⟨_, List.mem_cons_self, direct_names nodes⟩
    · obtain ⟨names, hn, sub⟩ := siblingsIn_names hs
      exact ⟨names, List.mem_cons_of_mem _ hn, sub⟩
  | parallel name children =>
    rw [siblings, List.mem_cons] at hs
    rcases hs with rfl | hs
    · exact ⟨_, List.mem_cons_self, direct_names children⟩
    · obtain ⟨names, hn, sub⟩ := siblingsIn_names hs
      exact ⟨names, List.mem_cons_of_mem _ hn, sub⟩

theorem siblingsIn_names {nodes : List (FlowNode α)} {ss : List α} (hs : ss ∈ siblingsIn nodes) :
    ∃ names ∈ siblingNamesIn nodes, (ss.map Named.name).Sublist names := by
  cases nodes with
  | nil => simp [siblingsIn] at hs
  | cons node rest =>
    rw [siblingsIn, List.mem_append] at hs
    rw [siblingNamesIn]
    rcases hs with hs | hs
    · obtain ⟨names, hn, sub⟩ := siblings_names hs
      exact ⟨names, List.mem_append_left _ hn, sub⟩
    · obtain ⟨names, hn, sub⟩ := siblingsIn_names hs
      exact ⟨names, List.mem_append_right _ hn, sub⟩

end

end FlowNode

namespace Flow

/-- Whether siblings have names that are pairwise distinct and have no slashes, in each flow and
each group. -/
def namesApart [Named α] (f : Flow α) : Bool :=
  (FlowNode.flow f.header f.nodes).siblingNames.all FlowNode.namesApart

theorem stagePaths_nodup [Named α] {f : Flow α} (apart : f.namesApart) : f.stagePaths.Nodup := by
  have apart := List.all_eq_true.mp apart
  have legible : FlowNode.Legible f.nodes := FlowNode.legible_children apart
  refine (legible.stagePathsOf_nodup_iff f.id).mpr fun ss hs => ?_
  have hs : ss ∈ (FlowNode.flow f.header f.nodes).siblings := hs
  obtain ⟨names, hn, sub⟩ := FlowNode.siblings_names hs
  exact (FlowNode.namesApart_iff.mp (apart names hn)).1.sublist sub

/-! ## What is told later -/

theorem MayRun.told_occurrence {f : Flow (Stage σ)} {r : NodeResult} (ran : f.MayRun r) {t : Told}
    (ht : t ∈ r.told) {info : StageInfo} (h : t.event.stage? = some info) :
    ⟨t.place, info⟩ ∈ f.occurrences :=
  mem_occurrences.mpr (ran.lifecycle.stage_of ht h)

/-- The stages of a tree are announced with their paths, in the order of their places, each by the
names on the way down to it and by the innermost flow around it. With any number of workers, and so
also when the children of a group come one after another, whatever is told later of the stage at a
place tells it as it was announced. If siblings have names of their own, without slashes, no two
stages have the same path. -/
theorem told_as_announced (f : Flow (Stage σ)) :
    f.announce.filterMap Event.stageQueued? = f.occurrences.map (·.info) ∧
    f.occurrences.map (·.info.id) = f.stagePaths ∧
    (f.occurrences.map (·.place)).Pairwise (· < ·) ∧
    (∀ o, o ∈ f.occurrences ↔
      ∃ s, f.node? o.place = some (.stage s) ∧ o.info = f.stageAt o.place s) ∧
    (∀ r, f.MayRun r → ∀ t ∈ r.told, ∀ info, t.event.stage? = some info →
      ⟨t.place, info⟩ ∈ f.occurrences) ∧
    (∀ world, ∃ r, f.MayRun r ∧ (f.run world).events = f.announce ++ r.told.map (·.event)) ∧
    (f.namesApart → f.stagePaths.Nodup) := by
  have ids : f.occurrences.map (·.info.id) = f.stagePaths := by
    rw [← stages_ids, ← occurrences_info, List.map_map]
    rfl
  exact ⟨f.announce_stages.trans f.occurrences_info.symm, ids, f.occurrences_sorted,
    fun _ => occurrences_iff, fun _ ran _ ht _ h => ran.told_occurrence ht h,
    fun world => ⟨_, f.placed_mayRun world, f.run_eventsOf world⟩, stagePaths_nodup⟩

/-- A stage that works or does not, and that can be cancelled. -/
def yielding (name : String) (works : Bool) : Stage Unit :=
  { name
    execute := fun _ _ =>
      { world := (), stored := none
        outcome := if works then .ok () else .error (.internal name) }
    cancel := some fun _ _ => { world := (), stored := none, outcome := .ok () } }

/-- A flow with a nested flow, a flow that is not to be run and a group, and with a stage that fails
before the last one. -/
def sprawling : Flow (Stage Unit) :=
  { header := { id := "f" }
    nodes :=
      [.flow { id := "g" }
          [.stage (yielding "a" true),
            .flow { id := "h", skipReason := some "off" } [.stage (yielding "a" true)]],
        .parallel "p" [.stage (yielding "a" true)],
        .stage (yielding "b" false), .stage (yielding "c" true)] }

/-- What is told of the stages when the failure of one undoes what was done before it. -/
theorem told_as_announced_sprawling :
    sprawling.stagePaths = ["f/g/a", "f/g/h/a", "f/p/a", "f/b", "f/c"] ∧
    sprawling.occurrences.map (·.info.flowId) = ["g", "h", "f", "f", "f"] ∧
    (∃ r, sprawling.MayRun r ∧
      (r.told.filterMap fun t => t.event.stage?.map fun info => (t.place, info.id)) =
        [([0, 0], "f/g/a"), ([0, 0], "f/g/a"), ([0, 1, 0], "f/g/h/a"), ([1, 0], "f/p/a"),
          ([1, 0], "f/p/a"), ([2], "f/b"), ([2], "f/b"), ([1, 0], "f/p/a"), ([0, 0], "f/g/a"),
          ([3], "f/c")] ∧
      ∀ t ∈ r.told, ∀ info, t.event.stage? = some info → ⟨t.place, info⟩ ∈ sprawling.occurrences) ∧
    sprawling.stagePaths.Nodup := by
  obtain ⟨-, -, -, -, told, -, distinct⟩ := sprawling.told_as_announced
  have ran := sprawling.placed_mayRun ()
  exact ⟨by rfl, by rfl, ⟨_, ran, by rfl, told _ ran⟩, distinct (by rfl)⟩

end Flow

end Provisioning
