import Mathlib.Data.List.GetD
import Provisioning.Proofs.Entitlement.Layout
import Provisioning.Proofs.Layering.Order

/-!
# The arrangement of a flow plan

The nodes of a flow plan are groups. They hold one flow that runs for each application that is
processed, and beside it, in the same group, one that is skipped for each repetition of its
identifier. What comes stands behind what it depends on, what goes stands before it, and everything
that goes stands before everything that comes (`FlowPlan.make_arranged`).
-/

namespace Provisioning

namespace FlowInput

/-- The applications that a request takes away. -/
def going (input : FlowInput) : EntitlementType → List Application
  | .entitle | .upgrade => []
  | .revoke => input.applications
  | .state =>
    match input.plan with
    | some plan => input.entitled.filter fun a => plan.revoke.contains a.name
    | none => []

/-- The applications that a request brings. -/
def coming (input : FlowInput) : EntitlementType → List Application
  | .entitle | .upgrade => input.applications
  | .revoke => []
  | .state =>
    match input.plan with
    | some plan => input.applications.filter fun a =>
        plan.entitle.contains a.name || plan.upgrade.contains a.name
    | none => []

end FlowInput

/-- How often the flow of an identifier is repeated in a request. Those of a state are not. -/
def EntitlementRequest.extras (r : EntitlementRequest) (id : String) : Nat :=
  if r.type = .state then 0 else r.applicationIds.count id - 1

namespace ApplicationTask

/-- Whether the task takes the application away. -/
def goes : ApplicationTask → Bool
  | revoke _ => true
  | entitle _ | upgrade _ _ => false

theorem work_type {c : Capabilities} {t : ApplicationTask} {w : ApplicationWork}
    (h : t.work c = .ok w) : w.type = t.type := by
  obtain ⟨backend, ui, -, -, rfl⟩ := work_eq_ok h
  rfl

theorem work_goes {c : Capabilities} {t : ApplicationTask} {w : ApplicationWork}
    (h : t.work c = .ok w) : (w.type == .revoke) = t.goes := by
  rw [work_type h]
  cases t <;> rfl

end ApplicationTask

/-- An application has a dependency on the name of another one. -/
def Application.DependsOn (x y : Application) : Prop :=
  x.id ≠ y.id ∧ ∃ d ∈ x.dependencies, d.name = y.name

namespace FlowPlan

namespace ApplicationFlow

/-- Whether the flow takes its application away. -/
def goes (f : ApplicationFlow) : Bool := f.ref.type == .revoke

/-- Whether the flow is to be run. -/
def runs (f : ApplicationFlow) : Bool := !f.ref.skipped

/-- The identifier of its application. -/
def applicationId (f : ApplicationFlow) : String := f.ref.applicationId

/-- A flow does a task, if it is run, and nothing otherwise. -/
def Performs (c : Capabilities) (f : ApplicationFlow) (t : ApplicationTask) : Prop :=
  ∃ w, t.work c = .ok w ∧ f.applicationId = t.subject.id ∧ f.ref.type = w.type ∧
    f.nodes = if f.runs then w.nodes else []

end ApplicationFlow

open ApplicationFlow (goes runs applicationId)

/-- Groups of flows for applications that all come or all go. -/
structure Block (c : Capabilities) (going : Bool) (applications : List Application)
    (extras : String → Nat) (planned : ApplicationTask → Prop)
    (groups : List (List ApplicationFlow)) : Prop where
  direction : ∀ f ∈ groups.flatten, f.goes = going
  /-- One flow that runs for each application. -/
  once : ((groups.flatten.filter runs).map applicationId).Perm (applications.map (·.id))
  /-- Beside it those that are skipped. -/
  skipped : ∀ i id,
    (groups.getD i []).countP (fun f => !f.runs && f.applicationId = id)
      = (groups.getD i []).countP (fun f => f.runs && f.applicationId = id) * extras id
  performs : ∀ f ∈ groups.flatten, ∃ t, planned t ∧ f.Performs c t
  /-- What an application depends on comes before it and goes after it. -/
  ordered : ∀ x ∈ applications, ∀ y ∈ applications, x.DependsOn y →
    ∀ i j, ∀ f ∈ groups.getD i [], ∀ g ∈ groups.getD j [],
      f.applicationId = x.id → g.applicationId = y.id → if going then i < j else j < i

/-! ## Layers -/

/-- Flows of a layout for the applications of a layer. -/
structure Layout.Fills (l : Layout) (layer : List String) (flows : List ApplicationFlow) :
    Prop where
  once : (flows.filter runs).map applicationId = layer
  skipped : ∀ id, flows.countP (fun f => !f.runs && f.applicationId = id)
    = layer.count id * l.repetitions id
  works : ∀ f ∈ flows, ∃ a w, l.applications.get? f.applicationId = some a ∧ l.work a = .ok w ∧
    f.ref.type = w.type ∧ f.nodes = if f.runs then w.nodes else []

namespace Layout

variable {l : Layout} {ids : FlowIds}

theorem Fills.nil : l.Fills [] [] :=
  ⟨rfl, fun _ => by simp, by simp⟩

theorem Fills.append {layer layer' : List String} {fs gs : List ApplicationFlow}
    (first : l.Fills layer fs) (second : l.Fills layer' gs) :
    l.Fills (layer ++ layer') (fs ++ gs) where
  once := by rw [List.filter_append, List.map_append, first.once, second.once]
  skipped := by
    intro id
    rw [List.countP_append, first.skipped, second.skipped, List.count_append, Nat.add_mul]
  works := List.forall_mem_append.mpr ⟨first.works, second.works⟩

/-- The flows that run are counted by the layer. -/
theorem Fills.countP_runs {layer : List String} {flows : List ApplicationFlow}
    (fills : l.Fills layer flows) (id : String) :
    flows.countP (fun f => f.runs && f.applicationId = id) = layer.count id := by
  rw [← fills.once, List.count, List.countP_map, List.countP_filter]
  refine List.countP_congr fun f _ => ?_
  simp [and_comm]

/-- Only what is in the layer has flows. -/
theorem Fills.mem {layer : List String} {flows : List ApplicationFlow}
    (fills : l.Fills layer flows) {f : ApplicationFlow} (hf : f ∈ flows) :
    f.applicationId ∈ layer := by
  by_cases run : f.runs
  · rw [← fills.once]
    exact List.mem_map_of_mem (List.mem_filter.mpr ⟨hf, run⟩)
  · have counted : 0 < flows.countP fun g => !g.runs && g.applicationId = f.applicationId := by
      rw [List.countP_pos_iff]
      exact ⟨f, hf, by simp [run]⟩
    rw [fills.skipped] at counted
    exact List.count_pos_iff.mp (Nat.pos_of_mul_pos_right counted)

theorem flowsFor_fills {id : String} {a : Application} {w : ApplicationWork}
    (ha : l.applications.get? id = some a) (hw : l.work a = .ok w) (start : Nat) :
    l.Fills [id] (flowsFor ids start id w (l.repetitions id)) where
  once := by
    rw [flowsFor, List.range_succ_eq_map]
    simp [runs, applicationId, List.filter_map, Function.comp_def]
  skipped := by
    intro id'
    rw [flowsFor, List.range_succ_eq_map]
    by_cases same : id = id' <;>
      simp [runs, applicationId, List.countP_map, Function.comp_def, same]
  works := by
    intro f hf
    obtain ⟨i, -, rfl⟩ := List.mem_map.mp hf
    refine ⟨a, w, ha, hw, rfl, ?_⟩
    by_cases hi : i = 0 <;> simp [runs, hi]

theorem layerFlows_fills {start : Nat} {layer : List String} {flows : List ApplicationFlow}
    (known : ∀ id ∈ layer, ∃ a, l.applications.get? id = some a)
    (h : l.layerFlows ids start layer = .ok flows) : l.Fills layer flows := by
  induction layer generalizing start flows with
  | nil =>
    simp only [layerFlows, Except.ok.injEq] at h
    exact h ▸ .nil
  | cons id rest ih =>
    obtain ⟨⟨a, ha⟩, known⟩ := List.forall_mem_cons.mp known
    rw [layerFlows] at h
    simp only [ha] at h
    obtain ⟨w, hw, h⟩ := Except.bind_eq_ok.mp h
    obtain ⟨later, hlater, h⟩ := Except.bind_eq_ok.mp h
    obtain rfl := Except.ok.inj h
    exact (flowsFor_fills ha hw start).append (ih known hlater)

theorem allFlows_fills {start : Nat} {layers : List (List String)}
    {groups : List (List ApplicationFlow)}
    (known : ∀ id ∈ layers.flatten, ∃ a, l.applications.get? id = some a)
    (h : l.allFlows ids start layers = .ok groups) : List.Forall₂ l.Fills layers groups := by
  induction layers generalizing start groups with
  | nil =>
    simp only [allFlows, Except.ok.injEq] at h
    exact h ▸ .nil
  | cons layer rest ih =>
    rw [List.flatten_cons, List.forall_mem_append] at known
    rw [allFlows, Except.bind_eq_ok] at h
    obtain ⟨first, hfirst, h⟩ := h
    obtain ⟨later, hlater, h⟩ := Except.bind_eq_ok.mp h
    obtain rfl := Except.ok.inj h
    exact .cons (layerFlows_fills known.1 hfirst) (ih known.2 hlater)

theorem fills_flatten {layers : List (List String)} {flows : List (List ApplicationFlow)}
    (fills : List.Forall₂ l.Fills layers flows) : l.Fills layers.flatten flows.flatten := by
  induction fills with
  | nil => exact .nil
  | cons first _ ih => exact first.append ih

theorem fills_getD {layers : List (List String)} {flows : List (List ApplicationFlow)}
    (fills : List.Forall₂ l.Fills layers flows) (i : Nat) :
    l.Fills (layers.getD i []) (flows.getD i []) := by
  induction fills generalizing i with
  | nil => exact .nil
  | cons first _ ih =>
    cases i with
    | zero => exact first
    | succ i => exact ih i

/-- What is built of the layers of a set of applications is a block. -/
theorem build_block {c : Capabilities} {going : Bool} {applications : List Application}
    {planned : ApplicationTask → Prop} {start : Nat} {layers : List (List String)}
    {nodes : StageNodes} {refs : List ApplicationFlowRef}
    (ids_nodup : (applications.map (·.id)).Nodup)
    (own : l.applications = .ofList (applications.map fun a => (a.id, a)))
    (perm : layers.flatten.Perm (applications.map (·.id)))
    (works : ∀ a ∈ applications, ∀ w, l.work a = .ok w →
      ∃ t, planned t ∧ t.subject = a ∧ t.goes = going ∧ t.work c = .ok w)
    (ordered : ∀ x ∈ applications, ∀ y ∈ applications, x.DependsOn y → ∀ i j,
      x.id ∈ layers.getD i [] → y.id ∈ layers.getD j [] → if going then i < j else j < i)
    (h : l.build ids start layers = .ok (nodes, refs)) :
    ∃ flows, nodes = groups l.groupName flows ∧ refs = flows.flatten.map (·.ref) ∧
      Block c going applications l.repetitions planned flows := by
  rw [build, Except.bind_eq_ok] at h
  obtain ⟨flows, hflows, h⟩ := h
  obtain ⟨rfl, rfl⟩ := Prod.mk.inj (Except.ok.inj h)
  have known : ∀ id ∈ layers.flatten, ∃ a, l.applications.get? id = some a := by
    intro id hid
    obtain ⟨a, ha, rfl⟩ := List.mem_map.mp (perm.mem_iff.mp hid)
    exact ⟨a, own ▸ (OrderedMap.get?_keyed ids_nodup).mpr ⟨ha, rfl⟩⟩
  have fills := allFlows_fills known hflows
  have all := fills_flatten fills
  have performs : ∀ f ∈ flows.flatten, ∃ t, planned t ∧ t.goes = going ∧ f.Performs c t := by
    intro f hf
    obtain ⟨a, w, ha, hw, type, nodes⟩ := all.works f hf
    rw [own] at ha
    obtain ⟨there, named⟩ := OrderedMap.mem_of_get?_keyed ha
    obtain ⟨t, planned, subject, goes, work⟩ := works a there w hw
    exact ⟨t, planned, goes, w, work, by rw [subject, named], type, nodes⟩
  refine ⟨flows, rfl, rfl, ?_, ?_, ?_, ?_, ?_⟩
  · intro f hf
    obtain ⟨t, -, goes, w, work, -, type, -⟩ := performs f hf
    rw [ApplicationFlow.goes, type, ApplicationTask.work_goes work, goes]
  · rw [all.once]
    exact perm
  · intro i id
    rw [(fills_getD fills i).skipped, (fills_getD fills i).countP_runs]
  · intro f hf
    obtain ⟨t, planned, -, performed⟩ := performs f hf
    exact ⟨t, planned, performed⟩
  · intro x hx y hy needs i j f hf g hg named named'
    exact ordered x hx y hy needs i j (named ▸ (fills_getD fills i).mem hf)
      (named' ▸ (fills_getD fills j).mem hg)

end Layout

/-! ## Blocks of a plan -/

theorem Block.nil {c : Capabilities} {going : Bool} {extras : String → Nat}
    {planned : ApplicationTask → Prop} : Block c going [] extras planned [] where
  direction := by simp
  once := by simp
  skipped := by simp
  performs := by simp
  ordered := by simp

/-- The groups of a flow plan, as the request calls for them. -/
structure Arranged (c : Capabilities) (r : EntitlementRequest) (input : FlowInput)
    (groups : List (List ApplicationFlow)) : Prop where
  /-- One flow that runs takes away each application that goes, -/
  going : ((groups.flatten.filter fun f => f.runs && f.goes).map applicationId).Perm
    ((input.going r.type).map (·.id))
  /-- and one brings each application that comes. -/
  coming : ((groups.flatten.filter fun f => f.runs && !f.goes).map applicationId).Perm
    ((input.coming r.type).map (·.id))
  /-- In the group of a flow that runs, one is skipped for each repetition of the identifier. -/
  skipped : ∀ i id,
    (groups.getD i []).countP (fun f => !f.runs && f.applicationId = id)
      = (groups.getD i []).countP (fun f => f.runs && f.applicationId = id) * r.extras id
  performs : ∀ f ∈ groups.flatten, ∃ t, Planned input r.type t ∧ f.Performs c t
  comes_after : ∀ x ∈ input.coming r.type, ∀ y ∈ input.coming r.type, x.DependsOn y →
    ∀ i j, ∀ f ∈ groups.getD i [], ∀ g ∈ groups.getD j [], !f.goes → !g.goes →
      f.applicationId = x.id → g.applicationId = y.id → j < i
  goes_before : ∀ x ∈ input.going r.type, ∀ y ∈ input.going r.type, x.DependsOn y →
    ∀ i j, ∀ f ∈ groups.getD i [], ∀ g ∈ groups.getD j [], f.goes → g.goes →
      f.applicationId = x.id → g.applicationId = y.id → i < j
  going_first : ∀ i j, ∀ f ∈ groups.getD i [], ∀ g ∈ groups.getD j [], f.goes → !g.goes → i < j

section

variable {c : Capabilities} {extras : String → Nat} {planned : ApplicationTask → Prop}
  {leaving arriving : List Application} {first second : List (List ApplicationFlow)}

/-- All flows of a block go the same way, so asking for that way leaves all of them or none. -/
theorem Block.filter_direction {way : Bool} (block : Block c way leaving extras planned first)
    (asked : Bool → Bool) : first.flatten.filter (fun f => f.runs && asked f.goes)
      = if asked way then first.flatten.filter runs else [] := by
  have same : ∀ f ∈ first.flatten, (f.runs && asked f.goes) = (f.runs && asked way) :=
    fun f hf => by rw [block.direction f hf]
  rw [List.filter_congr same]
  cases asked way <;> simp

theorem mem_getD_append {i : Nat} {f : ApplicationFlow} (hf : f ∈ (first ++ second).getD i []) :
    (i < first.length ∧ f ∈ first.getD i []) ∨
      first.length ≤ i ∧ f ∈ second.getD (i - first.length) [] := by
  by_cases hi : i < first.length
  · rw [List.getD_append _ _ _ _ hi] at hf
    exact .inl ⟨hi, hf⟩
  · rw [List.getD_append_right _ _ _ _ (Nat.le_of_not_lt hi)] at hf
    exact .inr ⟨Nat.le_of_not_lt hi, hf⟩

/-- A flow that goes is in the first one of two blocks of which the second one comes. -/
theorem Block.mem_of_goes (coming : Block c false arriving extras planned second) {i : Nat}
    {f : ApplicationFlow} (hf : f ∈ (first ++ second).getD i []) (goes : f.goes) :
    i < first.length ∧ f ∈ first.getD i [] := by
  rcases mem_getD_append hf with here | ⟨-, there⟩
  · exact here
  · simp [coming.direction f (mem_flatten_of_getD there)] at goes

/-- A flow that comes is in the second one of two blocks of which the first one goes. -/
theorem Block.mem_of_comes (going : Block c true leaving extras planned first) {i : Nat}
    {f : ApplicationFlow} (hf : f ∈ (first ++ second).getD i []) (comes : !f.goes) :
    first.length ≤ i ∧ f ∈ second.getD (i - first.length) [] := by
  rcases mem_getD_append hf with ⟨-, there⟩ | here
  · simp [going.direction f (mem_flatten_of_getD there)] at comes
  · exact here

end

/-- What goes, followed by what comes. -/
theorem Block.arranged {c : Capabilities} {r : EntitlementRequest} {input : FlowInput}
    {first second : List (List ApplicationFlow)}
    (going : Block c true (input.going r.type) r.extras (Planned input r.type) first)
    (coming : Block c false (input.coming r.type) r.extras (Planned input r.type) second) :
    Arranged c r input (first ++ second) := by
  constructor
  case going =>
    have all_go : first.flatten.filter (fun f => f.runs && f.goes) = first.flatten.filter runs :=
      going.filter_direction id
    have none_goes : second.flatten.filter (fun f => f.runs && f.goes) = [] :=
      coming.filter_direction id
    rw [List.flatten_append, List.filter_append, all_go, none_goes, List.append_nil]
    exact going.once
  case coming =>
    have none_comes : first.flatten.filter (fun f => f.runs && !f.goes) = [] :=
      going.filter_direction not
    have all_come : second.flatten.filter (fun f => f.runs && !f.goes)
        = second.flatten.filter runs :=
      coming.filter_direction not
    rw [List.flatten_append, List.filter_append, none_comes, all_come, List.nil_append]
    exact coming.once
  case skipped =>
    intro i id
    by_cases hi : i < first.length
    · rw [List.getD_append _ _ _ _ hi]
      exact going.skipped i id
    · rw [List.getD_append_right _ _ _ _ (Nat.le_of_not_lt hi)]
      exact coming.skipped _ id
  case performs =>
    rw [List.flatten_append, List.forall_mem_append]
    exact ⟨going.performs, coming.performs⟩
  case comes_after =>
    intro x hx y hy needs i j f hf g hg fcomes gcomes named named'
    obtain ⟨hi, hf⟩ := going.mem_of_comes hf fcomes
    obtain ⟨hj, hg⟩ := going.mem_of_comes hg gcomes
    have order := coming.ordered x hx y hy needs _ _ f hf g hg named named'
    simp only [Bool.false_eq_true, if_false] at order
    omega
  case goes_before =>
    intro x hx y hy needs i j f hf g hg fgoes ggoes named named'
    obtain ⟨-, hf⟩ := coming.mem_of_goes hf fgoes
    obtain ⟨-, hg⟩ := coming.mem_of_goes hg ggoes
    exact going.ordered x hx y hy needs _ _ f hf g hg named named'
  case going_first =>
    intro i j f hf g hg fgoes gcomes
    obtain ⟨hi, -⟩ := coming.mem_of_goes hf fgoes
    obtain ⟨hj, -⟩ := going.mem_of_comes hg gcomes
    omega

/-! ## Flow plans -/

theorem requestTask_goes {entitled : List Application} {a : Application} {type : EntitlementType}
    {t : ApplicationTask} (h : requestTask entitled a type = .ok t) :
    t.goes = (type == .revoke) := by
  cases type with
  | upgrade =>
    obtain ⟨old, -, rfl⟩ := upgradeTask_eq_ok.mp h
    rfl
  | entitle | revoke | state =>
    obtain rfl := Except.ok.inj h
    rfl

theorem stateTask_goes {entitled : List Application} {p : TransitionPlan} {a : Application}
    {t : ApplicationTask} (h : stateTask entitled p a = .ok t) : t.goes = false := by
  rcases stateTask_cases h with rfl | ⟨old, rfl⟩ <;> rfl

/-- Removal goes the other way round. -/
theorem requestLayers_ordered {type : EntitlementType} {applications : List Application}
    {layers : List (List String)} (nodup : (applications.map (·.id)).Nodup)
    (h : requestLayers type applications = .ok layers) :
    ∀ x ∈ applications, ∀ y ∈ applications, x.DependsOn y → ∀ i j,
      x.id ∈ layers.getD i [] → y.id ∈ layers.getD j [] →
        if type == .revoke then i < j else j < i := by
  intro x hx y hy needs i j
  simp only [beq_iff_eq]
  unfold requestLayers at h
  split at h
  next revoke =>
    rw [if_pos revoke]
    exact InstallationGraph.removalLayers_ordered nodup h hx hy needs.1 needs.2
  next other =>
    rw [if_neg other]
    exact InstallationGraph.installationLayers_ordered nodup h hx hy needs.1 needs.2

section

variable {c : Capabilities} {ids : FlowIds} {r : EntitlementRequest} {input : FlowInput}
  {nodes : StageNodes} {refs : List ApplicationFlowRef}

/-- The nodes that are built for a request are groups of flows, and the references that are kept
are those of the flows. -/
def Holds (c : Capabilities) (r : EntitlementRequest) (input : FlowInput) (nodes : StageNodes)
    (refs : List ApplicationFlowRef) : Prop :=
  ∃ first second, nodes = groups revokedGroup first ++ groups requestedGroup second ∧
    refs = (first ++ second).flatten.map (·.ref) ∧ Arranged c r input (first ++ second)

/-- What is built for the applications of a request is a single block. -/
theorem Holds.of_request (requested : (input.applications.map (·.id)).Nodup)
    (no_state : r.type ≠ .state) (h : requestNodes c ids r input = .ok (nodes, refs)) :
    Holds c r input nodes refs := by
  obtain ⟨work, layers, hlayers, does, built⟩ := requestNodes_layout no_state h
  have works : ∀ a ∈ input.applications, ∀ w, work a = .ok w → ∃ t, Planned input r.type t ∧
      t.subject = a ∧ t.goes = (r.type == .revoke) ∧ t.work c = .ok w := by
    intro a ha w hw
    obtain ⟨t, ht, hw⟩ := does a w hw
    have planned := (planned_request_iff no_state).mpr ⟨a, ha, ht⟩
    exact ⟨t, planned, requestTask_subject ht, requestTask_goes ht, hw⟩
  obtain ⟨flows, hn, hr, block⟩ := Layout.build_block (c := c) requested rfl
    (requestLayers_perm requested hlayers) works (requestLayers_ordered requested hlayers) built
  refine ⟨[], flows, hn, hr, ?_⟩
  have extras : r.extras = repetitions r.applicationIds := by
    funext id
    rw [EntitlementRequest.extras, if_neg no_state, repetitions]
  change Block c _ input.applications (repetitions r.applicationIds) _ flows at block
  rw [← extras] at block
  by_cases revoke : r.type = .revoke
  · have leaving : input.going r.type = input.applications := by
      rw [revoke]
      rfl
    have arriving : input.coming r.type = [] := by
      rw [revoke]
      rfl
    rw [beq_iff_eq.mpr revoke, ← leaving] at block
    have nothing : Block c false (input.coming r.type) r.extras (Planned input r.type) [] :=
      arriving ▸ Block.nil
    have arranged := block.arranged nothing
    rwa [List.append_nil] at arranged
  · have only_comes : input.going r.type = [] ∧ input.coming r.type = input.applications := by
      cases type : r.type with
      | entitle | upgrade => exact ⟨rfl, rfl⟩
      | revoke => exact absurd type revoke
      | state => exact absurd type no_state
    rw [beq_eq_false_iff_ne.mpr revoke, ← only_comes.2] at block
    have nothing : Block c true (input.going r.type) r.extras (Planned input r.type) [] :=
      only_comes.1 ▸ Block.nil
    exact nothing.arranged block

/-- What is built for a state is a block that goes and a block that comes. -/
theorem Holds.of_state {p : TransitionPlan} (requested : (input.applications.map (·.id)).Nodup)
    (entitled : (input.entitled.map (·.id)).Nodup) (state : r.type = .state)
    (planned : input.plan = some p) (h : stateNodes c ids input p = .ok (nodes, refs)) :
    Holds c r input nodes refs := by
  obtain ⟨work, goingLayers, built, comingLayers, built', hgoingLayers, hgoing, hcomingLayers,
    does, hcoming, rfl, rfl⟩ := stateNodes_layouts h
  have goingIds : ((revoked input p).map (·.id)).Nodup :=
    entitled.sublist ((List.filter_sublist).map _)
  have comingIds : ((targets input p).map (·.id)).Nodup :=
    requested.sublist ((List.filter_sublist).map _)
  have goingWorks : ∀ a ∈ revoked input p, ∀ w, revokeWork c a = .ok w →
      ∃ t, Planned input r.type t ∧ t.subject = a ∧ t.goes = true ∧ t.work c = .ok w := by
    intro a ha w hw
    refine ⟨.revoke a, ?_, rfl, rfl, hw⟩
    rw [state, planned_state_iff planned]
    exact .inl ⟨a, ha, rfl⟩
  have comingWorks : ∀ a ∈ targets input p, ∀ w, work a = .ok w →
      ∃ t, Planned input r.type t ∧ t.subject = a ∧ t.goes = false ∧ t.work c = .ok w := by
    intro a ha w hw
    obtain ⟨t, ht, hw⟩ := does a w hw
    refine ⟨t, ?_, stateTask_subject ht, stateTask_goes ht, hw⟩
    rw [state, planned_state_iff planned]
    exact .inr ⟨a, ha, ht⟩
  obtain ⟨first, hn, hr, going⟩ := Layout.build_block (c := c) goingIds rfl
    (InstallationGraph.removalLayers_perm goingIds hgoingLayers) goingWorks
    (fun x hx y hy needs i j =>
      InstallationGraph.removalLayers_ordered goingIds hgoingLayers hx hy needs.1 needs.2) hgoing
  obtain ⟨second, hn', hr', coming⟩ := Layout.build_block (c := c) comingIds rfl
    (InstallationGraph.installationLayers_perm comingIds hcomingLayers) comingWorks
    (fun x hx y hy needs i j => InstallationGraph.installationLayers_ordered comingIds
      hcomingLayers hx hy needs.1 needs.2) hcoming
  have leaving : input.going r.type = revoked input p := by
    rw [state, FlowInput.going, planned]
    rfl
  have arriving : input.coming r.type = targets input p := by
    rw [state, FlowInput.coming, planned]
    rfl
  have extras : r.extras = fun _ => 0 := by
    funext id
    rw [EntitlementRequest.extras, if_pos state]
  refine ⟨first, second, ?_, ?_, ?_⟩
  · rw [hn, hn']
    rfl
  · rw [hr, hr', List.flatten_append, List.map_append]
  · refine Block.arranged ?_ ?_ <;> rw [extras]
    · exact leaving ▸ going
    · exact arriving ▸ coming

end

/-! ## The nodes of a flow -/

/-- A nested flow is the one that a reference is to: its parameters name the application and what is
done with it, and there is a reason to skip it exactly if it is not to be run. -/
structure ApplicationFlow.Shows (f : ApplicationFlow) (header : FlowHeader) : Prop where
  id : header.id = f.ref.flowId
  applicationId : header.params.get? applicationIdParam = some (.text f.ref.applicationId)
  type : header.params.get? typeParam = some (.text f.ref.type.text)
  skipReason : header.skipReason = if f.runs then none else some duplicateReason

/-- A node is a nested flow. -/
def ApplicationFlow.IsNode (f : ApplicationFlow) (node : FlowNode EntitlementStage) : Prop :=
  ∃ header, node = .flow header f.nodes ∧ f.Shows header

/-- A node is a parallel group of nested flows, in their order. -/
def IsGroup (flows : List ApplicationFlow) (node : FlowNode EntitlementStage) : Prop :=
  ∃ name children, node = .parallel name children ∧
    List.Forall₂ ApplicationFlow.IsNode flows children

theorem ApplicationFlow.node_isNode (f : ApplicationFlow) : f.IsNode f.node := by
  have other : applicationIdParam ≠ typeParam := by decide
  refine ⟨_, rfl, rfl, ?_, ?_, ?_⟩
  · simp [OrderedMap.ofList, OrderedMap.get?_insert, other]
  · simp [OrderedMap.ofList, OrderedMap.get?_insert]
  · cases skipped : f.ref.skipped <;> simp [runs, skipped]

theorem groups_isGroup (groupName : String) (layers : List (List ApplicationFlow)) :
    List.Forall₂ IsGroup layers (groups groupName layers) := by
  have group (name : String) (flows : List ApplicationFlow) :
      IsGroup flows (.parallel name (flows.map (·.node))) := by
    refine ⟨name, _, rfl, ?_⟩
    rw [List.forall₂_map_right_iff, List.forall₂_same]
    exact fun f _ => f.node_isNode
  rw [groups, List.forall₂_iff_get]
  refine ⟨by simp, fun i _ _ => ?_⟩
  simpa using group _ _

/-- The nodes of the flow of a request are parallel groups of nested flows, one for each application
that is processed, in an arrangement that respects their dependencies, and the references that are
kept are those of the nested flows, in order. -/
theorem make_arranged {c : Capabilities} {ids : FlowIds} {r : EntitlementRequest}
    {input : FlowInput} {plan : FlowPlan} (requested : (input.applications.map (·.id)).Nodup)
    (entitled : (input.entitled.map (·.id)).Nodup) (h : make c ids r input = .ok plan) :
    ∃ arrangement : List (List ApplicationFlow),
      List.Forall₂ IsGroup arrangement plan.flow.nodes ∧
      plan.applicationFlows = arrangement.flatten.map (·.ref) ∧
      Arranged c r input arrangement := by
  obtain ⟨-, h⟩ := make_eq_ok h
  have holds : Holds c r input plan.flow.nodes plan.applicationFlows := by
    by_cases state : r.type = .state
    · obtain ⟨p, planned, h⟩ := requestNodes_state state h
      exact Holds.of_state requested entitled state planned h
    · exact Holds.of_request requested state h
  obtain ⟨first, second, nodes, refs, arranged⟩ := holds
  refine ⟨first ++ second, ?_, refs, arranged⟩
  rw [nodes]
  exact List.rel_append (groups_isGroup _ first) (groups_isGroup _ second)

/-- A request that names an application twice, and one that depends on it. -/
def repeating : EntitlementRequest where
  type := .entitle
  tenantId := "t"
  applicationIds := ["b-1.0.0", "a-1.0.0", "a-1.0.0"]

/-- What it is about. -/
def repeatingInput : FlowInput where
  applications :=
    [{ name := "b", version := "1.0.0", dependencies := [{ name := "a", range := "^1.0.0" }] },
      { name := "a", version := "1.0.0" }]
  entitled := []

/-- What the other one needs comes first, with the flow that is skipped beside it. -/
theorem make_arranged_repeating :
    ∃ plan, make {} ⟨"f", toString⟩ repeating repeatingInput = .ok plan ∧
      plan.applicationFlows.map (fun f => (f.applicationId, f.skipped))
        = [("a-1.0.0", false), ("a-1.0.0", true), ("b-1.0.0", false)] ∧
      ∃ arrangement : List (List ApplicationFlow),
        List.Forall₂ IsGroup arrangement plan.flow.nodes ∧
        plan.applicationFlows = arrangement.flatten.map (·.ref) ∧
        Arranged {} repeating repeatingInput arrangement := by
  have made : (make {} ⟨"f", toString⟩ repeating repeatingInput).toOption.map (fun plan =>
      plan.applicationFlows.map fun f => (f.applicationId, f.skipped))
        = some [("a-1.0.0", false), ("a-1.0.0", true), ("b-1.0.0", false)] := by
    decide +kernel
  cases h : make {} ⟨"f", toString⟩ repeating repeatingInput with
  | error failure =>
    rw [h] at made
    cases made
  | ok plan =>
    rw [h] at made
    exact ⟨plan, rfl, Option.some.inj made, make_arranged (by decide) (by decide) h⟩

end FlowPlan

end Provisioning
