import Provisioning.Proofs.Entitlement.Convergence
import Provisioning.Proofs.Entitlement.Episodes
import Provisioning.Proofs.Entitlement.Validity
import Provisioning.Proofs.Ledger.Cancellation

/-!
# Routes and auth resources in step with entitlements

An application has the routes and auth resources that its modules are named after as long as the
tenant is entitled to it, and nothing otherwise. Runs keep that up if plans call applications by
their names (`Service.reached_inStep`). A plan reads the names from identifiers, and where it reads
another name than the application has, a tenant may come to have two versions of it.
-/

namespace Provisioning

open Ledger

namespace Ledger

/-- Whether an installation keeps such resources. -/
def Belonging.served (c : Capabilities) : Belonging → Bool
  | route => c.gateway == .kong
  | auth => c.auth == .keycloak

/-- An application of a tenant has what its modules are named after if the tenant is entitled to it,
and nothing otherwise. -/
structure InStep (registry : Registry) (tenantId : String) (b : Belonging) (id : String)
    (s : Store) : Prop where
  /-- The tenant is entitled to it. -/
  entitled : s.isEntitled tenantId id →
    ∃ a, registry.known? id = some a ∧ owned tenantId b id s = b.names a.moduleIds
  /-- The tenant is not entitled to it. -/
  other : ¬ s.isEntitled tenantId id → owned tenantId b id s = ∅

variable {registry : Registry} {tenantId : String} {b : Belonging} {id : String} {s s' : Store}

theorem InStep.congr (step : InStep registry tenantId b id s)
    (entitled : s'.isEntitled tenantId id ↔ s.isEntitled tenantId id)
    (same : owned tenantId b id s' = owned tenantId b id s) : InStep registry tenantId b id s' := by
  constructor
  · intro there
    rw [same]
    exact step.entitled (entitled.mp there)
  · intro absent
    rw [same]
    exact step.other fun there => absent (entitled.mpr there)

theorem InStep.of_entitled {a : Application} (there : s.isEntitled tenantId id)
    (known : registry.known? id = some a) (has : owned tenantId b id s = b.names a.moduleIds) :
    InStep registry tenantId b id s :=
  ⟨fun _ => ⟨a, known, has⟩, fun absent => absurd there absent⟩

theorem InStep.of_absent (absent : ¬ s.isEntitled tenantId id)
    (nothing : owned tenantId b id s = ∅) : InStep registry tenantId b id s :=
  ⟨fun there => absurd there absent, fun _ => nothing⟩

theorem InStep.owned_eq {a : Application} (step : InStep registry tenantId b a.id s)
    (known : registry.known? a.id = some a) (there : s.isEntitled tenantId a.id) :
    owned tenantId b a.id s = b.names a.moduleIds := by
  obtain ⟨a', known', has⟩ := step.entitled there
  obtain rfl := Option.some.inj (known'.symm.trans known)
  exact has

theorem handed_handed (equips strips : Holders) (b : Belonging) (owner : String) (X : Set String) :
    handed equips strips b owner (handed equips strips b owner X)
      = handed equips strips b owner X := by
  ext name
  constructor
  · rintro (equipped | ⟨-, again⟩)
    · exact .inl equipped
    · exact again
  · rintro (equipped | ⟨unstripped, there⟩)
    · exact .inl equipped
    · exact .inr ⟨unstripped, .inr ⟨unstripped, there⟩⟩

end Ledger

/-! ## What a task does -/

namespace ApplicationTask

/-- The stage that changes what belongs to applications. -/
def holder (t : ApplicationTask) : Belonging → EntitlementStage
  | .route => t.routeStage
  | .auth => t.resourceStage

/-- What a task takes for granted: the tenant has what goes, and does not have what comes unless
that goes too. -/
structure Ready (registry : Registry) (tenantId : String) (t : ApplicationTask) (s : Store) :
    Prop where
  /-- The registry knows the applications. -/
  known : ∀ a, a ∈ t.leaving ∨ a ∈ t.arriving → registry.known? a.id = some a
  /-- The tenant has what goes. -/
  leaving : ∀ a ∈ t.leaving, s.isEntitled tenantId a.id
  /-- The tenant does not have what comes. -/
  arriving : ∀ a ∈ t.arriving, s.isEntitled tenantId a.id → a ∈ t.leaving

variable {c : Capabilities} {t : ApplicationTask} {w : ApplicationWork} {s : EntitlementStage}
  {b : Belonging} {registry : Registry} {tenantId : String}

theorem strips_holder (t : ApplicationTask) (b : Belonging) :
    (t.holder b).strips b = t.leaving.map fun a => (a.id, a.moduleIds) := by
  cases b <;> cases t <;> rfl

theorem equips_holder (t : ApplicationTask) (b : Belonging) :
    (t.holder b).equips b = t.arriving.map fun a => (a.id, a.moduleIds) := by
  cases b <;> cases t <;> rfl

theorem mem_strips_holder {id : String} {ms : List String} :
    (id, ms) ∈ (t.holder b).strips b ↔ ∃ a ∈ t.leaving, a.id = id ∧ a.moduleIds = ms := by
  simp [strips_holder]

theorem mem_equips_holder {id : String} {ms : List String} :
    (id, ms) ∈ (t.holder b).equips b ↔ ∃ a ∈ t.arriving, a.id = id ∧ a.moduleIds = ms := by
  simp [equips_holder]

theorem mem_onlyIf {condition : Bool} (h : condition = true) (s : EntitlementStage) :
    s ∈ FlowNode.stagesIn (FlowPlan.onlyIf condition s) := by
  rw [h]
  exact List.mem_cons_self

/-- A task that can be done has the stage, where such resources are kept. -/
theorem holder_mem (h : t.work c = .ok w) (served : b.served c) : t.holder b ∈ t.stages c := by
  rw [stages_eq h]
  obtain ⟨backend, ui, -, -, rfl⟩ := work_eq_ok h
  rw [FlowNode.stagesIn_append, List.mem_append]
  refine .inl ?_
  cases t with
  | entitle a =>
    simp only [front, FlowNode.stagesIn_append, List.mem_append]
    cases b with
    | route => exact .inl (.inr (mem_onlyIf served _))
    | auth => exact .inr (mem_onlyIf served _)
  | revoke a =>
    simp only [front, FlowNode.stagesIn_append, List.mem_append]
    cases b with
    | route => exact .inl (.inr (mem_onlyIf served _))
    | auth => exact .inl (.inl (mem_onlyIf served _))
  | upgrade old a =>
    simp only [front, FlowNode.stagesIn_append, List.mem_append]
    cases b with
    | route => exact .inl (.inr (mem_onlyIf served _))
    | auth => exact .inr (mem_onlyIf served _)

theorem Ready.congr {s s' : Store} (ready : t.Ready registry tenantId s)
    (same : ∀ a, a ∈ t.leaving ∨ a ∈ t.arriving →
      (s'.isEntitled tenantId a.id ↔ s.isEntitled tenantId a.id)) :
    t.Ready registry tenantId s' := by
  refine ⟨ready.known, fun a ha => ?_, fun a ha there => ?_⟩
  · exact (same a (.inl ha)).mpr (ready.leaving a ha)
  · exact ready.arriving a ha ((same a (.inr ha)).mp there)

end ApplicationTask

namespace EntitlementStage

variable {c : Capabilities} {t : ApplicationTask} {s : EntitlementStage} {retry : RetryConfig}
  {registry : Registry} {tenantId id : String} {b : Belonging} {w w' : Store}
  {cs ds : List (EntitlementStage × Store)}

/-! ## Tasks that are done -/

/-- A task that is done exchanges entitlements. -/
theorem Succeed.isEntitled_iff {work : ApplicationWork} (can : t.work c = .ok work)
    (succeed : Succeed Ledger.collaborators retry tenantId (t.stages c) w w') (id : String) :
    w'.isEntitled tenantId id ↔
      id ∈ t.lastStage.gives ∨ id ∉ t.lastStage.takes ∧ w.isEntitled tenantId id := by
  have last := ApplicationTask.lastStage_mem can
  have gives {s : EntitlementStage} (hs : s ∈ t.stages c) (given : id ∈ s.gives) :
      s = t.lastStage := ApplicationTask.lastStage_of_mem hs (.inl (List.ne_nil_of_mem given))
  have takes {s : EntitlementStage} (hs : s ∈ t.stages c) (taken : id ∈ s.takes) :
      s = t.lastStage := ApplicationTask.lastStage_of_mem hs (.inr (List.ne_nil_of_mem taken))
  constructor
  · intro there
    by_cases given : id ∈ t.lastStage.gives
    · exact .inl given
    · right
      obtain ⟨before, untaken⟩ := succeed.untaken Ledger.keepsEntitlements there
        fun s hs h => absurd (gives hs h ▸ h) given
      exact ⟨fun taken => given (untaken _ last taken), before⟩
  · intro source
    refine succeed.entitled Ledger.keepsEntitlements (fun s hs taken => ?_) ?_
    · obtain rfl := takes hs taken
      exact source.resolve_right fun h => h.1 taken
    · rcases source with given | ⟨-, there⟩
      · exact .inr ⟨_, last, given⟩
      · exact .inl there

/-- A stage of a task does what the stage does that the task has for it, or nothing. -/
theorem execute_owned_of_mem (hs : s ∈ t.stages c) (retry : RetryConfig) (tenantId : String)
    (b : Belonging) (owner : String) (w : Store) :
    owned tenantId b owner (s.execute Ledger.collaborators retry tenantId w).2
        = handed (t.holder b).equips (t.holder b).strips b owner (owned tenantId b owner w) ∨
      s ≠ t.holder b ∧ owned tenantId b owner (s.execute Ledger.collaborators retry tenantId w).2
        = owned tenantId b owner w := by
  rw [execute_owned]
  by_cases own : s = t.holder b
  · exact .inl (by rw [own])
  rcases ApplicationTask.holders_of_mem hs b with ⟨strips, equips⟩ | ⟨strips, equips⟩
  · left
    simp only [handed, strips, equips, t.strips_holder, t.equips_holder]
  · right
    refine ⟨own, handed_untouched ?_ ?_⟩
    · simp [equips]
    · simp [strips]

/-- A task that is done does what its stage for such resources does. -/
theorem Succeed.owned_eq {work : ApplicationWork} (can : t.work c = .ok work)
    (served : b.served c)
    (succeed : Succeed Ledger.collaborators retry tenantId (t.stages c) w w') (owner : String) :
    owned tenantId b owner w'
      = handed (t.holder b).equips (t.holder b).strips b owner (owned tenantId b owner w) := by
  -- Once the stage has been called, calling it again makes no difference.
  suffices general : ∀ ss : List EntitlementStage, (∀ s ∈ ss, s ∈ t.stages c) → ∀ w,
      Succeed Ledger.collaborators retry tenantId ss w w' →
      owned tenantId b owner w'
          = handed (t.holder b).equips (t.holder b).strips b owner (owned tenantId b owner w) ∨
        t.holder b ∉ ss ∧ owned tenantId b owner w' = owned tenantId b owner w by
    refine (general _ (fun s hs => hs) w succeed).resolve_right fun h => h.1 ?_
    exact ApplicationTask.holder_mem can served
  intro ss
  induction ss with
  | nil =>
    intro _ w succeed
    cases succeed
    exact .inr ⟨List.not_mem_nil, rfl⟩
  | cons s rest ih =>
    intro own w succeed
    rw [List.forall_mem_cons] at own
    obtain _ | ⟨ok, later⟩ := succeed
    rcases ih own.2 _ later with done | ⟨absent, kept⟩ <;>
      rcases execute_owned_of_mem own.1 retry tenantId b owner w with first | ⟨other, first⟩
    · left
      rw [done, first, handed_handed]
    · left
      rw [done, first]
    · left
      rw [kept, first]
    · right
      rw [kept, first]
      exact ⟨by simp [other.symm, absent], rfl⟩

/-- An application that comes with a task that is done has what its modules are named after. -/
theorem Succeed.inStep_arriving {work : ApplicationWork} (can : t.work c = .ok work)
    (served : b.served c)
    (succeed : Succeed Ledger.collaborators retry tenantId (t.stages c) w w')
    (ready : t.Ready registry tenantId w) {a : Application} (ha : a ∈ t.arriving)
    (step : InStep registry tenantId b a.id w) : InStep registry tenantId b a.id w' := by
  have given : a.id ∈ t.lastStage.gives := by
    rw [t.lastStage_gives]
    exact List.mem_map_of_mem ha
  refine .of_entitled ((succeed.isEntitled_iff can a.id).mpr (.inl given))
    (ready.known a (.inr ha)) ?_
  rw [succeed.owned_eq can served]
  have equipped : (a.id, a.moduleIds) ∈ (t.holder b).equips b :=
    ApplicationTask.mem_equips_holder.mpr ⟨a, ha, rfl, rfl⟩
  refine Set.Subset.antisymm ?_ fun name hname => .inl ⟨_, equipped, hname⟩
  rintro name (⟨ms, h, hname⟩ | ⟨unstripped, hname⟩)
  · obtain ⟨a', ha', same, rfl⟩ := ApplicationTask.mem_equips_holder.mp h
    have known := ready.known a' (.inr ha')
    rw [same, ready.known a (.inr ha)] at known
    rwa [Option.some.inj known]
  · -- What comes without going has nothing.
    have absent : ¬ w.isEntitled tenantId a.id := fun before =>
      unstripped ⟨a.moduleIds, ApplicationTask.mem_strips_holder.mpr
        ⟨a, ready.arriving a ha before, rfl, rfl⟩⟩
    rw [step.other absent] at hname
    exact absurd hname (Set.notMem_empty name)

/-- An application that goes with a task that is done, and does not come again, has nothing. -/
theorem Succeed.inStep_leaving {work : ApplicationWork} (can : t.work c = .ok work)
    (served : b.served c)
    (succeed : Succeed Ledger.collaborators retry tenantId (t.stages c) w w')
    {a : Application} (ha : a ∈ t.leaving) (gone : ¬ ∃ a' ∈ t.arriving, a'.id = a.id) :
    InStep registry tenantId b a.id w' := by
  refine .of_absent (fun there => ?_) ?_
  · rcases (succeed.isEntitled_iff can a.id).mp there with given | ⟨untaken, -⟩
    · rw [t.lastStage_gives] at given
      exact gone (List.mem_map.mp given)
    · rw [t.lastStage_takes] at untaken
      exact untaken (List.mem_map_of_mem ha)
  · rw [succeed.owned_eq can served, Set.eq_empty_iff_forall_notMem]
    rintro name (⟨ms, h, -⟩ | ⟨unstripped, -⟩)
    · obtain ⟨a', ha', same, -⟩ := ApplicationTask.mem_equips_holder.mp h
      exact gone ⟨a', ha', same⟩
    · exact unstripped ⟨_, ApplicationTask.mem_strips_holder.mpr ⟨a, ha, rfl, rfl⟩⟩

/-- An application that neither comes nor goes with a task that is done is left as it is. -/
theorem Succeed.inStep_other {work : ApplicationWork} (can : t.work c = .ok work)
    (served : b.served c)
    (succeed : Succeed Ledger.collaborators retry tenantId (t.stages c) w w')
    (stays_away : ¬ ∃ a ∈ t.arriving, a.id = id) (stays : ¬ ∃ a ∈ t.leaving, a.id = id)
    (step : InStep registry tenantId b id w) : InStep registry tenantId b id w' := by
  refine step.congr ?_ ?_
  · rw [succeed.isEntitled_iff can, t.lastStage_gives, t.lastStage_takes]
    simp_all
  · rw [succeed.owned_eq can served]
    refine handed_untouched ?_ ?_
    · rintro ⟨ms, h⟩
      obtain ⟨a, ha, same, -⟩ := ApplicationTask.mem_equips_holder.mp h
      exact stays_away ⟨a, ha, same⟩
    · rintro ⟨ms, h⟩
      obtain ⟨a, ha, same, -⟩ := ApplicationTask.mem_strips_holder.mp h
      exact stays ⟨a, ha, same⟩

/-- A task that is done keeps what belongs to applications in step. -/
theorem Succeed.inStep {work : ApplicationWork} (can : t.work c = .ok work) (served : b.served c)
    (succeed : Succeed Ledger.collaborators retry tenantId (t.stages c) w w')
    (ready : t.Ready registry tenantId w) (step : InStep registry tenantId b id w) :
    InStep registry tenantId b id w' := by
  by_cases arrives : ∃ a ∈ t.arriving, a.id = id
  · obtain ⟨a, ha, rfl⟩ := arrives
    exact succeed.inStep_arriving can served ready ha step
  · by_cases leaves : ∃ a ∈ t.leaving, a.id = id
    · obtain ⟨a, ha, rfl⟩ := leaves
      exact succeed.inStep_leaving can served ha arrives
    · exact succeed.inStep_other can served arrives leaves step

/-! ## Tasks that are undone -/

theorem Separate.mono (separate : Separate cs) (sub : ∀ x ∈ ds, x ∈ cs) : Separate ds := by
  constructor
  · intro x hx y hy
    exact separate.modules x (sub x hx) y (sub y hy)
  · intro x hx y hy
    exact separate.stripped x (sub x hx) y (sub y hy)

/-- When stages of tasks have been undone, the tenant is entitled to what it was before, and what
belongs to applications is the same. -/
theorem Undone.inStep (undone : Undone Ledger.collaborators retry tenantId w cs w') (id : String)
    (separate : Separate cs)
    (taken : ∀ x ∈ cs, ∀ y ∈ cs, id ∈ x.1.takes → id ∈ y.1.gives → id ∈ y.1.takes)
    (own : ∀ x ∈ cs, ∃ t : ApplicationTask, x.1 ∈ t.stages c ∧ t.Ready registry tenantId w)
    (step : InStep registry tenantId b id w) :
    (w'.isEntitled tenantId id ↔ w.isEntitled tenantId id) ∧ InStep registry tenantId b id w' := by
  have entitled : w'.isEntitled tenantId id ↔ w.isEntitled tenantId id := by
    refine (undone.entitled_iff Ledger.keepsEntitlements taken).mpr fun y hy given free there => ?_
    obtain ⟨t, hs, ready⟩ := own y hy
    have last := ApplicationTask.lastStage_of_mem hs (.inl (List.ne_nil_of_mem given))
    rw [last, t.lastStage_gives] at given
    rw [last, t.lastStage_takes, List.map_eq_nil_iff] at free
    obtain ⟨a, ha, rfl⟩ := List.mem_map.mp given
    have leaves := ready.arriving a ha there
    rw [free] at leaves
    exact List.not_mem_nil leaves
  refine ⟨entitled, step.congr entitled (undone.owned_kept b id separate ?_ ?_)⟩
  · intro x hx ms stripped
    obtain ⟨t, hs, ready⟩ := own x hx
    rcases ApplicationTask.holders_of_mem hs b with ⟨strips, -⟩ | ⟨strips, -⟩ <;>
      rw [strips] at stripped
    · obtain ⟨a, ha, heq⟩ := List.mem_map.mp stripped
      obtain ⟨rfl, rfl⟩ := Prod.mk.inj heq
      exact step.owned_eq (ready.known a (.inl ha)) (ready.leaving a ha)
    · exact absurd stripped List.not_mem_nil
  · intro x hx ms equipped unstripped
    obtain ⟨t, hs, ready⟩ := own x hx
    rcases ApplicationTask.holders_of_mem hs b with ⟨strips, equips⟩ | ⟨-, equips⟩ <;>
      rw [equips] at equipped
    · obtain ⟨a, ha, heq⟩ := List.mem_map.mp equipped
      obtain ⟨rfl, rfl⟩ := Prod.mk.inj heq
      refine step.other fun there => unstripped ⟨a.moduleIds, ?_⟩
      rw [strips]
      exact List.mem_map.mpr ⟨a, ready.arriving a ha there, rfl⟩
    · exact absurd equipped List.not_mem_nil

/-! ## One task after another -/

/-- Tasks that are done or undone one after another, no two of which have an application in common,
keep what belongs to applications in step. -/
theorem Episodes.inStep (served : b.served c) {tasks : List ApplicationTask}
    (can : ∀ t ∈ tasks, ∃ work, t.work c = .ok work)
    (apart : tasks.Pairwise fun t u => ∀ a, a ∈ t.leaving ∨ a ∈ t.arriving → ∀ a',
      a' ∈ u.leaving ∨ a' ∈ u.arriving → a'.id ≠ a.id)
    (ready : ∀ t ∈ tasks, t.Ready registry tenantId w) (separate : Separate cs)
    (episodes : Episodes Ledger.collaborators retry tenantId (tasks.map (·.stages c)) w cs w')
    (step : ∀ id, InStep registry tenantId b id w) : ∀ id, InStep registry tenantId b id w' := by
  induction tasks generalizing w cs with
  | nil =>
    cases episodes
    exact step
  | cons t rest ih =>
    rw [List.forall_mem_cons] at can ready
    rw [List.pairwise_cons] at apart
    obtain ⟨work, hwork⟩ := can.1
    obtain _ | ⟨called, succeed, later⟩ | ⟨called, undone, later⟩ := episodes
    · have entitled := succeed.isEntitled_iff hwork
      rw [t.lastStage_gives, t.lastStage_takes] at entitled
      refine ih can.2 apart.2 (fun u hu => (ready.2 u hu).congr fun a' ha' => ?_)
        (separate.mono fun x hx => List.mem_append_right _ hx) later
        fun id => succeed.inStep hwork served ready.1 (step id)
      have foreign := fun a ha => apart.1 u hu a ha a' ha'
      have ungiven : a'.id ∉ t.arriving.map (·.id) := by
        intro h
        obtain ⟨a, ha, same⟩ := List.mem_map.mp h
        exact foreign a (.inr ha) same.symm
      have untaken : a'.id ∉ t.leaving.map (·.id) := by
        intro h
        obtain ⟨a, ha, same⟩ := List.mem_map.mp h
        exact foreign a (.inl ha) same.symm
      rw [entitled]
      simp [ungiven, untaken]
    · have kept (id : String) := undone.inStep id
        (separate.mono fun x hx => List.mem_append_left _ hx)
        (fun x hx y hy taken given => ?_) (fun x hx => ⟨t, called x hx, ready.1⟩) (step id)
      · refine ih can.2 apart.2 (fun u hu => (ready.2 u hu).congr fun a' ha' => (kept a'.id).1)
          (separate.mono fun x hx => List.mem_append_right _ hx) later fun id => (kept id).2
      · have last := ApplicationTask.lastStage_of_mem (called x hx)
          (.inr (List.ne_nil_of_mem taken))
        have last' := ApplicationTask.lastStage_of_mem (called y hy)
          (.inl (List.ne_nil_of_mem given))
        rw [last', ← last]
        exact taken

end EntitlementStage

/-! ## Requests -/

/-- Plans call the applications that a registry knows by their names. -/
def Registry.NamesRead (registry : Registry) : Prop :=
  ∀ id a v, registry.known? id = some a → VersionedName.parse id = .ok v → v.name = a.name

theorem Registry.ReadsBack.namesRead {registry : Registry} (reads : registry.ReadsBack) :
    registry.NamesRead := by
  intro id a v known hv
  have read := reads.known known
  rw [Registry.known?_id known, hv] at read
  rw [Except.ok.inj read]

namespace LoadedRequest

/-- One version of each name is requested. -/
def OneEach (l : LoadedRequest) : Prop :=
  ∀ a ∈ l.applications, ∀ b ∈ l.applications, a.name = b.name → a = b

/-- The tenant has no version of a newcomer. -/
def Fresh (l : LoadedRequest) (type : EntitlementType) : Prop :=
  ∀ a ∈ l.newcomers type, ∀ b ∈ l.entitled, b.name ≠ a.name

end LoadedRequest

theorem ApplicationTask.name_eq {l : LoadedRequest} {type : EntitlementType} {t : ApplicationTask}
    (ht : FlowPlan.Planned l.input type t) {a : Application}
    (ha : a ∈ t.leaving ∨ a ∈ t.arriving) : a.name = t.subject.name := by
  cases t with
  | entitle b | revoke b =>
    obtain rfl : a = b := by simpa [leaving, arriving] using ha
    rfl
  | upgrade old b =>
    obtain ⟨-, hold, -⟩ := LoadedRequest.of_planned_upgrade ht
    have which : a = old ∨ a = b := by simpa [leaving, arriving] using ha
    rcases which with rfl | rfl
    · exact (Service.installedVersion_eq_ok hold).2
    · rfl

namespace Service

open LoadedRequest

section

variable {σ : Type} {s : Service σ} {w : σ} {ids : FlowIds} {r : EntitlementRequest}
  {l : LoadedRequest} {plan : FlowPlan} {t u : ApplicationTask}

/-- If plans call applications by their names, the tenant has no version of a newcomer. -/
theorem Prepared.fresh (prepared : s.Prepared w ids r l plan) (names : s.registry.NamesRead) :
    l.Fresh r.type := by
  have loaded := load_eq_ok prepared.loaded
  have valid := (ValidationContext.validate_eq_ok prepared.valid).1
  have planned := loaded.planned
  intro a ha b hb same
  cases ht : r.type with
  | entitle =>
    rw [ValidationContext.checkType, context, ht] at valid
    rw [ht] at ha
    exact ValidationContext.checkNotEntitled_eq_ok_iff.mp valid a ha b hb same
  | state =>
    obtain ⟨p, hp, planned⟩ := planned ht
    rw [planState, TransitionPlan.ofIds, Except.bind_eq_ok] at planned
    obtain ⟨entitled, hentitled, planned⟩ := planned
    obtain ⟨desired, -, planned⟩ := Except.bind_eq_ok.mp planned
    obtain rfl := Except.ok.inj planned
    rw [← Registry.find_ids loaded.entitled] at hentitled
    have there : b.id ∈ l.entitled.map (·.id) := List.mem_map_of_mem hb
    obtain ⟨⟨name, version⟩, hv⟩ := Versions.readable_of_ofIds hentitled b.id there
    obtain rfl := names b.id b _ (loaded.entitled_known hb) hv
    have known := (Versions.get?_ofIds hentitled b.name version).mpr ⟨b.id, there, hv⟩
    simp only [newcomers, ht, hp, List.mem_filter, List.contains_iff_mem] at ha
    obtain ⟨-, absent⟩ := TransitionPlan.mem_entitle.mp ha.2
    rw [← same, known] at absent
    simp at absent
  | revoke | upgrade => simp [newcomers, ht] at ha

/-- There is one task for each name. -/
theorem Prepared.eq_of_name (prepared : s.Prepared w ids r l plan) (each : l.OneEach)
    (one : s.registry.OneVersion (s.collaborators.store w))
    (ht : FlowPlan.Planned l.input r.type t) (hu : FlowPlan.Planned l.input r.type u)
    (name : t.subject.name = u.subject.name) : t = u := by
  have loaded := load_eq_ok prepared.loaded
  have new {a : Application} (h : FlowPlan.Planned l.input r.type (.entitle a)) :=
    newcomer_iff.mpr h
  cases t with
  | entitle a =>
    cases u with
    | entitle b =>
      have ha := requested_of_newcomer (new ht)
      have hb := requested_of_newcomer (new hu)
      exact congrArg ApplicationTask.entitle (each a ha b hb name)
    | revoke b => exact absurd name ((prepared.of_planned_revoke hu).2.1 a (new ht))
    | upgrade old b => exact absurd name ((of_planned_upgrade hu).2.2 a (new ht))
  | revoke a =>
    obtain ⟨there, foreign, away⟩ := prepared.of_planned_revoke ht
    cases u with
    | entitle b => exact absurd name.symm (foreign b (new hu))
    | revoke b =>
      have there' := (prepared.of_planned_revoke hu).1
      exact congrArg ApplicationTask.revoke (loaded.single_of_oneVersion one there there' name)
    | upgrade old b => exact absurd name.symm (away old b hu)
  | upgrade old a =>
    obtain ⟨ha, hold, foreign⟩ := of_planned_upgrade ht
    cases u with
    | entitle b => exact absurd name.symm (foreign b (new hu))
    | revoke b => exact absurd name ((prepared.of_planned_revoke hu).2.2 old a ht)
    | upgrade old' b =>
      obtain ⟨hb, hold', -⟩ := of_planned_upgrade hu
      obtain rfl := each a ha b hb name
      rw [Except.ok.inj (hold.symm.trans hold')]

end

variable {s : Service Store} {w : Store} {ids : FlowIds} {r : EntitlementRequest}
  {l : LoadedRequest} {plan : FlowPlan} {t : ApplicationTask} {b : Belonging}

theorem Prepared.ready (prepared : s.Prepared w ids r l plan)
    (ledger : s.collaborators = Ledger.collaborators) (one : s.registry.OneVersion w)
    (fresh : l.Fresh r.type) (ht : FlowPlan.Planned l.input r.type t) :
    t.Ready s.registry r.tenantId w := by
  have loaded := load_eq_ok prepared.loaded
  have store (u : Store) : s.collaborators.store u = u := by rw [ledger]; rfl
  rw [← store w] at one
  refine ⟨fun a ha => loaded.known (prepared.looked_up ht ha),
    fun a ha => loaded.isEntitled ledger (prepared.entitled_of_leaving ht ha),
    fun a ha before => ?_⟩
  rw [← store w] at before
  obtain ⟨a', ha', same⟩ := (loaded.entitled_iff a.id).mp before
  obtain rfl := loaded.eq_of_id (.inr ha') (prepared.looked_up ht (.inr ha)) same
  cases t with
  | entitle c =>
    obtain rfl := List.mem_singleton.mp ha
    exact absurd rfl (fresh a' (newcomer_iff.mpr ht) a' ha')
  | revoke => exact absurd ha List.not_mem_nil
  | upgrade old c =>
    obtain rfl := List.mem_singleton.mp ha
    obtain ⟨hold, name⟩ := installedVersion_eq_ok (of_planned_upgrade ht).2.1
    exact List.mem_singleton.mpr (loaded.single_of_oneVersion one ha' hold name.symm)

/-- A run in which nothing fails to be undone keeps what belongs to applications of its tenant in
step. -/
theorem Prepared.inStep (prepared : s.Prepared w ids r l plan)
    (ledger : s.collaborators = Ledger.collaborators) (one : s.registry.OneVersion w)
    (each : l.OneEach) (fresh : l.Fresh r.type) (distinct : Function.Injective ids.application)
    (complete : (s.runPlan w plan).report.withStatus .cancellationFailed = [])
    (served : b.served s.capabilities)
    (step : ∀ id, InStep s.registry r.tenantId b id w) (id : String) :
    InStep s.registry r.tenantId b id (s.runPlan w plan).world := by
  have rows := runPlan_rows ledger w plan
  have settles := prepared.run_settles distinct complete
  have ready {t : ApplicationTask} := prepared.ready (t := t) ledger one fresh
  generalize ((plan.flow.map (·.toStage s.collaborators s.retry)).run w).machine.world = last
    at rows settles
  have step' : InStep s.registry r.tenantId b id last := by
    rcases settles with undone | ⟨tasks, nodup, planned, works, episodes⟩
    · rw [ledger] at undone
      have own : ∀ x ∈ s.calls w plan, ∃ t : ApplicationTask, x.1 ∈ t.stages s.capabilities ∧
          t.Ready s.registry r.tenantId w := by
        intro x hx
        obtain ⟨t, ht, hs⟩ := prepared.mem_calls hx
        exact ⟨t, hs, ready ht⟩
      refine (undone.inStep id prepared.separate (fun x hx y hy => ?_) own (step id)).2
      exact prepared.taken_where_given hx hy
    · rw [ledger] at episodes
      refine episodes.inStep served works ?_ ?_ prepared.separate step id
      · refine nodup.imp_of_mem fun {t u} ht hu ne a ha a' ha' same => ne ?_
        have ht := (planned t).mp ht
        have hu := (planned u).mp hu
        obtain rfl := (load_eq_ok prepared.loaded).eq_of_id (prepared.looked_up hu ha')
          (prepared.looked_up ht ha) same
        refine prepared.eq_of_name each ?_ ht hu ?_
        · rwa [ledger]
        · rw [← ApplicationTask.name_eq ht ha, ← ApplicationTask.name_eq hu ha']
      · exact fun t ht => ready ((planned t).mp ht)
  refine step'.congr ?_ ?_
  · rw [Store.isEntitled, Store.isEntitled, rows.1]
  · simp only [owned, rows.2]

/-- A run leaves what belongs to the applications of other tenants in step. -/
theorem Prepared.inStep_others (prepared : s.Prepared w ids r l plan)
    (ledger : s.collaborators = Ledger.collaborators) {tenantId id : String}
    (other : tenantId ≠ r.tenantId) (step : InStep s.registry tenantId b id w) :
    InStep s.registry tenantId b id (s.runPlan w plan).world := by
  have keeps : s.collaborators.KeepsEntitlements := ledger ▸ Ledger.keepsEntitlements
  refine step.congr ?_ ?_
  · have entitled := prepared.others keeps other id
    rw [Collaborators.Entitled, Collaborators.Entitled, ledger] at entitled
    exact entitled
  · ext name
    have same := prepared.foreign ledger (x := b.resource tenantId id name) (.of_tenant other)
    exact iff_of_eq (congrArg (· = true) same)

/-! ## One run after another -/

/-- A run with given capabilities that requests one version of each name, and in which nothing fails
to be undone. -/
structure Orderly (c : Capabilities) (s : Service Store) (w : Store) (r : EntitlementRequest)
    (e : Execution Store) : Prop where
  /-- The installation can do what is given. -/
  capabilities : s.capabilities = c
  /-- One version of each name is requested. -/
  oneEach : ∀ l, s.load w r = .ok l → l.OneEach
  /-- Nothing is reported to have failed to be undone. -/
  complete : e.report.withStatus .cancellationFailed = []
  /-- The flows of applications have identifiers of their own. -/
  distinct : ∃ ids : FlowIds, Function.Injective ids.application ∧ s.execute w ids r = .ok e

/-- Newcomers of which the tenant has no version, each in one version, have no rivals. -/
theorem not_leavesRivals {e : Execution Store} (loads : s.load w r = .ok l) (each : l.OneEach)
    (fresh : l.Fresh r.type) : ¬ s.LeavesRivals w r e := by
  rintro ⟨l', a, b, loads', rivals, -, -⟩
  obtain rfl := Except.ok.inj (loads'.symm.trans loads)
  rcases rivals.other with hb | hb
  · exact rivals.ne (each b hb a (requested_of_newcomer rivals.newcomer) rivals.name)
  · exact fresh a rivals.newcomer b hb rivals.name

/-- If plans call applications by their names, orderly runs with one worker from an empty store lead
only to stores in which every application that a tenant is entitled to has the routes and the auth
resources that its modules are named after, and every other one has none, as far as the installation
keeps them. -/
theorem reached_inStep {registry : Registry} {c : Capabilities} (names : registry.NamesRead)
    {w : Store} (reached : Reached registry Ledger.collaborators (Orderly c) .empty w)
    {b : Belonging} (served : b.served c) (tenantId id : String) :
    InStep registry tenantId b id w := by
  have both : registry.OneVersion w ∧ ∀ tenantId id, InStep registry tenantId b id w := by
    induction reached with
    | first =>
      refine ⟨?_, fun tenantId id => .of_absent ?_ ?_⟩
      · constructor <;> simp [Store.isEntitled, Store.empty]
      · simp [Store.isEntitled, Store.empty]
      · simp [owned, Store.empty]
    | @run s w ids r e _ known called ran orderly ih =>
      obtain ⟨one, step⟩ := ih
      subst known
      obtain ⟨ids, distinct, ran⟩ := orderly.distinct
      have complete := orderly.complete
      have keeps : s.collaborators.KeepsEntitlements := called ▸ Ledger.keepsEntitlements
      obtain ⟨l, plan, prepared, rfl⟩ := execute_eq_ok ran
      have each := orderly.oneEach l prepared.loaded
      have fresh := prepared.fresh names
      have one' : s.registry.OneVersion (s.collaborators.store w) := by rwa [called]
      have apart := not_leavesRivals (e := s.runPlan w plan) prepared.loaded each fresh
      have after := (oneVersion_iff keeps one' ran).mpr apart
      refine ⟨by rwa [called] at after, fun tenantId id => ?_⟩
      by_cases own : tenantId = r.tenantId
      · subst own
        exact prepared.inStep called one each fresh distinct complete
          (by rwa [orderly.capabilities]) (step r.tenantId) id
      · exact prepared.inStep_others called own (step tenantId id)
  exact both.2 tenantId id

/-- A request that has been looked up is carried out in order, and leads to a good store. -/
theorem Reached.orderly (name : String) (good : Store → Bool)
    (reached : Reached s.registry Ledger.collaborators (Orderly s.capabilities) .empty w)
    (ledger : s.collaborators = Ledger.collaborators) (loaded : s.load w r = .ok l)
    (valid : (l.context r.type).validate = .ok ()) (each : l.OneEach)
    (runs : (s.run? (named name) r l w).any
      fun e => (e.report.withStatus .cancellationFailed).isEmpty && good e.world) :
    Reached s.registry Ledger.collaborators (Orderly s.capabilities) .empty
        (s.worldAfter (named name) r l w) ∧ good (s.worldAfter (named name) r l w) := by
  obtain ⟨e, ran, world, holds⟩ := execute_of_run? loaded valid runs
  obtain ⟨complete, holds⟩ := (Bool.and_eq_true _ _).mp holds
  rw [← world]
  refine ⟨.run reached rfl ledger ran ⟨rfl, fun l' loads => ?_, ?_, _, named_injective name, ran⟩,
    holds⟩
  · obtain rfl := Except.ok.inj (loads.symm.trans loaded)
    exact each
  · exact List.isEmpty_iff.mp complete

/-- Whether a tenant is entitled to applications, and to no others. -/
def tenantHas (applicationIds : List String) (w : Store) : Bool :=
  w.entitledIds "t" == applicationIds

theorem oneEach_singleton {a : Application} (h : l.applications = [a]) : l.OneEach := by
  intro b hb c hc _
  rw [h, List.mem_singleton] at hb hc
  rw [hb, hc]

/-- An installation with a gateway and auth resources that knows two versions of an application. -/
def rerouting : Service Store :=
  { registry := .ofList [bundle "a" "1.0.0" ["m-1.0.0"], bundle "a" "2.0.0" ["n-2.0.0"]]
    capabilities := { gateway := .kong, auth := .keycloak }
    retry := .noRetry
    collaborators := Ledger.collaborators }

/-- The store after a tenant has been entitled to the first version. -/
def firstRouted : Store :=
  rerouting.worldAfter (named "first") (requesting .entitle ["a-1.0.0"])
    (loading [] [bundle "a" "1.0.0" ["m-1.0.0"]]) .empty

/-- The store after an upgrade to the second one. -/
def rerouted : Store :=
  rerouting.worldAfter (named "second") (requesting .upgrade ["a-2.0.0"])
    (loading [bundle "a" "1.0.0" ["m-1.0.0"]] [bundle "a" "2.0.0" ["n-2.0.0"]]) firstRouted

theorem rerouted_reached :
    Reached rerouting.registry Ledger.collaborators (Orderly rerouting.capabilities) .empty
      rerouted ∧ tenantHas ["a-2.0.0"] rerouted := by
  have loaded : rerouting.load .empty (requesting .entitle ["a-1.0.0"])
      = .ok (loading [] [bundle "a" "1.0.0" ["m-1.0.0"]]) := rfl
  have valid := ValidationContext.validate_of_free
    ((loading [] [bundle "a" "1.0.0" ["m-1.0.0"]]).context .entitle)
    (by decide) rfl (by decide) rfl rfl
  obtain ⟨reached, first⟩ := Reached.orderly "first" (tenantHas ["a-1.0.0"]) .first rfl loaded
    valid (oneEach_singleton rfl) (by decide +kernel)
  have entitled : (rerouting.collaborators.store firstRouted).entitledIds
      (requesting .upgrade ["a-2.0.0"]).tenantId = ["a-1.0.0"] := beq_iff_eq.mp first
  have loaded' : rerouting.load firstRouted (requesting .upgrade ["a-2.0.0"])
      = .ok (loading [bundle "a" "1.0.0" ["m-1.0.0"]] [bundle "a" "2.0.0" ["n-2.0.0"]]) := by
    unfold load
    rw [entitled]
    rfl
  have valid' := ValidationContext.validate_of_free ((loading [bundle "a" "1.0.0" ["m-1.0.0"]]
    [bundle "a" "2.0.0" ["n-2.0.0"]]).context .upgrade) (by decide) rfl (by decide) rfl rfl
  exact Reached.orderly "second" (tenantHas ["a-2.0.0"]) reached rfl loaded' valid'
    (oneEach_singleton rfl) (by decide +kernel)

/-- After an upgrade the new version has what its modules are named after, and the old one has
nothing. -/
theorem reached_inStep_rerouted : ∃ w : Store,
    Reached rerouting.registry Ledger.collaborators
      (Orderly { gateway := .kong, auth := .keycloak }) .empty w ∧
    ∀ b : Belonging,
      owned "t" b "a-1.0.0" w = ∅ ∧ owned "t" b "a-2.0.0" w = b.names ["n-2.0.0"] := by
  have names : rerouting.registry.NamesRead := by
    refine Registry.ReadsBack.namesRead fun all readable => ?_
    obtain rfl := Except.ok.inj readable
    decide +kernel
  obtain ⟨reached, entitled⟩ := rerouted_reached
  refine ⟨rerouted, reached, fun b => ?_⟩
  have step (id : String) : InStep rerouting.registry "t" b id rerouted :=
    reached_inStep names reached (by cases b <;> rfl) "t" id
  have entitled := beq_iff_eq.mp entitled
  have gone : ¬ rerouted.isEntitled "t" "a-1.0.0" := by
    rw [← Store.mem_entitledIds, entitled]
    decide
  have there : rerouted.isEntitled "t" "a-2.0.0" := by
    rw [← Store.mem_entitledIds, entitled]
    decide
  exact ⟨(step _).other gone,
    (step (bundle "a" "2.0.0" ["n-2.0.0"]).id).owned_eq rfl there⟩

/-! ## Two versions with routes -/

/-- A version of an application. -/
def oldVersion : Application := bundle "x" " 9.0.0-2.0.0" ["n-9.0.0"]

/-- Another version of it. -/
def newVersion : Application := bundle "x" "3.0.0" ["n-3.0.0"]

/-- An installation with a gateway that knows both. -/
def routing : Service Store :=
  { registry := .ofList [oldVersion, newVersion]
    capabilities := { gateway := .kong }
    retry := .noRetry
    collaborators := Ledger.collaborators }

/-- The store after a tenant has been entitled to the first version. -/
def routed : Store :=
  routing.worldAfter (named "first") (requesting .entitle ["x- 9.0.0-2.0.0"])
    (loading [] [oldVersion]) .empty

theorem routed_reached :
    Reached routing.registry Ledger.collaborators (Orderly routing.capabilities) .empty routed ∧
      tenantHas ["x- 9.0.0-2.0.0"] routed := by
  have loaded : routing.load .empty (requesting .entitle ["x- 9.0.0-2.0.0"])
      = .ok (loading [] [oldVersion]) := rfl
  have valid := ValidationContext.validate_of_free ((loading [] [oldVersion]).context .entitle)
    (by decide) rfl (by decide) rfl rfl
  exact Reached.orderly "first" (tenantHas ["x- 9.0.0-2.0.0"]) .first rfl loaded valid
    (oneEach_singleton rfl) (by decide +kernel)

/-- What is looked up for the request for a state with the other version. -/
def misread : LoadedRequest :=
  { applications := [newVersion]
    entitled := [oldVersion]
    plan := some
      { entitled := .ofList [("x- 9.0.0", "2.0.0")]
        desired := .ofList [("x", "3.0.0")] } }

/-- The store after that request: the tenant has both versions. -/
def doubled : Store :=
  routing.worldAfter (named "second") (requesting .state ["x-3.0.0"]) misread routed

theorem doubled_reached :
    Reached routing.registry Ledger.collaborators (Orderly routing.capabilities) .empty doubled ∧
      tenantHas ["x- 9.0.0-2.0.0", "x-3.0.0"] doubled := by
  obtain ⟨reached, first⟩ := routed_reached
  have entitled : (routing.collaborators.store routed).entitledIds
      (requesting .state ["x-3.0.0"]).tenantId = ["x- 9.0.0-2.0.0"] := beq_iff_eq.mp first
  have loaded : routing.load routed (requesting .state ["x-3.0.0"]) = .ok misread := by
    unfold load planState
    rw [entitled]
    rfl
  have valid := ValidationContext.validate_of_free (misread.context .state)
    (by decide) rfl (by decide) rfl rfl
  exact Reached.orderly "second" (tenantHas ["x- 9.0.0-2.0.0", "x-3.0.0"]) reached rfl loaded valid
    (oneEach_singleton rfl) (by decide +kernel)

/-- The store after an upgrade to the version that was there first, which is undone. -/
def unrouted : Store :=
  routing.worldAfter (named "third") (requesting .upgrade ["x- 9.0.0-2.0.0"])
    (loading [oldVersion, newVersion] [oldVersion]) doubled

/-- Whether a tenant is entitled to the first version without the route of its module. -/
def lacksRoute (w : Store) : Bool :=
  w.isEntitled "t" oldVersion.id &&
    !w.resources.contains (Belonging.route.resource "t" oldVersion.id "/n")

theorem unrouted_reached :
    Reached routing.registry Ledger.collaborators (Orderly routing.capabilities) .empty
      unrouted ∧ lacksRoute unrouted := by
  obtain ⟨reached, both⟩ := doubled_reached
  have entitled : (routing.collaborators.store doubled).entitledIds
      (requesting .upgrade ["x- 9.0.0-2.0.0"]).tenantId = ["x- 9.0.0-2.0.0", "x-3.0.0"] :=
    beq_iff_eq.mp both
  have loaded : routing.load doubled (requesting .upgrade ["x- 9.0.0-2.0.0"])
      = .ok (loading [oldVersion, newVersion] [oldVersion]) := by
    unfold load
    rw [entitled]
    rfl
  have valid := ValidationContext.validate_of_free
    ((loading [oldVersion, newVersion] [oldVersion]).context .upgrade)
    (by decide) rfl (by decide) rfl rfl
  exact Reached.orderly "third" lacksRoute reached rfl loaded valid (oneEach_singleton rfl)
    (by decide +kernel)

/-- A tenant is entitled to a version of an application whose routes are gone. -/
theorem reached_unrouted : ∃ w : Store,
    Reached routing.registry Ledger.collaborators (Orderly { gateway := .kong }) .empty w ∧
    w.isEntitled "t" oldVersion.id ∧ ¬ InStep routing.registry "t" .route oldVersion.id w := by
  obtain ⟨reached, lacks⟩ := unrouted_reached
  obtain ⟨there, gone⟩ := (Bool.and_eq_true _ _).mp lacks
  refine ⟨unrouted, reached, there, fun step => ?_⟩
  have has := step.owned_eq rfl there
  have route : "/n" ∈ Belonging.route.names oldVersion.moduleIds := by
    show "/n" ∈ oldVersion.moduleIds.map Belonging.route.nameOf
    decide
  rw [← has] at route
  exact absurd route (Bool.not_eq_true _ ▸ (Bool.not_eq_true' _).mp gone)

end Service

end Provisioning
