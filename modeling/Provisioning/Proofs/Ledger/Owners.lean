import Provisioning.Proofs.Entitlement.Undoing
import Provisioning.Proofs.Ledger.Modules

/-!
# What belongs to applications

Routes and auth resources belong to applications. A stage of the ledger that does not change modules
strips some applications of all that they have and equips others with what their modules are named
after; undoing it does so the other way round (`execute_hands`, `undo_hands`).
-/

namespace Provisioning

namespace Ledger

/-- The kinds of resources that belong to applications. -/
inductive Belonging where
  /-- The routes. -/
  | route
  /-- The auth resources. -/
  | auth
deriving DecidableEq, Repr

namespace Belonging

/-- The kind of the resources. -/
def kind : Belonging → String
  | route => routeKind
  | auth => authKind

/-- The name of a resource of a module. -/
def nameOf : Belonging → String → String
  | route => routePath
  | auth => ModuleDescriptor.nameOf

/-- The names of the resources of modules. -/
def names (b : Belonging) (moduleIds : List String) : Set String :=
  {name | name ∈ moduleIds.map b.nameOf}

/-- A resource of an application. -/
def resource (b : Belonging) (tenantId owner name : String) : Resource :=
  { tenantId, kind := b.kind, name, owner }

theorem kind_ne_module (b : Belonging) : b.kind ≠ moduleKind := by cases b <;> decide

theorem resource_ne_module (b : Belonging) (tenantId owner name id : String) :
    b.resource tenantId owner name ≠ moduleResource tenantId id :=
  fun h => b.kind_ne_module (congrArg Resource.kind h)

theorem resource_inj {b b' : Belonging} {tenantId owner owner' name name' : String} :
    b.resource tenantId owner name = b'.resource tenantId owner' name' ↔
      b = b' ∧ owner = owner' ∧ name = name' := by
  have kinds : routeKind ≠ authKind := by decide
  cases b <;> cases b' <;> simp [resource, kind, kinds, kinds.symm, and_comm]

theorem ownedBy_iff {b : Belonging} {tenantId owner : String} {x : Resource} :
    Store.ownedBy tenantId b.kind owner x ↔ ∃ name, x = b.resource tenantId owner name := by
  obtain ⟨t, k, n, o⟩ := x
  simp [Store.ownedBy, resource, and_assoc]

end Belonging

/-- What belongs to an application. -/
def owned (tenantId : String) (b : Belonging) (owner : String) (s : Store) : Set String :=
  {name | s.resources.contains (b.resource tenantId owner name)}

/-- Applications with their modules, for each kind of resources. -/
abbrev Holders := Belonging → List (String × List String)

namespace Holders

/-- There is no application. -/
def none : Holders := fun _ => []

/-- There is one application, for one kind of resources. -/
def only (b : Belonging) (id : String) (moduleIds : List String) : Holders := fun b' =>
  if b' = b then [(id, moduleIds)] else []

theorem mem_only {b b' : Belonging} {id : String} {ms : List String} {h : String × List String} :
    h ∈ only b id ms b' ↔ b' = b ∧ h = (id, ms) := by
  unfold only
  split <;> simp_all

variable (tenantId : String)

/-- Whether the applications are to have a resource. -/
def Equipped (hs : Holders) (x : Resource) : Prop :=
  ∃ b, ∃ h ∈ hs b, ∃ name ∈ b.names h.2, x = b.resource tenantId h.1 name

/-- Whether the applications may have a resource. -/
def Stripped (hs : Holders) (x : Resource) : Prop :=
  ∃ b, ∃ h ∈ hs b, ∃ name, x = b.resource tenantId h.1 name

@[simp]
theorem equipped_none (x : Resource) : ¬ none.Equipped tenantId x := by simp [Equipped, none]

@[simp]
theorem stripped_none (x : Resource) : ¬ none.Stripped tenantId x := by simp [Stripped, none]

theorem equipped_only {b : Belonging} {id : String} {ms : List String} {x : Resource} :
    (only b id ms).Equipped tenantId x ↔ ∃ name ∈ b.names ms, x = b.resource tenantId id name := by
  constructor
  · rintro ⟨b', h, hh, name, hname, rfl⟩
    obtain ⟨rfl, rfl⟩ := mem_only.mp hh
    exact ⟨name, hname, rfl⟩
  · rintro ⟨name, hname, rfl⟩
    exact ⟨b, (id, ms), mem_only.mpr ⟨rfl, rfl⟩, name, hname, rfl⟩

theorem stripped_only {b : Belonging} {id : String} {ms : List String} {x : Resource} :
    (only b id ms).Stripped tenantId x ↔ ∃ name, x = b.resource tenantId id name := by
  constructor
  · rintro ⟨b', h, hh, name, rfl⟩
    obtain ⟨rfl, rfl⟩ := mem_only.mp hh
    exact ⟨name, rfl⟩
  · rintro ⟨name, rfl⟩
    exact ⟨b, (id, ms), mem_only.mpr ⟨rfl, rfl⟩, name, rfl⟩

theorem equipped_resource {hs : Holders} {b : Belonging} {owner name : String} :
    hs.Equipped tenantId (b.resource tenantId owner name) ↔
      ∃ ms, (owner, ms) ∈ hs b ∧ name ∈ b.names ms := by
  constructor
  · rintro ⟨b', ⟨owner', ms⟩, hh, name', hname, h⟩
    obtain ⟨rfl, rfl, rfl⟩ := Belonging.resource_inj.mp h
    exact ⟨ms, hh, hname⟩
  · rintro ⟨ms, hh, hname⟩
    exact ⟨b, (owner, ms), hh, name, hname, rfl⟩

theorem stripped_resource {hs : Holders} {b : Belonging} {owner name : String} :
    hs.Stripped tenantId (b.resource tenantId owner name) ↔ ∃ ms, (owner, ms) ∈ hs b := by
  constructor
  · rintro ⟨b', ⟨owner', ms⟩, hh, name', h⟩
    obtain ⟨rfl, rfl, rfl⟩ := Belonging.resource_inj.mp h
    exact ⟨ms, hh⟩
  · rintro ⟨ms, hh⟩
    exact ⟨b, (owner, ms), hh, name, rfl⟩

end Holders

/-- A resource that is no module of a tenant and belongs to no application of the tenant. -/
structure Foreign (tenantId : String) (x : Resource) : Prop where
  /-- It is no module. -/
  module : ∀ id, x ≠ moduleResource tenantId id
  /-- It belongs to no application. -/
  belonging : ∀ (b : Belonging) owner name, x ≠ b.resource tenantId owner name

namespace Foreign

variable {tenantId : String} {x : Resource}

theorem of_tenant (other : x.tenantId ≠ tenantId) : Foreign tenantId x :=
  ⟨fun _ h => other (congrArg Resource.tenantId h), fun _ _ _ h =>
    other (congrArg Resource.tenantId h)⟩

theorem of_kind (kind : x.kind = moduleKind) (none : ∀ id, x ≠ moduleResource tenantId id) :
    Foreign tenantId x :=
  ⟨none, fun b _ _ h => b.kind_ne_module ((congrArg Resource.kind h).symm.trans kind)⟩

theorem unequipped (foreign : Foreign tenantId x) (hs : Holders) : ¬ hs.Equipped tenantId x := by
  rintro ⟨b, h, -, name, -, heq⟩
  exact foreign.belonging b h.1 name heq

theorem unstripped (foreign : Foreign tenantId x) (hs : Holders) : ¬ hs.Stripped tenantId x := by
  rintro ⟨b, h, -, name, heq⟩
  exact foreign.belonging b h.1 name heq

end Foreign

/-- What belongs to an application when some are stripped and others are equipped. -/
def handed (equips strips : Holders) (b : Belonging) (owner : String) (held : Set String) :
    Set String :=
  {name | (∃ ms, (owner, ms) ∈ equips b ∧ name ∈ b.names ms) ∨
    ¬ (∃ ms, (owner, ms) ∈ strips b) ∧ name ∈ held}

variable (tenantId : String)

/-- One store comes of another one by stripping some applications and equipping others. -/
def Hands (equips strips : Holders) (s s' : Store) : Prop :=
  ∀ x, s'.resources.contains x ↔
    equips.Equipped tenantId x ∨ ¬ strips.Stripped tenantId x ∧ s.resources.contains x

variable {tenantId}

theorem hands_none {s s' : Store} (same : s'.resources = s.resources) :
    Hands tenantId .none .none s s' := by
  intro x
  simp [same]

theorem hands_equip (tenantId : String) (b : Belonging) (id : String) (ms : List String)
    (s : Store) : Hands tenantId (.only b id ms) .none s
      (addAll tenantId b.kind id s (ms.map b.nameOf)).2 := by
  intro x
  have general (names : List String) (s : Store) :
      (addAll tenantId b.kind id s names).2.resources.contains x ↔
        (∃ name ∈ names, x = b.resource tenantId id name) ∨ s.resources.contains x := by
    induction names generalizing s with
    | nil => simp [addAll]
    | cons name rest ih =>
      have inserted := s.contains_insertResource (b.resource tenantId id name) x
      refine (ih _).trans ?_
      rw [List.exists_mem_cons_iff, or_assoc, or_left_comm]
      exact or_congr_right inserted
  rw [general, Holders.equipped_only]
  simp [Belonging.names]

theorem hands_strip (tenantId : String) (b : Belonging) (id : String) (ms : List String)
    (s : Store) : Hands tenantId .none (.only b id ms) s (s.deleteResources tenantId b.kind id).2 := by
  intro x
  rw [Store.contains_deleteResources, Holders.stripped_only, ← Belonging.ownedBy_iff]
  simp [and_comm]

theorem Hands.trans {equips strips : Holders} {s s' s'' : Store}
    (first : Hands tenantId .none strips s s') (second : Hands tenantId equips .none s' s'') :
    Hands tenantId equips strips s s'' := by
  intro x
  rw [second x, first x]
  simp

/-- Modules do not change hands, whoever they belong to. -/
theorem Hands.modules {equips strips : Holders} {s s' : Store} {other : String}
    (hands : Hands tenantId equips strips s s') : modules other s' = modules other s := by
  ext id
  have equipped : ¬ equips.Equipped tenantId (moduleResource other id) := by
    rintro ⟨b, h, -, name, -, heq⟩
    exact b.kind_ne_module (congrArg Resource.kind heq.symm)
  have stripped : ¬ strips.Stripped tenantId (moduleResource other id) := by
    rintro ⟨b, h, -, name, heq⟩
    exact b.kind_ne_module (congrArg Resource.kind heq.symm)
  exact (hands _).trans (by simp [equipped, stripped, Ledger.modules])

/-- A call that cannot fail is made once. -/
theorem hands_attempt {equips strips : Holders} {w : Store} {α : Type} {k : Call Store α} {a : α}
    (retry : RetryConfig) (ok : (k w).1 = .ok a) (hands : Hands tenantId equips strips w (k w).2)
    (failure : String) :
    Hands tenantId equips strips w (Collaborators.attempt retry failure k w).2 := by
  rwa [attempt_of_final retry (by simp [ok])]

theorem replace_resources (failure old new tenantId : String) (w : Store) :
    (Ledger.collaborators.replace failure old new tenantId w).2.resources = w.resources := by
  simp only [Collaborators.replace, Ledger.collaborators, id]
  split
  · rename_i h
    exact (Store.updateEntitlement_eq_ok h).2.2.1
  · rfl

end Ledger

namespace EntitlementStage

open Ledger

/-- The applications that the stage equips. -/
def equips : EntitlementStage → Holders
  | createRoutes id ms => .only .route id ms
  | updateRoutes u => .only .route u.id u.moduleIds
  | createResources id ms => .only .auth id ms
  | updateResources u => .only .auth u.id u.moduleIds
  | _ => .none

/-- The applications that the stage strips. -/
def strips : EntitlementStage → Holders
  | removeRoutes id ms => .only .route id ms
  | updateRoutes u => .only .route u.replacedId u.replacedModuleIds
  | removeResources id ms => .only .auth id ms
  | updateResources u => .only .auth u.replacedId u.replacedModuleIds
  | _ => .none

variable {s : EntitlementStage}

/-- A stage that does not change modules strips applications and equips others. -/
theorem execute_hands (other : s.changesModules = false) (retry : RetryConfig) (tenantId : String)
    (w : Store) :
    Hands tenantId s.equips s.strips w (s.execute Ledger.collaborators retry tenantId w).2 := by
  cases s with
  | createRoutes id ms => exact hands_attempt retry rfl (hands_equip tenantId .route id ms w) _
  | removeRoutes id ms => exact hands_attempt retry rfl (hands_strip tenantId .route id ms w) _
  | updateRoutes u =>
    have stripped := hands_strip tenantId .route u.replacedId u.replacedModuleIds w
    have equipped := hands_equip tenantId .route u.id u.moduleIds
    exact hands_attempt retry rfl (stripped.trans (equipped _)) _
  | createResources id ms => exact hands_attempt retry rfl (hands_equip tenantId .auth id ms w) _
  | removeResources id ms => exact hands_attempt retry rfl (hands_strip tenantId .auth id ms w) _
  | updateResources u =>
    have stripped := hands_strip tenantId .auth u.replacedId u.replacedModuleIds w
    have equipped := hands_equip tenantId .auth u.id u.moduleIds
    exact hands_attempt retry rfl (stripped.trans (equipped _)) _
  | saveEntitlement id => exact hands_none (w.saveEntitlement_resources tenantId id)
  | removeEntitlement applicationId =>
    have kept := w.removeEntitlement_resources tenantId applicationId
    refine hands_none ?_
    simp only [execute, StageWork.ofUnit, Collaborators.removeExisting, Ledger.collaborators, id]
    split <;> simp_all
  | updateEntitlement old new => exact hands_none (replace_resources _ old new tenantId w)
  | _ => simp [changesModules, makesChanges] at other

/-- Undoing it is the other way round. -/
theorem undo_hands (other : s.changesModules = false) (retry : RetryConfig) (tenantId : String)
    (w : Store) :
    Hands tenantId s.strips s.equips w (s.undo Ledger.collaborators retry tenantId w).2 := by
  cases s with
  | createRoutes id ms => exact hands_attempt retry rfl (hands_strip tenantId .route id ms w) _
  | removeRoutes id ms => exact hands_attempt retry rfl (hands_equip tenantId .route id ms w) _
  | updateRoutes u =>
    have stripped := hands_strip tenantId .route u.id u.moduleIds w
    have equipped := hands_equip tenantId .route u.replacedId u.replacedModuleIds
    exact hands_attempt retry rfl (stripped.trans (equipped _)) _
  | createResources id ms => exact hands_attempt retry rfl (hands_strip tenantId .auth id ms w) _
  | removeResources id ms => exact hands_attempt retry rfl (hands_equip tenantId .auth id ms w) _
  | updateResources u =>
    have stripped := hands_strip tenantId .auth u.id u.moduleIds w
    have equipped := hands_equip tenantId .auth u.replacedId u.replacedModuleIds
    exact hands_attempt retry rfl (stripped.trans (equipped _)) _
  | saveEntitlement id => exact hands_none (w.removeEntitlement_resources tenantId id)
  | removeEntitlement id => exact hands_none (w.saveEntitlement_resources tenantId id)
  | updateEntitlement old new => exact hands_none (replace_resources _ new old tenantId w)
  | _ => simp [changesModules, makesChanges] at other

theorem holders_eq_none (h : s.changesModules) : s.equips = .none ∧ s.strips = .none := by
  cases s <;> first | exact ⟨rfl, rfl⟩ | simp [changesModules, makesChanges] at h

section

variable (s : EntitlementStage) (retry : RetryConfig) {tenantId : String} (w : Store) {x : Resource}

/-- What a stage makes of a resource that is no module. -/
theorem execute_contains (other : ∀ id, x ≠ moduleResource tenantId id) :
    (s.execute Ledger.collaborators retry tenantId w).2.resources.contains x ↔
      s.equips.Equipped tenantId x ∨ ¬ s.strips.Stripped tenantId x ∧ w.resources.contains x := by
  cases hs : s.changesModules with
  | false => exact execute_hands hs retry tenantId w x
  | true =>
    obtain ⟨stored, h⟩ := execute_changes hs Ledger.collaborators retry tenantId w
    obtain ⟨equips, strips⟩ := holders_eq_none hs
    have kept := Collaborators.changeAll_keeps (f := fun w => w.resources.contains x) retry
      (applyChange_others other) [] s.changes w
    rw [h, equips, strips]
    simpa using kept

/-- What undoing a stage makes of a resource that is no module. -/
theorem undo_contains (other : ∀ id, x ≠ moduleResource tenantId id) :
    (s.undo Ledger.collaborators retry tenantId w).2.resources.contains x ↔
      s.strips.Equipped tenantId x ∨ ¬ s.equips.Stripped tenantId x ∧ w.resources.contains x := by
  cases hs : s.changesModules with
  | false => exact undo_hands hs retry tenantId w x
  | true =>
    obtain ⟨equips, strips⟩ := holders_eq_none hs
    have kept := Collaborators.changeAll_keeps (f := fun w => w.resources.contains x) retry
      (applyChange_others other) [] (ModuleChange.inverses s.changes) w
    rw [undo_changes hs, equips, strips]
    simpa using kept

end

section

variable (s : EntitlementStage) (retry : RetryConfig) {tenantId : String} (w : Store) {x : Resource}
  (foreign : Foreign tenantId x)

include foreign

/-- A stage leaves a foreign resource alone. -/
theorem execute_foreign :
    (s.execute Ledger.collaborators retry tenantId w).2.resources.contains x
      = w.resources.contains x := by
  have contains := execute_contains s retry w foreign.module
  simpa [foreign.unequipped, foreign.unstripped] using contains

theorem undo_foreign :
    (s.undo Ledger.collaborators retry tenantId w).2.resources.contains x
      = w.resources.contains x := by
  have contains := undo_contains s retry w foreign.module
  simpa [foreign.unequipped, foreign.unstripped] using contains

/-- Undoing a stage leaves a foreign resource alone, whatever the stage has stored. -/
theorem cancel_foreign (result : Option Data) :
    (s.cancel Ledger.collaborators retry result tenantId w).2.resources.contains x
      = w.resources.contains x := by
  by_cases disables : ∃ moduleIds, s = .deprecatedModules moduleIds
  · obtain ⟨moduleIds, rfl⟩ := disables
    exact Collaborators.changeAll_keeps (f := fun w => w.resources.contains x) retry
      (applyChange_others foreign.module) [] _ w
  · rw [cancel_eq_undo fun moduleIds h => absurd ⟨moduleIds, h⟩ disables]
    exact undo_foreign s retry w foreign

end

variable {retry : RetryConfig} {tenantId : String} {w : Store}

theorem execute_owned (b : Belonging) (owner : String) :
    owned tenantId b owner (s.execute Ledger.collaborators retry tenantId w).2
      = handed s.equips s.strips b owner (owned tenantId b owner w) := by
  ext name
  have contains := execute_contains s retry w
    (b.resource_ne_module tenantId owner name)
  rwa [Holders.equipped_resource, Holders.stripped_resource] at contains

theorem undo_owned (b : Belonging) (owner : String) :
    owned tenantId b owner (s.undo Ledger.collaborators retry tenantId w).2
      = handed s.strips s.equips b owner (owned tenantId b owner w) := by
  ext name
  have contains := undo_contains s retry w
    (b.resource_ne_module tenantId owner name)
  rwa [Holders.equipped_resource, Holders.stripped_resource] at contains

end EntitlementStage

end Provisioning
