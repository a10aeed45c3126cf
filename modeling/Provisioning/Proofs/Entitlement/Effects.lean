import Provisioning.Collaborator.Memory
import Provisioning.Proofs.Entitlement.Tasks
import Provisioning.Proofs.Ledger.Calls

/-!
# What stages do to entitlements

Calls to collaborators leave the entitlements of the store alone. A stage that succeeds takes some
entitlements of the tenant away and gives others, one that fails changes none, and undoing a stage
exchanges what it gives and what it takes.
-/

namespace Provisioning

variable {σ : Type}

/-! ## Collaborators -/

/-- Collaborators whose calls leave the entitlements of the store alone. -/
structure Collaborators.KeepsEntitlements (c : Collaborators σ) : Prop where
  /-- A world holds the store that was put into it. -/
  store_withStore : ∀ w s, c.store (c.withStore w s) = s
  install : ∀ tenantId id w,
    (c.store (c.install tenantId id w).2).entitlements = (c.store w).entitlements
  upgrade : ∀ tenantId old id w,
    (c.store (c.upgrade tenantId old id w).2).entitlements = (c.store w).entitlements
  uninstall : ∀ tenantId id w,
    (c.store (c.uninstall tenantId id w).2).entitlements = (c.store w).entitlements
  createRoutes : ∀ tenantId id ms w,
    (c.store (c.createRoutes tenantId id ms w).2).entitlements = (c.store w).entitlements
  removeRoutes : ∀ tenantId id w,
    (c.store (c.removeRoutes tenantId id w).2).entitlements = (c.store w).entitlements
  updateRoutes : ∀ tenantId old id ms w,
    (c.store (c.updateRoutes tenantId old id ms w).2).entitlements = (c.store w).entitlements
  createResources : ∀ tenantId id ms w,
    (c.store (c.createResources tenantId id ms w).2).entitlements = (c.store w).entitlements
  removeResources : ∀ tenantId id w,
    (c.store (c.removeResources tenantId id w).2).entitlements = (c.store w).entitlements
  updateResources : ∀ tenantId old id ms w,
    (c.store (c.updateResources tenantId old id ms w).2).entitlements = (c.store w).entitlements

/-- The ledger leaves entitlements alone. -/
theorem Ledger.keepsEntitlements : Ledger.collaborators.KeepsEntitlements where
  store_withStore _ _ := rfl
  install tenantId id s := install_entitlements tenantId id s
  upgrade tenantId old id s := upgrade_entitlements tenantId old id s
  uninstall tenantId id s := uninstall_entitlements tenantId id s
  createRoutes tenantId _ _ s := addAll_entitlements tenantId _ _ s _
  removeRoutes _ _ _ := rfl
  updateRoutes tenantId _ _ _ _ := addAll_entitlements tenantId _ _ _ _
  createResources tenantId _ _ s := addAll_entitlements tenantId _ _ s _
  removeResources _ _ _ := rfl
  updateResources tenantId _ _ _ _ := addAll_entitlements tenantId _ _ _ _

/-- A platform in memory leaves entitlements alone. -/
theorem Simulation.keepsEntitlements : Simulation.collaborators.KeepsEntitlements where
  store_withStore _ _ := rfl
  install _ _ _ := rfl
  upgrade _ _ _ _ := rfl
  uninstall _ _ _ := rfl
  createRoutes _ _ _ _ := rfl
  removeRoutes _ _ _ := rfl
  updateRoutes _ _ _ _ _ := rfl
  createResources _ _ _ _ := rfl
  removeResources _ _ _ := rfl
  updateResources _ _ _ _ _ := rfl

/-! ## Attempts -/

/-- Trying a call again keeps what a single call keeps. -/
theorem RetryConfig.tryFrom_keeps {α β : Type} {call : Call σ α} {f : σ → β}
    (keeps : ∀ w, f (call w).2 = f w) (config : RetryConfig) (w : σ) (attempt left : Nat) :
    f (config.tryFrom call w attempt left).world = f w := by
  induction left generalizing w attempt with
  | zero => exact keeps w
  | succ left ih =>
    have first := keeps w
    rw [tryFrom]
    split
    · rename_i hc
      simpa [hc] using first
    · rename_i hc
      simp only [hc] at first
      split
      · exact first
      · split
        · exact first
        · exact (ih _ _).trans first

namespace Collaborators

/-- The entitlements of the store of a world. -/
def entitlements (c : Collaborators σ) (w : σ) : OrderedMap TenantApplication Timestamp :=
  (c.store w).entitlements

/-- Whether a tenant is entitled to an application in a world. -/
def Entitled (c : Collaborators σ) (w : σ) (tenantId id : String) : Prop :=
  (c.store w).isEntitled tenantId id

theorem entitled_congr {c : Collaborators σ} {w w' : σ}
    (h : c.entitlements w' = c.entitlements w) (tenantId id : String) :
    c.Entitled w' tenantId id ↔ c.Entitled w tenantId id := by
  unfold Entitled Store.isEntitled
  rw [show (c.store w').entitlements = (c.store w).entitlements from h]

variable {c : Collaborators σ} (retry : RetryConfig)

theorem attempt_world {α : Type} (failure : String) (call : Call σ α) (w : σ) :
    (attempt retry failure call w).2 = (retry.run call w).world := by
  simp only [attempt]
  split <;> rfl

theorem attempt_keeps {α β : Type} {call : Call σ α} {f : σ → β}
    (keeps : ∀ w, f (call w).2 = f w) (failure : String) (w : σ) :
    f (attempt retry failure call w).2 = f w := by
  rw [attempt_world]
  exact RetryConfig.tryFrom_keeps keeps retry w 0 (retry.attempts - 1)

section

variable {β : Type} {f : σ → β} {tenantId : String}
  (applies : ∀ change w, f (c.applyChange tenantId change w).2 = f w)

include applies

theorem change_keeps (change : ModuleChange) (w : σ) :
    f (c.change retry tenantId change w).2 = f w :=
  attempt_keeps retry (applies change) _ w

theorem revert_keeps (changes : List ModuleChange) (w : σ) :
    f (c.revert retry tenantId w changes) = f w := by
  induction changes generalizing w with
  | nil => rfl
  | cons change rest ih => exact (ih _).trans (change_keeps retry applies change.inverse w)

/-- Several changes keep what one change keeps. -/
theorem changeAll_keeps (made changes : List ModuleChange) (w : σ) :
    f (c.changeAll retry tenantId made changes w).2 = f w := by
  induction changes generalizing made w with
  | nil => rfl
  | cons change rest ih =>
    have first := change_keeps retry applies change w
    rw [changeAll]
    split
    · rename_i hc
      simp only [hc] at first
      exact (ih _ _).trans first
    · rename_i hc
      simp only [hc] at first
      exact (revert_keeps retry applies made _).trans first

end

theorem applyChange_entitlements (keeps : c.KeepsEntitlements) (tenantId : String)
    (change : ModuleChange) (w : σ) :
    c.entitlements (c.applyChange tenantId change w).2 = c.entitlements w := by
  obtain ⟨id, replaced, action⟩ := change
  cases action with
  | enable => exact keeps.install tenantId id w
  | upgrade =>
    cases replaced with
    | none => exact keeps.install tenantId id w
    | some old => exact keeps.upgrade tenantId old id w
  | disable => exact keeps.uninstall tenantId id w

end Collaborators

/-! ## Stages -/

namespace StageWork

variable {work : String → StageWork σ} (ctx : StageContext) {tenantId : String}

theorem step_world (tenant : ctx.scope.text? tenantParam = some tenantId) (w : σ) :
    (step work ctx w).world = (work tenantId w).2 := by
  simp only [step, tenant]
  split <;> simp_all

theorem step_outcome (tenant : ctx.scope.text? tenantParam = some tenantId) (w : σ) :
    (step work ctx w).outcome = (work tenantId w).1.map fun _ => () := by
  simp only [step, tenant]
  split <;> simp_all [Except.map]

theorem step_ok {w w' : σ} {stored : Option Data}
    (tenant : ctx.scope.text? tenantParam = some tenantId)
    (ok : work tenantId w = (.ok stored, w')) :
    step work ctx w = { world := w', stored, outcome := .ok () } := by
  simp only [step, tenant, ok]

/-- A step that succeeds is work for the tenant that succeeds. -/
theorem step_eq_ok {w : σ} (ok : (step work ctx w).outcome = .ok ()) :
    ∃ tenantId stored w', ctx.scope.text? tenantParam = some tenantId ∧
      work tenantId w = (.ok stored, w') := by
  unfold step at ok
  split at ok
  · cases ok
  · rename_i tenantId tenant
    split at ok
    · rename_i stored w' done
      exact ⟨tenantId, stored, w', tenant, done⟩
    · cases ok

theorem step_error {w w' : σ} {e : StageError}
    (tenant : ctx.scope.text? tenantParam = some tenantId)
    (error : work tenantId w = (.error e, w')) :
    step work ctx w = { world := w', stored := none, outcome := .error e } := by
  simp only [step, tenant, error]

theorem step_stored (tenant : ctx.scope.text? tenantParam = some tenantId) (w : σ) :
    (step work ctx w).stored = (work tenantId w).1.toOption.join := by
  simp only [step, tenant]
  split <;> simp_all [Except.toOption]

end StageWork

/-! ## Stages for a tenant -/

namespace Leaf

variable {c : Collaborators σ} {retry : RetryConfig} {tenantId : String}
  {l : Leaf EntitlementStage} (here : l.scope.text? tenantParam = some tenantId) (m : Machine σ)

include here

theorem toStage_execute :
    ((l.map (·.toStage c retry)).execute m).outcome
      = (l.stage.execute c retry tenantId m.world).1.map fun _ => () :=
  StageWork.step_outcome (m.context l.info l.scope) here m.world

theorem toStage_executed :
    ((l.map (·.toStage c retry)).executed m).world
      = (l.stage.execute c retry tenantId m.world).2 :=
  StageWork.step_world (m.context l.info l.scope) here m.world

variable {cancel : StageContext → σ → StageStep σ}
  (can : (l.stage.toStage c retry).cancel = some cancel)

include can

theorem toStage_cancel :
    (cancel (m.context (l.map (·.toStage c retry)).info (l.map (·.toStage c retry)).scope)
        m.world).outcome
      = (l.stage.cancel c retry (m.context l.info l.scope).result? tenantId m.world).1.map
        fun _ => () := by
  obtain rfl := Option.some.inj can
  exact StageWork.step_outcome (m.context l.info l.scope) here m.world

theorem toStage_undone :
    ((l.map (·.toStage c retry)).undone cancel m).world
      = (l.stage.cancel c retry (m.context l.info l.scope).result? tenantId m.world).2 := by
  obtain rfl := Option.some.inj can
  exact StageWork.step_world (m.context l.info l.scope) here m.world

end Leaf

namespace EntitlementStage

/-- The entitlements that the stage gives. -/
def gives : EntitlementStage → List String
  | saveEntitlement id | updateEntitlement _ id => [id]
  | _ => []

/-- The entitlements that the stage takes away. -/
def takes : EntitlementStage → List String
  | removeEntitlement id | updateEntitlement id _ => [id]
  | _ => []

theorem gives_eq_nil {s : EntitlementStage} (h : s.changesEntitlement = false) : s.gives = [] := by
  cases s <;> simp_all [gives, changesEntitlement]

theorem changesEntitlement_of_gives {s : EntitlementStage} {id : String} (given : id ∈ s.gives) :
    s.changesEntitlement := by
  by_contra quiet
  rw [gives_eq_nil (Bool.not_eq_true _ ▸ quiet)] at given
  exact List.not_mem_nil given

theorem takes_eq_nil {s : EntitlementStage} (h : s.changesEntitlement = false) : s.takes = [] := by
  cases s <;> simp_all [takes, changesEntitlement]

variable {c : Collaborators σ} (keeps : c.KeepsEntitlements) (retry : RetryConfig)

include keeps

/-- A stage of another kind leaves entitlements alone. -/
theorem execute_keeps {s : EntitlementStage} (other : s.changesEntitlement = false)
    (tenantId : String) (w : σ) :
    c.entitlements (s.execute c retry tenantId w).2 = c.entitlements w := by
  have attempt {α : Type} {k : Call σ α} (h : ∀ w, c.entitlements (k w).2 = c.entitlements w)
      (failure : String) := Collaborators.attempt_keeps (f := c.entitlements) retry h failure
  have applies := Collaborators.applyChange_entitlements keeps tenantId
  cases s with
  | module change => exact Collaborators.change_keeps retry applies change w
  | installBatch changes | uninstallBatch changes | deprecatedModules moduleIds =>
    exact Collaborators.changeAll_keeps retry applies [] _ w
  | createRoutes id ms => exact attempt (keeps.createRoutes tenantId id ms) _ w
  | removeRoutes id ms => exact attempt (keeps.removeRoutes tenantId id) _ w
  | updateRoutes u => exact attempt (keeps.updateRoutes tenantId u.replacedId u.id u.moduleIds) _ w
  | createResources id ms => exact attempt (keeps.createResources tenantId id ms) _ w
  | removeResources id ms => exact attempt (keeps.removeResources tenantId id) _ w
  | updateResources u =>
    exact attempt (keeps.updateResources tenantId u.replacedId u.id u.moduleIds) _ w
  | saveEntitlement _ | removeEntitlement _ | updateEntitlement _ _ =>
    simp [changesEntitlement] at other

/-- Undoing a stage of another kind leaves entitlements alone. -/
theorem cancel_keeps {s : EntitlementStage} (other : s.changesEntitlement = false)
    (result : Option Data) (tenantId : String) (w : σ) :
    c.entitlements (s.cancel c retry result tenantId w).2 = c.entitlements w := by
  have attempt {α : Type} {k : Call σ α} (h : ∀ w, c.entitlements (k w).2 = c.entitlements w)
      (failure : String) := Collaborators.attempt_keeps (f := c.entitlements) retry h failure
  have applies := Collaborators.applyChange_entitlements keeps tenantId
  cases s with
  | module change => exact Collaborators.change_keeps retry applies change.inverse w
  | installBatch changes | uninstallBatch changes | deprecatedModules moduleIds =>
    exact Collaborators.changeAll_keeps retry applies [] _ w
  | createRoutes id ms => exact attempt (keeps.removeRoutes tenantId id) _ w
  | removeRoutes id ms =>
    exact attempt (k := fun w => ((c.createRoutes tenantId id ms w).1.map fun _ => (),
      (c.createRoutes tenantId id ms w).2)) (keeps.createRoutes tenantId id ms) _ w
  | updateRoutes u =>
    exact attempt (keeps.updateRoutes tenantId u.id u.replacedId u.replacedModuleIds) _ w
  | createResources id ms => exact attempt (keeps.removeResources tenantId id) _ w
  | removeResources id ms => exact attempt (keeps.createResources tenantId id ms) _ w
  | updateResources u =>
    exact attempt (keeps.updateResources tenantId u.id u.replacedId u.replacedModuleIds) _ w
  | saveEntitlement _ | removeEntitlement _ | updateEntitlement _ _ =>
    simp [changesEntitlement] at other

end EntitlementStage

/-- One world comes of another one by giving a tenant some entitlements and taking others away. -/
def Collaborators.Moves (c : Collaborators σ) (tenantId : String) (gives takes : List String)
    (w w' : σ) : Prop :=
  ∀ t x, c.Entitled w' t x ↔
    (t = tenantId ∧ x ∈ gives) ∨ ¬ (t = tenantId ∧ x ∈ takes) ∧ c.Entitled w t x

theorem Collaborators.moves_of_entitlements {c : Collaborators σ} {w w' : σ}
    (h : c.entitlements w' = c.entitlements w) (tenantId : String) : c.Moves tenantId [] [] w w' := by
  intro t x
  simpa using entitled_congr h t x

namespace EntitlementStage

variable {c : Collaborators σ} (keeps : c.KeepsEntitlements) (retry : RetryConfig)

include keeps

/-- A stage that succeeds gives and takes its entitlements. What it takes is there before; what it
exchanges for that is not, unless it is the same. -/
theorem execute_moves {s : EntitlementStage} {tenantId : String} {w : σ} {stored : Option Data}
    (ok : (s.execute c retry tenantId w).1 = .ok stored) :
    c.Moves tenantId s.gives s.takes w (s.execute c retry tenantId w).2 ∧
      (∀ x ∈ s.takes, c.Entitled w tenantId x ∧
        ∀ y ∈ s.gives, y = x ∨ ¬ c.Entitled w tenantId y) := by
  cases hs : s.changesEntitlement with
  | false =>
    have kept := execute_keeps keeps retry hs tenantId w
    rw [gives_eq_nil hs, takes_eq_nil hs]
    exact ⟨Collaborators.moves_of_entitlements kept tenantId, by simp⟩
  | true =>
    cases s with
    | saveEntitlement id =>
      refine ⟨fun t x => ?_, by simp [takes]⟩
      have saved := (c.store w).isEntitled_save tenantId id t x
      simpa [Collaborators.Entitled, execute, StageWork.ofUnit, Collaborators.save,
        keeps.store_withStore, gives, takes] using saved
    | removeEntitlement id =>
      have removed := (c.store w).isEntitled_remove tenantId id
      have there := (c.store w).removeEntitlement_fst tenantId id
      simp only [execute, StageWork.ofUnit, Collaborators.removeExisting] at ok ⊢
      split at ok <;> rename_i hr <;> simp only [hr] at removed there ⊢
      · refine ⟨fun t x => ?_, ?_⟩
        · simpa [Collaborators.Entitled, keeps.store_withStore, gives, takes] using removed t x
        · simpa [Collaborators.Entitled, gives, takes] using there.symm
      · simp [Except.map] at ok
    | updateEntitlement old id =>
      simp only [execute, StageWork.ofUnit, Collaborators.replace] at ok ⊢
      split at ok <;> rename_i hr
      · obtain ⟨there, free, -, moved⟩ := Store.updateEntitlement_eq_ok hr
        refine ⟨fun t x => ?_, ?_⟩
        · simpa [Collaborators.Entitled, keeps.store_withStore, gives, takes] using moved t x
        · simpa [Collaborators.Entitled, gives, takes, there] using free
      · simp [Except.map] at ok
    | _ => simp [changesEntitlement] at hs

/-- A stage that fails changes no entitlement. -/
theorem execute_stays {s : EntitlementStage} {tenantId : String} {w : σ} {e : StageError}
    (error : (s.execute c retry tenantId w).1 = .error e) :
    c.Moves tenantId [] [] w (s.execute c retry tenantId w).2 := by
  cases hs : s.changesEntitlement with
  | false => exact Collaborators.moves_of_entitlements (execute_keeps keeps retry hs tenantId w) _
  | true =>
    refine Collaborators.moves_of_entitlements ?_ tenantId
    cases s with
    | saveEntitlement id =>
      simp [execute, StageWork.ofUnit, Collaborators.save, Except.map] at error
    | removeEntitlement id =>
      simp only [execute, StageWork.ofUnit, Collaborators.removeExisting] at error ⊢
      split at error <;> rename_i hr
      · simp [Except.map] at error
      · simp only [Collaborators.entitlements, keeps.store_withStore]
        unfold Store.removeEntitlement at hr
        split at hr <;> simp_all
    | updateEntitlement old id =>
      simp only [execute, StageWork.ofUnit, Collaborators.replace] at error ⊢
      split at error <;> rename_i hr
      · simp [Except.map] at error
      · rfl
    | _ => simp [changesEntitlement] at hs

/-- Undoing a stage with success gives what the stage takes and takes what it gives. What it takes
for something else is there before. -/
theorem cancel_moves {s : EntitlementStage} {result stored : Option Data} {tenantId : String}
    {w : σ} (ok : (s.cancel c retry result tenantId w).1 = .ok stored) :
    c.Moves tenantId s.takes s.gives w (s.cancel c retry result tenantId w).2 ∧
      (s.takes ≠ [] → ∀ x ∈ s.gives, c.Entitled w tenantId x) := by
  cases hs : s.changesEntitlement with
  | false =>
    have kept := cancel_keeps keeps retry hs result tenantId w
    rw [gives_eq_nil hs, takes_eq_nil hs]
    exact ⟨Collaborators.moves_of_entitlements kept tenantId, by simp⟩
  | true =>
    cases s with
    | saveEntitlement id =>
      refine ⟨fun t x => ?_, by simp [takes]⟩
      have removed := (c.store w).isEntitled_remove tenantId id t x
      simpa [Collaborators.Entitled, cancel, StageWork.ofUnit, Collaborators.remove,
        keeps.store_withStore, gives, takes] using removed
    | removeEntitlement id =>
      refine ⟨fun t x => ?_, by simp [gives]⟩
      have saved := (c.store w).isEntitled_save tenantId id t x
      simpa [Collaborators.Entitled, cancel, StageWork.ofUnit, Collaborators.save,
        keeps.store_withStore, gives, takes] using saved
    | updateEntitlement old id =>
      simp only [cancel, StageWork.ofUnit, Collaborators.replace] at ok ⊢
      split at ok <;> rename_i hr
      · obtain ⟨there, -, -, moved⟩ := Store.updateEntitlement_eq_ok hr
        refine ⟨fun t x => ?_, by simpa [Collaborators.Entitled, gives] using fun _ => there⟩
        simpa [Collaborators.Entitled, keeps.store_withStore, gives, takes] using moved t x
      · simp [Except.map] at ok
    | _ => simp [changesEntitlement] at hs

/-- Undoing a stage without success changes no entitlement. -/
theorem cancel_stays {s : EntitlementStage} {result : Option Data} {tenantId : String} {w : σ}
    {e : StageError} (error : (s.cancel c retry result tenantId w).1 = .error e) :
    c.Moves tenantId [] [] w (s.cancel c retry result tenantId w).2 := by
  refine Collaborators.moves_of_entitlements ?_ tenantId
  cases hs : s.changesEntitlement with
  | false => exact cancel_keeps keeps retry hs result tenantId w
  | true =>
    cases s with
    | saveEntitlement id =>
      simp [cancel, StageWork.ofUnit, Collaborators.remove, Except.map] at error
    | removeEntitlement id =>
      simp [cancel, StageWork.ofUnit, Collaborators.save, Except.map] at error
    | updateEntitlement old id =>
      simp only [cancel, StageWork.ofUnit, Collaborators.replace] at error ⊢
      split at error <;> rename_i hr
      · simp [Except.map] at error
      · rfl
    | _ => simp [changesEntitlement] at hs

end EntitlementStage

end Provisioning
