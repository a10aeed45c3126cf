import Provisioning.Proofs.Ledger.Enabled
import Provisioning.Proofs.Ledger.Exactness
import Provisioning.Proofs.Ledger.Reversal

/-!
# Batches are made as a whole or not at all

A batch enables modules, or it disables them. Over the ledger it is made exactly if it names no
module twice and no module is yet as it is to be (`made_iff`). Otherwise the change at which it
stops makes the stage undo those before it, none of which can fail to be undone, so that the store
is as it was. The same holds of a batch that undoes another one
(`EntitlementStage.batch_all_or_nothing`).
-/

namespace Provisioning

namespace Ledger

variable {retry : RetryConfig} {tenantId : String} {action : ModuleAction} {c : ModuleChange}
  {cs : List ModuleChange} {ids ids' : List String} {s s₁ s' : Store}

/-- Modules are enabled, or disabled, from one store to another one, and nothing else is touched. -/
structure Switched (tenantId : String) (action : ModuleAction) (ids : List String) (s s' : Store) :
    Prop where
  /-- The modules are as they are to be. -/
  named : ∀ id ∈ ids, s'.resources.contains (moduleResource tenantId id) ↔ action = .enable
  /-- There are the other resources that there were. -/
  others : ∀ x, (∀ id ∈ ids, x ≠ moduleResource tenantId id) →
    (s'.resources.contains x ↔ s.resources.contains x)
  /-- There are only resources that come or go. -/
  rest : s' = { s with resources := s'.resources }

namespace Switched

theorem nil (tenantId : String) (action : ModuleAction) (s : Store) :
    Switched tenantId action [] s s :=
  ⟨fun _ h => absurd h List.not_mem_nil, fun _ _ => Iff.rfl, rfl⟩

theorem append (first : Switched tenantId action ids s s₁)
    (second : Switched tenantId action ids' s₁ s') :
    Switched tenantId action (ids ++ ids') s s' := by
  refine ⟨fun id hid => ?_, fun x other => ?_, ?_⟩
  · by_cases later : id ∈ ids'
    · exact second.named id later
    · have kept := second.others (moduleResource tenantId id) fun id' hid' same =>
        later (moduleResource_inj.mp same ▸ hid')
      exact kept.trans (first.named id ((List.mem_append.mp hid).resolve_right later))
  · have before := first.others x fun id hid => other id (List.mem_append_left _ hid)
    have after := second.others x fun id hid => other id (List.mem_append_right _ hid)
    exact after.trans before
  · rw [second.rest, first.rest]

/-- What the ledger lists for a tenant, if its modules have the form in which it writes them. -/
theorem installed (switched : Switched tenantId action ids s s') (only : ModulesOnly s)
    (t id : String) : id ∈ collaborators.installedModules t s' ↔
      if t = tenantId ∧ id ∈ ids then action = .enable
      else id ∈ collaborators.installedModules t s := by
  have written : ModulesOnly s' := by
    intro x there kind
    by_cases named : ∃ id ∈ ids, x = moduleResource tenantId id
    · obtain ⟨id, -, rfl⟩ := named
      rfl
    · simp only [not_exists, not_and] at named
      exact only x ((switched.others x named).mp there) kind
  rw [mem_installedModules written, mem_installedModules only]
  split
  · rename_i here
    obtain ⟨rfl, hid⟩ := here
    exact switched.named id hid
  · rename_i elsewhere
    refine switched.others (moduleResource t id) fun id' hid' same => elsewhere ⟨?_, ?_⟩
    · exact congrArg Resource.tenantId same
    · rwa [show id = id' from congrArg Resource.name same]

end Switched

/-! ## One change -/

/-- A change that enables or disables a module is made exactly if the module is the other way. -/
theorem change_ok_iff_other (simple : c.Simple) :
    (collaborators.change retry tenantId c s).1 = .ok () ↔
      (s.resources.contains (moduleResource tenantId c.id) ↔ c.action = .disable) := by
  rw [change_ok_iff]
  obtain ⟨id, replaced, action⟩ := c
  cases action with
  | enable =>
    show (install tenantId id s).1 = .ok () ↔ _
    rw [install_outcome]
    split <;> simp_all
  | upgrade => exact absurd rfl simple
  | disable =>
    show (uninstall tenantId id s).1 = .ok () ↔ _
    rw [uninstall_outcome]
    split <;> simp_all

/-- A change that is made switches its module. -/
theorem change_switched (simple : c.Simple) :
    Switched tenantId c.action [c.id] s (collaborators.change retry tenantId c s).2 := by
  rw [change_eq]
  obtain ⟨id, replaced, action⟩ := c
  cases action with
  | enable =>
    show Switched tenantId .enable [id] s (install tenantId id s).2
    rw [install_store]
    refine ⟨fun id' hid => ?_, fun x other => ?_, ?_⟩
    · obtain rfl := List.mem_singleton.mp hid
      simp [Store.contains_insertResource]
    · have ne := other id List.mem_cons_self
      simp [Store.contains_insertResource, ne]
    · unfold Store.insertResource
      split <;> rfl
  | upgrade => exact absurd rfl simple
  | disable =>
    show Switched tenantId .disable [id] s (uninstall tenantId id s).2
    rw [uninstall_store]
    refine ⟨fun id' hid => ?_, fun x other => ?_, ?_⟩
    · obtain rfl := List.mem_singleton.mp hid
      simp [Store.contains_deleteResource]
    · have ne := other id List.mem_cons_self
      simp [Store.contains_deleteResource, ne]
    · unfold Store.deleteResource
      split <;> rfl

/-! ## Batches -/

section

variable (simple : action ≠ .upgrade) (uniform : ∀ c ∈ cs, c.action = action)

include simple uniform

theorem made_switched (made : collaborators.Made retry tenantId cs s s') :
    Switched tenantId action (cs.map (·.id)) s s' := by
  induction made with
  | nil s => exact .nil tenantId action s
  | @cons c cs s s' _ _ ih =>
    rw [List.forall_mem_cons] at uniform
    obtain ⟨rfl, later⟩ := uniform
    exact (change_switched simple).append (ih later)

/-- Changes in one direction can be made one after another exactly if no module is named twice and
each of them is the other way. -/
theorem made_iff : (∃ s', collaborators.Made retry tenantId cs s s') ↔
    (cs.map (·.id)).Nodup ∧ ∀ id ∈ cs.map (·.id),
      s.resources.contains (moduleResource tenantId id) ↔ action = .disable := by
  induction cs generalizing s with
  | nil => exact iff_of_true ⟨s, .nil s⟩ ⟨List.nodup_nil, fun _ h => absurd h List.not_mem_nil⟩
  | cons c cs ih =>
    rw [List.forall_mem_cons] at uniform
    obtain ⟨rfl, later⟩ := uniform
    replace ih {s : Store} := ih (s := s) later
    have step : Switched tenantId c.action [c.id] s (collaborators.change retry tenantId c s).2 :=
      change_switched simple
    -- The module is now as it is to be, so it cannot be named again; the others are as before.
    have turned := step.named c.id List.mem_cons_self
    have kept {id : String} (other : id ≠ c.id) :=
      step.others (moduleResource tenantId id) fun id' hid' same =>
        other ((moduleResource_inj.mp same).trans (List.mem_singleton.mp hid'))
    have ways : ¬ (c.action = .enable ↔ c.action = .disable) := by
      cases h : c.action <;> simp_all
    rw [List.map_cons, List.nodup_cons, List.forall_mem_cons]
    constructor
    · rintro ⟨s', _ | ⟨ok, made⟩⟩
      obtain ⟨nodup, free⟩ := ih.mp ⟨s', made⟩
      have fresh : c.id ∉ cs.map (·.id) := fun again => ways (turned.symm.trans (free c.id again))
      refine ⟨⟨fresh, nodup⟩, (change_ok_iff_other simple).mp ok, fun id hid => ?_⟩
      exact (kept fun same => fresh (same ▸ hid)).symm.trans (free id hid)
    · rintro ⟨⟨fresh, nodup⟩, here, free⟩
      obtain ⟨s', made⟩ := ih.mpr ⟨nodup, fun id hid =>
        (kept fun same => fresh (same ▸ hid)).trans (free id hid)⟩
      exact ⟨s', .cons ((change_ok_iff_other simple).mpr here) made⟩

end

end Ledger

/-! ## Stages -/

open Ledger

namespace EntitlementStage

/-- The stage works through a list of changes, all of which enable modules or all of which disable
them. -/
structure Batch (s : EntitlementStage) (action : ModuleAction) : Prop where
  /-- The stage changes modules. -/
  changesModules : s.changesModules
  /-- It puts no module in the place of another one. -/
  simple : action ≠ .upgrade
  /-- All changes are of one kind. -/
  uniform : ∀ c ∈ s.changes, c.action = action

variable {s : EntitlementStage} {action : ModuleAction}

/-- The identifiers of the modules that the stage changes. -/
def changedIds (s : EntitlementStage) : List String := s.changes.map (·.id)

theorem Batch.simple_changes (batch : s.Batch action) : ∀ c ∈ s.changes, c.Simple := by
  intro c hc
  rw [ModuleChange.Simple, batch.uniform c hc]
  exact batch.simple

/-- Whatever result it finds, a batch is cancelled by changes that enable or disable modules. -/
theorem Batch.cancel_changes (batch : s.Batch action) (retry : RetryConfig)
    (result : Option Data) (tenantId : String) (w : Store) :
    ∃ cs : List ModuleChange, (∀ c ∈ cs, c.Simple) ∧
      s.cancel Ledger.collaborators retry result tenantId w
        = ((Ledger.collaborators.changeAll retry tenantId [] cs w).1.map fun _ => none,
          (Ledger.collaborators.changeAll retry tenantId [] cs w).2) := by
  have inverses : ∀ c ∈ ModuleChange.inverses s.changes, c.Simple := by
    intro c hc
    obtain ⟨c', hc', rfl⟩ := List.mem_map.mp hc
    have simple := batch.simple_changes c' (List.mem_reverse.mp hc')
    obtain ⟨id, replaced, action⟩ := c'
    cases action with
    | enable | disable => exact ModuleAction.noConfusion
    | upgrade => exact absurd rfl simple
  have undone := undo_changes batch.changesModules Ledger.collaborators retry tenantId w
  cases s with
  | deprecatedModules moduleIds =>
    refine ⟨((result.bind (·.texts?)).getD moduleIds).reverse.map .enable, ?_, rfl⟩
    intro c hc
    obtain ⟨id, -, rfl⟩ := List.mem_map.mp hc
    exact ModuleAction.noConfusion
  | module | installBatch | uninstallBatch => exact ⟨_, inverses, undone⟩
  | _ => exact absurd batch.changesModules (by simp [EntitlementStage.changesModules, makesChanges])

variable {retry : RetryConfig} {ctx : StageContext} {w : Store}

/-- A batch that can be made is made, and leaves everything as it was when it is cancelled at once. -/
theorem Batch.executed_of_made (batch : s.Batch action) {tenantId : String} {w' : Store}
    (tenant : ctx.scope.text? tenantParam = some tenantId)
    (made : Ledger.collaborators.Made retry tenantId s.changes w w') :
    (s.executed retry ctx w).outcome = .ok () ∧ (s.executed retry ctx w).world = w' ∧
      ∃ step, s.cancelled retry ctx w = some step ∧ step.outcome = .ok () ∧ step.world = w := by
  obtain ⟨stored, done⟩ := execute_changes batch.changesModules Ledger.collaborators retry
    tenantId w
  rw [made.changeAll] at done
  have executed : s.executed retry ctx w = { world := w', stored, outcome := .ok () } :=
    StageWork.step_ok ctx tenant done
  have later : (ctx.after (s.executed retry ctx w)).scope.text? tenantParam = some tenantId := by
    rw [executed, StageContext.after]
    cases stored <;> exact tenant
  have undone : s.undo Ledger.collaborators retry tenantId w' = (.ok none, w) := by
    rw [undo_changes batch.changesModules, (made_back made batch.simple_changes).changeAll]
    rfl
  refine ⟨by rw [executed], by rw [executed], _, rfl, ?_⟩
  dsimp only
  rw [StageWork.step_outcome _ later, StageWork.step_world _ later,
    cancel_after (congrArg Prod.fst done) (congrArg StageStep.stored executed), executed, undone]
  exact ⟨rfl, rfl⟩

/-- A batch that cannot be made fails, and leaves everything as it is. -/
theorem Batch.executed_of_not_made (batch : s.Batch action)
    (cannot : ¬ ∃ tenantId, ctx.scope.text? tenantParam = some tenantId ∧
      ∃ w', Ledger.collaborators.Made retry tenantId s.changes w w') :
    ∃ e, s.executed retry ctx w = { world := w, stored := none, outcome := .error e } := by
  cases tenant : ctx.scope.text? tenantParam with
  | none =>
    refine ⟨.validation s!"Missing flow parameter: {tenantParam}", ?_⟩
    simp only [executed, toStage, StageWork.step, tenant]
  | some tenantId =>
    rcases changeAll_exact retry tenantId batch.simple_changes w with made | ⟨-, e, declined⟩
    · exact absurd ⟨tenantId, tenant, made⟩ cannot
    · obtain ⟨stored, done⟩ := execute_changes batch.changesModules Ledger.collaborators retry
        tenantId w
      rw [declined] at done
      exact ⟨e, StageWork.step_error ctx tenant done⟩

/-- Whatever it finds, a batch whose cancellation fails leaves everything as it is. -/
theorem Batch.cancel_declined (batch : s.Batch action)
    {cancel : StageContext → Store → StageStep Store}
    (can : (s.toStage Ledger.collaborators retry).cancel = some cancel) {e : StageError}
    (error : (cancel ctx w).outcome = .error e) : (cancel ctx w).world = w := by
  obtain rfl := Option.some.inj can
  cases tenant : ctx.scope.text? tenantParam with
  | none => simp only [StageWork.step, tenant]
  | some tenantId =>
    obtain ⟨cs, simple, undone⟩ := batch.cancel_changes retry ctx.result? tenantId w
    rw [StageWork.step_world ctx tenant, undone]
    rw [StageWork.step_outcome ctx tenant, undone] at error
    rcases changeAll_exact retry tenantId simple w with ⟨w', made⟩ | ⟨-, e', declined⟩
    · rw [made.changeAll] at error
      cases error
    · rw [declined]

/-- A batch over the ledger is made as a whole or not at all. It succeeds exactly if it runs for a
tenant, names no module twice, and each module is the other way. If it fails, the store is as it was,
and no result is stored. If it succeeds, its modules are as they are to be and nothing else has
changed, and when it is cancelled at once, that succeeds and the store is as it was. A cancellation
that fails, wherever it happens, leaves the store as it is. -/
theorem batch_all_or_nothing (batch : s.Batch action) (retry : RetryConfig) (ctx : StageContext)
    (w : Store) :
    ((s.executed retry ctx w).outcome = .ok () ↔
        ∃ tenantId, ctx.scope.text? tenantParam = some tenantId ∧ s.changedIds.Nodup ∧
          ∀ id ∈ s.changedIds, id ∈ modules tenantId w ↔ action = .disable) ∧
      (∀ e, (s.executed retry ctx w).outcome = .error e →
        (s.executed retry ctx w).world = w ∧ (s.executed retry ctx w).stored = none) ∧
      ((s.executed retry ctx w).outcome = .ok () →
        ∃ tenantId, ctx.scope.text? tenantParam = some tenantId ∧
          Switched tenantId action s.changedIds w (s.executed retry ctx w).world ∧
          (ModulesOnly w → ∀ t id,
            id ∈ Ledger.collaborators.installedModules t (s.executed retry ctx w).world ↔
              if t = tenantId ∧ id ∈ s.changedIds then action = .enable
              else id ∈ Ledger.collaborators.installedModules t w) ∧
          ∃ step, s.cancelled retry ctx w = some step ∧ step.outcome = .ok () ∧ step.world = w) ∧
      ∀ cancel, (s.toStage Ledger.collaborators retry).cancel = some cancel →
        ∀ e, (cancel ctx w).outcome = .error e → (cancel ctx w).world = w := by
  have can (tenantId : String) :
      (∃ w', Ledger.collaborators.Made retry tenantId s.changes w w') ↔ _ :=
    made_iff batch.simple batch.uniform
  have declined (cannot : ¬ ∃ tenantId, ctx.scope.text? tenantParam = some tenantId ∧
      ∃ w', Ledger.collaborators.Made retry tenantId s.changes w w') :=
    batch.executed_of_not_made cannot
  refine ⟨⟨fun ok => ?_, ?_⟩, fun e error => ?_, fun ok => ?_, fun cancel can e error =>
    batch.cancel_declined can error⟩
  · by_contra cannot
    obtain ⟨e, executed⟩ := declined fun ⟨tenantId, tenant, made⟩ =>
      cannot ⟨tenantId, tenant, (can tenantId).mp made⟩
    rw [executed] at ok
    cases ok
  · rintro ⟨tenantId, tenant, free⟩
    obtain ⟨w', made⟩ := (can tenantId).mpr free
    exact (batch.executed_of_made tenant made).1
  · obtain ⟨e', executed⟩ := declined fun ⟨tenantId, tenant, w', made⟩ => by
      rw [(batch.executed_of_made tenant made).1] at error
      cases error
    rw [executed]
    exact ⟨rfl, rfl⟩
  · by_cases made : ∃ tenantId, ctx.scope.text? tenantParam = some tenantId ∧
        ∃ w', Ledger.collaborators.Made retry tenantId s.changes w w'
    · obtain ⟨tenantId, tenant, w', made⟩ := made
      obtain ⟨-, rfl, back⟩ := batch.executed_of_made tenant made
      have switched := made_switched batch.simple batch.uniform made
      exact ⟨tenantId, tenant, switched, switched.installed, back⟩
    · obtain ⟨e, executed⟩ := declined made
      rw [executed] at ok
      cases ok

/-- Two modules that are to be enabled. -/
def pair : EntitlementStage := installBatch [.enable "k-1.0.0", .enable "m-1.0.0"]

/-- A store in which the second one is there. -/
def occupied : Store := (Ledger.install "t" "m-1.0.0" .empty).2

/-- Where the second module is there, the first one is enabled in vain. Where neither is, both come,
and both go again. -/
theorem batch_all_or_nothing_pair :
    pair.Batch .enable ∧
      (∃ e, (pair.executed .noRetry inTenant occupied).outcome = .error e) ∧
      (pair.executed .noRetry inTenant occupied).world = occupied ∧
      (pair.executed .noRetry inTenant .empty).outcome = .ok () ∧
      Switched "t" .enable ["k-1.0.0", "m-1.0.0"] .empty
        (pair.executed .noRetry inTenant .empty).world ∧
      ∃ step, pair.cancelled .noRetry inTenant .empty = some step ∧ step.outcome = .ok () ∧
        step.world = .empty := by
  have batch : pair.Batch .enable := ⟨rfl, by decide, by decide⟩
  obtain ⟨-, nothing, -, -⟩ := batch_all_or_nothing batch .noRetry inTenant occupied
  obtain ⟨succeeds, -, all, -⟩ := batch_all_or_nothing batch .noRetry inTenant .empty
  have error : ∃ e, (pair.executed .noRetry inTenant occupied).outcome = .error e := by
    cases h : (pair.executed .noRetry inTenant occupied).outcome with
    | error e => exact ⟨e, rfl⟩
    | ok =>
      have fails : (pair.executed .noRetry inTenant occupied).outcome ≠ .ok () := by decide +kernel
      exact absurd h fails
  obtain ⟨e, error⟩ := error
  have ok : (pair.executed .noRetry inTenant .empty).outcome = .ok () :=
    succeeds.mpr ⟨"t", rfl, by decide, by simp [modules, Store.empty, OrderedSet.contains_empty]⟩
  obtain ⟨tenantId, tenant, switched, -, back⟩ := all ok
  obtain rfl : "t" = tenantId := Option.some.inj tenant
  exact ⟨batch, ⟨e, error⟩, (nothing e error).1, ok, switched, back⟩

end EntitlementStage

end Provisioning
