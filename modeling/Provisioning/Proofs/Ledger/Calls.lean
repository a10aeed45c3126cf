import Provisioning.Collaborator.Ledger
import Provisioning.Proofs.Store.Rows

/-!
# Calls of the ledger

What the calls of the ledger do to the resources of the store. They leave its entitlements alone.
-/

namespace Provisioning.Ledger

variable (tenantId : String)

/-! ## Modules -/

theorem install_store (id : String) (s : Store) :
    (install tenantId id s).2 = (s.insertResource (moduleResource tenantId id)).2 := by
  unfold install
  split <;> simp_all

theorem uninstall_store (id : String) (s : Store) :
    (uninstall tenantId id s).2 = (s.deleteResource (moduleResource tenantId id)).2 := by
  unfold uninstall
  split <;> simp_all

theorem install_outcome (id : String) (s : Store) :
    (install tenantId id s).1
      = if s.resources.contains (moduleResource tenantId id) then
          .error (.alreadyEnabled tenantId id)
        else .ok () := by
  have isNew := s.insertResource_fst (moduleResource tenantId id)
  unfold install
  split <;> simp_all

theorem uninstall_outcome (id : String) (s : Store) :
    (uninstall tenantId id s).1
      = if s.resources.contains (moduleResource tenantId id) then .ok ()
        else .error (.notFound id) := by
  have there := s.deleteResource_fst (moduleResource tenantId id)
  unfold uninstall
  split <;> simp_all

theorem upgrade_outcome (old id : String) (s : Store) :
    (upgrade tenantId old id s).1
      = if s.resources.contains (moduleResource tenantId old) then .ok ()
        else .error (.notFound old) := by
  have there := s.deleteResource_fst (moduleResource tenantId old)
  unfold upgrade
  split <;> simp_all

theorem upgrade_store (old id : String) (s : Store) :
    (upgrade tenantId old id s).2
      = if s.resources.contains (moduleResource tenantId old) then
          ((s.deleteResource (moduleResource tenantId old)).2.insertResource
            (moduleResource tenantId id)).2
        else s := by
  have there := s.deleteResource_fst (moduleResource tenantId old)
  unfold upgrade
  split
  · simp_all
  · rename_i s' h
    have absent : s.resources.contains (moduleResource tenantId old) = false := by simp_all
    rw [if_neg (by simp [absent])]
    unfold Store.deleteResource at h
    simp_all

/-! ## Entitlements -/

@[simp]
theorem install_entitlements (id : String) (s : Store) :
    (install tenantId id s).2.entitlements = s.entitlements := by simp [install_store]

@[simp]
theorem uninstall_entitlements (id : String) (s : Store) :
    (uninstall tenantId id s).2.entitlements = s.entitlements := by simp [uninstall_store]

@[simp]
theorem upgrade_entitlements (old id : String) (s : Store) :
    (upgrade tenantId old id s).2.entitlements = s.entitlements := by
  rw [upgrade_store]
  split <;> simp

@[simp]
theorem addAll_entitlements (kind owner : String) (s : Store) (names : List String) :
    (addAll tenantId kind owner s names).2.entitlements = s.entitlements := by
  induction names generalizing s with
  | nil => rfl
  | cons name rest ih => exact (ih _).trans (s.insertResource_entitlements _)

end Provisioning.Ledger
