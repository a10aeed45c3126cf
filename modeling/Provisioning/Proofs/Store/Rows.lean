import Provisioning.Proofs.Ordered.Lookup
import Provisioning.Store.Recorder

/-!
# Entitlements and resources of a store

What an operation on the store does to its rows, said by which entitlements and which resources
there are. Recording a run touches neither.
-/

namespace Provisioning.Store

/-! ## Entitlements -/

theorem mem_entitledIds {s : Store} {tenantId id : String} :
    id ∈ s.entitledIds tenantId ↔ s.isEntitled tenantId id := by
  rw [isEntitled, ← OrderedMap.mem_keys_iff]
  simp only [entitledIds, entitlementsOf, OrderedMap.keys, List.map_map, List.mem_map,
    List.mem_filter, decide_eq_true_eq, Function.comp_apply]
  constructor
  · rintro ⟨⟨⟨t, a⟩, time⟩, ⟨he, rfl⟩, rfl⟩
    exact ⟨_, he, rfl⟩
  · rintro ⟨⟨k, time⟩, he, rfl⟩
    exact ⟨_, ⟨he, rfl⟩, rfl⟩

theorem entitledIds_nodup (s : Store) (tenantId : String) : (s.entitledIds tenantId).Nodup := by
  have keys := s.entitlements.keys_nodup
  rw [OrderedMap.keys, List.Nodup, List.pairwise_map] at keys
  rw [entitledIds, entitlementsOf, List.map_map, List.Nodup, List.pairwise_map, List.pairwise_filter]
  refine keys.imp fun {a b} hne ha hb heq => hne ?_
  simp only [decide_eq_true_eq] at ha hb
  obtain ⟨⟨t, i⟩, time⟩ := a
  obtain ⟨⟨t', i'⟩, time'⟩ := b
  simp_all

theorem isEntitled_save (s : Store) (tenantId id t a : String) :
    (s.saveEntitlement tenantId id).2.isEntitled t a
      ↔ (t = tenantId ∧ a = id) ∨ s.isEntitled t a := by
  unfold saveEntitlement
  split
  · rename_i h
    refine ⟨.inr, ?_⟩
    rintro (⟨rfl, rfl⟩ | h')
    · exact h
    · exact h'
  · simp only [isEntitled, OrderedMap.contains_insert, TenantApplication.mk.injEq]

theorem isEntitled_remove (s : Store) (tenantId id t a : String) :
    (s.removeEntitlement tenantId id).2.isEntitled t a
      ↔ ¬ (t = tenantId ∧ a = id) ∧ s.isEntitled t a := by
  unfold removeEntitlement
  split
  · simp only [isEntitled, OrderedMap.contains_erase, ne_eq, TenantApplication.mk.injEq]
  · rename_i h
    exact ⟨fun h' => ⟨fun ⟨ht, ha⟩ => h (ht ▸ ha ▸ h'), h'⟩, And.right⟩

theorem removeEntitlement_fst (s : Store) (tenantId id : String) :
    (s.removeEntitlement tenantId id).1 = s.isEntitled tenantId id := by
  unfold removeEntitlement
  split <;> simp_all

/-- An entitlement is replaced if it is there and the one that comes is not, unless both are the
same. -/
theorem updateEntitlement_eq_ok {s s' : Store} {tenantId current next : String}
    (h : s.updateEntitlement tenantId current next = .ok s') :
    s.isEntitled tenantId current ∧ (next = current ∨ s.isEntitled tenantId next = false) ∧
      s'.resources = s.resources ∧
      ∀ t a, s'.isEntitled t a ↔
        (t = tenantId ∧ a = next) ∨ ¬ (t = tenantId ∧ a = current) ∧ s.isEntitled t a := by
  unfold updateEntitlement at h
  split at h
  · simp at h
  · split at h
    · simp at h
    · rename_i there free
      simp only [Except.ok.injEq] at h
      subst h
      refine ⟨by simpa using there, ?_, rfl, fun t a => ?_⟩
      · by_cases hn : next = current
        · exact .inl hn
        · exact .inr (by simpa [hn] using free)
      · simp only [isEntitled, OrderedMap.contains_insert, OrderedMap.contains_erase, ne_eq,
          TenantApplication.mk.injEq]

/-- An entitlement that is there can be replaced by one that is not. -/
theorem updateEntitlement_ok {s : Store} {tenantId current next : String}
    (there : s.isEntitled tenantId current)
    (free : next = current ∨ s.isEntitled tenantId next = false) :
    ∃ s', s.updateEntitlement tenantId current next = .ok s' := by
  have taken : ¬(next ≠ current ∧ s.isEntitled tenantId next) := by
    rintro ⟨ne, known⟩
    rcases free with same | absent
    · exact ne same
    · rw [absent] at known
      cases known
  exact ⟨_, by rw [updateEntitlement, there, if_neg (by decide), if_neg taken]⟩

@[simp]
theorem saveEntitlement_resources (s : Store) (tenantId id : String) :
    (s.saveEntitlement tenantId id).2.resources = s.resources := by
  unfold saveEntitlement
  split <;> rfl

@[simp]
theorem removeEntitlement_resources (s : Store) (tenantId id : String) :
    (s.removeEntitlement tenantId id).2.resources = s.resources := by
  unfold removeEntitlement
  split <;> rfl

/-! ## Resources -/

theorem contains_insertResource (s : Store) (r x : Resource) :
    (s.insertResource r).2.resources.contains x ↔ x = r ∨ s.resources.contains x := by
  unfold insertResource
  split
  · rename_i h
    exact ⟨.inr, fun h' => h'.elim (fun h' => h' ▸ h) id⟩
  · exact OrderedSet.contains_insert _ _ _

theorem insertResource_fst (s : Store) (r : Resource) :
    (s.insertResource r).1 = !s.resources.contains r := by
  unfold insertResource
  split <;> simp_all

theorem contains_deleteResource (s : Store) (r x : Resource) :
    (s.deleteResource r).2.resources.contains x ↔ x ≠ r ∧ s.resources.contains x := by
  unfold deleteResource
  split
  · exact OrderedSet.contains_erase _ _ _
  · rename_i h
    exact ⟨fun h' => ⟨fun heq => h (heq ▸ h'), h'⟩, And.right⟩

theorem deleteResource_fst (s : Store) (r : Resource) :
    (s.deleteResource r).1 = s.resources.contains r := by
  unfold deleteResource
  split <;> simp_all

theorem insertResource_of_contains {s : Store} {r : Resource} (there : s.resources.contains r) :
    (s.insertResource r).2 = s := by
  rw [insertResource, if_pos there]

theorem deleteResource_of_not_contains {s : Store} {r : Resource}
    (absent : ¬s.resources.contains r) : (s.deleteResource r).2 = s := by
  rw [deleteResource, if_neg absent]

theorem deleteResource_insertResource {s : Store} {r : Resource}
    (absent : ¬s.resources.contains r) : ((s.insertResource r).2.deleteResource r).2 = s := by
  have there : (s.insertResource r).2.resources.contains r :=
    (s.contains_insertResource r r).mpr (.inl rfl)
  rw [deleteResource, if_pos there, insertResource, if_neg absent]
  exact congrArg (fun resources => { s with resources }) (OrderedSet.erase_insert absent)

theorem insertResource_deleteResource {s : Store} {r : Resource}
    (there : s.resources.contains r) : ((s.deleteResource r).2.insertResource r).2 = s := by
  have absent : ¬(s.deleteResource r).2.resources.contains r :=
    fun h => ((s.contains_deleteResource r r).mp h).1 rfl
  rw [insertResource, if_neg absent, deleteResource, if_pos there]
  exact congrArg (fun resources => { s with resources }) (OrderedSet.insert_erase there)

theorem contains_deleteResources (s : Store) (tenantId kind owner : String) (x : Resource) :
    (s.deleteResources tenantId kind owner).2.resources.contains x
      ↔ s.resources.contains x ∧ ownedBy tenantId kind owner x = false := by
  rw [deleteResources, OrderedSet.contains_filter, Bool.not_eq_true']

@[simp]
theorem insertResource_entitlements (s : Store) (r : Resource) :
    (s.insertResource r).2.entitlements = s.entitlements := by
  unfold insertResource
  split <;> rfl

@[simp]
theorem deleteResource_entitlements (s : Store) (r : Resource) :
    (s.deleteResource r).2.entitlements = s.entitlements := by
  unfold deleteResource
  split <;> rfl

@[simp]
theorem deleteResources_entitlements (s : Store) (tenantId kind owner : String) :
    (s.deleteResources tenantId kind owner).2.entitlements = s.entitlements := rfl

/-! ## Recording -/

/-- Two stores with the same entitlements and the same resources. -/
def SameTables (s s' : Store) : Prop :=
  s'.entitlements = s.entitlements ∧ s'.resources = s.resources

theorem orUnchanged_rows {s : Store} {changed : Except StoreError Store}
    (h : ∀ s', changed = .ok s' → SameTables s s') : SameTables s (s.orUnchanged changed) := by
  cases changed with
  | ok s' => exact h s' rfl
  | error e => exact ⟨rfl, rfl⟩

theorem insertFlow_rows {s s' : Store} {id tenantId type : String}
    (h : s.insertFlow id tenantId type = .ok s') : SameTables s s' := by
  unfold insertFlow at h
  split at h <;> simp only [Except.ok.injEq, reduceCtorEq] at h
  exact h ▸ ⟨rfl, rfl⟩

theorem insertApplicationFlow_rows {s s' : Store} {id : String} {data : ApplicationFlowData}
    (h : s.insertApplicationFlow id data = .ok s') : SameTables s s' := by
  unfold insertApplicationFlow at h
  split at h <;> simp only [Except.ok.injEq, reduceCtorEq] at h
  exact h ▸ ⟨rfl, rfl⟩

theorem insertStage_rows {s s' : Store} {id flowId name : String}
    (h : s.insertStage id flowId name = .ok s') : SameTables s s' := by
  unfold insertStage at h
  split at h <;> simp only [Except.ok.injEq, reduceCtorEq] at h
  exact h ▸ ⟨rfl, rfl⟩

theorem recordFlowStatus_rows (s : Store) (flow : FlowInfo) (status : ExecutionStatus) :
    SameTables s (s.recordFlowStatus flow status) := by
  unfold recordFlowStatus
  split <;> exact ⟨rfl, rfl⟩

/-- Recording an event leaves entitlements and resources as they are. -/
theorem record_rows (s : Store) (e : Event) : SameTables s (s.record e) := by
  cases e with
  | flowQueued flow =>
    rw [record, recordFlow]
    split
    · exact orUnchanged_rows fun _ h => insertFlow_rows h
    · exact orUnchanged_rows fun _ h => insertApplicationFlow_rows h
  | stageQueued stage => exact orUnchanged_rows fun _ h => insertStage_rows h
  | flowStart flow => exact s.recordFlowStatus_rows flow .inProgress
  | flowFinish flow status => exact s.recordFlowStatus_rows flow status
  | _ => exact ⟨rfl, rfl⟩

/-- Recording a run leaves entitlements and resources as they are. -/
theorem recordAll_rows (s : Store) (events : List Event) : SameTables s (s.recordAll events) := by
  induction events generalizing s with
  | nil => exact ⟨rfl, rfl⟩
  | cons e rest ih =>
    have first := s.record_rows e
    have later := ih (s.record e)
    exact ⟨later.1.trans first.1, later.2.trans first.2⟩

theorem recordAll_entitledIds (s : Store) (events : List Event) (tenantId : String) :
    (s.recordAll events).entitledIds tenantId = s.entitledIds tenantId := by
  unfold entitledIds entitlementsOf
  rw [(s.recordAll_rows events).1]

end Provisioning.Store
