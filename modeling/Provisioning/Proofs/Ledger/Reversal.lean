import Provisioning.Proofs.Ledger.Sparing

/-!
# Stages that are cancelled at once

A stage that has succeeded over the ledger can be cancelled, and everything is as it was before,
exactly if it was reversible where it was executed (`EntitlementStage.cancel_restores_iff`). It is
not if it overwrites a module, if it equips an application that has something already, if it strips
one that has something else than what its modules are named after, or if it gives an entitlement
that is there.
-/

namespace Provisioning

open Ledger

/-- The context after a step of its stage: that with which the stage is cancelled if nothing is done
in between. -/
def StageContext.after {σ : Type} (ctx : StageContext) (step : StageStep σ) : StageContext :=
  match step.stored with
  | some value => ctx.store value
  | none => ctx

namespace EntitlementStage

/-- A stage that is executed for a tenant changes nothing that cancelling it does not change back. -/
structure Reversible (tenantId : String) (s : EntitlementStage) (w : Store) : Prop where
  /-- It overwrites no module. -/
  spares : s.Spares tenantId w
  /-- An application that it strips has just what its modules are named after. -/
  strips : ∀ b id ms, (id, ms) ∈ s.strips b → owned tenantId b id w = b.names ms
  /-- Another application that it equips has nothing. -/
  equips : ∀ b id ms, (id, ms) ∈ s.equips b → (¬ ∃ ms', (id, ms') ∈ s.strips b) →
    owned tenantId b id w = ∅
  /-- The tenant is not entitled to an application that it gives for nothing. -/
  gives : ∀ id ∈ s.gives, s.takes = [] → w.isEntitled tenantId id = false

variable {s : EntitlementStage} {retry : RetryConfig} {tenantId : String} {w : Store}
  {stored : Option Data}

/-! ## Modules -/

section

variable (ok : (s.execute Ledger.collaborators retry tenantId w).1 = .ok stored)

include ok

/-- A stage that has overwritten nothing can be undone. -/
theorem undo_ok (spares : s.Spares tenantId w) : (s.undo Ledger.collaborators retry tenantId
    (s.execute Ledger.collaborators retry tenantId w).2).1 = .ok none := by
  cases hs : s.changesModules with
  | true =>
    have back := (execute_modules ok).back spares
    rw [undo_changes hs, (changeAll_of_makeAll back).1]
    rfl
  | false =>
    have unit {k : Call Store Unit} {u : Store} (fine : (k u).1 = .ok ()) (failure : String) :
        (StageWork.ofUnit (Collaborators.attempt retry failure k) u).1 = .ok none := by
      rw [StageWork.ofUnit, attempt_of_final retry (by simp [fine]), fine]
      rfl
    cases s with
    | createRoutes | removeRoutes | updateRoutes | createResources | removeResources
    | updateResources => exact unit rfl _
    | saveEntitlement | removeEntitlement => rfl
    | updateEntitlement old id =>
      -- What has been taken is gone, and what has been given is there.
      obtain ⟨moved, held⟩ := execute_moves Ledger.keepsEntitlements retry ok
      obtain ⟨-, free⟩ := held old (List.mem_singleton.mpr rfl)
      generalize ((updateEntitlement old id).execute Ledger.collaborators retry tenantId w).2 = u
        at moved
      have there : u.isEntitled tenantId id := (moved tenantId id).mpr (.inl ⟨rfl, by simp [gives]⟩)
      have gone : old = id ∨ u.isEntitled tenantId old = false := by
        rcases free id (List.mem_singleton.mpr rfl) with same | absent
        · exact .inl same.symm
        · by_cases same : old = id
          · exact .inl same
          · refine .inr (Bool.eq_false_iff.mpr fun h => ?_)
            have known := (moved tenantId old).mp h
            simp [gives, takes, same] at known
      obtain ⟨u', updated⟩ := Store.updateEntitlement_ok there gone
      show (StageWork.ofUnit (Ledger.collaborators.replace _ id old tenantId) u).1 = _
      simp [StageWork.ofUnit, Collaborators.replace, Ledger.collaborators, updated, Except.map]
    | _ => simp [changesModules, makesChanges] at hs

theorem spares_of_undone
    (undone : (s.undo Ledger.collaborators retry tenantId
      (s.execute Ledger.collaborators retry tenantId w).2).1 = .ok none)
    (same : modules tenantId (s.undo Ledger.collaborators retry tenantId
      (s.execute Ledger.collaborators retry tenantId w).2).2 = modules tenantId w) :
    s.Spares tenantId w := by
  have back := undo_modules undone
  rw [same] at back
  exact (execute_modules ok).spareAll back

end

/-! ## What belongs to applications -/

section

variable {equips strips : Holders} {b : Belonging} {owner : String} {ms : List String}
  {X : Set String}

theorem handed_back_stripped (stripped : (owner, ms) ∈ strips b)
    (one : ∀ ms', (owner, ms') ∈ strips b → ms' = ms) :
    handed strips equips b owner (handed equips strips b owner X) = b.names ms := by
  ext name
  constructor
  · rintro (⟨ms', h, hname⟩ | ⟨unequipped, ⟨ms', equipped, -⟩ | ⟨unstripped, -⟩⟩)
    · rwa [one ms' h] at hname
    · exact absurd ⟨ms', equipped⟩ unequipped
    · exact absurd ⟨ms, stripped⟩ unstripped
  · intro hname
    exact .inl ⟨ms, stripped, hname⟩

theorem handed_back_equipped (equipped : (owner, ms) ∈ equips b)
    (unstripped : ¬ ∃ ms', (owner, ms') ∈ strips b) :
    handed strips equips b owner (handed equips strips b owner X) = ∅ := by
  refine Set.eq_empty_iff_forall_notMem.mpr ?_
  rintro name (⟨ms', h, -⟩ | ⟨unequipped, -⟩)
  · exact unstripped ⟨ms', h⟩
  · exact unequipped ⟨ms, equipped⟩

end

/-- A stage strips one application at most. -/
theorem strips_unique {b : Belonging} {h h' : String × List String} (hh : h ∈ s.strips b)
    (hh' : h' ∈ s.strips b) : h = h' := by
  cases s with
  | removeRoutes | updateRoutes | removeResources | updateResources =>
    rw [(Holders.mem_only.mp hh).2, (Holders.mem_only.mp hh').2]
  | _ => exact absurd hh List.not_mem_nil

/-- When a stage has been undone, applications have what they had exactly if one that it strips had
what its modules are named after, and another one that it equips had nothing. -/
theorem undo_owned_iff : (∀ b owner, owned tenantId b owner (s.undo Ledger.collaborators retry
      tenantId (s.execute Ledger.collaborators retry tenantId w).2).2 = owned tenantId b owner w) ↔
    (∀ b id ms, (id, ms) ∈ s.strips b → owned tenantId b id w = b.names ms) ∧
      ∀ b id ms, (id, ms) ∈ s.equips b → (¬ ∃ ms', (id, ms') ∈ s.strips b) →
        owned tenantId b id w = ∅ := by
  simp only [undo_owned, execute_owned]
  have one {b : Belonging} {id : String} {ms : List String} (h : (id, ms) ∈ s.strips b) :
      ∀ ms', (id, ms') ∈ s.strips b → ms' = ms := fun ms' h' =>
    (Prod.mk.inj (strips_unique h' h)).2
  constructor
  · intro same
    refine ⟨fun b id ms stripped => ?_, fun b id ms equipped unstripped => ?_⟩
    · rw [← same, handed_back_stripped stripped (one stripped)]
    · rw [← same, handed_back_equipped equipped unstripped]
  · rintro ⟨strips, equips⟩ b id
    by_cases stripped : ∃ ms, (id, ms) ∈ s.strips b
    · obtain ⟨ms, stripped⟩ := stripped
      rw [handed_back_stripped stripped (one stripped), strips b id ms stripped]
    by_cases equipped : ∃ ms, (id, ms) ∈ s.equips b
    · obtain ⟨ms, equipped⟩ := equipped
      rw [handed_back_equipped equipped stripped, equips b id ms equipped stripped]
    · rw [handed_untouched equipped stripped, handed_untouched stripped equipped]

/-! ## Entitlements -/

/-- When a stage has been undone, tenants are entitled to what they were entitled to exactly if what
it gives for nothing was not there. -/
theorem undo_entitled_iff (ok : (s.execute Ledger.collaborators retry tenantId w).1 = .ok stored)
    (undone : (s.undo Ledger.collaborators retry tenantId
      (s.execute Ledger.collaborators retry tenantId w).2).1 = .ok none) :
    (∀ t id, (s.undo Ledger.collaborators retry tenantId
        (s.execute Ledger.collaborators retry tenantId w).2).2.isEntitled t id
          = w.isEntitled t id) ↔
      ∀ id ∈ s.gives, s.takes = [] → w.isEntitled tenantId id = false := by
  obtain ⟨moved, held⟩ := execute_moves Ledger.keepsEntitlements retry ok
  obtain ⟨back, -⟩ := cancel_moves Ledger.keepsEntitlements retry undone
  have after (t id : String) : (s.undo Ledger.collaborators retry tenantId
        (s.execute Ledger.collaborators retry tenantId w).2).2.isEntitled t id ↔
      (t = tenantId ∧ id ∈ s.takes) ∨ ¬(t = tenantId ∧ id ∈ s.gives) ∧
        ((t = tenantId ∧ id ∈ s.gives) ∨ ¬(t = tenantId ∧ id ∈ s.takes) ∧ w.isEntitled t id) :=
    (back t id).trans (or_congr_right (and_congr_right fun _ => moved t id))
  constructor
  · intro same id given free
    have kept := after tenantId id
    rw [same, free] at kept
    simpa [given] using kept
  · intro absent t id
    rw [Bool.eq_iff_iff, after]
    by_cases here : t = tenantId
    · subst here
      by_cases taken : id ∈ s.takes
      · exact iff_of_true (.inl ⟨rfl, taken⟩) (held id taken).1
      by_cases given : id ∈ s.gives
      · have new : w.isEntitled t id = false := by
          cases ht : s.takes with
          | nil => exact absent id given ht
          | cons old rest =>
            -- What is given for something else is not there unless it is the same.
            have first : old ∈ s.takes := ht ▸ List.mem_cons_self
            have other : id ≠ old := fun h => taken (h ▸ first)
            exact Bool.eq_false_iff.mpr (((held old first).2 id given).resolve_left other)
        simp [taken, given, new]
      · simp [taken, given]
    · simp [here]

/-! ## Everything -/

/-- A stage that has succeeded can be undone, and everything is as it was, exactly if it was
reversible. -/
theorem undo_sameRows_iff (ok : (s.execute Ledger.collaborators retry tenantId w).1 = .ok stored) :
    ((s.undo Ledger.collaborators retry tenantId
          (s.execute Ledger.collaborators retry tenantId w).2).1 = .ok none ∧
        w.SameRows (s.undo Ledger.collaborators retry tenantId
          (s.execute Ledger.collaborators retry tenantId w).2).2) ↔ s.Reversible tenantId w := by
  have resources (undone : (s.undo Ledger.collaborators retry tenantId
      (s.execute Ledger.collaborators retry tenantId w).2).1 = .ok none) :=
    (Undone.pair ok (.nil _) undone (.nil _)).resources_iff
  constructor
  · rintro ⟨undone, same⟩
    obtain ⟨sameModules, sameOwned⟩ := (resources undone).mp same.resources
    obtain ⟨strips, equips⟩ := undo_owned_iff.mp sameOwned
    exact ⟨spares_of_undone ok undone sameModules, strips, equips,
      (undo_entitled_iff ok undone).mp same.entitlements⟩
  · intro reversible
    have undone := undo_ok ok reversible.spares
    have sameModules := reversible.spares.tried_modules retry
    rw [tried_of_ok ok] at sameModules
    refine ⟨undone, (undo_entitled_iff ok undone).mpr reversible.gives, (resources undone).mpr
      ⟨sameModules, undo_owned_iff.mpr ⟨reversible.strips, reversible.equips⟩⟩⟩

/-! ## Contexts -/

/-- What comes of a stage that is executed over the ledger. -/
def executed (retry : RetryConfig) (s : EntitlementStage) (ctx : StageContext) (w : Store) :
    StageStep Store :=
  (s.toStage Ledger.collaborators retry).execute ctx w

/-- What comes of it if the stage is cancelled at once. -/
def cancelled (retry : RetryConfig) (s : EntitlementStage) (ctx : StageContext) (w : Store) :
    Option (StageStep Store) :=
  (s.toStage Ledger.collaborators retry).cancel.map fun cancel =>
    cancel (ctx.after (s.executed retry ctx w)) (s.executed retry ctx w).world

variable {ctx : StageContext}

/-- A stage that is cancelled at once knows what it has done. -/
theorem cancel_after (ok : (s.execute Ledger.collaborators retry tenantId w).1 = .ok stored)
    {step : StageStep Store} (stores : step.stored = stored) :
    s.cancel Ledger.collaborators retry (ctx.after step).result? tenantId
      = s.undo Ledger.collaborators retry tenantId := by
  refine cancel_eq_undo fun moduleIds disables d found => ?_
  subst disables
  cases ho : (Ledger.collaborators.changeAll retry tenantId [] (moduleIds.map .disable) w).1 with
  | error e => simp [execute, StageWork.andStore, ho, Except.map] at ok
  | ok =>
    obtain rfl : some (Data.ofTexts moduleIds) = stored := by
      simpa [execute, StageWork.andStore, ho, Except.map] using ok
    simp only [StageContext.after, stores, StageContext.store, StageContext.result?,
      OrderedMap.get?_insert, if_true] at found
    exact (Option.some.inj found).symm

/-- A stage that has succeeded can be cancelled at once, and every entitlement and every resource is
as it was, exactly if the stage was reversible. -/
theorem cancel_restores_iff (ok : (s.executed retry ctx w).outcome = .ok ()) :
    ∃ tenantId step, ctx.scope.text? tenantParam = some tenantId ∧
      s.cancelled retry ctx w = some step ∧
      ((step.outcome = .ok () ∧ w.SameRows step.world) ↔ s.Reversible tenantId w) := by
  obtain ⟨tenantId, stored, w', tenant, done⟩ := StageWork.step_eq_ok ctx ok
  have executed : s.executed retry ctx w = { world := w', stored, outcome := .ok () } :=
    StageWork.step_ok ctx tenant done
  have world : (s.execute Ledger.collaborators retry tenantId w).2 = w' := congrArg Prod.snd done
  have ok : (s.execute Ledger.collaborators retry tenantId w).1 = .ok stored :=
    congrArg Prod.fst done
  have later : (ctx.after (s.executed retry ctx w)).scope.text? tenantParam = some tenantId := by
    rw [executed, StageContext.after]
    cases stored <;> exact tenant
  refine ⟨tenantId, _, tenant, rfl, ?_⟩
  dsimp only
  rw [StageWork.step_outcome _ later, StageWork.step_world _ later,
    cancel_after ok (congrArg StageStep.stored executed), executed, ← undo_sameRows_iff ok, world]
  refine and_congr_left fun _ => ?_
  cases ho : (s.undo Ledger.collaborators retry tenantId w').1 with
  | error e => simp [Except.map]
  | ok result =>
    cases result with
    | none => simp [Except.map]
    | some d => exact absurd ho cancel_stored

/-- A store in which an application has the route of a module. -/
def routed : Store := (Ledger.createRoutes "t" "a-1.0.0" ["m-1.0.0"] .empty).2

theorem mem_owned_routed {id name : String} : name ∈ owned "t" .route id routed ↔
    id = "a-1.0.0" ∧ name ∈ Belonging.route.names ["m-1.0.0"] := by
  have hands : name ∈ owned "t" .route id routed ↔ _ :=
    hands_equip "t" .route "a-1.0.0" ["m-1.0.0"] .empty (Belonging.route.resource "t" id name)
  rw [hands, Holders.equipped_resource]
  simp [Holders.only, Store.empty, OrderedSet.contains_empty]

/-- A context with a tenant. -/
def inTenant : StageContext :=
  .detached "f/s" (OrderedMap.empty.insert tenantParam (.text "t")) .empty

/-- The routes of a version are replaced by those of the next one. -/
def rerouting : EntitlementStage :=
  updateRoutes ⟨"a-1.0.0", "a-2.0.0", ["m-1.0.0"], ["m-2.0.0", "n-1.0.0"]⟩

/-- They come back. -/
theorem cancel_restores_iff_rerouting :
    (rerouting.executed .noRetry inTenant routed).outcome = .ok () ∧
      ∃ step, rerouting.cancelled .noRetry inTenant routed = some step ∧
        step.outcome = .ok () ∧ routed.SameRows step.world := by
  have ok : (rerouting.executed .noRetry inTenant routed).outcome = .ok () := by
    decide +kernel
  obtain ⟨tenantId, step, tenant, cancelled, restores⟩ := cancel_restores_iff ok
  obtain rfl : "t" = tenantId := Option.some.inj tenant
  refine ⟨ok, step, cancelled, restores.mpr ⟨ModuleChange.spareAll_nil _, ?_, ?_, ?_⟩⟩
  · intro b id ms stripped
    obtain ⟨rfl, same⟩ := Holders.mem_only.mp stripped
    obtain ⟨rfl, rfl⟩ := Prod.mk.inj same
    ext name
    rw [mem_owned_routed, and_iff_right rfl]
  · intro b id ms equipped _
    obtain ⟨rfl, same⟩ := Holders.mem_only.mp equipped
    obtain ⟨rfl, rfl⟩ := Prod.mk.inj same
    refine Set.eq_empty_iff_forall_notMem.mpr fun name hname => ?_
    exact absurd (mem_owned_routed.mp hname).1 (by decide)
  · intro id given
    exact absurd given List.not_mem_nil

/-- A route is added to that of the application. -/
def adding : EntitlementStage := createRoutes "a-1.0.0" ["m-1.0.0", "n-1.0.0"]

/-- The stage stores that only the second route is new. Cancelling it takes the first one away, too. -/
theorem cancelled_takes_route :
    (adding.executed .noRetry inTenant routed).outcome = .ok () ∧
      (adding.executed .noRetry inTenant routed).stored.bind (·.texts?) = some ["/n"] ∧
      ∃ step, adding.cancelled .noRetry inTenant routed = some step ∧ step.outcome = .ok () ∧
        ¬ routed.SameRows step.world := by
  have there : routed.resources.contains (Belonging.route.resource "t" "a-1.0.0" "/m") := by
    decide +kernel
  have shows : (adding.cancelled .noRetry inTenant routed).map (fun step => (step.outcome,
      step.world.resources.contains (Belonging.route.resource "t" "a-1.0.0" "/m")))
      = some (.ok (), false) := by
    decide +kernel
  obtain ⟨step, cancelled, read⟩ := Option.map_eq_some_iff.mp shows
  obtain ⟨outcome, gone⟩ := Prod.mk.inj read
  refine ⟨by decide +kernel, by decide +kernel, step, cancelled, outcome, fun same => ?_⟩
  rw [← same.resources, gone] at there
  exact absurd there (by decide)

end EntitlementStage

end Provisioning
