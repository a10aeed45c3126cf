import Provisioning.Proofs.Ledger.Owners

/-!
# What is left when everything has been undone

When stages that the ledger has been called by have been undone, there are no more modules than
before (`Undone.fewer_modules`). An application that has been stripped has what its modules are named
after, and one that has only been equipped has nothing. An entitlement is as it was unless it has been
given to a tenant that had it (`Undone.entitled_iff`).
-/

namespace Provisioning

open Ledger

namespace EntitlementStage

/-! ## Modules -/

/-- What is left of a world when the stage is called and, if it succeeds, undone at once. -/
def tried {σ : Type} (c : Collaborators σ) (retry : RetryConfig) (s : EntitlementStage)
    (tenantId : String) (w : σ) : σ :=
  let (outcome, w) := s.execute c retry tenantId w
  match outcome with
  | .ok _ => (s.undo c retry tenantId w).2
  | .error _ => w

variable {s : EntitlementStage} {retry : RetryConfig} {tenantId : String} {w w' : Store}
  {cs : List (EntitlementStage × Store)}

theorem changes_eq_nil (h : s.changesModules = false) : s.changes = [] := by
  cases s <;> first | rfl | simp [changesModules, makesChanges] at h

theorem execute_modules {stored : Option Data}
    (ok : (s.execute Ledger.collaborators retry tenantId w).1 = .ok stored) :
    ModuleChange.MakeAll s.changes (modules tenantId w)
      (modules tenantId (s.execute Ledger.collaborators retry tenantId w).2) := by
  cases hs : s.changesModules with
  | false =>
    rw [changes_eq_nil hs, (execute_hands hs retry tenantId w).modules]
    exact .nil _
  | true =>
    obtain ⟨result, h⟩ := execute_changes hs Ledger.collaborators retry tenantId w
    rw [h] at ok ⊢
    refine changeAll_ok ?_
    cases ho : (Ledger.collaborators.changeAll retry tenantId [] s.changes w).1 with
    | ok => rfl
    | error e => simp [ho, Except.map] at ok

theorem execute_modules_error {e : StageError}
    (error : (s.execute Ledger.collaborators retry tenantId w).1 = .error e) :
    modules tenantId (s.execute Ledger.collaborators retry tenantId w).2 ⊆ modules tenantId w := by
  cases hs : s.changesModules with
  | false => rw [(execute_hands hs retry tenantId w).modules]
  | true =>
    obtain ⟨result, h⟩ := execute_changes hs Ledger.collaborators retry tenantId w
    rw [h] at error ⊢
    cases ho : (Ledger.collaborators.changeAll retry tenantId [] s.changes w).1 with
    | ok => simp [ho, Except.map] at error
    | error e => exact changeAll_error (fun u fewer => fewer) ho

theorem undo_modules (ok : (s.undo Ledger.collaborators retry tenantId w).1 = .ok none) :
    ModuleChange.MakeAll (ModuleChange.inverses s.changes) (modules tenantId w)
      (modules tenantId (s.undo Ledger.collaborators retry tenantId w).2) := by
  cases hs : s.changesModules with
  | false =>
    rw [changes_eq_nil hs, (undo_hands hs retry tenantId w).modules]
    exact .nil _
  | true =>
    rw [undo_changes hs] at ok ⊢
    refine changeAll_ok ?_
    cases ho : (Ledger.collaborators.changeAll retry tenantId []
        (ModuleChange.inverses s.changes) w).1 with
    | ok => rfl
    | error e => simp [ho, Except.map] at ok

theorem undo_modules_congr (same : modules tenantId w = modules tenantId w') :
    modules tenantId (s.undo Ledger.collaborators retry tenantId w).2
      = modules tenantId (s.undo Ledger.collaborators retry tenantId w').2 := by
  cases hs : s.changesModules with
  | false =>
    rw [(undo_hands hs retry tenantId w).modules, (undo_hands hs retry tenantId w').modules, same]
  | true =>
    rw [undo_changes hs, undo_changes hs]
    exact changeAll_congr same

theorem tried_of_ok {stored : Option Data}
    (ok : (s.execute Ledger.collaborators retry tenantId w).1 = .ok stored) :
    s.tried Ledger.collaborators retry tenantId w = (s.undo Ledger.collaborators retry tenantId
      (s.execute Ledger.collaborators retry tenantId w).2).2 := by
  simp only [tried, ok]

theorem tried_of_error {e : StageError}
    (error : (s.execute Ledger.collaborators retry tenantId w).1 = .error e) :
    s.tried Ledger.collaborators retry tenantId w
      = (s.execute Ledger.collaborators retry tenantId w).2 := by
  simp only [tried, error]

/-- When everything has been undone, there are no more modules than before. There are as many exactly
if each stage that has been called would have left as many if it had been undone at once. -/
theorem Undone.fewer_modules (undone : Undone Ledger.collaborators retry tenantId w cs w') :
    modules tenantId w' ⊆ modules tenantId w ∧
      (modules tenantId w' = modules tenantId w ↔ ∀ x ∈ cs,
        modules tenantId (x.1.tried Ledger.collaborators retry tenantId x.2)
          = modules tenantId x.2) := by
  induction undone with
  | nil => exact ⟨.rfl, by simp⟩
  | @failed s w w' cs e error later ih =>
    obtain ⟨fewer', same'⟩ := ih
    have fewer := execute_modules_error error
    rw [List.forall_mem_cons, tried_of_error error, ← same']
    refine ⟨fewer'.trans fewer, fun same => ?_, fun ⟨same, same'⟩ => same'.trans same⟩
    have kept := fewer.antisymm (same ▸ fewer')
    exact ⟨kept, same.trans kept.symm⟩
  | @pair s w w₁ w' cs ds stored ok inner undone later ihi ihl =>
    obtain ⟨fewer₁, same₁⟩ := ihi
    obtain ⟨fewer', same'⟩ := ihl
    obtain ⟨fewer, back⟩ := (execute_modules ok).undone fewer₁ (undo_modules undone)
    rw [List.forall_mem_cons, List.forall_mem_append, tried_of_ok ok, ← same₁, ← same']
    refine ⟨fewer'.trans fewer, fun same => ?_, fun ⟨tried, same₁, same'⟩ => ?_⟩
    · have undone := fewer.antisymm (same ▸ fewer')
      have same₁ := back undone
      exact ⟨(undo_modules_congr same₁).symm.trans undone, same₁, same.trans undone.symm⟩
    · exact same'.trans ((undo_modules_congr same₁).trans tried)

/-! ## What belongs to applications -/

/-- An application that stages strip has the same modules each time, and is stripped too where it is
equipped. -/
structure Separate (cs : List (EntitlementStage × Store)) : Prop where
  /-- The modules are the same each time. -/
  modules : ∀ x ∈ cs, ∀ y ∈ cs, ∀ b id ms ms', (id, ms) ∈ x.1.strips b →
    (id, ms') ∈ y.1.strips b ∨ (id, ms') ∈ y.1.equips b → ms' = ms
  /-- It is stripped where it is equipped. -/
  stripped : ∀ x ∈ cs, ∀ y ∈ cs, ∀ b id ms ms', (id, ms) ∈ x.1.strips b →
    (id, ms') ∈ y.1.equips b → (id, ms) ∈ y.1.strips b

/-- A stage that strips or equips an application cannot fail. -/
theorem succeeds_of_holder (retry : RetryConfig) (tenantId : String) (w : Store) {b : Belonging}
    {h : String × List String} (hh : h ∈ s.strips b ∨ h ∈ s.equips b) :
    Succeeds Ledger.collaborators retry tenantId (s, w) := by
  have once {α : Type} {k : Call Store α} {a : α} (ok : (k w).1 = .ok a) (failure : String) :
      (Collaborators.attempt retry failure k w).1 = .ok a := by
    rw [attempt_of_final retry (by simp [ok]), ok]
    rfl
  have unit {k : Call Store Unit} (ok : (k w).1 = .ok ()) (failure : String) :
      (StageWork.ofUnit (Collaborators.attempt retry failure k) w).1 = .ok none :=
    congrArg (Except.map fun _ => none) (once ok failure)
  cases s with
  | createRoutes id ms =>
    have ok := once (k := Ledger.createRoutes tenantId id ms) rfl "Failed to create routes"
    exact ⟨_, congrArg (Except.map fun routes => some (Data.ofTexts routes)) ok⟩
  | removeRoutes | updateRoutes | createResources | removeResources | updateResources =>
    exact ⟨_, unit rfl _⟩
  | _ => simp [strips, equips, Holders.none] at hh

theorem handed_untouched {equips strips : Holders} {b : Belonging} {owner : String} {X : Set String}
    (unequipped : ¬ ∃ ms, (owner, ms) ∈ equips b) (unstripped : ¬ ∃ ms, (owner, ms) ∈ strips b) :
    handed equips strips b owner X = X := by
  ext name
  refine ⟨fun h => ?_, fun h => .inr ⟨unstripped, h⟩⟩
  rcases h with ⟨ms, h, -⟩ | ⟨-, h⟩
  · exact absurd ⟨ms, h⟩ unequipped
  · exact h

section

variable (undone : Undone Ledger.collaborators retry tenantId w cs w') (b : Belonging)
  (owner : String)

include undone

/-- An application that is stripped has what its modules are named after at the end. -/
theorem Undone.owned_stripped (separate : Separate cs) {x : EntitlementStage × Store} (hx : x ∈ cs)
    {ms : List String} (stripped : (owner, ms) ∈ x.1.strips b) :
    owned tenantId b owner w' = b.names ms := by
  have modules {y : EntitlementStage × Store} (hy : y ∈ cs) {ms' : List String}
      (h : (owner, ms') ∈ y.1.strips b ∨ (owner, ms') ∈ y.1.equips b) : ms' = ms :=
    separate.modules x hx y hy b owner ms ms' stripped h
  have settled := undone.settles (owned tenantId b owner) (b.names ms)
    (fun s => (owner, ms) ∈ s.strips b) ?_ ?_ ?_
  · refine settled.elim (fun h => absurd ?_ (h.2 x hx stripped)) And.left
    exact succeeds_of_holder retry tenantId _ (.inl stripped)
  · intro y hy untouched u
    have unstripped : ¬ ∃ ms', (owner, ms') ∈ y.1.strips b := by
      rintro ⟨ms', h⟩
      obtain rfl := modules hy (.inl h)
      exact untouched h
    have unequipped : ¬ ∃ ms', (owner, ms') ∈ y.1.equips b := fun ⟨ms', h⟩ =>
      untouched (separate.stripped x hx y hy b owner ms ms' stripped h)
    rw [execute_owned, undo_owned, handed_untouched unequipped unstripped,
      handed_untouched unstripped unequipped]
    exact ⟨rfl, rfl⟩
  · intro y hy touched u e error
    obtain ⟨stored, ok⟩ := succeeds_of_holder retry tenantId u
      (.inl touched)
    exact absurd (ok.symm.trans error) (by simp)
  · intro y hy touched u u₁ ok between _
    have fewer : owned tenantId b owner u₁ ⊆ b.names ms := by
      refine between.elim (fun h => ?_) Eq.subset
      rw [h, execute_owned]
      rintro name (⟨ms', equipped, hname⟩ | ⟨unstripped, -⟩)
      · exact modules hy (.inr equipped) ▸ hname
      · exact absurd ⟨ms, touched⟩ unstripped
    rw [undo_owned]
    refine Set.Subset.antisymm ?_ fun name hname => .inl ⟨ms, touched, hname⟩
    rintro name (⟨ms', h, hname⟩ | ⟨-, hname⟩)
    · exact modules hy (.inl h) ▸ hname
    · exact fewer hname

/-- An application that is equipped and never stripped has nothing at the end. -/
theorem Undone.owned_equipped (unstripped : ∀ y ∈ cs, ¬ ∃ ms, (owner, ms) ∈ y.1.strips b)
    {x : EntitlementStage × Store} (hx : x ∈ cs) {ms : List String}
    (equipped : (owner, ms) ∈ x.1.equips b) : owned tenantId b owner w' = ∅ := by
  have settled := undone.settles (owned tenantId b owner) ∅
    (fun s => ∃ ms, (owner, ms) ∈ s.equips b) ?_ ?_ ?_
  · refine settled.elim (fun h => absurd ?_ (h.2 x hx ⟨ms, equipped⟩)) And.left
    exact succeeds_of_holder retry tenantId _ (.inr equipped)
  · intro y hy unequipped u
    rw [execute_owned, undo_owned, handed_untouched unequipped (unstripped y hy),
      handed_untouched (unstripped y hy) unequipped]
    exact ⟨rfl, rfl⟩
  · rintro y hy ⟨ms, equipped⟩ u e error
    obtain ⟨stored, ok⟩ := succeeds_of_holder retry tenantId u
      (.inr equipped)
    exact absurd (ok.symm.trans error) (by simp)
  · intro y hy touched u u₁ ok between _
    rw [undo_owned, Set.eq_empty_iff_forall_notMem]
    rintro name (⟨ms', h, -⟩ | ⟨stays, -⟩)
    · exact unstripped y hy ⟨ms', h⟩
    · exact stays touched

/-- An application that is neither stripped nor equipped has what it had. -/
theorem Undone.owned_untouched (unstripped : ∀ y ∈ cs, ¬ ∃ ms, (owner, ms) ∈ y.1.strips b)
    (unequipped : ∀ y ∈ cs, ¬ ∃ ms, (owner, ms) ∈ y.1.equips b) :
    owned tenantId b owner w' = owned tenantId b owner w := by
  have settled := undone.settles (owned tenantId b owner) ∅
    (fun _ => False)
    ?_ (by simp) (by simp)
  · exact settled.elim And.left fun ⟨_, _, _, h, _⟩ => h.elim
  · intro y hy _ u
    rw [execute_owned, undo_owned, handed_untouched (unequipped y hy) (unstripped y hy),
      handed_untouched (unstripped y hy) (unequipped y hy)]
    exact ⟨rfl, rfl⟩

/-- An application has what it had, if that was what its modules are named after where it is stripped,
and nothing where it is only equipped. -/
theorem Undone.owned_kept (separate : Separate cs)
    (strips : ∀ x ∈ cs, ∀ ms, (owner, ms) ∈ x.1.strips b → owned tenantId b owner w = b.names ms)
    (equips : ∀ x ∈ cs, ∀ ms, (owner, ms) ∈ x.1.equips b →
      (¬ ∃ ms', (owner, ms') ∈ x.1.strips b) → owned tenantId b owner w = ∅) :
    owned tenantId b owner w' = owned tenantId b owner w := by
  by_cases stripped : ∃ x ∈ cs, ∃ ms, (owner, ms) ∈ x.1.strips b
  · obtain ⟨x, hx, ms, stripped⟩ := stripped
    rw [undone.owned_stripped b owner separate hx stripped, strips x hx ms stripped]
  have unstripped : ∀ y ∈ cs, ¬ ∃ ms, (owner, ms) ∈ y.1.strips b :=
    fun y hy h => stripped ⟨y, hy, h⟩
  by_cases equipped : ∃ x ∈ cs, ∃ ms, (owner, ms) ∈ x.1.equips b
  · obtain ⟨x, hx, ms, equipped⟩ := equipped
    rw [undone.owned_equipped b owner unstripped hx equipped,
      equips x hx ms equipped (unstripped x hx)]
  · exact undone.owned_untouched b owner unstripped fun y hy h => equipped ⟨y, hy, h⟩

/-- A foreign resource is there if it was. -/
theorem Undone.others {x : Resource} (foreign : Foreign tenantId x) :
    w'.resources.contains x = w.resources.contains x := by
  have settled := undone.settles (fun w => w.resources.contains x) false (fun _ => False)
    (fun y _ _ u => ⟨execute_foreign y.1 retry u foreign, undo_foreign y.1 retry u foreign⟩)
    (by simp) (by simp)
  exact settled.elim And.left fun ⟨_, _, _, h, _⟩ => h.elim

/-- The same resources are there exactly if the same modules are, and each application has the same. -/
theorem Undone.resources_iff :
    (∀ x, w'.resources.contains x = w.resources.contains x) ↔
      modules tenantId w' = modules tenantId w ∧
        ∀ b owner, owned tenantId b owner w' = owned tenantId b owner w := by
  constructor
  · intro same
    exact ⟨by simp [Ledger.modules, same], fun b owner => by simp [owned, same]⟩
  · rintro ⟨modules, belongings⟩ x
    by_cases module : ∃ id, x = moduleResource tenantId id
    · obtain ⟨id, rfl⟩ := module
      exact Bool.eq_iff_iff.mpr (Set.ext_iff.mp modules id)
    by_cases belonging : ∃ (b : Belonging) (owner name : String), x = b.resource tenantId owner name
    · obtain ⟨b, owner, name, rfl⟩ := belonging
      exact Bool.eq_iff_iff.mpr (Set.ext_iff.mp (belongings b owner) name)
    · exact undone.others ⟨fun id h => module ⟨id, h⟩, fun b owner name h =>
        belonging ⟨b, owner, name, h⟩⟩

end

/-! ## Entitlements -/

section

variable {σ : Type} {c : Collaborators σ} {v v' : σ} {ds : List (EntitlementStage × σ)}
  {id : String}

/-- A stage leaves an entitlement alone that it neither takes nor gives. -/
theorem entitled_untouched (keeps : c.KeepsEntitlements) (retry : RetryConfig) (tenantId : String)
    (untaken : id ∉ s.takes) (ungiven : id ∉ s.gives) (u : σ) :
    (c.Entitled (s.execute c retry tenantId u).2 tenantId id ↔ c.Entitled u tenantId id) ∧
      (c.Entitled (s.undo c retry tenantId u).2 tenantId id ↔ c.Entitled u tenantId id) := by
  rw [undo]
  constructor
  · cases ho : (s.execute c retry tenantId u).1 with
    | ok stored => simpa [untaken, ungiven] using (execute_moves keeps retry ho).1 tenantId id
    | error e => simpa using execute_stays keeps retry ho tenantId id
  · cases ho : (s.cancel c retry none tenantId u).1 with
    | ok stored => simpa [untaken, ungiven] using (cancel_moves keeps retry ho).1 tenantId id
    | error e => simpa using cancel_stays keeps retry ho tenantId id

/-- A stage that gives an entitlement for nothing cannot fail. -/
theorem succeeds_of_gives (given : id ∈ s.gives) (free : s.takes = []) (u : σ) :
    Succeeds c retry tenantId (s, u) := by
  cases s with
  | saveEntitlement => exact ⟨none, rfl⟩
  | updateEntitlement => simp [takes] at free
  | _ => simp [gives] at given

/-- An entitlement that every call takes that is to give it is as it was. -/
theorem Undone.entitled_of_taken (undone : Undone c retry tenantId v ds v')
    (keeps : c.KeepsEntitlements) (own : ∀ y ∈ ds, id ∈ y.1.gives → id ∈ y.1.takes) :
    c.Entitled v' tenantId id ↔ c.Entitled v tenantId id := by
  have settled := undone.settles (fun u => c.Entitled u tenantId id) True
    (fun s => id ∈ s.takes) ?_ ?_ ?_
  · rcases settled with ⟨same, -⟩ | ⟨back, y, hy, taken, ⟨stored, ok⟩, found⟩
    · exact iff_of_eq same
    · have there := ((execute_moves keeps retry ok).2 id taken).1
      exact iff_of_true (of_eq_true back) (found ▸ there)
  · intro y hy untaken u
    have kept := entitled_untouched keeps retry tenantId untaken
      (fun h => untaken (own y hy h)) u
    exact ⟨propext kept.1, propext kept.2⟩
  · intro y hy taken u e error
    simpa using execute_stays keeps retry error tenantId id
  · intro y hy taken u u₁ ok between undone
    have moves := (cancel_moves keeps retry undone).1 tenantId id
    exact eq_true (moves.mpr (.inl ⟨rfl, taken⟩))

/-- An entitlement that no call is to take is as it was exactly if it was not there before it has been
given for nothing. -/
theorem Undone.entitled_of_untaken (undone : Undone c retry tenantId v ds v')
    (keeps : c.KeepsEntitlements) (untaken : ∀ y ∈ ds, id ∉ y.1.takes) :
    (c.Entitled v' tenantId id ↔ c.Entitled v tenantId id) ↔
      ∀ y ∈ ds, id ∈ y.1.gives → y.1.takes = [] → ¬ c.Entitled v tenantId id := by
  have settled := undone.settles (fun u => c.Entitled u tenantId id) False
    (fun s => id ∈ s.gives) ?_ ?_ ?_
  · rcases settled with ⟨same, never⟩ | ⟨gone, y, hy, given, ⟨stored, ok⟩, found⟩
    · exact iff_of_true (iff_of_eq same) fun y hy given free =>
        absurd (succeeds_of_gives given free y.2) (never y hy given)
    · rw [iff_false_left (of_eq_false gone)]
      refine ⟨fun absent _ _ _ _ => absent, fun absent => ?_⟩
      cases ht : y.1.takes with
      | nil => exact absent y hy given ht
      | cons old rest =>
        -- An entitlement can be exchanged only for one that is not there.
        have taken : old ∈ y.1.takes := ht ▸ List.mem_cons_self
        have other : id ≠ old := fun h => untaken y hy (h ▸ taken)
        have absent := (((execute_moves keeps retry ok).2 old taken).2 id given).resolve_left other
        exact fun h => absent (found ▸ h)
  · intro y hy ungiven u
    have kept := entitled_untouched keeps retry tenantId (untaken y hy) ungiven u
    exact ⟨propext kept.1, propext kept.2⟩
  · intro y hy given u e error
    simpa using execute_stays keeps retry error tenantId id
  · intro y hy given u u₁ ok between undone
    have moves := (cancel_moves keeps retry undone).1 tenantId id
    exact eq_false fun h => by simpa [untaken y hy, given] using moves.mp h

/-- An entitlement is as it was exactly if it was not there before it has been given for nothing. -/
theorem Undone.entitled_iff (undone : Undone c retry tenantId v ds v')
    (keeps : c.KeepsEntitlements)
    (separate : ∀ x ∈ ds, ∀ y ∈ ds, id ∈ x.1.takes → id ∈ y.1.gives → id ∈ y.1.takes) :
    (c.Entitled v' tenantId id ↔ c.Entitled v tenantId id) ↔
      ∀ y ∈ ds, id ∈ y.1.gives → y.1.takes = [] → ¬ c.Entitled v tenantId id := by
  by_cases there : ∃ x ∈ ds, id ∈ x.1.takes
  · obtain ⟨x, hx, taken⟩ := there
    have own : ∀ y ∈ ds, id ∈ y.1.gives → id ∈ y.1.takes :=
      fun y hy given => separate x hx y hy taken given
    refine iff_of_true (undone.entitled_of_taken keeps own) fun y hy given free => ?_
    have taken := own y hy given
    rw [free] at taken
    exact absurd taken List.not_mem_nil
  · exact undone.entitled_of_untaken keeps fun y hy h => there ⟨y, hy, h⟩

end

end EntitlementStage

end Provisioning
