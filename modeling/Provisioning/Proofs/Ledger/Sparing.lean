import Provisioning.Proofs.Entitlement.Completion
import Provisioning.Proofs.Ledger.Balance

/-!
# Changes that overwrite nothing

A change overwrites a module if it puts that module in the place of another one although the module
is there. Changes that do not can be counted (`MakeAll.listed`), and undone for good
(`EntitlementStage.Spares.tried_modules`).
-/

namespace Provisioning

open Ledger

namespace ModuleChange

variable {c : ModuleChange} {cs ds : List ModuleChange} {M M₁ M' : Set String}
  {L : List String} {x : String}

/-- No change overwrites a module when its turn comes. -/
def SpareAll (cs : List ModuleChange) (M : Set String) : Prop :=
  ∀ ds c es M₁, cs = ds ++ c :: es → MakeAll ds M M₁ → ¬ c.Overwrites M₁

theorem spareAll_nil (M : Set String) : SpareAll [] M := by
  intro ds c es M₁ split
  simp at split

theorem spareAll_cons :
    SpareAll (c :: cs) M ↔ ¬ c.Overwrites M ∧ ∀ M₁, c.Makes M M₁ → SpareAll cs M₁ := by
  constructor
  · intro spare
    refine ⟨spare [] c cs M rfl (.nil M), fun M₁ made ds d es M₂ split before => ?_⟩
    exact spare (c :: ds) d es M₂ (by rw [split]; rfl) (.cons made before)
  · rintro ⟨here, later⟩ ds d es M₂ split before
    cases before with
    | nil =>
      obtain ⟨rfl, -⟩ := List.cons.inj split
      exact here
    | @cons e ds M M₁ M₂ made before =>
      obtain ⟨rfl, rest⟩ := List.cons.inj split
      exact later M₁ made ds d es M₂ rest before

theorem MakeAll.append (first : MakeAll cs M M₁) (second : MakeAll ds M₁ M') :
    MakeAll (cs ++ ds) M M' := by
  induction first with
  | nil => exact second
  | cons made _ ih => exact .cons made (ih second)

/-! ## Undoing -/

/-- Changes that overwrite nothing can be undone, which gives the same modules as before. -/
theorem MakeAll.back (made : MakeAll cs M M') (spare : SpareAll cs M) :
    MakeAll (inverses cs) M' M := by
  induction made with
  | nil M => exact .nil M
  | @cons c cs M M₁ M' first _ ih =>
    obtain ⟨here, later⟩ := spareAll_cons.mp spare
    obtain ⟨N, undone, same⟩ := first.back
    obtain rfl := same.mpr here
    rw [inverses, List.reverse_cons, List.map_append]
    exact (ih (later M₁ first)).append (.cons undone (.nil _))

/-- Changes that have been undone, which has given the same modules as before, overwrite nothing. -/
theorem MakeAll.spareAll (made : MakeAll cs M M') (back : MakeAll (inverses cs) M' M) :
    SpareAll cs M := by
  induction made with
  | nil M => exact spareAll_nil M
  | @cons c cs M M₁ M' first later ih =>
    rw [inverses, List.reverse_cons, List.map_append] at back
    obtain ⟨N₁, inner, last⟩ := back.of_append
    obtain _ | ⟨outer, _ | _⟩ := last
    -- Undoing the first change gives back what was there only if the others have been undone.
    obtain ⟨fewer, -⟩ := later.undone .rfl inner
    obtain rfl := (first.undone fewer outer).2 rfl
    obtain ⟨N, undone, same⟩ := first.back
    refine spareAll_cons.mpr ⟨same.mp (undone.unique outer), fun M₂ made => ?_⟩
    rw [made.unique first]
    exact ih inner

/-! ## Counting -/

/-- A list has each member of a set once. -/
structure Listed (M : Set String) (L : List String) : Prop where
  /-- Nothing is there twice. -/
  nodup : L.Nodup
  /-- It has the members of the set. -/
  mem_iff : ∀ x, x ∈ M ↔ x ∈ L

theorem Listed.perm {L' : List String} (listed : Listed M L) (perm : L.Perm L') : Listed M L' :=
  ⟨perm.nodup_iff.mp listed.nodup, fun x => (listed.mem_iff x).trans perm.mem_iff⟩

theorem Listed.insert (listed : Listed M L) (new : x ∉ M) : Listed (insert x M) (x :: L) := by
  refine ⟨List.nodup_cons.mpr ⟨fun h => new ((listed.mem_iff x).mpr h), listed.nodup⟩, fun y => ?_⟩
  rw [Set.mem_insert_iff, List.mem_cons, listed.mem_iff]

theorem Listed.erase (listed : Listed M L) (x : String) : Listed (M \ {x}) (L.erase x) := by
  refine ⟨listed.nodup.erase x, fun y => ?_⟩
  rw [Set.mem_sdiff, Set.mem_singleton_iff, listed.nodup.mem_erase_iff, listed.mem_iff, and_comm]

theorem count_erase_add {x y : String} (there : y ∈ L) :
    (L.erase y).count x + [y].count x = L.count x := by
  have counts := (List.perm_cons_erase there).count_eq x
  rw [← List.singleton_append, List.count_append] at counts
  omega

/-- A change that overwrites nothing adds what it enables and removes what it disables. -/
theorem Makes.listed (made : c.Makes M M') (spare : ¬ c.Overwrites M) (listed : Listed M L) :
    ∃ L', Listed M' L' ∧ ∀ x, L'.count x + c.disables.count x = L.count x + c.enables.count x := by
  have install {id : String} (made : id ∉ M ∧ M' = insert id M) :
      ∃ L', Listed M' L' ∧ ∀ x, L'.count x + [].count x = L.count x + [id].count x := by
    obtain ⟨new, rfl⟩ := made
    refine ⟨id :: L, listed.insert new, fun x => ?_⟩
    rw [← List.singleton_append, List.count_append, List.count_nil]
    omega
  obtain ⟨id, replaced, action⟩ := c
  cases action with
  | enable => exact install made
  | upgrade =>
    cases replaced with
    | none => exact install made
    | some old =>
      obtain ⟨there, rfl⟩ := made
      have member := (listed.mem_iff old).mp there
      by_cases same : id = old
      · subst same
        refine ⟨L, ?_, fun x => rfl⟩
        show Listed (insert id (M \ {id})) L
        rw [Set.insert_sdiff_self_of_mem there]
        exact listed
      · have new : id ∉ M \ {old} := fun h => spare ⟨rfl, old, rfl, there, h.1, same⟩
        refine ⟨id :: L.erase old, (listed.erase old).insert new, fun x => ?_⟩
        show List.count x ([id] ++ L.erase old) + [old].count x = L.count x + [id].count x
        have counts := count_erase_add (x := x) member
        rw [List.count_append]
        omega
  | disable =>
    obtain ⟨there, rfl⟩ := made
    exact ⟨L.erase id, listed.erase id, fun x => count_erase_add ((listed.mem_iff id).mp there)⟩

/-- What is there and is not disabled stays, and is not enabled again. -/
theorem Makes.kept (made : c.Makes M M') (spare : ¬ c.Overwrites M) (there : x ∈ M)
    (stays : x ∉ c.disables) : x ∈ M' ∧ x ∉ c.enables := by
  have install {id : String} (made : id ∉ M ∧ M' = insert id M) : x ∈ M' ∧ x ∉ [id] := by
    obtain ⟨new, rfl⟩ := made
    exact ⟨.inr there, fun h => new (List.mem_singleton.mp h ▸ there)⟩
  obtain ⟨id, replaced, action⟩ := c
  cases action with
  | enable => exact install made
  | upgrade =>
    cases replaced with
    | none => exact install made
    | some old =>
      obtain ⟨gone, rfl⟩ := made
      have other : x ≠ old := fun h => stays (List.mem_singleton.mpr h)
      refine ⟨.inr ⟨there, other⟩, fun h => ?_⟩
      obtain rfl := List.mem_singleton.mp h
      exact spare ⟨rfl, old, rfl, gone, there, other⟩
  | disable =>
    obtain ⟨-, rfl⟩ := made
    exact ⟨⟨there, fun h => stays (List.mem_singleton.mpr h)⟩, List.not_mem_nil⟩

theorem MakeAll.listed (made : MakeAll cs M M') (spare : SpareAll cs M) (listed : Listed M L) :
    ∃ L', Listed M' L' ∧ ∀ x, L'.count x + (cs.flatMap (·.disables)).count x
      = L.count x + (cs.flatMap (·.enables)).count x := by
  induction made generalizing L with
  | nil => exact ⟨L, listed, fun x => rfl⟩
  | @cons c cs M M₁ M' first _ ih =>
    obtain ⟨here, later⟩ := spareAll_cons.mp spare
    obtain ⟨L₁, listed₁, counts₁⟩ := first.listed here listed
    obtain ⟨L', listed', counts'⟩ := ih (later M₁ first) listed₁
    refine ⟨L', listed', fun x => ?_⟩
    have counts₁ := counts₁ x
    have counts' := counts' x
    rw [List.flatMap_cons, List.flatMap_cons, List.count_append, List.count_append]
    omega

theorem MakeAll.kept (made : MakeAll cs M M') (spare : SpareAll cs M) (there : x ∈ M)
    (stays : x ∉ cs.flatMap (·.disables)) : x ∈ M' ∧ x ∉ cs.flatMap (·.enables) := by
  induction made with
  | nil => exact ⟨there, List.not_mem_nil⟩
  | @cons c cs M M₁ M' first _ ih =>
    obtain ⟨here, later⟩ := spareAll_cons.mp spare
    rw [List.flatMap_cons, List.mem_append, not_or] at stays ⊢
    obtain ⟨there₁, unenabled⟩ := first.kept here there stays.1
    obtain ⟨there', others⟩ := ih (later M₁ first) there₁ stays.2
    exact ⟨there', unenabled, others⟩

end ModuleChange

/-! ## Calls -/

namespace Ledger

variable {retry : RetryConfig} {tenantId : String} {c : ModuleChange} {cs made : List ModuleChange}
  {s : Store} {M : Set String}

instance (tenantId : String) (s : Store) : DecidablePred (· ∈ modules tenantId s) :=
  fun id => inferInstanceAs (Decidable (s.resources.contains (moduleResource tenantId id) = true))

instance (c : ModuleChange) (M : Set String) [DecidablePred (· ∈ M)] : Decidable (c.Overwrites M) :=
  inferInstanceAs (Decidable (c.action = .upgrade ∧ ∃ old, old ∈ c.replaced ∧ old ∈ M ∧ c.id ∈ M ∧
    c.id ≠ old))

/-- Whether changes overwrite modules can be found out by making them. -/
theorem spareAll_cons_iff : ModuleChange.SpareAll (c :: cs) (modules tenantId s) ↔
    ¬ c.Overwrites (modules tenantId s) ∧ ((collaborators.applyChange tenantId c s).1 = .ok () →
      ModuleChange.SpareAll cs (modules tenantId (collaborators.applyChange tenantId c s).2)) := by
  rw [ModuleChange.spareAll_cons]
  refine and_congr_right fun _ => ?_
  rcases applyChange_spec tenantId c s with ⟨ok, makes⟩ | ⟨e, failed, -, stuck, -⟩
  · refine ⟨fun spare _ => spare _ makes, fun spare M₁ made => ?_⟩
    rw [made.unique makes]
    exact spare ok
  · refine ⟨fun _ ok => ?_, fun _ M₁ made => absurd made (stuck M₁)⟩
    rw [failed] at ok
    cases ok

instance decidableSpareAll (tenantId : String) : (cs : List ModuleChange) → (s : Store) →
    Decidable (ModuleChange.SpareAll cs (modules tenantId s))
  | [], _ => .isTrue (ModuleChange.spareAll_nil _)
  | c :: cs, s =>
    have := decidableSpareAll tenantId cs (collaborators.applyChange tenantId c s).2
    decidable_of_iff _ spareAll_cons_iff.symm

/-- Changes that can be made are made. -/
theorem changeAll_of_makeAll (can : ModuleChange.MakeAll cs (modules tenantId s) M) :
    (collaborators.changeAll retry tenantId made cs s).1 = .ok () ∧
      modules tenantId (collaborators.changeAll retry tenantId made cs s).2 = M := by
  induction cs generalizing made s with
  | nil =>
    cases can
    exact ⟨rfl, rfl⟩
  | cons c cs ih =>
    obtain _ | ⟨first, later⟩ := can
    rcases change_spec retry tenantId c s with ⟨ok, makes⟩ | ⟨e, -, stuck, -⟩
    · rw [Collaborators.changeAll_of_ok ok]
      rw [first.unique makes] at later
      exact ih later
    · exact absurd first (stuck _)

/-- Changes that overwrite nothing, and one of which fails, leave the modules as they were, if
reverting those made before does. -/
theorem changeAll_spare_error {e : StageError}
    (spare : ModuleChange.SpareAll cs (modules tenantId s))
    (reverts : ∀ u, modules tenantId u = modules tenantId s →
      modules tenantId (collaborators.revert retry tenantId u made) = M)
    (error : (collaborators.changeAll retry tenantId made cs s).1 = .error e) :
    modules tenantId (collaborators.changeAll retry tenantId made cs s).2 = M := by
  induction cs generalizing made s with
  | nil => simp [Collaborators.changeAll] at error
  | cons c cs ih =>
    obtain ⟨here, others⟩ := ModuleChange.spareAll_cons.mp spare
    rcases change_spec retry tenantId c s with ⟨first, makes⟩ | ⟨e', failed, -, kept⟩
    · rw [Collaborators.changeAll_of_ok first] at error ⊢
      refine ih (others _ makes) (fun u same => reverts _ ?_) error
      obtain ⟨N, undone, back⟩ := makes.back
      obtain rfl := back.mpr here
      rw [← same] at undone
      rcases change_spec retry tenantId c.inverse u with ⟨-, undone'⟩ | ⟨e, -, stuck, -⟩
      · exact undone'.unique undone
      · exact absurd undone (stuck _)
    · rw [Collaborators.changeAll_of_error failed]
      exact reverts _ kept

end Ledger

/-! ## Stages -/

namespace EntitlementStage

variable {s : EntitlementStage} {retry : RetryConfig} {tenantId : String} {w w' : Store}
  {cs : List (EntitlementStage × Store)} {L : List String} {x : String}

/-- A call of a stage for a tenant overwrites no module. -/
def Spares (tenantId : String) (s : EntitlementStage) (found : Store) : Prop :=
  ModuleChange.SpareAll s.changes (modules tenantId found)

instance (tenantId : String) (s : EntitlementStage) (found : Store) :
    Decidable (s.Spares tenantId found) :=
  decidableSpareAll tenantId s.changes found

/-- A call that overwrites nothing leaves the modules as they were when it is undone at once. -/
theorem Spares.tried_modules (spares : s.Spares tenantId w) (retry : RetryConfig) :
    modules tenantId (s.tried Ledger.collaborators retry tenantId w) = modules tenantId w := by
  cases ho : (s.execute Ledger.collaborators retry tenantId w).1 with
  | ok stored =>
    rw [tried_of_ok ho]
    have back := (execute_modules ho).back spares
    cases hs : s.changesModules with
    | false =>
      rw [(undo_hands hs retry tenantId _).modules, (execute_hands hs retry tenantId w).modules]
    | true =>
      rw [undo_changes hs]
      exact (changeAll_of_makeAll back).2
  | error e =>
    rw [tried_of_error ho]
    cases hs : s.changesModules with
    | false => rw [(execute_hands hs retry tenantId w).modules]
    | true =>
      obtain ⟨stored, h⟩ := execute_changes hs Ledger.collaborators retry tenantId w
      rw [h] at ho ⊢
      cases hc : (Ledger.collaborators.changeAll retry tenantId [] s.changes w).1 with
      | ok => simp [hc, Except.map] at ho
      | error e => exact changeAll_spare_error spares (fun u same => same) hc

/-- When calls that overwrite nothing have been undone, the modules are those that were there. -/
theorem Undone.same_modules (undone : Undone Ledger.collaborators retry tenantId w cs w')
    (spares : ∀ y ∈ cs, y.1.Spares tenantId y.2) : modules tenantId w' = modules tenantId w :=
  undone.fewer_modules.2.mpr fun y hy => (spares y hy).tried_modules retry

/-- A module that is there, and that no call disables, is there at each call, and no call that
succeeds enables it. -/
theorem Undone.kept (undone : Undone Ledger.collaborators retry tenantId w cs w')
    (spares : ∀ y ∈ cs, y.1.Spares tenantId y.2) (there : x ∈ modules tenantId w)
    (stays : ∀ y ∈ cs, x ∉ y.1.changes.flatMap (·.disables)) :
    ∀ y ∈ cs, Succeeds Ledger.collaborators retry tenantId y →
      x ∉ y.1.changes.flatMap (·.enables) := by
  induction undone with
  | nil => simp
  | @failed s w w' cs e error later ih =>
    rw [List.forall_mem_cons] at spares stays ⊢
    have same := spares.1.tried_modules retry
    rw [tried_of_error error] at same
    refine ⟨fun ⟨stored, ok⟩ => ?_, ih spares.2 (same ▸ there) stays.2⟩
    exact absurd (ok.symm.trans error) (by simp)
  | @pair s w w₁ w' cs ds stored ok inner undone later ihi ihl =>
    rw [List.forall_mem_cons, List.forall_mem_append] at spares stays ⊢
    obtain ⟨there₁, unenabled⟩ := (execute_modules ok).kept spares.1 there stays.1
    have same := (undo_modules_congr (inner.same_modules spares.2.1)).trans
      ((congrArg (modules tenantId) (tried_of_ok ok)).symm.trans (spares.1.tried_modules retry))
    exact ⟨fun _ => unenabled, ihi spares.2.1 there₁ stays.2.1,
      ihl spares.2.2 (same ▸ there) stays.2.2⟩

/-- Stages that succeed, and overwrite nothing, add what they enable and remove what they disable. -/
theorem Succeed.listed {ss : List EntitlementStage}
    (succeed : Succeed Ledger.collaborators retry tenantId ss w w')
    (spares : ∀ y ∈ trail Ledger.collaborators retry tenantId ss w, y.1.Spares tenantId y.2)
    (listed : ModuleChange.Listed (modules tenantId w) L) :
    ∃ L', ModuleChange.Listed (modules tenantId w') L' ∧
      ∀ x, L'.count x + ((ss.flatMap (·.changes)).flatMap (·.disables)).count x
        = L.count x + ((ss.flatMap (·.changes)).flatMap (·.enables)).count x := by
  induction succeed generalizing L with
  | nil => exact ⟨L, listed, fun x => rfl⟩
  | @cons s rest w w' stored ok later ih =>
    rw [trail, List.forall_mem_cons] at spares
    obtain ⟨L₁, listed₁, counts₁⟩ := (execute_modules ok).listed spares.1 listed
    obtain ⟨L', listed', counts'⟩ := ih spares.2 listed₁
    refine ⟨L', listed', fun x => ?_⟩
    have counts₁ := counts₁ x
    have counts' := counts' x
    rw [List.flatMap_cons, List.flatMap_append, List.flatMap_append, List.count_append,
      List.count_append]
    omega

end EntitlementStage

end Provisioning
