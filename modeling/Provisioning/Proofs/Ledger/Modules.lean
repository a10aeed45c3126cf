import Mathlib.Data.Set.Insert
import Mathlib.Order.BooleanAlgebra.Set
import Provisioning.Proofs.Entitlement.Undoing
import Provisioning.Proofs.Ledger.Calls

/-!
# The modules of a tenant in the ledger

A change makes one set of modules of another one (`change_spec`). Undoing changes on no more modules
than they left gives no more than were there before, and the same only if undoing started from the
same (`MakeAll.undone`). Nor do changes that fail leave more than were there (`changeAll_error`).
-/

namespace Provisioning

/-! ## Changes of sets -/

namespace ModuleChange

/-- A change makes one set of modules of another one. -/
def Makes (c : ModuleChange) (M M' : Set String) : Prop :=
  match c.action, c.replaced with
  | .enable, _ | .upgrade, none => c.id ∉ M ∧ M' = insert c.id M
  | .upgrade, some old => old ∈ M ∧ M' = insert c.id (M \ {old})
  | .disable, _ => c.id ∈ M ∧ M' = M \ {c.id}

/-- Changes make one set of modules of another one, one after another. -/
inductive MakeAll : List ModuleChange → Set String → Set String → Prop where
  /-- There is no change. -/
  | nil (M : Set String) : MakeAll [] M M
  /-- One change is made, and then the others. -/
  | cons {c : ModuleChange} {cs : List ModuleChange} {M M₁ M' : Set String} (made : c.Makes M M₁)
      (later : MakeAll cs M₁ M') : MakeAll (c :: cs) M M'

variable {c : ModuleChange} {cs : List ModuleChange} {M M' N N' : Set String}

theorem Makes.unique {M'' : Set String} (h : c.Makes M M') (h' : c.Makes M M'') : M' = M'' := by
  obtain ⟨id, replaced, action⟩ := c
  cases action with
  | enable | disable => exact h.2.trans h'.2.symm
  | upgrade => cases replaced <;> exact h.2.trans h'.2.symm

/-- Undoing a change on no more modules than it left gives no more modules than there were. They are
the same only if undoing started from the same. -/
theorem Makes.undone (made : c.Makes M M') (fewer : N ⊆ M') (undone : c.inverse.Makes N N') :
    N' ⊆ M ∧ (N' = M → N = M') := by
  obtain ⟨id, replaced, action⟩ := c
  have installed (made : id ∉ M ∧ M' = insert id M) (undone : id ∈ N ∧ N' = N \ {id}) :
      N' ⊆ M ∧ (N' = M → N = M') := by
    obtain ⟨-, rfl⟩ := made
    obtain ⟨there, rfl⟩ := undone
    refine ⟨Set.sdiff_singleton_subset_iff.mpr fewer, ?_⟩
    rintro rfl
    exact (Set.insert_sdiff_self_of_mem there).symm
  cases action with
  | enable => exact installed made undone
  | upgrade =>
    cases replaced with
    | none => exact installed made undone
    | some old =>
      obtain ⟨there, rfl⟩ := made
      obtain ⟨back, rfl⟩ := undone
      replace back : id ∈ N := back
      have others {x : String} (hx : x ∈ N) (hne : x ≠ id) : x ∈ M ∧ x ≠ old :=
        (fewer hx).resolve_left hne
      refine ⟨Set.insert_subset there fun x hx => (others hx.1 hx.2).1, fun same => ?_⟩
      refine fewer.antisymm (Set.insert_subset back fun x hx => ?_)
      rw [← same] at hx
      exact (hx.1.resolve_left hx.2).1
  | disable =>
    obtain ⟨there, rfl⟩ := made
    obtain ⟨gone, rfl⟩ := undone
    refine ⟨Set.insert_subset there (fewer.trans Set.sdiff_subset), ?_⟩
    rintro rfl
    exact (Set.insert_sdiff_self_of_notMem gone).symm

/-- A change that puts a module in the place of another one although it is there already. -/
def Overwrites (c : ModuleChange) (M : Set String) : Prop :=
  c.action = .upgrade ∧ ∃ old, c.replaced = some old ∧ old ∈ M ∧ c.id ∈ M ∧ c.id ≠ old

/-- A change that has been made can be undone. Undoing it at once gives the same modules as before
unless the change overwrites a module. -/
theorem Makes.back (made : c.Makes M M') :
    ∃ N, c.inverse.Makes M' N ∧ (N = M ↔ ¬ c.Overwrites M) := by
  obtain ⟨id, replaced, action⟩ := c
  have installed (made : id ∉ M ∧ M' = insert id M) : id ∈ M' ∧ M' \ {id} = M := by
    obtain ⟨new, rfl⟩ := made
    exact ⟨Set.mem_insert _ _, Set.insert_sdiff_self_of_notMem new⟩
  cases action with
  | enable =>
    obtain ⟨there, back⟩ := installed made
    exact ⟨_, ⟨there, rfl⟩, iff_of_true back (by simp [Overwrites])⟩
  | upgrade =>
    cases replaced with
    | none =>
      obtain ⟨there, back⟩ := installed made
      exact ⟨_, ⟨there, rfl⟩, iff_of_true back (by simp [Overwrites])⟩
    | some old =>
      obtain ⟨there, rfl⟩ := made
      have back : insert old (insert id (M \ {old}) \ {id}) = M ↔ ¬ (id ∈ M ∧ id ≠ old) := by
        constructor
        · rintro same ⟨present, other⟩
          rw [← same] at present
          exact (present.resolve_left other).2 rfl
        · intro free
          ext x
          by_cases hx : x = old
          · simp [hx, there]
          · have new : x ∈ M → x ≠ id := fun h heq => free (heq ▸ ⟨h, hx⟩)
            simp only [Set.mem_insert_iff, Set.mem_sdiff, Set.mem_singleton_iff, hx, false_or,
              not_false_eq_true, and_true]
            exact ⟨fun h => h.1.resolve_left h.2, fun h => ⟨.inr h, new h⟩⟩
      exact ⟨_, ⟨Set.mem_insert _ _, rfl⟩, back.trans (by simp [Overwrites, there])⟩
  | disable =>
    obtain ⟨there, rfl⟩ := made
    refine ⟨_, ⟨fun h => h.2 rfl, rfl⟩, iff_of_true ?_ (by simp [Overwrites])⟩
    exact Set.insert_sdiff_self_of_mem there

/-- Trying in vain to undo a change on no more modules than it left means that there are no more
than before. -/
theorem Makes.stuck (made : c.Makes M M') (fewer : N ⊆ M') (stuck : ∀ N', ¬ c.inverse.Makes N N') :
    N ⊆ M := by
  obtain ⟨id, replaced, action⟩ := c
  have installed (made : id ∉ M ∧ M' = insert id M) (stuck : id ∉ N) : N ⊆ M := by
    obtain ⟨-, rfl⟩ := made
    exact (Set.subset_insert_iff_of_notMem stuck).mp fewer
  cases action with
  | enable => exact installed made fun there => stuck _ ⟨there, rfl⟩
  | upgrade =>
    cases replaced with
    | none => exact installed made fun there => stuck _ ⟨there, rfl⟩
    | some old =>
      obtain ⟨-, rfl⟩ := made
      have gone : id ∉ N := fun there => stuck _ ⟨there, rfl⟩
      exact ((Set.subset_insert_iff_of_notMem gone).mp fewer).trans Set.sdiff_subset
  | disable =>
    obtain ⟨-, rfl⟩ := made
    exact fewer.trans Set.sdiff_subset

theorem MakeAll.of_append {ds : List ModuleChange} (made : MakeAll (cs ++ ds) M M') :
    ∃ M₁, MakeAll cs M M₁ ∧ MakeAll ds M₁ M' := by
  induction cs generalizing M with
  | nil => exact ⟨M, .nil M, made⟩
  | cons c cs ih =>
    obtain _ | ⟨first, later⟩ := made
    obtain ⟨M₁, left, right⟩ := ih later
    exact ⟨M₁, .cons first left, right⟩

/-- What holds of one change that is undone holds of several changes. -/
theorem MakeAll.undone (made : MakeAll cs M M') (fewer : N ⊆ M')
    (undone : MakeAll (inverses cs) N N') : N' ⊆ M ∧ (N' = M → N = M') := by
  induction made generalizing N' with
  | nil =>
    obtain _ | _ := undone
    exact ⟨fewer, fun same => same⟩
  | @cons c cs M M₁ M' first _ ih =>
    rw [inverses, List.reverse_cons, List.map_append] at undone
    obtain ⟨N₁, inner, last⟩ := undone.of_append
    obtain _ | ⟨outer, _ | _⟩ := last
    obtain ⟨fewer₁, same₁⟩ := ih fewer inner
    obtain ⟨fewer', same'⟩ := first.undone fewer₁ outer
    exact ⟨fewer', fun same => same₁ (same' same)⟩

end ModuleChange

/-! ## Calls -/

namespace Ledger

/-- The modules that a tenant has. -/
def modules (tenantId : String) (s : Store) : Set String :=
  {id | s.resources.contains (moduleResource tenantId id)}

variable {tenantId : String}

theorem moduleResource_inj {id id' : String} :
    moduleResource tenantId id = moduleResource tenantId id' ↔ id = id' :=
  ⟨congrArg Resource.name, congrArg _⟩

theorem modules_insertResource (id : String) (s : Store) :
    modules tenantId (s.insertResource (moduleResource tenantId id)).2
      = insert id (modules tenantId s) := by
  ext x
  simp [modules, Store.contains_insertResource, moduleResource_inj]

theorem modules_deleteResource (id : String) (s : Store) :
    modules tenantId (s.deleteResource (moduleResource tenantId id)).2
      = modules tenantId s \ {id} := by
  ext x
  simp [modules, Store.contains_deleteResource, moduleResource_inj, and_comm]

/-- A change is made, or it cannot be made, whether or not it is tried again, and leaves modules as
they are. -/
theorem applyChange_spec (tenantId : String) (c : ModuleChange) (s : Store) :
    ((collaborators.applyChange tenantId c s).1 = .ok () ∧
        c.Makes (modules tenantId s) (modules tenantId (collaborators.applyChange tenantId c s).2)) ∨
      ∃ e, (collaborators.applyChange tenantId c s).1 = .error e ∧ e.isRetryable = false ∧
        (∀ M, ¬ c.Makes (modules tenantId s) M) ∧
        modules tenantId (collaborators.applyChange tenantId c s).2 = modules tenantId s := by
  obtain ⟨id, replaced, action⟩ := c
  have installs : ((install tenantId id s).1 = .ok () ∧ id ∉ modules tenantId s ∧
        modules tenantId (install tenantId id s).2 = insert id (modules tenantId s)) ∨
      ∃ e, (install tenantId id s).1 = .error e ∧ e.isRetryable = false ∧
        (∀ M, ¬ (id ∉ modules tenantId s ∧ M = insert id (modules tenantId s))) ∧
        modules tenantId (install tenantId id s).2 = modules tenantId s := by
    rw [install_outcome, install_store, modules_insertResource]
    by_cases there : s.resources.contains (moduleResource tenantId id)
    · exact .inr ⟨_, if_pos there, rfl, fun M h => h.1 there, Set.insert_eq_of_mem there⟩
    · exact .inl ⟨if_neg there, there, rfl⟩
  cases action with
  | enable => exact installs
  | upgrade =>
    cases replaced with
    | none => exact installs
    | some old =>
      have outcome := upgrade_outcome tenantId old id s
      have store := upgrade_store tenantId old id s
      by_cases there : s.resources.contains (moduleResource tenantId old)
      · rw [if_pos there] at outcome store
        refine .inl ⟨outcome, there, ?_⟩
        refine (congrArg (modules tenantId) store).trans ?_
        rw [modules_insertResource, modules_deleteResource]
      · rw [if_neg there] at outcome store
        exact .inr ⟨_, outcome, rfl, fun M h => there h.1, congrArg (modules tenantId) store⟩
  | disable =>
    have outcome := uninstall_outcome tenantId id s
    have store := (congrArg (modules tenantId) (uninstall_store tenantId id s)).trans
      (modules_deleteResource id s)
    by_cases there : s.resources.contains (moduleResource tenantId id)
    · rw [if_pos there] at outcome
      exact .inl ⟨outcome, there, store⟩
    · rw [if_neg there] at outcome
      exact .inr ⟨_, outcome, rfl, fun M h => there h.1,
        store.trans (Set.sdiff_singleton_eq_self there)⟩

/-- A call whose error is final is made once. -/
theorem attempt_of_final {σ α : Type} {call : Call σ α} {w : σ} (retry : RetryConfig)
    (final : ∀ e, (call w).1 = .error e → e.isRetryable = false) (failure : String) :
    Collaborators.attempt retry failure call w
      = ((call w).1.mapError fun e => .integration failure (some e.message), (call w).2) := by
  have once (left : Nat) : (retry.tryFrom call w 0 left).result = some (call w).1 ∧
      (retry.tryFrom call w 0 left).world = (call w).2 := by
    cases left with
    | zero => exact ⟨rfl, rfl⟩
    | succ left =>
      rw [RetryConfig.tryFrom]
      split
      · rename_i hc
        simp [hc]
      · rename_i e w' hc
        simp [hc, final e (by rw [hc])]
  obtain ⟨result, world⟩ := once (retry.attempts - 1)
  simp only [Collaborators.attempt, RetryConfig.run, result, world]
  cases (call w).1 <;> rfl

/-- A change is made at the first attempt or not at all. -/
theorem change_eq (retry : RetryConfig) (tenantId : String) (c : ModuleChange) (s : Store) :
    collaborators.change retry tenantId c s
      = ((collaborators.applyChange tenantId c s).1.mapError fun e =>
          .integration (Collaborators.changeFailure c) (some e.message),
        (collaborators.applyChange tenantId c s).2) := by
  refine attempt_of_final retry (fun e error => ?_) _
  rcases applyChange_spec tenantId c s with ⟨ok, -⟩ | ⟨e', error', final, -⟩
  · rw [ok] at error
    cases error
  · rw [error'] at error
    cases error
    exact final

/-- What comes of a single change. -/
theorem change_spec (retry : RetryConfig) (tenantId : String) (c : ModuleChange) (s : Store) :
    ((collaborators.change retry tenantId c s).1 = .ok () ∧ c.Makes (modules tenantId s)
        (modules tenantId (collaborators.change retry tenantId c s).2)) ∨
      ∃ e, (collaborators.change retry tenantId c s).1 = .error e ∧
        (∀ M, ¬ c.Makes (modules tenantId s) M) ∧
        modules tenantId (collaborators.change retry tenantId c s).2 = modules tenantId s := by
  rw [change_eq]
  rcases applyChange_spec tenantId c s with ⟨ok, made⟩ | ⟨e, error, -, stuck, same⟩
  · exact .inl ⟨by rw [ok]; rfl, made⟩
  · exact .inr ⟨_, by rw [error]; rfl, stuck, same⟩

variable {retry : RetryConfig} {c : ModuleChange} {cs made : List ModuleChange} {s s' : Store}

/-- A change depends only on the modules that are there. -/
theorem change_congr (retry : RetryConfig) (c : ModuleChange)
    (same : modules tenantId s = modules tenantId s') :
    ((collaborators.change retry tenantId c s).1 = .ok () ↔
        (collaborators.change retry tenantId c s').1 = .ok ()) ∧
      modules tenantId (collaborators.change retry tenantId c s).2
        = modules tenantId (collaborators.change retry tenantId c s').2 := by
  have spec := change_spec retry tenantId c s
  have spec' := change_spec retry tenantId c s'
  rw [same] at spec
  rcases spec with ⟨ok, makes⟩ | ⟨e, error, stuck, kept⟩
  · rcases spec' with ⟨ok', makes'⟩ | ⟨e, -, stuck, -⟩
    · exact ⟨by simp [ok, ok'], makes.unique makes'⟩
    · exact absurd makes (stuck _)
  · rcases spec' with ⟨-, makes'⟩ | ⟨e', error', -, kept'⟩
    · exact absurd makes' (stuck _)
    · exact ⟨by simp [error, error'], kept.trans kept'.symm⟩

theorem revert_congr (same : modules tenantId s = modules tenantId s') :
    modules tenantId (collaborators.revert retry tenantId s made)
      = modules tenantId (collaborators.revert retry tenantId s' made) := by
  induction made generalizing s s' with
  | nil => exact same
  | cons c made ih => exact ih (change_congr retry c.inverse same).2

end Ledger

namespace Collaborators

variable {σ : Type} {c : Collaborators σ} {retry : RetryConfig} {tenantId : String}
  {made rest : List ModuleChange} {change : ModuleChange} {w : σ}

theorem changeAll_of_ok (ok : (c.change retry tenantId change w).1 = .ok ()) :
    c.changeAll retry tenantId made (change :: rest) w
      = c.changeAll retry tenantId (change :: made) rest (c.change retry tenantId change w).2 := by
  rw [changeAll]
  split <;> rename_i h <;> simp_all

theorem changeAll_of_error {e : StageError}
    (error : (c.change retry tenantId change w).1 = .error e) :
    c.changeAll retry tenantId made (change :: rest) w
      = (.error e, c.revert retry tenantId (c.change retry tenantId change w).2 made) := by
  rw [changeAll]
  split <;> rename_i h <;> simp_all

/-- A single change needs no reverting. -/
theorem changeAll_singleton :
    c.changeAll retry tenantId [] [change] w = c.change retry tenantId change w := by
  cases h : (c.change retry tenantId change w).1 with
  | ok => rw [changeAll_of_ok h, changeAll, ← h]
  | error e => rw [changeAll_of_error h, revert, ← h]

end Collaborators

namespace Ledger

variable {tenantId : String} {retry : RetryConfig} {c : ModuleChange}
  {cs made : List ModuleChange} {s s' : Store}

/-- Changes depend only on the modules that are there. -/
theorem changeAll_congr (same : modules tenantId s = modules tenantId s') :
    modules tenantId (collaborators.changeAll retry tenantId made cs s).2
      = modules tenantId (collaborators.changeAll retry tenantId made cs s').2 := by
  induction cs generalizing made s s' with
  | nil => exact same
  | cons c cs ih =>
    obtain ⟨outcome, later⟩ := change_congr retry c same
    cases h : (collaborators.change retry tenantId c s).1 with
    | ok =>
      rw [Collaborators.changeAll_of_ok h, Collaborators.changeAll_of_ok (outcome.mp h)]
      exact ih later
    | error e =>
      cases h' : (collaborators.change retry tenantId c s').1 with
      | ok => simp [outcome.mpr h'] at h
      | error e' =>
        rw [Collaborators.changeAll_of_error h, Collaborators.changeAll_of_error h']
        exact revert_congr later

/-- Changes that succeed are made. -/
theorem changeAll_ok (ok : (collaborators.changeAll retry tenantId made cs s).1 = .ok ()) :
    ModuleChange.MakeAll cs (modules tenantId s)
      (modules tenantId (collaborators.changeAll retry tenantId made cs s).2) := by
  induction cs generalizing made s with
  | nil => exact .nil _
  | cons c cs ih =>
    rcases change_spec retry tenantId c s with ⟨first, makes⟩ | ⟨e, error, -, -⟩
    · rw [Collaborators.changeAll_of_ok first] at ok ⊢
      exact .cons makes (ih ok)
    · simp [Collaborators.changeAll_of_error error] at ok

/-- Changes one of which fails leave no more modules than there were, if reverting those made before
does. -/
theorem changeAll_error {M : Set String} {e : StageError}
    (reverts : ∀ u, modules tenantId u ⊆ modules tenantId s →
      modules tenantId (collaborators.revert retry tenantId u made) ⊆ M)
    (error : (collaborators.changeAll retry tenantId made cs s).1 = .error e) :
    modules tenantId (collaborators.changeAll retry tenantId made cs s).2 ⊆ M := by
  induction cs generalizing made s with
  | nil => simp [Collaborators.changeAll] at error
  | cons c cs ih =>
    rcases change_spec retry tenantId c s with ⟨first, makes⟩ | ⟨e', failed, -, kept⟩
    · rw [Collaborators.changeAll_of_ok first] at error ⊢
      refine ih (fun u fewer => reverts _ ?_) error
      rcases change_spec retry tenantId c.inverse u with ⟨-, undone⟩ | ⟨e, -, stuck, kept⟩
      · exact (makes.undone fewer undone).1
      · rw [kept]
        exact makes.stuck fewer stuck
    · rw [Collaborators.changeAll_of_error failed]
      exact reverts _ kept.subset

/-- A change leaves everything else alone. -/
theorem applyChange_others {x : Resource} (other : ∀ id, x ≠ moduleResource tenantId id)
    (c : ModuleChange) (s : Store) :
    (collaborators.applyChange tenantId c s).2.resources.contains x = s.resources.contains x := by
  rw [Bool.eq_iff_iff]
  obtain ⟨id, replaced, action⟩ := c
  have installs : (install tenantId id s).2.resources.contains x ↔ s.resources.contains x := by
    rw [install_store, Store.contains_insertResource]
    exact or_iff_right (other id)
  cases action with
  | enable => exact installs
  | upgrade =>
    cases replaced with
    | none => exact installs
    | some old =>
      have store := upgrade_store tenantId old id s
      change (upgrade tenantId old id s).2.resources.contains x ↔ _
      rw [store]
      split
      · rw [Store.contains_insertResource, Store.contains_deleteResource]
        simp [other]
      · rfl
  | disable =>
    change (uninstall tenantId id s).2.resources.contains x ↔ _
    rw [uninstall_store, Store.contains_deleteResource]
    exact and_iff_right (other id)

end Ledger

/-! ## Stages -/

namespace EntitlementStage

/-- The changes of modules that the stage makes. -/
def changes : EntitlementStage → List ModuleChange
  | module change => [change]
  | installBatch changes | uninstallBatch changes => changes
  | deprecatedModules moduleIds => moduleIds.map .disable
  | _ => []

variable {σ : Type} {s : EntitlementStage} (h : s.changesModules) (c : Collaborators σ)
  (retry : RetryConfig) (tenantId : String) (w : σ)

include h

theorem execute_changes : ∃ stored, s.execute c retry tenantId w =
    ((c.changeAll retry tenantId [] s.changes w).1.map fun _ => stored,
      (c.changeAll retry tenantId [] s.changes w).2) := by
  cases s with
  | module change =>
    rw [changes, Collaborators.changeAll_singleton]
    exact ⟨none, rfl⟩
  | installBatch | uninstallBatch => exact ⟨none, rfl⟩
  | deprecatedModules ms => exact ⟨some (.ofTexts ms), rfl⟩
  | _ => simp [changesModules, makesChanges] at h

theorem undo_changes : s.undo c retry tenantId w =
    ((c.changeAll retry tenantId [] (ModuleChange.inverses s.changes) w).1.map fun _ => none,
      (c.changeAll retry tenantId [] (ModuleChange.inverses s.changes) w).2) := by
  cases s with
  | module change =>
    rw [changes, show ModuleChange.inverses [change] = [change.inverse] from rfl,
      Collaborators.changeAll_singleton]
    rfl
  | installBatch | uninstallBatch => rfl
  | deprecatedModules ms =>
    have inverses : ModuleChange.inverses (ms.map .disable) = ms.reverse.map .enable := by
      rw [ModuleChange.inverses, ← List.map_reverse, List.map_map]
      rfl
    rw [changes, inverses]
    rfl
  | _ => simp [changesModules, makesChanges] at h

end EntitlementStage

end Provisioning
