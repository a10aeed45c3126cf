import Provisioning.Proofs.Ledger.Modules

/-!
# Undoing changes exactly

A change that is declined leaves the store as it is, and a change that enables or disables a module
and is then undone does so as well: not only the modules are those that were there, but everything
is. Changes of this kind one of which is declined therefore leave no trace (`changeAll_exact`).
-/

namespace Provisioning

/-- A change that enables or disables a module. -/
def ModuleChange.Simple (c : ModuleChange) : Prop := c.action ≠ .upgrade

namespace Collaborators

variable {σ : Type} (c : Collaborators σ) (retry : RetryConfig) (tenantId : String)

/-- Changes that are made one after another lead from one world to another one. -/
inductive Made : List ModuleChange → σ → σ → Prop where
  /-- There is no change. -/
  | nil (w : σ) : Made [] w w
  /-- One change is made, and then the others. -/
  | cons {change : ModuleChange} {rest : List ModuleChange} {w w' : σ}
      (ok : (c.change retry tenantId change w).1 = .ok ())
      (later : Made rest (c.change retry tenantId change w).2 w') : Made (change :: rest) w w'

variable {c retry tenantId} {changes cs made : List ModuleChange} {w w₁ w' : σ}

theorem Made.append (first : c.Made retry tenantId cs w w₁)
    (second : c.Made retry tenantId changes w₁ w') :
    c.Made retry tenantId (cs ++ changes) w w' := by
  induction first with
  | nil => exact second
  | cons ok _ ih => exact .cons ok (ih second)

theorem Made.of_append (h : c.Made retry tenantId (cs ++ changes) w w') :
    ∃ w₁, c.Made retry tenantId cs w w₁ ∧ c.Made retry tenantId changes w₁ w' := by
  induction cs generalizing w with
  | nil => exact ⟨w, .nil w, h⟩
  | cons change cs ih =>
    obtain _ | ⟨ok, later⟩ := h
    obtain ⟨w₁, first, second⟩ := ih later
    exact ⟨w₁, .cons ok first, second⟩

theorem Made.unique {w'' : σ} (h : c.Made retry tenantId cs w w')
    (h' : c.Made retry tenantId cs w w'') : w' = w'' := by
  induction h with
  | nil =>
    cases h'
    rfl
  | cons _ _ ih =>
    obtain _ | ⟨-, later⟩ := h'
    exact ih later

/-- Changes that can be made are made. -/
theorem Made.changeAll (h : c.Made retry tenantId cs w w') :
    c.changeAll retry tenantId made cs w = (.ok (), w') := by
  induction h generalizing made with
  | nil => rfl
  | cons ok _ ih =>
    rw [changeAll_of_ok ok]
    exact ih

end Collaborators

namespace Ledger

variable {retry : RetryConfig} {tenantId : String} {c : ModuleChange} {cs made : List ModuleChange}
  {s s' : Store}

/-! ## One change -/

theorem change_ok_iff : (collaborators.change retry tenantId c s).1 = .ok () ↔
    (collaborators.applyChange tenantId c s).1 = .ok () := by
  rw [change_eq, Except.mapError_eq_ok]

/-- A change that is declined leaves everything as it is. -/
theorem change_declined {e : StageError}
    (error : (collaborators.change retry tenantId c s).1 = .error e) :
    (collaborators.change retry tenantId c s).2 = s := by
  have declined : (collaborators.applyChange tenantId c s).1 ≠ .ok () := by
    intro ok
    rw [change_ok_iff.mpr ok] at error
    cases error
  rw [change_eq]
  obtain ⟨id, replaced, action⟩ := c
  have installs (declined : (install tenantId id s).1 ≠ .ok ()) :
      (install tenantId id s).2 = s := by
    rw [install_outcome] at declined
    rw [install_store]
    refine Store.insertResource_of_contains ?_
    by_contra absent
    exact declined (if_neg absent)
  cases action with
  | enable => exact installs declined
  | upgrade =>
    cases replaced with
    | none => exact installs declined
    | some old =>
      replace declined : (upgrade tenantId old id s).1 ≠ .ok () := declined
      show (upgrade tenantId old id s).2 = s
      rw [upgrade_outcome] at declined
      rw [upgrade_store]
      exact if_neg fun there => declined (if_pos there)
  | disable =>
    replace declined : (uninstall tenantId id s).1 ≠ .ok () := declined
    show (uninstall tenantId id s).2 = s
    rw [uninstall_outcome] at declined
    rw [uninstall_store]
    exact Store.deleteResource_of_not_contains fun there => declined (if_pos there)

/-- A change that enables or disables a module can be undone at once, which leaves no trace. -/
theorem change_back (simple : c.Simple)
    (ok : (collaborators.change retry tenantId c s).1 = .ok ()) :
    collaborators.Made retry tenantId [c.inverse]
      (collaborators.change retry tenantId c s).2 s := by
  suffices back : (collaborators.applyChange tenantId c.inverse
        (collaborators.applyChange tenantId c s).2).1 = .ok () ∧
      (collaborators.applyChange tenantId c.inverse
        (collaborators.applyChange tenantId c s).2).2 = s by
    have last : collaborators.Made retry tenantId [] (collaborators.change retry tenantId c.inverse
        (collaborators.change retry tenantId c s).2).2 s := by
      rw [change_eq, change_eq]
      dsimp only
      rw [back.2]
      exact .nil s
    refine .cons ?_ last
    rw [change_ok_iff, change_eq]
    exact back.1
  rw [change_ok_iff] at ok
  obtain ⟨id, replaced, action⟩ := c
  cases action with
  | enable =>
    replace ok : (install tenantId id s).1 = .ok () := ok
    show (uninstall tenantId id (install tenantId id s).2).1 = .ok () ∧
      (uninstall tenantId id (install tenantId id s).2).2 = s
    have absent : ¬s.resources.contains (moduleResource tenantId id) := by
      intro there
      rw [install_outcome, if_pos there] at ok
      cases ok
    rw [uninstall_outcome, uninstall_store, install_store,
      Store.deleteResource_insertResource absent]
    exact ⟨if_pos ((s.contains_insertResource _ _).mpr (.inl rfl)), rfl⟩
  | upgrade => exact absurd rfl simple
  | disable =>
    replace ok : (uninstall tenantId id s).1 = .ok () := ok
    show (install tenantId id (uninstall tenantId id s).2).1 = .ok () ∧
      (install tenantId id (uninstall tenantId id s).2).2 = s
    have there : s.resources.contains (moduleResource tenantId id) := by
      by_contra absent
      rw [uninstall_outcome, if_neg absent] at ok
      cases ok
    rw [install_outcome, install_store, uninstall_store, Store.insertResource_deleteResource there]
    exact ⟨if_neg fun h => ((s.contains_deleteResource _ _).mp h).1 rfl, rfl⟩

/-! ## Several changes -/

/-- Changes that have been made can be undone, last first, which leaves no trace. -/
theorem made_back (made : collaborators.Made retry tenantId cs s s')
    (simple : ∀ c ∈ cs, c.Simple) :
    collaborators.Made retry tenantId (ModuleChange.inverses cs) s' s := by
  induction made with
  | nil s => exact .nil s
  | cons ok _ ih =>
    rw [List.forall_mem_cons] at simple
    rw [ModuleChange.inverses, List.reverse_cons, List.map_append]
    exact (ih simple.2).append (change_back simple.1 ok)

/-- Which changes can be made depends only on the modules that are there. -/
theorem made_transfer {u : Store} (made : collaborators.Made retry tenantId cs s s')
    (same : modules tenantId u = modules tenantId s) :
    ∃ u', collaborators.Made retry tenantId cs u u' ∧
      modules tenantId u' = modules tenantId s' := by
  induction made generalizing u with
  | nil => exact ⟨u, .nil u, same⟩
  | @cons c cs s s' ok _ ih =>
    obtain ⟨outcome, after⟩ := change_congr retry c same
    obtain ⟨u', later, modules⟩ := ih after
    exact ⟨u', .cons (outcome.mpr ok) later, modules⟩

/-- Either all changes are made, or one of them is declined and those made before it are undone,
which leaves no trace. -/
theorem changeAll_exact (retry : RetryConfig) (tenantId : String) (simple : ∀ c ∈ cs, c.Simple)
    (s : Store) :
    (∃ s', collaborators.Made retry tenantId cs s s') ∨
      (¬ ∃ s', collaborators.Made retry tenantId cs s s') ∧
        ∃ e, collaborators.changeAll retry tenantId [] cs s = (.error e, s) := by
  suffices general : ∀ {first : Store} (made : List ModuleChange) (s : Store),
      collaborators.revert retry tenantId s made = first →
      (∃ s', collaborators.Made retry tenantId cs s s') ∨
        (¬ ∃ s', collaborators.Made retry tenantId cs s s') ∧
          ∃ e, collaborators.changeAll retry tenantId made cs s = (.error e, first) from
    general [] s rfl
  intro first made s reverted
  induction cs generalizing made s with
  | nil => exact .inl ⟨s, .nil s⟩
  | cons c cs ih =>
    rw [List.forall_mem_cons] at simple
    cases h : (collaborators.change retry tenantId c s).1 with
    | ok =>
      rw [Collaborators.changeAll_of_ok h]
      have back : collaborators.revert retry tenantId (collaborators.change retry tenantId c s).2
          (c :: made) = first := by
        obtain _ | ⟨-, later⟩ := change_back simple.1 h
        rw [Collaborators.revert, ← later.unique (.nil _)]
        exact reverted
      rcases ih simple.2 _ _ back with ⟨s', later⟩ | ⟨cannot, e, error⟩
      · exact .inl ⟨s', .cons h later⟩
      · refine .inr ⟨?_, e, error⟩
        rintro ⟨s', _ | ⟨-, later⟩⟩
        exact cannot ⟨s', later⟩
    | error e =>
      refine .inr ⟨?_, e, ?_⟩
      · rintro ⟨s', _ | ⟨ok, -⟩⟩
        rw [h] at ok
        cases ok
      · rw [Collaborators.changeAll_of_error h, change_declined h, reverted]

end Ledger

end Provisioning
