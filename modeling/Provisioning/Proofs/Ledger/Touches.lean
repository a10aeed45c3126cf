import Provisioning.Proofs.Ledger.Modules

/-!
# What changes do to one module

A change touches the modules that it names and no others. Changes make one set of modules of another
one exactly if, for each module by itself, what they do to it can be done in their order and leads
from its being there or not to its being there or not (`makeAll_iff`).
-/

namespace Provisioning

/-- What a change does to one module. -/
inductive Touch where
  /-- It is enabled, and may not be there before. -/
  | enable
  /-- It is put in the place of another one, whether or not it is there. -/
  | put
  /-- It is taken away, and has to be there. -/
  | take
deriving DecidableEq

namespace Touch

/-- Touches can follow one another, if the first proposition says whether the module is there at
first. The second one says then whether it is there in the end. -/
def Lead : List Touch → Prop → Prop → Prop
  | [], p, q => p ↔ q
  | enable :: rest, p, q => ¬p ∧ Lead rest True q
  | put :: rest, _, q => Lead rest True q
  | take :: rest, p, q => p ∧ Lead rest False q

variable {ts us : List Touch} {p q : Prop}

theorem lead_append : Lead (ts ++ us) p q ↔ ∃ r, Lead ts p r ∧ Lead us r q := by
  induction ts generalizing p with
  | nil =>
    constructor
    · intro later
      exact ⟨p, .rfl, later⟩
    · rintro ⟨r, same, later⟩
      rwa [propext same]
  | cons t ts ih => cases t <;> simp [Lead, ih, and_assoc]

/-- What has to be there each time can be taken away once. -/
theorem lead_takes {n : Nat} : Lead (List.replicate n take ++ us) p q ↔
    (n = 0 ∧ Lead us p q) ∨ (n = 1 ∧ p ∧ Lead us False q) := by
  match n with
  | 0 => simp
  | 1 => simp [Lead]
  | n + 2 => simp [List.replicate_succ, Lead]

end Touch

namespace ModuleChange

/-- What a change does to a module. -/
def touches (x : String) (c : ModuleChange) : List Touch :=
  match c.action, c.replaced with
  | .enable, _ | .upgrade, none => if c.id = x then [.enable] else []
  | .upgrade, some old => (if old = x then [.take] else []) ++ if c.id = x then [.put] else []
  | .disable, _ => if c.id = x then [.take] else []

variable {c : ModuleChange} {cs : List ModuleChange} {M M' : Set String}

theorem insert_iff_lead {id : String} : (id ∉ M ∧ M' = insert id M) ↔
    ∀ x, Touch.Lead (if id = x then [.enable] else []) (x ∈ M) (x ∈ M') := by
  constructor
  · rintro ⟨absent, rfl⟩ x
    by_cases here : id = x
    · subst here
      simp [Touch.Lead, absent]
    · simp [Touch.Lead, here, Ne.symm here]
  · intro each
    have own : id ∉ M ∧ id ∈ M' := by simpa [Touch.Lead] using each id
    refine ⟨own.1, Set.ext fun x => ?_⟩
    by_cases here : id = x
    · subst here
      simp [own.2]
    · have kept : x ∈ M ↔ x ∈ M' := by simpa [Touch.Lead, here] using each x
      simp [← kept, Ne.symm here]

theorem erase_iff_lead {id : String} : (id ∈ M ∧ M' = M \ {id}) ↔
    ∀ x, Touch.Lead (if id = x then [.take] else []) (x ∈ M) (x ∈ M') := by
  constructor
  · rintro ⟨there, rfl⟩ x
    by_cases here : id = x
    · subst here
      simp [Touch.Lead, there]
    · simp [Touch.Lead, here, Ne.symm here]
  · intro each
    have own : id ∈ M ∧ id ∉ M' := by simpa [Touch.Lead] using each id
    refine ⟨own.1, Set.ext fun x => ?_⟩
    by_cases here : id = x
    · subst here
      simp [own.2]
    · have kept : x ∈ M ↔ x ∈ M' := by simpa [Touch.Lead, here] using each x
      simp [← kept, Ne.symm here]

theorem exchange_iff_lead {old id : String} : (old ∈ M ∧ M' = insert id (M \ {old})) ↔
    ∀ x, Touch.Lead ((if old = x then [.take] else []) ++ if id = x then [.put] else [])
      (x ∈ M) (x ∈ M') := by
  constructor
  · rintro ⟨there, rfl⟩ x
    by_cases goes : old = x <;> by_cases comes : id = x <;>
      simp_all [Touch.Lead, eq_comm]
  · intro each
    have there : old ∈ M := by
      have own := each old
      simp only [if_true, List.singleton_append, Touch.Lead] at own
      exact own.1
    refine ⟨there, Set.ext fun x => ?_⟩
    have one := each x
    by_cases goes : old = x <;> by_cases comes : id = x <;>
      simp_all [Touch.Lead, eq_comm]

theorem makes_iff : c.Makes M M' ↔ ∀ x, Touch.Lead (c.touches x) (x ∈ M) (x ∈ M') := by
  obtain ⟨id, replaced, action⟩ := c
  cases action with
  | enable => exact insert_iff_lead
  | upgrade =>
    cases replaced with
    | none => exact insert_iff_lead
    | some old => exact exchange_iff_lead
  | disable => exact erase_iff_lead

/-- Changes make one set of modules of another one exactly if they lead from the one to the other
for each module. -/
theorem makeAll_iff : MakeAll cs M M' ↔
    ∀ x, Touch.Lead (cs.flatMap (touches x)) (x ∈ M) (x ∈ M') := by
  induction cs generalizing M with
  | nil =>
    constructor
    · rintro ⟨⟩ x
      exact .rfl
    · intro same
      obtain rfl := Set.ext same
      exact .nil M
  | cons c cs ih =>
    constructor
    · rintro (_ | ⟨made, later⟩) x
      rw [List.flatMap_cons, Touch.lead_append]
      exact ⟨_, makes_iff.mp made x, ih.mp later x⟩
    · intro each
      simp only [List.flatMap_cons, Touch.lead_append] at each
      choose between first later using each
      have made : c.Makes M {x | between x} := makes_iff.mpr first
      exact .cons made (ih.mpr later)

end ModuleChange

/-! ## Running changes -/

namespace Ledger

variable {tenantId : String} {cs : List ModuleChange} {s : Store} {M : Set String}

/-- Changes can be made, and lead to a set of modules, exactly if they make that set of what is
there. -/
theorem applyChanges_iff : ((collaborators.applyChanges tenantId cs s).1 = .ok () ∧
      modules tenantId (collaborators.applyChanges tenantId cs s).2 = M) ↔
    ModuleChange.MakeAll cs (modules tenantId s) M := by
  induction cs generalizing s with
  | nil =>
    constructor
    · rintro ⟨-, rfl⟩
      exact .nil _
    · rintro ⟨⟩
      exact ⟨rfl, rfl⟩
  | cons c cs ih =>
    rcases applyChange_spec tenantId c s with ⟨ok, made⟩ | ⟨e, error, -, stuck, -⟩
    · have next : collaborators.applyChanges tenantId (c :: cs) s
          = collaborators.applyChanges tenantId cs (collaborators.applyChange tenantId c s).2 := by
        rw [Collaborators.applyChanges]
        split <;> simp_all
      rw [next, ih]
      constructor
      · exact .cons made
      · rintro (_ | ⟨first, later⟩)
        rwa [made.unique first]
    · refine iff_of_false ?_ ?_
      · rintro ⟨ok, -⟩
        rw [Collaborators.applyChanges] at ok
        split at ok <;> simp_all
      · rintro (_ | ⟨first, -⟩)
        exact stuck _ first

end Ledger

end Provisioning
