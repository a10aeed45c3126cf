import Provisioning.Proofs.Ordered.Lookup
import Provisioning.Registry

/-!
# Looking up applications

A registry is a partial function from identifiers to applications, each of which has the identifier
under which it is found.
-/

namespace Provisioning.Registry

/-- The application of an identifier, if the registry has it. -/
def known? (r : Registry) (id : String) : Option Application :=
  match r.applications with
  | .ok applications => (byId applications).get? id
  | .error _ => none

theorem known?_id {r : Registry} {id : String} {a : Application} (h : r.known? id = some a) :
    a.id = id := by
  unfold known? at h
  split at h
  · exact (OrderedMap.mem_of_get?_keyed h).2
  · simp at h

theorem readable_of_find {r : Registry} {ids : List String} {applications : List Application}
    (h : r.find ids = .ok applications) : ∃ all, r.applications = .ok all := by
  rw [find, Except.bind_eq_ok] at h
  obtain ⟨all, readable, -⟩ := h
  exact ⟨all, readable⟩

/-- What is found are the applications of the identifiers, in their order. -/
theorem find_eq_ok {r : Registry} {ids : List String} {applications : List Application}
    (h : r.find ids = .ok applications) :
    ids.map r.known? = applications.map some := by
  rw [find, Except.bind_eq_ok] at h
  obtain ⟨all, hr, h⟩ := h
  dsimp only at h
  split at h
  · rename_i none_missing
    obtain rfl := Except.ok.inj h
    have hk : r.known? = (byId all).get? := by
      funext id
      simp [known?, hr]
    rw [hk]
    clear h hk
    induction ids with
    | nil => rfl
    | cons id rest ih =>
      rw [List.filter_cons] at none_missing
      split at none_missing
      · simp at none_missing
      · rename_i there
        simp only [OrderedMap.contains, Bool.not_eq_true', Bool.not_eq_false] at there
        obtain ⟨a, ha⟩ := Option.isSome_iff_exists.mp there
        simp [ha, ih none_missing]
  · simp [throw, throwThe, MonadExceptOf.throw] at h

theorem find_ids {r : Registry} {ids : List String} {applications : List Application}
    (h : r.find ids = .ok applications) : applications.map (·.id) = ids := by
  have hf := find_eq_ok h
  clear h
  induction ids generalizing applications with
  | nil => simpa using hf.symm
  | cons id rest ih =>
    cases applications with
    | nil => simp at hf
    | cons a as =>
      simp only [List.map_cons, List.cons.injEq] at hf ⊢
      exact ⟨known?_id hf.1, ih hf.2⟩

/-- An application is found among identifiers if it is known under one of them. -/
theorem mem_find {r : Registry} {ids : List String} {applications : List Application}
    (h : r.find ids = .ok applications) {a : Application} :
    a ∈ applications ↔ a.id ∈ ids ∧ r.known? a.id = some a := by
  have hf := find_eq_ok h
  have hids := find_ids h
  constructor
  · intro ha
    refine ⟨hids ▸ List.mem_map_of_mem ha, ?_⟩
    have hs : some a ∈ ids.map r.known? := by
      rw [hf]
      exact List.mem_map_of_mem ha
    obtain ⟨id, -, hid⟩ := List.mem_map.mp hs
    rwa [known?_id hid]
  · rintro ⟨hid, hk⟩
    have hs : some a ∈ applications.map some := by
      rw [← hf, ← hk]
      exact List.mem_map_of_mem hid
    simpa using hs

/-- Looking up identifiers succeeds if the registry can be read and has all of them. -/
theorem find_ok {r : Registry} {all : List Application} (readable : r.applications = .ok all)
    (ids : List String) (known : ∀ id ∈ ids, ∃ a, r.known? id = some a) :
    ∃ applications, r.find ids = .ok applications := by
  have missing : (ids.filter fun id => !(byId all).contains id) = [] := by
    rw [List.filter_eq_nil_iff]
    intro id hid
    obtain ⟨a, ha⟩ := known id hid
    simp only [known?, readable] at ha
    simp [OrderedMap.contains, ha]
  refine ⟨ids.filterMap (byId all).get?, ?_⟩
  simp [find, readable, bind, Except.bind, missing, pure, Except.pure]

end Provisioning.Registry
