import Provisioning.Proofs.Dependencies.Closure

/-!
# Circles of dependencies

Applications of pairwise different names form a graph: an application needs the one that meets a
dependency of it. The search for the dependencies of an application follows the edges of this graph
and refuses when it comes back to a name on its path. It refuses only where there is a circle, and
it finds every circle in reach if no two applications in reach share an identifier.

Identifiers matter because the search keeps what it has gone through by identifier. The name `x` in
version `1.0.0-2.0.0` and the name `x-1.0.0` in version `2.0.0` make the same one.
-/

namespace Provisioning

open Relation

/-- An application has a dependency that another one of a list meets. -/
def Needs (applications : List Application) (a b : Application) : Prop :=
  b ∈ applications ∧ ∃ d ∈ a.dependencies, d.MetBy b

instance (applications : List Application) (a b : Application) :
    Decidable (Needs applications a b) :=
  inferInstanceAs (Decidable (b ∈ applications ∧ ∃ d ∈ a.dependencies, d.MetBy b))

/-- One comes from an application to another one along dependencies, in any number of steps. -/
def Reaches (applications : List Application) : Application → Application → Prop :=
  ReflTransGen (Needs applications)

/-- No application in reach of the application comes back to itself along dependencies. -/
def CircleFree (applications : List Application) (a : Application) : Prop :=
  ∀ b, Reaches applications a b → ¬ TransGen (Needs applications) b b

/-- No two applications in reach of the application share an identifier. -/
def Identified (applications : List Application) (a : Application) : Prop :=
  ∀ b c, Reaches applications a b → Reaches applications a c → b.id = c.id → b = c

variable {applications : List Application} {a b : Application}

theorem Reaches.mem (h : Reaches applications a b) (ha : a ∈ applications) : b ∈ applications := by
  cases h with
  | refl => exact ha
  | tail _ last => exact last.1

/-- There are no circles if each application ranks above those that it needs. -/
theorem circleFree_of_rank (rank : Application → Nat)
    (descends : ∀ a ∈ applications, ∀ b ∈ applications, Needs applications a b → rank b < rank a)
    (a : Application) (ha : a ∈ applications) : CircleFree applications a := by
  have below {b c : Application} (hb : b ∈ applications) (h : TransGen (Needs applications) b c) :
      c ∈ applications ∧ rank c < rank b := by
    induction h with
    | single first => exact ⟨first.1, descends b hb _ first.1 first⟩
    | tail _ last ih => exact ⟨last.1, Nat.lt_trans (descends _ ih.1 _ last.1 last) ih.2⟩
  intro b reaches circle
  exact absurd (below (reaches.mem ha) circle).2 (Nat.lt_irrefl _)

/-- Applications have identifiers of their own if no two of the list share one. -/
theorem identified_of_nodup (ids : (applications.map (·.id)).Nodup) (ha : a ∈ applications) :
    Identified applications a :=
  fun _ _ hb hc same => List.inj_on_of_nodup_map ids (hb.mem ha) (hc.mem ha) same

namespace Universe

/-- The applications of a universe have pairwise different names and can be read. -/
structure Plain (u : Universe) (applications : List Application) : Prop where
  /-- The universe has these members. -/
  members : ofApplications applications = .ok u
  /-- There is one version of each name. -/
  names : (applications.map (·.name)).Nodup
  /-- The versions and ranges can be read. -/
  readable : ∀ a ∈ applications, a.Readable

variable {u : Universe} {d : Dependency}

namespace Plain

theorem eq_of_name (plain : u.Plain applications) (ha : a ∈ applications) (hb : b ∈ applications)
    (same : a.name = b.name) : a = b :=
  List.inj_on_of_nodup_map plain.names ha hb same

/-- Where there is one version of each name, whatever meets a dependency is preferred. -/
theorem preferred_iff (plain : u.Plain applications) :
    Preferred applications d b ↔ b ∈ applications ∧ d.MetBy b := by
  constructor
  · exact fun h => ⟨h.mem, h.metBy⟩
  · rintro ⟨hb, met⟩
    have only : ∀ c ∈ applications, d.MetBy c → c = b := fun c hc meets =>
      plain.eq_of_name hc hb (meets.1.trans met.1.symm)
    have alone := plain.names.of_map
    obtain ⟨earlier, later, rfl⟩ := List.append_of_mem hb
    obtain ⟨new, -⟩ := List.nodup_cons.mp (List.nodup_middle.mp alone)
    refine ⟨earlier, later, rfl, met, fun c hc meets => ?_, fun c hc meets => ?_⟩
    · obtain rfl := only c (List.mem_append_left _ hc) meets
      exact absurd (List.mem_append_left _ hc) new
    · obtain rfl := only c (List.mem_append_right _ (List.mem_cons_of_mem _ hc)) meets
      exact absurd (List.mem_append_right _ hc) new

theorem leads_eq (plain : u.Plain applications) : Leads applications = Needs applications := by
  funext a b
  simp only [Leads, plain.preferred_iff, Needs]
  exact propext ⟨fun ⟨d, hd, hb, met⟩ => ⟨hb, d, hd, met⟩, fun ⟨hb, d, hd, met⟩ => ⟨d, hd, hb, met⟩⟩

/-- A dependency leads to whatever meets it. -/
theorem findMatch_of_met (plain : u.Plain applications) (hb : b ∈ applications)
    (met : d.MetBy b) : u.findMatch d = .ok (some b) :=
  (findMatch_eq_some_iff plain.members).mpr (plain.preferred_iff.mpr ⟨hb, met⟩)

/-- The dependencies of an application can be told if there is no circle in reach of it. -/
theorem dependenciesOf_of_free (plain : u.Plain applications) (ha : a ∈ applications)
    (free : CircleFree applications a) : ∃ found, u.dependenciesOf a = .ok found := by
  have told : u.Tells applications a := by
    intro b reached d hd
    rw [plain.leads_eq] at reached
    have hb : b ∈ applications := Reaches.mem reached ha
    exact (findMatch_ok_iff plain.members).mpr fun _ => (plain.readable b hb).ranges d hd
  have apart : Apart applications a := by
    intro b c reached goes same
    have hc := mem_of_reached goes
    rw [plain.leads_eq] at reached goes
    obtain rfl := plain.eq_of_name (Reaches.mem reached ha) hc same
    exact free b reached goes
  exact ok_of_apart plain.members told apart

/-- There is no circle in reach of an application whose dependencies can be told. -/
theorem free_of_dependenciesOf (plain : u.Plain applications)
    (identified : Identified applications a) {found : List Application}
    (h : u.dependenciesOf a = .ok found) : CircleFree applications a := by
  have discerned : Discerned applications a := by
    intro b c hb hc same
    rw [plain.leads_eq] at hb hc
    exact identified b c hb.to_reflTransGen hc.to_reflTransGen same
  obtain ⟨-, free⟩ := told_of_ok plain.members discerned h
  rw [LeadsToCircle, plain.leads_eq] at free
  exact fun b reaches circle => free ⟨b, reaches, circle⟩

end Plain

end Universe

end Provisioning
