import Mathlib.Data.List.Forall2
import Provisioning.Proofs.Dependencies.Closure

/-!
# The order in which dependencies are declared

The order of the dependencies does not change where they lead, so whenever the search goes through
it finds the same applications. But the search remembers identifiers and looks out for names on its
path. Where a way leads from one version of an application to another one, what it meets first
decides whether it goes through: some orders are refused that others are not.
-/

namespace Provisioning

open Relation

/-- The same application with its dependencies in some order. -/
def Application.Reordered (a b : Application) : Prop :=
  ∃ dependencies, dependencies.Perm a.dependencies ∧ b = { a with dependencies }

/-- The same applications in the same places, each with its dependencies in some order. -/
def Reordering (applications applications' : List Application) : Prop :=
  List.Forall₂ Application.Reordered applications applications'

/-- No way in reach of an application leads from one version of an application to another one. -/
def Unmixed (applications : List Application) (target : Application) : Prop :=
  ∀ a b, ReflTransGen (Leads applications) target a → ReflTransGen (Leads applications) a b →
    a.name = b.name → a = b

variable {applications applications' : List Application} {target target' a a' b c : Application}
  {d : Dependency}

namespace Application.Reordered

theorem refl (a : Application) : a.Reordered a := ⟨a.dependencies, .refl _, rfl⟩

theorem symm (h : a.Reordered b) : b.Reordered a := by
  obtain ⟨dependencies, perm, rfl⟩ := h
  exact ⟨a.dependencies, perm.symm, rfl⟩

theorem name (h : a.Reordered b) : b.name = a.name := by
  obtain ⟨_, -, rfl⟩ := h
  rfl

theorem id (h : a.Reordered b) : b.id = a.id := by
  obtain ⟨_, -, rfl⟩ := h
  rfl

theorem semver (h : a.Reordered b) : b.semver = a.semver := by
  obtain ⟨_, -, rfl⟩ := h
  rfl

theorem mem_dependencies (h : a.Reordered b) : d ∈ b.dependencies ↔ d ∈ a.dependencies := by
  obtain ⟨_, perm, rfl⟩ := h
  exact perm.mem_iff

theorem metBy (h : a.Reordered b) : d.MetBy b ↔ d.MetBy a := by
  rw [Dependency.MetBy, Dependency.MetBy, h.name, h.semver]

theorem olderThan (ha : a.Reordered a') {b' : Application} (hb : b.Reordered b') :
    a'.OlderThan b' ↔ a.OlderThan b := by
  rw [OlderThan, OlderThan, ha.semver, hb.semver]

end Application.Reordered

namespace Reordering

theorem symm (h : Reordering applications applications') : Reordering applications' applications :=
  List.Forall₂.flip (List.Forall₂.imp (fun _ _ same => Application.Reordered.symm same) h)

theorem of_map {reorder : Application → Application}
    (each : ∀ a : Application, a.Reordered (reorder a)) :
    Reordering applications (applications.map reorder) :=
  List.forall₂_map_right_iff.mpr (List.forall₂_same.mpr fun a _ => each a)

theorem exists_of_mem (h : Reordering applications applications') :
    ∀ b ∈ applications', ∃ a ∈ applications, a.Reordered b := by
  induction h with
  | nil => simp
  | cons first _ ih =>
    rw [List.forall_mem_cons]
    refine ⟨⟨_, List.mem_cons_self, first⟩, fun b hb => ?_⟩
    obtain ⟨a, ha, reordered⟩ := ih b hb
    exact ⟨a, List.mem_cons_of_mem _ ha, reordered⟩

theorem map_eq (h : Reordering applications applications') {f : Application → String}
    (same : ∀ {a b : Application}, a.Reordered b → f b = f a) :
    applications'.map f = applications.map f := by
  induction h with
  | nil => rfl
  | cons first _ ih => rw [List.map_cons, List.map_cons, same first, ih]

theorem names (h : Reordering applications applications') :
    applications'.map (·.name) = applications.map (·.name) := h.map_eq (·.name)

theorem ids (h : Reordering applications applications') :
    applications'.map (·.id) = applications.map (·.id) := h.map_eq (·.id)

/-! ## The same graph -/

/-- What is preferred is preferred in another order, too. -/
theorem preferred (h : Reordering applications applications') (p : Preferred applications d b) :
    ∃ b', b.Reordered b' ∧ Preferred applications' d b' := by
  obtain ⟨earlier, later, rfl, met, lower, not_higher⟩ := p
  have front := List.forall₂_take earlier.length h
  have back := List.forall₂_drop earlier.length h
  rw [List.take_left] at front
  rw [List.drop_left] at back
  obtain ⟨b', later', hb, hlater, parts⟩ := List.forall₂_cons_left_iff.mp back
  refine ⟨b', hb, applications'.take earlier.length, later', ?_, hb.metBy.mpr met,
    fun c' hc' meets => ?_, fun c' hc' meets => ?_⟩
  · rw [← parts, List.take_append_drop]
  · obtain ⟨c, hc, same⟩ := exists_of_mem front c' hc'
    exact (same.olderThan hb).mpr (lower c hc (same.metBy.mp meets))
  · obtain ⟨c, hc, same⟩ := exists_of_mem hlater c' hc'
    rw [hb.olderThan same]
    exact not_higher c hc (same.metBy.mp meets)

theorem leads (h : Reordering applications applications') (ha : a.Reordered a')
    (goes : Leads applications a b) : ∃ b', b.Reordered b' ∧ Leads applications' a' b' := by
  obtain ⟨d, hd, p⟩ := goes
  obtain ⟨b', hb, p'⟩ := h.preferred p
  exact ⟨b', hb, d, ha.mem_dependencies.mpr hd, p'⟩

theorem reaches (h : Reordering applications applications') (ha : a.Reordered a')
    (goes : ReflTransGen (Leads applications) a b) :
    ∃ b', b.Reordered b' ∧ ReflTransGen (Leads applications') a' b' := by
  induction goes with
  | refl => exact ⟨a', ha, .refl⟩
  | tail _ last ih =>
    obtain ⟨c', hc, before⟩ := ih
    obtain ⟨b', hb, last'⟩ := h.leads hc last
    exact ⟨b', hb, before.tail last'⟩

theorem reaches_next (h : Reordering applications applications') (ha : a.Reordered a')
    (goes : TransGen (Leads applications) a b) :
    ∃ b', b.Reordered b' ∧ TransGen (Leads applications') a' b' := by
  obtain ⟨c, before, last⟩ := TransGen.tail'_iff.mp goes
  obtain ⟨c', hc, before'⟩ := h.reaches ha before
  obtain ⟨b', hb, last'⟩ := h.leads hc last
  exact ⟨b', hb, .tail' before' last'⟩

/-- A circle in reach stays in reach. -/
theorem leadsToCircle (h : Reordering applications applications')
    (ids : (applications.map (·.id)).Nodup) (ht : target.Reordered target')
    (circle : LeadsToCircle applications target) : LeadsToCircle applications' target' := by
  obtain ⟨b, reached, round⟩ := circle
  obtain ⟨b₁, hb₁, reached₁⟩ := h.reaches ht reached
  obtain ⟨b₂, hb₂, round₁⟩ := h.reaches_next hb₁ round
  obtain ⟨b₃, hb₃, round₂⟩ := h.reaches_next hb₂ round
  -- The application that the way starts from may stand outside; where it comes back to does not.
  have one : b₃.id = b₂.id := hb₃.id.trans hb₂.id.symm
  rw [← h.ids] at ids
  obtain rfl := List.inj_on_of_nodup_map ids (mem_of_reached round₂) (mem_of_reached round₁) one
  exact ⟨b₃, reached₁.trans round₁.to_reflTransGen, round₂⟩

end Reordering

namespace Universe

variable {u u' : Universe}

theorem exists_reordering (h : Reordering applications applications')
    (members : ofApplications applications = .ok u) :
    ∃ u', ofApplications applications' = .ok u' := by
  obtain ⟨somebody, readable⟩ := exists_ofApplications_iff.mp ⟨u, members⟩
  refine exists_ofApplications_iff.mpr ⟨?_, fun b hb => ?_⟩
  · rintro rfl
    exact somebody (List.forall₂_nil_right_iff.mp h)
  · obtain ⟨a, ha, same⟩ := h.exists_of_mem b hb
    rw [same.semver]
    exact readable a ha

/-! ## Orders that go through -/

/-- In every order one can tell where the dependencies in reach lead. -/
theorem Tells.of_reordering (told : u.Tells applications target)
    (h : Reordering applications applications') (ht : target.Reordered target')
    (members : ofApplications applications = .ok u)
    (members' : ofApplications applications' = .ok u') : u'.Tells applications' target' := by
  intro b' reached d hd
  obtain ⟨b, same, reached⟩ := h.symm.reaches ht.symm reached
  rw [findMatch_ok_iff members', h.names, ← findMatch_ok_iff members]
  exact told b reached d (same.mem_dependencies.mpr hd)

end Universe

/-- No name comes twice on a way, in whatever order the dependencies are. -/
theorem Apart.of_reordering (apart : Apart applications target)
    (h : Reordering applications applications') (ht : target.Reordered target') :
    Apart applications' target' := by
  intro a' b' reached goes same
  obtain ⟨a, ha, reached⟩ := h.symm.reaches ht.symm reached
  obtain ⟨b, hb, goes⟩ := h.symm.reaches_next ha goes
  exact apart a b reached goes (ha.name.trans (same.trans hb.name.symm))

/-- Where versions are not mixed, a name comes twice only on a circle. -/
theorem Unmixed.apart (unmixed : Unmixed applications target)
    (free : ¬LeadsToCircle applications target) : Apart applications target := by
  intro a b reached goes same
  obtain rfl := unmixed a b reached goes.to_reflTransGen same
  exact free ⟨a, reached, goes⟩

namespace Closure

theorem subset_of_reordering (h : Reordering applications applications')
    (ht : target.Reordered target') {found found' : List Application}
    (closure : Closure applications target found)
    (closure' : Closure applications' target' found') :
    found.map (·.id) ⊆ found'.map (·.id) := by
  intro i hi
  obtain ⟨b, hb, rfl⟩ := List.mem_map.mp hi
  obtain ⟨b', same, reached⟩ := h.reaches_next ht ((closure.exact b).mp hb)
  exact List.mem_map.mpr ⟨b', (closure'.exact b').mpr reached, same.id⟩

/-- The same applications can be reached in every order. -/
theorem ids_of_reordering (h : Reordering applications applications')
    (ht : target.Reordered target') {found found' : List Application}
    (closure : Closure applications target found)
    (closure' : Closure applications' target' found') :
    found'.map (·.id) = found.map (·.id) := by
  have nodup {ids : List String} (sorted : ids.Pairwise (· < ·)) : ids.Nodup :=
    sorted.imp fun before => ne_of_lt before
  have perm : (found'.map (·.id)).Perm (found.map (·.id)) := by
    rw [List.perm_ext_iff_of_nodup (nodup closure'.sorted) (nodup closure.sorted)]
    exact fun i => ⟨fun hi => subset_of_reordering h.symm ht.symm closure' closure hi,
      fun hi => subset_of_reordering h ht closure closure' hi⟩
  exact perm.eq_of_pairwise (fun _ _ _ _ before after => absurd after (lt_asymm before))
    closure'.sorted closure.sorted

end Closure

/-! ## Orders that are refused -/

/-- The first dependency of an application leads to another one. -/
def LeadsFirst (applications : List Application) (a b : Application) : Prop :=
  ∃ d rest, a.dependencies = d :: rest ∧ Preferred applications d b

/-- A way on which no name comes twice: where it leads, and what it has come through, the last
application first. -/
inductive Way (applications : List Application) (target : Application) :
    Application → List Application → Prop
  /-- It starts at an application. -/
  | start : Way applications target target []
  /-- It goes on to an application of another name. -/
  | step {a b : Application} {behind : List Application} (way : Way applications target a behind)
    (leads : Leads applications a b) (new : b.name ∉ (a :: behind).map (·.name)) :
    Way applications target b (a :: behind)

/-- A way that comes to a name for the second time. -/
def Repeats (applications : List Application) (target : Application) : Prop :=
  ∃ a behind b, Way applications target a behind ∧ Leads applications a b ∧
    b.name ∈ (a :: behind).map (·.name)

namespace Way

variable {behind : List Application}

theorem names (way : Way applications target a behind) :
    ((a :: behind).map (·.name)).Nodup := by
  induction way with
  | start => simp
  | step _ _ new ih => exact List.nodup_cons.mpr ⟨new, ih⟩

theorem chain (way : Way applications target a behind) :
    (a :: behind).IsChain fun b a => Leads applications a b := by
  induction way with
  | start => exact .singleton _
  | step _ leads _ ih => exact .cons_cons leads ih

/-- A way goes on to whatever one can reach, unless a name is repeated before. -/
theorem extend (way : Way applications target a behind)
    (reached : ReflTransGen (Leads applications) a b) :
    Repeats applications target ∨
      ∃ before, Way applications target b before ∧ a :: behind <:+ b :: before := by
  induction reached with
  | refl => exact .inr ⟨behind, way, List.suffix_rfl⟩
  | @tail c b _ last ih =>
    rcases ih with repeats | ⟨before, way', suffix⟩
    · exact .inl repeats
    · by_cases again : b.name ∈ (c :: before).map (·.name)
      · exact .inl ⟨c, before, b, way', last, again⟩
      · exact .inr ⟨c :: before, .step way' last again, suffix.trans (List.suffix_cons b _)⟩

end Way

/-- A way that leads from one version of an application to another one repeats a name. -/
theorem repeats_of_mixed (mixed : ¬Unmixed applications target) : Repeats applications target := by
  unfold Unmixed at mixed
  push Not at mixed
  obtain ⟨a, b, reached, goes, same, ne⟩ := mixed
  rcases Way.start.extend reached with repeats | ⟨before, way, -⟩
  · exact repeats
  · rcases way.extend goes with repeats | ⟨before', way', suffix⟩
    · exact repeats
    · have ha : a ∈ b :: before' := suffix.subset List.mem_cons_self
      exact absurd (List.inj_on_of_nodup_map way'.names ha List.mem_cons_self same) ne

/-- There is an order in which each application on a way has the dependency first along which the
way goes on. -/
theorem exists_leadsFirst {last : Application} {way : List Application}
    (chain : (last :: way).IsChain fun b a => Leads applications a b) (distinct : way.Nodup) :
    ∃ reorder : Application → Application, (∀ a : Application, a.Reordered (reorder a)) ∧
      (last :: way).IsChain fun b a => LeadsFirst applications (reorder a) b := by
  induction way generalizing last with
  | nil => exact ⟨id, Application.Reordered.refl, .singleton _⟩
  | cons a behind ih =>
    obtain ⟨⟨d, hd, preferred⟩, chain⟩ := List.isChain_cons_cons.mp chain
    obtain ⟨new, distinct⟩ := List.nodup_cons.mp distinct
    obtain ⟨reorder, each, first⟩ := ih chain distinct
    let moved : Application := { a with dependencies := d :: a.dependencies.erase d }
    refine ⟨Function.update reorder a moved, fun c => ?_, .cons_cons ?_ ?_⟩
    · by_cases hc : c = a
      · subst hc
        rw [Function.update_self]
        exact ⟨_, (List.perm_cons_erase hd).symm, rfl⟩
      · rw [Function.update_of_ne hc]
        exact each c
    · rw [Function.update_self]
      exact ⟨d, _, rfl, preferred⟩
    · -- What lies behind keeps its order.
      refine first.imp_of_mem_tail_imp fun b c _ hc leads => ?_
      have other : c ≠ a := fun same => new (same ▸ hc)
      rwa [Function.update_of_ne other]

namespace Universe

variable {u u' : Universe} {reorder : Application → Application}

/-- A first dependency leads to the reordered application. -/
theorem findMatch_first (ids : (applications.map (·.id)).Nodup)
    (each : ∀ a : Application, a.Reordered (reorder a))
    (members' : ofApplications (applications.map reorder) = .ok u')
    (first : LeadsFirst applications (reorder a) b) :
    ∃ d rest, (reorder a).dependencies = d :: rest ∧ u'.findMatch d = .ok (some (reorder b)) := by
  obtain ⟨d, rest, split, preferred⟩ := first
  refine ⟨d, rest, split, (findMatch_eq_some_iff members').mpr ?_⟩
  obtain ⟨b', same, preferred'⟩ := (Reordering.of_map each).preferred preferred
  obtain ⟨c, hc, rfl⟩ := List.mem_map.mp preferred'.mem
  have one : c.id = b.id := (each c).id.symm.trans same.id
  obtain rfl := List.inj_on_of_nodup_map ids hc preferred.mem one
  exact preferred'

/-- The search follows a way of first dependencies to its end, and is refused if it is refused
there. -/
theorem refused_along (ids : (applications.map (·.id)).Nodup)
    (each : ∀ a : Application, a.Reordered (reorder a))
    (members' : ofApplications (applications.map reorder) = .ok u') {behind : List Application}
    (way : Way applications target a behind)
    (first : (a :: behind).IsChain fun b a => LeadsFirst applications (reorder a) b)
    {refusal : Refusal}
    (h : u'.visit ((a :: behind).map (·.name)) .empty (reorder a).dependencies = .error refusal) :
    u'.dependenciesOf (reorder target) = .error refusal := by
  induction way with
  | start =>
    rw [dependenciesOf, (each target).name]
    change (u'.visit ([target].map (·.name)) .empty (reorder target).dependencies).map _ = _
    rw [h]
    rfl
  | @step a b behind way _ new ih =>
    obtain ⟨leads, first⟩ := List.isChain_cons_cons.mp first
    refine ih first ?_
    obtain ⟨d, rest, split, hd⟩ := findMatch_first ids each members' leads
    rw [split, visit_some hd, (each b).name, if_neg new, if_neg (by simp)]
    change (u'.visit ((b :: a :: behind).map (·.name)) .empty (reorder b).dependencies >>= _) = _
    rw [h]
    rfl

/-- Where versions are not mixed, a search goes through in every order or in none. -/
theorem ok_iff_of_reordering (ids : (applications.map (·.id)).Nodup)
    (members : ofApplications applications = .ok u)
    (members' : ofApplications applications' = .ok u')
    (h : Reordering applications applications') (ht : target.Reordered target')
    (unmixed : Unmixed applications target) :
    (∃ found, u.dependenciesOf target = .ok found) ↔
      ∃ found', u'.dependenciesOf target' = .ok found' := by
  have ids' : (applications'.map (·.id)).Nodup := h.ids.symm ▸ ids
  constructor
  · rintro ⟨found, goes⟩
    obtain ⟨told, free⟩ := told_of_ok members (discerned_of_nodup ids) goes
    have apart := (unmixed.apart free).of_reordering h ht
    exact ok_of_apart members' (told.of_reordering h ht members members') apart
  · rintro ⟨found', goes⟩
    obtain ⟨told, free'⟩ := told_of_ok members' (discerned_of_nodup ids') goes
    have free : ¬LeadsToCircle applications target := fun circle =>
      free' (h.leadsToCircle ids ht circle)
    have told' := told.of_reordering h.symm ht.symm members' members
    exact ok_of_apart members told' (unmixed.apart free)

/-- Where versions are mixed, there is an order that is refused for a circle. -/
theorem exists_refused_of_mixed (ids : (applications.map (·.id)).Nodup)
    (members : ofApplications applications = .ok u) (mixed : ¬Unmixed applications target) :
    ∃ applications' target' u', Reordering applications applications' ∧
      target.Reordered target' ∧ ofApplications applications' = .ok u' ∧
      ∃ names, u'.dependenciesOf target' = .error (.circularDependency names) := by
  obtain ⟨a, behind, b, way, leads, again⟩ := repeats_of_mixed mixed
  obtain ⟨reorder, each, first⟩ :=
    exists_leadsFirst (.cons_cons leads way.chain) (List.Nodup.of_map _ way.names)
  obtain ⟨leadsFirst, first⟩ := List.isChain_cons_cons.mp first
  have h : Reordering applications (applications.map reorder) := .of_map each
  obtain ⟨u', members'⟩ := exists_reordering h members
  obtain ⟨d, rest, split, hd⟩ := findMatch_first ids each members' leadsFirst
  have refused : u'.visit ((a :: behind).map (·.name)) .empty (reorder a).dependencies =
      .error (.circularDependency (chain ((a :: behind).map (·.name)) b.name)) := by
    rw [split, visit_some hd, (each b).name, if_pos again]
  exact ⟨_, reorder target, u', h, each target, members', _,
    refused_along ids each members' way first refused⟩

/-- Reordering dependencies. The search finds the same applications in every order in which it goes
through. If no way in reach leads from one version of an application to another one, it goes through
in every order or in none. Otherwise there is an order that is refused for a circle. -/
theorem dependenciesOf_reordering (ids : (applications.map (·.id)).Nodup)
    (members : ofApplications applications = .ok u) (target : Application) :
    (∀ applications' target', Reordering applications applications' →
      target.Reordered target' → ∃ u', ofApplications applications' = .ok u' ∧
        (∀ found found', u.dependenciesOf target = .ok found →
          u'.dependenciesOf target' = .ok found' → found'.map (·.id) = found.map (·.id)) ∧
        (Unmixed applications target → ((∃ found, u.dependenciesOf target = .ok found) ↔
          ∃ found', u'.dependenciesOf target' = .ok found'))) ∧
    (¬Unmixed applications target → ∃ applications' target' u',
      Reordering applications applications' ∧ target.Reordered target' ∧
        ofApplications applications' = .ok u' ∧
        ∃ names, u'.dependenciesOf target' = .error (.circularDependency names)) := by
  refine ⟨fun applications' target' h ht => ?_, exists_refused_of_mixed ids members⟩
  have ids' : (applications'.map (·.id)).Nodup := h.ids.symm ▸ ids
  obtain ⟨u', members'⟩ := exists_reordering h members
  refine ⟨u', members', fun found found' goes goes' => ?_, ?_⟩
  · have closure := closure_of_ok members (discerned_of_nodup ids) goes
    have closure' := closure_of_ok members' (discerned_of_nodup ids') goes'
    exact closure.ids_of_reordering h ht closure'
  · exact ok_iff_of_reordering ids members members' h ht

/-- A new version, -/
def newBase : Application := { name := "x", version := "2.0.0" }

/-- an application that needs it, -/
def bridge : Application where
  name := "f"
  version := "1.0.0"
  dependencies := [{ name := "x", range := "^2.0.0" }]

/-- an old version that needs that application, -/
def oldBase : Application where
  name := "x"
  version := "1.0.0"
  dependencies := [{ name := "f", range := "^1.0.0" }]

/-- an application that needs the one in between and then the old version, -/
def bridgeFirst : Application where
  name := "t"
  version := "1.0.0"
  dependencies := [{ name := "f", range := "^1.0.0" }, { name := "x", range := "^1.0.0" }]

/-- and the same one with its dependencies in the other order. -/
def baseFirst : Application where
  name := "t"
  version := "1.0.0"
  dependencies := [{ name := "x", range := "^1.0.0" }, { name := "f", range := "^1.0.0" }]

/-- The three applications in between. -/
def bases : List Application := [bridge, oldBase, newBase]

/-- They make a universe in which one can tell what leads where. -/
theorem bases_members : ∃ u, ofApplications bases = .ok u ∧
    u.findMatch { name := "f", range := "^1.0.0" } = .ok (some bridge) ∧
    u.findMatch { name := "x", range := "^1.0.0" } = .ok (some oldBase) ∧
    u.findMatch { name := "x", range := "^2.0.0" } = .ok (some newBase) :=
  ⟨_, rfl, rfl, rfl, rfl⟩

/-- What needs the new version has it in every order. What needs the old version, too, comes from it
to the new one, so some order is refused. -/
theorem dependenciesOf_reordering_bases :
    (bases.map (·.id)).Nodup ∧
      (∀ applications' target', Reordering bases applications' →
        bridge.Reordered target' → ∃ u', ofApplications applications' = .ok u' ∧
          ∃ found', u'.dependenciesOf target' = .ok found' ∧ found'.map (·.id) = ["x-2.0.0"]) ∧
      ∃ applications' target' u', Reordering bases applications' ∧
        bridgeFirst.Reordered target' ∧ ofApplications applications' = .ok u' ∧
        ∃ names, u'.dependenciesOf target' = .error (.circularDependency names) := by
  have ids : (bases.map (·.id)).Nodup := by decide
  obtain ⟨u, members, to_bridge, to_old, to_new⟩ := bases_members
  have goes : u.dependenciesOf bridge = .ok [newBase] := by
    rw [dependenciesOf, bridge, visit_some to_new, if_neg (by decide), if_neg (by decide), newBase,
      visit_nil]
    change (u.visit _ _ _).map _ = _
    rw [visit_nil]
    rfl
  have unmixed : Unmixed bases bridge := by
    have closure := closure_of_ok members (discerned_of_nodup ids) goes
    have near {a : Application} (reached : ReflTransGen (Leads bases) bridge a) :
        a ∈ [bridge, newBase] := by
      rcases reflTransGen_iff_eq_or_transGen.mp reached with rfl | reached
      · exact List.mem_cons_self
      · exact List.mem_cons_of_mem _ ((closure.exact a).mpr reached)
    intro a b reached goes same
    exact List.inj_on_of_nodup_map (f := (·.name)) (by decide) (near reached)
      (near (reached.trans goes)) same
  have mixed : ¬Unmixed bases bridgeFirst := by
    intro unmixed
    have to_base : Leads bases bridgeFirst oldBase :=
      ⟨_, by simp [bridgeFirst], (findMatch_eq_some_iff members).mp to_old⟩
    have back : Leads bases oldBase bridge :=
      ⟨_, by simp [oldBase], (findMatch_eq_some_iff members).mp to_bridge⟩
    have on : Leads bases bridge newBase :=
      ⟨_, by simp [bridge], (findMatch_eq_some_iff members).mp to_new⟩
    have one := unmixed oldBase newBase (.single to_base) (.tail (.single back) on) rfl
    exact absurd one (by decide)
  refine ⟨ids, fun applications' target' h ht => ?_,
    (dependenciesOf_reordering ids members bridgeFirst).2 mixed⟩
  obtain ⟨u', members', same, both⟩ :=
    (dependenciesOf_reordering ids members bridge).1 applications' target' h ht
  obtain ⟨found', goes'⟩ := (both unmixed).mp ⟨_, goes⟩
  exact ⟨u', members', found', goes', same _ _ goes goes'⟩

/-- Of two orders of the same dependencies one goes through and the other one is refused, although
nothing leads back to where it comes from. -/
theorem dependenciesOf_baseFirst :
    (bases.map (·.id)).Nodup ∧
      (∀ a ∈ bases, ∀ b ∈ bases, a.name = b.name → a.semver = b.semver → a = b) ∧
      bridgeFirst.Reordered baseFirst ∧ ∃ u, ofApplications bases = .ok u ∧
        u.dependenciesOf bridgeFirst = .ok [bridge, oldBase, newBase] ∧
        u.dependenciesOf baseFirst = .error (.circularDependency ["x", "f", "x"]) := by
  obtain ⟨u, members, to_bridge, to_old, to_new⟩ := bases_members
  refine ⟨by decide, by decide +kernel, ⟨baseFirst.dependencies, .swap _ _ _, rfl⟩, u, members,
    ?_, ?_⟩
  · have below_bridge : u.visit ["f", "t"] .empty bridge.dependencies =
        .ok (OrderedMap.empty.insert newBase.id newBase) := by
      rw [bridge, visit_some to_new, if_neg (by decide), if_neg (by decide), newBase, visit_nil]
      exact visit_nil
    set found := (OrderedMap.empty.insert newBase.id newBase).insert bridge.id bridge with hfound
    have below_base : u.visit ["x", "t"] found oldBase.dependencies = .ok found := by
      rw [oldBase, visit_some to_bridge, if_neg (by decide), if_pos (by rw [hfound]; decide),
        visit_nil]
    rw [dependenciesOf, bridgeFirst, visit_some to_bridge, if_neg (by decide), if_neg (by decide)]
    change (u.visit ["f", "t"] .empty bridge.dependencies >>= _).map _ = _
    rw [below_bridge]
    change (u.visit ["t"] found _).map _ = _
    rw [visit_some to_old, if_neg (by decide), if_neg (by rw [hfound]; decide)]
    change (u.visit ["x", "t"] found oldBase.dependencies >>= _).map _ = _
    rw [below_base]
    change (u.visit ["t"] (found.insert oldBase.id oldBase) []).map _ = _
    rw [visit_nil]
    rfl
  · rw [dependenciesOf, baseFirst, visit_some to_old, if_neg (by decide), if_neg (by decide),
      oldBase, visit_some to_bridge, if_neg (by decide), if_neg (by decide), bridge,
      visit_some to_new, if_pos (by decide)]
    rfl

end Universe

end Provisioning
