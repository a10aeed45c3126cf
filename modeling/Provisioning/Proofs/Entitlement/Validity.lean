import Provisioning.Proofs.Dependencies.Circles
import Provisioning.Proofs.Entitlement.Runs
import Provisioning.Proofs.Integrity.Interfaces

/-!
# What validation decides

A request is valid if its type allows it and, unless it revokes, if what it leads to holds together:
the dependencies of the requested applications are met, they reach no circle, and the interfaces
that they require are provided. Validation accepts what is valid. It accepts nothing else where
different applications have different identifiers, as they have in all that is looked up for a
request; an identifier shared by two applications can hide a circle.
-/

namespace Provisioning

/-! ## The report on dependencies -/

/-- A range can be compared with applications whose versions can be read. -/
theorem VersionRange.acceptsEach_ok {range : VersionRange} {applications : List Application}
    (readable : ∀ a ∈ applications, ∃ v, a.semver = .ok v) :
    ∃ matching, range.acceptsEach applications = .ok matching := by
  have each : ∀ a ∈ applications, ∃ m,
      (a.semver.map fun v => (a, range.accepts v)) = .ok m ∧ m.1 = id a := by
    intro a ha
    obtain ⟨v, hv⟩ := readable a ha
    exact ⟨(a, range.accepts v), by rw [hv]; rfl, rfl⟩
  obtain ⟨matching, hmatching, -⟩ := Except.mapM_ok each
  exact ⟨matching, hmatching⟩

namespace Dependency

variable {d : Dependency} {candidates entitled : List Application}

/-- What meets a dependency is accepted by its range. -/
theorem MetBy.accepts {a : Application} {range : VersionRange} {v : Version} (met : d.MetBy a)
    (hrange : d.versions = .ok range) (hv : a.semver = .ok v) : range.accepts v = true := by
  obtain ⟨-, range', v', hrange', hv', accepted⟩ := met
  obtain rfl := Except.ok.inj (hrange.symm.trans hrange')
  obtain rfl := Except.ok.inj (hv.symm.trans hv')
  exact accepted

/-- A candidate that meets a dependency is accepted among those of its name. -/
theorem any_accepted {range : VersionRange} {matching : List (Application × Bool)}
    (hrange : d.versions = .ok range)
    (compared : range.acceptsEach (candidates.filter (·.name = d.name)) = .ok matching)
    (candidate : ∃ a ∈ candidates, d.MetBy a) : matching.any (·.2) = true := by
  obtain ⟨a, ha, met⟩ := candidate
  obtain ⟨names, versions⟩ := VersionRange.mem_acceptsEach compared
  have named : a ∈ matching.map (·.1) := by
    rw [names, List.mem_filter]
    exact ⟨ha, by simpa using met.1⟩
  obtain ⟨m, hm, rfl⟩ := List.mem_map.mp named
  obtain ⟨v, hv, accepted⟩ := versions m hm
  exact List.any_eq_true.mpr ⟨m, hm, accepted.trans (met.accepts hrange hv)⟩

/-- A dependency has an outcome if all that is to be read can be read. It is met if a candidate or
the first entitled application of its name meets it. -/
theorem outcome_ok (range : ∃ range, d.versions = .ok range)
    (readable : ∀ a ∈ candidates ++ entitled, ∃ v, a.semver = .ok v) :
    ∃ o, d.outcome candidates entitled = .ok o ∧
      ((∃ a ∈ candidates, d.MetBy a) ∨
        (∃ a, entitled.find? (·.name = d.name) = some a ∧ d.MetBy a) → o = .met) := by
  obtain ⟨range, hrange⟩ := range
  obtain ⟨matching, compared⟩ : ∃ matching,
      range.acceptsEach (candidates.filter (·.name = d.name)) = .ok matching :=
    VersionRange.acceptsEach_ok fun a ha => readable a (List.mem_append_left _ (List.mem_filter.mp ha).1)
  rw [outcome, hrange]
  change ∃ o, (range.acceptsEach _ >>= _) = Except.ok o ∧ _
  rw [compared]
  change ∃ o, (if matching.any (·.2) = true then _ else _) = Except.ok o ∧ _
  split
  next => exact ⟨.met, rfl, fun _ => rfl⟩
  next none_in =>
    have no_candidate : ¬ ∃ a ∈ candidates, d.MetBy a := mt (any_accepted hrange compared) none_in
    split
    next installed found =>
      obtain ⟨v, hv⟩ := readable installed
        (List.mem_append_right _ (List.mem_of_find?_eq_some found))
      rw [hv]
      refine ⟨_, rfl, ?_⟩
      rintro (candidate | ⟨a, here, met⟩)
      · exact absurd candidate no_candidate
      · obtain rfl := Option.some.inj (found.symm.trans here)
        rw [if_pos (met.accepts hrange hv)]
    next none_found =>
      have unmet : ¬ ((∃ a ∈ candidates, d.MetBy a) ∨
          ∃ a, entitled.find? (·.name = d.name) = some a ∧ d.MetBy a) := by
        rintro (candidate | ⟨a, here, -⟩)
        · exact no_candidate candidate
        · rw [none_found] at here
          cases here
      split
      · exact ⟨_, rfl, fun met => absurd met unmet⟩
      · exact ⟨_, rfl, fun met => absurd met unmet⟩

end Dependency

namespace DependencyReport

/-- There is a report if each dependency that is asked for has an outcome. It names only what is
asked for, and it is empty if all of that is met. -/
theorem check_ok {candidates entitled : List Application}
    (each : ∀ q ∈ asked candidates, ∃ o, q.2.outcome candidates entitled = .ok o) :
    ∃ report, check candidates entitled = .ok report ∧
      (∀ m ∈ report.missing, (m.applicationId, m.dependency) ∈ asked candidates) ∧
      ((∀ q ∈ asked candidates, q.2.outcome candidates entitled = .ok .met) → report.isOk) := by
  suffices general : ∀ (questions : List (String × Dependency)) (r : DependencyReport),
      (∀ q ∈ questions, ∃ o, q.2.outcome candidates entitled = .ok o) →
      ∃ report, questions.foldlM (fun report q =>
          (q.2.outcome candidates entitled).map (report.add q.1 q.2)) r = .ok report ∧
        (∀ m ∈ report.missing, m ∈ r.missing ∨ (m.applicationId, m.dependency) ∈ questions) ∧
        ((∀ q ∈ questions, q.2.outcome candidates entitled = .ok .met) → r.isOk → report.isOk) by
    obtain ⟨report, reads, missing, good⟩ := general _ {} each
    exact ⟨report, reads, fun m hm => (missing m hm).resolve_left (by simp), fun h => good h rfl⟩
  intro questions
  induction questions with
  | nil => exact fun r _ => ⟨r, rfl, fun m hm => .inl hm, fun _ h => h⟩
  | cons q rest ih =>
    intro r each
    obtain ⟨⟨o, ho⟩, later⟩ := List.forall_mem_cons.mp each
    obtain ⟨report, reads, missing, good⟩ := ih (r.add q.1 q.2 o) later
    refine ⟨report, ?_, ?_, ?_⟩
    · rw [List.foldlM_cons, ho]
      exact reads
    · intro m hm
      rcases missing m hm with hm | hm
      · rcases mem_add_missing.mp hm with hm | ⟨-, rfl⟩
        · exact .inl hm
        · exact .inr List.mem_cons_self
      · exact .inr (List.mem_cons_of_mem _ hm)
    · intro met ok
      obtain ⟨here, later⟩ := List.forall_mem_cons.mp met
      have all_met : o = .met := Except.ok.inj (ho.symm.trans here)
      exact good later (add_isOk.mpr ⟨ok, all_met⟩)

end DependencyReport

namespace ValidationContext

/-! ## Valid requests -/

/-- The applications that the tenant has when the requested ones have taken their places. -/
def afterwards (ctx : ValidationContext) : List Application := ctx.applications ++ ctx.remaining

/-- Both sides have one version of each name, and one can read all versions and ranges. -/
structure Plain (ctx : ValidationContext) : Prop where
  /-- No name is requested in two versions. -/
  requested : (ctx.applications.map (·.name)).Nodup
  /-- The tenant has no name in two versions. -/
  entitled : (ctx.entitled.map (·.name)).Nodup
  /-- The versions and ranges can be read. -/
  readable : ∀ a ∈ ctx.applications ++ ctx.entitled, a.Readable

/-- What is requested can be done. -/
def Admissible (ctx : ValidationContext) : Prop :=
  match ctx.type with
  | .entitle => ∀ a ∈ ctx.applications, ∀ e ∈ ctx.entitled, e.name ≠ a.name
  | .upgrade => ∀ a ∈ ctx.applications, ∃ e ∈ ctx.entitled, e.name = a.name ∧
      ∃ installed next, e.semver = .ok installed ∧ a.semver = .ok next ∧ installed.before next
  | .revoke => (∀ a ∈ ctx.applications, ∃ e ∈ ctx.entitled, e.id = a.id) ∧
      ∀ e ∈ ctx.entitled, (∀ a ∈ ctx.applications, e.name ≠ a.name) →
        ∀ d ∈ e.dependencies, ∀ a ∈ ctx.applications, d.name ≠ a.name
  | .state => True

/-- What is requested holds together with what remains. -/
structure Sound (ctx : ValidationContext) : Prop where
  /-- Dependencies are met. -/
  met : ∀ a ∈ ctx.applications, ∀ d ∈ a.dependencies, ∃ b ∈ ctx.afterwards, d.MetBy b
  /-- No circle is in reach. -/
  free : ∀ a ∈ ctx.applications, CircleFree ctx.afterwards a
  /-- Interfaces are provided. -/
  provided : ∀ a ∈ ctx.applications, ∀ m ∈ a.allModules, ∀ r ∈ m.requires,
    InterfaceTable.Provided ctx.afterwards r

/-- A request that can be done and leads to something sound, if it leads to anything new. -/
structure Valid (ctx : ValidationContext) : Prop where
  /-- What is requested can be done. -/
  admissible : ctx.Admissible
  /-- What is not revoked is sound. -/
  sound : ctx.type ≠ .revoke → ctx.Sound

variable {ctx : ValidationContext}

theorem mem_remaining {a : Application} :
    a ∈ ctx.remaining ↔ a ∈ ctx.entitled ∧ ∀ b ∈ ctx.applications, a.name ≠ b.name := by
  simp only [remaining, remainingBeside, List.mem_filter, Bool.not_eq_true', ← Bool.not_eq_true,
    List.contains_iff_mem, List.mem_map, not_exists, not_and]
  exact and_congr_right fun _ => ⟨fun h b hb same => h b hb same.symm, fun h b hb same =>
    h b hb same.symm⟩

namespace Plain

theorem names (plain : ctx.Plain) : (ctx.afterwards.map (·.name)).Nodup := by
  rw [afterwards, List.map_append, List.nodup_append]
  refine ⟨plain.requested, plain.entitled.sublist (List.filter_sublist.map _), ?_⟩
  intro n hn n' hn' same
  obtain ⟨a, ha, rfl⟩ := List.mem_map.mp hn
  obtain ⟨b, hb, rfl⟩ := List.mem_map.mp hn'
  exact (mem_remaining.mp hb).2 a ha same.symm

theorem afterwards_readable (plain : ctx.Plain) : ∀ a ∈ ctx.afterwards, a.Readable := by
  intro a ha
  refine plain.readable a ?_
  rcases List.mem_append.mp ha with ha | ha
  · exact List.mem_append_left _ ha
  · exact List.mem_append_right _ (mem_remaining.mp ha).1

/-- The entitled application of a name. -/
theorem entitledNamed?_iff (plain : ctx.Plain) {name : String} {e : Application} :
    ctx.entitledNamed? name = some e ↔ e ∈ ctx.entitled ∧ e.name = name := by
  constructor
  · intro h
    exact ⟨List.mem_reverse.mp (List.mem_of_find?_eq_some h), by simpa using List.find?_some h⟩
  · rintro ⟨he, rfl⟩
    cases found : ctx.entitledNamed? e.name with
    | none =>
      have none_named := List.find?_eq_none.mp found e (List.mem_reverse.mpr he)
      simp at none_named
    | some e' =>
      have he' : e' ∈ ctx.entitled := List.mem_reverse.mp (List.mem_of_find?_eq_some found)
      have named : e'.name = e.name := by simpa using List.find?_some found
      rw [List.inj_on_of_nodup_map plain.entitled he' he named]

end Plain

/-! ## The check of the type -/

theorem checkNotEntitled_eq_ok_iff :
    ctx.checkNotEntitled = .ok () ↔
      ∀ a ∈ ctx.applications, ∀ e ∈ ctx.entitled, e.name ≠ a.name := by
  rw [checkNotEntitled, refuseUnlessEmpty_eq_ok, List.map_eq_nil_iff, List.filter_eq_nil_iff]
  refine forall₂_congr fun a _ => ?_
  simp [entitledNamed?, List.find?_isSome]

theorem checkEntitled_eq_ok_iff :
    ctx.checkEntitled = .ok () ↔ ∀ a ∈ ctx.applications, ∃ e ∈ ctx.entitled, e.id = a.id := by
  rw [checkEntitled, refuseUnlessEmpty_eq_ok, List.filter_eq_nil_iff, List.forall_mem_map]
  refine forall₂_congr fun a _ => ?_
  rw [Bool.not_eq_true, Bool.not_eq_false', List.contains_iff_mem, List.mem_map]

theorem checkUpgradable_eq_ok_iff (plain : ctx.Plain) :
    ctx.checkUpgradable = .ok () ↔
      ∀ a ∈ ctx.applications, ∃ e ∈ ctx.entitled, e.name = a.name ∧
        ∃ installed next, e.semver = .ok installed ∧ a.semver = .ok next ∧
          installed.before next := by
  constructor
  · intro h a ha
    obtain ⟨e, next, installed, named, hnext, hinstalled, before⟩ := checkUpgradable_eq_ok h a ha
    obtain ⟨he, named⟩ := plain.entitledNamed?_iff.mp named
    exact ⟨e, he, named, installed, next, hinstalled, hnext, before⟩
  · intro h
    have each : ∀ a ∈ ctx.applications, ∃ o, ctx.upgradeObstacle? a = .ok o ∧ o = none := by
      intro a ha
      obtain ⟨e, he, named, installed, next, hinstalled, hnext, before⟩ := h a ha
      refine ⟨none, ?_, rfl⟩
      rw [upgradeObstacle?, plain.entitledNamed?_iff.mpr ⟨he, named⟩]
      simp only [hinstalled, hnext, bind, Except.bind, before, if_true, pure, Except.pure]
    obtain ⟨obstacles, reads, none_left⟩ := Except.mapM_ok each
    rw [checkUpgradable, Except.bind_eq_ok]
    refine ⟨obstacles, reads, refuseUnlessEmpty_eq_ok.mpr ?_⟩
    rw [List.filterMap_eq_nil_iff]
    intro o ho
    have there : o ∈ ctx.applications.map fun _ => none := by
      rw [← none_left]
      exact List.mem_map_of_mem ho
    obtain ⟨a, -, rfl⟩ := List.mem_map.mp there
    rfl

theorem checkRevoke_eq_ok_iff (plain : ctx.Plain) :
    ctx.checkRevoke = .ok () ↔
      ∀ e ∈ ctx.entitled, (∀ a ∈ ctx.applications, e.name ≠ a.name) →
        ∀ d ∈ e.dependencies, ∀ a ∈ ctx.applications, d.name ≠ a.name := by
  constructor
  · intro h e he foreign d hd a ha same
    exact checkRevoke_eq_ok h e (mem_remaining.mpr ⟨he, foreign⟩) d hd
      (same ▸ List.mem_map_of_mem ha)
  · intro h
    have readable : ∀ a ∈ ctx.remaining, a.Readable := fun a ha =>
      plain.readable a (List.mem_append_right _ (mem_remaining.mp ha).1)
    have each : ∀ q ∈ DependencyReport.asked ctx.remaining, ∃ o,
        q.2.outcome ctx.remaining [] = .ok o := by
      intro q hq
      obtain ⟨e, he, hq⟩ := List.mem_flatMap.mp hq
      obtain ⟨d, hd, rfl⟩ := List.mem_map.mp hq
      have judged : ∃ o, d.outcome ctx.remaining [] = .ok o ∧ _ :=
        Dependency.outcome_ok ((readable e he).ranges d hd) fun a ha =>
          (readable a (by simpa using ha)).version
      obtain ⟨o, ho, -⟩ := judged
      exact ⟨o, ho⟩
    obtain ⟨report, reads, missing, -⟩ := DependencyReport.check_ok each
    rw [checkRevoke, Except.bind_eq_ok]
    refine ⟨report, reads, ?_⟩
    rw [refuseUnlessEmpty_eq_ok, List.map_eq_nil_iff, List.filter_eq_nil_iff]
    intro m hm revoked
    obtain ⟨e, he, hq⟩ := List.mem_flatMap.mp (missing m hm)
    obtain ⟨d, hd, same⟩ := List.mem_map.mp hq
    obtain ⟨he, foreign⟩ := mem_remaining.mp he
    obtain ⟨a, ha, named⟩ := List.mem_map.mp (List.contains_iff_mem.mp revoked)
    rw [← (Prod.mk.inj same).2] at named
    exact h e he foreign d hd a ha named.symm

/-! ## The check of what comes of it -/

theorem checkDependencies_iff (plain : ctx.Plain) :
    (∃ report, DependencyReport.check ctx.applications ctx.remaining = .ok report ∧ report.isOk) ↔
      ∀ a ∈ ctx.applications, ∀ d ∈ a.dependencies, ∃ b ∈ ctx.afterwards, d.MetBy b := by
  constructor
  · rintro ⟨report, reads, good⟩ a ha d hd
    have asked : (a.id, d) ∈ DependencyReport.asked ctx.applications :=
      List.mem_flatMap.mpr ⟨a, ha, List.mem_map_of_mem hd⟩
    obtain ⟨o, ho, met, -⟩ := DependencyReport.check_eq_ok reads _ asked
    rw [met good] at ho
    rcases Dependency.outcome_met ho with ⟨b, hb, met⟩ | ⟨b, hb, met⟩
    · exact ⟨b, List.mem_append_left _ hb, met⟩
    · exact ⟨b, List.mem_append_right _ (List.mem_of_find?_eq_some hb), met⟩
  · intro h
    have each : ∀ q ∈ DependencyReport.asked ctx.applications,
        q.2.outcome ctx.applications ctx.remaining = .ok .met := by
      intro q hq
      obtain ⟨a, ha, hq⟩ := List.mem_flatMap.mp hq
      obtain ⟨d, hd, rfl⟩ := List.mem_map.mp hq
      have readable := plain.afterwards_readable
      obtain ⟨o, ho, met⟩ := Dependency.outcome_ok
        ((readable a (List.mem_append_left _ ha)).ranges d hd)
        fun b hb => (readable b hb).version
      obtain ⟨b, hb, meets⟩ := h a ha d hd
      rw [ho, met ?_]
      rcases List.mem_append.mp hb with hb | hb
      · exact .inl ⟨b, hb, meets⟩
      · -- One application that remains has the name, so it is the first of the name.
        obtain ⟨c, found⟩ := Option.isSome_iff_exists.mp
          (List.find?_isSome.mpr ⟨b, hb, by simpa using meets.1⟩ :
            (ctx.remaining.find? (·.name = d.name)).isSome)
        have named : c.name = d.name := by simpa using List.find?_some found
        have same := List.inj_on_of_nodup_map plain.names
          (List.mem_append_right _ (List.mem_of_find?_eq_some found)) (List.mem_append_right _ hb)
          (named.trans meets.1.symm)
        exact .inr ⟨c, found, same ▸ meets⟩
    obtain ⟨report, reads, -, good⟩ := DependencyReport.check_ok fun q hq => ⟨.met, each q hq⟩
    exact ⟨report, reads, good each⟩

theorem checkInterfaces_iff :
    ctx.checkInterfaces = .ok () ↔ ∀ a ∈ ctx.applications, ∀ m ∈ a.allModules, ∀ r ∈ m.requires,
      InterfaceTable.Provided ctx.afterwards r := by
  have again : remainingBeside ctx.applications ctx.remaining = ctx.remaining := by
    rw [remaining, remainingBeside, remainingBeside, List.filter_filter]
    simp only [Bool.and_self]
  rw [checkInterfaces, refuseUnlessEmpty_eq_ok, InterfaceTable.missing_eq_nil_iff, again]
  rfl

theorem Plain.universe_of_mem (plain : ctx.Plain) {a : Application} (ha : a ∈ ctx.afterwards) :
    ∃ u : Universe, u.Plain ctx.afterwards := by
  obtain ⟨u, members⟩ := Universe.exists_ofApplications_iff.mpr
    ⟨List.ne_nil_of_mem ha, fun a ha => (plain.afterwards_readable a ha).version⟩
  exact ⟨u, members, plain.names, plain.afterwards_readable⟩

/-- The search starts from each of the requested applications. -/
theorem checkCircles_iff (plain : ctx.Plain) :
    ctx.checkCircles = .ok () ↔ ∀ a ∈ ctx.applications, ∀ u : Universe, u.Plain ctx.afterwards →
      ∃ found, u.dependenciesOf a = .ok found := by
  unfold checkCircles
  split
  next nobody =>
    have none_requested : ctx.applications = [] := (List.append_eq_nil_iff.mp nobody).1
    simp [none_requested]
  next somebody =>
    obtain ⟨b, hb⟩ := List.exists_mem_of_ne_nil ctx.afterwards (by simpa [afterwards] using somebody)
    obtain ⟨u, u_plain⟩ := plain.universe_of_mem hb
    rw [← afterwards, u_plain.members]
    change (ctx.applications.forM fun a => discard (u.dependenciesOf a)) = Except.ok () ↔ _
    rw [Except.forM_eq_ok]
    refine forall₂_congr fun a _ => Except.discard_eq_ok.trans ⟨?_, fun h => h u u_plain⟩
    intro found u' u'_plain
    obtain rfl := Except.ok.inj (u_plain.members.symm.trans u'_plain.members)
    exact found

theorem checkInstall_iff (plain : ctx.Plain) :
    ctx.checkInstall = .ok () ↔ ctx.checkCircles = .ok () ∧
      ∀ a ∈ ctx.applications, ∀ d ∈ a.dependencies, ∃ b ∈ ctx.afterwards, d.MetBy b := by
  rw [checkInstall, Except.bind_eq_ok, ← checkDependencies_iff plain]
  constructor
  · rintro ⟨_, circles, h⟩
    obtain ⟨report, reads, h⟩ := Except.bind_eq_ok.mp h
    refine ⟨circles, report, reads, ?_⟩
    by_contra bad
    rw [if_neg bad] at h
    cases h
  · rintro ⟨circles, report, reads, good⟩
    refine ⟨(), circles, Except.bind_eq_ok.mpr ⟨report, reads, ?_⟩⟩
    rw [if_pos good]
    rfl

/-! ## All checks -/

theorem validate_iff :
    ctx.validate = .ok () ↔ ctx.checkType = .ok () ∧
      if ctx.type = .revoke then ctx.checkRevoke = .ok ()
      else ctx.checkInstall = .ok () ∧ ctx.checkInterfaces = .ok () := by
  rw [validate, Except.bind_eq_ok, Validator.all, Except.forM_eq_ok]
  have runs : (∀ v ∈ [Validator.dependency, .interfaceIntegrity], ctx.run v = .ok ()) ↔
      if ctx.type = .revoke then ctx.checkRevoke = .ok ()
      else ctx.checkInstall = .ok () ∧ ctx.checkInterfaces = .ok () := by
    rw [List.forall_mem_cons, List.forall_mem_singleton]
    cases ht : ctx.type <;> simp [run, Validator.appliesTo, ht]
  rw [runs]
  constructor
  · rintro ⟨_, valid⟩
    exact valid
  · intro valid
    exact ⟨(), valid⟩

/-- What the check of the type leaves to the other checks of a request to revoke is that nothing
needs what is revoked. -/
theorem admissible_iff (plain : ctx.Plain) :
    ctx.Admissible ↔ ctx.checkType = .ok () ∧
      (ctx.type = .revoke → ctx.checkRevoke = .ok ()) := by
  unfold Admissible checkType
  cases ctx.type with
  | entitle => simp [checkNotEntitled_eq_ok_iff]
  | upgrade => simp [checkUpgradable_eq_ok_iff plain]
  | revoke => simp [checkEntitled_eq_ok_iff, checkRevoke_eq_ok_iff plain]
  | state => simp

/-- Validation accepts every valid request. -/
theorem validate_of_valid (plain : ctx.Plain) (valid : ctx.Valid) : ctx.validate = .ok () := by
  obtain ⟨admissible, sound⟩ := valid
  obtain ⟨type, revoke⟩ := (admissible_iff plain).mp admissible
  refine validate_iff.mpr ⟨type, ?_⟩
  split
  next revokes => exact revoke revokes
  next other =>
    have sound := sound other
    refine ⟨(checkInstall_iff plain).mpr ⟨?_, sound.met⟩, checkInterfaces_iff.mpr sound.provided⟩
    rw [checkCircles_iff plain]
    intro a ha u u_plain
    exact u_plain.dependenciesOf_of_free (List.mem_append_left _ ha) (sound.free a ha)

/-- It accepts no other one if applications in reach of a requested one have identifiers of their
own. -/
theorem valid_of_validate (plain : ctx.Plain)
    (identified : ∀ a ∈ ctx.applications, Identified ctx.afterwards a)
    (h : ctx.validate = .ok ()) : ctx.Valid := by
  obtain ⟨type, rest⟩ := validate_iff.mp h
  refine ⟨(admissible_iff plain).mpr ⟨type, fun revokes => ?_⟩, fun other => ?_⟩
  · rwa [if_pos revokes] at rest
  · rw [if_neg other] at rest
    obtain ⟨circles, met⟩ := (checkInstall_iff plain).mp rest.1
    refine ⟨met, fun a ha => ?_, checkInterfaces_iff.mp rest.2⟩
    have ha_after : a ∈ ctx.afterwards := List.mem_append_left _ ha
    obtain ⟨u, u_plain⟩ := plain.universe_of_mem ha_after
    obtain ⟨found, h⟩ := (checkCircles_iff plain).mp circles a ha u u_plain
    exact u_plain.free_of_dependenciesOf (identified a ha) h

/-- Validation accepts exactly the valid requests, if what the tenant has afterwards are applications
with different identifiers. -/
theorem validate_decides (ctx : ValidationContext) (plain : ctx.Plain)
    (distinct : (ctx.afterwards.map (·.id)).Nodup) : ctx.validate = .ok () ↔ ctx.Valid :=
  ⟨valid_of_validate plain fun _ ha => identified_of_nodup distinct (List.mem_append_left _ ha),
    validate_of_valid plain⟩

/-- A version of an application that takes the place of another one and needs a third one. -/
def replacing : ValidationContext where
  type := .upgrade
  applications :=
    [{ name := "a", version := "2.0.0", dependencies := [{ name := "b", range := "^1.0.0" }] }]
  entitled := [{ name := "a", version := "1.0.0" }, { name := "b", version := "1.0.0" }]

/-- Validation accepts an upgrade exactly if it is valid, which it is. -/
theorem validate_replacing :
    replacing.Plain ∧ (replacing.afterwards.map (·.id)).Nodup ∧ replacing.Valid ∧
      replacing.validate = .ok () := by
  have plain : replacing.Plain := ⟨by decide, by decide, by decide +kernel⟩
  have free : ∀ a ∈ replacing.afterwards, CircleFree replacing.afterwards a :=
    circleFree_of_rank (fun a => a.dependencies.length) (by decide +kernel)
  have admissible : replacing.Admissible := by
    intro a ha
    obtain rfl := List.mem_singleton.mp ha
    exact ⟨{ name := "a", version := "1.0.0" }, List.mem_cons_self, rfl, _, _, rfl, rfl, rfl⟩
  have valid : replacing.Valid := by
    refine ⟨admissible, fun _ => ⟨by decide +kernel, fun a ha => ?_, ?_⟩⟩
    · exact free a (List.mem_append_left _ ha)
    · intro a ha m hm
      obtain rfl := List.mem_singleton.mp ha
      cases hm
  have distinct : (replacing.afterwards.map (·.id)).Nodup := by decide
  exact ⟨plain, distinct, valid, (validate_decides replacing plain distinct).mpr valid⟩

/-- An application that needs two others. -/
def needingTwins : Application where
  name := "t"
  version := "1.0.0"
  dependencies :=
    [{ name := "x", range := "=1.0.0-2.0.0" }, { name := "x-1.0.0", range := "^2.0.0" }]

/-- One that needs nothing, -/
def freeTwin : Application := { name := "x", version := "1.0.0-2.0.0" }

/-- and one of the same identifier that closes a circle. -/
def circlingTwin : Application where
  name := "x-1.0.0"
  version := "2.0.0"
  dependencies := [{ name := "t", range := "^1.0.0" }]

/-- A request for an application that needs two of one identifier. -/
def twins : ValidationContext where
  type := .entitle
  applications := [needingTwins]
  entitled := [freeTwin, circlingTwin]

/-- Validation accepts a request that leads to a circle. The search goes through one of the twins
and takes the other one for it. -/
theorem validate_twins : twins.Plain ∧ twins.validate = .ok () ∧ ¬ twins.Valid := by
  have plain : twins.Plain := ⟨by decide, by decide, by decide +kernel⟩
  have circles : twins.checkCircles = .ok () := by
    rw [checkCircles_iff plain]
    intro a ha u u_plain
    obtain rfl := List.mem_singleton.mp ha
    have first : u.findMatch { name := "x", range := "=1.0.0-2.0.0" } = .ok (some freeTwin) :=
      u_plain.findMatch_of_met (by decide) (by decide +kernel)
    have second : u.findMatch { name := "x-1.0.0", range := "^2.0.0" } = .ok (some circlingTwin) :=
      u_plain.findMatch_of_met (by decide) (by decide +kernel)
    rw [Universe.dependenciesOf, needingTwins, Universe.visit_some first, if_neg (by decide),
      if_neg (by decide), freeTwin, Universe.visit_nil]
    change ∃ found, ((u.visit _ _ _).map _) = Except.ok found
    rw [Universe.visit_some second, if_neg (by decide), if_pos (by decide), Universe.visit_nil]
    exact ⟨_, rfl⟩
  have met : ∀ a ∈ twins.applications, ∀ d ∈ a.dependencies, ∃ b ∈ twins.afterwards, d.MetBy b := by
    decide +kernel
  refine ⟨plain, validate_iff.mpr ⟨rfl, ?_⟩, ?_⟩
  · exact ⟨(checkInstall_iff plain).mpr ⟨circles, met⟩, rfl⟩
  · rintro ⟨-, sound⟩
    have needs : Needs twins.afterwards needingTwins circlingTwin := by decide +kernel
    have needed : Needs twins.afterwards circlingTwin needingTwins := by decide +kernel
    exact (sound (by decide)).free needingTwins List.mem_cons_self _ .refl (.tail (.single needs) needed)

end ValidationContext

/-! ## What is looked up for a request -/

/-- The applications that a tenant has after a request that was looked up have different
identifiers: each of them is known under its own one. -/
theorem Service.Loaded.context_distinct {σ : Type} {s : Service σ} {w : σ} {r : EntitlementRequest}
    {l : LoadedRequest} (loaded : s.Loaded w r l) (type : EntitlementType) :
    ((l.context type).afterwards.map (·.id)).Nodup := by
  have checked : (l.checkedEntitled type).Sublist l.entitled := by
    unfold LoadedRequest.checkedEntitled
    split
    · exact List.filter_sublist
    · exact .refl _
  have remaining : (l.context type).remaining.Sublist l.entitled := List.filter_sublist.trans checked
  rw [ValidationContext.afterwards, List.map_append, List.nodup_append]
  refine ⟨loaded.requested_nodup, loaded.entitled_nodup.sublist (remaining.map _), ?_⟩
  intro i hi j hj same
  obtain ⟨a, ha, rfl⟩ := List.mem_map.mp hi
  obtain ⟨b, hb, rfl⟩ := List.mem_map.mp hj
  have known := ((Registry.mem_find loaded.requested).mp ha).2
  have known' := ((Registry.mem_find loaded.entitled).mp (remaining.subset hb)).2
  rw [same, known', Option.some.injEq] at known
  exact (ValidationContext.mem_remaining.mp hb).2 a ha (congrArg _ known)

end Provisioning
