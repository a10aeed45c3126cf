import Provisioning.Entitlement.Validation

/-!
# What checks let through

A request that no check refuses: what is revoked is there, what is new is of a new name, what is
upgraded is older, and every dependency of a requested application is met by another requested one
or by one that the request does not touch.
-/

namespace Provisioning

theorem refuseUnlessEmpty_eq_ok {α : Type} {refusal : List α → Refusal} {reasons : List α} :
    refuseUnlessEmpty refusal reasons = .ok () ↔ reasons = [] := by
  cases reasons <;> simp [refuseUnlessEmpty]

/-! ## Dependencies -/

/-- Whether an application has the name that a dependency asks for and lies in its range. -/
def Dependency.MetBy (d : Dependency) (a : Application) : Prop :=
  a.name = d.name ∧ ∃ range v, d.versions = .ok range ∧ a.semver = .ok v ∧ range.accepts v

/-- Whether an application meets a dependency, by reading both. -/
def Dependency.isMetBy (d : Dependency) (a : Application) : Bool :=
  match d.versions, a.semver with
  | .ok range, .ok v => a.name = d.name && range.accepts v
  | _, _ => false

theorem Dependency.isMetBy_iff {d : Dependency} {a : Application} : d.isMetBy a ↔ d.MetBy a := by
  unfold isMetBy MetBy
  cases hr : d.versions with
  | error refusal => simp
  | ok range => cases hv : a.semver <;> simp

instance (d : Dependency) (a : Application) : Decidable (d.MetBy a) :=
  decidable_of_iff _ Dependency.isMetBy_iff

/-- Every dependency of every application of a list is met by one of the list. -/
def Consistent (applications : List Application) : Prop :=
  ∀ k ∈ applications, ∀ d ∈ k.dependencies, ∃ a ∈ applications, d.MetBy a

instance (applications : List Application) : Decidable (Consistent applications) :=
  inferInstanceAs (Decidable (∀ k ∈ applications, ∀ d ∈ k.dependencies, ∃ a ∈ applications, _))

/-- A range accepts what it is said to accept. -/
theorem VersionRange.mem_acceptsEach {range : VersionRange} {applications : List Application}
    {matching : List (Application × Bool)} (h : range.acceptsEach applications = .ok matching) :
    matching.map (·.1) = applications ∧
      ∀ m ∈ matching, ∃ v, m.1.semver = .ok v ∧ m.2 = range.accepts v := by
  unfold acceptsEach at h
  induction applications generalizing matching with
  | nil =>
    simp only [List.mapM_nil, pure, Except.pure, Except.ok.injEq] at h
    simp [← h]
  | cons a rest ih =>
    rw [List.mapM_cons] at h
    obtain ⟨judged, hjudged, h⟩ := Except.bind_eq_ok.mp h
    obtain ⟨later, hlater, h⟩ := Except.bind_eq_ok.mp h
    obtain rfl := Except.ok.inj h
    obtain ⟨v, hv, rfl⟩ := Except.map_eq_ok.mp hjudged
    obtain ⟨names, versions⟩ := ih hlater
    exact ⟨by simp [names], by simpa [hv] using versions⟩

namespace Dependency

variable {d : Dependency} {candidates entitled : List Application}

/-- A dependency is met by a candidate or by the first entitled application of its name. -/
theorem outcome_met (h : d.outcome candidates entitled = .ok .met) :
    (∃ a ∈ candidates, d.MetBy a) ∨
      ∃ a, entitled.find? (·.name = d.name) = some a ∧ d.MetBy a := by
  rw [outcome, Except.bind_eq_ok] at h
  obtain ⟨range, hrange, h⟩ := h
  obtain ⟨matching, hmatching, h⟩ := Except.bind_eq_ok.mp h
  obtain ⟨names, versions⟩ := VersionRange.mem_acceptsEach hmatching
  split at h
  · rename_i some_in
    obtain ⟨⟨a, good⟩, hm, hgood⟩ := List.any_eq_true.mp some_in
    obtain ⟨v, hv, hacc⟩ := versions _ hm
    have ha : a ∈ candidates.filter (·.name = d.name) := by
      rw [← names]
      exact List.mem_map_of_mem hm
    obtain ⟨ha, hn⟩ := List.mem_filter.mp ha
    exact .inl ⟨a, ha, by simpa using hn, range, v, hrange, hv, hacc.symm.trans hgood⟩
  · split at h
    · rename_i a found
      have named : a.name = d.name := by simpa using List.find?_some found
      obtain ⟨v, hv, h⟩ := Except.bind_eq_ok.mp h
      have judged := Except.ok.inj h
      split at judged
      · rename_i accepts
        exact .inr ⟨a, found, named, range, v, hrange, hv, accepts⟩
      · simp at judged
    · split at h <;> simp [pure, Except.pure] at h

/-- A dependency is not missing if there is an application of its name. -/
theorem outcome_missing {o : DependencyOutcome} (h : d.outcome candidates [] = .ok o)
    (none_named : ∀ a ∈ candidates, a.name ≠ d.name) : o = .missing := by
  have empty : candidates.filter (·.name = d.name) = [] := by
    simpa [List.filter_eq_nil_iff] using none_named
  simp only [outcome, bind, Except.bind, empty, VersionRange.acceptsEach, List.mapM_nil, pure,
    Except.pure, List.any_nil, Bool.false_eq_true, if_false, List.find?_nil] at h
  split at h
  · simp at h
  · simpa using h.symm

end Dependency

namespace DependencyReport

/-- The dependencies that a check goes through. -/
def asked (candidates : List Application) : List (String × Dependency) :=
  candidates.flatMap fun a => a.dependencies.map fun d => (a.id, d)

theorem add_isOk {r : DependencyReport} {id : String} {d : Dependency} {o : DependencyOutcome} :
    (r.add id d o).isOk ↔ r.isOk ∧ o = .met := by
  cases o <;> simp [add, isOk]

theorem mem_add_missing {r : DependencyReport} {id : String} {d : Dependency}
    {o : DependencyOutcome} {m : MissingDependency} :
    m ∈ (r.add id d o).missing ↔
      m ∈ r.missing ∨ o = .missing ∧ m = { applicationId := id, dependency := d } := by
  cases o <;> simp [add]

/-- A report grows by what is missing and by what does not match. -/
theorem check_eq_ok {candidates entitled : List Application} {report : DependencyReport}
    (h : check candidates entitled = .ok report) :
    ∀ q ∈ asked candidates, ∃ o, q.2.outcome candidates entitled = .ok o ∧
      (report.isOk → o = .met) ∧
      (o = .missing → { applicationId := q.1, dependency := q.2 } ∈ report.missing) := by
  suffices general : ∀ (questions : List (String × Dependency)) (r r' : DependencyReport),
      questions.foldlM (fun report q =>
        (q.2.outcome candidates entitled).map (report.add q.1 q.2)) r = .ok r' →
      (r'.isOk → r.isOk) ∧ (∀ m ∈ r.missing, m ∈ r'.missing) ∧
      ∀ q ∈ questions, ∃ o, q.2.outcome candidates entitled = .ok o ∧ (r'.isOk → o = .met) ∧
        (o = .missing → { applicationId := q.1, dependency := q.2 } ∈ r'.missing) from
    (general _ _ _ h).2.2
  intro questions
  induction questions with
  | nil =>
    intro r r' hr
    simp only [List.foldlM_nil, pure, Except.pure, Except.ok.injEq] at hr
    subst hr
    simp
  | cons q rest ih =>
    intro r r' hr
    obtain ⟨id, d⟩ := q
    rw [List.foldlM_cons, Except.bind_eq_ok] at hr
    obtain ⟨r₁, hr₁, hr⟩ := hr
    obtain ⟨o, ho, rfl⟩ := Except.map_eq_ok.mp hr₁
    obtain ⟨ok, missing, later⟩ := ih _ _ hr
    refine ⟨fun h => (add_isOk.mp (ok h)).1, fun m hm => ?_, ?_⟩
    · exact missing m (mem_add_missing.mpr (.inl hm))
    · rw [List.forall_mem_cons]
      refine ⟨⟨o, ho, fun h => (add_isOk.mp (ok h)).2, fun hm => ?_⟩, later⟩
      exact missing _ (mem_add_missing.mpr (.inr ⟨hm, rfl⟩))

end DependencyReport

/-! ## Requests -/

namespace ValidationContext

variable {ctx : ValidationContext}

/-- No check refuses a request that is valid. -/
theorem validate_eq_ok (h : ctx.validate = .ok ()) :
    ctx.checkType = .ok () ∧ ctx.run .dependency = .ok () := by
  rw [validate, Except.bind_eq_ok] at h
  obtain ⟨_, type, each⟩ := h
  exact ⟨type, Except.forM_eq_ok.mp each .dependency (by decide)⟩

/-- There is no circle in reach of applications without dependencies. -/
theorem checkCircles_of_free (ctx : ValidationContext) {u : Universe}
    (readable : Universe.ofApplications (ctx.applications ++ ctx.remaining) = .ok u)
    (free : ∀ a ∈ ctx.applications, a.dependencies = []) : ctx.checkCircles = .ok () := by
  unfold checkCircles
  split
  · rfl
  · simp only [readable, bind, Except.bind]
    refine Except.forM_eq_ok.mpr fun a ha => ?_
    rw [Universe.dependenciesOf, free a ha, Universe.visit]
    rfl

/-- A request is valid that does not revoke, is about applications without dependencies, and passes
the check of its type and that of interfaces. -/
theorem validate_of_free (ctx : ValidationContext) (other : ctx.type ≠ .revoke) {u : Universe}
    (readable : Universe.ofApplications (ctx.applications ++ ctx.remaining) = .ok u)
    (free : ∀ a ∈ ctx.applications, a.dependencies = []) (type : ctx.checkType = .ok ())
    (interfaces : ctx.checkInterfaces = .ok ()) : ctx.validate = .ok () := by
  have nothing : DependencyReport.asked ctx.applications = [] := by
    rw [DependencyReport.asked, List.flatMap_eq_nil_iff]
    intro a ha
    rw [free a ha, List.map_nil]
  have report : DependencyReport.check ctx.applications ctx.remaining = .ok {} := by
    rw [DependencyReport.check, ← DependencyReport.asked, nothing]
    rfl
  have install : ctx.checkInstall = .ok () := by
    rw [checkInstall, Except.bind_eq_ok]
    refine ⟨(), ctx.checkCircles_of_free readable free, ?_⟩
    rw [report]
    rfl
  have each : ∀ v, ctx.run v = .ok () := by
    intro v
    unfold run
    split
    · cases v with
      | dependency => cases ht : ctx.type <;> first | exact install | exact absurd ht other
      | interfaceIntegrity => exact interfaces
    · rfl
  rw [validate, Except.bind_eq_ok]
  exact ⟨(), type, Except.forM_eq_ok.mpr fun v _ => each v⟩

/-- What is revoked is there. -/
theorem checkEntitled_eq_ok (h : ctx.checkEntitled = .ok ()) :
    ∀ a ∈ ctx.applications, a.id ∈ ctx.entitled.map (·.id) := by
  rw [checkEntitled, refuseUnlessEmpty_eq_ok, List.filter_eq_nil_iff] at h
  intro a ha
  simpa using h a.id (List.mem_map_of_mem ha)

/-- Every dependency of a requested application is met by a requested application, or by one that
the request does not touch. -/
theorem checkInstall_eq_ok (h : ctx.checkInstall = .ok ()) :
    ∀ a ∈ ctx.applications, ∀ d ∈ a.dependencies,
      ∃ b, (b ∈ ctx.applications ∨ b ∈ ctx.remaining) ∧ d.MetBy b := by
  rw [checkInstall, Except.bind_eq_ok] at h
  obtain ⟨_, -, h⟩ := h
  obtain ⟨report, hreport, h⟩ := Except.bind_eq_ok.mp h
  split at h
  · rename_i good
    intro a ha d hd
    have asked : (a.id, d) ∈ DependencyReport.asked ctx.applications :=
      List.mem_flatMap.mpr ⟨a, ha, List.mem_map_of_mem hd⟩
    obtain ⟨o, ho, met, -⟩ := DependencyReport.check_eq_ok hreport _ asked
    rw [met good] at ho
    rcases Dependency.outcome_met ho with ⟨b, hb, hm⟩ | ⟨b, hb, hm⟩
    · exact ⟨b, .inl hb, hm⟩
    · exact ⟨b, .inr (List.mem_of_find?_eq_some hb), hm⟩
  · simp [throw, throwThe, MonadExceptOf.throw] at h

/-- Nothing that the request does not touch needs the name of something revoked. -/
theorem checkRevoke_eq_ok (h : ctx.checkRevoke = .ok ()) :
    ∀ k ∈ ctx.remaining, ∀ d ∈ k.dependencies, d.name ∉ ctx.applications.map (·.name) := by
  rw [checkRevoke, Except.bind_eq_ok] at h
  obtain ⟨report, hreport, h⟩ := h
  rw [refuseUnlessEmpty_eq_ok, List.map_eq_nil_iff, List.filter_eq_nil_iff] at h
  intro k hk d hd revoked
  have asked : (k.id, d) ∈ DependencyReport.asked ctx.remaining :=
    List.mem_flatMap.mpr ⟨k, hk, List.mem_map_of_mem hd⟩
  obtain ⟨o, ho, -, missing⟩ := DependencyReport.check_eq_ok hreport _ asked
  have gone : o = .missing := by
    refine Dependency.outcome_missing ho fun a ha heq => ?_
    have away := (List.mem_filter.mp ha).2
    simp only [Bool.not_eq_true', List.contains_iff_mem, ← Bool.not_eq_true] at away
    exact away (heq ▸ revoked)
  exact h _ (missing gone) (List.contains_iff_mem.mpr revoked)

/-- What is upgraded is there in an earlier version. -/
theorem checkUpgradable_eq_ok (h : ctx.checkUpgradable = .ok ()) :
    ∀ a ∈ ctx.applications, ∃ current next installed, ctx.entitledNamed? a.name = some current ∧
      a.semver = .ok next ∧ current.semver = .ok installed ∧ installed.before next := by
  rw [checkUpgradable, Except.bind_eq_ok] at h
  obtain ⟨obstacles, hobstacles, h⟩ := h
  rw [refuseUnlessEmpty_eq_ok] at h
  generalize ctx.applications = applications at hobstacles ⊢
  induction applications generalizing obstacles with
  | nil => simp
  | cons a rest ih =>
    rw [List.mapM_cons] at hobstacles
    obtain ⟨obstacle, hobstacle, hobstacles⟩ := Except.bind_eq_ok.mp hobstacles
    obtain ⟨later, hlater, hobstacles⟩ := Except.bind_eq_ok.mp hobstacles
    obtain rfl := Except.ok.inj hobstacles
    cases obstacle with
    | some o => simp at h
    | none =>
      rw [List.forall_mem_cons]
      refine ⟨?_, ih later (by simpa using h) hlater⟩
      unfold upgradeObstacle? at hobstacle
      split at hobstacle
      · simp at hobstacle
      rename_i current hcurrent
      obtain ⟨next, hnext, hobstacle⟩ := Except.bind_eq_ok.mp hobstacle
      obtain ⟨installed, hinstalled, hobstacle⟩ := Except.bind_eq_ok.mp hobstacle
      refine ⟨current, next, installed, hcurrent, hnext, hinstalled, ?_⟩
      simpa [pure, Except.pure] using hobstacle

end ValidationContext

end Provisioning
