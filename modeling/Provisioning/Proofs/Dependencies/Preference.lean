import Provisioning.Proofs.Entitlement.Checks
import Provisioning.Proofs.Version.Order

/-!
# The application that a dependency leads to

Several members of a universe may meet a dependency. The one with the highest version is preferred,
and of several with one version the one that is declared first. So a dependency leads to one
application at most, and the applications form a graph.
-/

namespace Provisioning

/-- Whether one can read the version of an application and the ranges of its dependencies. -/
structure Application.Readable (a : Application) : Prop where
  /-- The version is one. -/
  version : ∃ v, a.semver = .ok v
  /-- The ranges are some. -/
  ranges : ∀ d ∈ a.dependencies, ∃ range, d.versions = .ok range

instance (a : Application) : Decidable a.Readable :=
  decidable_of_iff (a.semver.isOk ∧ ∀ d ∈ a.dependencies, d.versions.isOk) <| by
    have known {α : Type} (x : Except Refusal α) : x.isOk ↔ ∃ y, x = .ok y := by
      cases x <;> simp [Except.isOk, Except.toBool]
    simp only [known]
    exact ⟨fun ⟨version, ranges⟩ => ⟨version, ranges⟩, fun ⟨version, ranges⟩ => ⟨version, ranges⟩⟩

/-- The version of an application comes before that of another one. -/
def Application.OlderThan (a b : Application) : Prop :=
  ∃ v w, a.semver = .ok v ∧ b.semver = .ok w ∧ v.before w

/-- An application meets a dependency and has the highest version of all that do; those declared
earlier are older. -/
def Preferred (applications : List Application) (d : Dependency) (b : Application) : Prop :=
  ∃ earlier later, applications = earlier ++ b :: later ∧ d.MetBy b ∧
    (∀ c ∈ earlier, d.MetBy c → c.OlderThan b) ∧ ∀ c ∈ later, d.MetBy c → ¬b.OlderThan c

/-- A dependency of an application leads to another one. -/
def Leads (applications : List Application) (a b : Application) : Prop :=
  ∃ d ∈ a.dependencies, Preferred applications d b

variable {applications : List Application} {a b c : Application} {d : Dependency}

theorem Preferred.mem (h : Preferred applications d b) : b ∈ applications := by
  obtain ⟨earlier, later, rfl, -⟩ := h
  exact List.mem_append_right _ List.mem_cons_self

theorem Preferred.metBy (h : Preferred applications d b) : d.MetBy b := by
  obtain ⟨_, _, _, met, -⟩ := h
  exact met

theorem Leads.mem (h : Leads applications a b) : b ∈ applications :=
  h.choose_spec.2.mem

namespace Universe

/-! ## The members of a universe -/

theorem mem_ofApplications {u : Universe} (h : ofApplications applications = .ok u) :
    u.members.map (·.2) = applications ∧ ∀ m ∈ u.members, m.2.semver = .ok m.1 := by
  unfold ofApplications at h
  split at h
  · cases h
  obtain ⟨members, hm, rfl⟩ := Except.map_eq_ok.mp h
  clear h
  induction applications generalizing members with
  | nil =>
    obtain rfl : [] = members := by simpa [pure, Except.pure] using hm
    simp
  | cons a rest ih =>
    rw [List.mapM_cons] at hm
    obtain ⟨m, hfirst, hm⟩ := Except.bind_eq_ok.mp hm
    obtain ⟨later, hlater, hm⟩ := Except.bind_eq_ok.mp hm
    obtain rfl := Except.ok.inj hm
    obtain ⟨v, hv, rfl⟩ := Except.map_eq_ok.mp hfirst
    cases rest with
    | nil =>
      obtain rfl : [] = later := by simpa [pure, Except.pure] using hlater
      simpa using hv
    | cons a' rest =>
      obtain ⟨names, versions⟩ := ih (by simp) later hlater
      exact ⟨by simp [names], by simpa [hv] using versions⟩

/-- There is a universe of applications if there are some and one can read their versions. -/
theorem exists_ofApplications_iff : (∃ u, ofApplications applications = .ok u) ↔
    applications ≠ [] ∧ ∀ a ∈ applications, ∃ v, a.semver = .ok v := by
  constructor
  · rintro ⟨u, h⟩
    obtain ⟨rfl, versions⟩ := mem_ofApplications h
    refine ⟨fun nobody => ?_, List.forall_mem_map.mpr fun m hm => ⟨m.1, versions m hm⟩⟩
    rw [nobody] at h
    cases h
  · rintro ⟨somebody, readable⟩
    have each : ∀ a ∈ applications, ∃ m, (a.semver.map fun v => (v, a)) = .ok m ∧ m.2 = id a := by
      intro a ha
      obtain ⟨v, hv⟩ := readable a ha
      exact ⟨(v, a), by rw [hv]; rfl, rfl⟩
    obtain ⟨members, hmembers, -⟩ := Except.mapM_ok each
    refine ⟨{ members }, ?_⟩
    rw [ofApplications, if_neg (by simpa using somebody), hmembers]
    rfl

variable {u : Universe}

/-! ## Where a dependency leads -/

theorem latest?_eq_none {members : List (Version × Application)} (h : latest? members = none) :
    members = [] := by
  cases members with
  | nil => rfl
  | cons m rest =>
    simp only [latest?] at h
    split at h
    · split at h <;> cases h
    · cases h

/-- The highest version stands after lower ones, and before versions that are not higher. -/
theorem latest?_eq_some_iff {members : List (Version × Application)} {m : Version × Application} :
    latest? members = some m ↔ ∃ earlier later, members = earlier ++ m :: later ∧
      (∀ c ∈ earlier, c.1.before m.1) ∧ ∀ c ∈ later, ¬m.1.before c.1 := by
  constructor
  · intro h
    induction members generalizing m with
    | nil => cases h
    | cons first rest ih =>
      simp only [latest?] at h
      split at h
      next best hbest =>
        obtain ⟨earlier, later, rfl, lower, not_higher⟩ := ih hbest
        by_cases before : first.1.before best.1
        · rw [if_pos before] at h
          obtain rfl := Option.some.inj h
          exact ⟨first :: earlier, later, rfl, List.forall_mem_cons.mpr ⟨before, lower⟩, not_higher⟩
        · rw [if_neg before] at h
          obtain rfl := Option.some.inj h
          refine ⟨[], earlier ++ best :: later, rfl, by simp, fun c hc higher => before ?_⟩
          rcases List.mem_append.mp hc with hc | hc
          · exact Version.before_trans higher (lower c hc)
          · rcases List.mem_cons.mp hc with rfl | hc
            · exact higher
            · exact Version.before_of_not_before higher (not_higher c hc)
      next hnone =>
        obtain rfl := Option.some.inj h
        obtain rfl := latest?_eq_none hnone
        exact ⟨[], [], rfl, by simp, by simp⟩
  · rintro ⟨earlier, later, rfl, lower, not_higher⟩
    induction earlier with
    | nil =>
      rw [List.nil_append, latest?]
      split
      next best hbest => rw [if_neg (not_higher best (latest?_mem hbest))]
      next => rfl
    | cons c rest ih =>
      obtain ⟨before, lower⟩ := List.forall_mem_cons.mp lower
      rw [List.cons_append, latest?, ih lower]
      exact if_pos before

/-- The highest version of those that are fit. -/
theorem latest?_filter_eq_some_iff {members : List (Version × Application)}
    {m : Version × Application} {fit : Version × Application → Bool} :
    latest? (members.filter fit) = some m ↔ ∃ earlier later, members = earlier ++ m :: later ∧
      fit m ∧ (∀ c ∈ earlier, fit c → c.1.before m.1) ∧
        ∀ c ∈ later, fit c → ¬m.1.before c.1 := by
  rw [latest?_eq_some_iff]
  constructor
  · rintro ⟨earlier, later, split, lower, not_higher⟩
    obtain ⟨front, back, rfl, rfl, hback⟩ := List.filter_eq_append_iff.mp split
    obtain ⟨between, behind, rfl, unfit, fits, rfl⟩ := List.filter_eq_cons_iff.mp hback
    refine ⟨front ++ between, behind, by simp, fits, fun c hc fit_c => ?_, fun c hc fit_c =>
      not_higher c (List.mem_filter.mpr ⟨hc, fit_c⟩)⟩
    rcases List.mem_append.mp hc with hc | hc
    · exact lower c (List.mem_filter.mpr ⟨hc, fit_c⟩)
    · exact absurd fit_c (unfit c hc)
  · rintro ⟨earlier, later, rfl, fits, lower, not_higher⟩
    refine ⟨earlier.filter fit, later.filter fit, ?_, fun c hc => ?_, fun c hc => ?_⟩
    · rw [List.filter_append, List.filter_cons_of_pos fits]
    · exact lower c (List.mem_filter.mp hc).1 (List.mem_filter.mp hc).2
    · exact not_higher c (List.mem_filter.mp hc).1 (List.mem_filter.mp hc).2

/-- The range of a dependency is read only where there are members of the name. -/
theorem findMatch_eq (u : Universe) (d : Dependency) :
    u.findMatch d = if ∃ m ∈ u.members, m.2.name = d.name then
      d.versions.map fun range =>
        (latest? (u.members.filter fun m => m.2.name = d.name && range.accepts m.1)).map (·.2)
    else .ok none := by
  unfold findMatch
  split
  next nobody =>
    rw [if_neg]
    rintro ⟨m, hm, named⟩
    exact List.filter_eq_nil_iff.mp nobody m hm (decide_eq_true named)
  next candidates =>
    have somebody : ∃ m ∈ u.members, m.2.name = d.name := by
      obtain ⟨m, hm⟩ := List.exists_mem_of_ne_nil _ candidates
      exact ⟨m, (List.mem_filter.mp hm).1, of_decide_eq_true (List.mem_filter.mp hm).2⟩
    rw [if_pos somebody]
    cases d.versions with
    | error refusal => rfl
    | ok range => simp only [Except.map, List.filter_filter, Bool.and_comm]

/-- What cannot be read is a range. -/
theorem findMatch_error {refusal : Refusal} (h : u.findMatch d = .error refusal) :
    ∃ fault, refusal = .invalidVersion d.range fault := by
  rw [findMatch_eq] at h
  split at h
  · cases hv : VersionRange.read d.range with
    | error fault =>
      rw [Dependency.versions, hv] at h
      exact ⟨fault, (Except.error.inj h).symm⟩
    | ok range =>
      rw [Dependency.versions, hv] at h
      cases h
  · cases h

/-- One can tell where a dependency leads if one can read its range or nobody has its name. -/
theorem findMatch_ok_iff (members : ofApplications applications = .ok u) :
    (∃ o, u.findMatch d = .ok o) ↔
      (d.name ∈ applications.map (·.name) → ∃ range, d.versions = .ok range) := by
  obtain ⟨rfl, -⟩ := mem_ofApplications members
  have named : d.name ∈ (u.members.map (·.2)).map (·.name) ↔
      ∃ m ∈ u.members, m.2.name = d.name := by simp
  rw [findMatch_eq, named]
  split
  next somebody =>
    rw [forall_prop_of_true somebody]
    cases d.versions <;> simp [Except.map]
  next nobody => simp [nobody]

theorem findMatch_eq_some : u.findMatch d = .ok (some b) ↔ ∃ range, d.versions = .ok range ∧
    ∃ m, latest? (u.members.filter fun m => m.2.name = d.name && range.accepts m.1) = some m ∧
      m.2 = b := by
  rw [findMatch_eq]
  split
  next => simp only [Except.map_eq_ok, Option.map_eq_some_iff]
  next nobody =>
    constructor
    · intro h
      cases h
    · rintro ⟨range, -, m, hm, -⟩
      obtain ⟨there, fits⟩ := List.mem_filter.mp (latest?_mem hm)
      have named : m.2.name = d.name := of_decide_eq_true (Bool.and_eq_true_iff.mp fits).1
      exact absurd ⟨m, there, named⟩ nobody

/-- What is preferred of the members is told by their places among them. -/
theorem preferred_members_iff {members : List (Version × Application)} :
    Preferred (members.map (·.2)) d b ↔ ∃ earlier m later, members = earlier ++ m :: later ∧
      m.2 = b ∧ d.MetBy m.2 ∧ (∀ c ∈ earlier, d.MetBy c.2 → c.2.OlderThan m.2) ∧
        ∀ c ∈ later, d.MetBy c.2 → ¬m.2.OlderThan c.2 := by
  constructor
  · rintro ⟨earlier, later, split, met, lower, not_higher⟩
    obtain ⟨front, back, parts, rfl, hback⟩ := List.map_eq_append_iff.mp split
    obtain ⟨m, behind, rfl, rfl, rfl⟩ := List.map_eq_cons_iff.mp hback
    exact ⟨front, m, behind, parts, rfl, met, List.forall_mem_map.mp lower,
      List.forall_mem_map.mp not_higher⟩
  · rintro ⟨earlier, m, later, rfl, rfl, met, lower, not_higher⟩
    exact ⟨earlier.map (·.2), later.map (·.2), by simp, met, List.forall_mem_map.mpr lower,
      List.forall_mem_map.mpr not_higher⟩

/-- A dependency leads to the application that is preferred. -/
theorem findMatch_eq_some_iff (members : ofApplications applications = .ok u) :
    u.findMatch d = .ok (some b) ↔ Preferred applications d b := by
  obtain ⟨rfl, versions⟩ := mem_ofApplications members
  have older {m m' : Version × Application} (hm : m ∈ u.members) (hm' : m' ∈ u.members) :
      m.2.OlderThan m'.2 ↔ m.1.before m'.1 := by
    unfold Application.OlderThan
    rw [versions m hm, versions m' hm']
    simp
  have met {range : VersionRange} (hr : d.versions = .ok range) {m : Version × Application}
      (hm : m ∈ u.members) : d.MetBy m.2 ↔ m.2.name = d.name && range.accepts m.1 := by
    unfold Dependency.MetBy
    rw [hr, versions m hm]
    simp
  -- Both sides take the members apart in the same way; what they say of the parts is the same.
  have parts_iff {range : VersionRange} (hr : d.versions = .ok range)
      {earlier later : List (Version × Application)} {m : Version × Application}
      (parts : u.members = earlier ++ m :: later) :
      ((m.2.name = d.name && range.accepts m.1) ∧
        (∀ c ∈ earlier, (c.2.name = d.name && range.accepts c.1) → c.1.before m.1) ∧
          ∀ c ∈ later, (c.2.name = d.name && range.accepts c.1) → ¬m.1.before c.1) ↔
      (d.MetBy m.2 ∧ (∀ c ∈ earlier, d.MetBy c.2 → c.2.OlderThan m.2) ∧
        ∀ c ∈ later, d.MetBy c.2 → ¬m.2.OlderThan c.2) := by
    have hm : m ∈ u.members := by simp [parts]
    have front : ∀ c ∈ earlier, c ∈ u.members := fun c hc => by simp [parts, hc]
    have back : ∀ c ∈ later, c ∈ u.members := fun c hc => by simp [parts, hc]
    refine and_congr (met hr hm).symm (and_congr (forall₂_congr fun c hc => ?_)
      (forall₂_congr fun c hc => ?_))
    · rw [met hr (front c hc), older (front c hc) hm]
    · rw [met hr (back c hc), older hm (back c hc)]
  rw [findMatch_eq_some, preferred_members_iff]
  constructor
  · rintro ⟨range, hr, m, hm, same⟩
    obtain ⟨earlier, later, parts, fits⟩ := latest?_filter_eq_some_iff.mp hm
    exact ⟨earlier, m, later, parts, same, (parts_iff hr parts).mp fits⟩
  · rintro ⟨earlier, m, later, parts, same, meets⟩
    obtain ⟨-, range, -, hr, -⟩ := meets.1
    exact ⟨range, hr, m, latest?_filter_eq_some_iff.mpr
      ⟨earlier, later, parts, (parts_iff hr parts).mpr meets⟩, same⟩

end Universe

end Provisioning
