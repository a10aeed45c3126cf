import Provisioning.Proofs.Application.Identifiers
import Provisioning.Proofs.Entitlement.Convergence

/-!
# Carrying out a transition plan

A plan does one thing at most under each name (`TransitionPlan.stepFor?`). What it does, in any
order, leads from the entitled identifiers to the desired ones, and none of it can be left out
(`TransitionPlan.ofIds_minimal`).
-/

namespace Provisioning

namespace Versions

variable {side : Side} {ids : List String} {versions : Versions}

/-- Two of the identifiers name different versions of one application. -/
def Rival (ids : List String) : Prop :=
  ∃ id ∈ ids, ∃ id' ∈ ids, ∃ v v', VersionedName.read? id = some v ∧
    VersionedName.read? id' = some v' ∧ v.name = v'.name ∧ v.version ≠ v'.version

/-- A list of identifiers has no versions exactly if one of them cannot be read or two of them are
different versions of one application. -/
theorem ofIds_isError_iff : (∃ refusal, ofIds side ids = .error refusal) ↔
    (∃ id ∈ ids, VersionedName.read? id = none) ∨ Rival ids := by
  constructor
  · rintro ⟨refusal, h⟩
    by_contra fine
    obtain ⟨readable, single⟩ := not_or.mp fine
    obtain ⟨versions, made⟩ : ∃ versions, ofIds side ids = .ok versions := by
      refine ofIds_ok side (fun id hid => ?_) fun id hid id' hid' name version version' hv hv' => ?_
      · cases hr : VersionedName.read? id with
        | none => exact absurd ⟨id, hid, hr⟩ readable
        | some v => exact ⟨v, VersionedName.parse_eq_ok.mpr hr⟩
      · by_contra ne
        exact single ⟨id, hid, id', hid', _, _, VersionedName.parse_eq_ok.mp hv,
          VersionedName.parse_eq_ok.mp hv', rfl, ne⟩
    rw [h] at made
    cases made
  · intro wrong
    cases h : ofIds side ids with
    | error refusal => exact ⟨refusal, rfl⟩
    | ok versions =>
      rcases wrong with ⟨id, hid, unreadable⟩ | ⟨id, hid, id', hid', v, v', hv, hv', name, ne⟩
      · obtain ⟨v, hv⟩ := readable_of_ofIds h id hid
        rw [VersionedName.parse_eq_ok, unreadable] at hv
        cases hv
      · have first := (get?_ofIds h v.name v.version).mpr ⟨id, hid, VersionedName.parse_eq_ok.mpr hv⟩
        have second := (get?_ofIds h v'.name v'.version).mpr
          ⟨id', hid', VersionedName.parse_eq_ok.mpr hv'⟩
        rw [name, second] at first
        exact absurd (Option.some.inj first).symm ne

/-- The identifiers of versions are the texts that they were read of, without the blanks. -/
theorem mem_trimmed_iff (h : ofIds side ids = .ok versions) {x : String} :
    x ∈ ids.map Text.trim ↔
      ∃ name version, versions.get? name = some version ∧ (VersionedName.mk name version).id = x := by
  rw [List.mem_map]
  constructor
  · rintro ⟨id, hid, rfl⟩
    obtain ⟨⟨name, version⟩, hv⟩ := readable_of_ofIds h id hid
    have there := (get?_ofIds h name version).mpr ⟨id, hid, hv⟩
    exact ⟨name, version, there, VersionedName.id_of_read? (VersionedName.parse_eq_ok.mp hv)⟩
  · rintro ⟨name, version, there, rfl⟩
    obtain ⟨id, hid, hv⟩ := (get?_ofIds h name version).mp there
    exact ⟨id, hid, (VersionedName.id_of_read? (VersionedName.parse_eq_ok.mp hv)).symm⟩

theorem read_of_get? (h : ofIds side ids = .ok versions) {name version : String}
    (there : versions.get? name = some version) :
    ∃ id, VersionedName.read? id = some ⟨name, version⟩ := by
  obtain ⟨id, -, hv⟩ := (get?_ofIds h name version).mp there
  exact ⟨id, VersionedName.parse_eq_ok.mp hv⟩

theorem mem_idsOf {names : List String} {x : String} : x ∈ versions.idsOf names ↔
    ∃ name ∈ names, ∃ version, versions.get? name = some version ∧
      (VersionedName.mk name version).id = x := by
  simp [idsOf]

theorem idsOf_nodup (h : ofIds side ids = .ok versions) {names : List String}
    (nodup : names.Nodup) : (versions.idsOf names).Nodup := by
  refine nodup.filterMap fun name name' x hx hx' => ?_
  obtain ⟨version, there, rfl⟩ := Option.map_eq_some_iff.mp hx
  obtain ⟨version', there', same⟩ := Option.map_eq_some_iff.mp hx'
  obtain ⟨id, hid⟩ := read_of_get? h there
  obtain ⟨id', hid'⟩ := read_of_get? h there'
  exact (VersionedName.mk.inj (VersionedName.eq_of_id hid hid' same.symm)).1

end Versions

/-! ## Steps -/

/-- What is done about one name. -/
inductive PlanStep where
  /-- An application is taken away. -/
  | revoke (id : String)
  /-- A version takes the place of the installed one. -/
  | upgrade (next installed : String)
  /-- An application is given. -/
  | entitle (id : String)
deriving DecidableEq

namespace PlanStep

/-- What comes. -/
def gives : PlanStep → List String
  | revoke _ => []
  | upgrade next _ => [next]
  | entitle id => [id]

/-- What goes. -/
def takes : PlanStep → List String
  | revoke id => [id]
  | upgrade _ installed => [installed]
  | entitle _ => []

/-- What is there after steps, of which each takes away first and gives then. -/
def carryOut (steps : List PlanStep) (E : Set String) : Set String :=
  steps.foldl (fun E s => exchanged s.gives s.takes E) E

variable {steps : List PlanStep} {E : Set String} {x : String}

/-- Steps that take nothing away that they give can be made all at once. -/
theorem mem_carryOut (apart : (steps.flatMap gives).Disjoint (steps.flatMap takes)) :
    x ∈ carryOut steps E ↔
      x ∈ steps.flatMap gives ∨ x ∉ steps.flatMap takes ∧ x ∈ E := by
  induction steps generalizing E with
  | nil => simp [carryOut]
  | cons s rest ih =>
    rw [List.flatMap_cons, List.flatMap_cons] at apart ⊢
    have later : (rest.flatMap gives).Disjoint (rest.flatMap takes) := fun y given taken =>
      apart (List.mem_append_right _ given) (List.mem_append_right _ taken)
    have here : x ∈ s.gives → x ∉ rest.flatMap takes := fun given taken =>
      apart (List.mem_append_left _ given) (List.mem_append_right _ taken)
    have unfolded : x ∈ carryOut (s :: rest) E ↔ x ∈ carryOut rest (exchanged s.gives s.takes E) :=
      .rfl
    rw [unfolded, ih later, mem_exchanged, List.mem_append, List.mem_append]
    tauto

end PlanStep

namespace TransitionPlan

open PlanStep (carryOut)

/-- The steps of a plan. -/
def steps (p : TransitionPlan) : List PlanStep :=
  p.revokeIds.map .revoke ++ p.upgradePairs.map (fun (next, installed) => .upgrade next installed)
    ++ p.entitleIds.map .entitle

/-- What a plan does about a name. -/
def stepFor? (p : TransitionPlan) (name : String) : Option PlanStep :=
  match p.entitled.get? name, p.desired.get? name with
  | none, none => none
  | some installed, none => some (.revoke (VersionedName.mk name installed).id)
  | none, some next => some (.entitle (VersionedName.mk name next).id)
  | some installed, some next =>
    if installed = next then
      none
    else
      some (.upgrade (VersionedName.mk name next).id (VersionedName.mk name installed).id)

variable {p : TransitionPlan} {name x : String} {s s' : PlanStep}

theorem mem_upgradePairs {pair : String × String} : pair ∈ p.upgradePairs ↔
    ∃ name installed next, p.entitled.get? name = some installed ∧
      p.desired.get? name = some next ∧ installed ≠ next ∧
      pair = ((VersionedName.mk name next).id, (VersionedName.mk name installed).id) := by
  rw [upgradePairs, List.mem_filterMap]
  constructor
  · rintro ⟨name, hname, hpair⟩
    obtain ⟨installed, next, hi, hn, ne⟩ := mem_upgrade.mp hname
    simp only [hi, hn] at hpair
    exact ⟨name, installed, next, hi, hn, ne, (Option.some.inj hpair).symm⟩
  · rintro ⟨name, installed, next, hi, hn, ne, rfl⟩
    refine ⟨name, mem_upgrade.mpr ⟨installed, next, hi, hn, ne⟩, ?_⟩
    simp only [hi, hn]
    rfl

/-- What a plan does about a name and why: the name is on one side only, or in different versions on
both. -/
theorem stepFor?_eq_some (h : p.stepFor? name = some s) :
    (∃ installed, p.entitled.get? name = some installed ∧ p.desired.get? name = none ∧
      s = .revoke (VersionedName.mk name installed).id) ∨
    (∃ next, p.entitled.get? name = none ∧ p.desired.get? name = some next ∧
      s = .entitle (VersionedName.mk name next).id) ∨
    ∃ installed next, p.entitled.get? name = some installed ∧ p.desired.get? name = some next ∧
      installed ≠ next ∧
      s = .upgrade (VersionedName.mk name next).id (VersionedName.mk name installed).id := by
  unfold stepFor? at h
  split at h
  · cases h
  · rename_i installed hi hn
    exact .inl ⟨installed, hi, hn, (Option.some.inj h).symm⟩
  · rename_i next hi hn
    exact .inr (.inl ⟨next, hi, hn, (Option.some.inj h).symm⟩)
  · rename_i installed next hi hn
    split at h
    · cases h
    · rename_i ne
      exact .inr (.inr ⟨installed, next, hi, hn, ne, (Option.some.inj h).symm⟩)

theorem mem_steps : s ∈ p.steps ↔ ∃ name, p.stepFor? name = some s := by
  rw [steps, List.mem_append, List.mem_append, List.mem_map, List.mem_map, List.mem_map]
  constructor
  · rintro ((⟨id, hid, rfl⟩ | ⟨pair, hpair, rfl⟩) | ⟨id, hid, rfl⟩)
    · obtain ⟨name, hname, installed, there, rfl⟩ := Versions.mem_idsOf.mp hid
      have absent := (mem_revoke.mp hname).2
      exact ⟨name, by simp only [stepFor?, there, absent]⟩
    · obtain ⟨name, installed, next, hi, hn, ne, rfl⟩ := mem_upgradePairs.mp hpair
      exact ⟨name, by simp only [stepFor?, hi, hn, if_neg ne]⟩
    · obtain ⟨name, hname, next, there, rfl⟩ := Versions.mem_idsOf.mp hid
      have absent := (mem_entitle.mp hname).2
      exact ⟨name, by simp only [stepFor?, there, absent]⟩
  · rintro ⟨name, h⟩
    obtain ⟨installed, hi, hn, rfl⟩ | ⟨next, hi, hn, rfl⟩ | ⟨installed, next, hi, hn, ne, rfl⟩ :=
      stepFor?_eq_some h
    · have bucket := mem_revoke.mpr ⟨⟨installed, hi⟩, hn⟩
      exact .inl (.inl ⟨_, Versions.mem_idsOf.mpr ⟨name, bucket, installed, hi, rfl⟩, rfl⟩)
    · have bucket := mem_entitle.mpr ⟨⟨next, hn⟩, hi⟩
      exact .inr ⟨_, Versions.mem_idsOf.mpr ⟨name, bucket, next, hn, rfl⟩, rfl⟩
    · exact .inl (.inr ⟨_, mem_upgradePairs.mpr ⟨name, installed, next, hi, hn, ne, rfl⟩, rfl⟩)

/-- What the step under a name gives is the desired version of the name, which is not there. -/
theorem mem_gives (h : p.stepFor? name = some s) : x ∈ s.gives ↔
    ∃ next, p.desired.get? name = some next ∧ p.entitled.get? name ≠ some next ∧
      x = (VersionedName.mk name next).id := by
  obtain ⟨installed, hi, hn, rfl⟩ | ⟨next, hi, hn, rfl⟩ | ⟨installed, next, hi, hn, ne, rfl⟩ :=
    stepFor?_eq_some h
  · simp [hn, PlanStep.gives]
  · simp [hi, hn, PlanStep.gives]
  · simp [hi, hn, ne, PlanStep.gives]

theorem mem_takes (h : p.stepFor? name = some s) : x ∈ s.takes ↔
    ∃ installed, p.entitled.get? name = some installed ∧ p.desired.get? name ≠ some installed ∧
      x = (VersionedName.mk name installed).id := by
  obtain ⟨installed, hi, hn, rfl⟩ | ⟨next, hi, hn, rfl⟩ | ⟨installed, next, hi, hn, ne, rfl⟩ :=
    stepFor?_eq_some h
  · simp [hi, hn, PlanStep.takes]
  · simp [hi, PlanStep.takes]
  · simp [hi, hn, Ne.symm ne, PlanStep.takes]

theorem stepFor?_eq_none :
    p.stepFor? name = none ↔ p.entitled.get? name = p.desired.get? name := by
  unfold stepFor?
  split
  all_goals
    rename_i hi hn
    simp [hi, hn]

theorem upgradeIds_eq (p : TransitionPlan) : p.upgradeIds = p.upgradePairs.map (·.1) := by
  rw [upgradeIds, Versions.idsOf, upgradePairs, List.map_filterMap]
  refine List.filterMap_congr fun name hname => ?_
  obtain ⟨installed, next, hi, hn, -⟩ := mem_upgrade.mp hname
  simp only [hi, hn]
  rfl

theorem names_disjoint (p : TransitionPlan) :
    [p.entitle, p.upgrade, p.revoke].Pairwise List.Disjoint := by
  simp only [List.pairwise_cons, List.mem_cons, List.not_mem_nil, or_false, forall_eq_or_imp,
    forall_eq]
  refine ⟨⟨fun name he hu => ?_, fun name he hr => ?_⟩, fun name hu hr => ?_, by simp⟩
  · exact not_entitle_of_upgrade hu he
  · exact not_entitle_of_revoke hr he
  · exact not_upgrade_of_revoke hr hu

theorem ofIds_eq_ok {entitled desired : List String} : ofIds entitled desired = .ok p ↔
    Versions.ofIds .entitled entitled = .ok p.entitled ∧
      Versions.ofIds .desired desired = .ok p.desired := by
  rw [ofIds, Except.bind_eq_ok]
  constructor
  · rintro ⟨there, he, h⟩
    obtain ⟨wanted, hd, h⟩ := Except.bind_eq_ok.mp h
    obtain rfl := Except.ok.inj h
    exact ⟨he, hd⟩
  · rintro ⟨he, hd⟩
    refine ⟨p.entitled, he, ?_⟩
    rw [hd]
    rfl

section

variable {entitled desired : List String} (h : ofIds entitled desired = .ok p)

include h

/-- An identifier of either side tells the name and the version. -/
theorem name_of_id {name name' version version' : String}
    (there : p.entitled.get? name = some version ∨ p.desired.get? name = some version)
    (there' : p.entitled.get? name' = some version' ∨ p.desired.get? name' = some version')
    (same : (VersionedName.mk name version).id = (VersionedName.mk name' version').id) :
    name = name' ∧ version = version' := by
  obtain ⟨he, hd⟩ := ofIds_eq_ok.mp h
  have read {name version : String}
      (there : p.entitled.get? name = some version ∨ p.desired.get? name = some version) :
      ∃ id, VersionedName.read? id = some ⟨name, version⟩ := by
    rcases there with there | there
    · exact Versions.read_of_get? he there
    · exact Versions.read_of_get? hd there
  obtain ⟨id, hid⟩ := read there
  obtain ⟨id', hid'⟩ := read there'
  exact VersionedName.mk.inj (VersionedName.eq_of_id hid hid' same)

/-- Steps give what is only desired. -/
theorem mem_given : x ∈ p.steps.flatMap PlanStep.gives ↔
    x ∈ desired.map Text.trim ∧ x ∉ entitled.map Text.trim := by
  obtain ⟨he, hd⟩ := ofIds_eq_ok.mp h
  rw [List.mem_flatMap, Versions.mem_trimmed_iff he, Versions.mem_trimmed_iff hd]
  constructor
  · rintro ⟨s, hs, hx⟩
    obtain ⟨name, hname⟩ := mem_steps.mp hs
    obtain ⟨next, hn, ne, rfl⟩ := (mem_gives hname).mp hx
    refine ⟨⟨name, next, hn, rfl⟩, ?_⟩
    rintro ⟨name', version, there, same⟩
    obtain ⟨rfl, rfl⟩ := name_of_id h (.inl there) (.inr hn) same
    exact ne there
  · rintro ⟨⟨name, next, hn, rfl⟩, foreign⟩
    have ne : p.entitled.get? name ≠ some next := fun there => foreign ⟨name, next, there, rfl⟩
    cases hs : p.stepFor? name with
    | none => exact absurd ((stepFor?_eq_none.mp hs).trans hn) ne
    | some s => exact ⟨s, mem_steps.mpr ⟨name, hs⟩, (mem_gives hs).mpr ⟨next, hn, ne, rfl⟩⟩

/-- Steps take what is not desired. -/
theorem mem_taken : x ∈ p.steps.flatMap PlanStep.takes ↔
    x ∈ entitled.map Text.trim ∧ x ∉ desired.map Text.trim := by
  obtain ⟨he, hd⟩ := ofIds_eq_ok.mp h
  rw [List.mem_flatMap, Versions.mem_trimmed_iff he, Versions.mem_trimmed_iff hd]
  constructor
  · rintro ⟨s, hs, hx⟩
    obtain ⟨name, hname⟩ := mem_steps.mp hs
    obtain ⟨installed, hi, ne, rfl⟩ := (mem_takes hname).mp hx
    refine ⟨⟨name, installed, hi, rfl⟩, ?_⟩
    rintro ⟨name', version, there, same⟩
    obtain ⟨rfl, rfl⟩ := name_of_id h (.inr there) (.inl hi) same
    exact ne there
  · rintro ⟨⟨name, installed, hi, rfl⟩, foreign⟩
    have ne : p.desired.get? name ≠ some installed := fun there =>
      foreign ⟨name, installed, there, rfl⟩
    cases hs : p.stepFor? name with
    | none => exact absurd ((stepFor?_eq_none.mp hs).symm.trans hi) ne
    | some s => exact ⟨s, mem_steps.mpr ⟨name, hs⟩, (mem_takes hs).mpr ⟨installed, hi, ne, rfl⟩⟩

/-- No other step gives the same, and none takes the same. -/
theorem step_unique (hs : s ∈ p.steps) (hs' : s' ∈ p.steps)
    (both : x ∈ s.gives ∧ x ∈ s'.gives ∨ x ∈ s.takes ∧ x ∈ s'.takes) : s = s' := by
  obtain ⟨name, hname⟩ := mem_steps.mp hs
  obtain ⟨name', hname'⟩ := mem_steps.mp hs'
  have same : name = name' := by
    rcases both with ⟨hx, hx'⟩ | ⟨hx, hx'⟩
    · obtain ⟨next, hn, -, rfl⟩ := (mem_gives hname).mp hx
      obtain ⟨next', hn', -, same⟩ := (mem_gives hname').mp hx'
      exact (name_of_id h (.inr hn) (.inr hn') same).1
    · obtain ⟨installed, hi, -, rfl⟩ := (mem_takes hname).mp hx
      obtain ⟨installed', hi', -, same⟩ := (mem_takes hname').mp hx'
      exact (name_of_id h (.inl hi) (.inl hi') same).1
  subst same
  exact Option.some.inj (hname.symm.trans hname')

theorem steps_nodup : p.steps.Nodup := by
  obtain ⟨he, hd⟩ := ofIds_eq_ok.mp h
  have revoke : p.revokeIds.Nodup := Versions.idsOf_nodup he (p.entitled.keys_nodup.filter _)
  have entitle : p.entitleIds.Nodup := Versions.idsOf_nodup hd (p.desired.keys_nodup.filter _)
  have upgrade : p.upgradePairs.Nodup := by
    refine List.Nodup.of_map (·.1) ?_
    rw [← upgradeIds_eq]
    exact Versions.idsOf_nodup hd (p.desired.keys_nodup.filter _)
  have revokes := revoke.map (f := PlanStep.revoke) fun _ _ same => PlanStep.revoke.inj same
  have entitles := entitle.map (f := PlanStep.entitle) fun _ _ same => PlanStep.entitle.inj same
  have upgrades := upgrade.map (f := fun pair => PlanStep.upgrade pair.1 pair.2)
    fun _ _ same => Prod.ext (PlanStep.upgrade.inj same).1 (PlanStep.upgrade.inj same).2
  refine (revokes.append upgrades ?_).append entitles ?_
  · intro s hr hu
    obtain ⟨id, -, rfl⟩ := List.mem_map.mp hr
    simp at hu
  · intro s hs he
    obtain ⟨id, -, rfl⟩ := List.mem_map.mp he
    simp at hs

theorem apart_of_subset {steps : List PlanStep} (among : steps ⊆ p.steps) :
    (steps.flatMap PlanStep.gives).Disjoint (steps.flatMap PlanStep.takes) := by
  have planned {f : PlanStep → List String} {x : String} (hx : x ∈ steps.flatMap f) :
      x ∈ p.steps.flatMap f := by
    obtain ⟨s, hs, hx⟩ := List.mem_flatMap.mp hx
    exact List.mem_flatMap.mpr ⟨s, among hs, hx⟩
  intro x given taken
  have given := (mem_given h).mp (planned given)
  have taken := (mem_taken h).mp (planned taken)
  exact taken.2 given.1

/-- Carrying out a plan leads to what is desired. -/
theorem carryOut_of_perm {steps : List PlanStep} (order : steps.Perm p.steps) :
    carryOut steps {x | x ∈ entitled.map Text.trim} = {x | x ∈ desired.map Text.trim} := by
  ext x
  rw [PlanStep.mem_carryOut (apart_of_subset h order.subset), (order.flatMap_right _).mem_iff,
    (order.flatMap_right _).mem_iff, mem_given h, mem_taken h]
  simp only [Set.mem_ofPred_eq]
  tauto

/-- Steps of a plan that lead to what is desired are all of them. -/
theorem perm_of_carryOut {steps : List PlanStep} (among : steps.Subperm p.steps)
    (reaches : carryOut steps {x | x ∈ entitled.map Text.trim}
      = {x | x ∈ desired.map Text.trim}) : steps.Perm p.steps := by
  have left (x : String) : x ∈ steps.flatMap PlanStep.gives ∨
      x ∉ steps.flatMap PlanStep.takes ∧ x ∈ entitled.map Text.trim ↔
        x ∈ desired.map Text.trim := by
    have same := Set.ext_iff.mp reaches x
    rwa [PlanStep.mem_carryOut (apart_of_subset h among.subset)] at same
  have all : p.steps ⊆ steps := by
    intro s hs
    have does : (∃ x, x ∈ s.gives) ∨ ∃ x, x ∈ s.takes := by
      cases s <;> simp [PlanStep.gives, PlanStep.takes]
    -- What the step does is done by one of the others, which can only be the step itself.
    obtain ⟨s', hs', x, both⟩ : ∃ s' ∈ steps, ∃ x,
        x ∈ s'.gives ∧ x ∈ s.gives ∨ x ∈ s'.takes ∧ x ∈ s.takes := by
      rcases does with ⟨x, hx⟩ | ⟨x, hx⟩
      · obtain ⟨wanted, foreign⟩ := (mem_given h).mp (List.mem_flatMap.mpr ⟨s, hs, hx⟩)
        rcases (left x).mpr wanted with given | ⟨-, there⟩
        · obtain ⟨s', hs', hx'⟩ := List.mem_flatMap.mp given
          exact ⟨s', hs', x, .inl ⟨hx', hx⟩⟩
        · exact absurd there foreign
      · obtain ⟨there, unwanted⟩ := (mem_taken h).mp (List.mem_flatMap.mpr ⟨s, hs, hx⟩)
        by_cases taken : x ∈ steps.flatMap PlanStep.takes
        · obtain ⟨s', hs', hx'⟩ := List.mem_flatMap.mp taken
          exact ⟨s', hs', x, .inr ⟨hx', hx⟩⟩
        · exact absurd ((left x).mp (.inr ⟨taken, there⟩)) unwanted
    rwa [← step_unique h (among.subset hs') hs both]
  exact among.antisymm (List.subperm_of_subset (steps_nodup h) all)

theorem isEmpty_iff :
    p.isEmpty ↔ ∀ x, x ∈ entitled.map Text.trim ↔ x ∈ desired.map Text.trim := by
  constructor
  · intro empty x
    simp only [isEmpty, Bool.and_eq_true, List.isEmpty_iff] at empty
    obtain ⟨⟨entitle, upgrade⟩, revoke⟩ := empty
    have none : p.steps = [] := by
      simp [steps, revokeIds, upgradePairs, entitleIds, Versions.idsOf, entitle, upgrade, revoke]
    have reaches := Set.ext_iff.mp (carryOut_of_perm h (.refl _)) x
    rwa [none] at reaches
  · intro same
    refine isEmpty_of_same fun name => stepFor?_eq_none.mp ?_
    have none := perm_of_carryOut h List.nil_subperm (Set.ext (fun x => same x))
    refine Option.eq_none_iff_forall_ne_some.mpr fun s hs => ?_
    have there := mem_steps.mpr ⟨name, hs⟩
    rw [← none.nil_eq] at there
    exact List.not_mem_nil there

theorem ids_disjoint : [p.entitleIds, p.upgradeIds, p.revokeIds].Pairwise List.Disjoint := by
  have apart {versions versions' : Versions} {names names' : List String}
      (among : versions = p.entitled ∨ versions = p.desired)
      (among' : versions' = p.entitled ∨ versions' = p.desired)
      (disjoint : names.Disjoint names') :
      (versions.idsOf names).Disjoint (versions'.idsOf names') := by
    intro x hx hx'
    obtain ⟨name, hname, version, there, rfl⟩ := Versions.mem_idsOf.mp hx
    obtain ⟨name', hname', version', there', same⟩ := Versions.mem_idsOf.mp hx'
    obtain ⟨rfl, -⟩ := name_of_id h (among'.imp (· ▸ there') (· ▸ there'))
      (among.imp (· ▸ there) (· ▸ there)) same
    exact disjoint hname hname'
  have names := names_disjoint p
  simp only [List.pairwise_cons, List.mem_cons, List.not_mem_nil, or_false, forall_eq_or_imp,
    forall_eq] at names ⊢
  obtain ⟨⟨upgrade, revoke⟩, others, -⟩ := names
  exact ⟨⟨apart (.inr rfl) (.inr rfl) upgrade, apart (.inr rfl) (.inl rfl) revoke⟩,
    apart (.inr rfl) (.inl rfl) others, by simp⟩

end

/-- Two lists of identifiers have no plan exactly if an identifier cannot be read or one of the lists
has two versions of a name. The steps of a plan, in any order, lead from the entitled identifiers to
the desired ones, and no fewer of them do; there are none exactly if the identifiers are the same.
Blanks around an identifier are of no account in this. No name and no identifier is in two buckets,
and what is upgraded is what the pairs begin with. -/
theorem ofIds_minimal (entitled desired : List String) :
    (∀ p, ofIds entitled desired = .ok p →
      (∀ steps : List PlanStep, steps.Perm p.steps →
        carryOut steps {x | x ∈ entitled.map Text.trim} = {x | x ∈ desired.map Text.trim}) ∧
      (∀ steps : List PlanStep, steps.Subperm p.steps →
        carryOut steps {x | x ∈ entitled.map Text.trim} = {x | x ∈ desired.map Text.trim} →
        steps.Perm p.steps) ∧
      [p.entitle, p.upgrade, p.revoke].Pairwise List.Disjoint ∧
      [p.entitleIds, p.upgradeIds, p.revokeIds].Pairwise List.Disjoint ∧
      p.upgradeIds = p.upgradePairs.map (·.1) ∧
      (p.isEmpty ↔ ∀ x, x ∈ entitled.map Text.trim ↔ x ∈ desired.map Text.trim)) ∧
    ((∃ refusal, ofIds entitled desired = .error refusal) ↔
      (∃ id ∈ entitled ++ desired, VersionedName.read? id = none) ∨
        Versions.Rival entitled ∨ Versions.Rival desired) := by
  refine ⟨fun p h => ⟨fun steps => carryOut_of_perm h, fun steps => perm_of_carryOut h,
    names_disjoint p, ids_disjoint h, upgradeIds_eq p, isEmpty_iff h⟩, ?_⟩
  have either : (∃ refusal, ofIds entitled desired = .error refusal) ↔
      (∃ refusal, Versions.ofIds .entitled entitled = .error refusal) ∨
        ∃ refusal, Versions.ofIds .desired desired = .error refusal := by
    rw [ofIds]
    cases Versions.ofIds .entitled entitled with
    | error refusal => simp [bind, Except.bind]
    | ok there =>
      cases Versions.ofIds .desired desired <;> simp [bind, Except.bind, pure, Except.pure]
  rw [either, Versions.ofIds_isError_iff, Versions.ofIds_isError_iff]
  simp only [List.mem_append, or_and_right, exists_or]
  exact or_or_or_comm

/-- One identifier is there twice, and another one is desired in an older version. -/
theorem ofIds_minimal_downgrade : ∃ p,
    ofIds [" a-1.0.0", "a-1.0.0 ", "b-2.0.0", "d-1.0.0"] ["\td-1.0.0", "c-1.0.0", "b-1.0.0"] = .ok p ∧
      p.steps = [.revoke "a-1.0.0", .upgrade "b-1.0.0" "b-2.0.0", .entitle "c-1.0.0"] ∧
      carryOut p.steps {x | x ∈ ["a-1.0.0", "a-1.0.0", "b-2.0.0", "d-1.0.0"]}
        = {x | x ∈ ["d-1.0.0", "c-1.0.0", "b-1.0.0"]} ∧
      carryOut [.entitle "c-1.0.0", .revoke "a-1.0.0"]
        {x | x ∈ ["a-1.0.0", "a-1.0.0", "b-2.0.0", "d-1.0.0"]}
        ≠ {x | x ∈ ["d-1.0.0", "c-1.0.0", "b-1.0.0"]} ∧
      ¬p.isEmpty := by
  have made : (ofIds [" a-1.0.0", "a-1.0.0 ", "b-2.0.0", "d-1.0.0"]
      ["\td-1.0.0", "c-1.0.0", "b-1.0.0"]).toOption.map (·.steps)
      = some [.revoke "a-1.0.0", .upgrade "b-1.0.0" "b-2.0.0", .entitle "c-1.0.0"] := by
    decide +kernel
  obtain ⟨p, hp, steps⟩ := Option.map_eq_some_iff.mp made
  have planned := Except.toOption_eq_some.mp hp
  have entitled : [" a-1.0.0", "a-1.0.0 ", "b-2.0.0", "d-1.0.0"].map Text.trim
      = ["a-1.0.0", "a-1.0.0", "b-2.0.0", "d-1.0.0"] := by decide +kernel
  have desired : ["\td-1.0.0", "c-1.0.0", "b-1.0.0"].map Text.trim
      = ["d-1.0.0", "c-1.0.0", "b-1.0.0"] := by decide +kernel
  obtain ⟨reaches, minimal, -, -, -, empty⟩ := (ofIds_minimal _ _).1 p planned
  rw [entitled, desired] at reaches minimal empty
  refine ⟨p, planned, steps, reaches _ (.refl _), fun fewer => ?_, fun none => ?_⟩
  · have perm := minimal _ (by rw [steps]; decide) fewer
    rw [steps] at perm
    exact absurd perm.length_eq (by decide)
  · exact absurd (empty.mp none "a-1.0.0") (by decide)

end TransitionPlan

end Provisioning
