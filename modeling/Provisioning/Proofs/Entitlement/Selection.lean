import Provisioning.Proofs.Application.Separation
import Provisioning.Proofs.Entitlement.Arrangement
import Provisioning.Proofs.Entitlement.Transition

/-!
# What the names of a plan select

A plan has names that it has read of identifiers, and the flow for a state picks applications by the
names of their own. Both are the same name if the identifier of an application tells its name, and
the application has a flow then exactly if the plan has its identifier
(`FlowPlan.make_state_selects`).
-/

namespace Provisioning

namespace FlowInput

/-- The applications that the names of a bucket are looked up in. -/
def pool (input : FlowInput) : EntitlementType → List Application
  | .revoke => input.entitled
  | .entitle | .upgrade | .state => input.applications

variable {input : FlowInput} {p : TransitionPlan} {a b : Application}

theorem pool_eq_applications {type : EntitlementType} (h : type ≠ .revoke) :
    input.pool type = input.applications := by
  cases type with
  | revoke => exact absurd rfl h
  | entitle | upgrade | state => rfl

theorem mem_going_state (planned : input.plan = some p) :
    a ∈ input.going .state ↔ a ∈ input.entitled ∧ a.name ∈ p.revoke := by
  simp [going, planned]

theorem mem_coming_state (planned : input.plan = some p) : a ∈ input.coming .state ↔
    a ∈ input.applications ∧ (a.name ∈ p.entitle ∨ a.name ∈ p.upgrade) := by
  simp [coming, planned]

section

variable (requested : (input.applications.map (·.id)).Nodup)
  (entitled : (input.entitled.map (·.id)).Nodup)

include requested entitled

theorem pool_nodup (type : EntitlementType) : ((input.pool type).map (·.id)).Nodup := by
  cases type with
  | revoke => exact entitled
  | entitle | upgrade | state => exact requested

theorem eq_of_mem_pool {type : EntitlementType} (ha : a ∈ input.pool type)
    (hb : b ∈ input.pool type) (same : a.id = b.id) : a = b :=
  List.inj_on_of_nodup_map (pool_nodup requested entitled type) ha hb same

end

end FlowInput

/-- An identifier that tells its name is among those of names exactly if its name is one of them. -/
theorem Versions.mem_names_iff {side : Side} {ids names : List String} {versions : Versions}
    {v : VersionedName} (h : ofIds side ids = .ok versions) (there : v.id ∈ ids)
    (reads : VersionedName.read? v.id = some v) : v.name ∈ names ↔ v.id ∈ versions.idsOf names := by
  rw [mem_idsOf]
  constructor
  · intro named
    have version : versions.get? v.name = some v.version :=
      (get?_ofIds h v.name v.version).mpr ⟨v.id, there, VersionedName.parse_eq_ok.mpr reads⟩
    exact ⟨v.name, named, v.version, version, rfl⟩
  · rintro ⟨name, named, version, found, same⟩
    obtain ⟨id, hid⟩ := read_of_get? h found
    obtain rfl := VersionedName.eq_of_id hid reads same
    exact named

namespace TransitionPlan

/-- The names of which something is done. -/
def bucket (p : TransitionPlan) : EntitlementType → List String
  | .entitle => p.entitle
  | .revoke => p.revoke
  | .upgrade => p.upgrade
  | .state => []

/-- The identifiers of which something is done. -/
def bucketIds (p : TransitionPlan) : EntitlementType → List String
  | .entitle => p.entitleIds
  | .revoke => p.revokeIds
  | .upgrade => p.upgradeIds
  | .state => []

variable {p : TransitionPlan} {input : FlowInput} {a : Application} {type type' : EntitlementType}

/-- No name is in two buckets. -/
theorem bucket_inj {name : String} (h : name ∈ p.bucket type) (h' : name ∈ p.bucket type') :
    type = type' := by
  have apart := names_disjoint p
  simp only [List.pairwise_cons, List.mem_cons, List.not_mem_nil, or_false, forall_eq_or_imp,
    forall_eq] at apart
  obtain ⟨⟨upgrade, revoke⟩, others, -⟩ := apart
  cases type <;> cases type' <;> grind [bucket, List.Disjoint]

/-- A bucket has the name of an application whose identifier tells it exactly if it has the
identifier. -/
theorem mem_bucket_iff
    (h : ofIds (input.entitled.map (·.id)) (input.applications.map (·.id)) = .ok p)
    (ha : a ∈ input.pool type) (reads : VersionedName.read? a.id = some ⟨a.name, a.version⟩) :
    a.name ∈ p.bucket type ↔ a.id ∈ p.bucketIds type := by
  obtain ⟨he, hd⟩ := ofIds_eq_ok.mp h
  have there : a.id ∈ (input.pool type).map (·.id) := List.mem_map_of_mem ha
  cases type with
  | entitle => exact Versions.mem_names_iff (v := ⟨a.name, a.version⟩) hd there reads
  | revoke => exact Versions.mem_names_iff (v := ⟨a.name, a.version⟩) he there reads
  | upgrade => exact Versions.mem_names_iff (v := ⟨a.name, a.version⟩) hd there reads
  | state => exact iff_of_false List.not_mem_nil List.not_mem_nil

end TransitionPlan

namespace FlowPlan

open ApplicationFlow (goes runs applicationId)

section

variable {c : Capabilities} {r : EntitlementRequest} {input : FlowInput} {p : TransitionPlan}
  {groups : List (List ApplicationFlow)} (arranged : Arranged c r input groups)
  (state : r.type = .state)

include arranged state

/-- No flow of a state is skipped. -/
theorem Arranged.runs_of_state : ∀ f ∈ groups.flatten, f.runs := by
  intro f hf
  obtain ⟨group, hgroup, hf⟩ := List.mem_flatten.mp hf
  obtain ⟨i, hi, rfl⟩ := List.getElem_of_mem hgroup
  have skipped := arranged.skipped i f.applicationId
  rw [EntitlementRequest.extras, if_pos state, Nat.mul_zero, List.countP_eq_zero,
    List.getD_eq_getElem _ _ hi] at skipped
  simpa using skipped f hf

variable (planned : input.plan = some p)

include planned

/-- The flows of a state are for applications that the buckets name. -/
theorem Arranged.named_of_state : ∀ f ∈ groups.flatten, ∃ a ∈ input.pool f.ref.type,
    a.name ∈ p.bucket f.ref.type ∧ f.applicationId = a.id := by
  intro f hf
  obtain ⟨t, ht, w, hw, same, type, -⟩ := arranged.performs f hf
  rw [same, type, ApplicationTask.work_type hw]
  rw [state] at ht
  cases ht with
  | stateRevoke there ha goes =>
    obtain rfl := Option.some.inj (planned.symm.trans there)
    exact ⟨_, ha, goes, rfl⟩
  | stateUpgrade there ha changes =>
    obtain rfl := Option.some.inj (planned.symm.trans there)
    exact ⟨_, ha, changes, rfl⟩
  | stateEntitle there ha comes =>
    obtain rfl := Option.some.inj (planned.symm.trans there)
    exact ⟨_, ha, comes, rfl⟩

/-- An application that a bucket names has a flow. -/
theorem Arranged.exists_flow {type : EntitlementType} {a : Application} (ha : a ∈ input.pool type)
    (named : a.name ∈ p.bucket type) :
    ∃ f ∈ groups.flatten, f.applicationId = a.id ∧ (f.ref.type = .revoke ↔ type = .revoke) := by
  have going := arranged.going.mem_iff (a := a.id)
  have coming := arranged.coming.mem_iff (a := a.id)
  rw [state] at going coming
  have comes (type : EntitlementType) (stays : type ≠ .revoke) (h : a ∈ input.coming .state) :
      ∃ f ∈ groups.flatten, f.applicationId = a.id ∧ (f.ref.type = .revoke ↔ type = .revoke) := by
    obtain ⟨f, hf, same⟩ := List.mem_map.mp (coming.mpr (List.mem_map_of_mem h))
    simp only [List.mem_filter, goes, Bool.and_eq_true, Bool.not_eq_true', beq_eq_false_iff_ne] at hf
    exact ⟨f, hf.1, same, iff_of_false hf.2.2 stays⟩
  cases type with
  | entitle =>
    exact comes _ (by decide) ((FlowInput.mem_coming_state planned).mpr ⟨ha, .inl named⟩)
  | revoke =>
    have h := (FlowInput.mem_going_state planned).mpr ⟨ha, named⟩
    obtain ⟨f, hf, same⟩ := List.mem_map.mp (going.mpr (List.mem_map_of_mem h))
    simp only [List.mem_filter, goes, Bool.and_eq_true, beq_iff_eq] at hf
    exact ⟨f, hf.1, same, iff_of_true hf.2.2 rfl⟩
  | upgrade =>
    exact comes _ (by decide) ((FlowInput.mem_coming_state planned).mpr ⟨ha, .inr named⟩)
  | state => exact absurd named List.not_mem_nil

variable (requested : (input.applications.map (·.id)).Nodup)
  (entitled : (input.entitled.map (·.id)).Nodup)

include requested entitled

/-- No application has two flows of a kind. -/
theorem Arranged.nodup_of_type (type : EntitlementType) :
    ((groups.flatten.filter (·.ref.type = type)).map applicationId).Nodup := by
  have among {q : ApplicationFlow → Bool}
      (h : ∀ f ∈ groups.flatten, f.ref.type = type → q f) :
      groups.flatten.filter (·.ref.type = type)
        = (groups.flatten.filter q).filter (·.ref.type = type) := by
    rw [List.filter_filter]
    refine List.filter_congr fun f hf => ?_
    by_cases same : f.ref.type = type
    · simp [same, h f hf same]
    · simp [same]
  have runs := arranged.runs_of_state state
  have going := arranged.going
  have coming := arranged.coming
  rw [state, FlowInput.going, planned] at going
  rw [state, FlowInput.coming, planned] at coming
  by_cases revokes : type = .revoke
  · rw [among (q := fun f => f.runs && f.goes)
      fun f hf same => by simp [runs f hf, goes, same, revokes]]
    have once := going.nodup_iff.mpr (entitled.sublist (List.filter_sublist.map _))
    exact once.sublist (List.filter_sublist.map _)
  · rw [among (q := fun f => f.runs && !f.goes)
      fun f hf same => by simp [runs f hf, goes, same, revokes]]
    have once := coming.nodup_iff.mpr (requested.sublist (List.filter_sublist.map _))
    exact once.sublist (List.filter_sublist.map _)

/-- An application has a flow of a kind exactly if the bucket names it. -/
theorem Arranged.mem_flows_iff {type : EntitlementType} {a : Application}
    (ha : a ∈ input.pool type) :
    a.id ∈ (groups.flatten.filter (·.ref.type = type)).map applicationId ↔
      a.name ∈ p.bucket type := by
  have names := arranged.named_of_state state planned
  rw [List.mem_map]
  simp only [List.mem_filter, decide_eq_true_eq]
  constructor
  · rintro ⟨f, ⟨hf, rfl⟩, same⟩
    obtain ⟨b, hb, named, about⟩ := names f hf
    rwa [FlowInput.eq_of_mem_pool requested entitled ha hb (same.symm.trans about)]
  · intro named
    obtain ⟨f, hf, same, goes⟩ := arranged.exists_flow state planned ha named
    obtain ⟨b, hb, other, about⟩ := names f hf
    -- Both are looked up in one pool, so the flow is for the application itself.
    have there : b ∈ input.pool type := by
      by_cases revokes : type = .revoke
      · rwa [revokes, ← goes.mpr revokes]
      · rwa [FlowInput.pool_eq_applications revokes,
          ← FlowInput.pool_eq_applications fun h => revokes (goes.mp h)]
    obtain rfl := FlowInput.eq_of_mem_pool requested entitled ha there (same.symm.trans about)
    exact ⟨f, ⟨hf, TransitionPlan.bucket_inj other named⟩, same⟩

end

/-- The name and the version of an application are read of its identifier exactly if they can be
told apart in it: the name is not empty, it does not start with a blank and a version could start
behind none of its hyphens, a first character apart, there are no blanks around the version, and the
identifier is a single line. If they can, then in every plan for applications that this one is among
a bucket has its name exactly if it has its identifier, whatever the others are called, and the flow
of a state has one flow of that kind for it then, and else none. -/
theorem make_state_selects {a : Application} {v : Version} (parses : a.semver = .ok v) :
    (VersionedName.read? a.id = some ⟨a.name, a.version⟩ ↔ a.Separable) ∧
    (a.Separable → ∀ (input : FlowInput) (p : TransitionPlan), input.plan = some p →
      (input.applications.map (·.id)).Nodup → (input.entitled.map (·.id)).Nodup →
      TransitionPlan.ofIds (input.entitled.map (·.id)) (input.applications.map (·.id)) = .ok p →
      ∀ type, a ∈ input.pool type →
        (a.name ∈ p.bucket type ↔ a.id ∈ p.bucketIds type) ∧
        ∀ (c : Capabilities) (ids : FlowIds) (r : EntitlementRequest) (plan : FlowPlan),
          r.type = .state → make c ids r input = .ok plan →
          (∀ f ∈ plan.applicationFlows, f.skipped = false) ∧
          ((plan.applicationFlows.filter (·.type = type)).map (·.applicationId)).count a.id
            = if a.id ∈ p.bucketIds type then 1 else 0) := by
  refine ⟨Application.read?_id_iff parses, ?_⟩
  intro separable input p planned requested entitled h type ha
  have reads := (Application.read?_id_iff parses).mpr separable
  have selects := TransitionPlan.mem_bucket_iff h ha reads
  refine ⟨selects, fun c ids r plan state made => ?_⟩
  obtain ⟨p', planned', nodes⟩ := requestNodes_state state (make_eq_ok made).2
  obtain rfl := Option.some.inj (planned.symm.trans planned')
  obtain ⟨first, second, -, refs, arranged⟩ :=
    Holds.of_state requested entitled state planned nodes
  rw [refs]
  refine ⟨fun f hf => ?_, ?_⟩
  · obtain ⟨flow, hflow, rfl⟩ := List.mem_map.mp hf
    simpa [runs] using arranged.runs_of_state state flow hflow
  · rw [List.filter_map, List.map_map]
    have once := arranged.nodup_of_type state planned requested entitled type
    have present := arranged.mem_flows_iff state planned requested entitled ha
    rw [selects] at present
    exact once.count.trans (if_congr present rfl rfl)

/-- An application with hyphens in its name and in its version. -/
def hyphenated : Application := { name := "x-2", version := "1.0.0-rc-2.0.0" }

/-- Applications of a tenant. -/
def hyphenatedBefore : List Application :=
  [{ name := "y", version := "1.0.0" }, { name := "z-a", version := "0.1.0+b-1" }]

/-- Those that the tenant shall have. -/
def hyphenatedAfter : List Application := [hyphenated, { name := "y", version := "2.0.0" }]

/-- What the flow for them is made from. -/
def hyphenatedInput (p : TransitionPlan) : FlowInput where
  applications := hyphenatedAfter
  entitled := hyphenatedBefore
  plan := some p

/-- A request for them. -/
def hyphenatedRequest : EntitlementRequest where
  type := .state
  tenantId := "t"
  applicationIds := hyphenatedAfter.map (·.id)

/-- It comes, while another application goes and a third one is upgraded. -/
theorem make_state_selects_hyphenated : ∃ v p plan,
    hyphenated.semver = .ok v ∧ hyphenated.Separable ∧
      TransitionPlan.ofIds (hyphenatedBefore.map (·.id)) (hyphenatedAfter.map (·.id)) = .ok p ∧
      make {} ⟨"f", toString⟩ hyphenatedRequest (hyphenatedInput p) = .ok plan ∧
      plan.applicationFlows.map (fun f => (f.type, f.applicationId))
        = [(.revoke, "z-a-0.1.0+b-1"), (.entitle, hyphenated.id), (.upgrade, "y-2.0.0")] ∧
      (hyphenated.name ∈ p.bucket .entitle ↔ hyphenated.id ∈ p.bucketIds .entitle) ∧
      ∀ f ∈ plan.applicationFlows, f.skipped = false := by
  have run : ((TransitionPlan.ofIds (hyphenatedBefore.map (·.id))
      (hyphenatedAfter.map (·.id))).toOption.bind fun p =>
      (make {} ⟨"f", toString⟩ hyphenatedRequest (hyphenatedInput p)).toOption.map fun plan =>
        plan.applicationFlows.map fun f => (f.type, f.applicationId))
      = some [(.revoke, "z-a-0.1.0+b-1"), (.entitle, hyphenated.id), (.upgrade, "y-2.0.0")] := by
    decide +kernel
  have parses : hyphenated.semver.toOption.isSome := by decide +kernel
  obtain ⟨v, hv⟩ := Option.isSome_iff_exists.mp parses
  obtain ⟨p, hp, run⟩ := Option.bind_eq_some_iff.mp run
  obtain ⟨plan, hplan, flows⟩ := Option.map_eq_some_iff.mp run
  have planned := Except.toOption_eq_some.mp hp
  have made := Except.toOption_eq_some.mp hplan
  have before : (hyphenatedBefore.map (·.id)).Nodup := by decide +kernel
  have after : (hyphenatedAfter.map (·.id)).Nodup := by decide +kernel
  obtain ⟨told, selected⟩ := make_state_selects (Except.toOption_eq_some.mp hv)
  have separable := told.mp (by decide +kernel)
  obtain ⟨selects, runs⟩ := selected separable (hyphenatedInput p) p rfl after before planned
    .entitle List.mem_cons_self
  exact ⟨v, p, plan, Except.toOption_eq_some.mp hv, separable, planned, made, flows, selects,
    (runs {} _ hyphenatedRequest plan rfl made).1⟩

/-- An application in whose name a version could start. -/
def shadowed : Application := { name := "a-1.0.0-b", version := "2.0.0" }

/-- A request for it. -/
def shadowedRequest : EntitlementRequest where
  type := .state
  tenantId := "t"
  applicationIds := [shadowed.id]

/-- Another name is read of its identifier, and the flow of a state that is to bring it does not. -/
theorem make_state_shadowed :
    (∃ v, shadowed.semver = .ok v) ∧
      VersionedName.read? shadowed.id = some ⟨"a", "1.0.0-b-2.0.0"⟩ ∧
      ∃ p plan, TransitionPlan.ofIds [] [shadowed.id] = .ok p ∧ p.entitle = ["a"] ∧
        p.entitleIds = [shadowed.id] ∧
        make {} ⟨"f", toString⟩ shadowedRequest
          { applications := [shadowed], entitled := [], plan := some p } = .ok plan ∧
        plan.applicationFlows = [] := by
  have parses : shadowed.semver.toOption.isSome := by decide +kernel
  have run : ((TransitionPlan.ofIds [] [shadowed.id]).toOption.bind fun p =>
      (make {} ⟨"f", toString⟩ shadowedRequest
        { applications := [shadowed], entitled := [], plan := some p }).toOption.map fun plan =>
        (p.entitle, p.entitleIds, plan.applicationFlows))
      = some (["a"], [shadowed.id], []) := by
    decide +kernel
  obtain ⟨v, hv⟩ := Option.isSome_iff_exists.mp parses
  obtain ⟨p, hp, run⟩ := Option.bind_eq_some_iff.mp run
  obtain ⟨plan, hplan, found⟩ := Option.map_eq_some_iff.mp run
  simp only [Prod.mk.injEq] at found
  exact ⟨⟨v, Except.toOption_eq_some.mp hv⟩, by decide +kernel, p, plan,
    Except.toOption_eq_some.mp hp, found.1, found.2.1, Except.toOption_eq_some.mp hplan, found.2.2⟩

end FlowPlan

end Provisioning
