import Provisioning.Proofs.Entitlement.Versions
import Provisioning.Proofs.Version.Order

/-!
# Dependencies after a run

What a tenant has after a run that finishes is known from the request. Checks look at the
dependencies of what is requested, and at the names that what is left needs, but not at the versions
that upgrades put in the place of others; where they do not look, a dependency is exposed.
-/

namespace Provisioning

variable {σ : Type}

/-! ## Versions of a plan -/

namespace Versions

/-- An identifier adds its version, unless it is there. -/
theorem get?_add {side : Side} {versions versions' : Versions} {id : String}
    (h : add side versions id = .ok versions') (name version : String) :
    versions'.get? name = some version ↔
      versions.get? name = some version ∨ VersionedName.parse id = .ok ⟨name, version⟩ := by
  rw [add, Except.bind_eq_ok] at h
  obtain ⟨⟨n, u⟩, hv, h⟩ := h
  rw [hv, Except.ok.injEq, VersionedName.mk.injEq]
  dsimp only at h
  split at h
  · rename_i absent
    obtain rfl := Except.ok.inj h
    rw [OrderedMap.get?_insert]
    by_cases hn : name = n
    · subst hn
      simp [absent]
    · simp [hn, Ne.symm hn]
  · rename_i existing there
    split at h
    · rename_i same
      obtain rfl := Except.ok.inj h
      subst same
      constructor
      · exact .inl
      · rintro (known | ⟨rfl, rfl⟩)
        · exact known
        · exact there
    · simp [throw, throwThe, MonadExceptOf.throw] at h

/-- The versions of a list are those that its identifiers name. -/
theorem get?_ofIds {side : Side} {ids : List String} {versions : Versions}
    (h : ofIds side ids = .ok versions) (name version : String) :
    versions.get? name = some version ↔
      ∃ id ∈ ids, VersionedName.parse id = .ok ⟨name, version⟩ := by
  suffices general : ∀ (ids : List String) (first last : Versions),
      ids.foldlM (add side) first = .ok last → (last.get? name = some version ↔
        first.get? name = some version ∨
          ∃ id ∈ ids, VersionedName.parse id = .ok ⟨name, version⟩) by
    simpa using general ids .empty versions h
  intro ids
  induction ids with
  | nil =>
    intro first last hl
    simp only [List.foldlM_nil, pure, Except.pure, Except.ok.injEq] at hl
    simp [hl]
  | cons id rest ih =>
    intro first last hl
    rw [List.foldlM_cons, Except.bind_eq_ok] at hl
    obtain ⟨next, hnext, hl⟩ := hl
    rw [ih next last hl, get?_add hnext, List.exists_mem_cons_iff, or_assoc]

end Versions

/-! ## What is there after a run -/

/-- Applications are what a request makes of those that the tenant had. -/
def LoadedRequest.Becomes (l : LoadedRequest) (type : EntitlementType)
    (after : List Application) : Prop :=
  ∀ a, a ∈ after ↔
    (a ∈ l.entitled ∨
      a ∈ l.applications ∧ ∃ t, FlowPlan.Planned l.input type t ∧ a.id ∈ t.lastStage.gives) ∧
    ∀ t, FlowPlan.Planned l.input type t → a.id ∈ t.lastStage.takes → a.id ∈ t.lastStage.gives

/-- The identifiers of what is looked up say its names and versions. -/
def LoadedRequest.ReadsBack (l : LoadedRequest) : Prop :=
  ∀ a, a ∈ l.applications ∨ a ∈ l.entitled → VersionedName.parse a.id = .ok ⟨a.name, a.version⟩

namespace Service

open LoadedRequest

variable {s : Service σ} {w : σ} {ids : FlowIds} {r : EntitlementRequest} {l : LoadedRequest}
  {plan : FlowPlan} {a b old : Application}

/-- What takes the place of another version does not go itself. -/
theorem Prepared.comes (prepared : s.Prepared w ids r l plan)
    (ht : FlowPlan.Planned l.input r.type (.upgrade old a)) (new : old.id ≠ a.id)
    {t : ApplicationTask} (hu : FlowPlan.Planned l.input r.type t) :
    a.id ∉ t.lastStage.takes := by
  have loaded := load_eq_ok prepared.loaded
  obtain ⟨ha, hold, -⟩ := of_planned_upgrade ht
  cases t with
  | entitle c => simp
  | revoke c =>
    obtain ⟨hc, -, away⟩ := prepared.of_planned_revoke hu
    intro taken
    obtain rfl := loaded.eq_of_id (.inl ha) (.inr hc) (by simpa using taken)
    exact away old a ht rfl
  | upgrade old' c =>
    obtain ⟨-, hold', -⟩ := of_planned_upgrade hu
    obtain ⟨there, hname⟩ := installedVersion_eq_ok hold'
    intro taken
    obtain rfl := loaded.eq_of_id (.inl ha) (.inr there) (by simpa using taken)
    have same : FlowPlan.installedVersion l.entitled a = FlowPlan.installedVersion l.entitled c := by
      rw [FlowPlan.installedVersion, FlowPlan.installedVersion, hname]
    rw [hold, hold'] at same
    exact new (congrArg Application.id (Except.ok.inj same))

/-- After a run that finishes the tenant has what it had and what the request gives, without what
makes place for something else. -/
theorem Prepared.entitled_after (prepared : s.Prepared w ids r l plan)
    (keeps : s.collaborators.KeepsEntitlements)
    (finished : (s.runPlan w plan).report.status = .finished) (x : String) :
    s.collaborators.Entitled (s.runPlan w plan).world r.tenantId x ↔
      (s.collaborators.Entitled w r.tenantId x ∨
        ∃ t, FlowPlan.Planned l.input r.type t ∧ x ∈ t.lastStage.gives) ∧
      ∀ t, FlowPlan.Planned l.input r.type t → x ∈ t.lastStage.takes → x ∈ t.lastStage.gives := by
  have settles := prepared.settles keeps finished
  refine ⟨fun there => ?_, fun h => settles.entitled x h.2 h.1⟩
  by_cases comes : ∃ t, FlowPlan.Planned l.input r.type t ∧ x ∈ t.lastStage.gives ∧
      x ∉ t.lastStage.takes
  · obtain ⟨t, ht, given, free⟩ := comes
    refine ⟨.inr ⟨t, ht, given⟩, fun u hu taken => absurd taken ?_⟩
    cases t with
    | entitle a =>
      obtain rfl : x = a.id := by simpa using given
      have new := newcomer_iff.mpr ht
      exact prepared.stays new (.inl (requested_of_newcomer new)) rfl hu
    | revoke a => simp at given
    | upgrade old a =>
      obtain rfl : x = a.id := by simpa using given
      refine prepared.comes ht (fun heq => free ?_) hu
      simp [heq]
  · obtain ⟨before, untaken⟩ := settles.untaken x there fun t ht given => by
      by_contra free
      exact comes ⟨t, ht, given, free⟩
    exact ⟨.inl before, untaken⟩

/-- What the tasks of a request give is requested. -/
theorem requested_of_gives {type : EntitlementType} {t : ApplicationTask}
    (ht : FlowPlan.Planned l.input type t) {x : String} (hx : x ∈ t.lastStage.gives) :
    ∃ a ∈ l.applications, a.id = x := by
  cases t with
  | entitle a =>
    refine ⟨a, requested_of_newcomer (newcomer_iff.mpr ht), ?_⟩
    simpa [eq_comm] using hx
  | revoke a => simp at hx
  | upgrade old a =>
    refine ⟨a, (of_planned_upgrade ht).1, ?_⟩
    simpa [eq_comm] using hx

/-- The applications that a tenant has after a request has been carried out. -/
def Leaves (s : Service σ) (w : σ) (r : EntitlementRequest) (after : List Application) : Prop :=
  s.registry.find ((s.collaborators.store w).entitledIds r.tenantId) = .ok after

/-- What the tenant has after a run that finishes can be looked up, and is what the request makes
of what it had. -/
theorem Prepared.leaves (prepared : s.Prepared w ids r l plan)
    (keeps : s.collaborators.KeepsEntitlements)
    (finished : (s.runPlan w plan).report.status = .finished) :
    ∃ after, s.Leaves (s.runPlan w plan).world r after ∧ l.Becomes r.type after := by
  have loaded := load_eq_ok prepared.loaded
  have settled := prepared.entitled_after keeps finished
  have looked_up {x : String}
      (hx : s.collaborators.Entitled (s.runPlan w plan).world r.tenantId x) :
      ∃ a, (a ∈ l.applications ∨ a ∈ l.entitled) ∧ a.id = x := by
    rcases ((settled x).mp hx).1 with before | ⟨t, ht, given⟩
    · obtain ⟨a, ha, rfl⟩ := (loaded.entitled_iff x).mp before
      exact ⟨a, .inr ha, rfl⟩
    · obtain ⟨a, ha, hid⟩ := requested_of_gives ht given
      exact ⟨a, .inl ha, hid⟩
  have known : ∀ x ∈ (s.collaborators.store (s.runPlan w plan).world).entitledIds r.tenantId,
      ∃ a, s.registry.known? x = some a := by
    intro x hx
    obtain ⟨a, ha, rfl⟩ := looked_up (Store.mem_entitledIds.mp hx)
    exact ⟨a, loaded.known ha⟩
  obtain ⟨all, readable⟩ := Registry.readable_of_find loaded.requested
  obtain ⟨after, hafter⟩ := Registry.find_ok readable _ known
  refine ⟨after, hafter, fun a => ?_⟩
  rw [Registry.mem_find hafter, Store.mem_entitledIds]
  constructor
  · rintro ⟨there, ha⟩
    obtain ⟨source, untaken⟩ := (settled a.id).mp there
    obtain ⟨b, hb, hid⟩ := looked_up there
    have hk := loaded.known hb
    rw [hid, ha] at hk
    obtain rfl := Option.some.inj hk
    refine ⟨?_, untaken⟩
    by_cases before : a ∈ l.entitled
    · exact .inl before
    · refine .inr ⟨hb.resolve_right before, source.resolve_left fun h => before ?_⟩
      obtain ⟨c, hc, hcid⟩ := (loaded.entitled_iff a.id).mp h
      rwa [loaded.eq_of_id hb (.inr hc) hcid.symm]
  · rintro ⟨ha | ⟨ha, given⟩, untaken⟩
    · have before := (loaded.entitled_iff a.id).mpr ⟨a, ha, rfl⟩
      exact ⟨(settled a.id).mpr ⟨.inl before, untaken⟩, loaded.entitled_known ha⟩
    · exact ⟨(settled a.id).mpr ⟨.inr given, untaken⟩, loaded.requested_known ha⟩

/-! ## What checks guarantee -/

theorem mem_remaining {type : EntitlementType} :
    b ∈ (l.context type).remaining ↔
      b ∈ l.checkedEntitled type ∧ b.name ∉ l.applications.map (·.name) := by
  simp [ValidationContext.remaining, remainingBeside, context]

/-- Unless a request revokes, the dependencies of requested applications are met by requested ones
or by others that the tenant has. -/
theorem Prepared.requested_met (prepared : s.Prepared w ids r l plan) (other : r.type ≠ .revoke)
    {k : Application} (hk : k ∈ l.applications) {d : Dependency} (hd : d ∈ k.dependencies) :
    ∃ b, d.MetBy b ∧ (b ∈ l.applications ∨
      b ∈ l.checkedEntitled r.type ∧ b.name ∉ l.applications.map (·.name)) := by
  have valid := (ValidationContext.validate_eq_ok prepared.valid).2
  have install : (l.context r.type).checkInstall = .ok () := by
    cases ht : r.type with
    | revoke => exact absurd ht other
    | _ => simpa [ValidationContext.run, Validator.appliesTo, context, ht] using valid
  obtain ⟨b, hb, met⟩ := ValidationContext.checkInstall_eq_ok install k hk d hd
  exact ⟨b, met, hb.imp_right mem_remaining.mp⟩

/-- What is left needs no name of anything revoked. -/
theorem Prepared.not_needed (prepared : s.Prepared w ids r l plan) (revokes : r.type = .revoke)
    {k : Application} (hk : k ∈ l.entitled) (foreign : k.name ∉ l.applications.map (·.name))
    {d : Dependency} (hd : d ∈ k.dependencies) : d.name ∉ l.applications.map (·.name) := by
  have valid := (ValidationContext.validate_eq_ok prepared.valid).2
  have revoke : (l.context r.type).checkRevoke = .ok () := by
    simpa [ValidationContext.run, Validator.appliesTo, context, revokes] using valid
  refine ValidationContext.checkRevoke_eq_ok revoke k ?_ d hd
  exact mem_remaining.mpr ⟨by simpa [checkedEntitled, revokes] using hk, foreign⟩

/-- No requested version is replaced by an upgrade. -/
theorem Prepared.not_replaced (prepared : s.Prepared w ids r l plan) (upgrades : r.type = .upgrade)
    (ha : a ∈ l.applications) (hold : FlowPlan.installedVersion l.entitled b = .ok old) :
    old.id ≠ a.id := by
  intro hid
  have loaded := load_eq_ok prepared.loaded
  obtain ⟨there, hname⟩ := installedVersion_eq_ok hold
  obtain rfl := loaded.eq_of_id (.inr there) (.inl ha) hid
  have valid := (ValidationContext.validate_eq_ok prepared.valid).1
  rw [ValidationContext.checkType, context, upgrades] at valid
  obtain ⟨current, next, installed, hc, hn, hi, before⟩ :=
    ValidationContext.checkUpgradable_eq_ok valid old ha
  have same : current = old := by
    unfold FlowPlan.installedVersion at hold
    simp only [ValidationContext.entitledNamed?, checkedEntitled, hname, reduceCtorEq,
      if_false] at hc
    rw [hc] at hold
    exact Except.ok.inj hold
  rw [same, hn] at hi
  obtain rfl := Except.ok.inj hi
  rw [Version.before_self] at before
  exact absurd before (by decide)

/-! ## The types of requests -/

variable {after : List Application}

/-- What is entitled comes beside what is there. -/
theorem becomes_entitle (becomes : l.Becomes .entitle after) :
    a ∈ after ↔ a ∈ l.entitled ∨ a ∈ l.applications := by
  rw [becomes a]
  constructor
  · rintro ⟨there | ⟨requested, -⟩, -⟩
    · exact .inl there
    · exact .inr requested
  · intro source
    have untaken : ∀ t, FlowPlan.Planned l.input .entitle t → a.id ∈ t.lastStage.takes →
        a.id ∈ t.lastStage.gives := by
      intro t ht taken
      obtain _ | _ := ht
      simp at taken
    rcases source with there | requested
    · exact ⟨.inl there, untaken⟩
    · exact ⟨.inr ⟨requested, _, .entitle requested, by simp⟩, untaken⟩

/-- What is revoked goes. -/
theorem Loaded.becomes_revoke (loaded : s.Loaded w r l) (becomes : l.Becomes .revoke after) :
    a ∈ after ↔ a ∈ l.entitled ∧ a ∉ l.applications := by
  rw [becomes a]
  constructor
  · rintro ⟨there | ⟨-, t, ht, given⟩, untaken⟩
    · refine ⟨there, fun ha => ?_⟩
      have given := untaken _ (.revoke ha) (by simp)
      simp at given
    · obtain _ | _ := ht
      simp at given
  · rintro ⟨there, kept⟩
    refine ⟨.inl there, fun t ht taken => absurd ?_ kept⟩
    rcases ht with _ | @⟨c, hc⟩
    rwa [loaded.eq_of_id (.inr there) (.inl hc) (by simpa using taken)]

/-- What is upgraded takes the place of the version that was there. -/
theorem Prepared.becomes_upgrade (prepared : s.Prepared w ids r l plan)
    (upgrades : r.type = .upgrade) (becomes : l.Becomes .upgrade after) :
    a ∈ after ↔ a ∈ l.applications ∨ a ∈ l.entitled ∧
      ∀ b ∈ l.applications, FlowPlan.installedVersion l.entitled b ≠ .ok a := by
  have loaded := load_eq_ok prepared.loaded
  obtain ⟨going, coming, tasks, built⟩ := prepared.built
  rw [becomes a]
  constructor
  · rintro ⟨source, untaken⟩
    by_cases ha : a ∈ l.applications
    · exact .inl ha
    · have there := source.resolve_right fun h => ha h.1
      refine .inr ⟨there, fun b hb hold => ha ?_⟩
      have given := untaken _ (.upgrade hb hold) (by simp)
      rwa [loaded.eq_of_id (.inr there) (.inl hb) (by simpa using given)]
  · rintro (ha | ⟨there, kept⟩)
    · obtain ⟨old, hold⟩ := built.installed a ha (.inl upgrades)
      refine ⟨.inr ⟨ha, _, .upgrade ha hold, by simp⟩, fun t ht taken => ?_⟩
      rcases ht with _ | _ | @⟨c, old', hc, hold'⟩
      refine absurd ?_ (prepared.not_replaced upgrades ha hold')
      simpa [eq_comm] using taken
    · refine ⟨.inl there, fun t ht taken => ?_⟩
      rcases ht with _ | _ | @⟨c, old', hc, hold'⟩
      have old_there := (installedVersion_eq_ok hold').1
      obtain rfl := loaded.eq_of_id (.inr there) (.inr old_there) (by simpa using taken)
      exact absurd hold' (kept c hc)

/-! ## States -/

/-- The versions of identifiers that read back are those of the applications. -/
theorem get?_ofIds_id {side : Side} {applications : List Application} {versions : Versions}
    (reads : ∀ a ∈ applications, VersionedName.parse a.id = .ok ⟨a.name, a.version⟩)
    (h : Versions.ofIds side (applications.map (·.id)) = .ok versions) {name version : String} :
    versions.get? name = some version ↔
      ∃ a ∈ applications, a.name = name ∧ a.version = version := by
  rw [Versions.get?_ofIds h]
  simp only [List.mem_map, exists_exists_and_eq_and]
  refine exists_congr fun a => and_congr_right fun ha => ?_
  rw [reads a ha, Except.ok.injEq, VersionedName.mk.injEq]

/-- A plan compares the versions that the tenant has with those that are requested. -/
structure Compares (l : LoadedRequest) (p : TransitionPlan) : Prop where
  /-- It is the plan of the request. -/
  planned : l.plan = some p
  /-- It has the versions of the tenant. -/
  entitled : ∀ name version, p.entitled.get? name = some version ↔
    ∃ a ∈ l.entitled, a.name = name ∧ a.version = version
  /-- It has the versions that are requested. -/
  desired : ∀ name version, p.desired.get? name = some version ↔
    ∃ a ∈ l.applications, a.name = name ∧ a.version = version

theorem Loaded.compares (loaded : s.Loaded w r l) (state : r.type = .state)
    (reads : l.ReadsBack) : ∃ p, Compares l p := by
  obtain ⟨p, hp, planned⟩ := loaded.planned state
  rw [planState, TransitionPlan.ofIds, Except.bind_eq_ok] at planned
  obtain ⟨entitled, hentitled, planned⟩ := planned
  obtain ⟨desired, hdesired, planned⟩ := Except.bind_eq_ok.mp planned
  obtain rfl := Except.ok.inj planned
  rw [← Registry.find_ids loaded.entitled] at hentitled
  rw [← Registry.find_ids loaded.requested] at hdesired
  refine ⟨_, hp, fun name version => ?_, fun name version => ?_⟩
  · exact get?_ofIds_id (fun a ha => reads a (.inr ha)) hentitled
  · exact get?_ofIds_id (fun a ha => reads a (.inl ha)) hdesired

variable {p : TransitionPlan}

/-- A request that has a plan is about one version of each name that the tenant has. -/
theorem Loaded.single (loaded : s.Loaded w r l) (compares : Compares l p) (ha : a ∈ l.entitled)
    (hb : b ∈ l.entitled) (name : a.name = b.name) : a = b := by
  have version := (compares.entitled a.name a.version).mpr ⟨a, ha, rfl, rfl⟩
  rw [name, (compares.entitled b.name b.version).mpr ⟨b, hb, rfl, rfl⟩,
    Option.some.injEq] at version
  exact loaded.eq_of_id (.inr ha) (.inr hb) (by rw [Application.id, Application.id, name, version])

/-- What is not requested goes. -/
theorem Prepared.state_goes (prepared : s.Prepared w ids r l plan) (state : r.type = .state)
    (compares : Compares l p) (there : a ∈ l.entitled) (unwanted : a ∉ l.applications) :
    ∃ t, FlowPlan.Planned l.input .state t ∧ a.id ∈ t.lastStage.takes ∧
      a.id ∉ t.lastStage.gives := by
  have loaded := load_eq_ok prepared.loaded
  obtain ⟨going, coming, tasks, built⟩ := prepared.built
  have version := (compares.entitled a.name a.version).mpr ⟨a, there, rfl, rfl⟩
  cases hd : p.desired.get? a.name with
  | none =>
    have goes := TransitionPlan.mem_revoke.mpr ⟨⟨_, version⟩, hd⟩
    exact ⟨_, .stateRevoke compares.planned there goes, by simp⟩
  | some next =>
    obtain ⟨b, hb, name, rfl⟩ := (compares.desired a.name next).mp hd
    have other : a.id ≠ b.id := by
      intro same
      obtain rfl := loaded.eq_of_id (.inr there) (.inl hb) same
      exact unwanted hb
    have changes : b.name ∈ p.upgrade := by
      refine TransitionPlan.mem_upgrade.mpr ⟨_, _, name ▸ version, name ▸ hd, fun same => other ?_⟩
      rw [Application.id, Application.id, name, same]
    obtain ⟨old, hold⟩ := built.installed b hb (.inr ⟨state, p, compares.planned, changes⟩)
    obtain ⟨hold_mem, hold_name⟩ := installedVersion_eq_ok hold
    obtain rfl := loaded.single compares hold_mem there (hold_name.trans name)
    exact ⟨_, .stateUpgrade compares.planned hb changes hold, by simpa using other⟩

/-- What is requested is there or comes. -/
theorem Prepared.state_comes (prepared : s.Prepared w ids r l plan) (state : r.type = .state)
    (compares : Compares l p) (ha : a ∈ l.applications) :
    (a ∈ l.entitled ∨ ∃ t, FlowPlan.Planned l.input .state t ∧ a.id ∈ t.lastStage.gives) ∧
      ∀ t, FlowPlan.Planned l.input .state t → a.id ∉ t.lastStage.takes := by
  have loaded := load_eq_ok prepared.loaded
  obtain ⟨going, coming, tasks, built⟩ := prepared.built
  have version := (compares.desired a.name a.version).mpr ⟨a, ha, rfl, rfl⟩
  cases he : p.entitled.get? a.name with
  | none =>
    have comes := TransitionPlan.mem_entitle.mpr ⟨⟨_, version⟩, he⟩
    have planned : FlowPlan.Planned l.input .state (.entitle a) :=
      .stateEntitle compares.planned ha comes fun changes =>
        TransitionPlan.not_entitle_of_upgrade changes comes
    refine ⟨.inr ⟨_, planned, by simp⟩, ?_⟩
    rw [← state] at planned ⊢
    intro t
    exact prepared.stays (newcomer_iff.mpr planned) (.inl ha) rfl
  | some installed =>
    obtain ⟨b, hb, name, rfl⟩ := (compares.entitled a.name installed).mp he
    by_cases hv : b.version = a.version
    · obtain rfl := loaded.eq_of_id (.inr hb) (.inl ha) (by
        rw [Application.id, Application.id, name, hv])
      refine ⟨.inl hb, fun t ht taken => ?_⟩
      rcases ht with _ | _ | _ | @⟨_, c, hp, hc, goes⟩ | @⟨_, c, old, hp, hc, changes, hold⟩ | _
      · obtain rfl := loaded.eq_of_id (.inr hb) (.inr hc) (by simpa using taken)
        obtain rfl := Option.some.inj (compares.planned.symm.trans hp)
        simp [TransitionPlan.mem_revoke, version] at goes
      · obtain ⟨hold_mem, hold_name⟩ := installedVersion_eq_ok hold
        obtain rfl := loaded.eq_of_id (.inr hb) (.inr hold_mem) (by simpa using taken)
        obtain rfl := Option.some.inj (compares.planned.symm.trans hp)
        rw [← hold_name] at changes
        simp [TransitionPlan.mem_upgrade, version, he] at changes
      · simp at taken
    · have changes := TransitionPlan.mem_upgrade.mpr ⟨_, _, he, version, hv⟩
      obtain ⟨old, hold⟩ := built.installed a ha (.inr ⟨state, p, compares.planned, changes⟩)
      obtain ⟨hold_mem, hold_name⟩ := installedVersion_eq_ok hold
      obtain rfl := loaded.single compares hold_mem hb (hold_name.trans name.symm)
      have planned : FlowPlan.Planned l.input .state (.upgrade old a) :=
        .stateUpgrade compares.planned ha changes hold
      refine ⟨.inr ⟨_, planned, by simp⟩, ?_⟩
      rw [← state] at planned ⊢
      intro t
      refine prepared.comes planned fun hid => hv ?_
      rw [loaded.eq_of_id (.inr hb) (.inl ha) hid]

/-- A request for a state leaves what is requested, if identifiers read back. -/
theorem Prepared.becomes_state (prepared : s.Prepared w ids r l plan) (state : r.type = .state)
    (reads : l.ReadsBack) (becomes : l.Becomes .state after) :
    a ∈ after ↔ a ∈ l.applications := by
  obtain ⟨p, compares⟩ := (load_eq_ok prepared.loaded).compares state reads
  rw [becomes a]
  constructor
  · rintro ⟨source, untaken⟩
    by_contra unwanted
    have there := source.resolve_right fun h => unwanted h.1
    obtain ⟨t, ht, taken, ungiven⟩ := prepared.state_goes state compares there unwanted
    exact ungiven (untaken t ht taken)
  · intro ha
    obtain ⟨source, untaken⟩ := prepared.state_comes state compares ha
    exact ⟨source.imp_right fun h => ⟨ha, h⟩, fun t ht taken => absurd taken (untaken t ht)⟩

/-! ## Consistency -/

/-- A dependency of an application that the tenant has afterwards, which no check has compared with
the version that the tenant has then. -/
inductive Exposed (l : LoadedRequest) (after : List Application) :
    EntitlementType → Application → Dependency → Prop where
  /-- Another version of what has the dependency is revoked, and so is what it asks for. -/
  | revoke {k : Application} {d : Dependency} (sibling : k.name ∈ l.applications.map (·.name))
      (needed : d.name ∈ l.applications.map (·.name)) : Exposed l after .revoke k d
  /-- An application that is left as it is asks for what is upgraded. -/
  | upgrade {k : Application} {d : Dependency} (kept : k ∉ l.applications)
      (needed : d.name ∈ l.applications.map (·.name)) : Exposed l after .upgrade k d
  /-- An application is left over that is not requested. -/
  | leftOver {k : Application} {d : Dependency} (unwanted : k ∉ l.applications) :
      Exposed l after .state k d
  /-- An application of the name is requested and does not come. -/
  | lost {k b : Application} {d : Dependency} (requested : b ∈ l.applications)
      (name : b.name = d.name) (absent : b ∉ after) : Exposed l after .state k d

variable {k : Application} {d : Dependency}

/-- A dependency that is not exposed is met after a run that finishes. -/
theorem Prepared.met_unless_exposed (prepared : s.Prepared w ids r l plan)
    (before : Consistent l.entitled) (becomes : l.Becomes r.type after) (hk : k ∈ after)
    (hd : d ∈ k.dependencies) (covered : ¬ Exposed l after r.type k d) :
    ∃ b ∈ after, d.MetBy b := by
  have loaded := load_eq_ok prepared.loaded
  have requested_met := prepared.requested_met
  generalize ht : r.type = type at becomes covered requested_met
  cases type with
  | entitle =>
    have after_iff (a : Application) := becomes_entitle (a := a) becomes
    rcases (after_iff k).mp hk with hk | hk
    · obtain ⟨b, hb, met⟩ := before k hk d hd
      exact ⟨b, (after_iff b).mpr (.inl hb), met⟩
    · obtain ⟨b, met, hb | hb⟩ := requested_met (by simp) hk hd
      · exact ⟨b, (after_iff b).mpr (.inr hb), met⟩
      · exact ⟨b, (after_iff b).mpr (.inl (by simpa [checkedEntitled] using hb.1)), met⟩
  | revoke =>
    have after_iff (a : Application) := loaded.becomes_revoke (a := a) becomes
    have hk := ((after_iff k).mp hk).1
    obtain ⟨b, hb, met⟩ := before k hk d hd
    by_cases revoked : b ∈ l.applications
    · have needed : d.name ∈ l.applications.map (·.name) :=
        met.1 ▸ List.mem_map_of_mem revoked
      by_cases sibling : k.name ∈ l.applications.map (·.name)
      · exact absurd (.revoke sibling needed) covered
      · exact absurd needed (prepared.not_needed ht hk sibling hd)
    · exact ⟨b, (after_iff b).mpr ⟨hb, revoked⟩, met⟩
  | upgrade =>
    have after_iff (a : Application) := prepared.becomes_upgrade (a := a) ht becomes
    have left {b : Application} (hb : b ∈ l.entitled)
        (foreign : b.name ∉ l.applications.map (·.name)) : b ∈ after := by
      refine (after_iff b).mpr (.inr ⟨hb, fun c hc hold => foreign ?_⟩)
      rw [(installedVersion_eq_ok hold).2]
      exact List.mem_map_of_mem hc
    by_cases requested : k ∈ l.applications
    · obtain ⟨b, met, hb | hb⟩ := requested_met (by simp) requested hd
      · exact ⟨b, (after_iff b).mpr (.inl hb), met⟩
      · exact ⟨b, left (by simpa [checkedEntitled] using hb.1) hb.2, met⟩
    · have hk := (((after_iff k).mp hk).resolve_left requested).1
      obtain ⟨b, hb, met⟩ := before k hk d hd
      exact ⟨b, left hb fun needed => covered (.upgrade requested (met.1 ▸ needed)), met⟩
  | state =>
    by_cases requested : k ∈ l.applications
    · obtain ⟨b, met, hb | hb⟩ := requested_met (by simp) requested hd
      · by_cases there : b ∈ after
        · exact ⟨b, there, met⟩
        · exact absurd (.lost hb met.1 there) covered
      · refine absurd ?_ hb.2
        simpa [checkedEntitled] using (List.mem_filter.mp hb.1).2
    · exact absurd (.leftOver requested) covered

/-- After a run with one worker that finishes, the applications of a tenant that was consistent before
are consistent exactly if the exposed dependencies are met. When a state is requested and identifiers
read back, they are the requested ones, and nothing is exposed. -/
theorem finished_consistent_iff {e : Execution σ} (keeps : s.collaborators.KeepsEntitlements)
    (loads : s.load w r = .ok l) (before : Consistent l.entitled)
    (ran : s.execute w ids r = .ok e) (finished : e.report.status = .finished) :
    ∃ after, s.Leaves e.world r after ∧
      (Consistent after ↔
        ∀ k ∈ after, ∀ d ∈ k.dependencies, Exposed l after r.type k d → ∃ b ∈ after, d.MetBy b) ∧
      (r.type = .entitle → Consistent after) ∧
      (r.type = .state → l.ReadsBack → (∀ a, a ∈ after ↔ a ∈ l.applications) ∧
        Consistent after) := by
  obtain ⟨l', plan, prepared, rfl⟩ := execute_eq_ok ran
  obtain rfl := Except.ok.inj (loads.symm.trans prepared.loaded)
  obtain ⟨after, leaves, becomes⟩ := prepared.leaves keeps finished
  have met {k : Application} {d : Dependency} (hk : k ∈ after) (hd : d ∈ k.dependencies) :=
    prepared.met_unless_exposed before becomes hk hd
  refine ⟨after, leaves, ⟨?_, ?_⟩, ?_, ?_⟩
  · intro consistent k hk d hd _
    exact consistent k hk d hd
  · intro covered k hk d hd
    by_cases exposed : Exposed l after r.type k d
    · exact covered k hk d hd exposed
    · exact met hk hd exposed
  · intro entitles k hk d hd
    refine met hk hd fun exposed => ?_
    rw [entitles] at exposed
    cases exposed
  · intro state reads
    have requested (a : Application) :=
      prepared.becomes_state (a := a) state reads (state ▸ becomes)
    refine ⟨requested, fun k hk d hd => met hk hd fun exposed => ?_⟩
    rw [state] at exposed
    rcases exposed with _ | _ | ⟨unwanted⟩ | ⟨hb, name, absent⟩
    · exact unwanted ((requested k).mp hk)
    · exact absent ((requested _).mpr hb)

/-! ## An upgrade out of range -/

/-- A version of an application without dependencies. -/
def plainVersion (version : String) : Application := { name := "a", version }

/-- An application that needs a version of another one. -/
def dependent : Application :=
  { name := "b", version := "1.0.0", dependencies := [{ name := "a", range := "^1.0.0" }] }

/-- An installation that knows two versions of what an application needs. -/
def withDependent : Service Store :=
  { registry := .ofList [plainVersion "1.0.0", plainVersion "2.0.0", dependent]
    capabilities := {}
    retry := .noRetry
    collaborators := Ledger.collaborators }

/-- A tenant that has an application and what it needs. -/
def bothEntitled : Store :=
  ((Store.empty.saveEntitlement "t" "a-1.0.0").2.saveEntitlement "t" "b-1.0.0").2

/-- Revoking what nothing needs leaves a tenant consistent. -/
theorem finished_consistent_revoked :
    ∃ e, withDependent.execute bothEntitled numbered (requesting .revoke ["b-1.0.0"]) = .ok e ∧
      ∃ after, withDependent.Leaves e.world (requesting .revoke ["b-1.0.0"]) after ∧
        (Consistent after ↔ ∀ k ∈ after, ∀ d ∈ k.dependencies,
          Exposed (loading [plainVersion "1.0.0", dependent] [dependent]) after .revoke k d →
            ∃ b ∈ after, d.MetBy b) := by
  have loads : withDependent.load bothEntitled (requesting .revoke ["b-1.0.0"])
      = .ok (loading [plainVersion "1.0.0", dependent] [dependent]) := rfl
  obtain ⟨e, ran, finished⟩ := execute_of_made numbered loads rfl
    (f := fun e => e.report.status) (b := .finished) (by decide +kernel)
  obtain ⟨after, leaves, consistent, -⟩ := finished_consistent_iff Ledger.keepsEntitlements loads
    (by decide +kernel) ran finished
  exact ⟨e, ran, after, leaves, consistent⟩

/-- An upgrade is carried out although something that the tenant has does not accept it. -/
theorem finished_out_of_range :
    ∃ l e, withDependent.load bothEntitled (requesting .upgrade ["a-2.0.0"]) = .ok l ∧
      Consistent l.entitled ∧
      withDependent.execute bothEntitled numbered (requesting .upgrade ["a-2.0.0"]) = .ok e ∧
      e.report.status = .finished ∧
      ∃ after, withDependent.Leaves e.world (requesting .upgrade ["a-2.0.0"]) after ∧
        ¬ Consistent after := by
  have loads : withDependent.load bothEntitled (requesting .upgrade ["a-2.0.0"])
      = .ok (loading [plainVersion "1.0.0", dependent] [plainVersion "2.0.0"]) := rfl
  have valid := ValidationContext.validate_of_free
    ((loading [plainVersion "1.0.0", dependent] [plainVersion "2.0.0"]).context .upgrade)
    (by decide) rfl (by decide) rfl rfl
  obtain ⟨e, ran, shows⟩ := execute_of_made numbered loads valid
    (f := fun e => (e.report.status, e.world.entitledIds "t"))
    (b := (.finished, ["a-2.0.0", "b-1.0.0"])) (by decide +kernel)
  obtain ⟨finished, ids⟩ := Prod.mk.inj shows
  have leaves : withDependent.Leaves e.world (requesting .upgrade ["a-2.0.0"])
      [plainVersion "2.0.0", dependent] := by
    have found : withDependent.registry.find ["a-2.0.0", "b-1.0.0"]
      = .ok [plainVersion "2.0.0", dependent] := rfl
    rwa [← ids] at found
  exact ⟨_, e, loads, by decide +kernel, ran, finished, _, leaves, by decide +kernel⟩

end Service

end Provisioning
