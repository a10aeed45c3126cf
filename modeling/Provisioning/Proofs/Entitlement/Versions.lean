import Provisioning.Proofs.Entitlement.Checks
import Provisioning.Proofs.Entitlement.Runs

/-!
# One version of each application

A request may give a tenant an application without taking another version of it away: nothing
compares the applications of a request with each other. Apart from such newcomers, runs keep one
version of each name, whatever fails on the way and whatever is undone.
-/

namespace Provisioning

variable {σ : Type}

/-- Every tenant is entitled to known applications, of which no two have one name. -/
structure Registry.OneVersion (r : Registry) (s : Store) : Prop where
  /-- The registry knows the applications. -/
  known : ∀ tenantId x, s.isEntitled tenantId x → ∃ a, r.known? x = some a
  /-- There is one version of each name. -/
  unique : ∀ tenantId a b, r.known? a.id = some a → r.known? b.id = some b →
    s.isEntitled tenantId a.id → s.isEntitled tenantId b.id → a.name = b.name → a = b

/-! ## Plans -/

namespace TransitionPlan

variable {p : TransitionPlan} {name : String}

theorem mem_entitle :
    name ∈ p.entitle ↔ (∃ version, p.desired.get? name = some version) ∧
      p.entitled.get? name = none := by
  simp [entitle, OrderedMap.mem_keys_iff, OrderedMap.contains, Option.isSome_iff_exists]

theorem mem_upgrade :
    name ∈ p.upgrade ↔ ∃ installed next, p.entitled.get? name = some installed ∧
      p.desired.get? name = some next ∧ installed ≠ next := by
  simp only [upgrade, List.mem_filter, OrderedMap.mem_keys_iff, OrderedMap.contains,
    Bool.and_eq_true, bne_iff_ne, Option.isSome_iff_exists]
  constructor
  · rintro ⟨⟨next, hn⟩, ⟨installed, hi⟩, hne⟩
    refine ⟨installed, next, hi, hn, fun same => hne ?_⟩
    rw [hi, hn, same]
  · rintro ⟨installed, next, hi, hn, hne⟩
    refine ⟨⟨next, hn⟩, ⟨installed, hi⟩, fun same => hne ?_⟩
    simpa [hi, hn] using same

theorem mem_revoke :
    name ∈ p.revoke ↔ (∃ version, p.entitled.get? name = some version) ∧
      p.desired.get? name = none := by
  simp [revoke, OrderedMap.mem_keys_iff, OrderedMap.contains, Option.isSome_iff_exists]

theorem not_entitle_of_upgrade (h : name ∈ p.upgrade) : name ∉ p.entitle := by
  obtain ⟨installed, next, hi, -⟩ := mem_upgrade.mp h
  rw [mem_entitle, hi]
  simp

theorem not_entitle_of_revoke (h : name ∈ p.revoke) : name ∉ p.entitle := by
  obtain ⟨-, hd⟩ := mem_revoke.mp h
  rw [mem_entitle, hd]
  simp

theorem not_upgrade_of_revoke (h : name ∈ p.revoke) : name ∉ p.upgrade := by
  obtain ⟨-, hd⟩ := mem_revoke.mp h
  rw [mem_upgrade, hd]
  simp

end TransitionPlan

/-! ## Newcomers and rivals -/

namespace LoadedRequest

/-- The applications that a request gives to the tenant without taking any in exchange. -/
def newcomers (l : LoadedRequest) (type : EntitlementType) : List Application :=
  match type, l.plan with
  | .entitle, _ => l.applications
  | .state, some p => l.applications.filter fun a => p.entitle.contains a.name
  | _, _ => []

/-- A newcomer, and another version of its name that is requested too or that the tenant has. -/
structure Rivals (l : LoadedRequest) (type : EntitlementType) (a b : Application) : Prop where
  /-- One of them is a newcomer. -/
  newcomer : a ∈ l.newcomers type
  /-- The other one is requested, or the tenant has it. -/
  other : b ∈ l.applications ∨ b ∈ l.entitled
  /-- They have one name. -/
  name : b.name = a.name
  /-- They are two. -/
  ne : b ≠ a

/-- Why the tenant may be entitled to an application while a request is carried out. -/
inductive Origin (l : LoadedRequest) (type : EntitlementType) (a : Application) : Prop where
  /-- The tenant had it. -/
  | entitled (there : a ∈ l.entitled)
  /-- It is a newcomer. -/
  | newcomer (new : a ∈ l.newcomers type)
  /-- It takes the place of another version. -/
  | upgrade {old : Application} (planned : FlowPlan.Planned l.input type (.upgrade old a))

/-- Entitlements of a tenant among which only newcomers may share a name with others. -/
structure Steady (l : LoadedRequest) (type : EntitlementType) (E : Set String) : Prop where
  /-- Each of them has an origin. -/
  origin : ∀ x ∈ E, ∃ a, a.id = x ∧ l.Origin type a
  /-- There is one version of each name, newcomers apart. -/
  unique : ∀ a b, l.Origin type a → l.Origin type b → a.id ∈ E → b.id ∈ E → a.name = b.name →
    a ∉ l.newcomers type → b ∉ l.newcomers type → a = b

variable {l : LoadedRequest} {type : EntitlementType} {a b old : Application}

theorem requested_of_newcomer (h : a ∈ l.newcomers type) : a ∈ l.applications := by
  unfold newcomers at h
  split at h
  · exact h
  · exact (List.mem_filter.mp h).1
  · simp at h

/-- What is requested under the name of a newcomer is a newcomer. -/
theorem newcomer_of_name (h : a ∈ l.newcomers type) (hb : b ∈ l.applications)
    (name : b.name = a.name) : b ∈ l.newcomers type := by
  unfold newcomers at h ⊢
  split at h
  · exact hb
  · rw [List.mem_filter] at h ⊢
    exact ⟨hb, name ▸ h.2⟩
  · simp at h

/-- A newcomer is entitled by a task of its own. -/
theorem newcomer_iff : a ∈ l.newcomers type ↔ FlowPlan.Planned l.input type (.entitle a) := by
  constructor
  · intro h
    unfold newcomers at h
    split at h
    · exact .entitle h
    · rename_i p hp
      rw [List.mem_filter, List.contains_iff_mem] at h
      obtain ⟨requested, comes⟩ := h
      refine .stateEntitle hp requested comes fun changes => ?_
      exact TransitionPlan.not_entitle_of_upgrade changes comes
    · simp at h
  · rintro (h | _ | _ | _ | _ | ⟨hp, ha, hn, -⟩)
    · exact h
    · replace hp : l.plan = _ := hp
      simp only [newcomers, hp, List.mem_filter, List.contains_iff_mem]
      exact ⟨ha, hn⟩

/-- An upgrade takes the place of something of the same name, which no newcomer has. -/
theorem of_planned_upgrade (h : FlowPlan.Planned l.input type (.upgrade old a)) :
    a ∈ l.applications ∧ FlowPlan.installedVersion l.entitled a = .ok old ∧
      ∀ b ∈ l.newcomers type, b.name ≠ a.name := by
  rcases h with _ | _ | ⟨ha, hold⟩ | _ | ⟨hp, ha, hu, hold⟩
  · exact ⟨ha, hold, by simp [newcomers]⟩
  · refine ⟨ha, hold, fun b hb heq => ?_⟩
    replace hp : l.plan = _ := hp
    simp only [newcomers, hp, List.mem_filter, List.contains_iff_mem] at hb
    exact TransitionPlan.not_entitle_of_upgrade hu (heq ▸ hb.2)

theorem Origin.looked_up (h : l.Origin type a) : a ∈ l.applications ∨ a ∈ l.entitled := by
  cases h with
  | entitled there => exact .inr there
  | newcomer new => exact .inl (requested_of_newcomer new)
  | upgrade planned => exact .inl (of_planned_upgrade planned).1

theorem Steady.subset {E E' : Set String} (steady : l.Steady type E) (h : ∀ x ∈ E', x ∈ E) :
    l.Steady type E' := by
  constructor
  · intro x hx
    exact steady.origin x (h x hx)
  · intro a b ha hb hae hbe
    exact steady.unique a b ha hb (h _ hae) (h _ hbe)

end LoadedRequest

namespace Service

open LoadedRequest

variable {s : Service σ} {w : σ} {ids : FlowIds} {r : EntitlementRequest} {l : LoadedRequest}
  {plan : FlowPlan} {a b : Application}

/-- What is revoked is there, and no newcomer and no upgrade has its name. -/
theorem Prepared.of_planned_revoke (prepared : s.Prepared w ids r l plan)
    (h : FlowPlan.Planned l.input r.type (.revoke a)) :
    a ∈ l.entitled ∧ (∀ b ∈ l.newcomers r.type, b.name ≠ a.name) ∧
      ∀ old b, FlowPlan.Planned l.input r.type (.upgrade old b) → b.name ≠ a.name := by
  have loaded := load_eq_ok prepared.loaded
  have valid := prepared.valid
  generalize ht : r.type = type at h valid
  rcases h with _ | ha | _ | ⟨hp, ha, hn⟩
  · have there := ValidationContext.checkEntitled_eq_ok
      (ValidationContext.validate_eq_ok valid).1 a ha
    obtain ⟨b, hb, heq⟩ := List.mem_map.mp there
    replace hb : b ∈ l.entitled := by simpa [context, checkedEntitled] using hb
    obtain rfl := loaded.eq_of_id (.inr hb) (.inl ha) heq
    exact ⟨hb, by simp [newcomers], fun old c hc => by cases hc⟩
  · refine ⟨ha, fun b hb heq => ?_, fun old b hb heq => ?_⟩
    · replace hp : l.plan = _ := hp
      simp only [newcomers, hp, List.mem_filter, List.contains_iff_mem] at hb
      exact TransitionPlan.not_entitle_of_revoke hn (heq ▸ hb.2)
    · obtain _ | _ | _ | _ | ⟨hp', -, hu, -⟩ := hb
      obtain rfl := Option.some.inj (hp.symm.trans hp')
      exact TransitionPlan.not_upgrade_of_revoke hn (heq ▸ hu)

/-- One application that comes leaves entitlements steady, if it does not meet another version that
is no newcomer. -/
theorem Loaded.steady_exchanged (loaded : s.Loaded w r l) {E : Set String} {takes : List String}
    (steady : l.Steady r.type E) (origin : l.Origin r.type a)
    (free : ∀ b, l.Origin r.type b → b.id ∈ E → b.id ∉ takes → b.name = a.name →
      b ∉ l.newcomers r.type → a ∈ l.newcomers r.type ∨ b = a) :
    l.Steady r.type (exchanged [a.id] takes E) := by
  have same {c : Application} (hc : l.Origin r.type c) (h : c.id = a.id) : c = a :=
    loaded.eq_of_id hc.looked_up origin.looked_up h
  refine ⟨fun x hx => ?_, fun c d hc hd hcE hdE hname hcn hdn => ?_⟩
  · obtain hx | ⟨-, hx⟩ := hx
    · exact ⟨a, (List.mem_singleton.mp hx).symm, origin⟩
    · exact steady.origin x hx
  · simp only [mem_exchanged, List.mem_singleton] at hcE hdE
    rcases hcE with hcE | ⟨hct, hcE⟩ <;> rcases hdE with hdE | ⟨hdt, hdE⟩
    · rw [same hc hcE, same hd hdE]
    · obtain rfl := same hc hcE
      rcases free d hd hdE hdt hname.symm hdn with new | rfl
      · exact absurd new hcn
      · rfl
    · obtain rfl := same hd hdE
      rcases free c hc hcE hct hname hcn with new | rfl
      · exact absurd new hdn
      · rfl
    · exact steady.unique c d hc hd hcE hdE hname hcn hdn

theorem Loaded.single_of_oneVersion (loaded : s.Loaded w r l)
    (one : s.registry.OneVersion (s.collaborators.store w)) (ha : a ∈ l.entitled)
    (hb : b ∈ l.entitled) (name : a.name = b.name) : a = b := by
  have hae := (loaded.entitled_iff a.id).mpr ⟨a, ha, rfl⟩
  have hbe := (loaded.entitled_iff b.id).mpr ⟨b, hb, rfl⟩
  exact one.unique r.tenantId a b (loaded.entitled_known ha) (loaded.entitled_known hb) hae hbe name

/-- One version of each application is steady. -/
theorem Loaded.steady_of_oneVersion (loaded : s.Loaded w r l)
    (one : s.registry.OneVersion (s.collaborators.store w)) :
    l.Steady r.type (s.collaborators.entitledSet w r.tenantId) := by
  have there {a : Application} (ha : l.Origin r.type a)
      (hae : a.id ∈ s.collaborators.entitledSet w r.tenantId) : a ∈ l.entitled := by
    obtain ⟨b, hb, hid⟩ := (loaded.entitled_iff a.id).mp hae
    rwa [loaded.eq_of_id ha.looked_up (.inr hb) hid.symm]
  constructor
  · intro x hx
    obtain ⟨a, ha, hid⟩ := (loaded.entitled_iff x).mp hx
    exact ⟨a, hid, .entitled ha⟩
  · intro a b ha hb hae hbe name _ _
    exact loaded.single_of_oneVersion one (there ha hae) (there hb hbe) name

/-- A task that is done keeps entitlements steady. -/
theorem Loaded.steady_done (loaded : s.Loaded w r l) {t : ApplicationTask}
    (ht : FlowPlan.Planned l.input r.type t) {E : Set String} (steady : l.Steady r.type E)
    (there : ∀ x ∈ t.lastStage.takes, x ∈ E) :
    l.Steady r.type (exchanged t.lastStage.gives t.lastStage.takes E) := by
  cases t with
  | entitle a =>
    have new := newcomer_iff.mpr ht
    exact loaded.steady_exchanged steady (.newcomer new) fun _ _ _ _ _ _ => .inl new
  | revoke a =>
    refine steady.subset fun x hx => ?_
    simp_all [exchanged]
  | upgrade old a =>
    obtain ⟨ha, hold, foreign⟩ := of_planned_upgrade ht
    obtain ⟨hold, old_name⟩ := installedVersion_eq_ok hold
    have old_new : old ∉ l.newcomers r.type := fun h => foreign old h old_name
    have old_there : old.id ∈ E := there old.id (by simp)
    refine loaded.steady_exchanged steady (.upgrade ht) fun b hb hbE kept name hbnew => ?_
    have same := steady.unique b old hb (.entitled hold) hbE old_there (name.trans old_name.symm)
      hbnew old_new
    exact absurd (by simp [same]) kept

/-- A task that is undone keeps entitlements steady. -/
theorem Prepared.steady_undone (prepared : s.Prepared w ids r l plan)
    (one : s.registry.OneVersion (s.collaborators.store w)) {t : ApplicationTask}
    (ht : FlowPlan.Planned l.input r.type t) {E : Set String} (steady : l.Steady r.type E)
    (there : t.lastStage.takes ≠ [] → ∀ x ∈ t.lastStage.gives, x ∈ E) :
    l.Steady r.type (exchanged t.lastStage.takes t.lastStage.gives E) := by
  have loaded := load_eq_ok prepared.loaded
  cases t with
  | entitle a =>
    refine steady.subset fun x hx => ?_
    simp_all [exchanged]
  | revoke a =>
    obtain ⟨ha, foreign, away⟩ := prepared.of_planned_revoke ht
    refine loaded.steady_exchanged steady (.entitled ha) fun b hb hbE _ name hbnew => .inr ?_
    cases hb with
    | entitled hb => exact loaded.single_of_oneVersion one hb ha name
    | newcomer hb => exact absurd hb hbnew
    | upgrade planned => exact absurd name (away _ b planned)
  | upgrade old a =>
    obtain ⟨ha, hold, foreign⟩ := of_planned_upgrade ht
    obtain ⟨hold, old_name⟩ := installedVersion_eq_ok hold
    have a_new : a ∉ l.newcomers r.type := fun h => foreign a h rfl
    have a_there : a.id ∈ E := there (by simp) a.id (by simp)
    refine loaded.steady_exchanged steady (.entitled hold) fun b hb hbE kept name hbnew => ?_
    have same := steady.unique b a hb (.upgrade ht) hbE a_there (name.trans old_name) hbnew a_new
    exact absurd (by simp [same]) kept

/-- Whatever becomes of a run, only newcomers may share a name with others afterwards. -/
theorem Prepared.steady (prepared : s.Prepared w ids r l plan)
    (keeps : s.collaborators.KeepsEntitlements)
    (one : s.registry.OneVersion (s.collaborators.store w)) :
    l.Steady r.type (s.collaborators.entitledSet (s.runPlan w plan).world r.tenantId) := by
  have loaded := load_eq_ok prepared.loaded
  refine prepared.tenant_preserves keeps ?_ ?_ (loaded.steady_of_oneVersion one)
  · intro t ht E steady there
    exact loaded.steady_done ht steady there
  · intro t ht E steady there
    exact prepared.steady_undone one ht steady there

/-- What a request gives without taking anything in exchange does not make place for anything. -/
theorem Prepared.stays (prepared : s.Prepared w ids r l plan) (new : a ∈ l.newcomers r.type)
    (hb : b ∈ l.applications ∨ b ∈ l.entitled) (name : b.name = a.name) {t : ApplicationTask}
    (ht : FlowPlan.Planned l.input r.type t) : b.id ∉ t.lastStage.takes := by
  have loaded := load_eq_ok prepared.loaded
  cases t with
  | entitle c => simp
  | revoke c =>
    obtain ⟨hc, foreign, -⟩ := prepared.of_planned_revoke ht
    intro taken
    obtain rfl := loaded.eq_of_id hb (.inr hc) (by
      simpa using taken)
    exact foreign a new name.symm
  | upgrade old c =>
    obtain ⟨-, hold, foreign⟩ := of_planned_upgrade ht
    obtain ⟨hold, hname⟩ := installedVersion_eq_ok hold
    intro taken
    obtain rfl := loaded.eq_of_id hb (.inr hold) (by
      simpa using taken)
    exact foreign a new (name.symm.trans hname)

/-! ## Runs -/

/-- A request has rivals. -/
def HasRivals (s : Service σ) (w : σ) (r : EntitlementRequest) : Prop :=
  ∃ l a b, s.load w r = .ok l ∧ l.Rivals r.type a b

/-- A run leaves two rivals to the tenant. -/
def LeavesRivals (s : Service σ) (w : σ) (r : EntitlementRequest) (e : Execution σ) : Prop :=
  ∃ l a b, s.load w r = .ok l ∧ l.Rivals r.type a b ∧
    s.collaborators.Entitled e.world r.tenantId a.id ∧
    s.collaborators.Entitled e.world r.tenantId b.id

/-- After one version of each application, a run leaves one version of each unless it leaves
rivals. -/
theorem oneVersion_iff {e : Execution σ} (keeps : s.collaborators.KeepsEntitlements)
    (one : s.registry.OneVersion (s.collaborators.store w)) (ran : s.execute w ids r = .ok e) :
    s.registry.OneVersion (s.collaborators.store e.world) ↔ ¬ s.LeavesRivals w r e := by
  obtain ⟨l, plan, prepared, rfl⟩ := execute_eq_ok ran
  have loaded := load_eq_ok prepared.loaded
  constructor
  · rintro after ⟨l', a, b, hl, rivals, hae, hbe⟩
    obtain rfl := Except.ok.inj (hl.symm.trans prepared.loaded)
    have ha := loaded.requested_known (requested_of_newcomer rivals.newcomer)
    have hb := loaded.known rivals.other
    exact rivals.ne (after.unique _ b a hb ha hbe hae rivals.name)
  · intro apart
    have steady := prepared.steady keeps one
    have others {t : String} (h : t ≠ r.tenantId) (x : String) := prepared.others keeps h x
    refine ⟨fun t x hx => ?_, fun t a b ha hb hae hbe hname => ?_⟩
    · by_cases ht : t = r.tenantId
      · subst ht
        obtain ⟨a, rfl, origin⟩ := steady.origin x hx
        exact ⟨a, loaded.known origin.looked_up⟩
      · exact one.known t x ((others ht x).mp hx)
    · by_cases ht : t = r.tenantId
      · subst ht
        have origin {a : Application} (ha : s.registry.known? a.id = some a)
            (hae : a.id ∈ s.collaborators.entitledSet (s.runPlan w plan).world r.tenantId) :
            l.Origin r.type a := by
          obtain ⟨a', hid, origin⟩ := steady.origin a.id hae
          have hk := loaded.known origin.looked_up
          rw [hid, ha] at hk
          obtain rfl := Option.some.inj hk
          exact origin
        by_contra hne
        have alone {a b : Application} (ha : l.Origin r.type a) (hb : l.Origin r.type b)
            (hae : a.id ∈ s.collaborators.entitledSet (s.runPlan w plan).world r.tenantId)
            (hbe : b.id ∈ s.collaborators.entitledSet (s.runPlan w plan).world r.tenantId)
            (hname : b.name = a.name) (hne : b ≠ a) : a ∉ l.newcomers r.type := by
          intro new
          exact apart ⟨l, a, b, prepared.loaded, ⟨new, hb.looked_up, hname, hne⟩, hae, hbe⟩
        have ha := origin ha hae
        have hb := origin hb hbe
        have a_new := alone ha hb hae hbe hname.symm (Ne.symm hne)
        have b_new := alone hb ha hbe hae hname hne
        exact hne (steady.unique a b ha hb hae hbe hname a_new b_new)
      · exact one.unique t a b ha hb ((others ht _).mp hae) ((others ht _).mp hbe) hname

/-- A run that finishes leaves rivals if the request has some. -/
theorem leavesRivals_iff {e : Execution σ} (keeps : s.collaborators.KeepsEntitlements)
    (ran : s.execute w ids r = .ok e) (finished : e.report.status = .finished) :
    s.LeavesRivals w r e ↔ s.HasRivals w r := by
  obtain ⟨l, plan, prepared, rfl⟩ := execute_eq_ok ran
  have loaded := load_eq_ok prepared.loaded
  have settles := prepared.settles keeps finished
  constructor
  · rintro ⟨l, a, b, hl, rivals, -, -⟩
    exact ⟨l, a, b, hl, rivals⟩
  · rintro ⟨l', a, b, hl, rivals⟩
    obtain rfl := Except.ok.inj (hl.symm.trans prepared.loaded)
    have given {c : Application} (hc : c ∈ l'.newcomers r.type) : ∃ t,
        FlowPlan.Planned l'.input r.type t ∧ c.id ∈ t.lastStage.gives :=
      ⟨.entitle c, newcomer_iff.mp hc, by simp⟩
    have stay {c : Application} (hc : c ∈ l'.applications ∨ c ∈ l'.entitled)
        (name : c.name = a.name) (source : s.collaborators.Entitled w r.tenantId c.id ∨ ∃ t,
          FlowPlan.Planned l'.input r.type t ∧ c.id ∈ t.lastStage.gives) :
        s.collaborators.Entitled (s.runPlan w plan).world r.tenantId c.id := by
      refine settles.entitled c.id (fun t ht taken => ?_) source
      exact absurd taken (prepared.stays rivals.newcomer hc name ht)
    refine ⟨l', a, b, hl, rivals, ?_, ?_⟩
    · exact stay (.inl (requested_of_newcomer rivals.newcomer)) rfl (.inr (given rivals.newcomer))
    · refine stay rivals.other rivals.name ?_
      rcases rivals.other with hb | hb
      · exact .inr (given (newcomer_of_name rivals.newcomer hb rivals.name))
      · exact .inl ((loaded.entitled_iff b.id).mpr ⟨b, hb, rfl⟩)

/-- From an empty store, runs with one worker that leave no rivals lead only to stores with one
version of each application; the next run keeps it so exactly if it leaves no rivals, which a run that
finishes does exactly if the request has none. -/
theorem reached_oneVersion {registry : Registry} {c : Collaborators σ}
    (keeps : c.KeepsEntitlements) {first w : σ} (empty : c.store first = .empty)
    (reached : Reached registry c (fun s w r e => ¬ s.LeavesRivals w r e) first w) :
    registry.OneVersion (c.store w) ∧
      ∀ (s : Service σ) (ids : FlowIds) (r : EntitlementRequest) (e : Execution σ),
        s.registry = registry → s.collaborators = c → s.execute w ids r = .ok e →
        (registry.OneVersion (c.store e.world) ↔ ¬ s.LeavesRivals w r e) ∧
        (e.report.status = .finished → (s.LeavesRivals w r e ↔ s.HasRivals w r)) := by
  have one : registry.OneVersion (c.store w) := by
    induction reached with
    | first =>
      rw [empty]
      constructor <;> simp [Store.isEntitled, Store.empty]
    | run _ known called ran apart ih =>
      subst known called
      exact (oneVersion_iff keeps ih ran).mpr apart
  refine ⟨one, fun s ids r e known called ran => ?_⟩
  subst known called
  exact ⟨oneVersion_iff keeps one ran, leavesRivals_iff keeps ran⟩

/-! ## Two versions at once -/

/-- An installation that knows two versions of an application. -/
def twoVersions : Service Store :=
  { registry := .ofList [{ name := "a", version := "1.0.0" }, { name := "a", version := "2.0.0" }]
    capabilities := {}
    retry := .noRetry
    collaborators := Ledger.collaborators }

/-- A request of a tenant. -/
def requesting (type : EntitlementType) (applicationIds : List String) : EntitlementRequest :=
  { tenantId := "t", type, applicationIds }

/-- Identifiers with numbers. -/
def numbered : FlowIds := { root := "flow", application := fun i => s!"flow-{i}" }

/-- What is looked up for a request of a tenant that has applications. -/
def loading (entitled applications : List Application) : LoadedRequest :=
  { applications, entitled, plan := none }

/-- A run for one version leads to a store with one version. -/
theorem reached_oneVersion_first : ∃ w : Store,
    Reached twoVersions.registry Ledger.collaborators
      (fun s w r e => ¬ s.LeavesRivals w r e) .empty w ∧
    w.entitledIds "t" = ["a-1.0.0"] ∧ twoVersions.registry.OneVersion w := by
  have loaded : twoVersions.load .empty (requesting .entitle ["a-1.0.0"])
      = .ok (loading [] [{ name := "a", version := "1.0.0" }]) := rfl
  have valid := ValidationContext.validate_of_free
    ((loading [] [{ name := "a", version := "1.0.0" }]).context .entitle) (by decide) rfl (by decide)
    rfl rfl
  obtain ⟨e, ran, shows⟩ := execute_of_made numbered loaded valid
    (f := fun e => e.world.entitledIds "t") (b := ["a-1.0.0"]) (by decide +kernel)
  have apart : ¬ twoVersions.LeavesRivals .empty (requesting .entitle ["a-1.0.0"]) e := by
    rintro ⟨l, a, b, hl, rivals, -, -⟩
    obtain rfl := Except.ok.inj (hl.symm.trans loaded)
    have ha := requested_of_newcomer rivals.newcomer
    have hb := rivals.other
    simp only [loading, List.mem_singleton, List.not_mem_nil, or_false] at ha hb
    exact rivals.ne (hb.trans ha.symm)
  have reached : Reached twoVersions.registry Ledger.collaborators
      (fun s w r e => ¬ s.LeavesRivals w r e) .empty e.world :=
    .run .first rfl rfl ran apart
  exact ⟨e.world, reached, shows,
    (reached_oneVersion Ledger.keepsEntitlements rfl reached).1⟩

/-- A request for two versions of an application gives a tenant both. -/
theorem reached_twoVersions : ∃ w : Store,
    Reached twoVersions.registry Ledger.collaborators (fun _ _ _ _ => True) .empty w ∧
    w.entitledIds "t" = ["a-1.0.0", "a-2.0.0"] ∧ ¬ twoVersions.registry.OneVersion w := by
  have loaded : twoVersions.load .empty (requesting .entitle ["a-1.0.0", "a-2.0.0"])
      = .ok (loading [] [{ name := "a", version := "1.0.0" }, { name := "a", version := "2.0.0" }]) :=
    rfl
  have valid := ValidationContext.validate_of_free
    ((loading [] [{ name := "a", version := "1.0.0" },
      { name := "a", version := "2.0.0" }]).context .entitle) (by decide) rfl (by decide) rfl rfl
  obtain ⟨e, ran, shows⟩ := execute_of_made numbered loaded valid
    (f := fun e => e.world.entitledIds "t") (b := ["a-1.0.0", "a-2.0.0"]) (by decide +kernel)
  refine ⟨e.world, .run .first rfl rfl ran trivial, shows, fun one => ?_⟩
  have first : e.world.isEntitled "t" "a-1.0.0" := Store.mem_entitledIds.mp (by simp [shows])
  have second : e.world.isEntitled "t" "a-2.0.0" := Store.mem_entitledIds.mp (by simp [shows])
  have both := one.unique "t" { name := "a", version := "1.0.0" } { name := "a", version := "2.0.0" }
    rfl rfl first second rfl
  exact absurd both (by decide)

end Service

end Provisioning
