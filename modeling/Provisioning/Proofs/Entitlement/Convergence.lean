import Provisioning.Proofs.Entitlement.Consistency

/-!
# Requests for a state

A request for a state that finishes leaves the tenant with the applications that it names and with
no others, whatever mix of them comes, goes, moves to another version or stays. The rows of other
tenants stay as they are, and planning the same state again finds nothing to do.
-/

namespace Provisioning

variable {σ : Type}

/-! ## The rows of other tenants -/

namespace Store

variable {tenantId t : String} (other : t ≠ tenantId)

include other

theorem saveEntitlement_others (s : Store) (id a : String) :
    (s.saveEntitlement tenantId id).2.entitlements.get? ⟨t, a⟩ = s.entitlements.get? ⟨t, a⟩ := by
  unfold saveEntitlement
  split
  · rfl
  · rw [OrderedMap.get?_insert, if_neg (by simp [other])]

theorem removeEntitlement_others (s : Store) (id a : String) :
    (s.removeEntitlement tenantId id).2.entitlements.get? ⟨t, a⟩ = s.entitlements.get? ⟨t, a⟩ := by
  unfold removeEntitlement
  split
  · rw [OrderedMap.get?_erase, if_neg (by simp [other])]
  · rfl

theorem updateEntitlement_others {s s' : Store} {current next : String}
    (h : s.updateEntitlement tenantId current next = .ok s') (a : String) :
    s'.entitlements.get? ⟨t, a⟩ = s.entitlements.get? ⟨t, a⟩ := by
  unfold updateEntitlement at h
  split at h
  · simp at h
  · split at h
    · simp at h
    · obtain rfl := Except.ok.inj h
      rw [OrderedMap.get?_insert, if_neg (by simp [other]), OrderedMap.get?_erase,
        if_neg (by simp [other])]

end Store

/-- The row of an entitlement of a tenant, which is the time of its last change. -/
def Collaborators.entitlement? (c : Collaborators σ) (w : σ) (tenantId applicationId : String) :
    Option Timestamp :=
  (c.store w).entitlements.get? { tenantId, applicationId }

namespace Collaborators

theorem entitlement?_congr {c : Collaborators σ} {w w' : σ}
    (h : c.entitlements w' = c.entitlements w) (tenantId applicationId : String) :
    c.entitlement? w' tenantId applicationId = c.entitlement? w tenantId applicationId :=
  congrArg (·.get? { tenantId, applicationId }) h

variable {c : Collaborators σ} (keeps : c.KeepsEntitlements) {tenantId t : String}
  (other : t ≠ tenantId) (w : σ) (id a : String)

include keeps other

theorem save_others : c.entitlement? (c.save id tenantId w).2 t a = c.entitlement? w t a := by
  simpa [save, entitlement?, keeps.store_withStore] using
    Store.saveEntitlement_others other (c.store w) id a

theorem remove_others : c.entitlement? (c.remove id tenantId w).2 t a = c.entitlement? w t a := by
  simpa [remove, entitlement?, keeps.store_withStore] using
    Store.removeEntitlement_others other (c.store w) id a

theorem removeExisting_others :
    c.entitlement? (c.removeExisting id tenantId w).2 t a = c.entitlement? w t a := by
  have removed := Store.removeEntitlement_others other (c.store w) id a
  unfold removeExisting
  split <;> rename_i hr <;> simpa [hr, entitlement?, keeps.store_withStore] using removed

theorem replace_others (failure old : String) :
    c.entitlement? (c.replace failure old id tenantId w).2 t a = c.entitlement? w t a := by
  unfold replace
  split <;> rename_i hr
  · simpa [entitlement?, keeps.store_withStore] using Store.updateEntitlement_others other hr a
  · rfl

end Collaborators

namespace EntitlementStage

variable {c : Collaborators σ} (keeps : c.KeepsEntitlements) (retry : RetryConfig)
  {tenantId t : String} (other : t ≠ tenantId)

include keeps other

/-- A stage that works for a tenant leaves the rows of other tenants alone. -/
theorem execute_others (s : EntitlementStage) (w : σ) (a : String) :
    c.entitlement? (s.execute c retry tenantId w).2 t a = c.entitlement? w t a := by
  cases hs : s.changesEntitlement with
  | false => exact Collaborators.entitlement?_congr (execute_keeps keeps retry hs tenantId w) t a
  | true =>
    cases s with
    | saveEntitlement id => exact Collaborators.save_others keeps other w id a
    | removeEntitlement id => exact Collaborators.removeExisting_others keeps other w id a
    | updateEntitlement old id => exact Collaborators.replace_others keeps other w id a _ old
    | _ => simp [changesEntitlement] at hs

theorem cancel_others (s : EntitlementStage) (result : Option Data) (w : σ) (a : String) :
    c.entitlement? (s.cancel c retry result tenantId w).2 t a = c.entitlement? w t a := by
  cases hs : s.changesEntitlement with
  | false =>
    exact Collaborators.entitlement?_congr (cancel_keeps keeps retry hs result tenantId w) t a
  | true =>
    cases s with
    | saveEntitlement id => exact Collaborators.remove_others keeps other w id a
    | removeEntitlement id => exact Collaborators.save_others keeps other w id a
    | updateEntitlement old id => exact Collaborators.replace_others keeps other w old a _ id
    | _ => simp [changesEntitlement] at hs

end EntitlementStage

/-- A run of a request leaves the rows of other tenants alone, whatever becomes of it. -/
theorem Service.Prepared.other_rows {s : Service σ} {w : σ} {ids : FlowIds}
    {r : EntitlementRequest} {l : LoadedRequest} {plan : FlowPlan}
    (prepared : s.Prepared w ids r l plan) (keeps : s.collaborators.KeepsEntitlements)
    {t : String} (other : t ≠ r.tenantId) (a : String) :
    s.collaborators.entitlement? (s.runPlan w plan).world t a
      = s.collaborators.entitlement? w t a := by
  rw [Collaborators.entitlement?_congr (runPlan_entitlements keeps w plan)]
  refine prepared.preserves
    (P := fun v => s.collaborators.entitlement? v t a = s.collaborators.entitlement? w t a)
    ?_ ?_ rfl
  · intro _ _ stage _ v same
    exact (stage.execute_others keeps s.retry other v a).trans same
  · intro _ _ stage _ result v same
    exact (stage.cancel_others keeps s.retry other result v a).trans same

/-! ## Planning again -/

namespace Versions

theorem readable_of_ofIds {side : Side} {ids : List String} {versions : Versions}
    (h : ofIds side ids = .ok versions) : ∀ id ∈ ids, ∃ v, VersionedName.parse id = .ok v := by
  suffices general : ∀ (ids : List String) (first : Versions),
      ids.foldlM (add side) first = .ok versions →
      ∀ id ∈ ids, ∃ v, VersionedName.parse id = .ok v from general ids .empty h
  intro ids
  induction ids with
  | nil => simp
  | cons id rest ih =>
    intro first h
    rw [List.foldlM_cons, Except.bind_eq_ok] at h
    obtain ⟨next, added, h⟩ := h
    obtain ⟨v, hv, -⟩ := Except.bind_eq_ok.mp added
    rw [List.forall_mem_cons]
    exact ⟨⟨v, hv⟩, ih next h⟩

/-- Identifiers that can be read and name one version of each name have versions. -/
theorem ofIds_ok (side : Side) {ids : List String}
    (readable : ∀ id ∈ ids, ∃ v, VersionedName.parse id = .ok v)
    (single : ∀ id ∈ ids, ∀ id' ∈ ids, ∀ name version version',
      VersionedName.parse id = .ok ⟨name, version⟩ →
      VersionedName.parse id' = .ok ⟨name, version'⟩ → version = version') :
    ∃ versions, ofIds side ids = .ok versions := by
  -- What has been added agrees with every identifier that is still to come.
  suffices general : ∀ (rest : List String) (first : Versions), (∀ id ∈ rest, id ∈ ids) →
      (∀ id ∈ rest, ∀ name version version', VersionedName.parse id = .ok ⟨name, version⟩ →
        first.get? name = some version' → version' = version) →
      ∃ last, rest.foldlM (add side) first = .ok last from
    general ids .empty (fun _ h => h) (by simp)
  intro rest
  induction rest with
  | nil => exact fun first _ _ => ⟨first, rfl⟩
  | cons id rest ih =>
    intro first among agrees
    obtain ⟨⟨name, version⟩, hv⟩ := readable id (among id List.mem_cons_self)
    have added : ∃ next, add side first id = .ok next := by
      rw [add, hv]
      cases hg : first.get? name with
      | none =>
        exact ⟨first.insert name version, by simp [hg, bind, Except.bind, pure, Except.pure]⟩
      | some existing =>
        obtain rfl := agrees id List.mem_cons_self name version existing hv hg
        exact ⟨first, by simp [hg, bind, Except.bind, pure, Except.pure]⟩
    obtain ⟨next, hnext⟩ := added
    have later : ∀ id' ∈ rest, ∀ name version version',
        VersionedName.parse id' = .ok ⟨name, version⟩ → next.get? name = some version' →
        version' = version := by
      intro id' hid' n u u' hu hg
      rcases (get?_add hnext n u').mp hg with before | here
      · exact agrees id' (List.mem_cons_of_mem _ hid') n u u' hu before
      · exact single id (among id List.mem_cons_self) id' (among id' (List.mem_cons_of_mem _ hid'))
          n u' u here hu
    obtain ⟨last, hlast⟩ := ih next (fun x hx => among x (List.mem_cons_of_mem _ hx)) later
    exact ⟨last, by rw [List.foldlM_cons, hnext]; exact hlast⟩

theorem ofIds_of_subset {side : Side} {ids : List String} {versions : Versions}
    (h : ofIds side ids = .ok versions)
    (readable : ∀ id ∈ ids, ∃ v, VersionedName.parse id = .ok v) (side' : Side)
    {ids' : List String} (among : ∀ id ∈ ids', id ∈ ids) :
    ∃ versions', ofIds side' ids' = .ok versions' := by
  refine ofIds_ok side' (fun id hid => readable id (among id hid)) ?_
  intro id hid id' hid' name version version' hv hv'
  have first := (get?_ofIds h name version).mpr ⟨id, among id hid, hv⟩
  have second := (get?_ofIds h name version').mpr ⟨id', among id' hid', hv'⟩
  exact Option.some.inj (first.symm.trans second)

end Versions

namespace TransitionPlan

theorem isEmpty_of_same {p : TransitionPlan}
    (same : ∀ name, p.entitled.get? name = p.desired.get? name) : p.isEmpty := by
  have entitle : p.entitle = [] := by
    refine List.eq_nil_iff_forall_not_mem.mpr fun name h => ?_
    obtain ⟨⟨version, there⟩, absent⟩ := mem_entitle.mp h
    simp [same, there] at absent
  have upgrade : p.upgrade = [] := by
    refine List.eq_nil_iff_forall_not_mem.mpr fun name h => ?_
    obtain ⟨installed, next, hi, hn, ne⟩ := mem_upgrade.mp h
    rw [same, hn] at hi
    exact ne (Option.some.inj hi).symm
  have revoke : p.revoke = [] := by
    refine List.eq_nil_iff_forall_not_mem.mpr fun name h => ?_
    obtain ⟨⟨version, there⟩, absent⟩ := mem_revoke.mp h
    simp [← same, there] at absent
  simp [isEmpty, entitle, upgrade, revoke]

/-- A plan for the identifiers that are there has nothing to do. -/
theorem ofIds_same {side : Side} {ids entitled desired : List String} {versions : Versions}
    (h : Versions.ofIds side ids = .ok versions)
    (readable : ∀ id ∈ ids, ∃ v, VersionedName.parse id = .ok v)
    (he : ∀ id, id ∈ entitled ↔ id ∈ ids) (hd : ∀ id, id ∈ desired ↔ id ∈ ids) :
    ∃ p, ofIds entitled desired = .ok p ∧ p.isEmpty := by
  obtain ⟨there, hthere⟩ :=
    Versions.ofIds_of_subset h readable .entitled fun id hid => (he id).mp hid
  obtain ⟨wanted, hwanted⟩ :=
    Versions.ofIds_of_subset h readable .desired fun id hid => (hd id).mp hid
  refine ⟨⟨there, wanted⟩, ?_, isEmpty_of_same fun name => Option.ext fun version => ?_⟩
  · rw [ofIds, hthere, hwanted]
    rfl
  · rw [Versions.get?_ofIds hthere, Versions.get?_ofIds hwanted]
    simp only [he, hd]

end TransitionPlan

/-! ## Convergence -/

/-- Each of several identifiers is tested by reading it. -/
theorem VersionedName.forM_parse {ids : List String} :
    (ids.forM fun id => discard (VersionedName.parse id)) = Except.ok () ↔
      ∀ id ∈ ids, ∃ v, VersionedName.parse id = .ok v := by
  rw [Except.forM_eq_ok]
  refine forall₂_congr fun id _ => ?_
  constructor
  · intro read
    obtain ⟨v, hv, -⟩ := Except.map_eq_ok.mp read
    exact ⟨v, hv⟩
  · rintro ⟨v, hv⟩
    exact Except.map_eq_ok.mpr ⟨v, hv, rfl⟩

namespace EntitlementRequest

theorem mem_distinct {ids : List String} {x : String} : x ∈ distinct ids ↔ x ∈ ids := by
  induction ids with
  | nil => simp [distinct]
  | cons id rest ih =>
    simp only [distinct, List.mem_cons, List.mem_filter, ih, ne_eq, decide_eq_true_eq]
    by_cases hx : x = id <;> simp [hx]

theorem check_readable {r : EntitlementRequest} (h : r.check = .ok ()) :
    ∀ id ∈ r.applicationIds, ∃ v, VersionedName.parse id = .ok v := by
  unfold check at h
  split at h
  · simp at h
  · split at h
    · simp at h
    · exact VersionedName.forM_parse.mp h

end EntitlementRequest

/-- The identifiers of a registry say the names and versions of its applications. -/
def Registry.ReadsBack (r : Registry) : Prop :=
  ∀ all, r.applications = .ok all →
    ∀ a ∈ all, VersionedName.parse a.id = .ok ⟨a.name, a.version⟩

theorem Registry.ReadsBack.known {r : Registry} (reads : r.ReadsBack) {id : String}
    {a : Application} (h : r.known? id = some a) :
    VersionedName.parse a.id = .ok ⟨a.name, a.version⟩ := by
  unfold known? at h
  split at h
  · rename_i all readable
    exact reads all readable a (OrderedMap.mem_of_get?_keyed h).1
  · simp at h

namespace Service

variable {s : Service σ} {w : σ} {ids : FlowIds} {r : EntitlementRequest} {e : Execution σ}

theorem Loaded.readsBack {l : LoadedRequest} (loaded : s.Loaded w r l)
    (reads : s.registry.ReadsBack) : l.ReadsBack :=
  fun _ ha => reads.known (loaded.known ha)

/-- A request for a state that finishes, run with one worker, leaves the tenant with exactly the
requested applications and other tenants with what they had. Planning the same applications again
succeeds and finds nothing to do. -/
theorem finished_state_converges (keeps : s.collaborators.KeepsEntitlements)
    (reads : s.registry.ReadsBack) (state : r.type = .state) (ran : s.execute w ids r = .ok e)
    (finished : e.report.status = .finished) :
    (∀ x, x ∈ (s.collaborators.store e.world).entitledIds r.tenantId ↔ x ∈ r.applicationIds) ∧
      (∀ t, t ≠ r.tenantId → ∀ a,
        s.collaborators.entitlement? e.world t a = s.collaborators.entitlement? w t a) ∧
      ∃ p, s.plan e.world r.tenantId r.applicationIds = .ok p ∧ p.isEmpty := by
  obtain ⟨l, plan, prepared, rfl⟩ := execute_eq_ok ran
  have loaded := load_eq_ok prepared.loaded
  obtain ⟨after, leaves, becomes⟩ := prepared.leaves keeps finished
  have requested (a : Application) :=
    prepared.becomes_state (a := a) state (loaded.readsBack reads) (state ▸ becomes)
  have unique {x : String} : x ∈ r.uniqueIds ↔ x ∈ r.applicationIds :=
    EntitlementRequest.mem_distinct
  have exact_ids : ∀ x,
      x ∈ (s.collaborators.store (s.runPlan w plan).world).entitledIds r.tenantId ↔
        x ∈ r.applicationIds := by
    intro x
    rw [← Registry.find_ids leaves, ← unique, ← Registry.find_ids loaded.requested]
    simp only [List.mem_map, requested]
  refine ⟨exact_ids, fun t other a => prepared.other_rows keeps other a, ?_⟩
  have readable := EntitlementRequest.check_readable loaded.checked
  obtain ⟨p, -, planned⟩ := loaded.planned state
  rw [planState, TransitionPlan.ofIds, Except.bind_eq_ok] at planned
  obtain ⟨_, -, planned⟩ := planned
  obtain ⟨desired, hdesired, -⟩ := Except.bind_eq_ok.mp planned
  obtain ⟨again, hagain, empty⟩ := TransitionPlan.ofIds_same hdesired
    (fun id hid => readable id (unique.mp hid)) (fun id => (exact_ids id).trans unique.symm)
    (fun id => unique.symm)
  refine ⟨again, ?_, empty⟩
  rw [Service.plan, VersionedName.forM_parse.mpr readable]
  show Failure.ofRefusal (s.planState _ _ _) = _
  rw [planState, hagain]
  rfl

/-! ## A mixed request -/

/-- An application without dependencies. -/
def unconnected (name version : String) : Application := { name, version }

/-- An installation that knows two versions of one application and one of three others. -/
def withUnconnected : Service Store :=
  { registry := .ofList [unconnected "a" "1.0.0", unconnected "a" "2.0.0", unconnected "b" "1.0.0",
      unconnected "c" "1.0.0", unconnected "d" "1.0.0"]
    capabilities := {}
    retry := .noRetry
    collaborators := Ledger.collaborators }

/-- Two tenants that have applications. -/
def twoTenants : Store :=
  [("t", "a-1.0.0"), ("t", "b-1.0.0"), ("t", "c-1.0.0"), ("u", "a-1.0.0")].foldl
    (fun s (tenant, id) => (s.saveEntitlement tenant id).2) .empty

/-- What is looked up for a request for a state. -/
def loadingState (entitled applications : List Application) : LoadedRequest :=
  { applications, entitled
    plan := some
      { entitled := .ofList (entitled.map fun a => (a.name, a.version))
        desired := .ofList (applications.map fun a => (a.name, a.version)) } }

/-- One application is upgraded, one goes, one stays, and one is new. -/
theorem finished_state_converges_mixed :
    ∃ e, withUnconnected.execute twoTenants numbered
        (requesting .state ["a-2.0.0", "c-1.0.0", "d-1.0.0"]) = .ok e ∧
      e.report.status = .finished ∧
      (∀ x, x ∈ e.world.entitledIds "t" ↔ x ∈ ["a-2.0.0", "c-1.0.0", "d-1.0.0"]) ∧
      ∃ p, withUnconnected.plan e.world "t" ["a-2.0.0", "c-1.0.0", "d-1.0.0"] = .ok p ∧
        p.isEmpty := by
  have loads : withUnconnected.load twoTenants
      (requesting .state ["a-2.0.0", "c-1.0.0", "d-1.0.0"])
      = .ok (loadingState
          [unconnected "a" "1.0.0", unconnected "b" "1.0.0", unconnected "c" "1.0.0"]
          [unconnected "a" "2.0.0", unconnected "c" "1.0.0", unconnected "d" "1.0.0"]) := rfl
  have valid := ValidationContext.validate_of_free
    ((loadingState [unconnected "a" "1.0.0", unconnected "b" "1.0.0", unconnected "c" "1.0.0"]
      [unconnected "a" "2.0.0", unconnected "c" "1.0.0", unconnected "d" "1.0.0"]).context .state)
    (by decide) rfl (by decide) rfl rfl
  obtain ⟨e, ran, finished⟩ := execute_of_made numbered loads valid
    (f := fun e => e.report.status) (b := .finished) (by decide +kernel)
  have reads : withUnconnected.registry.ReadsBack := by
    intro all readable
    obtain rfl := Except.ok.inj readable
    decide +kernel
  obtain ⟨ids, -, again⟩ :=
    finished_state_converges Ledger.keepsEntitlements reads rfl ran finished
  exact ⟨e, ran, finished, ids, again⟩

end Service

end Provisioning
