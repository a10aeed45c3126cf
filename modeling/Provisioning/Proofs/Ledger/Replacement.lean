import Provisioning.Proofs.Ledger.Balance
import Provisioning.Proofs.Ledger.Touches

/-!
# Upgrades that replace the modules

An upgrade of an application turns the modules of the old version into those of the new one exactly
if each old module makes way (`FlowPlan.upgrade_replaces_iff`). All do if names are paired and no
module goes to the other kind (`ModuleDescriptor.Pairs.replaced`). New modules look for their
predecessors by name and kind, so a name of several modules or a change of the kind can prevent it.
-/

namespace Provisioning

/-- The other kind of modules. -/
def ModuleKind.other : ModuleKind → ModuleKind
  | backend => ui
  | ui => backend

namespace ModuleDescriptor

/-- The new modules, apart from itself, that take over from the old module with the identifier. -/
def successors (old new : List ModuleDescriptor) (x : String) : List ModuleDescriptor :=
  new.filter fun m => (partner old m).map (·.id) = some x ∧ m.id ≠ x

variable {old new news : List ModuleDescriptor} {m o : ModuleDescriptor} {x : String}

theorem mem_successors :
    m ∈ successors old new x ↔ m ∈ new ∧ (∃ o, partner old m = some o ∧ o.id = x) ∧ m.id ≠ x := by
  simp [successors, Option.map_eq_some_iff]

theorem name_of_successor (hm : m ∈ successors old new o.id) : m.name = o.name := by
  obtain ⟨-, ⟨o', hp, same⟩, -⟩ := mem_successors.mp hm
  exact (partner_eq_some hp).2.symm.trans (name_eq_of_id same)

/-- If names are paired, another module of the name of an old one is its only successor. -/
theorem Pairs.successors_perm (pairs : Pairs old new) (ids : (new.map (·.id)).Nodup) (ho : o ∈ old)
    (hm : m ∈ new) (name : m.name = o.name) (other : m.id ≠ o.id) :
    (successors old new o.id).Perm [m] := by
  have nodup : (successors old new o.id).Nodup := (List.Nodup.of_map _ ids).filter _
  refine (List.perm_ext_iff_of_nodup nodup (List.nodup_singleton m)).mpr fun m' => ?_
  rw [List.mem_singleton]
  constructor
  · intro taken
    have hm' := (mem_successors.mp taken).1
    have name' := name_of_successor taken
    exact List.inj_on_of_nodup_map ids hm' hm (pairs.coming o ho m' hm' m hm name' name)
  · rintro rfl
    obtain ⟨o', hp⟩ := partner_isSome ho name.symm
    obtain ⟨ho', name'⟩ := partner_eq_some hp
    exact mem_successors.mpr ⟨hm, ⟨o', hp, pairs.going m' hm o' ho' o ho name' name.symm⟩, other⟩

/-! ## What an upgrade does to one module -/

/-- What the step of a new module does to the module with the identifier. -/
def stepTouches (old : List ModuleDescriptor) (x : String) (m : ModuleDescriptor) : List Touch :=
  (FlowPlan.upgradeChange? { new := m, old := partner old m }).toList.flatMap (·.touches x)

theorem stepTouches_none (alone : partner old m = none) :
    stepTouches old x m = if m.id = x then [.enable] else [] := by
  simp [stepTouches, FlowPlan.upgradeChange?, alone, ModuleChange.enable, ModuleChange.touches]

theorem stepTouches_some (pair : partner old m = some o) : stepTouches old x m =
    if o.id = m.id then [] else
      (if o.id = x then [.take] else []) ++ if m.id = x then [.put] else [] := by
  by_cases same : o.id = m.id
  · simp [stepTouches, FlowPlan.upgradeChange?, pair, same]
  · simp [stepTouches, FlowPlan.upgradeChange?, pair, same, ModuleChange.upgrade,
      ModuleChange.touches]

theorem flatMap_eq_of_mem {f : ModuleDescriptor → List Touch} (nodup : news.Nodup) (hm : m ∈ news)
    (others : ∀ m' ∈ news, m' ≠ m → f m' = []) : news.flatMap f = f m := by
  induction news with
  | nil => cases hm
  | cons m' rest ih =>
    rw [List.nodup_cons] at nodup
    rw [List.forall_mem_cons] at others
    rw [List.flatMap_cons]
    by_cases here : m' = m
    · subst here
      have none : rest.flatMap f = [] := List.flatMap_eq_nil_iff.mpr fun b hb =>
        others.2 b hb fun same => nodup.1 (same ▸ hb)
      rw [none, List.append_nil]
    · rw [others.1 here, List.nil_append]
      exact ih nodup.2 ((List.mem_cons.mp hm).resolve_left (Ne.symm here)) others.2

theorem touches_steps (old news : List ModuleDescriptor) (x : String) :
    (news.filterMap fun m => FlowPlan.upgradeChange? { new := m, old := partner old m }).flatMap
      (·.touches x) = news.flatMap (stepTouches old x) := by
  induction news with
  | nil => rfl
  | cons m rest ih =>
    rw [List.filterMap_cons, List.flatMap_cons, ← ih, stepTouches]
    split <;> simp_all

/-- A step takes a module away exactly if its new module is a successor of that, unless it puts it
there. -/
theorem stepTouches_take (own : m.id = x → (partner old m).map (·.id) = some x) :
    stepTouches old x m
      = if (partner old m).map (·.id) = some x ∧ m.id ≠ x then [.take] else [] := by
  cases hp : partner old m with
  | none =>
    have foreign : m.id ≠ x := fun same => by simp [hp] at own; exact own same
    simp [stepTouches_none hp, foreign]
  | some o =>
    rw [stepTouches_some hp]
    by_cases same : o.id = m.id
    · rw [if_pos same, Option.map_some, same, if_neg]
      rintro ⟨here, foreign⟩
      exact foreign (Option.some.inj here)
    · have foreign : m.id ≠ x := by
        intro here
        have taken := own here
        rw [hp] at taken
        exact same ((Option.some.inj taken).trans here.symm)
      simp [same, foreign]

/-- A module that is no new one, or takes over from itself, is taken away for each successor. -/
theorem touches_takes (perm : news.Perm new)
    (own : ∀ m ∈ new, m.id = x → (partner old m).map (·.id) = some x) :
    news.flatMap (stepTouches old x) = List.replicate (successors old new x).length .take := by
  have count : (successors old new x).length = (successors old news x).length :=
    (perm.filter _).length_eq.symm
  replace own : ∀ m ∈ news, m.id = x → (partner old m).map (·.id) = some x :=
    fun m hm => own m (perm.mem_iff.mp hm)
  rw [count]
  clear perm count
  induction news with
  | nil => rfl
  | cons m rest ih =>
    rw [List.forall_mem_cons] at own
    rw [List.flatMap_cons, ih own.2, stepTouches_take own.1, successors, successors]
    by_cases taken : (partner old m).map (·.id) = some x ∧ m.id ≠ x
    · rw [if_pos taken, List.filter_cons, if_pos (decide_eq_true taken)]
      rfl
    · rw [if_neg taken, List.filter_cons, if_neg (fun h => taken (of_decide_eq_true h))]
      rfl

/-- A new module that takes over from no module or from another one is touched only once. -/
theorem touches_once (perm : news.Perm new) (ids : (new.map (·.id)).Nodup) (hm : m ∈ new)
    (other : (partner old m).map (·.id) ≠ some m.id) :
    news.flatMap (stepTouches old m.id) = stepTouches old m.id m ∧
      successors old new m.id = [] := by
  -- Whoever took over from the old module of this identifier would have the same partner.
  have untaken {m' o : ModuleDescriptor} (hp : partner old m' = some o) : o.id ≠ m.id := by
    intro same
    have name : m'.name = m.name := (partner_eq_some hp).2.symm.trans (name_eq_of_id same)
    rw [partner, name] at hp
    rw [partner, hp] at other
    exact other (congrArg some same)
  constructor
  · refine flatMap_eq_of_mem (perm.nodup_iff.mpr (List.Nodup.of_map _ ids))
      (perm.mem_iff.mpr hm) fun m' hm' ne => ?_
    have foreign : m'.id ≠ m.id := fun same =>
      ne (List.inj_on_of_nodup_map ids (perm.mem_iff.mp hm') hm same)
    cases hp : partner old m' with
    | none => rw [stepTouches_none hp, if_neg foreign]
    | some o => simp [stepTouches_some hp, untaken hp, foreign]
  · refine List.filter_eq_nil_iff.mpr fun m' hm' taken => ?_
    obtain ⟨⟨o, hp, same⟩, -⟩ : (∃ o, partner old m' = some o ∧ o.id = m.id) ∧ _ := by
      simpa [Option.map_eq_some_iff] using taken
    exact untaken hp same

theorem successors_foreign (foreign : x ∉ old.map (·.id)) : successors old new x = [] := by
  refine List.eq_nil_iff_forall_not_mem.mpr fun m hm => ?_
  obtain ⟨-, ⟨o, hp, rfl⟩, -⟩ := mem_successors.mp hm
  exact foreign (List.mem_map_of_mem (partner_eq_some hp).1)

/-- A new module that was no old one is enabled, or put in the place of an old one of its name. -/
theorem touches_comes (perm : news.Perm new) (ids : (new.map (·.id)).Nodup) (hm : m ∈ new)
    (foreign : m.id ∉ old.map (·.id)) : news.flatMap (stepTouches old m.id)
      = [if m.name ∈ old.map (·.name) then .put else .enable] := by
  have other : (partner old m).map (·.id) ≠ some m.id := by
    intro own
    obtain ⟨o, hp, same⟩ := Option.map_eq_some_iff.mp own
    exact foreign (same ▸ List.mem_map_of_mem (partner_eq_some hp).1)
  rw [(touches_once perm ids hm other).1]
  cases hp : partner old m with
  | none =>
    have alone : m.name ∉ old.map (·.name) := by
      intro named
      obtain ⟨o, ho, name⟩ := List.mem_map.mp named
      obtain ⟨o', found⟩ := partner_isSome ho name
      rw [hp] at found
      cases found
    rw [stepTouches_none hp, if_pos rfl, if_neg alone]
  | some o =>
    obtain ⟨ho, name⟩ := partner_eq_some hp
    have ne : o.id ≠ m.id := fun same => foreign (same ▸ List.mem_map_of_mem ho)
    rw [stepTouches_some hp, if_neg ne, if_neg ne, if_pos rfl,
      if_pos (List.mem_map.mpr ⟨o, ho, name⟩), List.nil_append]

/-- A module of both versions is taken away for each successor, unless it is put in the place of
another one. Then it has none. -/
theorem touches_stays (perm : news.Perm new) (ids : (new.map (·.id)).Nodup)
    (hm : m ∈ new) (there : m.id ∈ old.map (·.id)) : news.flatMap (stepTouches old m.id)
        = List.replicate (successors old new m.id).length .take ∨
      news.flatMap (stepTouches old m.id) = [.put] ∧ successors old new m.id = [] := by
  by_cases own : (partner old m).map (·.id) = some m.id
  · left
    refine touches_takes perm fun m' hm' same => ?_
    rwa [List.inj_on_of_nodup_map ids hm' hm same]
  · right
    obtain ⟨once, none⟩ := touches_once perm ids hm own
    refine ⟨?_, none⟩
    obtain ⟨o, ho, same⟩ := List.mem_map.mp there
    obtain ⟨o', hp⟩ := partner_isSome ho (name_eq_of_id same)
    have ne : o'.id ≠ m.id := fun same => own (by rw [hp, Option.map_some, same])
    rw [once, stepTouches_some hp, if_neg ne, if_neg ne, if_pos rfl, List.nil_append]

end ModuleDescriptor

theorem ModuleChange.touches_disable (ids : List String) (x : String) :
    (ids.map disable).flatMap (touches x) = List.replicate (ids.count x) .take := by
  induction ids with
  | nil => rfl
  | cons id rest ih =>
    rw [List.map_cons, List.flatMap_cons, ih, List.count_cons]
    by_cases here : id = x
    · subst here
      simp [disable, touches, List.replicate_succ]
    · simp [disable, touches, here]

/-! ## What an upgrade does to an application -/

open ModuleDescriptor

/-- An old module makes way for the modules of the new version. -/
@[mk_iff]
structure ModuleDescriptor.Replaced (old a : Application) (kind : ModuleKind)
    (o : ModuleDescriptor) : Prop where
  /-- If it goes, its name is dropped, or one new module takes over from it. -/
  gone : o.id ∉ a.allModules.map (·.id) → o ∈ droppedModules old a kind ∨
    (successors (old.modulesOf kind) (a.modulesOf kind) o.id).length = 1
  /-- If it stays, no other module takes over from it. -/
  stays : o.id ∈ (a.modulesOf kind).map (·.id) →
    successors (old.modulesOf kind) (a.modulesOf kind) o.id = []
  /-- If it goes to the other kind, its name is not dropped. One new module takes over from it
  before it comes there, or none does and there was a module of its name. -/
  moves : o.id ∈ (a.modulesOf kind.other).map (·.id) → o ∉ droppedModules old a kind ∧
    ((kind = .backend ∧ (successors (old.modulesOf kind) (a.modulesOf kind) o.id).length = 1) ∨
      (successors (old.modulesOf kind) (a.modulesOf kind) o.id = [] ∧
        o.name ∈ (old.modulesOf kind.other).map (·.name)))

instance (old a : Application) (kind : ModuleKind) :
    DecidablePred (ModuleDescriptor.Replaced old a kind) :=
  fun o => decidable_of_iff _ (ModuleDescriptor.replaced_iff old a kind o).symm

section

variable {old a : Application} {kind : ModuleKind} {o m : ModuleDescriptor} {x : String}
  {news left : ModuleKind → List ModuleDescriptor}

theorem mem_droppedModules : o ∈ droppedModules old a kind ↔
    o ∈ old.modulesOf kind ∧ o.name ∉ (a.modulesOf kind).map (·.name) := by
  simp [droppedModules]

theorem successors_of_dropped (dropped : o ∈ droppedModules old a kind) :
    successors (old.modulesOf kind) (a.modulesOf kind) o.id = [] :=
  List.eq_nil_iff_forall_not_mem.mpr fun m hm => (mem_droppedModules.mp dropped).2
    (List.mem_map.mpr ⟨m, (mem_successors.mp hm).1, name_of_successor hm⟩)

theorem Application.mem_allModules : x ∈ a.allModules.map (·.id) ↔
    x ∈ (a.modulesOf kind).map (·.id) ∨ x ∈ (a.modulesOf kind.other).map (·.id) := by
  rw [allModules, List.map_append, List.mem_append]
  cases kind
  · rfl
  · exact or_comm

theorem Application.not_mem_other (ids : (a.allModules.map (·.id)).Nodup)
    (there : x ∈ (a.modulesOf kind).map (·.id)) : x ∉ (a.modulesOf kind.other).map (·.id) := by
  rw [allModules, List.map_append] at ids
  have apart := List.disjoint_of_nodup_append ids
  cases kind
  · exact fun h => apart there h
  · exact fun h => apart h there

theorem Application.modulesOf_nodup (ids : (a.allModules.map (·.id)).Nodup) (kind : ModuleKind) :
    ((a.modulesOf kind).map (·.id)).Nodup := by
  rw [allModules, List.map_append] at ids
  cases kind
  · exact ids.of_append_left
  · exact ids.of_append_right

/-- What an upgrade does to a module, if it takes the new modules and the dropped ones in some
order. -/
def upgradeTouches (old : Application) (news left : ModuleKind → List ModuleDescriptor)
    (x : String) : List Touch :=
  (news .backend).flatMap (stepTouches (old.modulesOf .backend) x)
    ++ (news .ui).flatMap (stepTouches (old.modulesOf .ui) x)
    ++ List.replicate (((left .backend ++ left .ui).map (·.id)).count x) .take

theorem upgradeTouches_eq
    (none : (news kind.other).flatMap (stepTouches (old.modulesOf kind.other) x) = []) :
    upgradeTouches old news left x = (news kind).flatMap (stepTouches (old.modulesOf kind) x)
      ++ List.replicate (((left .backend ++ left .ui).map (·.id)).count x) .take := by
  rw [upgradeTouches]
  cases kind
  · rw [ModuleKind.other] at none
    rw [none, List.append_nil]
  · rw [ModuleKind.other] at none
    rw [none, List.nil_append]

section

variable (oldIds : (old.allModules.map (·.id)).Nodup) (newIds : (a.allModules.map (·.id)).Nodup)
  (comes : ∀ kind, (news kind).Perm (a.modulesOf kind))
  (goes : ∀ kind, (left kind).Perm (droppedModules old a kind))

include goes in
theorem mem_left {x : String} : x ∈ (left .backend ++ left .ui).map (·.id) ↔
    ∃ kind, ∃ o ∈ droppedModules old a kind, o.id = x := by
  have kinds : x ∈ (left .backend ++ left .ui).map (·.id) ↔ ∃ kind, ∃ o ∈ left kind, o.id = x := by
    rw [List.map_append, List.mem_append, List.mem_map, List.mem_map]
    constructor
    · rintro (here | here)
      · exact ⟨.backend, here⟩
      · exact ⟨.ui, here⟩
    · rintro ⟨_ | _, here⟩
      · exact .inl here
      · exact .inr here
  simp only [kinds, (goes _).mem_iff]

include goes oldIds in
/-- What is dropped is disabled once. -/
theorem count_left (ho : o ∈ old.modulesOf kind) :
    ((left .backend ++ left .ui).map (·.id)).count o.id
      = if o ∈ droppedModules old a kind then 1 else 0 := by
  have nodup : ((left .backend ++ left .ui).map (·.id)).Nodup := by
    have part (kind : ModuleKind) : (droppedModules old a kind).Sublist (old.modulesOf kind) :=
      List.filter_sublist
    refine (((goes .backend).append (goes .ui)).map _).nodup_iff.mpr ?_
    exact oldIds.sublist (((part .backend).append (part .ui)).map _)
  rw [nodup.count]
  refine if_congr ?_ rfl rfl
  rw [mem_left goes]
  constructor
  · rintro ⟨kind', o', dropped, same⟩
    have ho' := (mem_droppedModules.mp dropped).1
    have here : kind' = kind := by
      by_contra ne
      have other : kind' = kind.other := by cases kind <;> cases kind' <;> first | rfl | simp at ne
      subst other
      exact Application.not_mem_other oldIds (List.mem_map_of_mem ho)
        (same ▸ List.mem_map_of_mem ho')
    subst here
    obtain rfl := List.inj_on_of_nodup_map (Application.modulesOf_nodup oldIds kind') ho' ho same
    exact dropped
  · intro dropped
    exact ⟨kind, o, dropped, rfl⟩

include comes in
theorem touches_goes (unwanted : x ∉ (a.modulesOf kind).map (·.id)) :
    (news kind).flatMap (stepTouches (old.modulesOf kind) x) = List.replicate
      (successors (old.modulesOf kind) (a.modulesOf kind) x).length .take :=
  touches_takes (comes kind) fun m hm same =>
    absurd (List.mem_map.mpr ⟨m, hm, same⟩) unwanted

include comes in
theorem touches_foreign (unknown : x ∉ (old.modulesOf kind).map (·.id))
    (unwanted : x ∉ (a.modulesOf kind).map (·.id)) :
    (news kind).flatMap (stepTouches (old.modulesOf kind) x) = [] := by
  rw [touches_goes comes unwanted, successors_foreign unknown]
  rfl

include newIds comes goes in
/-- A module that was not there is there in the end exactly if the new version has it. -/
theorem lead_new (unknown : x ∉ old.allModules.map (·.id)) :
    Touch.Lead (upgradeTouches old news left x) False (x ∈ a.allModules.map (·.id)) := by
  have nowhere (kind : ModuleKind) : x ∉ (old.modulesOf kind).map (·.id) := fun here =>
    unknown (Application.mem_allModules.mpr (.inl here))
  have undropped : ((left .backend ++ left .ui).map (·.id)).count x = 0 := by
    refine List.count_eq_zero.mpr fun dropped => ?_
    obtain ⟨kind, o, ho, rfl⟩ := (mem_left goes).mp dropped
    exact nowhere kind (List.mem_map_of_mem (mem_droppedModules.mp ho).1)
  by_cases wanted : ∃ kind, x ∈ (a.modulesOf kind).map (·.id)
  · obtain ⟨kind, there⟩ := wanted
    have other := Application.not_mem_other newIds there
    rw [upgradeTouches_eq (touches_foreign comes (nowhere kind.other) other), undropped]
    obtain ⟨m, hm, rfl⟩ := List.mem_map.mp there
    rw [touches_comes (comes kind) (Application.modulesOf_nodup newIds kind) hm (nowhere kind)]
    have known : m.id ∈ a.allModules.map (·.id) := Application.mem_allModules.mpr (.inl there)
    split <;> simpa [Touch.Lead] using known
  · have unwanted (kind : ModuleKind) : x ∉ (a.modulesOf kind).map (·.id) := fun here =>
      wanted ⟨kind, here⟩
    rw [upgradeTouches_eq (touches_foreign comes (nowhere _) (unwanted _)),
      touches_foreign comes (nowhere .backend) (unwanted .backend), undropped]
    have absent : x ∉ a.allModules.map (·.id) := fun here =>
      (Application.mem_allModules.mp here).elim (unwanted .backend) (unwanted .ui)
    simpa [Touch.Lead] using absent

include oldIds newIds comes goes in
/-- A module of both versions, of one kind, stays exactly if no other one takes over from it. -/
theorem lead_stays (ho : o ∈ old.modulesOf kind) (hm : m ∈ a.modulesOf kind) (same : m.id = o.id) :
    Touch.Lead (upgradeTouches old news left o.id) True True ↔
      successors (old.modulesOf kind) (a.modulesOf kind) o.id = [] := by
  have known : o.id ∈ (old.modulesOf kind).map (·.id) := List.mem_map_of_mem ho
  have wanted : o.id ∈ (a.modulesOf kind).map (·.id) := List.mem_map.mpr ⟨m, hm, same⟩
  have foreign := touches_foreign comes (Application.not_mem_other oldIds known)
    (Application.not_mem_other newIds wanted)
  have kept : o ∉ droppedModules old a kind := fun dropped =>
    (mem_droppedModules.mp dropped).2 (List.mem_map.mpr ⟨m, hm, name_eq_of_id same⟩)
  have stays := touches_stays (comes kind) (Application.modulesOf_nodup newIds kind) hm
    (same ▸ known)
  rw [upgradeTouches_eq foreign, count_left oldIds goes ho, if_neg kept]
  rw [same] at stays
  rcases stays with takes | ⟨put, none⟩
  · rw [takes, Touch.lead_takes]
    simp [Touch.Lead]
  · rw [put, none]
    simp [Touch.Lead]

include oldIds comes goes in
/-- A module that the new version does not have goes exactly if it is dropped or one new module
takes over from it. -/
theorem lead_gone (ho : o ∈ old.modulesOf kind) (gone : o.id ∉ a.allModules.map (·.id)) :
    Touch.Lead (upgradeTouches old news left o.id) True False ↔ o ∈ droppedModules old a kind ∨
      (successors (old.modulesOf kind) (a.modulesOf kind) o.id).length = 1 := by
  have nowhere (kind : ModuleKind) : o.id ∉ (a.modulesOf kind).map (·.id) := fun here =>
    gone (Application.mem_allModules.mpr (.inl here))
  have foreign := touches_foreign comes
    (Application.not_mem_other oldIds (List.mem_map_of_mem ho)) (nowhere kind.other)
  rw [upgradeTouches_eq foreign, touches_goes comes (nowhere kind), count_left oldIds goes ho,
    Touch.lead_takes]
  by_cases dropped : o ∈ droppedModules old a kind
  · have none := successors_of_dropped dropped
    simp [dropped, none, Touch.Lead]
  · simp [dropped, Touch.Lead]

include oldIds newIds comes goes in
/-- A module that goes to the other kind is there in the end exactly if its name is not dropped and
it is taken away before it comes, or put there without having been taken away. -/
theorem lead_moves (ho : o ∈ old.modulesOf kind) (hm : m ∈ a.modulesOf kind.other)
    (same : m.id = o.id) : Touch.Lead (upgradeTouches old news left o.id) True True ↔
      o ∉ droppedModules old a kind ∧
        ((kind = .backend ∧
            (successors (old.modulesOf kind) (a.modulesOf kind) o.id).length = 1) ∨
          (successors (old.modulesOf kind) (a.modulesOf kind) o.id = [] ∧
            o.name ∈ (old.modulesOf kind.other).map (·.name))) := by
  have known : o.id ∈ (old.modulesOf kind).map (·.id) := List.mem_map_of_mem ho
  have wanted : o.id ∈ (a.modulesOf kind.other).map (·.id) := List.mem_map.mpr ⟨m, hm, same⟩
  have unwanted : o.id ∉ (a.modulesOf kind).map (·.id) := fun here =>
    Application.not_mem_other newIds here wanted
  have foreign := Application.not_mem_other oldIds known
  have arrives := touches_comes (comes kind.other) (Application.modulesOf_nodup newIds kind.other)
    hm (same ▸ foreign)
  rw [same, show m.name = o.name from name_eq_of_id same] at arrives
  have undropped := count_left oldIds goes ho
  cases kind with
  | backend =>
    rw [ModuleKind.other] at arrives ⊢
    rw [upgradeTouches, touches_goes comes unwanted, arrives, undropped, List.append_assoc,
      Touch.lead_takes]
    by_cases dropped : o ∈ droppedModules old a .backend
    · have none := successors_of_dropped dropped
      by_cases named : o.name ∈ (old.modulesOf .ui).map (·.name) <;>
        simp [dropped, named, none, Touch.Lead]
    · by_cases named : o.name ∈ (old.modulesOf .ui).map (·.name) <;>
        simp [dropped, named, Touch.Lead, or_comm]
  | ui =>
    rw [ModuleKind.other] at arrives ⊢
    rw [upgradeTouches, touches_goes comes unwanted, arrives, undropped]
    by_cases dropped : o ∈ droppedModules old a .ui
    · have none := successors_of_dropped dropped
      by_cases named : o.name ∈ (old.modulesOf .backend).map (·.name) <;>
        simp [dropped, named, none, Touch.Lead]
    · by_cases named : o.name ∈ (old.modulesOf .backend).map (·.name)
      · rw [if_pos named, if_neg dropped, List.append_assoc, List.singleton_append, Touch.Lead,
          Touch.lead_takes]
        simp [dropped, named, Touch.Lead]
      · simp [dropped, named, Touch.Lead]

include oldIds newIds comes goes in
/-- A module that was there is there in the end as the new version says exactly if it makes way. -/
theorem lead_old (ho : o ∈ old.modulesOf kind) :
    Touch.Lead (upgradeTouches old news left o.id) True (o.id ∈ a.allModules.map (·.id)) ↔
      Replaced old a kind o := by
  by_cases gone : o.id ∈ a.allModules.map (·.id)
  · rw [eq_true gone]
    rcases Application.mem_allModules.mp gone with here | other
    · have apart : o.id ∉ (a.modulesOf kind.other).map (·.id) :=
        Application.not_mem_other newIds here
      obtain ⟨m, hm, same⟩ := List.mem_map.mp here
      rw [lead_stays oldIds newIds comes goes ho hm same]
      constructor
      · intro none
        exact ⟨fun h => absurd gone h, fun _ => none, fun h => absurd h apart⟩
      · intro replaced
        exact replaced.stays here
    · have apart : o.id ∉ (a.modulesOf kind).map (·.id) := fun h =>
        Application.not_mem_other newIds h other
      obtain ⟨m, hm, same⟩ := List.mem_map.mp other
      rw [lead_moves oldIds newIds comes goes ho hm same]
      constructor
      · intro moves
        exact ⟨fun h => absurd gone h, fun h => absurd h apart, fun _ => moves⟩
      · intro replaced
        exact replaced.moves other
  · rw [eq_false gone, lead_gone oldIds comes goes ho gone]
    constructor
    · intro goes
      refine ⟨fun _ => goes, fun h => absurd ?_ gone, fun h => absurd ?_ gone⟩
      · exact Application.mem_allModules.mpr (.inl h)
      · exact Application.mem_allModules.mpr (.inr h)
    · intro replaced
      exact replaced.gone gone

end

/-! ## What makes way -/

/-- If names are paired, a module makes way unless it goes to the other kind. -/
theorem ModuleDescriptor.Pairs.replaced (pairs : Pairs (old.modulesOf kind) (a.modulesOf kind))
    (newIds : (a.allModules.map (·.id)).Nodup) (ho : o ∈ old.modulesOf kind)
    (steady : o.id ∉ (a.modulesOf kind.other).map (·.id)) : Replaced old a kind o where
  gone := by
    intro gone
    by_cases named : o.name ∈ (a.modulesOf kind).map (·.name)
    · obtain ⟨m, hm, name⟩ := List.mem_map.mp named
      have foreign : m.id ≠ o.id := fun same =>
        gone (Application.mem_allModules.mpr (.inl (List.mem_map.mpr ⟨m, hm, same⟩)))
      have ids := Application.modulesOf_nodup newIds kind
      exact .inr (pairs.successors_perm ids ho hm name foreign).length_eq
    · exact .inl (mem_droppedModules.mpr ⟨ho, named⟩)
  stays := by
    intro here
    obtain ⟨m, hm, same⟩ := List.mem_map.mp here
    refine List.eq_nil_iff_forall_not_mem.mpr fun m' taken => ?_
    obtain ⟨hm', -, other⟩ := mem_successors.mp taken
    have name := name_of_successor taken
    exact other ((pairs.coming o ho m' hm' m hm name (name_eq_of_id same)).trans same)
  moves := fun other => absurd other steady

end

/-! ## Upgrades -/

section

variable {a old : Application} {kind : ModuleKind} {seq : ModuleSequence} {c : Capabilities}
  {work : ApplicationWork} {tenantId : String} {s : Store}

theorem moduleSequence_changes (oldIds : (old.allModules.map (·.id)).Nodup)
    (newIds : (a.allModules.map (·.id)).Nodup)
    (h : moduleSequence a (some old) .upgrade kind = .ok seq) :
    ∃ news : List ModuleDescriptor, news.Perm (a.modulesOf kind) ∧
      seq.deprecated.flatten.Perm (droppedModules old a kind) ∧
      (FlowPlan.changesOf FlowPlan.upgradeChange? seq).flatten = news.filterMap fun m =>
        FlowPlan.upgradeChange? { new := m, old := partner (old.modulesOf kind) m } := by
  obtain ⟨layers, hl, h⟩ := Except.bind_eq_ok.mp h
  obtain ⟨dropped, hd, h⟩ := Except.bind_eq_ok.mp h
  obtain rfl := Except.ok.inj h
  have droppedIds : ((droppedModules old a kind).map (·.id)).Nodup :=
    (Application.modulesOf_nodup oldIds kind).sublist (List.filter_sublist.map _)
  refine ⟨layers.flatten, layerModules_perm (Application.modulesOf_nodup newIds kind) hl, ?_, ?_⟩
  · exact (List.reverse_perm dropped).flatten.trans (layerModules_perm droppedIds hd)
  · rw [flatten_changesOf, ModuleSequence.steps, ← List.map_flatten, List.filterMap_map]
    rfl

namespace FlowPlan

/-- An upgrade takes the new modules and the dropped ones in some order. -/
theorem touches_upgradeWork (built : upgradeWork c a old = .ok work)
    (oldIds : (old.allModules.map (·.id)).Nodup) (newIds : (a.allModules.map (·.id)).Nodup) :
    ∃ news left : ModuleKind → List ModuleDescriptor,
      (∀ kind, (news kind).Perm (a.modulesOf kind)) ∧
      (∀ kind, (left kind).Perm (droppedModules old a kind)) ∧
      ∀ x, (changesIn work.nodes).flatMap (·.touches x) = upgradeTouches old news left x := by
  obtain ⟨backend, ui, hb, hu, changes⟩ := changesIn_upgradeWork built
  obtain ⟨newBackend, comesBackend, goesBackend, stepsBackend⟩ :=
    moduleSequence_changes oldIds newIds hb
  obtain ⟨newUi, comesUi, goesUi, stepsUi⟩ := moduleSequence_changes oldIds newIds hu
  refine ⟨fun | .backend => newBackend | .ui => newUi,
    fun | .backend => backend.deprecated.flatten | .ui => ui.deprecated.flatten, ?_, ?_, ?_⟩
  · rintro (_ | _)
    · exact comesBackend
    · exact comesUi
  · rintro (_ | _)
    · exact goesBackend
    · exact goesUi
  · intro x
    rw [changes, stepsBackend, stepsUi, List.flatMap_append, List.flatMap_append, touches_steps,
      touches_steps, ModuleChange.touches_disable, upgradeTouches]

/-- An upgrade that is possible turns the modules of the old version, if the tenant has these and no
others, into those of the new one exactly if each of them makes way. -/
theorem upgrade_replaces_iff (built : upgradeWork c a old = .ok work)
    (oldIds : (old.allModules.map (·.id)).Nodup) (newIds : (a.allModules.map (·.id)).Nodup)
    (there : Ledger.modules tenantId s = {x | x ∈ old.allModules.map (·.id)}) :
    ((Ledger.collaborators.applyChanges tenantId (changesIn work.nodes) s).1 = .ok () ∧
      Ledger.modules tenantId
          (Ledger.collaborators.applyChanges tenantId (changesIn work.nodes) s).2
        = {x | x ∈ a.allModules.map (·.id)}) ↔
      ∀ kind, ∀ o ∈ old.modulesOf kind, Replaced old a kind o := by
  obtain ⟨news, left, comes, goes, touches⟩ := touches_upgradeWork built oldIds newIds
  rw [Ledger.applyChanges_iff, ModuleChange.makeAll_iff, there]
  simp only [touches, Set.mem_ofPred_eq]
  constructor
  · intro leads kind o ho
    have known : o.id ∈ old.allModules.map (·.id) :=
      Application.mem_allModules.mpr (.inl (List.mem_map_of_mem ho))
    have lead := leads o.id
    rw [eq_true known] at lead
    exact (lead_old oldIds newIds comes goes ho).mp lead
  · intro replaced x
    by_cases known : x ∈ old.allModules.map (·.id)
    · rw [eq_true known]
      obtain ⟨kind, here⟩ : ∃ kind, x ∈ (old.modulesOf kind).map (·.id) := by
        rcases Application.mem_allModules.mp known with here | here
        · exact ⟨.backend, here⟩
        · exact ⟨.ui, here⟩
      obtain ⟨o, ho, rfl⟩ := List.mem_map.mp here
      exact (lead_old oldIds newIds comes goes ho).mpr (replaced kind o ho)
    · rw [eq_false known]
      exact lead_new newIds comes goes known

end FlowPlan

end

/-- A store in which a tenant has the modules of an application. -/
def Application.equipped (a : Application) : Store :=
  { resources := .ofList (a.allModules.map fun m => Ledger.moduleResource "t" m.id) }

theorem Application.modules_equipped (a : Application) :
    Ledger.modules "t" a.equipped = {x | x ∈ a.allModules.map (·.id)} := by
  ext x
  show a.equipped.resources.contains _ ↔ _
  rw [OrderedSet.contains_iff_mem, equipped, OrderedSet.mem_ofList]
  simp [Ledger.moduleResource_inj]

namespace FlowPlan

/-- A version with a module that becomes one of the user interface. -/
def serving : Application where
  name := "a"
  version := "1.0.0"
  modules := [{ id := "m-1.0.0" }, { id := "n-1.0.0" }, { id := "d-1.0.0" }, { id := "k-1.0.0" }]
  uiModules := [{ id := "u-1.0.0" }]

/-- The next version, in which another module takes over from that. -/
def showing : Application where
  name := "a"
  version := "2.0.0"
  modules := [{ id := "k-2.0.0" }, { id := "m-2.0.0" }, { id := "n-1.0.0" }, { id := "x-1.0.0" }]
  uiModules := [{ id := "k-1.0.0" }, { id := "u-1.0.0" }]

theorem upgrade_replaces_iff_showing :
    (serving.allModules.map (·.id)).Nodup ∧ (showing.allModules.map (·.id)).Nodup ∧
      ∃ work, upgradeWork {} showing serving = .ok work ∧ changesIn work.nodes
          = [.upgrade "k-1.0.0" "k-2.0.0", .upgrade "m-1.0.0" "m-2.0.0", .enable "x-1.0.0",
            .enable "k-1.0.0", .disable "d-1.0.0"] ∧
        (Ledger.collaborators.applyChanges "t" (changesIn work.nodes) serving.equipped).1 = .ok () ∧
        Ledger.modules "t"
            (Ledger.collaborators.applyChanges "t" (changesIn work.nodes) serving.equipped).2
          = {x | x ∈ showing.allModules.map (·.id)} := by
  have oldIds : (serving.allModules.map (·.id)).Nodup := by decide
  have newIds : (showing.allModules.map (·.id)).Nodup := by decide
  have made : (upgradeWork {} showing serving).toOption.map (fun work => changesIn work.nodes)
      = some [.upgrade "k-1.0.0" "k-2.0.0", .upgrade "m-1.0.0" "m-2.0.0", .enable "x-1.0.0",
          .enable "k-1.0.0", .disable "d-1.0.0"] := by
    decide +kernel
  obtain ⟨work, hw, changes⟩ := Option.map_eq_some_iff.mp made
  have built := Except.toOption_eq_some.mp hw
  have replaces := upgrade_replaces_iff built oldIds newIds (Application.modules_equipped serving)
  refine ⟨oldIds, newIds, work, built, changes, replaces.mpr ?_⟩
  rintro (_ | _) <;> decide +kernel

/-- A version with one module. -/
def lone : Application where
  name := "a"
  version := "1.0.0"
  modules := [{ id := "k-1.0.0" }]

/-- The next version, which has it together with another one of its name. -/
def twofold : Application where
  name := "a"
  version := "2.0.0"
  modules := [{ id := "k-1.0.0" }, { id := "k-2.0.0" }]

/-- The upgrade to the next version takes away the module that both versions have. -/
theorem upgrade_takes_identical :
    (lone.allModules.map (·.id)).Nodup ∧ (twofold.allModules.map (·.id)).Nodup ∧
      Ledger.modules "t" lone.equipped = {x | x ∈ lone.allModules.map (·.id)} ∧
      ∃ work, upgradeWork {} twofold lone = .ok work ∧
        ¬ ((Ledger.collaborators.applyChanges "t" (changesIn work.nodes) lone.equipped).1
            = .ok () ∧
          Ledger.modules "t"
              (Ledger.collaborators.applyChanges "t" (changesIn work.nodes) lone.equipped).2
            = {x | x ∈ twofold.allModules.map (·.id)}) := by
  have shows : (upgradeWork {} twofold lone).toOption.map (fun work =>
      let s := (Ledger.collaborators.applyChanges "t" (changesIn work.nodes) lone.equipped).2
      s.resources.contains (Ledger.moduleResource "t" "k-1.0.0")) = some false := by
    decide +kernel
  obtain ⟨work, hw, gone⟩ := Option.map_eq_some_iff.mp shows
  refine ⟨by decide, by decide, Application.modules_equipped lone, work,
    Except.toOption_eq_some.mp hw, ?_⟩
  rintro ⟨-, modules⟩
  have there : "k-1.0.0" ∈ Ledger.modules "t"
      (Ledger.collaborators.applyChanges "t" (changesIn work.nodes) lone.equipped).2 := by
    rw [modules]
    decide
  exact absurd (gone.symm.trans there) Bool.false_ne_true

end FlowPlan

end Provisioning
