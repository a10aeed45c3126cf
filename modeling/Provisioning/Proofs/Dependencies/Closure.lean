import Mathlib.Data.List.Chain
import Mathlib.Data.List.Nodup
import Mathlib.Data.String.Basic
import Mathlib.Logic.Relation
import Provisioning.Proofs.Dependencies.Preference
import Provisioning.Proofs.Ordered.Lookup

/-!
# What an application needs, directly or indirectly

The search for the dependencies of an application remembers the applications it is done with by
identifier, and refuses when it comes back to a name on its path. If applications are told apart by
their identifiers, a search that goes through has found what one can reach along the edges of the
graph, no more and no less. A search that comes back has walked the way that it reports. Where
there is one version of every name, it comes back exactly if there is a circle in reach.
-/

namespace Provisioning

open Relation

/-- From the application one comes to one that leads back to itself. -/
def LeadsToCircle (applications : List Application) (a : Application) : Prop :=
  ∃ b, ReflTransGen (Leads applications) a b ∧ TransGen (Leads applications) b b

/-- The applications that an application leads to, in one step or more. -/
structure Closure (applications : List Application) (target : Application)
    (found : List Application) : Prop where
  /-- They ascend by identifier. -/
  sorted : (found.map (·.id)).Pairwise (· < ·)
  /-- None has the name of the application. -/
  others : ∀ b ∈ found, b.name ≠ target.name
  /-- One comes to them and to nothing else. -/
  exact : ∀ b, b ∈ found ↔ TransGen (Leads applications) target b

/-- Read from the end, the names are those along a way that one comes to from an application and
that ends with the name it starts with. -/
def WayBack (applications : List Application) (target : Application) (names : List String) : Prop :=
  ∃ last middle first, names = (last :: middle ++ [first]).map (·.name) ∧
    (last :: middle ++ [first]).IsChain (fun b a => Leads applications a b) ∧
    ReflTransGen (Leads applications) target first ∧ first.name = last.name

/-- No two applications that an application leads to share an identifier. -/
def Discerned (applications : List Application) (target : Application) : Prop :=
  ∀ b c, TransGen (Leads applications) target b → TransGen (Leads applications) target c →
    b.id = c.id → b = c

/-- No name comes twice on a way from an application. -/
def Apart (applications : List Application) (target : Application) : Prop :=
  ∀ a b, ReflTransGen (Leads applications) target a → TransGen (Leads applications) a b →
    a.name ≠ b.name

variable {applications : List Application} {target a b : Application}

theorem mem_of_reached (h : TransGen (Leads applications) a b) : b ∈ applications := by
  obtain ⟨_, -, last⟩ := TransGen.tail'_iff.mp h
  exact last.mem

theorem discerned_of_nodup (ids : (applications.map (·.id)).Nodup) :
    Discerned applications target :=
  fun _ _ hb hc same => List.inj_on_of_nodup_map ids (mem_of_reached hb) (mem_of_reached hc) same

/-- What leads to a circle has a next step that does. -/
theorem LeadsToCircle.next (h : LeadsToCircle applications a) :
    ∃ c, Leads applications a c ∧ LeadsToCircle applications c := by
  obtain ⟨b, reaches, circle⟩ := h
  rcases ReflTransGen.cases_head reaches with rfl | ⟨c, first, later⟩
  · obtain ⟨c, first, later⟩ := TransGen.head'_iff.mp circle
    exact ⟨c, first, a, later, circle⟩
  · exact ⟨c, first, b, later, circle⟩

namespace Universe

variable {u : Universe} {path : List String} {found found' : OrderedMap String Application}
  {d : Dependency} {rest : List Dependency}

/-! ## One step of the search -/

theorem visit_nil : u.visit path found [] = .ok found := by
  rw [visit]

theorem visit_error {refusal : Refusal} (h : u.findMatch d = .error refusal) :
    u.visit path found (d :: rest) = .error refusal := by
  rw [visit]
  split <;> rename_i h' <;> rw [h] at h' <;> cases h'
  rfl

theorem visit_none (h : u.findMatch d = .ok none) :
    u.visit path found (d :: rest) = u.visit path found rest := by
  rw [visit]
  split <;> rename_i h' <;> rw [h] at h' <;> cases h'

theorem visit_some (h : u.findMatch d = .ok (some b)) :
    u.visit path found (d :: rest) =
      if b.name ∈ path then .error (.circularDependency (chain path b.name))
      else if found.contains b.id then u.visit path found rest
      else u.visit (b.name :: path) found b.dependencies >>= fun found' =>
        u.visit path (found'.insert b.id b) rest := by
  rw [visit]
  split <;> rename_i h' <;> rw [h] at h' <;> cases h'
  by_cases on_path : b.name ∈ path
  · rw [dif_pos on_path, if_pos on_path]
  · rw [dif_neg on_path, if_neg on_path]
    by_cases known : found.contains b.id
    · rw [if_pos known, if_pos known]
    · rw [if_neg known, if_neg known]
      cases u.visit (b.name :: path) found b.dependencies <;> rfl

/-- One can tell where all dependencies in reach of an application lead. -/
def Tells (u : Universe) (applications : List Application) (target : Application) : Prop :=
  ∀ b, ReflTransGen (Leads applications) target b → ∀ d ∈ b.dependencies,
    ∃ o, u.findMatch d = .ok o

/-! ## What a search has found -/

/-- One can tell where a dependency leads, and the search is done with that. -/
def Done (u : Universe) (found : OrderedMap String Application) (d : Dependency) : Prop :=
  ∃ o, u.findMatch d = .ok o ∧ ∀ b, o = some b → found.get? b.id = some b

theorem Done.mono (h : u.Done found d)
    (kept : ∀ c, found.get? c.id = some c → found'.get? c.id = some c) : u.Done found' d := by
  obtain ⟨o, ho, there⟩ := h
  exact ⟨o, ho, fun b hb => kept b (there b hb)⟩

/-- What the search is done with can be reached, has another name than the application where the
search started, is done with to its end, and leads to no circle. -/
structure Finished (u : Universe) (applications : List Application) (target : Application)
    (found : OrderedMap String Application) : Prop where
  /-- Applications are found under their own identifiers. -/
  id : ∀ i b, found.get? i = some b → b.id = i
  /-- One comes to them. -/
  reached : ∀ b, found.get? b.id = some b → TransGen (Leads applications) target b
  /-- They have other names. -/
  others : ∀ b, found.get? b.id = some b → b.name ≠ target.name
  /-- The search is done with what they lead to. -/
  done : ∀ b, found.get? b.id = some b → ∀ d ∈ b.dependencies, u.Done found d
  /-- They lead to no circle. -/
  free : ∀ b, found.get? b.id = some b → ¬LeadsToCircle applications b

section

variable (members : ofApplications applications = .ok u)

include members in
theorem Done.of_leads (h : ∀ d ∈ a.dependencies, u.Done found d) (leads : Leads applications a b) :
    found.get? b.id = some b := by
  obtain ⟨d, hd, preferred⟩ := leads
  obtain ⟨o, ho, there⟩ := h d hd
  rw [(findMatch_eq_some_iff members).mpr preferred] at ho
  exact there b (Except.ok.inj ho).symm

namespace Finished

theorem empty : u.Finished applications target .empty where
  id := fun i b h => by simp at h
  reached := fun b h => by simp at h
  others := fun b h => by simp at h
  done := fun b h => by simp at h
  free := fun b h => by simp at h

/-- The application under the identifier of another one is that one. -/
theorem get?_of_contains (e : u.Finished applications target found)
    (discerned : Discerned applications target) (hb : TransGen (Leads applications) target b)
    (known : found.contains b.id) : found.get? b.id = some b := by
  obtain ⟨c, hc⟩ := Option.isSome_iff_exists.mp known
  have same : c.id = b.id := e.id _ _ hc
  have hc' : found.get? c.id = some c := same ▸ hc
  obtain rfl := discerned c b (e.reached c hc') hb same
  exact hc'

include members in
/-- The search is done with an application when it is done with all that the application leads
to. -/
theorem insert (e : u.Finished applications target found)
    (discerned : Discerned applications target) (hb : TransGen (Leads applications) target b)
    (other : b.name ≠ target.name) (done : ∀ d ∈ b.dependencies, u.Done found d) :
    u.Finished applications target (found.insert b.id b) ∧
      ∀ c, (found.insert b.id b).get? c.id = some c ↔ c = b ∨ found.get? c.id = some c := by
  have joined : ∀ c, (found.insert b.id b).get? c.id = some c ↔
      c = b ∨ found.get? c.id = some c := by
    intro c
    rw [OrderedMap.get?_insert]
    split
    next same =>
      refine ⟨fun h => .inl (Option.some.inj h).symm, ?_⟩
      rintro (rfl | hc)
      · rfl
      · rw [discerned c b (e.reached c hc) hb same]
    next different => exact ⟨.inr, fun h => h.resolve_left fun h => different (h ▸ rfl)⟩
  refine ⟨⟨?_, fun c hc => ?_, fun c hc => ?_, fun c hc => ?_, fun c hc => ?_⟩, joined⟩
  · intro i c hc
    rw [OrderedMap.get?_insert] at hc
    split at hc
    next same => rw [same, ← Option.some.inj hc]
    next => exact e.id i c hc
  · rcases (joined c).mp hc with rfl | hc
    · exact hb
    · exact e.reached c hc
  · rcases (joined c).mp hc with rfl | hc
    · exact other
    · exact e.others c hc
  · intro d hd
    have before : u.Done found d := by
      rcases (joined c).mp hc with rfl | hc
      · exact done d hd
      · exact e.done c hc d hd
    exact before.mono fun c hc => (joined c).mpr (.inr hc)
  · rcases (joined c).mp hc with rfl | hc
    · intro circle
      obtain ⟨x, leads, circle⟩ := circle.next
      exact e.free x (Done.of_leads members done leads) circle
    · exact e.free c hc

end Finished

include members in
/-- A search that goes through is done with all that the dependencies lead to. -/
theorem visit_finished (discerned : Discerned applications target) (path : List String)
    (found : OrderedMap String Application) (dependencies : List Dependency)
    (h : u.visit path found dependencies = .ok found') (start : target.name ∈ path)
    (ahead : ∀ d ∈ dependencies, ∀ b, Preferred applications d b →
      TransGen (Leads applications) target b)
    (e : u.Finished applications target found) :
    u.Finished applications target found' ∧
      (∀ c, found.get? c.id = some c → found'.get? c.id = some c) ∧
      ∀ d ∈ dependencies, u.Done found' d := by
  induction path, found, dependencies using Universe.visit.induct u generalizing found' with
  | case1 path found =>
    rw [visit_nil] at h
    obtain rfl := Except.ok.inj h
    exact ⟨e, fun _ h => h, by simp⟩
  | case2 path found d rest refusal hd =>
    rw [visit_error hd] at h
    cases h
  | case3 path found d rest hd ih =>
    rw [visit_none hd] at h
    obtain ⟨-, ahead⟩ := List.forall_mem_cons.mp ahead
    obtain ⟨e', kept, later⟩ := ih h start ahead e
    exact ⟨e', kept, List.forall_mem_cons.mpr ⟨⟨none, hd, by simp⟩, later⟩⟩
  | case4 path found d rest b hd on_path =>
    rw [visit_some hd, if_pos on_path] at h
    cases h
  | case5 path found d rest b hd off_path known ih =>
    rw [visit_some hd, if_neg off_path, if_pos known] at h
    obtain ⟨here, ahead⟩ := List.forall_mem_cons.mp ahead
    have reached := here b ((findMatch_eq_some_iff members).mp hd)
    obtain ⟨e', kept, later⟩ := ih h start ahead e
    have there := kept b (e.get?_of_contains discerned reached known)
    exact ⟨e', kept, List.forall_mem_cons.mpr ⟨⟨some b, hd, by simpa using there⟩, later⟩⟩
  | case6 path found d rest b hd off_path unknown _ refusal refused ih =>
    rw [visit_some hd, if_neg off_path, if_neg unknown, refused] at h
    cases h
  | case7 path found d rest b hd off_path unknown _ found₁ below ih₁ ih₂ =>
    rw [visit_some hd, if_neg off_path, if_neg unknown, below] at h
    obtain ⟨here, ahead⟩ := List.forall_mem_cons.mp ahead
    have reached := here b ((findMatch_eq_some_iff members).mp hd)
    have other : b.name ≠ target.name := fun same => off_path (same ▸ start)
    obtain ⟨e₁, kept₁, done⟩ := ih₁ below (List.mem_cons_of_mem _ start)
      (fun d hd c preferred => reached.tail ⟨d, hd, preferred⟩) e
    obtain ⟨e₂, joined⟩ := e₁.insert members discerned reached other done
    obtain ⟨e', kept, later⟩ := ih₂ h start ahead e₂
    have there := kept b ((joined b).mpr (.inl rfl))
    exact ⟨e', fun c hc => kept c ((joined c).mpr (.inr (kept₁ c hc))),
      List.forall_mem_cons.mpr ⟨⟨some b, hd, by simpa using there⟩, later⟩⟩

include members in
theorem finished_of_ok (discerned : Discerned applications target) {list : List Application}
    (h : u.dependenciesOf target = .ok list) :
    ∃ found, list = found.values ∧ u.Finished applications target found ∧
      ∀ d ∈ target.dependencies, u.Done found d := by
  obtain ⟨found, went, rfl⟩ := Except.map_eq_ok.mp h
  obtain ⟨e, -, done⟩ := visit_finished members discerned _ _ _ went List.mem_cons_self
    (fun d hd b preferred => .single ⟨d, hd, preferred⟩) .empty
  exact ⟨found, rfl, e, done⟩

include members in
/-- All that an application leads to is found in the end. -/
theorem Finished.complete (e : u.Finished applications target found)
    (done : ∀ d ∈ target.dependencies, u.Done found d)
    (h : TransGen (Leads applications) target b) : found.get? b.id = some b := by
  induction h with
  | single first => exact Done.of_leads members done first
  | tail _ last ih => exact Done.of_leads members (e.done _ ih) last

include members in
/-- What a search that goes through returns is what one can reach. -/
theorem closure_of_ok (discerned : Discerned applications target) {list : List Application}
    (h : u.dependenciesOf target = .ok list) : Closure applications target list := by
  obtain ⟨found, rfl, e, done⟩ := finished_of_ok members discerned h
  have mem_values : ∀ b, b ∈ found.values ↔ found.get? b.id = some b := by
    intro b
    simp only [OrderedMap.values, List.mem_map, OrderedMap.get?_eq_some_iff]
    constructor
    · rintro ⟨⟨i, b⟩, hb, rfl⟩
      obtain rfl := e.id i b (OrderedMap.get?_eq_some_iff.mpr hb)
      exact hb
    · exact fun hb => ⟨(b.id, b), hb, rfl⟩
  have keys : found.values.map (·.id) = found.keys := by
    rw [OrderedMap.values, OrderedMap.keys, List.map_map]
    refine List.map_congr_left fun entry hentry => ?_
    exact e.id entry.1 entry.2 (OrderedMap.get?_eq_some_iff.mpr hentry)
  refine ⟨?_, fun b hb => e.others b ((mem_values b).mp hb), fun b => ?_⟩
  · rw [keys, OrderedMap.keys, List.pairwise_map]
    exact found.ascending.imp Std.LawfulLTCmp.eq_lt_iff_lt.mp
  · rw [mem_values]
    exact ⟨e.reached b, e.complete members done⟩

include members in
/-- A search that goes through can tell where all dependencies in reach lead, and there is no
circle in reach. -/
theorem told_of_ok (discerned : Discerned applications target) {list : List Application}
    (h : u.dependenciesOf target = .ok list) :
    u.Tells applications target ∧ ¬LeadsToCircle applications target := by
  obtain ⟨found, -, e, done⟩ := finished_of_ok members discerned h
  constructor
  · intro b reached d hd
    have settled : ∀ d ∈ b.dependencies, u.Done found d := by
      rcases reflTransGen_iff_eq_or_transGen.mp reached with rfl | reached
      · exact done
      · exact e.done b (e.complete members done reached)
    obtain ⟨o, ho, -⟩ := settled d hd
    exact ⟨o, ho⟩
  · intro circle
    obtain ⟨c, leads, circle⟩ := circle.next
    exact e.free c (e.complete members done (.single leads)) circle

/-! ## The way that a search has come -/

/-- A chain of names that ends with the name it starts with. -/
theorem chain_append {n : String} {front rest : List String} (h : n ∉ front) :
    chain (front ++ n :: rest) n = n :: front ++ [n] := by
  have differ : ∀ m ∈ front, decide (m ≠ n) := by
    intro m hm
    exact decide_eq_true fun same => h (same ▸ hm)
  rw [chain, List.takeWhile_append_of_pos differ, List.takeWhile_cons_of_neg (by simp),
    List.append_nil]

include members in
/-- A search that is refused has come back to a name on its way, or to a range that one cannot
read. The way leads from the application where the search started to where it is. -/
theorem visit_refused {refusal : Refusal} (path : List String)
    (found : OrderedMap String Application) (dependencies : List Dependency)
    (h : u.visit path found dependencies = .error refusal) {behind : List Application}
    (names : path = (a :: behind).map (·.name))
    (way : (a :: behind).IsChain fun b a => Leads applications a b)
    (reached : ∀ x ∈ a :: behind, ReflTransGen (Leads applications) target x)
    (own : ∀ d ∈ dependencies, d ∈ a.dependencies) :
    (∃ names, refusal = .circularDependency names ∧ WayBack applications target names) ∨
      ∃ x, ReflTransGen (Leads applications) target x ∧
        ∃ d ∈ x.dependencies, u.findMatch d = .error refusal := by
  induction path, found, dependencies using Universe.visit.induct u generalizing a behind with
  | case1 path found =>
    rw [visit_nil] at h
    cases h
  | case2 path found d rest refusal hd =>
    rw [visit_error hd] at h
    obtain rfl := Except.error.inj h
    exact .inr ⟨a, reached a List.mem_cons_self, d, own d List.mem_cons_self, hd⟩
  | case3 path found d rest hd ih =>
    rw [visit_none hd] at h
    exact ih h names way reached (List.forall_mem_cons.mp own).2
  | case4 path found d rest b hd on_path =>
    rw [visit_some hd, if_pos on_path] at h
    obtain rfl := Except.error.inj h
    obtain ⟨front, back, parts, new⟩ := List.eq_append_cons_of_mem on_path
    obtain ⟨middle, later, split, rfl, hlater⟩ := List.map_eq_append_iff.mp (names.symm.trans parts)
    obtain ⟨first, earlier, rfl, same, rfl⟩ := List.map_eq_cons_iff.mp hlater
    have leads : Leads applications a b :=
      ⟨d, own d List.mem_cons_self, (findMatch_eq_some_iff members).mp hd⟩
    -- The way goes on to the application whose name is repeated; it starts with the last one
    -- of that name.
    have longer : (b :: a :: behind).IsChain fun b a => Leads applications a b :=
      .cons_cons leads way
    rw [split] at longer reached
    refine .inl ⟨_, rfl, b, middle, first, ?_, ?_, reached first (by simp), same⟩
    · rw [parts, chain_append new]
      simp [same]
    · have parted : b :: (middle ++ first :: earlier) = (b :: middle ++ [first]) ++ earlier := by
        simp
      rw [parted] at longer
      exact longer.left_of_append
  | case5 path found d rest b hd off_path known ih =>
    rw [visit_some hd, if_neg off_path, if_pos known] at h
    exact ih h names way reached (List.forall_mem_cons.mp own).2
  | case6 path found d rest b hd off_path unknown _ refusal' refused ih =>
    rw [visit_some hd, if_neg off_path, if_neg unknown, refused] at h
    obtain rfl := Except.error.inj h
    have leads : Leads applications a b :=
      ⟨d, own d List.mem_cons_self, (findMatch_eq_some_iff members).mp hd⟩
    refine ih refused (by rw [names]; rfl) (.cons_cons leads way) ?_ fun _ hd => hd
    exact List.forall_mem_cons.mpr ⟨(reached a List.mem_cons_self).tail leads, reached⟩
  | case7 path found d rest b hd off_path unknown _ found₁ below ih₁ ih₂ =>
    rw [visit_some hd, if_neg off_path, if_neg unknown, below] at h
    exact ih₂ h names way reached (List.forall_mem_cons.mp own).2

include members in
theorem refused_of_error {refusal : Refusal} (h : u.dependenciesOf target = .error refusal) :
    (∃ names, refusal = .circularDependency names ∧ WayBack applications target names) ∨
      ∃ x, ReflTransGen (Leads applications) target x ∧
        ∃ d ∈ x.dependencies, u.findMatch d = .error refusal := by
  unfold dependenciesOf at h
  cases hv : u.visit [target.name] .empty target.dependencies with
  | ok found => rw [hv] at h; cases h
  | error refusal' =>
    rw [hv] at h
    obtain rfl := Except.error.inj h
    exact visit_refused members _ _ _ hv rfl (.singleton target) (by simp [ReflTransGen.refl])
      fun _ hd => hd

end

end Universe

/-- A way back comes from an application to another one of its name. -/
theorem WayBack.same_name {names : List String} (h : WayBack applications target names) :
    ∃ a b, ReflTransGen (Leads applications) target a ∧ TransGen (Leads applications) a b ∧
      a.name = b.name := by
  obtain ⟨last, middle, first, -, way, reached, same⟩ := h
  suffices goes : ∀ (rest : List Application) (last : Application),
      (last :: rest).IsChain (fun b a => Leads applications a b) →
      ∀ x ∈ rest, TransGen (Leads applications) x last from
    ⟨first, last, reached, goes _ last way first (by simp), same⟩
  intro rest
  induction rest with
  | nil => simp
  | cons y rest ih =>
    intro last way x hx
    obtain ⟨leads, way⟩ := List.isChain_cons_cons.mp way
    rcases List.mem_cons.mp hx with rfl | hx
    · exact .single leads
    · exact (ih y way x hx).tail leads

namespace Universe

variable {u : Universe}

/-- A search goes through if one can tell where all dependencies in reach lead and never comes
back to a name. -/
theorem ok_of_apart (members : ofApplications applications = .ok u)
    (told : u.Tells applications target) (apart : Apart applications target) :
    ∃ list, u.dependenciesOf target = .ok list := by
  cases h : u.dependenciesOf target with
  | ok list => exact ⟨list, rfl⟩
  | error refusal =>
    exfalso
    rcases refused_of_error members h with ⟨names, -, back⟩ | ⟨x, reached, d, hd, fails⟩
    · obtain ⟨a, b, reached, leads, same⟩ := back.same_name
      exact apart a b reached leads same
    · obtain ⟨o, ho⟩ := told x reached d hd
      rw [fails] at ho
      cases ho

/-- A search that is refused for a circle has walked the way that it reports. -/
theorem wayBack_of_refused (members : ofApplications applications = .ok u) {names : List String}
    (h : u.dependenciesOf target = .error (.circularDependency names)) :
    WayBack applications target names := by
  rcases refused_of_error members h with ⟨names', same, back⟩ | ⟨x, -, d, -, fails⟩
  · obtain rfl := Refusal.circularDependency.inj same
    exact back
  · obtain ⟨fault, unread⟩ := findMatch_error fails
    cases unread

/-- Where there is one version of every name and one can read all ranges, a search is refused
exactly if there is a circle in reach. -/
theorem refused_iff_circle (ids : (applications.map (·.id)).Nodup)
    (members : ofApplications applications = .ok u) (ht : target ∈ applications)
    (versions : ∀ a ∈ applications, ∀ b ∈ applications, a.name = b.name → a.version = b.version)
    (ranges : ∀ a ∈ applications, ∀ d ∈ a.dependencies, ∃ range, d.versions = .ok range) :
    (∃ refusal, u.dependenciesOf target = .error refusal) ↔ LeadsToCircle applications target := by
  have there : ∀ b, ReflTransGen (Leads applications) target b → b ∈ applications := by
    intro b reached
    rcases reflTransGen_iff_eq_or_transGen.mp reached with rfl | reached
    · exact ht
    · exact mem_of_reached reached
  constructor
  · rintro ⟨refusal, h⟩
    by_contra free
    -- Two applications of one name are one, so a search that comes back to a name has come round.
    have apart : Apart applications target := by
      intro a b reached leads same
      have ha := there a reached
      have hb := mem_of_reached leads
      have one : a.id = b.id := by
        rw [Application.id, Application.id, same, versions a ha b hb same]
      obtain rfl := List.inj_on_of_nodup_map ids ha hb one
      exact free ⟨a, reached, leads⟩
    have told : u.Tells applications target := by
      intro b reached d hd
      exact (findMatch_ok_iff members).mpr fun _ => ranges b (there b reached) d hd
    obtain ⟨list, goes⟩ := ok_of_apart members told apart
    rw [h] at goes
    cases goes
  · intro circle
    cases h : u.dependenciesOf target with
    | ok list => exact absurd circle (told_of_ok members (discerned_of_nodup ids) h).2
    | error refusal => exact ⟨refusal, rfl⟩

/-- The search for what an application needs. If it goes through, it returns what one can reach; if
it is refused for a circle, it has walked the way that it reports. For a member of a universe with
one version of every name in which one can read all ranges, it is refused exactly if there is a
circle in reach. It comes to an end on every graph: `visit` is defined by recursion on how many
members have names off the path, then on the dependencies that are left. -/
theorem dependenciesOf_exact (ids : (applications.map (·.id)).Nodup)
    (members : ofApplications applications = .ok u) (target : Application) :
    (∀ found, u.dependenciesOf target = .ok found → Closure applications target found) ∧
    (∀ names, u.dependenciesOf target = .error (.circularDependency names) →
      WayBack applications target names) ∧
    (target ∈ applications →
      (∀ a ∈ applications, ∀ b ∈ applications, a.name = b.name → a.version = b.version) →
      (∀ a ∈ applications, ∀ d ∈ a.dependencies, ∃ range, d.versions = .ok range) →
      ((∃ refusal, u.dependenciesOf target = .error refusal) ↔
        LeadsToCircle applications target)) := by
  refine ⟨fun found h => ?_, fun names h => ?_, fun ht versions ranges => ?_⟩
  · exact closure_of_ok members (discerned_of_nodup ids) h
  · exact wayBack_of_refused members h
  · exact refused_iff_circle ids members ht versions ranges

/-- An application that needs another one, -/
def circled : Application where
  name := "a"
  version := "1.0.0"
  dependencies := [{ name := "b", range := "^1.0.0" }]

/-- the other one, which needs it in turn, -/
def circling : Application where
  name := "b"
  version := "1.1.0"
  dependencies := [{ name := "a", range := "^1.0.0" }, { name := "c", range := "^1.0.0" }]

/-- one that needs nothing, -/
def content : Application := { name := "c", version := "1.0.0" }

/-- and one outside that needs that one. -/
def wanting : Application where
  name := "t"
  version := "1.0.0"
  dependencies := [{ name := "c", range := "^1.0.0" }]

/-- What leads past the circle is told; what leads into it is refused with the way round. -/
theorem dependenciesOf_exact_circling :
    ([circled, circling, content].map (·.id)).Nodup ∧
      ∃ u, ofApplications [circled, circling, content] = .ok u ∧
        Closure [circled, circling, content] wanting [content] ∧
        WayBack [circled, circling, content] circled ["a", "b", "a"] ∧
        LeadsToCircle [circled, circling, content] circled := by
  have ids : ([circled, circling, content].map (·.id)).Nodup := by decide
  have readable : ∀ a ∈ [circled, circling, content], a.Readable := by decide +kernel
  obtain ⟨u, members⟩ : ∃ u, ofApplications [circled, circling, content] = .ok u := ⟨_, rfl⟩
  have to_a : u.findMatch { name := "a", range := "^1.0.0" } = .ok (some circled) := by
    obtain rfl := Except.ok.inj members
    rfl
  have to_b : u.findMatch { name := "b", range := "^1.0.0" } = .ok (some circling) := by
    obtain rfl := Except.ok.inj members
    rfl
  have to_c : u.findMatch { name := "c", range := "^1.0.0" } = .ok (some content) := by
    obtain rfl := Except.ok.inj members
    rfl
  have goes : u.dependenciesOf wanting = .ok [content] := by
    rw [dependenciesOf, wanting, visit_some to_c, if_neg (by decide), if_neg (by decide), content,
      visit_nil]
    show (u.visit _ _ _).map _ = _
    rw [visit_nil]
    rfl
  have refused : u.dependenciesOf circled = .error (.circularDependency ["a", "b", "a"]) := by
    rw [dependenciesOf, circled, visit_some to_b, if_neg (by decide), if_neg (by decide), circling,
      visit_some to_a, if_pos (by decide)]
    rfl
  have from_wanting := dependenciesOf_exact ids members wanting
  have from_circled := dependenciesOf_exact ids members circled
  exact ⟨ids, u, members, from_wanting.1 _ goes, from_circled.2.1 _ refused,
    (from_circled.2.2 (by decide) (by decide) fun a ha => (readable a ha).ranges).mp ⟨_, refused⟩⟩

end Universe

end Provisioning
