import Provisioning.Ordered.Map
import Provisioning.Refusal
import Provisioning.Version.Range

/-!
# Transitive dependencies

A universe is a collection of applications. A dependency leads to the member of its name with the
highest version in its range, and to nothing when there is none. The applications that one can
reach from an application along dependencies have to be free of circles.
-/

namespace Provisioning

/-- The range of a dependency. -/
def Dependency.versions (d : Dependency) : Except Refusal VersionRange :=
  (VersionRange.read d.range).mapError (.invalidVersion d.range)

/-- Applications with their versions, at least one. -/
structure Universe where
  /-- The members, in the order in which they were given. -/
  members : List (Version × Application)

namespace Universe

/-- The universe of the applications. -/
def ofApplications (applications : List Application) : Except Refusal Universe :=
  if applications.isEmpty then
    .error .noApplications
  else
    (applications.mapM fun (a : Application) => a.semver.map fun v => (v, a)).map fun members =>
      { members }

/-- The member with the highest version, the first of them if there are several. -/
def latest? : List (Version × Application) → Option (Version × Application)
  | [] => none
  | m :: rest =>
    match latest? rest with
    | some best => if m.1.before best.1 then some best else some m
    | none => some m

theorem latest?_mem {members : List (Version × Application)} {m : Version × Application}
    (h : latest? members = some m) : m ∈ members := by
  induction members generalizing m with
  | nil => simp [latest?] at h
  | cons m' rest ih =>
    simp only [latest?] at h
    split at h
    next best hb =>
      split at h
      · cases h; exact List.mem_cons_of_mem _ (ih hb)
      · cases h; exact List.mem_cons_self
    next => cases h; exact List.mem_cons_self

/-- The member that a dependency leads to. The range is read only if there are members of the
name. -/
def findMatch (u : Universe) (d : Dependency) : Except Refusal (Option Application) :=
  match u.members.filter fun m => m.2.name = d.name with
  | [] => .ok none
  | candidates =>
    match d.versions with
    | .error refusal => .error refusal
    | .ok range => .ok ((latest? (candidates.filter fun m => range.accepts m.1)).map (·.2))

theorem findMatch_mem {u : Universe} {d : Dependency} {a : Application}
    (h : u.findMatch d = .ok (some a)) : ∃ m ∈ u.members, m.2 = a := by
  simp only [findMatch] at h
  split at h
  · simp at h
  · split at h
    · simp at h
    · simp only [Except.ok.injEq, Option.map_eq_some_iff] at h
      obtain ⟨m, hm, ha⟩ := h
      have hmem := (List.mem_filter.1 (latest?_mem hm)).1
      exact ⟨m, (List.mem_filter.1 hmem).1, ha⟩

/-- The number of members whose names are not on the path. -/
def offPath (u : Universe) (path : List String) : Nat :=
  u.members.countP fun m => m.2.name ∉ path

theorem offPath_cons_lt {u : Universe} {path : List String} {a : Application}
    (ha : ∃ m ∈ u.members, m.2 = a) (h : a.name ∉ path) :
    u.offPath (a.name :: path) < u.offPath path := by
  obtain ⟨m, hm, rfl⟩ := ha
  simp only [offPath]
  generalize u.members = members at hm
  induction members with
  | nil => simp at hm
  | cons m' rest ih =>
    have imp (x : Version × Application) (hx : x.2.name ∉ m.2.name :: path) : x.2.name ∉ path :=
      fun hp => hx (List.mem_cons_of_mem _ hp)
    have le : rest.countP (fun x => x.2.name ∉ m.2.name :: path)
        ≤ rest.countP fun x => x.2.name ∉ path :=
      List.countP_mono_left fun x _ hx => by simpa using imp x (by simpa using hx)
    rw [List.countP_cons, List.countP_cons]
    rcases List.mem_cons.1 hm with rfl | hm
    · simp only [List.mem_cons_self, not_true_eq_false, decide_false, Bool.false_eq_true, if_false,
        h, not_false_eq_true, decide_true, if_true]
      omega
    · have lt := ih hm
      by_cases h₁ : m'.2.name ∉ m.2.name :: path
      · rw [if_pos (decide_eq_true h₁), if_pos (decide_eq_true (imp m' h₁))]
        omega
      · rw [if_neg (by simpa using h₁)]
        omega

/-- The names along a circle that ends with the name it starts with, each needed by the one after
it. The path has its last name in front. -/
def chain (path : List String) (repeated : String) : List String :=
  repeated :: path.takeWhile (· ≠ repeated) ++ [repeated]

/-- The applications found along the dependencies, added to those found before, by identifier. The
path holds the names from the application back to where the search started. -/
def visit (u : Universe) (path : List String) (found : OrderedMap String Application)
    (dependencies : List Dependency) : Except Refusal (OrderedMap String Application) :=
  match dependencies with
  | [] => .ok found
  | d :: rest =>
    match h : u.findMatch d with
    | .error refusal => .error refusal
    | .ok none => u.visit path found rest
    | .ok (some a) =>
      if hp : a.name ∈ path then
        .error (.circularDependency (chain path a.name))
      else if found.contains a.id then
        u.visit path found rest
      else
        have := offPath_cons_lt (findMatch_mem h) hp
        match u.visit (a.name :: path) found a.dependencies with
        | .error refusal => .error refusal
        | .ok found => u.visit path (found.insert a.id a) rest
termination_by (u.offPath path, dependencies.length)

/-- The applications that one can reach from the application along dependencies, ascending by
identifier. -/
def dependenciesOf (u : Universe) (a : Application) : Except Refusal (List Application) :=
  (u.visit [a.name] .empty a.dependencies).map (·.values)

end Universe

end Provisioning
