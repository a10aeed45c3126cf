import Provisioning.Integrity.Interfaces
import Provisioning.Proofs.Ordered.Lookup

/-!
# Interfaces that nobody provides

The table of interfaces holds each required and each provided item. Nothing is missing from it if
and only if every interface that a module of a candidate requires has a module with a compatible
version, in a candidate or in an application that no candidate takes the place of.
-/

namespace Provisioning

theorem InterfaceItem.eq_of_compare {i j : InterfaceItem} (h : compare i j = .eq) : i = j := by
  have parts : compareOn interfaceId i j = .eq ∧ compareOn version i j = .eq ∧
      compareOn applicationId i j = .eq := by
    simpa only [compare, InterfaceItem.compare, compareLex, Ordering.then_eq_eq] using h
  obtain ⟨sameId, sameVersion, sameApplication⟩ := parts
  cases i
  cases j
  rw [InterfaceItem.mk.injEq]
  exact ⟨Std.LawfulEqCmp.eq_of_compare sameId, Std.LawfulEqCmp.eq_of_compare sameVersion,
    Std.LawfulEqCmp.eq_of_compare sameApplication⟩

instance : Std.LawfulEqOrd InterfaceItem := ⟨InterfaceItem.eq_of_compare⟩

namespace InterfaceTable

/-- The items that are provided for an interface. -/
def bucket (provided : OrderedMap String (OrderedSet InterfaceItem)) (id : String) :
    List InterfaceItem :=
  ((provided.get? id).getD .empty).toList

/-- Providing an item adds it to the items of its interface. -/
theorem mem_bucket_alter {provided : OrderedMap String (OrderedSet InterfaceItem)}
    {item p : InterfaceItem} {id : String} :
    p ∈ bucket (provided.alter item.interfaceId fun items => (items.getD .empty).insert item) id ↔
      p ∈ bucket provided id ∨ p = item ∧ item.interfaceId = id := by
  rw [bucket, OrderedMap.alter, OrderedMap.get?_insert]
  split
  next same =>
    subst same
    rw [Option.getD_some, OrderedSet.insert, mem_insertMember, or_comm]
    simp [bucket]
  next other =>
    have apart : ¬ (p = item ∧ item.interfaceId = id) := fun h => other h.2.symm
    rw [or_iff_left apart, bucket]

theorem mem_bucket_foldl {items : List InterfaceItem}
    {provided : OrderedMap String (OrderedSet InterfaceItem)} {p : InterfaceItem} {id : String} :
    p ∈ bucket (items.foldl (fun provided item =>
        provided.alter item.interfaceId fun items => (items.getD .empty).insert item) provided) id ↔
      p ∈ bucket provided id ∨ p ∈ items ∧ p.interfaceId = id := by
  induction items generalizing provided with
  | nil => simp
  | cons item rest ih =>
    rw [List.foldl_cons, ih, mem_bucket_alter, or_assoc, List.mem_cons, or_and_right]
    refine or_congr_right (or_congr_left ?_)
    constructor <;> rintro ⟨rfl, h⟩ <;> exact ⟨rfl, h⟩

variable {candidates entitled : List Application}

theorem isProvided_iff {t : InterfaceTable} {item : InterfaceItem} :
    t.isProvided item ↔ ∃ p ∈ bucket t.provided item.interfaceId,
      InterfaceVersion.compatible item.version p.version := by
  unfold isProvided bucket
  cases t.provided.get? item.interfaceId with
  | none => simp [OrderedSet.empty]
  | some providers => simp

/-- Whether a module of an application of the list provides an interface in a version that
satisfies the required one. -/
def Provided (applications : List Application) (r : InterfaceReference) : Prop :=
  ∃ a ∈ applications, ∃ m ∈ a.allModules, ∃ p ∈ m.provides,
    p.id = r.id ∧ InterfaceVersion.compatible r.version p.version

theorem mem_providedItems {a : Application} {p : InterfaceItem} :
    p ∈ a.providedItems ↔ ∃ m ∈ a.allModules, ∃ r ∈ m.provides, r.item a.id = p := by
  simp [Application.providedItems]

theorem mem_requiredItems {a : Application} {p : InterfaceItem} :
    p ∈ a.requiredItems ↔ ∃ m ∈ a.allModules, ∃ r ∈ m.requires, r.item a.id = p := by
  simp [Application.requiredItems]

/-- Nothing is missing if every interface that a candidate requires is provided. -/
theorem missing_eq_nil_iff :
    (collect candidates entitled true).missing = [] ↔
      ∀ a ∈ candidates, ∀ m ∈ a.allModules, ∀ r ∈ m.requires,
        Provided (candidates ++ remainingBeside candidates entitled) r := by
  have provided : ∀ (r : InterfaceReference) (id : String),
      (collect candidates entitled true).isProvided (r.item id) ↔
        Provided (candidates ++ remainingBeside candidates entitled) r := by
    intro r id
    rw [isProvided_iff, collect]
    simp only [mem_bucket_foldl, List.mem_flatMap, mem_providedItems]
    constructor
    · rintro ⟨p, hp | ⟨⟨a, ha, m, hm, q, hq, rfl⟩, same⟩, fits⟩
      · cases hp
      · exact ⟨a, ha, m, hm, q, hq, same, fits⟩
    · rintro ⟨a, ha, m, hm, q, hq, same, fits⟩
      exact ⟨q.item a.id, .inr ⟨⟨a, ha, m, hm, q, hq, rfl⟩, same⟩, fits⟩
  have required : ∀ p, p ∈ (collect candidates entitled true).required.toList ↔
      ∃ a ∈ candidates, ∃ m ∈ a.allModules, ∃ r ∈ m.requires, r.item a.id = p := by
    intro p
    simp only [collect, if_true, OrderedSet.mem_ofList, List.mem_flatMap, mem_requiredItems]
  rw [missing, List.filter_eq_nil_iff]
  constructor
  · intro h a ha m hm r hr
    have there := h _ ((required _).mpr ⟨a, ha, m, hm, r, hr, rfl⟩)
    rw [Bool.not_eq_true, Bool.not_eq_false'] at there
    exact (provided r a.id).mp there
  · intro h p hp
    obtain ⟨a, ha, m, hm, r, hr, rfl⟩ := (required p).mp hp
    rw [Bool.not_eq_true, Bool.not_eq_false']
    exact (provided r a.id).mpr (h a ha m hm r hr)

end InterfaceTable

end Provisioning
