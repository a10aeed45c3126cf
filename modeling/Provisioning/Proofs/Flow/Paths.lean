import Mathlib.Data.List.Nodup
import Provisioning.Flow.Basic

/-!
# Paths

The path of a stage tells the names on the way down to it, as long as they have no slashes. So the
paths of the stages of a flow are pairwise distinct if flows and groups have names of their own
among their siblings, and then exactly if stages have (`stagePathsOf_nodup_iff`).
-/

namespace Provisioning

namespace FlowNode

/-! ## Slashes -/

/-- A character that comes before all of its kind, or after all of them, can be told. -/
theorem append_char_inj {c : Char} {p q a b : List Char}
    (first_or_last : c ∉ p ∧ c ∉ q ∨ c ∉ a ∧ c ∉ b)
    (h : p ++ c :: a = q ++ c :: b) : p = q ∧ a = b := by
  rcases List.append_eq_append_iff.mp h with ⟨d, rfl, hd⟩ | ⟨d, rfl, hd⟩ <;> cases d with
  | nil => simp_all
  | cons x rest =>
    rw [List.cons_append, List.cons.injEq] at hd
    obtain ⟨rfl, rfl⟩ := hd
    simp at first_or_last

theorem childPath_toList (path name : String) :
    (childPath path name).toList = path.toList ++ '/' :: name.toList := by simp [childPath]

/-- The last part of a path can be told, if it has no slash. -/
theorem childPath_inj {p q a b : String} (ha : '/' ∉ a.toList) (hb : '/' ∉ b.toList)
    (h : childPath p a = childPath q b) : p = q ∧ a = b := by
  have lists := congrArg String.toList h
  rw [childPath_toList, childPath_toList] at lists
  have parts := append_char_inj (.inr ⟨ha, hb⟩) lists
  exact parts.imp String.toList_inj.mp String.toList_inj.mp

/-- What follows a part without a slash can be told. -/
theorem childPath_childPath_inj {p g k a b : String} (hg : '/' ∉ g.toList) (hk : '/' ∉ k.toList)
    (h : childPath (childPath p g) a = childPath (childPath p k) b) : a = b := by
  have lists := congrArg String.toList h
  simp only [childPath_toList, List.append_assoc, List.cons_append] at lists
  rw [List.append_cancel_left_eq, List.cons.injEq] at lists
  exact String.toList_inj.mp (append_char_inj (.inl ⟨hg, hk⟩) lists.2).2

/-- The name of a numbered group is its own text, a dash, a letter and digits. -/
theorem group_toList (groupName : String) (i : Nat) :
    s!"{groupName}-l{i}".toList = (groupName.toList ++ ['-']) ++ 'l' :: Nat.toDigits 10 i := by
  simp [toString]

theorem notMem_digits {c : Char} (h : c.isDigit = false) (i : Nat) : c ∉ Nat.toDigits 10 i := by
  intro hc
  have digit := Nat.isDigit_of_mem_toDigits (by decide) (by decide) hc
  rw [h] at digit
  exact absurd digit Bool.false_ne_true

theorem slash_notMem_group {groupName : String} (h : '/' ∉ groupName.toList) (i : Nat) :
    '/' ∉ s!"{groupName}-l{i}".toList := by
  have digits : '/' ∉ Nat.toDigits 10 i := notMem_digits (by decide) i
  rw [group_toList]
  simp only [List.mem_append, List.mem_cons, List.not_mem_nil, or_false]
  rintro ((hc | hc) | hc | hc)
  · exact h hc
  · exact absurd hc (by decide)
  · exact absurd hc (by decide)
  · exact digits hc

/-- The name of a group tells its text and its number. -/
theorem group_inj {g h : String} {i j : Nat} (same : s!"{g}-l{i}" = s!"{h}-l{j}") :
    g = h ∧ i = j := by
  have lists := congrArg String.toList same
  rw [group_toList, group_toList] at lists
  have letter (n : Nat) : 'l' ∉ Nat.toDigits 10 n := notMem_digits (by decide) n
  obtain ⟨names, digits⟩ := append_char_inj (.inr ⟨letter i, letter j⟩) lists
  have numbers := congrArg (Nat.ofDigitChars 10 · 0) digits
  exact ⟨String.toList_inj.mp (List.append_cancel_right names),
    by simpa [Nat.ofDigitChars_ten_toDigits] using numbers⟩

/-- The names of one parent's children can be told from each other. -/
theorem childPath_cancel {path a b : String} (h : childPath path a = childPath path b) : a = b := by
  have lists := congrArg String.toList h
  rw [childPath_toList, childPath_toList, List.append_cancel_left_eq, List.cons.injEq] at lists
  exact String.toList_inj.mp lists.2

theorem childPath_assoc (path name rest : String) :
    childPath (childPath path name) rest = childPath path (childPath name rest) := by
  simp [childPath, String.append_assoc]

/-- What a path goes on with after a part without a slash. -/
theorem name_of_childPath {path a b p : String} (ha : '/' ∉ a.toList) (hb : '/' ∉ b.toList)
    (hpa : p = childPath path a ∨ ∃ q, p = childPath (childPath path a) q)
    (hpb : p = childPath path b ∨ ∃ q, p = childPath (childPath path b) q) : a = b := by
  rcases hpa with rfl | ⟨q, rfl⟩ <;> rcases hpb with hpb | ⟨q', hpb⟩
  · exact childPath_cancel hpb
  · rw [childPath_assoc] at hpb
    have longer := childPath_cancel hpb
    rw [longer, childPath_toList] at ha
    simp at ha
  · rw [childPath_assoc] at hpb
    have longer := childPath_cancel hpb
    rw [← longer, childPath_toList] at hb
    simp at hb
  · rw [childPath_assoc, childPath_assoc] at hpb
    have lists := congrArg String.toList (childPath_cancel hpb)
    rw [childPath_toList, childPath_toList] at lists
    exact String.toList_inj.mp (append_char_inj (.inl ⟨ha, hb⟩) lists).1

/-! ## Siblings -/

variable {α : Type}

/-- The stage, if the node is one. -/
def stage? : FlowNode α → Option α
  | stage s => some s
  | _ => none

/-- What is directly below a node. -/
def children : FlowNode α → List (FlowNode α)
  | stage _ => []
  | flow _ nodes => nodes
  | parallel _ children => children

mutual

/-- The stages that are siblings, for each flow and each group of a node. -/
def siblings : FlowNode α → List (List α)
  | stage _ => []
  | flow _ nodes => nodes.filterMap stage? :: siblingsIn nodes
  | parallel _ children => children.filterMap stage? :: siblingsIn children

/-- The stages that are siblings, for each flow and each group of nodes. -/
def siblingsIn : List (FlowNode α) → List (List α)
  | [] => []
  | node :: rest => siblings node ++ siblingsIn rest

end

theorem siblingsIn_eq (nodes : List (FlowNode α)) : siblingsIn nodes = nodes.flatMap siblings := by
  induction nodes with
  | nil => rfl
  | cons node rest ih => rw [siblingsIn, List.flatMap_cons, ih]

variable [Named α]

/-- The name of a node. -/
def name : FlowNode α → String
  | stage s => Named.name s
  | flow header _ => header.id
  | parallel name _ => name

theorem stagePathsOf_eq (path : String) (nodes : List (FlowNode α)) :
    stagePathsOf path nodes = nodes.flatMap (stagePaths path) := by
  induction nodes with
  | nil => rfl
  | cons node rest ih => rw [stagePathsOf, List.flatMap_cons, ih]

/-- The paths of stages that are siblings are among all paths, in order. -/
theorem direct_sublist (path : String) (nodes : List (FlowNode α)) :
    ((nodes.filterMap stage?).map fun s => childPath path (Named.name s)).Sublist
      (stagePathsOf path nodes) := by
  induction nodes with
  | nil => exact List.Sublist.refl _
  | cons node rest ih =>
    rw [stagePathsOf]
    cases node with
    | stage s => exact ih.cons_cons _
    | flow header nodes => exact ih.trans (List.sublist_append_right _ _)
    | parallel name children => exact ih.trans (List.sublist_append_right _ _)

theorem direct_names (nodes : List (FlowNode α)) :
    ((nodes.filterMap stage?).map Named.name).Sublist (nodes.map name) := by
  induction nodes with
  | nil => exact List.Sublist.refl _
  | cons node rest ih =>
    cases node with
    | stage s => exact ih.cons_cons _
    | flow header nodes => exact ih.trans (List.sublist_cons_self _ _)
    | parallel name children => exact ih.trans (List.sublist_cons_self _ _)

mutual

theorem siblings_sublist {path : String} {node : FlowNode α} {ss : List α}
    (hs : ss ∈ node.siblings) :
    ∃ p, (ss.map fun s => childPath p (Named.name s)).Sublist (node.stagePaths path) := by
  cases node with
  | stage s => simp [siblings] at hs
  | flow header nodes =>
    rw [siblings, List.mem_cons] at hs
    rcases hs with rfl | hs
    · exact ⟨_, direct_sublist (childPath path header.id) nodes⟩
    · exact siblingsIn_sublist hs
  | parallel name children =>
    rw [siblings, List.mem_cons] at hs
    rcases hs with rfl | hs
    · exact ⟨_, direct_sublist (childPath path name) children⟩
    · exact siblingsIn_sublist hs

theorem siblingsIn_sublist {path : String} {nodes : List (FlowNode α)} {ss : List α}
    (hs : ss ∈ siblingsIn nodes) :
    ∃ p, (ss.map fun s => childPath p (Named.name s)).Sublist (stagePathsOf path nodes) := by
  cases nodes with
  | nil => simp [siblingsIn] at hs
  | cons node rest =>
    rw [siblingsIn, List.mem_append] at hs
    rw [stagePathsOf]
    rcases hs with hs | hs
    · obtain ⟨p, sub⟩ := siblings_sublist hs
      exact ⟨p, sub.trans (List.sublist_append_left _ _)⟩
    · obtain ⟨p, sub⟩ := siblingsIn_sublist hs
      exact ⟨p, sub.trans (List.sublist_append_right _ _)⟩

end

/-- Nodes that their names tell apart, apart from stages that have only stages beside them. -/
inductive Legible : List (FlowNode α) → Prop where
  /-- There are only stages. -/
  | stages (ss : List α) : Legible (ss.map stage)
  /-- Each node has a name of its own, without a slash, and what is below it is legible. -/
  | named {nodes : List (FlowNode α)} (plain : ∀ node ∈ nodes, '/' ∉ node.name.toList)
    (names : (nodes.map name).Nodup) (inner : ∀ node ∈ nodes, Legible node.children) :
    Legible nodes

mutual

/-- A path of a stage of a node is that of the node, or goes on after it. -/
theorem mem_stagePaths {path p : String} {node : FlowNode α} (hp : p ∈ node.stagePaths path) :
    p = childPath path node.name ∨ ∃ q, p = childPath (childPath path node.name) q := by
  cases node with
  | stage s => exact .inl (List.mem_singleton.mp hp)
  | flow header nodes => exact .inr (mem_stagePathsOf hp)
  | parallel name children => exact .inr (mem_stagePathsOf hp)

theorem mem_stagePathsOf {path p : String} {nodes : List (FlowNode α)}
    (hp : p ∈ stagePathsOf path nodes) : ∃ q, p = childPath path q := by
  cases nodes with
  | nil => simp [stagePathsOf] at hp
  | cons node rest =>
    rw [stagePathsOf, List.mem_append] at hp
    rcases hp with hp | hp
    · rcases mem_stagePaths hp with rfl | ⟨q, rfl⟩
      · exact ⟨_, rfl⟩
      · exact ⟨_, childPath_assoc path node.name q⟩
    · exact mem_stagePathsOf hp

end

theorem stagePathsOf_stages (path : String) (ss : List α) :
    stagePathsOf path (ss.map stage) = ss.map fun s => childPath path (Named.name s) := by
  induction ss with
  | nil => rfl
  | cons s rest ih =>
    rw [List.map_cons, stagePathsOf, ih, stagePaths, List.map_cons]
    rfl

theorem nodup_childPath {path : String} {ss : List α} :
    (ss.map fun s => childPath path (Named.name s)).Nodup ↔ (ss.map Named.name).Nodup := by
  have apart : Function.Injective (childPath path) := fun _ _ => childPath_cancel
  have paths : ss.map (fun s => childPath path (Named.name s))
      = (ss.map Named.name).map (childPath path) := (List.map_map).symm
  rw [paths]
  exact List.nodup_map_iff apart

/-- Legible nodes have pairwise distinct paths of stages exactly if sibling stages have names of
their own. -/
theorem Legible.stagePathsOf_nodup_iff {nodes : List (FlowNode α)} (legible : Legible nodes)
    (path : String) :
    (stagePathsOf path nodes).Nodup ↔
      ∀ ss ∈ nodes.filterMap stage? :: siblingsIn nodes, (ss.map Named.name).Nodup := by
  constructor
  · intro nodup ss hs
    rcases List.mem_cons.mp hs with rfl | hs
    · exact nodup_childPath.mp (nodup.sublist (direct_sublist path nodes))
    · obtain ⟨p, sub⟩ := siblingsIn_sublist hs
      exact nodup_childPath.mp (nodup.sublist sub)
  · intro differ
    induction legible generalizing path with
    | stages ss =>
      rw [stagePathsOf_stages, nodup_childPath]
      simpa [List.filterMap_map, Function.comp_def, stage?] using differ _ List.mem_cons_self
    | @named nodes plain names inner ih =>
      rw [stagePathsOf_eq, List.nodup_flatMap]
      constructor
      · intro node hn
        have below : ∀ ss ∈ node.siblings, (ss.map Named.name).Nodup := by
          intro ss hs
          refine differ ss (List.mem_cons_of_mem _ ?_)
          rw [siblingsIn_eq]
          exact List.mem_flatMap.mpr ⟨node, hn, hs⟩
        cases node with
        | stage s => exact List.nodup_singleton _
        | flow header ns => exact ih _ hn _ below
        | parallel name ns => exact ih _ hn _ below
      · have apart := List.pairwise_map.mp names
        refine apart.imp_of_mem fun hn hm differ p hp hq => ?_
        exact differ (name_of_childPath (plain _ hn) (plain _ hm) (mem_stagePaths hp)
          (mem_stagePaths hq))

end FlowNode

namespace Flow

variable {α : Type}

/-- The stages that are siblings, for each flow and each group of a flow. -/
def siblings (f : Flow α) : List (List α) :=
  f.nodes.filterMap FlowNode.stage? :: FlowNode.siblingsIn f.nodes

/-- Whether each stage has a name that tells it from its siblings. -/
def siblingsDiffer [Named α] (f : Flow α) : Bool :=
  f.siblings.all fun ss => decide (ss.map Named.name).Nodup

end Flow

end Provisioning
