import Provisioning.Version.Basic

/-!
# The order of versions

Versions are in a total order: what comes before something comes before all that does not come
before it. In particular no version comes before itself.
-/

namespace Provisioning

/-- Things are in a total order if what they are compared by is. -/
theorem transCmp_on {α β : Type} (cmp : β → β → Ordering) [Std.TransCmp cmp] (f : α → β) :
    Std.TransCmp fun a b => cmp (f a) (f b) where
  eq_swap := Std.OrientedCmp.eq_swap
  isLE_trans := Std.TransCmp.isLE_trans

namespace Identifier

/-- What identifiers are compared by: whether they are words, the number, the zeros in front of it,
the text. -/
def parts : Identifier → Bool × Nat × Nat × String
  | numeric zeros value => (false, value, zeros, "")
  | alphanumeric text => (true, 0, 0, text)

theorem compare_eq_parts : Identifier.compare =
    compareLex (compareOn (·.parts.1)) (compareLex (compareOn (·.parts.2.1))
      (compareLex (compareOn (·.parts.2.2.1)) (compareOn (·.parts.2.2.2)))) := by
  funext a b
  cases a with
  | numeric zeros value =>
    cases b with
    | numeric zeros' value' =>
      simp [Identifier.compare, compareLex, compareOn, parts, Std.ReflCmp.compare_self]
    | alphanumeric text => rfl
  | alphanumeric text =>
    cases b with
    | numeric zeros value => rfl
    | alphanumeric text' =>
      simp [Identifier.compare, compareLex, compareOn, parts, Std.ReflCmp.compare_self]

instance : Std.TransCmp Identifier.compare := by
  rw [compare_eq_parts]
  infer_instance

theorem compareLists_eq : compareLists = List.compareLex Identifier.compare := by
  funext is js
  induction is generalizing js with
  | nil => cases js <;> rfl
  | cons i rest ih =>
    cases js with
    | nil => rfl
    | cons j rest' =>
      rw [compareLists, ih, List.compareLex_cons_cons]

instance : Std.TransCmp compareLists := by
  rw [compareLists_eq]
  infer_instance

/-- A list without identifiers comes last, otherwise lists are compared as such. -/
theorem comparePre_eq :
    comparePre = compareLex (compareOn List.isEmpty) compareLists := by
  funext is js
  cases is <;> cases js <;> rfl

instance : Std.TransCmp comparePre := by
  rw [comparePre_eq]
  infer_instance

end Identifier

namespace Version

theorem compare_eq_parts : Version.compare =
    compareLex (compareOn major) (compareLex (compareOn minor) (compareLex (compareOn patch)
      (compareLex (fun v w => Identifier.comparePre v.pre w.pre)
        fun v w => Identifier.compareLists v.build w.build))) := rfl

instance : Std.TransCmp Version.compare := by
  have pre := transCmp_on Identifier.comparePre Version.pre
  have build := transCmp_on Identifier.compareLists Version.build
  rw [compare_eq_parts]
  infer_instance

theorem before_self (v : Version) : v.before v = false := by
  have same : v.compare v = .eq := Std.ReflCmp.compare_self
  rw [before, same]
  rfl

variable {a b c : Version}

theorem before_trans (hab : a.before b) (hbc : b.before c) : a.before c := by
  simp only [before, beq_iff_eq] at hab hbc ⊢
  exact Std.TransCmp.lt_trans hab hbc

/-- What comes before something comes before all that does not come before it. -/
theorem before_of_not_before (hab : a.before b) (hcb : ¬c.before b) : a.before c := by
  simp only [before, beq_iff_eq] at hab hcb ⊢
  have le : (b.compare c).isLE := by
    rw [Ordering.isLE_iff_ne_gt]
    intro gt
    exact hcb (Std.OrientedCmp.gt_iff_lt.mp gt)
  exact Std.TransCmp.lt_of_lt_of_isLE hab le

end Version

end Provisioning
