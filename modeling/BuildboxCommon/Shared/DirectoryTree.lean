import BuildboxCommon.Shared.PathResolution

set_option autoImplicit false

namespace PathResolution.Graph

variable {ι α : Type} [DecidableEq α] (graph : Graph ι α)

structure IsTree (root : ι) : Prop where
  directory : graph.IsDirectory root
  finite : ∃ height, ∀ names node, graph.Descent root names node → graph.IsDirectory node → names.length ≤ height
  once : ∀ names others node, graph.Descent root names node → graph.Descent root others node →
    graph.IsDirectory node → names = others

def Beneath (root : ι) (place : List α) (node : ι) : Prop :=
  ∃ rest, graph.Descent root (place ++ rest) node ∧ graph.IsDirectory node

variable {graph} {root here node : ι} {place : List α} {name other : α}

theorem beneath_here (descent : graph.Descent root place here) (directory : graph.IsDirectory here) :
    graph.Beneath root place here :=
  ⟨[], by rwa [List.append_nil], directory⟩

theorem Beneath.above (beneath : graph.Beneath root (place ++ [name]) node) : graph.Beneath root place node := by
  obtain ⟨rest, descent, directory⟩ := beneath
  exact ⟨name :: rest, by simpa using descent, directory⟩

theorem Beneath.cases (descent : graph.Descent root place here) (beneath : graph.Beneath root place node) :
    node = here ∨ ∃ name next, graph.enter here (.down name) = .ok next ∧ graph.IsDirectory next ∧
      graph.Beneath root (place ++ [name]) node := by
  obtain ⟨rest, whole, directory⟩ := beneath
  obtain ⟨between, above, below⟩ := whole.split
  obtain rfl := descent.unique above
  cases below with
  | here => exact .inl rfl
  | @inside _ next _ name names entered below =>
    refine .inr ⟨name, next, entered, ?_, names, by simpa using whole, directory⟩
    cases below with
    | here => exact directory
    | inside entered => exact isDirectory_of_enter entered

section Empty

variable {parent : ι} (empty : graph.object root = .directory parent [])

include empty

theorem Descent.of_empty {names : List α} (descent : graph.Descent root names node) : names = [] ∧ node = root := by
  cases descent with
  | here => exact ⟨rfl, rfl⟩
  | inside entered => simp [enter, empty] at entered

theorem isTree_of_empty : graph.IsTree root where
  directory := ⟨parent, [], empty⟩
  finite := ⟨0, fun _ _ descent _ => by simp [(descent.of_empty empty).1]⟩
  once _ _ _ first second _ := (first.of_empty empty).1.trans (second.of_empty empty).1.symm

end Empty

namespace IsTree

variable (tree : graph.IsTree root)

include tree

theorem apart (differs : name ≠ other) (beneath : graph.Beneath root (place ++ [name]) node) :
    ¬graph.Beneath root (place ++ [other]) node := by
  rintro ⟨others, also, -⟩
  obtain ⟨rest, descent, directory⟩ := beneath
  have same := tree.once _ _ node descent also directory
  simp only [List.append_assoc, List.append_cancel_left_eq, List.singleton_append, List.cons.injEq] at same
  exact differs same.1

theorem not_beneath (descent : graph.Descent root place here) : ¬graph.Beneath root (place ++ [name]) here := by
  rintro ⟨rest, below, directory⟩
  have same := tree.once _ _ here below descent directory
  simp at same

end IsTree

end PathResolution.Graph
