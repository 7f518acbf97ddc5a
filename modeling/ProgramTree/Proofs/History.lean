import ProgramTree.Proofs.Occurrences

namespace ProgramTree

/-- The nodes made so far, the latest first. Each node draws the next number and holds only nodes
made before it. -/
inductive History : Nat → List Node → Prop
  | start : History 0 []
  | construct {next : Nat} {nodes : List Node} {node : Node} (h : History next nodes)
      (hid : node.id = next) (hc : ∀ child ∈ node.children, child ∈ nodes) :
      History (next + 1) (node :: nodes)

namespace History

variable {next : Nat} {nodes : List Node}

theorem id_lt (h : History next nodes) {node : Node} (hn : node ∈ nodes) : node.id < next := by
  induction h with
  | start => simp at hn
  | construct _ hid _ ih =>
    rcases List.mem_cons.mp hn with rfl | hn
    · omega
    · exact Nat.lt_succ_of_lt (ih hn)

theorem mem_of_mem_children (h : History next nodes) {node child : Node} (hn : node ∈ nodes)
    (hc : child ∈ node.children) : child ∈ nodes := by
  induction h with
  | start => simp at hn
  | construct _ _ hchildren ih =>
    rcases List.mem_cons.mp hn with rfl | hn
    · exact List.mem_cons_of_mem _ (hchildren child hc)
    · exact List.mem_cons_of_mem _ (ih hn)

theorem mem_of_mem_descendants (h : History next nodes) {root node : Node} (hr : root ∈ nodes)
    (hn : node ∈ root.descendants) : node ∈ nodes := by
  induction root using Node.induction_children with
  | step root ih =>
    rcases Node.mem_descendants.mp hn with rfl | ⟨child, hc, hd⟩
    · exact hr
    · exact ih child hc (h.mem_of_mem_children hr hc) hd

theorem id_lt_of_mem_children (h : History next nodes) {node child : Node} (hn : node ∈ nodes)
    (hc : child ∈ node.children) : child.id < node.id := by
  induction h with
  | start => simp at hn
  | construct hbefore hid hchildren ih =>
    rcases List.mem_cons.mp hn with rfl | hn
    · have hlt := hbefore.id_lt (hchildren child hc)
      omega
    · exact ih hn

theorem id_le_of_mem_descendants (h : History next nodes) {root node : Node} (hr : root ∈ nodes)
    (hn : node ∈ root.descendants) : node.id ≤ root.id := by
  induction root using Node.induction_children with
  | step root ih =>
    rcases Node.mem_descendants.mp hn with rfl | ⟨child, hc, hd⟩
    · exact Nat.le_refl _
    · have hlt := h.id_lt_of_mem_children hr hc
      exact Nat.le_trans (ih child hc (h.mem_of_mem_children hr hc) hd) (Nat.le_of_lt hlt)

/-- Two handles of one number denote one node. -/
theorem eq_of_id_eq (h : History next nodes) {a b : Node} (ha : a ∈ nodes) (hb : b ∈ nodes)
    (he : a.id = b.id) : a = b := by
  induction h with
  | start => simp at ha
  | construct hbefore hid _ ih =>
    rcases List.mem_cons.mp ha with hae | ha'
    · rcases List.mem_cons.mp hb with hbe | hb'
      · rw [hae, hbe]
      · have hlt := hbefore.id_lt hb'
        rw [hae] at he
        omega
    · rcases List.mem_cons.mp hb with hbe | hb'
      · have hlt := hbefore.id_lt ha'
        rw [hbe] at he
        omega
      · exact ih ha' hb'

/-- A node with a number that was not drawn yet is none of the nodes made so far. -/
theorem same_eq_false_of_le (h : History next nodes) {node made : Node} (hn : node ∈ nodes)
    (hm : next ≤ made.id) : made.same node = false := by
  have hlt := h.id_lt hn
  have hne : made.id ≠ node.id := by omega
  simpa [Node.same] using hne

end History

end ProgramTree
