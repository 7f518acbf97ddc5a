import Mathlib.Data.List.Forall2
import ProgramTree.Proofs.Erasure
import ProgramTree.Proofs.Sessions

namespace ProgramTree

namespace Node

variable {a b : Node}

/-- The nodes at the places under a node. -/
def beneath (root : Node) : List Node :=
  root.children.flatMap descendants

theorem mem_beneath {root node : Node} :
    node ∈ root.beneath ↔ ∃ child ∈ root.children, node ∈ child.descendants :=
  List.mem_flatMap

/-- The number in 32 bits, which is how it is kept. While `id` counts the constructions without
end, this number starts over after 2^32 of them. -/
def serial (node : Node) : UInt32 :=
  UInt32.ofNat node.id

theorem serial_eq_iff (ha : a.id < UInt32.size) (hb : b.id < UInt32.size) :
    a.serial = b.serial ↔ a.id = b.id := by
  rw [serial, serial, ← UInt32.toNat_inj, UInt32.toNat_ofNat_of_lt' ha,
    UInt32.toNat_ofNat_of_lt' hb]

theorem serial_lt_iff (ha : a.id < UInt32.size) (hb : b.id < UInt32.size) :
    a.serial < b.serial ↔ a.id < b.id :=
  UInt32.ofNat_lt_iff_lt ha hb

/-- What the numbers of two nodes tell: they grow from every node to the node above it, they are
alike for one node only, and equality of content does not depend on them. -/
structure Identified (a b : Node) : Prop where
  serial_lt : ∀ node ∈ a.beneath, node.serial < a.serial
  not_inside : ∀ node ∈ a.beneath, node.same a = false
  eq_of_serial_eq : a.serial = b.serial → a = b
  same_iff : a.same b = true ↔ a.serial = b.serial
  equal_iff : (a == b) = true ↔ a.erase = b.erase

end Node

namespace History

variable {next : Nat} {nodes : List Node} {node a b : Node}

theorem id_lt_of_mem_beneath (h : History next nodes) (hn : node ∈ nodes)
    (hb : a ∈ node.beneath) : a.id < node.id := by
  obtain ⟨child, hc, hd⟩ := Node.mem_beneath.mp hb
  have hle := h.id_le_of_mem_descendants (h.mem_of_mem_children hn hc) hd
  exact Nat.lt_of_le_of_lt hle (h.id_lt_of_mem_children hn hc)

/-- Taking a node for equal to itself at once agrees with comparing the content. -/
theorem equal_iff_erase_eq (h : History next nodes) (ha : a ∈ nodes) (hb : b ∈ nodes) :
    a.equal b = true ↔ a.erase = b.erase := by
  refine ⟨fun he => ?_, Node.equal_of_erase_eq⟩
  induction a using Node.induction_children generalizing b with
  | step a ih =>
    rcases (Node.equal_iff a b).mp he with hid | ⟨hl, hc⟩
    · rw [h.eq_of_id_eq ha hb hid]
    · have hlen := Node.length_children_of_label_eq hl
      have hchildren : List.Forall₂ (fun c d : Node => c.erase = d.erase)
          a.children b.children := by
        refine List.forall₂_iff_zip.mpr ⟨hlen, fun {c d} hp => ?_⟩
        obtain ⟨hca, hdb⟩ := List.of_mem_zip hp
        exact ih c hca (h.mem_of_mem_children ha hca) (h.mem_of_mem_children hb hdb) (hc _ hp)
      have herase : List.Forall₂ (· = ·) (a.children.map Node.erase) (b.children.map Node.erase) :=
        List.forall₂_map_left_iff.mpr (List.forall₂_map_right_iff.mpr hchildren)
      rw [List.forall₂_eq_eq_eq] at herase
      exact Node.erase_eq_of_label_eq hl herase

theorem identified (h : History next nodes) (hn : next < UInt32.size) (ha : a ∈ nodes)
    (hb : b ∈ nodes) : a.Identified b := by
  have hbound : ∀ node ∈ nodes, node.id < UInt32.size := fun _ hm => Nat.lt_trans (h.id_lt hm) hn
  have hserial := Node.serial_eq_iff (hbound a ha) (hbound b hb)
  refine ⟨fun node hm => ?_, fun node hm => ?_, fun he => ?_, ?_, h.equal_iff_erase_eq ha hb⟩
  · have hlt := h.id_lt_of_mem_beneath ha hm
    exact (Node.serial_lt_iff (Nat.lt_trans hlt (hbound a ha)) (hbound a ha)).mpr hlt
  · have hlt := h.id_lt_of_mem_beneath ha hm
    exact beq_eq_false_iff_ne.mpr (Nat.ne_of_lt hlt)
  · exact h.eq_of_id_eq ha hb (hserial.mp he)
  · rw [hserial, Node.same, beq_iff_eq]

end History

namespace Session

variable {requests : List Request} {next : Nat} {held : List Node}

/-- The nodes that a session holds, and those in them, are among the well-formed nodes of one
history. -/
theorem exists_history (h : Session requests next held) :
    ∃ nodes, History next nodes ∧
      ∀ root ∈ held, ∀ node ∈ root.descendants, node ∈ nodes ∧ node.WellFormed := by
  have hmade : ∃ made, Ledger (fun _ _ => True) next made ∧ held ⊆ made :=
    h.exists_ledger (by simp)
  obtain ⟨made, hledger, hheld⟩ := hmade
  refine ⟨made, hledger.history, fun root hr node hn => ?_⟩
  have hm := hledger.history.mem_of_mem_descendants (hheld hr) hn
  exact ⟨hm, (hledger.lawful node hm).wellFormed⟩

/-- As long as a session has made fewer than 2^32 nodes, the number of a node tells it from every
other node that the session holds. -/
theorem identified_of_held (h : Session requests next held) (hn : next < UInt32.size)
    {first second a b : Node} (hf : first ∈ held) (hs : second ∈ held)
    (ha : a ∈ first.descendants) (hb : b ∈ second.descendants) : a.Identified b := by
  obtain ⟨nodes, history, hnodes⟩ := h.exists_history
  exact history.identified hn (hnodes first hf a ha).1 (hnodes second hs b hb).1

/-- The block that was given its braces once, and once more. -/
theorem identified_of_held_bracing :
    Session bracing 6 [rebracedBlock, bracedBlock, openBrace, bareBlock] ∧ 6 < UInt32.size ∧
      rebracedBlock.Identified bracedBlock :=
  ⟨session_bracing, by decide, identified_of_held session_bracing (by decide) (by simp)
    (by simp) rebracedBlock.mem_descendants_self bracedBlock.mem_descendants_self⟩

end Session

end ProgramTree
