import Mathlib.Logic.Equiv.Basic
import ProgramTree.Proofs.Relabelling
import ProgramTree.Proofs.ReportedCircles
import ProgramTree.Proofs.TranslatedCycles

namespace ProgramTree

/-- The same program with its sources relabelled, each stored under the new name. -/
def Program.relabel (change : Relabelling) (program : Program) : Program :=
  ⟨program.entries.map fun (name, source) => (change.name name, source.relabel change)⟩

variable {change : Relabelling} {program : Program}

theorem Globals.definition?_relabel (hc : Function.Injective change.name)
    (hp : ∀ source ∈ program.sources, source.WellFormed) (name : String) :
    (ofProgram (program.relabel change)).definition? (change.name name) =
      ((ofProgram program).definition? name).map (·.relabel change) :=
  (change.translation hc).definition? hp name

namespace Program

theorem entries_relabel (change : Relabelling) (program : Program) :
    (program.relabel change).entries =
      program.entries.map fun (name, source) => (change.name name, source.relabel change) :=
  rfl

theorem sources_relabel (change : Relabelling) (program : Program) :
    (program.relabel change).sources = program.sources.map (·.relabel change) :=
  sources_translate change.name (·.relabel change) program

theorem indexOf?_relabel (hc : Function.Injective change.name)
    (hp : ∀ source ∈ program.sources, source.WellFormed) (name : String) :
    (program.relabel change).indexOf? (change.name name) = program.indexOf? name :=
  (change.translation hc).indexOf? hp name

theorem get?_relabel (hc : Function.Injective change.name)
    (hp : ∀ source ∈ program.sources, source.WellFormed) (name : String) :
    (program.relabel change).get? (change.name name) =
      (program.get? name).map (·.relabel change) :=
  (change.translation hc).get? hp name

/-- The relabelled program is made of the relabelled sources as the program was of its own. -/
theorem Reachable.relabel (hc : Function.Injective change.name)
    (hr : program.Reachable Node.WellFormed) :
    (program.relabel change).Reachable Node.WellFormed :=
  hr.translate hc (fun _ h => (change.translation hc).renamed h) fun _ h => h.relabel change

theorem conflicts_analyze_relabel (hc : Function.Injective change.name)
    (hp : ∀ source ∈ program.sources, source.WellFormed) :
    (program.relabel change).analyze.conflicts =
      program.analyze.conflicts.map (.map (·.relabel change)) :=
  (change.translation hc).conflicts_analyze hp

/-- Analysis compares names and does nothing else with them. Where different names stay different,
the renamed program is a program, a lookup by a new name finds what the old name finds, and the
conflicts are those of the program, renamed, in the same order. -/
theorem analysis_of_renamed (hr : program.Reachable Node.WellFormed)
    (hc : Function.Injective change.name) :
    (program.relabel change).Reachable Node.WellFormed ∧
    (∀ name,
      (program.relabel change).indexOf? (change.name name) = program.indexOf? name ∧
      (program.relabel change).get? (change.name name) =
        (program.get? name).map (·.relabel change) ∧
      (Globals.ofProgram (program.relabel change)).definition? (change.name name) =
        ((Globals.ofProgram program).definition? name).map (·.relabel change)) ∧
    (program.relabel change).analyze.conflicts =
      program.analyze.conflicts.map (.map (·.relabel change)) := by
  have hp : ∀ source ∈ program.sources, source.WellFormed :=
    fun _ hs => (hr.keyed.mem_sources hs).1
  refine ⟨hr.relabel hc, fun name => ⟨?_, ?_, ?_⟩, conflicts_analyze_relabel hc hp⟩
  · exact indexOf?_relabel hc hp name
  · exact get?_relabel hc hp name
  · exact Globals.definition?_relabel hc hp name

/-- The names of the two sources of `sharing` change places. -/
def exchanging : Relabelling :=
  ⟨(· + 1), Equiv.swap "a" "b"⟩

theorem wellFormed_sharing : sharing.Reachable Node.WellFormed := by
  have h : ofSources sharing.sources = .ok sharing := rfl
  refine .ofSources (fun source hs => ?_) h
  rcases List.mem_pair.mp hs with rfl | rfl <;> decide +kernel

theorem analysis_of_renamed_sharing :
    sharing.Reachable Node.WellFormed ∧ Function.Injective exchanging.name ∧
    (sharing.relabel exchanging).indexOf? (exchanging.name "a") = sharing.indexOf? "a" ∧
    (sharing.relabel exchanging).analyze.conflicts =
      sharing.analyze.conflicts.map (.map (·.relabel exchanging)) := by
  have hc : Function.Injective exchanging.name := (Equiv.swap "a" "b").injective
  have h := analysis_of_renamed wellFormed_sharing hc
  exact ⟨wellFormed_sharing, hc, (h.2.1 "a").1, h.2.2⟩

end Program

end ProgramTree
