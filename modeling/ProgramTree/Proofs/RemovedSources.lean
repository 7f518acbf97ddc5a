import ProgramTree.Proofs.BuiltPrograms

namespace ProgramTree

namespace Program

/-- The sources that declare the name are gone, and all others stand in their order. -/
structure Cleared (program : Program) (name : String) (after : Program) : Prop where
  sources_eq : after.sources = program.sources.filter (!·.declares name)
  get?_eq : after.get? name = none

variable {given : Node → Prop} {program : Program} {source : Node} {sources : List Node}

/-- What is removed under a name is the source that has it as its primary name. -/
theorem Keyed.sources_erase (hk : Keyed given program) (name : String) :
    (program.erase name).sources = program.sources.filter (·.primaryName? != some name) := by
  have hkeys : program.entries.filter (·.1 != name) =
      program.entries.filter ((·.primaryName? != some name) ∘ (·.2)) := by
    refine List.filter_congr fun entry he => ?_
    rw [Function.comp_apply, (hk.stored entry he).2.2]
    rfl
  rw [Program.sources, Program.sources, List.filter_map, ← hkeys, Program.erase]

theorem Keyed.get?_eq_none_iff (hk : Keyed given program) {name : String} :
    program.get? name = none ↔ ∀ source ∈ program.sources, source.declares name = false := by
  rw [hk.get?_eq, Option.or_eq_none_iff, List.find?_eq_none, List.find?_eq_none]
  constructor
  · rintro ⟨-, h⟩ source hs
    simpa using h source hs
  · intro h
    refine ⟨fun source hs => ?_, fun source hs => ?_⟩
    · simp [primaryName?_ne_of_not_declares (h source hs)]
    · simp [h source hs]

/-- A name is cleared by removing it exactly when it is the primary name wherever it is declared. -/
theorem Keyed.cleared_erase_iff (hk : Keyed given program) (name : String) :
    program.Cleared name (program.erase name) ↔
      ∀ source ∈ program.sources, source.declares name = true →
        source.primaryName? = some name := by
  have herase := hk.sources_erase name
  constructor
  · rintro ⟨-, hnone⟩ source hs hd
    by_contra hprimary
    -- It is stored under another name, so it stays and is found by the search of all names.
    have hkept : source ∈ (program.erase name).sources := by
      rw [herase]
      exact List.mem_filter.mpr ⟨hs, by simpa using hprimary⟩
    have hfalse := (hk.erase name).get?_eq_none_iff.mp hnone source hkept
    rw [hd] at hfalse
    cases hfalse
  · intro h
    have hsources : (program.erase name).sources =
        program.sources.filter (!·.declares name) := by
      rw [herase]
      refine List.filter_congr fun source hs => ?_
      cases hd : source.declares name with
      | true => simp [h source hs hd]
      | false => simp [bne, primaryName?_ne_of_not_declares hd]
    refine ⟨hsources, (hk.erase name).get?_eq_none_iff.mpr fun source hs => ?_⟩
    rw [hsources] at hs
    simpa using (List.mem_filter.mp hs).2

/-- Sources that do not declare the name stay. -/
theorem Keyed.filter_sources_erase (hk : Keyed given program) (name : String) :
    (program.erase name).sources.filter (!·.declares name) =
      program.sources.filter (!·.declares name) := by
  rw [hk.sources_erase, List.filter_filter]
  refine List.filter_congr fun source _ => ?_
  cases hd : source.declares name with
  | true => rfl
  | false => simp [bne, primaryName?_ne_of_not_declares hd]

/-- A second name removes nothing when names are apart. -/
theorem NamesApart.erase_eq (hk : Keyed given program) (ha : program.NamesApart) {name : String}
    (hs : source ∈ program.sources) (hd : source.declares name = true)
    (hp : source.primaryName? ≠ some name) : program.erase name = program := by
  refine (hk.erase name).ext hk ?_
  rw [hk.sources_erase, List.filter_eq_self]
  intro other ho
  rw [bne_iff_ne]
  intro hother
  obtain ⟨i, hi⟩ := List.mem_iff_getElem?.mp hs
  obtain ⟨j, hj⟩ := List.mem_iff_getElem?.mp ho
  have hsame := ha.index_eq hi hj hd (declares_of_primaryName? hother)
  rw [hsame, hj] at hi
  cases hi
  exact hp hother

/-- Removing a name keeps the sources that do not declare it. The one that declares it goes when it
is its primary name; under any other of its names it stays, and is still found. -/
theorem ofSources_erase (h : ofSources sources = .ok program) (name : String) :
    (program.Cleared name (program.erase name) ↔
      ∀ source ∈ sources, source.declares name = true → source.primaryName? = some name) ∧
    (program.erase name).sources.filter (!·.declares name) =
      sources.filter (!·.declares name) ∧
    ∀ source ∈ sources, source.declares name = true → source.primaryName? ≠ some name →
      program.erase name = program ∧ (program.erase name).get? name = some source := by
  obtain ⟨hk, hs, -⟩ := ofSources_ok h
  have ha := namesApart_ofSources h
  subst hs
  refine ⟨hk.cleared_erase_iff name, hk.filter_sources_erase name, fun source hs hd hp => ?_⟩
  have herase := ha.erase_eq hk hs hd hp
  rw [herase]
  exact ⟨rfl, ((ha.holds hk).get?_iff name source).mpr ⟨hs, hd⟩⟩

theorem ofSources_closedAndLending :
    Program.ofSources [closedSource, lendingSource] =
      .ok ⟨[("a", closedSource), ("e", lendingSource)]⟩ := rfl

/-- Of two sources one goes under its only name, and the other one stays under its second name. -/
theorem ofSources_erase_closedAndLending :
    Program.ofSources [closedSource, lendingSource] =
        .ok ⟨[("a", closedSource), ("e", lendingSource)]⟩ ∧
      Cleared ⟨[("a", closedSource), ("e", lendingSource)]⟩ "a" ⟨[("e", lendingSource)]⟩ ∧
      lendingSource.declares "x" = true ∧ lendingSource.primaryName? ≠ some "x" ∧
      Program.erase ⟨[("a", closedSource), ("e", lendingSource)]⟩ "x" =
        ⟨[("a", closedSource), ("e", lendingSource)]⟩ := by
  have hprimary : ∀ source ∈ [closedSource, lendingSource], source.declares "a" = true →
      source.primaryName? = some "a" := by decide
  have hdeclares : lendingSource.declares "x" = true := rfl
  have hsecond : lendingSource.primaryName? ≠ some "x" := by decide
  have ha := (ofSources_erase ofSources_closedAndLending "a").1.mpr hprimary
  have hx := (ofSources_erase ofSources_closedAndLending "x").2.2 lendingSource (by simp)
    hdeclares hsecond
  exact ⟨ofSources_closedAndLending, ha, hdeclares, hsecond, hx.1⟩

/-- A source that is found under its second name is not removed under it. -/
theorem not_cleared_lendingSource :
    Program.ofSources [lendingSource] = .ok ⟨[("e", lendingSource)]⟩ ∧
      lendingSource.declares "x" = true ∧
      (Program.erase ⟨[("e", lendingSource)]⟩ "x").get? "x" = some lendingSource ∧
      ¬ Cleared ⟨[("e", lendingSource)]⟩ "x" (Program.erase ⟨[("e", lendingSource)]⟩ "x") := by
  have hfound : (Program.erase ⟨[("e", lendingSource)]⟩ "x").get? "x" = some lendingSource := rfl
  refine ⟨rfl, rfl, hfound, fun h => ?_⟩
  rw [h.get?_eq] at hfound
  cases hfound

end Program

end ProgramTree
