import ProgramTree.Proofs.SourceOrder

namespace ProgramTree

/-- No name is declared by both nodes. -/
def Node.Apart (a b : Node) : Prop :=
  ∀ name, a.declares name = true → b.declares name = false

theorem Node.Apart.symm {a b : Node} (h : a.Apart b) : b.Apart a := by
  intro name hb
  by_contra ha
  have hn : b.declares name = false := h name (by simpa using ha)
  simp [hn] at hb

theorem Node.Apart.not_declares {a b : Node} (h : a.Apart b) {name : String}
    (ha : a.declares name = true) : ¬ b.declares name = true := by
  rw [h name ha]
  exact Bool.false_ne_true

namespace Program

/-- No name is declared by two sources. -/
def NamesApart (program : Program) : Prop :=
  program.sources.Pairwise Node.Apart

/-- The source shares no name with the other sources. The one that it would replace is not asked. -/
def Spares (program : Program) (source : Node) : Prop :=
  ∀ other ∈ program.sources, other.primaryName? ≠ source.primaryName? → source.Apart other

/-- The programs made by steps in which no added source takes a name of another one. -/
inductive Guarded : Program → Prop
  | ofSources {sources : List Node} {program : Program} (h : ofSources sources = .ok program) :
      Guarded program
  | insert {program after : Program} {source : Node} (hr : Guarded program)
      (hs : program.Spares source) (h : program.insert source = .ok after) : Guarded after
  | erase {program : Program} (hr : Guarded program) (name : String) : Guarded (program.erase name)

variable {given : Node → Prop} {program after : Program} {source : Node} {sources : List Node}

theorem Guarded.reachable (h : Guarded program) : program.Reachable fun _ => True := by
  induction h with
  | ofSources h => exact .ofSources (fun _ _ => trivial) h
  | insert _ _ h ih => exact .insert ih trivial h
  | erase _ name ih => exact .erase ih name

theorem namesApart_iff_entries :
    program.NamesApart ↔ program.entries.Pairwise fun a b => a.2.Apart b.2 :=
  List.pairwise_map

theorem NamesApart.erase (h : program.NamesApart) (name : String) :
    (program.erase name).NamesApart := by
  rw [namesApart_iff_entries] at h ⊢
  exact h.sublist List.filter_sublist

theorem NamesApart.insert (hk : Keyed given program) (ha : program.NamesApart)
    (hs : program.Spares source) (h : program.insert source = .ok after) : after.NamesApart := by
  obtain ⟨name, -, hname, ⟨-, he⟩ | ⟨hnew, he⟩⟩ := insert_ok h
  all_goals
    have hother : ∀ entry ∈ program.entries, entry.1 ≠ name → source.Apart entry.2 := by
      intro entry hm hne
      have hprimary := (hk.stored entry hm).2.2
      refine hs entry.2 (List.mem_map_of_mem hm) fun heq => hne ?_
      rw [hprimary, hname] at heq
      exact Option.some.inj heq
    rw [namesApart_iff_entries] at ha ⊢
    rw [he]
  · have hkeys : program.entries.Pairwise fun a b => a.1 ≠ b.1 := List.pairwise_map.mp hk.nodup
    rw [List.pairwise_map]
    refine (ha.and hkeys).imp_of_mem ?_
    rintro a b hma hmb ⟨hab, hne⟩
    by_cases hea : a.1 = name
    · have heb : b.1 ≠ name := fun heb => hne (hea.trans heb.symm)
      simpa [hea, heb] using hother b hmb heb
    · by_cases heb : b.1 = name
      · simpa [hea, heb] using (hother a hma hea).symm
      · simpa [hea, heb] using hab
  · rw [List.pairwise_append]
    refine ⟨ha, List.pairwise_singleton _ _, fun entry hm added hadded => ?_⟩
    cases List.mem_singleton.mp hadded
    exact (hother entry hm (hnew entry hm)).symm

/-- None of the names of a source is taken when it shares no name with the sources there are. -/
theorem find?_taken_eq_none_iff (hk : Keyed given program) :
    (source.declaredNames.find? fun name => (program.indexOf? name).isSome) = none ↔
      ∀ other ∈ program.sources, source.Apart other := by
  simp only [List.find?_eq_none, isSome_indexOf? hk, not_exists, not_and, Bool.not_eq_true]
  constructor
  · intro h other ho name hd
    exact h name (List.contains_iff_mem.mp hd) other ho
  · intro h name hm other ho
    exact h other ho name (List.contains_iff_mem.mpr hm)

/-- Adding a source refuses every name that is declared already. -/
theorem add_eq_ok_iff (hk : Keyed given program) :
    program.add source = .ok after ↔
      (∀ other ∈ program.sources, source.Apart other) ∧ program.insert source = .ok after := by
  rw [← find?_taken_eq_none_iff hk]
  unfold Program.add
  split
  next name hfound => simp [hfound]
  next hfound => simp [hfound]

theorem NamesApart.add (hk : Keyed given program) (ha : program.NamesApart)
    (h : program.add source = .ok after) : after.NamesApart := by
  obtain ⟨hapart, hi⟩ := (add_eq_ok_iff hk).mp h
  exact ha.insert hk (fun other ho _ => hapart other ho) hi

theorem namesApart_ofSources {sources : List Node} (h : ofSources sources = .ok program) :
    program.NamesApart := by
  have hrun := foldlM_ok_induction
    (motive := fun _ before => Keyed (fun _ => True) before ∧ before.NamesApart)
    ⟨.empty, .nil⟩ (fun _ before source next ih ha => ⟨ih.1.add trivial ha, ih.2.add ih.1 ha⟩) h
  exact hrun.2

/-- A source of new names comes last. -/
theorem insert_of_apart (hk : Keyed given program) (hkind : source.kind = .source) {name : String}
    (hname : source.primaryName? = some name)
    (ha : ∀ other ∈ program.sources, source.Apart other) :
    program.insert source = .ok ⟨program.entries ++ [(name, source)]⟩ := by
  have hnew : program.entries.any (·.1 == name) = false := by
    rw [List.any_eq_false]
    intro entry he heq
    have hprimary : entry.2.primaryName? = some name := by
      rw [(hk.stored entry he).2.2, beq_iff_eq.mp heq]
    have happart := ha entry.2 (List.mem_map_of_mem he)
    exact happart.not_declares (declares_of_primaryName? hname) (declares_of_primaryName? hprimary)
  simp [Program.insert, hkind, hname, hnew]

theorem Keyed.sources_add (hk : Keyed given program) (h : program.add source = .ok after) :
    after.sources = program.sources ++ [source] := by
  obtain ⟨hapart, hi⟩ := (add_eq_ok_iff hk).mp h
  obtain ⟨name, hkind, hname, -⟩ := insert_ok hi
  cases hi.symm.trans (insert_of_apart hk hkind hname hapart)
  simp [Program.sources]

theorem sources_ofSources (h : ofSources sources = .ok program) : program.sources = sources := by
  have hrun := foldlM_ok_induction
    (motive := fun done before => Keyed (fun _ => True) before ∧ before.sources = done)
    ⟨.empty, rfl⟩ (fun done before source next ih ha => ⟨ih.1.add trivial ha, ?_⟩) h
  · exact hrun.2
  · rw [ih.1.sources_add ha, ih.2]

/-- Sources that share no names make a program. -/
theorem exists_ofSources (hp : ∀ source ∈ sources, ∃ name, source.primaryName? = some name)
    (hkind : ∀ source ∈ sources, source.kind = .source) (ha : sources.Pairwise Node.Apart) :
    ∃ program, ofSources sources = .ok program := by
  induction sources using List.reverseRecOn with
  | nil => exact ⟨.empty, rfl⟩
  | append_singleton before source ih =>
    have hlast : source ∈ before ++ [source] := by simp
    obtain ⟨hbefore, -, hcross⟩ := List.pairwise_append.mp ha
    obtain ⟨reached, hr⟩ := ih (fun other ho => hp other (List.mem_append_left _ ho))
      (fun other ho => hkind other (List.mem_append_left _ ho)) hbefore
    have hk : Keyed (fun _ => True) reached := .ofSources (fun _ _ => trivial) hr
    have happart : ∀ other ∈ reached.sources, source.Apart other := by
      intro other ho
      rw [sources_ofSources hr] at ho
      exact (hcross other ho source (List.mem_singleton_self _)).symm
    obtain ⟨name, hname⟩ := hp source hlast
    have hadd := (add_eq_ok_iff hk).mpr
      ⟨happart, insert_of_apart hk (hkind source hlast) hname happart⟩
    refine ⟨⟨reached.entries ++ [(name, source)]⟩, ?_⟩
    rw [ofSources] at hr ⊢
    rw [List.foldlM_append, hr]
    exact (congrArg (· >>= pure) hadd).trans rfl

/-- A program can be made anew of its sources exactly when no two of them share a name. -/
theorem Keyed.ofSources_sources_iff (hk : Keyed given program) :
    Program.ofSources program.sources = .ok program ↔ program.NamesApart := by
  refine ⟨namesApart_ofSources, fun ha => ?_⟩
  obtain ⟨made, hm⟩ := exists_ofSources (fun source hs => (hk.mem_sources hs).2.2)
    (fun source hs => (hk.mem_sources hs).2.1) ha
  have hkeyed : Keyed (fun _ => True) made := .ofSources (fun _ _ => trivial) hm
  rw [hm, hkeyed.ext hk (sources_ofSources hm)]

theorem Guarded.namesApart (h : Guarded program) : program.NamesApart := by
  induction h with
  | ofSources h => exact namesApart_ofSources h
  | insert hr hs h ih => exact ih.insert hr.reachable.keyed hs h
  | erase _ name ih => exact ih.erase name

/-- As long as no added source takes a name of another one, no name is ever declared by two
sources, and the program can be made anew of its sources. -/
theorem Guarded.rebuilt (h : Guarded program) :
    program.NamesApart ∧ Program.ofSources program.sources = .ok program :=
  ⟨h.namesApart, h.reachable.keyed.ofSources_sources_iff.mpr h.namesApart⟩

/-- A caller is added to two structures, and one of these is taken away again. -/
theorem Guarded.rebuilt_closedCall :
    Guarded ⟨[("a", closedSource), ("c", callingSource)]⟩ ∧
      NamesApart ⟨[("a", closedSource), ("c", callingSource)]⟩ ∧
      Program.ofSources [closedSource, callingSource] =
        .ok ⟨[("a", closedSource), ("c", callingSource)]⟩ := by
  have hmade : Program.ofSources [closedSource, openSource] =
      .ok ⟨[("a", closedSource), ("b", openSource)]⟩ := rfl
  have hspares : Program.Spares ⟨[("a", closedSource), ("b", openSource)]⟩ callingSource := by
    intro other ho _ name hd
    have hcalling : callingSource.declaredNames = ["c"] := rfl
    have hclosed : closedSource.declaredNames = ["a"] := rfl
    have hopen : openSource.declaredNames = ["b"] := rfl
    simp only [sources, List.map_cons, List.map_nil, List.mem_cons, List.not_mem_nil,
      or_false] at ho
    rcases ho with rfl | rfl <;> simp_all [Node.declares]
  have hguarded : Guarded ⟨[("a", closedSource), ("c", callingSource)]⟩ :=
    .erase (.insert (.ofSources hmade) hspares rfl) "b"
  exact ⟨hguarded, hguarded.rebuilt⟩

/-- Replacing compares primary names only, so a source can be added whose second name is taken.
The program then has a source that it cannot be made of. -/
theorem not_namesApart_lenderFirst :
    lenderFirst.Reachable (Made contendingNodes) ∧ ¬ lenderFirst.NamesApart ∧
      Program.ofSources lenderFirst.sources = .error (.duplicateName "x") := by
  refine ⟨reachable_lenderFirst, fun h => ?_, rfl⟩
  have hapart : lendingSource.Apart borrowingSource := List.rel_of_pairwise_cons h (by simp)
  have hfalse := hapart "x" rfl
  cases hfalse

end Program

end ProgramTree
