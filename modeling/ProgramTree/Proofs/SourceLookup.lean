import Mathlib.Data.List.Induction
import Mathlib.Data.List.Nodup
import ProgramTree.Program

namespace ProgramTree

/-- What holds at the start and is kept by every step holds after a run that succeeds. It may tell
which items were taken up so far. -/
theorem foldlM_ok_induction {ε α β : Type} {step : β → α → Except ε β} {motive : List α → β → Prop}
    {start last : β} {items : List α} (hs : motive [] start)
    (hstep : ∀ done state item next, motive done state → step state item = .ok next →
      motive (done ++ [item]) next) (h : items.foldlM step start = .ok last) : motive items last := by
  induction items using List.reverseRecOn generalizing last with
  | nil =>
    cases h
    exact hs
  | append_singleton items item ih =>
    simp only [List.foldlM_append, List.foldlM_cons, List.foldlM_nil, bind_pure] at h
    cases hr : items.foldlM step start with
    | error error =>
      rw [hr] at h
      cases h
    | ok reached =>
      rw [hr] at h
      exact hstep items reached item last (ih hr) h

namespace Program

/-- The programs that can be made of given nodes. -/
inductive Reachable (given : Node → Prop) : Program → Prop
  | ofSources {sources : List Node} {program : Program} (hg : ∀ source ∈ sources, given source)
      (h : ofSources sources = .ok program) : Reachable given program
  | insert {program after : Program} {source : Node} (hr : Reachable given program)
      (hg : given source) (h : program.insert source = .ok after) : Reachable given after
  | erase {program : Program} (hr : Reachable given program) (name : String) :
      Reachable given (program.erase name)

/-- Each source is a given node of the kind, stored once under its primary name. -/
structure Keyed (given : Node → Prop) (program : Program) : Prop where
  stored : ∀ entry ∈ program.entries, given entry.2 ∧ entry.2.kind = .source ∧
    entry.2.primaryName? = some entry.1
  nodup : (program.entries.map (·.1)).Nodup

variable {given : Node → Prop} {program after : Program} {source : Node}

theorem Keyed.empty : Keyed given empty :=
  ⟨by simp [Program.empty], by simp [Program.empty]⟩

/-- A source that can be added has a primary name. It takes the place of the source stored under
that name, or comes last. -/
theorem insert_ok (h : program.insert source = .ok after) :
    ∃ name, source.kind = .source ∧ source.primaryName? = some name ∧
      ((program.entries.any (·.1 == name) = true ∧ after.entries = program.entries.map fun entry =>
          if entry.1 == name then (name, source) else entry) ∨
        ((∀ entry ∈ program.entries, entry.1 ≠ name) ∧
          after.entries = program.entries ++ [(name, source)])) := by
  unfold Program.insert at h
  split at h
  next hkind =>
    split at h
    next name hname =>
      refine ⟨name, hkind, hname, ?_⟩
      split at h
      next hany =>
        cases h
        exact .inl ⟨hany, rfl⟩
      next hany =>
        cases h
        have hnone : ∀ entry ∈ program.entries, entry.1 ≠ name := by
          intro entry he heq
          exact hany (List.any_eq_true.mpr ⟨entry, he, by simp [heq]⟩)
        exact .inr ⟨hnone, rfl⟩
    next => cases h
  next => cases h

theorem Keyed.insert (hk : Keyed given program) (hg : given source)
    (h : program.insert source = .ok after) : Keyed given after := by
  obtain ⟨name, hkind, hname, ⟨-, he⟩ | ⟨hnew, he⟩⟩ := insert_ok h
  · refine ⟨fun entry hm => ?_, ?_⟩
    · rw [he] at hm
      obtain ⟨old, ho, rfl⟩ := List.mem_map.mp hm
      split
      next => exact ⟨hg, hkind, hname⟩
      next => exact hk.stored old ho
    · have hkeys : after.entries.map (·.1) = program.entries.map (·.1) := by
        rw [he, List.map_map]
        refine List.map_congr_left fun entry _ => ?_
        by_cases hentry : entry.1 = name <;> simp [hentry]
      exact hkeys ▸ hk.nodup
  · refine ⟨fun entry hm => ?_, ?_⟩
    · rw [he] at hm
      rcases List.mem_append.mp hm with hm | hm
      · exact hk.stored entry hm
      · cases List.mem_singleton.mp hm
        exact ⟨hg, hkind, hname⟩
    · rw [he, List.map_append, List.nodup_append]
      refine ⟨hk.nodup, List.nodup_singleton _, ?_⟩
      rintro key hkey _ hadded rfl
      obtain ⟨entry, hm, rfl⟩ := List.mem_map.mp hkey
      cases List.mem_singleton.mp hadded
      exact hnew entry hm rfl

theorem Keyed.add (hk : Keyed given program) (hg : given source)
    (h : program.add source = .ok after) : Keyed given after := by
  unfold Program.add at h
  split at h
  next => cases h
  next => exact hk.insert hg h

theorem Keyed.erase (hk : Keyed given program) (name : String) :
    Keyed given (program.erase name) where
  stored entry he := hk.stored entry (List.mem_filter.mp he).1
  nodup := hk.nodup.sublist (List.filter_sublist.map _)

theorem Keyed.ofSources {sources : List Node} (hg : ∀ source ∈ sources, given source)
    (h : ofSources sources = .ok program) : Keyed given program := by
  have hrun := foldlM_ok_induction
    (motive := fun done before => (∀ source ∈ done, given source) → Keyed given before)
    (fun _ => .empty) (fun done before source next ih ha hdone => ?_) h
  · exact hrun hg
  · have hsource : given source := hdone source (by simp)
    exact (ih fun other ho => hdone other (by simp [ho])).add hsource ha

theorem Reachable.keyed (h : Reachable given program) : Keyed given program := by
  induction h with
  | ofSources hg h => exact .ofSources hg h
  | insert _ hg h ih => exact ih.insert hg h
  | erase _ name ih => exact ih.erase name

theorem Keyed.mem_sources (hk : Keyed given program) (hs : source ∈ program.sources) :
    given source ∧ source.kind = .source ∧ ∃ name, source.primaryName? = some name := by
  obtain ⟨entry, he, rfl⟩ := List.mem_map.mp hs
  obtain ⟨hg, hkind, hn⟩ := hk.stored entry he
  exact ⟨hg, hkind, entry.1, hn⟩

theorem Reachable.mono {wider : Node → Prop} (hw : ∀ node, given node → wider node)
    (hr : program.Reachable given) : program.Reachable wider := by
  induction hr with
  | ofSources hg h => exact .ofSources (fun source hs => hw source (hg source hs)) h
  | insert _ hg h ih => exact ih.insert (hw _ hg) h
  | erase _ name ih => exact ih.erase name

/-- The sources of a program tell the names under which they are stored. -/
theorem Keyed.entries_eq (hk : Keyed given program) :
    program.entries =
      program.sources.filterMap fun source => source.primaryName?.map (·, source) := by
  have hself : ∀ entry ∈ program.entries,
      ((fun source : Node => source.primaryName?.map (·, source)) ∘ (·.2)) entry = some entry := by
    intro entry he
    rw [Function.comp_apply, (hk.stored entry he).2.2, Option.map_some]
  rw [sources, List.filterMap_map, List.filterMap_congr hself, List.filterMap_some]

theorem Keyed.ext {others : Node → Prop} {other : Program} (hk : Keyed given program)
    (ho : Keyed others other) (h : program.sources = other.sources) : program = other := by
  have hentries : program.entries = other.entries := by rw [hk.entries_eq, ho.entries_eq, h]
  cases program
  cases other
  rw [mk.injEq]
  exact hentries

/-- The source at an index is the one that a name stands for: it declares the name, and either as
its primary name, or before all others when no source has the name as its primary name. -/
structure SourceNamed (program : Program) (name : String) (index : Nat) (source : Node) : Prop where
  at_index : program.sources[index]? = some source
  declares : source.declares name = true
  chosen : source.primaryName? = some name ∨
    (∀ other ∈ program.sources, other.primaryName? ≠ some name) ∧
      ∀ before < index, ∀ other, program.sources[before]? = some other →
        other.declares name = false

theorem declares_of_primaryName? {node : Node} {name : String}
    (h : node.primaryName? = some name) : node.declares name = true := by
  simpa [Node.declares] using List.mem_of_head? h

theorem primaryName?_ne_of_not_declares {node : Node} {name : String}
    (h : node.declares name = false) : (node.primaryName? == some name) = false := by
  rw [beq_eq_false_iff_ne]
  intro hname
  rw [declares_of_primaryName? hname] at h
  cases h

theorem indexOf?_lt {name : String} {index : Nat} (h : program.indexOf? name = some index) :
    index < program.sources.length := by
  rcases Option.or_eq_some_iff.mp h with h | ⟨_, h⟩
  · simpa [sources] using (List.findIdx?_eq_some_iff_getElem.mp h).1
  · exact (List.findIdx?_eq_some_iff_getElem.mp h).1

theorem Keyed.findIdx?_entries (hk : Keyed given program) (name : String) :
    program.entries.findIdx? (·.1 == name) =
      program.sources.findIdx? (·.primaryName? == some name) := by
  have hall := fun entry he => (hk.stored entry he).2.2
  rw [sources, List.findIdx?_map]
  generalize program.entries = entries at hall
  induction entries with
  | nil => rfl
  | cons entry rest ih =>
    rw [List.findIdx?_cons, List.findIdx?_cons, ih fun other ho =>
      hall other (List.mem_cons_of_mem _ ho)]
    simp [hall entry List.mem_cons_self]

theorem Keyed.get?_eq (hk : Keyed given program) (name : String) :
    program.get? name = (program.sources.find? (·.primaryName? == some name)).or
      (program.sources.find? (·.declares name)) := by
  rw [get?, indexOf?, hk.findIdx?_entries, List.find?_eq_bind_findIdx?_getElem?,
    List.find?_eq_bind_findIdx?_getElem?]
  cases hi : program.sources.findIdx? (·.primaryName? == some name) with
  | none => rfl
  | some index =>
    have hb := (List.findIdx?_eq_some_iff_getElem.mp hi).1
    simp [List.getElem?_eq_getElem hb]

theorem Keyed.index_unique (hk : Keyed given program) {name : String} {i j : Nat} {a b : Node}
    (hi : program.sources[i]? = some a) (hj : program.sources[j]? = some b)
    (ha : a.primaryName? = some name) (hb : b.primaryName? = some name) : i = j := by
  have hkey : ∀ {index : Nat} {source : Node}, program.sources[index]? = some source →
      source.primaryName? = some name → (program.entries.map (·.1))[index]? = some name := by
    intro index source hs hn
    rw [sources, List.getElem?_map] at hs
    obtain ⟨entry, he, rfl⟩ := Option.map_eq_some_iff.mp hs
    have hp := (hk.stored entry (List.mem_of_getElem? he)).2.2
    rw [List.getElem?_map, he, Option.map_some]
    exact congrArg some (Option.some.inj (hp.symm.trans hn))
  have hi' := hkey hi ha
  exact (List.getElem?_inj (List.getElem?_eq_some_iff.mp hi').1 hk.nodup).mp
    (hi'.trans (hkey hj hb).symm)

/-- Looking a name up finds the source that it stands for. -/
theorem Keyed.indexOf?_eq_some_iff (hk : Keyed given program) {name : String} {index : Nat} :
    program.indexOf? name = some index ↔ ∃ source, program.SourceNamed name index source := by
  rw [indexOf?, hk.findIdx?_entries, Option.or_eq_some_iff]
  constructor
  · rintro (h | ⟨hn, h⟩)
    · obtain ⟨hb, hp, _⟩ := List.findIdx?_eq_some_iff_getElem.mp h
      have hp : program.sources[index].primaryName? = some name := by simpa using hp
      exact ⟨_, List.getElem?_eq_getElem hb, declares_of_primaryName? hp, Or.inl hp⟩
    · obtain ⟨hb, hd, hf⟩ := List.findIdx?_eq_some_iff_getElem.mp h
      refine ⟨_, List.getElem?_eq_getElem hb, hd, Or.inr ⟨fun other ho => ?_, ?_⟩⟩
      · have hne := List.findIdx?_eq_none_iff.mp hn other ho
        simpa using hne
      · intro before hlt other ho
        obtain ⟨hb', rfl⟩ := List.getElem?_eq_some_iff.mp ho
        simpa using hf before hlt
  · rintro ⟨source, hat, hd, hc⟩
    obtain ⟨hb, rfl⟩ := List.getElem?_eq_some_iff.mp hat
    rcases hc with hp | ⟨hn, hf⟩
    · left
      have hsome : (program.sources.findIdx? (·.primaryName? == some name)).isSome = true := by
        rw [List.findIdx?_isSome, List.any_eq_true]
        exact ⟨_, List.getElem_mem hb, by simp [hp]⟩
      obtain ⟨first, hfirst⟩ := Option.isSome_iff_exists.mp hsome
      obtain ⟨hfb, hfp, _⟩ := List.findIdx?_eq_some_iff_getElem.mp hfirst
      have he := hk.index_unique (List.getElem?_eq_getElem hfb) hat (by simpa using hfp) hp
      exact he ▸ hfirst
    · right
      refine ⟨List.findIdx?_eq_none_iff.mpr fun other ho => by simpa using hn other ho,
        List.findIdx?_eq_some_iff_getElem.mpr ⟨hb, hd, fun before hlt => ?_⟩⟩
      have hbefore := hf before hlt _ (List.getElem?_eq_getElem (Nat.lt_trans hlt hb))
      simp [hbefore]

theorem isSome_indexOf? (hk : Keyed given program) (name : String) :
    (program.indexOf? name).isSome = true ↔
      ∃ source ∈ program.sources, source.declares name = true := by
  constructor
  · intro h
    obtain ⟨index, hi⟩ := Option.isSome_iff_exists.mp h
    obtain ⟨source, hs⟩ := hk.indexOf?_eq_some_iff.mp hi
    exact ⟨source, List.mem_of_getElem? hs.at_index, hs.declares⟩
  · rintro ⟨source, hs, hd⟩
    have hf : (program.sources.findIdx? (·.declares name)).isSome = true := by
      rw [List.findIdx?_isSome, List.any_eq_true]
      exact ⟨source, hs, hd⟩
    simp [indexOf?, hf]

end Program

end ProgramTree
