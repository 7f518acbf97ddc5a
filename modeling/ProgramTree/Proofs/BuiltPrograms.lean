import ProgramTree.Proofs.NamesApart

namespace ProgramTree

/-- A run over a list fails with the first item that a step refuses. -/
theorem foldlM_eq_error_iff {ε α β : Type} {step : β → α → Except ε β} {start : β} {items : List α}
    {error : ε} :
    items.foldlM step start = .error error ↔ ∃ before item after reached,
      items = before ++ item :: after ∧ before.foldlM step start = .ok reached ∧
        step reached item = .error error := by
  constructor
  · intro h
    induction items generalizing start with
    | nil => cases h
    | cons item rest ih =>
      rw [List.foldlM_cons] at h
      cases hs : step start item with
      | error other =>
        rw [hs] at h
        cases h
        exact ⟨[], item, rest, start, rfl, rfl, hs⟩
      | ok next =>
        rw [hs] at h
        obtain ⟨before, refused, after, reached, rfl, hr, he⟩ := ih h
        refine ⟨item :: before, refused, after, reached, rfl, ?_, he⟩
        rw [List.foldlM_cons, hs]
        exact hr
  · rintro ⟨before, item, after, reached, rfl, hr, he⟩
    rw [List.foldlM_append, hr]
    change (item :: after).foldlM step reached = _
    rw [List.foldlM_cons, he]
    rfl

namespace Program

/-- Why a node cannot be added after some sources: the first of its names that one of them declares
counts, and if there is none, that it is no source. -/
inductive Offends (before : List Node) (source : Node) : ProgramError → Prop
  | duplicateName {front back : List String} {name : String}
      (hn : source.declaredNames = front ++ name :: back)
      (hf : ∀ other ∈ front, ∀ earlier ∈ before, earlier.declares other = false)
      (hd : ∃ earlier ∈ before, earlier.declares name = true) :
      Offends before source (.duplicateName name)
  | notASource (ha : ∀ earlier ∈ before, source.Apart earlier) (hk : source.kind ≠ .source) :
      Offends before source (.notASource source.kind)

/-- The program consists of the listed sources in their order, and finds each of them under all of
its names. -/
structure Holds (program : Program) (sources : List Node) : Prop where
  sources_eq : program.sources = sources
  indexOf?_iff : ∀ name index, program.indexOf? name = some index ↔
    ∃ source, sources[index]? = some source ∧ source.declares name = true
  get?_iff : ∀ name source, program.get? name = some source ↔
    source ∈ sources ∧ source.declares name = true

variable {given : Node → Prop} {program after : Program} {source : Node} {sources : List Node}
  {error : ProgramError}

/-- The index of a name is that of the source that declares it, as there is no other one. -/
theorem NamesApart.index_eq (ha : program.NamesApart) {name : String} {i j : Nat} {a b : Node}
    (hi : program.sources[i]? = some a) (hj : program.sources[j]? = some b)
    (hna : a.declares name = true) (hnb : b.declares name = true) : i = j := by
  obtain ⟨hli, rfl⟩ := List.getElem?_eq_some_iff.mp hi
  obtain ⟨hlj, rfl⟩ := List.getElem?_eq_some_iff.mp hj
  have hpairs := List.pairwise_iff_getElem.mp ha
  rcases Nat.lt_trichotomy i j with hlt | rfl | hlt
  · exact ((hpairs i j hli hlj hlt).not_declares hna hnb).elim
  · rfl
  · exact ((hpairs j i hlj hli hlt).not_declares hnb hna).elim

theorem NamesApart.indexOf?_iff (hk : Keyed given program) (ha : program.NamesApart)
    (name : String) (index : Nat) : program.indexOf? name = some index ↔
      ∃ source, program.sources[index]? = some source ∧ source.declares name = true := by
  rw [hk.indexOf?_eq_some_iff]
  constructor
  · rintro ⟨source, hs⟩
    exact ⟨source, hs.at_index, hs.declares⟩
  · rintro ⟨source, hat, hd⟩
    refine ⟨source, hat, hd, ?_⟩
    by_cases hp : source.primaryName? = some name
    · exact .inl hp
    · refine .inr ⟨fun other ho hother => ?_, fun before hlt other ho => ?_⟩
      · obtain ⟨position, hposition⟩ := List.mem_iff_getElem?.mp ho
        have hsame := ha.index_eq hposition hat (declares_of_primaryName? hother) hd
        rw [hsame, hat] at hposition
        cases hposition
        exact hp hother
      · by_contra hdeclares
        have hsame := ha.index_eq ho hat (by simpa using hdeclares) hd
        omega

theorem NamesApart.holds (hk : Keyed given program) (ha : program.NamesApart) :
    program.Holds program.sources where
  sources_eq := rfl
  indexOf?_iff := ha.indexOf?_iff hk
  get?_iff name source := by
    rw [get?, Option.bind_eq_some_iff]
    simp only [ha.indexOf?_iff hk]
    constructor
    · rintro ⟨index, ⟨other, ho, hd⟩, hs⟩
      cases ho.symm.trans hs
      exact ⟨List.mem_of_getElem? ho, hd⟩
    · rintro ⟨hs, hd⟩
      obtain ⟨index, hindex⟩ := List.mem_iff_getElem?.mp hs
      exact ⟨index, ⟨source, hindex, hd⟩, hindex⟩

theorem Offends.add_eq (hk : Keyed given program) (h : Offends program.sources source error) :
    program.add source = .error error := by
  unfold Program.add
  cases h with
  | @duplicateName front back name hn hf hd =>
    have hfront : ∀ other ∈ front, (!(program.indexOf? other).isSome) = true := by
      intro other ho
      rw [Bool.not_eq_true', ← Bool.not_eq_true, isSome_indexOf? hk]
      rintro ⟨earlier, hs, hdeclares⟩
      exact Bool.false_ne_true ((hf other ho earlier hs).symm.trans hdeclares)
    have htaken := (isSome_indexOf? hk name).mpr hd
    have hfound : (source.declaredNames.find? fun name => (program.indexOf? name).isSome) =
        some name :=
      List.find?_eq_some_iff_append.mpr ⟨htaken, front, back, hn, hfront⟩
    rw [hfound]
  | notASource ha hkind =>
    rw [(find?_taken_eq_none_iff hk).mpr ha]
    exact if_neg hkind

/-- A node is added as a source, or offends. -/
theorem Keyed.exists_add_or_offends (hk : Keyed given program)
    (hp : source.kind = .source → ∃ name, source.primaryName? = some name) :
    (∃ after, program.add source = .ok after) ∨ ∃ error, Offends program.sources source error := by
  cases hf : source.declaredNames.find? fun name => (program.indexOf? name).isSome with
  | some name =>
    obtain ⟨htaken, front, back, hn, hfront⟩ := List.find?_eq_some_iff_append.mp hf
    refine .inr ⟨_, .duplicateName hn (fun other ho earlier hs => ?_)
      ((isSome_indexOf? hk name).mp htaken)⟩
    by_contra hd
    have hother := (isSome_indexOf? hk other).mpr ⟨earlier, hs, by simpa using hd⟩
    simpa [hother] using hfront other ho
  | none =>
    have ha := (find?_taken_eq_none_iff hk).mp hf
    by_cases hkind : source.kind = .source
    · obtain ⟨name, hname⟩ := hp hkind
      exact .inl ⟨_, (add_eq_ok_iff hk).mpr ⟨ha, insert_of_apart hk hkind hname ha⟩⟩
    · exact .inr ⟨_, .notASource ha hkind⟩

theorem Keyed.add_eq_error_iff (hk : Keyed given program)
    (hp : source.kind = .source → ∃ name, source.primaryName? = some name) :
    program.add source = .error error ↔ Offends program.sources source error := by
  refine ⟨fun h => ?_, Offends.add_eq hk⟩
  rcases hk.exists_add_or_offends hp with ⟨after, ha⟩ | ⟨other, ho⟩
  · cases h.symm.trans ha
  · cases h.symm.trans (ho.add_eq hk)
    exact ho

theorem ofSources_ok (h : ofSources sources = .ok program) :
    Keyed (fun _ => True) program ∧ program.sources = sources ∧
      (∀ source ∈ sources, source.kind = .source) ∧ sources.Pairwise Node.Apart := by
  have hk : Keyed (fun _ => True) program := .ofSources (fun _ _ => trivial) h
  have hs := sources_ofSources h
  exact ⟨hk, hs, fun source hm => (hk.mem_sources (hs ▸ hm)).2.1, hs ▸ namesApart_ofSources h⟩

/-- The first node that offends says why there is no program. -/
theorem ofSources_eq_error_iff (hp : ∀ source ∈ sources, source.kind = .source →
      ∃ name, source.primaryName? = some name) :
    ofSources sources = .error error ↔ ∃ before source after,
      sources = before ++ source :: after ∧ (∀ other ∈ before, other.kind = .source) ∧
        before.Pairwise Node.Apart ∧ Offends before source error := by
  rw [ofSources, foldlM_eq_error_iff]
  constructor
  · rintro ⟨before, source, after, reached, rfl, hr, he⟩
    obtain ⟨hk, hs, hkind, ha⟩ := ofSources_ok hr
    have ho := (hk.add_eq_error_iff (hp source (by simp))).mp he
    exact ⟨before, source, after, rfl, hkind, ha, hs ▸ ho⟩
  · rintro ⟨before, source, after, rfl, hkind, ha, ho⟩
    -- What comes before the node that offends makes a program of its own.
    obtain ⟨reached, hr⟩ := exists_ofSources
      (fun other hm => hp other (by simp [hm]) (hkind other hm)) hkind ha
    obtain ⟨hk, hs, -⟩ := ofSources_ok hr
    exact ⟨before, source, after, reached, rfl, hr, (hs ▸ ho).add_eq hk⟩

/-- A program can be made of sources of which no two declare the same name, and of no other nodes.
It holds them all. If it cannot be made, the first node that offends says why. -/
theorem ofSources_outcome (hw : ∀ source ∈ sources, source.WellFormed) :
    ((∃ program, ofSources sources = .ok program) ↔
      (∀ source ∈ sources, source.kind = .source) ∧ sources.Pairwise Node.Apart) ∧
    (∀ program, ofSources sources = .ok program → program.Holds sources) ∧
    (∀ error, ofSources sources = .error error ↔ ∃ before source after,
      sources = before ++ source :: after ∧ (∀ other ∈ before, other.kind = .source) ∧
        before.Pairwise Node.Apart ∧ Offends before source error) ∧
    ofSources sources ≠ .error .unnamed := by
  have hnamed : ∀ source ∈ sources, source.kind = .source →
      ∃ name, source.primaryName? = some name :=
    fun source hm hkind => (hw source hm).exists_primaryName? hkind
  refine ⟨⟨?_, ?_⟩, fun program h => ?_, fun error => ofSources_eq_error_iff hnamed, fun h => ?_⟩
  · rintro ⟨program, h⟩
    exact (ofSources_ok h).2.2
  · rintro ⟨hkind, ha⟩
    exact exists_ofSources (fun source hm => hnamed source hm (hkind source hm)) hkind ha
  · obtain ⟨hk, hs, -⟩ := ofSources_ok h
    exact hs ▸ (namesApart_ofSources h).holds hk
  · obtain ⟨before, source, after, -, -, -, ho⟩ := (ofSources_eq_error_iff hnamed).mp h
    cases ho

/-- Of three sources the last has a second name that the one before it has too, so the first two
make a program, and with the third there is none. -/
theorem ofSources_outcome_lendingSource :
    (∀ source ∈ [closedSource, lendingSource, borrowingSource], source.WellFormed) ∧
      (∃ program, ofSources [closedSource, lendingSource] = .ok program ∧
        program.Holds [closedSource, lendingSource]) ∧
      ofSources [closedSource, lendingSource, borrowingSource] = .error (.duplicateName "x") := by
  have hw : ∀ source ∈ [closedSource, lendingSource, borrowingSource], source.WellFormed := by
    decide +kernel
  have hapart : [closedSource, lendingSource].Pairwise Node.Apart := by
    refine List.pairwise_pair.mpr fun name hd => ?_
    have hclosed : closedSource.declaredNames = ["a"] := rfl
    have hlending : lendingSource.declaredNames = ["e", "x"] := rfl
    simp_all [Node.declares]
  have hkind : ∀ source ∈ [closedSource, lendingSource], source.kind = .source := by decide
  have hfirst : ∀ source ∈ [closedSource, lendingSource], source.WellFormed :=
    fun source hs => hw source (List.mem_append_left [borrowingSource] hs)
  have hboth := ofSources_outcome hfirst
  obtain ⟨program, hp⟩ := hboth.1.mpr ⟨hkind, hapart⟩
  have hnames : borrowingSource.declaredNames = ["d"] ++ "x" :: [] := rfl
  have hoffends : Offends [closedSource, lendingSource] borrowingSource (.duplicateName "x") :=
    .duplicateName hnames (by decide) (by decide)
  exact ⟨hw, ⟨program, hp, hboth.2.1 program hp⟩, ((ofSources_outcome hw).2.2.1 _).mpr
    ⟨[closedSource, lendingSource], borrowingSource, [], rfl, hkind, hapart, hoffends⟩⟩

end Program

end ProgramTree
