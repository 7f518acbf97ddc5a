import ProgramTree.Proofs.SourceOrder

namespace ProgramTree

namespace Program

/-- The source stands where the source of the same primary name stood, or at the end when there was
none. All others stand as they stood. -/
inductive Placed (program : Program) (name : String) (source : Node) (after : Program) : Prop
  | inPlace {front back : List Node} {old : Node} (ho : old.primaryName? = some name)
      (hs : program.sources = front ++ old :: back) (ha : after.sources = front ++ source :: back)
      (hi : program.indexOf? name = some front.length)
      (hj : after.indexOf? name = some front.length) : Placed program name source after
  | atEnd (hn : ∀ other ∈ program.sources, other.primaryName? ≠ some name)
      (ha : after.sources = program.sources ++ [source])
      (hj : after.indexOf? name = some program.sources.length) : Placed program name source after

/-- The source is put into the program under its name. Names that neither it nor the source in
whose place it comes declares stand for what they stood for. -/
structure Updated (program : Program) (name : String) (source : Node) (after : Program) :
    Prop where
  placed : program.Placed name source after
  found : after.get? name = some source
  kept : ∀ other, source.declares other = false →
    (∀ old ∈ program.sources, old.primaryName? = some name → old.declares other = false) →
    after.indexOf? other = program.indexOf? other ∧ after.get? other = program.get? other

variable {given : Node → Prop} {program after : Program} {source : Node} {name other : String}

theorem exists_insert (program : Program) (hkind : source.kind = .source)
    (hname : source.primaryName? = some name) : ∃ after, program.insert source = .ok after := by
  unfold Program.insert
  rw [if_pos hkind, hname]
  dsimp only
  split
  next => exact ⟨_, rfl⟩
  next => exact ⟨_, rfl⟩

/-- An entry is the only one with its key, so exchanging by key leaves all others alone. -/
theorem Keyed.exists_exchanged (hk : Keyed given program)
    (hany : program.entries.any (·.1 == name) = true) (source : Node) :
    ∃ front old back, program.entries = front ++ (name, old) :: back ∧
      (program.entries.map fun entry => if entry.1 == name then (name, source) else entry) =
        front ++ (name, source) :: back := by
  obtain ⟨⟨key, old⟩, hm, hkey⟩ := List.any_eq_true.mp hany
  obtain rfl : key = name := beq_iff_eq.mp hkey
  obtain ⟨front, back, hentries⟩ := List.append_of_mem hm
  have hnodup := hk.nodup
  rw [hentries, List.map_append, List.map_cons, List.nodup_middle, List.nodup_cons,
    ← List.map_append] at hnodup
  -- A second entry with the key would be exchanged as well.
  have hself : ∀ part : List (String × Node), part ⊆ front ++ back →
      (part.map fun entry => if entry.1 == key then (key, source) else entry) = part := by
    intro part hpart
    refine (List.map_congr_left fun entry hentry => if_neg fun heq => hnodup.1 ?_).trans
      (List.map_id' part)
    exact List.mem_map.mpr ⟨entry, hpart hentry, beq_iff_eq.mp heq⟩
  refine ⟨front, old, back, hentries, ?_⟩
  rw [hentries, List.map_append, List.map_cons, if_pos hkey, hself front (by simp),
    hself back (by simp)]

theorem Keyed.indexOf?_of_primaryName? (hk : Keyed given program) {position : Nat}
    (hat : program.sources[position]? = some source) (hname : source.primaryName? = some name) :
    program.indexOf? name = some position :=
  hk.indexOf?_eq_some_iff.mpr ⟨source, hat, declares_of_primaryName? hname, .inl hname⟩

theorem Keyed.placed (hp : Keyed given program) (hq : Keyed given after)
    (h : program.insert source = .ok after) (hname : source.primaryName? = some name) :
    program.Placed name source after := by
  obtain ⟨key, -, hkey, ⟨hany, he⟩ | ⟨hnew, he⟩⟩ := insert_ok h
  all_goals cases hname.symm.trans hkey
  · obtain ⟨front, old, back, hentries, hexchanged⟩ := hp.exists_exchanged hany source
    have hold : old.primaryName? = some name := (hp.stored (name, old) (by simp [hentries])).2.2
    have hs : program.sources = front.map (·.2) ++ old :: back.map (·.2) := by
      rw [sources, hentries, List.map_append, List.map_cons]
    have ha : after.sources = front.map (·.2) ++ source :: back.map (·.2) := by
      rw [sources, he, hexchanged, List.map_append, List.map_cons]
    exact .inPlace hold hs ha (hp.indexOf?_of_primaryName? (by simp [hs]) hold)
      (hq.indexOf?_of_primaryName? (by simp [ha]) hname)
  · have ha : after.sources = program.sources ++ [source] := by
      rw [sources, he, List.map_append, ← sources]
      rfl
    refine .atEnd (fun other ho hother => ?_) ha
      (hq.indexOf?_of_primaryName? (by simp [ha]) hname)
    obtain ⟨entry, hentry, rfl⟩ := List.mem_map.mp ho
    have hstored := (hp.stored entry hentry).2.2
    exact hnew entry hentry (Option.some.inj (hstored.symm.trans hother))

/-- A search that passes over the new source and over the one that it replaces goes on as before. -/
theorem Placed.searches_eq {test : Node → Bool} (h : program.Placed name source after)
    (hs : test source = false)
    (ho : ∀ old ∈ program.sources, old.primaryName? = some name → test old = false) :
    after.sources.find? test = program.sources.find? test ∧
      after.sources.findIdx? test = program.sources.findIdx? test := by
  cases h with
  | @inPlace front back old hold hp ha =>
    have htest : test old = false := ho old (by simp [hp]) hold
    rw [hp, ha]
    simp [List.find?_append, List.findIdx?_append, List.findIdx?_cons, hs, htest]
  | atEnd hn ha =>
    rw [ha]
    simp [List.find?_append, List.findIdx?_append, hs]

theorem Placed.lookups_eq (h : program.Placed name source after) (hp : Keyed given program)
    (hq : Keyed given after) (hs : source.declares other = false)
    (ho : ∀ old ∈ program.sources, old.primaryName? = some name → old.declares other = false) :
    after.indexOf? other = program.indexOf? other ∧ after.get? other = program.get? other := by
  obtain ⟨hprimary, hprimaryIndex⟩ := h.searches_eq (primaryName?_ne_of_not_declares hs)
    fun old hm hold => primaryName?_ne_of_not_declares (ho old hm hold)
  obtain ⟨hdeclares, hdeclaresIndex⟩ := h.searches_eq hs ho
  refine ⟨?_, ?_⟩
  · rw [indexOf?, indexOf?, hp.findIdx?_entries, hq.findIdx?_entries, hprimaryIndex,
      hdeclaresIndex]
  · rw [hp.get?_eq, hq.get?_eq, hprimary, hdeclares]

theorem Keyed.updated (hk : Keyed given program) (hg : given source)
    (hname : source.primaryName? = some name) (h : program.insert source = .ok after) :
    program.Updated name source after := by
  have hq : Keyed given after := hk.insert hg h
  have hplaced : program.Placed name source after := hk.placed hq h hname
  refine ⟨hplaced, ?_, fun other hs ho => hplaced.lookups_eq hk hq hs ho⟩
  rw [get?]
  cases hplaced with
  | inPlace _ _ ha _ hj => simp [hj, ha]
  | atEnd _ ha hj => simp [hj, ha]

/-- Sources are stored once each under their own primary names. Putting in another one works for
every source, and changes what its own names and those of the source in its place stand for, and
nothing else. -/
theorem Reachable.insert_updated (hr : program.Reachable given) :
    Keyed given program ∧ ∀ source name, source.kind = .source →
      source.primaryName? = some name →
        ∃ after, program.insert source = .ok after ∧ program.Updated name source after := by
  refine ⟨hr.keyed, fun source name hkind hname => ?_⟩
  obtain ⟨after, h⟩ := exists_insert program hkind hname
  have hk := (hr.mono fun _ _ => trivial : program.Reachable fun _ => True).keyed
  exact ⟨after, h, hk.updated trivial hname h⟩

/-- The source `e` alone. -/
def plainSource : Node :=
  .tree 46 .source
    [("names", .one (.tree 44 .names [("names", .list [.token 43 .name "e"])])),
     ("borrows", .list []), ("body", .one (bodyOver 45 []))]

/-- A source that gives up its second name keeps its place, and the name stands for the next source
that has it. -/
theorem insert_updated_lenderFirst :
    lenderFirst.Reachable (Made contendingNodes) ∧ Keyed (Made contendingNodes) lenderFirst ∧
      lenderFirst.get? "x" = some lendingSource ∧
      ∃ after, lenderFirst.insert plainSource = .ok after ∧
        lenderFirst.Updated "e" plainSource after ∧
        after.sources = [plainSource, borrowingSource] ∧ after.get? "x" = some borrowingSource := by
  obtain ⟨hk, hinsert⟩ := reachable_lenderFirst.insert_updated
  obtain ⟨after, h, hupdated⟩ := hinsert plainSource "e" rfl rfl
  cases h
  exact ⟨reachable_lenderFirst, hk, rfl, _, rfl, hupdated, rfl, rfl⟩

end Program

end ProgramTree
