import ProgramTree.Proofs.WellFormed

namespace ProgramTree

namespace Fields

variable {fields : Fields} {name other : String} {content old : Field Node}

@[simp]
theorem map_fst_assign : (assign name content fields).map (·.1) = fields.map (·.1) := by
  simp [assign, Function.comp_def]

theorem lookup_assign (name : String) (content : Field Node) (fields : Fields) :
    (assign name content fields).lookup name = (fields.lookup name).map fun _ => content := by
  induction fields with
  | nil => rfl
  | cons field rest ih =>
    obtain ⟨key, held⟩ := field
    by_cases hk : name = key
    · simp [assign, hk]
    · simpa [assign, List.lookup_cons, beq_eq_false_iff_ne.mpr hk] using ih

theorem lookup_assign_self (h : fields.lookup name = some old) :
    (assign name content fields).lookup name = some content := by
  rw [lookup_assign, h, Option.map_some]

theorem lookup_assign_of_ne (h : other ≠ name) :
    (assign name content fields).lookup other = fields.lookup other := by
  induction fields with
  | nil => rfl
  | cons field rest ih =>
    obtain ⟨key, held⟩ := field
    by_cases hk : other = key
    · subst hk
      simp [assign, h]
    · simpa [assign, List.lookup_cons, beq_eq_false_iff_ne.mpr hk] using ih

/-- Emptying a field leaves the others as present as they were. -/
theorem any_isPresent_assign_absent (h : content.isPresent = false) (name : String)
    (fields : Fields) (other : String) :
    ((assign name content fields).lookup other).any (·.isPresent) =
      (other != name && (fields.lookup other).any (·.isPresent)) := by
  by_cases ho : other = name
  · subst ho
    rw [lookup_assign]
    cases fields.lookup other <;> simp [h]
  · simp [lookup_assign_of_ne ho, ho]

/-- Assigning a content that is present like the old one leaves the same fields present. -/
theorem any_isPresent_assign (h : fields.lookup name = some old)
    (hp : content.isPresent = old.isPresent) (other : String) :
    ((assign name content fields).lookup other).any (·.isPresent) =
      (fields.lookup other).any (·.isPresent) := by
  by_cases ho : other = name
  · subst ho
    simp [lookup_assign_self h, h, hp]
  · rw [lookup_assign_of_ne ho]

@[simp]
theorem assign_assign (name : String) (first second : Field Node) (fields : Fields) :
    assign name second (assign name first fields) = assign name second fields := by
  simp only [assign, List.map_map, Function.comp_def]
  refine List.map_congr_left fun field _ => ?_
  split <;> rfl

theorem assign_comm (h : name ≠ other) (first second : Field Node) (fields : Fields) :
    assign name first (assign other second fields) =
      assign other second (assign name first fields) := by
  simp only [assign, List.map_map, Function.comp_def]
  refine List.map_congr_left fun field _ => ?_
  by_cases hn : field.1 = name
  · simp [hn, h]
  · simp [hn]

theorem assign_eq_self (h : name ∉ fields.map (·.1)) : assign name content fields = fields := by
  refine (List.map_congr_left fun field hf => ?_).trans (List.map_id fields)
  have hne : field.1 ≠ name := fun he => h (he ▸ List.mem_map.mpr ⟨field, hf, rfl⟩)
  simp [hne]

theorem assign_eq_self_of_lookup (hn : (fields.map (·.1)).Nodup)
    (h : fields.lookup name = some content) : assign name content fields = fields := by
  refine (List.map_congr_left fun field hf => ?_).trans (List.map_id fields)
  obtain ⟨key, held⟩ := field
  by_cases hk : key = name
  · subst hk
    have hheld := Option.some.inj (h.symm.trans (lookup_of_mem_of_nodup hn hf))
    simp [hheld]
  · simp [hk]

/-- When no two fields have one name, setting the field at a place is assigning to its name. -/
theorem set_eq_assign (hn : (fields.map (·.1)).Nodup) {index : Nat}
    (h : fields[index]? = some (name, old)) :
    fields.set index (name, content) = assign name content fields := by
  induction fields generalizing index with
  | nil => simp at h
  | cons field rest ih =>
    obtain ⟨key, held⟩ := field
    simp only [List.map_cons, List.nodup_cons] at hn
    cases index with
    | zero =>
      cases h
      have hrest : assign name content rest = rest := assign_eq_self hn.1
      simpa [assign] using hrest.symm
    | succ index =>
      have hm : (name, old) ∈ rest := List.mem_of_getElem? h
      have hne : key ≠ name := fun he => hn.1 (he ▸ List.mem_map.mpr ⟨_, hm, rfl⟩)
      simpa [assign, hne] using ih hn.2 h

end Fields

end ProgramTree
