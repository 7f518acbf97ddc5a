import ProgramTree.Explanation

namespace ProgramTree

/-- A word without a mark ends where the mark first stands. -/
theorem eq_of_first_mark {mark : Char} {word other rest rest' : List Char} (hw : mark ∉ word)
    (ho : mark ∉ other) (h : word ++ mark :: rest = other ++ mark :: rest') :
    word = other ∧ rest = rest' := by
  induction word generalizing other with
  | nil =>
    cases other with
    | nil => exact ⟨rfl, (List.cons.inj h).2⟩
    | cons c other =>
      obtain ⟨rfl, _⟩ := List.cons.inj h
      exact absurd List.mem_cons_self ho
  | cons c word ih =>
    cases other with
    | nil =>
      obtain ⟨rfl, _⟩ := List.cons.inj h
      exact absurd List.mem_cons_self hw
    | cons d other =>
      obtain ⟨rfl, hrest⟩ := List.cons.inj h
      obtain ⟨rfl, hr⟩ := ih (fun hm => hw (List.mem_cons_of_mem _ hm))
        (fun hm => ho (List.mem_cons_of_mem _ hm)) hrest
      exact ⟨rfl, hr⟩

/-- A word without a mark starts where the mark last stands. -/
theorem eq_of_last_mark {mark : Char} {word other rest rest' : List Char} (hw : mark ∉ word)
    (ho : mark ∉ other) (h : rest ++ mark :: word = rest' ++ mark :: other) :
    rest = rest' ∧ word = other := by
  have hr := congrArg List.reverse h
  simp only [List.reverse_append, List.reverse_cons, List.append_assoc, List.singleton_append] at hr
  obtain ⟨hword, hrest⟩ := eq_of_first_mark (by simpa using hw) (by simpa using ho) hr
  exact ⟨List.reverse_inj.mp hrest, List.reverse_inj.mp hword⟩

theorem Kind.dot_not_mem_name (kind : Kind) : '.' ∉ kind.name.toList := by
  cases kind <;> decide

theorem Kind.name_inj {kind other : Kind} (h : kind.name = other.name) : kind = other :=
  Option.some.inj ((ofName?_name kind).symm.trans ((congrArg ofName? h).trans (ofName?_name other)))

theorem Role.dot_not_mem_word (role : Role) : '.' ∉ role.word.toList := by
  cases role <;> decide

theorem Role.word_inj {role other : Role} (h : role.word = other.word) : role = other := by
  revert h
  cases role <;> cases other <;> decide

namespace Template

/-- The owner stands before the first of the remaining dots and the role after the last, whatever
the conflict is called. -/
theorem toList_path (template : Template) :
    template.path.toList = "node.".toList ++ (template.owner.name.toList ++ '.' ::
      ("conflict.".toList ++ (template.conflict.toList ++ '.' :: template.role.word.toList))) := by
  simp [path, String.toList_append, toString]

/-- Two templates have one path only when they agree in owner, conflict and role. -/
theorem path_eq_iff (first second : Template) :
    first.path = second.path ↔
      first.owner = second.owner ∧ first.conflict = second.conflict ∧ first.role = second.role := by
  constructor
  · intro h
    have hl := congrArg String.toList h
    rw [toList_path, toList_path, List.append_right_inj] at hl
    obtain ⟨howner, hrest⟩ :=
      eq_of_first_mark first.owner.dot_not_mem_name second.owner.dot_not_mem_name hl
    obtain ⟨hconflict, hrole⟩ := eq_of_last_mark first.role.dot_not_mem_word
      second.role.dot_not_mem_word ((List.append_right_inj _).mp hrest)
    exact ⟨Kind.name_inj (String.toList_injective howner), String.toList_injective hconflict,
      Role.word_inj (String.toList_injective hrole)⟩
  · rintro ⟨ho, hc, hr⟩
    rw [path, path, ho, hc, hr]

end Template

end ProgramTree
