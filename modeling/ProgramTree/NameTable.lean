namespace ProgramTree

/-- A table in which the first binding of a name stands. -/
structure NameTable (α : Type) where
  entries : List (String × α)
deriving Inhabited

namespace NameTable

variable {α : Type}

def empty : NameTable α := ⟨[]⟩

def get? (table : NameTable α) (name : String) : Option α :=
  table.entries.lookup name

/-- Binds a name that is not bound yet. -/
def bind (table : NameTable α) (name : String) (value : α) : NameTable α :=
  if (table.get? name).isSome then table else ⟨table.entries ++ [(name, value)]⟩

def bindAll (table : NameTable α) (names : List String) (value : α) : NameTable α :=
  names.foldl (fun table name => table.bind name value) table

/-- Binds names that have a value; names without one stay out. -/
def bindAll? (table : NameTable α) (names : List String) : Option α → NameTable α
  | some value => table.bindAll names value
  | none => table

def size (table : NameTable α) : Nat :=
  table.entries.length

theorem get?_empty (name : String) : (empty : NameTable α).get? name = none := rfl

theorem lookup_append_singleton {name : String} {entries : List (String × α)} (other : String)
    (value : α) (h : entries.lookup name = none) :
    (entries ++ [(name, value)]).lookup other =
      if other = name then some value else entries.lookup other := by
  rw [List.lookup_append]
  by_cases ho : other = name
  · simp [ho, h]
  · simp [ho, List.lookup_cons, beq_eq_false_iff_ne.mpr ho]

theorem get?_bind (table : NameTable α) (name other : String) (value : α) :
    (table.bind name value).get? other =
      if other = name then some ((table.get? name).getD value) else table.get? other := by
  unfold bind
  split
  next h =>
    obtain ⟨old, ho⟩ := Option.isSome_iff_exists.mp h
    by_cases heq : other = name
    · simp [heq, ho]
    · simp [heq]
  next h =>
    have hn : table.get? name = none := by simpa using h
    rw [hn]
    exact lookup_append_singleton other value hn

theorem get?_bindAll (table : NameTable α) (names : List String) (value : α) (name : String) :
    (table.bindAll names value).get? name =
      (table.get? name).or (if name ∈ names then some value else none) := by
  unfold bindAll
  induction names generalizing table with
  | nil => simp
  | cons first rest ih =>
    rw [List.foldl_cons, ih, get?_bind]
    by_cases hn : name = first
    · subst hn
      cases table.get? name <;> simp
    · simp [hn]

/-- In a table filled item by item a name stands for the value of the first item that has both the
name and a value. -/
theorem get?_foldl_bindAll? {β : Type} (names : β → List String) (value? : β → Option α)
    (items : List β) (table : NameTable α) (name : String) :
    (items.foldl (fun table item => table.bindAll? (names item) (value? item)) table).get? name =
      (table.get? name).or
        ((items.find? fun item => (value? item).isSome && (names item).contains name).bind
          value?) := by
  induction items generalizing table with
  | nil => simp
  | cons item rest ih =>
    rw [List.foldl_cons, ih, List.find?_cons]
    cases hv : value? item with
    | none => simp [bindAll?]
    | some value =>
      rw [bindAll?, get?_bindAll]
      by_cases hn : name ∈ names item <;> simp [hn, hv]

end NameTable

end ProgramTree
