import ProgramTree.Proofs.SourceLookup

namespace ProgramTree

section Search

variable {α β γ δ : Type} {f : α → β} {items : List α}

theorem find?_map_of_agree {p : α → Bool} {q : β → Bool} (h : ∀ item ∈ items, q (f item) = p item) :
    (items.map f).find? q = (items.find? p).map f := by
  induction items with
  | nil => rfl
  | cons item rest ih =>
    have hrest := ih fun other ho => h other (List.mem_cons_of_mem _ ho)
    rw [List.map_cons, List.find?_cons, List.find?_cons, h item List.mem_cons_self, hrest]
    cases p item <;> rfl

theorem findIdx?_map_of_agree {p : α → Bool} {q : β → Bool}
    (h : ∀ item ∈ items, q (f item) = p item) :
    (items.map f).findIdx? q = items.findIdx? p := by
  induction items with
  | nil => rfl
  | cons item rest ih =>
    have hrest := ih fun other ho => h other (List.mem_cons_of_mem _ ho)
    rw [List.map_cons, List.findIdx?_cons, List.findIdx?_cons, h item List.mem_cons_self, hrest]

theorem findSome?_map_of_agree {p : α → Option γ} {q : β → Option δ} {g : γ → δ}
    (h : ∀ item ∈ items, q (f item) = (p item).map g) :
    (items.map f).findSome? q = (items.findSome? p).map g := by
  induction items with
  | nil => rfl
  | cons item rest ih =>
    have hrest := ih fun other ho => h other (List.mem_cons_of_mem _ ho)
    rw [List.map_cons, List.findSome?_cons, List.findSome?_cons, h item List.mem_cons_self, hrest]
    cases p item <;> rfl

end Search

/-- A node of the same kind whose names are those of the old node, changed. -/
structure Node.Renamed (name : String → String) (old new : Node) : Prop where
  kind : new.kind = old.kind
  names : new.declaredNames = old.declaredNames.map name

namespace Node.Renamed

variable {name : String → String} {old new : Node}

theorem primaryName? (h : old.Renamed name new) : new.primaryName? = old.primaryName?.map name := by
  rw [Node.primaryName?, Node.primaryName?, h.names, List.head?_map]

theorem declares (hc : Function.Injective name) (h : old.Renamed name new) (text : String) :
    new.declares (name text) = old.declares text := by
  rw [Node.declares, Node.declares, h.names, Bool.eq_iff_iff]
  simp [hc.eq_iff]

end Node.Renamed

namespace Program

/-- Every source exchanged for another and stored under another name. -/
def translate (name : String → String) (f : Node → Node) (program : Program) : Program :=
  ⟨program.entries.map fun (key, source) => (name key, f source)⟩

variable {name : String → String} {f : Node → Node} {program after : Program} {source : Node}

theorem entries_translate (name : String → String) (f : Node → Node) (program : Program) :
    (program.translate name f).entries =
      program.entries.map fun (key, source) => (name key, f source) :=
  rfl

theorem sources_translate (name : String → String) (f : Node → Node) (program : Program) :
    (program.translate name f).sources = program.sources.map f := by
  simp [sources, translate]

theorem insert_translate (hc : Function.Injective name) (h : source.Renamed name (f source))
    (hi : program.insert source = .ok after) :
    (program.translate name f).insert (f source) = .ok (after.translate name f) := by
  have hkey : ∀ text : String, (program.translate name f).entries.any (·.1 == name text) =
      program.entries.any (·.1 == text) := by
    intro text
    rw [entries_translate, List.any_map]
    exact List.any_congr rfl fun entry => Bool.eq_iff_iff.mpr (by simp [hc.eq_iff])
  unfold insert at hi ⊢
  rw [h.kind, h.primaryName?]
  split at hi
  next hk =>
    rw [if_pos hk]
    split at hi
    next text hn =>
      simp only [hn, Option.map_some, hkey]
      split at hi
      next hany =>
        cases hi
        rw [if_pos hany]
        simp only [translate, List.map_map, Function.comp_def, beq_iff_eq, hc.eq_iff]
        congr 2
        refine List.map_congr_left fun entry _ => ?_
        split <;> rfl
      next hany =>
        cases hi
        rw [if_neg hany]
        simp [translate]
    next => cases hi
  next => cases hi

theorem erase_translate (hc : Function.Injective name) (f : Node → Node) (program : Program)
    (text : String) :
    (program.erase text).translate name f = (program.translate name f).erase (name text) := by
  have hkey : ∀ entry : String × Node, (name entry.1 != name text) = (entry.1 != text) := by
    intro entry
    rw [bne, bne, Bool.eq_iff_iff]
    simp [hc.eq_iff]
  simp [erase, translate, List.filter_map, Function.comp_def, hkey]

section Lookup

variable (hc : Function.Injective name)
  (hf : ∀ source ∈ program.sources, source.Renamed name (f source))

include hc hf

theorem indexOf?_translate (text : String) :
    (program.translate name f).indexOf? (name text) = program.indexOf? text := by
  have hkeys : (program.translate name f).entries.findIdx? (·.1 == name text) =
      program.entries.findIdx? (·.1 == text) :=
    findIdx?_map_of_agree fun entry _ => Bool.eq_iff_iff.mpr (by simp [hc.eq_iff])
  have hnames : (program.translate name f).sources.findIdx? (·.declares (name text)) =
      program.sources.findIdx? (·.declares text) := by
    rw [sources_translate]
    exact findIdx?_map_of_agree fun source hs => (hf source hs).declares hc text
  rw [indexOf?, indexOf?, hkeys, hnames]

theorem get?_translate (text : String) :
    (program.translate name f).get? (name text) = (program.get? text).map f := by
  rw [get?, get?, indexOf?_translate hc hf, sources_translate, Option.map_bind]
  congr 1
  funext index
  exact List.getElem?_map

theorem add_translate (h : source.Renamed name (f source))
    (ha : program.add source = .ok after) :
    (program.translate name f).add (f source) = .ok (after.translate name f) := by
  have hfind : (source.declaredNames.map name).find?
        (fun text => ((program.translate name f).indexOf? text).isSome) =
      (source.declaredNames.find? fun text => (program.indexOf? text).isSome).map name :=
    find?_map_of_agree fun text _ => by rw [indexOf?_translate hc hf]
  unfold add at ha ⊢
  rw [h.names, hfind]
  split at ha
  next => cases ha
  next hn =>
    rw [hn]
    exact insert_translate hc h ha

end Lookup

/-- The translated program is made of the translated sources as the program was of its own. -/
theorem Reachable.translate {given wanted : Node → Prop} (hr : program.Reachable given)
    (hc : Function.Injective name) (hf : ∀ node, given node → node.Renamed name (f node))
    (hw : ∀ node, given node → wanted (f node)) :
    (program.translate name f).Reachable wanted := by
  induction hr with
  | @ofSources sources program hg h =>
    have hfold : ∀ (sources : List Node) (before : Program), Keyed given before →
        (∀ source ∈ sources, given source) → sources.foldlM Program.add before = .ok program →
        (sources.map f).foldlM Program.add (before.translate name f) =
          .ok (program.translate name f) := by
      intro sources
      induction sources with
      | nil =>
        intro before _ _ h
        cases h
        rfl
      | cons source rest ih =>
        intro before hk hg h
        rw [List.foldlM_cons] at h
        rw [List.map_cons, List.foldlM_cons]
        have hsource := hg source List.mem_cons_self
        have hrenamed := hf source hsource
        cases ha : before.add source with
        | error => simp [ha, bind, Except.bind] at h
        | ok next =>
          rw [ha] at h
          have hbefore : ∀ old ∈ before.sources, old.Renamed name (f old) :=
            fun old ho => hf old (hk.mem_sources ho).1
          rw [add_translate hc hbefore hrenamed ha]
          exact ih next (hk.add hsource ha)
            (fun other ho => hg other (List.mem_cons_of_mem _ ho)) h
    have hsources : ∀ source ∈ sources.map f, wanted source := by
      intro source hs
      obtain ⟨old, ho, rfl⟩ := List.mem_map.mp hs
      exact hw old (hg old ho)
    exact .ofSources hsources (hfold sources Program.empty .empty hg h)
  | @insert program after source hr hg h ih =>
    exact ih.insert (hw source hg) (insert_translate hc (hf source hg) h)
  | @erase program hr text ih => exact erase_translate hc f program text ▸ ih.erase (name text)

end Program

end ProgramTree
