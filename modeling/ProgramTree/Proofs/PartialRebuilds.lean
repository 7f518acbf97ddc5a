import ProgramTree.Proofs.PathLookups
import ProgramTree.Proofs.Renumbering

namespace ProgramTree.Node

variable {root target node ancestor new result : Node} {step : Step}
  {path front rest inner : List Step} {replacement : Option Node}
  {levels bound start after : Nat} {nodes : List Node}

/-- What rebuilding some levels of the ancestors of a node comes to, told by the highest of them. -/
structure RebuildOutcome (root target : Node) (path : List Step) (replacement : Option Node)
    (levels bound : Nat) (ancestor : Node) : Prop where
  here : root.nodeAt? (path.take (path.length - levels)) = some ancestor
  above : pathTo? ancestor root = some (path.take (path.length - levels))
  /-- It is what replacing the node in the tree of that ancestor comes to. -/
  agrees : ∀ start later, bound ≤ start → bound ≤ later →
    RunsAgree bound (root.rebuild target replacement levels start)
      (ancestor.replaceWithin target replacement later)
  /-- Putting the answer for that ancestor comes to what replacing in the whole tree does. -/
  resumes : ∀ start result after, bound ≤ start →
    root.rebuild target replacement levels start = .ok result after →
      ∀ second third, bound ≤ second → bound ≤ third →
        RunsAgree bound (root.replaceWithin ancestor (some result) second)
          (root.replaceWithin target replacement third)
  /-- It is put without fault, unless it is the replacement itself and its place refuses it. -/
  accepted : ∀ start result after, bound ≤ start →
    root.rebuild target replacement levels start = .ok result after →
      1 ≤ levels ∨ path = [] ∨ (∃ holder ∈ root.holder? path,
        ∃ permit ∈ holder.rule.shape.permits, permit.admits result = true) →
        ∀ second, bound ≤ second → ∃ tree last,
          root.replaceWithin ancestor (some result) second = .ok tree last
  whole : path.length ≤ levels → ancestor = root ∧
    root.rebuild target replacement levels = root.replaceWithin target replacement

theorem exists_spine? (h : root.nodeAt? path = some node) :
    ∃ spine, root.spine? path = some spine ∧ spine.length = path.length := by
  induction path generalizing root with
  | nil => exact ⟨[], rfl, rfl⟩
  | cons step path ih =>
    rw [nodeAt?_cons] at h
    obtain ⟨child, hc, hn⟩ := Option.bind_eq_some_iff.mp h
    obtain ⟨below, hb, hlen⟩ := ih hn
    exact ⟨(root, step) :: below, by simp [spine?, hc, hb], by simp [hlen]⟩

/-- Replacing a node by one of its kind succeeds. -/
theorem WellFormed.replaceWithin_of_kind (h : root.WellFormed) (hh : History bound nodes)
    (hr : root ∈ nodes) (hp : pathTo? node root = some path) (hn : root.nodeAt? path = some node)
    (hk : new.kind = node.kind) (hs : new.symbol? = node.symbol?) (next : Nat) :
    root.replaceWithin node (some new) next =
      .ok (root.graft path new (next + ·)) (next + path.length) := by
  rcases List.eq_nil_or_concat' path with rfl | ⟨front, step, rfl⟩
  · rw [replaceWithin_of_nil hp]
    rfl
  · obtain ⟨parent, child, hplace⟩ := h.exists_firstPlace hh hr hp
    obtain ⟨rule, content, hold⟩ := (hplace.leads.wellFormed h).exists_holding hplace.childAt
    obtain rfl : child = node := Option.some.inj (hplace.nodeAt?_eq.symm.trans hn)
    exact hplace.replaceWithin_some h hold (List.any_eq_true.mpr (hold.admits_alike hk hs))

namespace Midway

/-- Rebuilding the levels below a node on the path is replacing in the tree of that node. -/
theorem rebuild_eq (h : root.Midway target front rest node)
    (hp : pathTo? target root = some (front ++ rest)) {inner : Node}
    (hi : node.nodeAt? rest = some inner) (hl : (front ++ rest).length - levels = front.length) :
    root.rebuild target replacement levels = node.replaceWithin target replacement := by
  have hn := h.leads.nodeAt?_eq
  obtain ⟨above, ha, hlen⟩ := exists_spine? hn
  obtain ⟨below, hb, _⟩ := exists_spine? hi
  have hspine := spine?_append hn ha hb
  have hdrop : (above ++ below).drop front.length = below := List.drop_left' hlen
  rw [replaceWithin, h.below]
  simp only [rebuild, hp, hspine, h.below, hb, hl, hdrop, Nat.sub_self, List.drop_zero]

section Resumed

variable (h : root.Midway target front (inner ++ [step]) ancestor) (hh : History bound nodes)
  (hr : root ∈ nodes) (hw : root.WellFormed)
  (he : ancestor.replaceWithin target replacement start = .ok result after)

include h hh hr hw he

/-- A deep edit below an ancestor was made at the parent of the place, and what came of it was
grafted into the tree of the ancestor. -/
theorem exists_edited : ∃ parent child edited middle,
    ancestor.FirstPlace target inner step parent child ∧
      parent.replace step.field (.child (some target) replacement) start = .ok edited middle ∧
      result = ancestor.graft inner edited (middle + ·) := by
  have hancestor := h.leads.wellFormed hw
  obtain ⟨parent, child, hplace⟩ := hancestor.exists_firstPlace hh (h.leads.mem hh hr) h.below
  obtain ⟨edited, middle, hedit, hresult⟩ := hplace.exists_edited hancestor he
  exact ⟨parent, child, edited, middle, hplace, hedit, hresult⟩

theorem alike_of_step : result.kind = ancestor.kind ∧ result.symbol? = ancestor.symbol? := by
  obtain ⟨parent, child, edited, middle, hplace, hedit, rfl⟩ := h.exists_edited hh hr hw he
  obtain ⟨hkind, hsymbol⟩ := kind_of_replace hedit
  exact hplace.leads.graft_alike _ hkind
    (hsymbol.trans (symbol?_of_childAt? hplace.childAt).symm)

/-- What became of an ancestor is put for it, with the same result as replacing in the whole
tree. -/
theorem resumes_of_step (hp : pathTo? target root = some (front ++ (inner ++ [step])))
    (hs : bound ≤ start) {second third : Nat} (hsecond : bound ≤ second) (hthird : bound ≤ third) :
    RunsAgree bound (root.replaceWithin ancestor (some result) second)
      (root.replaceWithin target replacement third) := by
  obtain ⟨hkind, hsymbol⟩ := h.alike_of_step hh hr hw he
  obtain ⟨parent, child, edited, middle, hplace, hedit, rfl⟩ := h.exists_edited hh hr hw he
  have hroot : root.FirstPlace target (front ++ inner) step parent child :=
    ⟨by rw [hp, List.append_assoc], h.leads.append hplace.leads, hplace.childAt, hplace.foremost,
      hplace.same⟩
  have hparent := hroot.leads.wellFormed hw
  have hagree := hparent.replace_agree step.field (.child (some target) replacement) hs hthird
  obtain ⟨other, last, hother, halike⟩ := hagree.exists_ok hedit
  have hmiddle := hparent.le_of_replace hedit
  have hlast := hparent.le_of_replace hother
  -- Both ways graft the edited parent along one path, in two stretches or in one.
  have hinner : (ancestor.graft inner edited (middle + ·)).AlikeSince bound
      (ancestor.graft inner other (last + ·)) :=
    halike.graft ancestor inner (fun _ => by omega) fun _ => by omega
  rw [hw.replaceWithin_of_kind hh hr h.above h.leads.nodeAt?_eq hkind hsymbol,
    hroot.replaceWithin_ok hw hother, ← graft_append h.leads.nodeAt?_eq]
  exact .answered (hinner.graft root front (fun _ => by omega) fun _ => by omega)

end Resumed

section Parted

variable (h : root.Midway target front rest ancestor) (hh : History bound nodes) (hr : root ∈ nodes)
  (hw : root.WellFormed)
  (he : ancestor.replaceWithin target replacement start = .ok result after)

include h hh hr

theorem eq_of_nil (ht : target ∈ root.descendants) (hrest : rest = []) : ancestor = target := by
  subst hrest
  have hs := pathTo?_eq_nil_iff.mp h.below
  exact hh.eq_of_id_eq (h.leads.mem hh hr) (hh.mem_of_mem_descendants hr ht)
    (by simpa [same] using hs)

include hw he

theorem resumes (ht : target ∈ root.descendants)
    (hp : pathTo? target root = some (front ++ rest)) (hs : bound ≤ start) {second third : Nat}
    (hsecond : bound ≤ second) (hthird : bound ≤ third) :
    RunsAgree bound (root.replaceWithin ancestor (some result) second)
      (root.replaceWithin target replacement third) := by
  rcases List.eq_nil_or_concat' rest with hrest | ⟨inner, step, rfl⟩
  · obtain rfl := h.eq_of_nil hh hr ht hrest
    subst hrest
    rw [replaceWithin_of_nil h.below] at he
    cases replacement with
    | none => cases he
    | some new =>
      cases he
      exact hw.replaceWithin_agree hh hr ancestor (some result) hsecond hthird
  · exact h.resumes_of_step hh hr hw he hp hs hsecond hthird

theorem accepted (ha : rest ≠ [] ∨ front = [] ∨ ∃ holder ∈ root.holder? front,
      ∃ permit ∈ holder.rule.shape.permits, permit.admits result = true) {second : Nat}
    (hsecond : bound ≤ second) :
    ∃ tree last, root.replaceWithin ancestor (some result) second = .ok tree last := by
  rcases List.eq_nil_or_concat' rest with hrest | ⟨inner, step, rfl⟩
  · obtain ⟨tree, last, hok⟩ := (replacementOutcome hh hr hw h.above result).answered_iff.mpr
      (ha.resolve_left (not_not_intro hrest))
    have hagree := hw.replaceWithin_agree hh hr ancestor (some result) (Nat.le_refl bound) hsecond
    obtain ⟨other, later, hother, _⟩ := hagree.exists_ok hok
    exact ⟨other, later, hother⟩
  · obtain ⟨hkind, hsymbol⟩ := h.alike_of_step hh hr hw he
    exact ⟨_, _, hw.replaceWithin_of_kind hh hr h.above h.leads.nodeAt?_eq hkind hsymbol second⟩

end Parted

end Midway

/-- The path to a target is parted where the rebuilding stops. -/
theorem WellFormed.exists_midway_rebuild (h : root.WellFormed) (hh : History bound nodes)
    (hr : root ∈ nodes) (hp : pathTo? target root = some path) (replacement : Option Node)
    (levels : Nat) : ∃ ancestor,
      root.Midway target (path.take (path.length - levels)) (path.drop (path.length - levels))
        ancestor ∧
      root.rebuild target replacement levels = ancestor.replaceWithin target replacement := by
  have hsplit := List.take_append_drop (path.length - levels) path
  rw [← hsplit] at hp
  obtain ⟨ancestor, hm⟩ := h.exists_midway hh hr hp
  obtain ⟨inner, hinner, _⟩ :=
    (hm.leads.wellFormed h).exists_leads hh (hm.leads.mem hh hr) hm.below
  refine ⟨ancestor, hm, hm.rebuild_eq hp hinner.nodeAt?_eq ?_⟩
  rw [hsplit, List.length_take]
  omega

/-- Some level is rebuilt unless the path is empty or none was asked for. -/
theorem drop_ne_nil_or (holds : List Step → Prop) (h : 1 ≤ levels ∨ path = [] ∨ holds path) :
    path.drop (path.length - levels) ≠ [] ∨ path.take (path.length - levels) = [] ∨
      holds (path.take (path.length - levels)) := by
  by_cases hnil : path = []
  · exact .inr (.inl (by simp [hnil]))
  have hpos := List.length_pos_iff.mpr hnil
  by_cases hnone : levels = 0
  · subst hnone
    have hholds := (h.resolve_left (by simp)).resolve_left hnil
    exact .inr (.inr (by simpa using hholds))
  · refine .inl fun hd => ?_
    rw [List.drop_eq_nil_iff] at hd
    omega

/-- Rebuilding some levels of the ancestors of a node is replacing it in the tree of the highest of
them. Putting the answer for that ancestor then gives what replacing in the whole tree gives. Only
where no level is rebuilt, the answer is the replacement itself and may be refused. -/
theorem rebuildOutcome (hh : History bound nodes) (hr : root ∈ nodes) (hw : root.WellFormed)
    (ht : target ∈ root.descendants) (hp : root.FirstAt target path)
    (replacement : Option Node) (levels : Nat) :
    ∃ ancestor, root.RebuildOutcome target path replacement levels bound ancestor := by
  have hpath := hw.pathTo?_eq_some_iff.mpr hp
  obtain ⟨ancestor, h, hrebuild⟩ := hw.exists_midway_rebuild hh hr hpath replacement levels
  refine ⟨ancestor, h.leads.nodeAt?_eq, h.above, fun start later hs hl => ?_,
    fun start result after hs he second third => ?_, fun start result after hs he ha second => ?_,
    fun hle => ?_⟩
  · rw [hrebuild]
    exact (h.leads.wellFormed hw).replaceWithin_agree hh (h.leads.mem hh hr) target replacement
      hs hl
  · rw [← List.take_append_drop (path.length - levels) path] at hpath
    exact h.resumes hh hr hw (hrebuild ▸ he) ht hpath hs
  · exact h.accepted hh hr hw (hrebuild ▸ he) (drop_ne_nil_or (fun front =>
      ∃ holder ∈ root.holder? front, ∃ permit ∈ holder.rule.shape.permits,
        permit.admits result = true) ha)
  · have hroot : ancestor = root := by
      have hn := h.leads.nodeAt?_eq
      rw [Nat.sub_eq_zero_of_le hle, List.take_zero] at hn
      exact (Option.some.inj hn).symm
    exact ⟨hroot, hroot ▸ hrebuild⟩

section Phrase

theorem firstAt_phraseLetter :
    phrase.FirstAt phraseLetter [⟨"segments", some 0⟩, ⟨"segments", some 0⟩] :=
  wellFormed_phrase.pathTo?_eq_some_iff.mp pathTo?_phraseLetter

/-- One level above the letter the word is rebuilt, which is then put into the phrase. -/
theorem rebuildOutcome_phrase :
    History 5 phraseNodes ∧ phraseLetter ∈ phrase.descendants ∧
      phrase.RebuildOutcome phraseLetter [⟨"segments", some 0⟩, ⟨"segments", some 0⟩]
        (some otherLetter) 1 5 phraseWord ∧
      ∃ word after, phrase.rebuild phraseLetter (some otherLetter) 1 5 = .ok word after ∧
        ∃ tree last, phrase.replaceWithin phraseWord (some word) after = .ok tree last := by
  obtain ⟨ancestor, houtcome⟩ := rebuildOutcome history_phraseNodes phrase_mem_phraseNodes
    wellFormed_phrase phraseLetter_mem_descendants firstAt_phraseLetter (some otherLetter) 1
  obtain rfl : phraseWord = ancestor := Option.some.inj houtcome.here
  have hrebuild : ∃ word, phrase.rebuild phraseLetter (some otherLetter) 1 5 = .ok word 6 := by
    simp only [rebuild, pathTo?_phraseLetter]
    exact ⟨_, rfl⟩
  obtain ⟨word, hword⟩ := hrebuild
  exact ⟨history_phraseNodes, phraseLetter_mem_descendants, houtcome, word, 6, hword,
    houtcome.accepted 5 word 6 (Nat.le_refl 5) hword (.inl (Nat.le_refl 1)) 6 (by decide)⟩

/-- A number, which words do not hold. -/
def phraseNumeral : Node :=
  .token 4 .number "1"

/-- Rebuilding no level answers with a replacement that its place refuses. -/
theorem rebuild_accepts_refused :
    History 5 (phraseNumeral :: phraseNodes.tail) ∧ phrase.WellFormed ∧
      phrase.FirstAt phraseLetter [⟨"segments", some 0⟩, ⟨"segments", some 0⟩] ∧
      phrase.rebuild phraseLetter (some phraseNumeral) 0 5 = .ok phraseNumeral 5 ∧
      ∀ next, ∃ error,
        phrase.replaceWithin phraseLetter (some phraseNumeral) next = .error error next := by
  have history : History 5 (phraseNumeral :: phraseNodes.tail) := by
    cases history_phraseNodes with
    | construct h hid hc => exact .construct h rfl (by simp [phraseNumeral, children, fields])
  refine ⟨history, wellFormed_phrase, firstAt_phraseLetter, ?_, fun next => ?_⟩
  · simp only [rebuild, pathTo?_phraseLetter]
    rfl
  · simp only [replaceWithin, rebuild, pathTo?_phraseLetter]
    exact ⟨_, rfl⟩

end Phrase

end ProgramTree.Node
