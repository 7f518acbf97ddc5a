import ProgramTree.Proofs.BuilderGrowth
import ProgramTree.Proofs.EditGrowth

namespace ProgramTree

/-- One operation on trees. -/
inductive Request where
  /-- A token whose text is taken as it is. -/
  | raw (symbol : Symbol) (text : String)
  | create (kind : Kind) (hk : kind ≠ .token) (contents : List (Field Node))
  | ofText (symbol : Symbol) (text : String)
  | ofSymbol (symbol : Symbol)
  | build (builder : Builder)
  | duplicate (node : Node)
  | replace (node : Node) (field : String) (edit : Edit)
  | rebuild (root target : Node) (replacement : Option Node) (levels : Nat)
  | replaceWithin (root target : Node) (replacement : Option Node)

namespace Request

/-- The nodes that a request brings along. -/
def handles : Request → List Node
  | raw .. | ofText .. | ofSymbol _ => []
  | create _ _ contents => contents.flatMap Field.nodes
  | build builder => builder.handles
  | duplicate node => [node]
  | replace node _ edit => node :: edit.handles
  | rebuild root target replacement _ | replaceWithin root target replacement =>
    root :: target :: replacement.toList

def run : Request → Construct EditError Node
  | raw symbol text => Node.rawToken symbol text
  | create kind _ contents => EStateM.adaptExcept .shape (Node.create kind contents)
  | ofText symbol text => EStateM.adaptExcept .shape (Node.ofText symbol text)
  | ofSymbol symbol => EStateM.adaptExcept .shape (Node.ofSymbol symbol)
  | build builder => EStateM.adaptExcept .shape builder.run
  | duplicate node => node.duplicate
  | replace node field edit => node.replace field edit
  | rebuild root target replacement levels => root.rebuild target replacement levels
  | replaceWithin root target replacement => root.replaceWithin target replacement

end Request

/-- A sequence of requests, the latest first, with the next unused number and the nodes that were
returned. A request may bring along any node that is part of a returned one. -/
inductive Session : List Request → Nat → List Node → Prop
  | start : Session [] 0 []
  | answered {requests : List Request} {next after : Nat} {held : List Node} {request : Request}
      {node : Node} (h : Session requests next held)
      (hh : ∀ handle ∈ request.handles, ∃ root ∈ held, handle ∈ root.descendants)
      (hr : request.run next = .ok node after) :
      Session (request :: requests) after (node :: held)
  | refused {requests : List Request} {next after : Nat} {held : List Node} {request : Request}
      {error : EditError} (h : Session requests next held)
      (hh : ∀ handle ∈ request.handles, ∃ root ∈ held, handle ∈ root.descendants)
      (hr : request.run next = .error error after) :
      Session (request :: requests) after held

variable {given : Symbol → String → Prop}

theorem Construct.Grows.adaptExcept {ε ε' α : Type} {handles : List Node} {make : Construct ε α}
    {answer : α → List Node} (f : ε → ε') (h : Grows given handles make answer) :
    Grows given handles (EStateM.adaptExcept f make : Construct ε' α) answer := by
  intro next nodes hledger hh
  obtain ⟨more, hsub, hmore⟩ := h next nodes hledger hh
  refine ⟨more, hsub, ?_⟩
  unfold EStateM.adaptExcept
  split at hmore
  next a after he => simpa [he] using hmore
  next error after he => simpa [he] using hmore

open Construct in
theorem Request.grows (request : Request)
    (hraw : ∀ symbol text, request = .raw symbol text → given symbol text) :
    Grows given request.handles request.run ([·]) := by
  cases request with
  | raw symbol text => exact .rawToken (.inr (hraw symbol text rfl))
  | create kind hk contents => exact (Grows.create hk (List.Subset.refl _)).adaptExcept _
  | ofText symbol text => exact (Grows.ofText symbol text).adaptExcept _
  | ofSymbol symbol => exact (Grows.ofSymbol symbol).adaptExcept _
  | build builder => exact (Grows.builder builder).adaptExcept _
  | duplicate node => exact .duplicate (by simp [handles])
  | replace node field edit => exact .replace node field edit
  | rebuild root target replacement levels => exact .rebuild root target replacement levels
  | replaceWithin root target replacement => exact .replaceWithin root target replacement

theorem History.subset_of_held {next : Nat} {made held handles : List Node}
    (h : History next made) (hheld : held ⊆ made)
    (hh : ∀ handle ∈ handles, ∃ root ∈ held, handle ∈ root.descendants) : handles ⊆ made := by
  intro handle hm
  obtain ⟨root, hroot, hd⟩ := hh handle hm
  exact h.mem_of_mem_descendants (hheld hroot) hd

namespace Session

variable {requests : List Request} {next : Nat} {held : List Node}

/-- A session leaves a lawful history that has every returned node in it. -/
theorem exists_ledger (h : Session requests next held)
    (hraw : ∀ symbol text, .raw symbol text ∈ requests → given symbol text) :
    ∃ made, Ledger given next made ∧ held ⊆ made := by
  induction h with
  | start => exact ⟨[], .start, List.Subset.refl _⟩
  | @answered _ _ _ _ request _ _ hh hr ih =>
    obtain ⟨made, hledger, hheld⟩ := ih fun symbol text hm => hraw symbol text (by simp [hm])
    have hgrows := request.grows fun symbol text he => hraw symbol text (by simp [he])
    obtain ⟨more, hsub, hmore⟩ :=
      hgrows _ made hledger (hledger.history.subset_of_held hheld hh)
    rw [hr] at hmore
    exact ⟨more, hmore.1, List.cons_subset.mpr ⟨hmore.2 (by simp), List.Subset.trans hheld hsub⟩⟩
  | @refused _ _ _ _ request _ _ hh hr ih =>
    obtain ⟨made, hledger, hheld⟩ := ih fun symbol text hm => hraw symbol text (by simp [hm])
    have hgrows := request.grows fun symbol text he => hraw symbol text (by simp [he])
    obtain ⟨more, hsub, hmore⟩ :=
      hgrows _ made hledger (hledger.history.subset_of_held hheld hh)
    rw [hr] at hmore
    exact ⟨more, hmore, List.Subset.trans hheld hsub⟩

/-- Every node that a session returns fits the grammar throughout. Where every text that was taken
as it is suits its class, the text of every token does. -/
theorem shaped (h : Session requests next held) {root node : Node} (hr : root ∈ held)
    (hn : node ∈ root.descendants) :
    node.WellFormed ∧
      ((∀ symbol text, .raw symbol text ∈ requests → symbol.accepts text = true) →
        ∀ symbol text, node.symbol? = some symbol → node.text? = some text →
          symbol.accepts text = true) := by
  constructor
  · have hmade : ∃ made, Ledger (fun _ _ => True) next made ∧ held ⊆ made :=
      h.exists_ledger (by simp)
    obtain ⟨made, hledger, hheld⟩ := hmade
    exact (hledger.lawful root (hheld hr)).wellFormed.of_mem_descendants hn
  · intro hraw symbol text hs ht
    obtain ⟨made, hledger, hheld⟩ := h.exists_ledger hraw
    have hspelled := (hledger.lawful root (hheld hr)).spelled node hn symbol text hs ht
    exact hspelled.elim id id

section Bracing

/-- An opening brace is put into a block without braces, and taken out again. -/
def bareBlock : Node :=
  .tree 0 .block [("open", .optional none), ("statements", .list []), ("close", .optional none)]

def openBrace : Node :=
  .token 1 .blockOpen "\x7b"

def closeBrace : Node :=
  .token 2 .blockClose "\x7d"

def bracedBlock : Node :=
  .tree 3 .block
    [("open", .optional (some openBrace)), ("statements", .list []),
     ("close", .optional (some closeBrace))]

def newBrace : Node :=
  .token 4 .blockOpen "\x7b"

def rebracedBlock : Node :=
  .tree 5 .block
    [("open", .optional (some newBrace)), ("statements", .list []),
     ("close", .optional (some closeBrace))]

def bracing : List Request :=
  [.replaceWithin bracedBlock openBrace none,
   .replace bareBlock "open" (.child none (some openBrace)),
   .raw .blockOpen "\x7b",
   .build (.bareBlock [])]

theorem pathTo?_openBrace : Node.pathTo? openBrace bracedBlock = some [⟨"open", none⟩] := by
  decide +kernel

theorem run_removeBrace :
    (Request.replaceWithin bracedBlock openBrace none).run 4 = .ok rebracedBlock 6 := by
  simp only [Request.run, Node.replaceWithin, Node.rebuild, pathTo?_openBrace]
  rfl

theorem session_bracing :
    Session bracing 6 [rebracedBlock, bracedBlock, openBrace, bareBlock] := by
  refine .answered (.answered (.answered (.answered .start ?_ rfl) ?_ rfl) ?_ rfl) ?_
    run_removeBrace
  · simp [Request.handles, Builder.handles]
  · simp [Request.handles]
  · simp [Request.handles, Edit.handles, Node.mem_descendants_self]
  · simp [Request.handles, Node.mem_descendants_self]

theorem shaped_bracing :
    Session bracing 6 [rebracedBlock, bracedBlock, openBrace, bareBlock] ∧
      rebracedBlock.WellFormed ∧ Symbol.accepts .blockOpen "\x7b" = true := by
  have hbrace : newBrace ∈ rebracedBlock.descendants := by
    have hc : newBrace ∈ rebracedBlock.children := by
      simp [Node.children, Node.fields, rebracedBlock, Field.nodes]
    exact Node.mem_descendants.mpr (.inr ⟨newBrace, hc, newBrace.mem_descendants_self⟩)
  have hraw : ∀ symbol text, .raw symbol text ∈ bracing → symbol.accepts text = true := by
    intro symbol text hm
    have he : symbol = .blockOpen ∧ text = "\x7b" := by simpa [bracing] using hm
    rw [he.1, he.2]
    decide
  exact ⟨session_bracing,
    (shaped session_bracing (by simp) (Node.mem_descendants_self rebracedBlock)).1,
    (shaped session_bracing (by simp) hbrace).2 hraw .blockOpen _ rfl rfl⟩

end Bracing

end Session

end ProgramTree
