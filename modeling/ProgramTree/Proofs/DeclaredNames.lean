import ProgramTree.Proofs.DeclaringBuilders

namespace ProgramTree

/-- A declaration of one text by a token of the given class. -/
def Node.DeclaresAs (names : Node) (symbol : Symbol) (text : String) : Prop :=
  ∃ id tokenId, names = .tree id .names [("names", .list [.token tokenId symbol text])]

namespace Builders

variable {text : String} {next : Nat}

theorem name_answers :
    (∃ node after, Node.ofText .name text next = .ok node after) ↔
      isIdentifier text.toList = true := by
  simp [Node.ofText_eq_ok, Symbol.accepts]

theorem reference_answers :
    (∃ node after, reference text next = .ok node after) ↔ isIdentifier text.toList = true := by
  constructor
  · rintro ⟨node, after, h⟩
    obtain ⟨_, _, hname, _⟩ := Construct.exists_of_bind_ok h
    exact (Node.ofText_eq_ok.mp hname).1
  · intro h
    have hname : name text next = .ok _ _ := Node.ofText_eq_ok_iff.mpr h
    exact ⟨_, _, (Construct.bind_ok hname).trans (Node.create_eq_ok_iff.mpr ⟨rfl, rfl, rfl⟩)⟩

theorem borrow_answers :
    (∃ node after, borrow text none next = .ok node after) ↔ isIdentifier text.toList = true := by
  constructor
  · rintro ⟨node, after, h⟩
    obtain ⟨_, _, _, h⟩ := Construct.exists_of_bind_ok h
    obtain ⟨_, _, hname, _⟩ := Construct.exists_of_bind_ok h
    exact (Node.ofText_eq_ok.mp hname).1
  · intro h
    have hname : name text (next + 1) = .ok _ _ := Node.ofText_eq_ok_iff.mpr h
    exact ⟨_, _, (Construct.bind_ok rfl).trans ((Construct.bind_ok hname).trans
      (Node.create_eq_ok_iff.mpr ⟨rfl, rfl, rfl⟩))⟩

theorem declaration_declaresAs {symbol : Symbol} (hd : declaredSymbol text = symbol) (id : Nat) :
    (declaration text id).DeclaresAs symbol text :=
  ⟨id + 1, id, by rw [declaration, hd]⟩

/-- What is declared as a name is an identifier whose class is a name. -/
theorem names_name_iff :
    (∃ node after, names [text] next = .ok node after ∧ node.DeclaresAs .name text) ↔
      declaredSymbol text = .name ∧ isIdentifier text.toList = true := by
  constructor
  · rintro ⟨node, after, h, id, tokenId, rfl⟩
    cases ha : (declaredSymbol text).accepts text with
    | false =>
      rw [names_error ha] at h
      cases h
    | true =>
      rw [names_ok ha] at h
      have hd : declaredSymbol text = .name := by
        simp only [declaration, EStateM.Result.ok.injEq, Node.tree.injEq, List.cons.injEq,
          Prod.mk.injEq, Field.list.injEq, Node.token.injEq] at h
        tauto
      exact ⟨hd, by rwa [hd] at ha⟩
  · rintro ⟨hd, h⟩
    exact ⟨_, _, names_ok (accepts_declaredSymbol h), declaration_declaresAs hd _⟩

/-- What becomes of a text as a reference and as a declaration. Every identifier can be referred to;
it is declared as a name unless it opens with an unalphabetic character, and as an operator then. -/
structure Use (text : String) (next : Nat) : Prop where
  token : (∃ node after, Node.ofText .name text next = .ok node after) ↔
    isIdentifier text.toList = true
  reference : (∃ node after, Builders.reference text next = .ok node after) ↔
    isIdentifier text.toList = true
  borrow : (∃ node after, Builders.borrow text none next = .ok node after) ↔
    isIdentifier text.toList = true
  name : (∃ node after, names [text] next = .ok node after ∧ node.DeclaresAs .name text) ↔
    isIdentifier text.toList = true ∧ opensUnalphabetic text = false
  operator : isIdentifier text.toList = true → opensUnalphabetic text = true →
    ∃ node after, names [text] next = .ok node after ∧ node.DeclaresAs .operator text
  /-- The unalphabetic characters in question are those of the table. -/
  unalphabetic : opensUnalphabetic text = text.toList.head?.any (inRanges unalphabeticStartRanges)
  /-- Every builder of a declaration makes the same choice. -/
  declared : ∀ request : Builder, request.declared? = some text →
    isIdentifier text.toList = true →
      ((∃ node after, request.run next = .ok node after) ↔ request.PartsFit) ∧
      ∀ node after, request.run next = .ok node after → ∃ declaration,
        node.namesNode? = some declaration ∧
          declaration.DeclaresAs (if opensUnalphabetic text then .operator else .name) text

theorem use_of_text (text : String) (next : Nat) : Use text next where
  token := name_answers
  reference := reference_answers
  borrow := borrow_answers
  name := by
    rw [names_name_iff, and_comm]
    refine and_congr_right fun h => ?_
    rw [declaredSymbol_of_isIdentifier h]
    cases opensUnalphabetic text <;> simp
  operator h hu := by
    have hd : declaredSymbol text = .operator := by
      rw [declaredSymbol_of_isIdentifier h, if_pos hu]
    exact ⟨_, _, names_ok (accepts_declaredSymbol h), declaration_declaresAs hd _⟩
  unalphabetic := opensUnalphabetic_eq text
  declared request hr h := by
    have hdeclares := Builder.declares hr (accepts_declaredSymbol h) next
    refine ⟨hdeclares.answers, fun node after hn => ?_⟩
    obtain ⟨id, hid⟩ := hdeclares.declared node after hn
    exact ⟨_, hid, declaration_declaresAs (declaredSymbol_of_isIdentifier h) id⟩

theorem weierstrass_unalphabetic :
    isIdentifier "℘".toList = true ∧ opensUnalphabetic "℘" = true := by
  constructor <;> decide +kernel

theorem use_of_text_weierstrass :
    (∃ node after, function "℘" [] none 0 = .ok node after) ∧
      ∀ node after, function "℘" [] none 0 = .ok node after → ∃ declaration,
        node.namesNode? = some declaration ∧ declaration.DeclaresAs .operator "℘" := by
  obtain ⟨h, hu⟩ := weierstrass_unalphabetic
  obtain ⟨hanswers, hdeclared⟩ := (use_of_text "℘" 0).declared (.function "℘" [] none) rfl h
  rw [if_pos hu] at hdeclared
  exact ⟨hanswers.mpr (by simp [Builder.PartsFit]), hdeclared⟩

/-- The sign of the Weierstrass function can be referred to as a name and is not declared as one. -/
theorem not_name_of_weierstrass :
    ¬ ((∃ node after, Node.ofText .name "℘" 0 = .ok node after) ↔
      ∃ node after content, names ["℘"] 0 = .ok node after ∧ node.DeclaresAs .name content) := by
  intro hiff
  obtain ⟨h, hu⟩ := weierstrass_unalphabetic
  obtain ⟨_, _, content, hn, id, tokenId, rfl⟩ := hiff.mp (name_answers.mpr h)
  rw [names_ok (accepts_declaredSymbol h), declaration, declaredSymbol_of_isIdentifier h,
    if_pos hu] at hn
  simp at hn

end Builders

end ProgramTree
