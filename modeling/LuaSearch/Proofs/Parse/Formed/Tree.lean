import LuaSearch.Proofs.Parse.Formed.Statement
import LuaSearch.Proofs.Syntax.Parts
import LuaSearch.Proofs.Token.Tiling

/-!
What whoever works on a tree that was read may rely on without a check: which forms its nodes can
have, where a `return` can stand, and which tokens the names and numbers in it come from.
-/
namespace LuaSearch

namespace Node

def names : Node → List String
  | expr (.ident _ name) | expr (.methodCall _ _ name _ _) => [name]
  | stmt (.localFunction _ name _ _) | stmt (.numericFor _ name _ _ _ _) => [name]
  | stmt (.function _ _ method? _ _) => method?.toList
  | stmt (.genericFor _ names _ _) => names
  | binder b => b.name?.toList
  | _ => []

variable {tokens : List Token} {node : Node}

theorem Formed.not_isWildcard (formed : node.Formed tokens) : node.isWildcard = false := by
  cases node with
  | expr e =>
    cases e with
    | wildcard => exact formed.elim
    | _ => rfl
  | stmt s =>
    cases s with
    | wildcard => exact formed.elim
    | _ => rfl
  | binder b =>
    obtain ⟨name, given, _⟩ := formed
    simp [isWildcard, isStmtWildcard, isExprWildcard, given]

theorem Formed.returnsLast (formed : node.Formed tokens) :
    ∀ body ∈ node.blocks, ReturnsLast body := by
  intro body member
  cases node with
  | expr e => cases e <;> simp_all [blocks]
  | stmt s =>
    cases s with
    | ifStmt =>
      obtain ⟨inThen, inElse⟩ := formed
      simp only [blocks, Stmt.bodies, List.mem_cons, List.not_mem_nil, or_false] at member
      rcases member with rfl | rfl
      · exact inThen
      · exact inElse
    | _ => simp_all [blocks, Stmt.bodies]
  | binder b => simp [blocks] at member

/-- Where a name is declared, a token spells it, but for the first name that a method has. -/
theorem Formed.spelled_or_receiver (formed : node.Formed tokens) :
    ∀ b ∈ node.declares, (∃ name, b.name? = some name ∧ Spelled tokens .ident name) ∨
      (node.isMethod = true ∧ node.declares.head? = some b) := by
  intro b declared
  have written := formed.written
  by_cases isMethod : node.isMethod
  · rw [if_pos isMethod] at written
    cases names : node.declares with
    | nil =>
      rw [names] at declared
      cases declared
    | cons first others =>
      rw [names] at declared written
      rcases List.mem_cons.mp declared with rfl | later
      · exact .inr ⟨isMethod, rfl⟩
      · exact .inl (written b later).spelled
  · rw [if_neg isMethod] at written
    exact .inl (written b declared).spelled

theorem Formed.spelled (formed : node.Formed tokens) : ∀ name ∈ node.names,
    Spelled tokens .ident name ∨ (name = "self" ∧ ∃ b, node = .binder b) := by
  intro name member
  cases node with
  | expr e => cases e <;> simp_all [names]
  | stmt s =>
    cases s with
    | function span target method? ps body =>
      obtain ⟨_, methods, _⟩ := formed
      exact .inl (methods name (by simpa [names] using member)).1
    | _ => simp_all [names]
  | binder b =>
    obtain ⟨given, same, spelled | isSelf⟩ := formed
    · simp_all [names]
    · simp_all [names]

end Node

theorem text_ne_empty {source : String} {token : Token} (member : token ∈ tokenize source)
    (notLast : token.kind ≠ .eof) : token.text ≠ "" := by
  intro empty
  obtain ⟨front, all, each⟩ := (tokenize_tiles source).ends
  obtain ⟨before, after, _, start, stop⟩ := tokenize_shows member
  rw [all] at member
  rcases List.mem_append.mp member with inside | last
  · have some := (each token inside).2
    rw [empty] at stop
    simp only [String.toList_empty, byteLength] at stop
    omega
  · obtain rfl := List.mem_singleton.mp last
    exact notLast rfl

/-- A text that is read gives a well-formed tree, at every depth of it: there is no wildcard; a call
    statement holds a call; an assignment has values and targets, and only names and indexed values
    are targets; locals and generic loops have names, and generic loops something to go over; a
    `return` is the last of its block; a declared function has a dotted path, and as a method the
    parameter `self` first; a number is the text, never empty, of a number token; every name that is
    declared is the text of a name token, but for the first parameter of a method; and so is every
    name that a node has, but for a `self` that is the first parameter of a method. -/
theorem parse_well_formed {source : String} {chunk : Block} (read : parse source = .ok chunk) :
    (∀ node ∈ Nodes.stmts chunk, node.isWildcard = false) ∧
    (∀ span e, .stmt (.call span e) ∈ Nodes.stmts chunk → e.isCall = true) ∧
    (∀ span targets values, .stmt (.assign span targets values) ∈ Nodes.stmts chunk →
      targets ≠ [] ∧ (∀ target ∈ targets, target.isAssignable = true) ∧ values ≠ []) ∧
    (∀ span names values, .stmt (.localVars span names values) ∈ Nodes.stmts chunk →
      names ≠ []) ∧
    (∀ span names es body, .stmt (.genericFor span names es body) ∈ Nodes.stmts chunk →
      names ≠ [] ∧ es ≠ []) ∧
    (∀ body ∈ chunk :: (Nodes.stmts chunk).flatMap Node.blocks,
      ∀ s ∈ body.dropLast, s.isReturn = false) ∧
    (∀ span target method? ps body,
      .stmt (.function span target method? ps body) ∈ Nodes.stmts chunk →
      target.isPath = true ∧
        (method?.isSome = true → ps.names.head?.bind Binder.name? = some "self")) ∧
    (∀ span text, .expr (.number span text) ∈ Nodes.stmts chunk →
      text ≠ "" ∧ Spelled (tokenize source) .number text) ∧
    (∀ node ∈ Nodes.stmts chunk,
      ∀ b ∈ (if node.isMethod then node.declares.tail else node.declares),
        ∃ name, b.name? = some name ∧ Spelled (tokenize source) .ident name) ∧
    (∀ node ∈ Nodes.stmts chunk, ∀ name ∈ node.names,
      Spelled (tokenize source) .ident name ∨
        (name = "self" ∧ ∃ b, node = .binder b ∧ ∃ method ∈ Nodes.stmts chunk,
          method.isMethod = true ∧ method.declares.head? = some b)) := by
  obtain ⟨last, formed⟩ := formed_of_parse read
  refine ⟨fun node member => (formed node member).not_isWildcard, ?_, ?_, ?_, ?_, ?_, ?_, ?_,
    fun node member b declared => ((formed node member).written b declared).spelled, ?_⟩
  · intro span e member
    exact formed _ member
  · intro span targets values member
    exact formed _ member
  · intro span names values member
    exact (formed _ member).1
  · intro span names es body member
    obtain ⟨⟨named, _⟩, iterated, _⟩ := formed _ member
    exact ⟨named, iterated⟩
  · intro body member
    rcases List.mem_cons.mp member with rfl | inside
    · exact last
    · obtain ⟨node, among, opens⟩ := List.mem_flatMap.mp inside
      exact (formed node among).returnsLast body opens
  · intro span target method? ps body member
    obtain ⟨path, methods, _⟩ := formed _ member
    refine ⟨path, ?_⟩
    intro isMethod
    obtain ⟨method, rfl⟩ := Option.isSome_iff_exists.mp isMethod
    exact (methods method rfl).2
  · intro span text member
    have spelled : Spelled (tokenize source) .number text := formed _ member
    obtain ⟨token, among, kind, rfl⟩ := id spelled
    exact ⟨text_ne_empty among (by simp [kind]), spelled⟩
  · intro node member name carried
    rcases (formed node member).spelled name carried with spelled | ⟨isSelf, b, rfl⟩
    · exact .inl spelled
    · obtain ⟨m, among, declared⟩ := Block.exists_declares member
      rcases (formed m among).spelled_or_receiver b declared with ⟨given, same, spelled⟩ | receiver
      · obtain rfl : name = given := by simpa [Node.names, same] using carried
        exact .inl spelled
      · exact .inr ⟨isSelf, b, rfl, m, among, receiver⟩

/-- A method that returns a number: its receiver is the parameter that no token spells, its `return`
    is the last of its body, and the number is that of a token. -/
theorem parse_well_formed_method :
    let source := "function a:m(x) break return 0x1 end"
    let body : Block := [.breakStmt ⟨16, 21⟩, .returnStmt ⟨22, 32⟩ [.number ⟨29, 32⟩ "0x1"]]
    let receiver : Binder := ⟨⟨11, 12⟩, some "self"⟩
    let chunk : Block := [.function ⟨0, 36⟩ (.ident ⟨9, 10⟩ "a") (some "m")
      ⟨[receiver, ⟨⟨13, 14⟩, some "x"⟩], false⟩ body]
    parse source = .ok chunk ∧ (∀ s ∈ body.dropLast, s.isReturn = false) ∧
      (Spelled (tokenize source) .ident "self" ∨ ∃ method ∈ Nodes.stmts chunk,
        method.isMethod = true ∧ method.declares.head? = some receiver) ∧
      Spelled (tokenize source) .number "0x1" := by
  intro source body receiver chunk
  have read : parse source = .ok chunk := by
    dsimp only [source, chunk, body, receiver]
    rfl
  have nodes : Nodes.stmts chunk = .stmt chunk[0] :: .expr (.ident ⟨9, 10⟩ "a") ::
      .binder receiver :: .binder ⟨⟨13, 14⟩, some "x"⟩ :: .stmt body[0] :: .stmt body[1] ::
        [.expr (.number ⟨29, 32⟩ "0x1")] := rfl
  obtain ⟨_, _, _, _, _, returns, _, numbers, _, names⟩ := parse_well_formed read
  refine ⟨read, returns body (by simp [nodes, chunk, Node.blocks]), ?_, ?_⟩
  · have carried := names (.binder receiver) (by simp [nodes]) "self" (by simp [receiver, Node.names])
    refine carried.imp id ?_
    rintro ⟨_, b, same, holds⟩
    obtain rfl : receiver = b := Node.binder.inj same
    exact holds
  · exact (numbers ⟨29, 32⟩ "0x1" (by simp [nodes])).2

end LuaSearch
