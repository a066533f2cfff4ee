import LuaSearch.Proofs.Match.Recorded

/-!
Where captures come from. What a search leaves recorded are nodes of the candidate, of the kinds
that wildcards ask for; the names that the candidate declares, as names at their place; and, for a
numeric loop that states no step, the number one at the place of the loop. So its captures come from
the nodes of what it searched, whatever it finds.
-/
namespace LuaSearch

/-- What a captured expression is to a tree with these nodes. -/
inductive ExprFrom (nodes : List Node) : Expr → Prop where
  | ident {span : Span} {name : String} (member : .expr (.ident span name) ∈ nodes) :
      ExprFrom nodes (.ident span name)
  | string {span : Span} {value : String} (member : .expr (.string span value) ∈ nodes) :
      ExprFrom nodes (.string span value)
  | number {span : Span} {text : String} (member : .expr (.number span text) ∈ nodes) :
      ExprFrom nodes (.number span text)
  | function {span : Span} {ps : Params} {body : Block}
      (member : .expr (.function span ps body) ∈ nodes) : ExprFrom nodes (.function span ps body)
  | declared {span : Span} {name : String} (member : .binder ⟨span, some name⟩ ∈ nodes) :
      ExprFrom nodes (.ident span name)
  | unitStep {span : Span} {var : String} {start limit : Expr} {body : Block}
      (member : .stmt (.numericFor span var start limit none body) ∈ nodes) :
      ExprFrom nodes (Compare.unitStep span)

inductive StmtFrom (nodes : List Node) : Stmt → Prop where
  | localFunction {span : Span} {name : String} {ps : Params} {body : Block}
      (member : .stmt (.localFunction span name ps body) ∈ nodes) :
      StmtFrom nodes (.localFunction span name ps body)
  | ifStmt {span : Span} {condition : Expr} {thenBody elseBody : Block}
      (member : .stmt (.ifStmt span condition thenBody elseBody) ∈ nodes) :
      StmtFrom nodes (.ifStmt span condition thenBody elseBody)

structure Captures.From (nodes : List Node) (captures : Captures) : Prop where
  exprs : ∀ e ∈ captures.exprs, ExprFrom nodes e
  stmts : ∀ s ∈ captures.stmts, StmtFrom nodes s

namespace Captures.From

variable {nodes : List Node} {a b : Captures}

theorem empty : From nodes ∅ := ⟨by simp, by simp⟩

theorem ofExpr {e : Expr} (origin : ExprFrom nodes e) : From nodes (.ofExpr e) :=
  ⟨by simpa [Captures.ofExpr] using origin, by simp [Captures.ofExpr]⟩

theorem ofStmt {s : Stmt} (origin : StmtFrom nodes s) : From nodes (.ofStmt s) :=
  ⟨by simp [Captures.ofStmt], by simpa [Captures.ofStmt] using origin⟩

theorem append (first : From nodes a) (second : From nodes b) : From nodes (a ++ b) where
  exprs := by
    intro e member
    rcases List.mem_append.mp member with earlier | later
    · exact first.exprs e earlier
    · exact second.exprs e later
  stmts := by
    intro s member
    rcases List.mem_append.mp member with earlier | later
    · exact first.stmts s earlier
    · exact second.stmts s later

theorem recording (nodes : List Node) : Recording (· ∈ nodes) (fun _ => True) (From nodes) where
  empty := empty
  append := append
  expr {e} recordable member := by
    apply ofExpr
    cases e with
    | ident => exact .ident member
    | string => exact .string member
    | number => exact .number member
    | function => exact .function member
    | _ => cases recordable
  stmt {s} recordable member := by
    apply ofStmt
    cases s with
    | localFunction => exact .localFunction member
    | ifStmt => exact .ifStmt member
    | _ => cases recordable
  declared _ t _ binders _ _ := by
    refine Compare.declared_of_each empty append ?_ t.declares
    rintro ⟨span, name?⟩ member name ⟨⟩
    exact ofExpr (.declared (binders _ member))
  unitStep member := ofExpr (.unitStep member)
  impliedStep _ := trivial

end Captures.From

theorem Scan.within_levels_from (template : List Stmt) (options : Options) (left : Nat) (s : Stmt) :
    (within (levels template options left) s).captures.From (Nodes.stmt s) := by
  have recording := Captures.From.recording (Nodes.stmt s)
  apply within_records recording
  rintro ⟨scope, body⟩ opens
  apply levels_records recording (fun _ _ => trivial)
  intro node below
  exact Nodes.opening_subset opens below

theorem captures_from {candidate : Block} {template : Template} {options : Options} {found : Found}
    (ok : find candidate template options = .ok found) :
    found.captures.From (Nodes.stmts candidate) := by
  have recording := Captures.From.recording (Nodes.stmts candidate)
  exact find_records recording ok (fun _ member => member) fun _ _ => trivial

/-- Whatever the verdict of a search is, its captures come from the candidate. A captured statement
    is a node of it, a local function or an `if`. A captured expression is a node of it, a name, a
    literal or a function; or the name of a local or a parameter, at the place where it is declared;
    or the number one, at the place of a numeric loop that states no step. -/
theorem find_captures_origin {candidate : Block} {template : Template} {options : Options}
    {found : Found} (ok : find candidate template options = .ok found) :
    (∀ s ∈ found.captures.stmts, .stmt s ∈ Nodes.stmts candidate ∧
      s.kindName ∈ ["local function", "if"]) ∧
    ∀ e ∈ found.captures.exprs,
      (.expr e ∈ Nodes.stmts candidate ∧
        e.kindName ∈ ["identifier", "string", "number", "function"]) ∨
      (∃ name, e = .ident e.span name ∧ .binder ⟨e.span, some name⟩ ∈ Nodes.stmts candidate) ∨
      (e = .number e.span "1" ∧ ∃ var start limit body,
        .stmt (.numericFor e.span var start limit none body) ∈ Nodes.stmts candidate) := by
  have origin := captures_from ok
  constructor
  · intro s recorded
    cases origin.stmts s recorded with
    | localFunction member => exact ⟨member, by simp [Stmt.kindName]⟩
    | ifStmt member => exact ⟨member, by simp [Stmt.kindName]⟩
  · intro e recorded
    cases origin.exprs e recorded with
    | ident member | string member | number member | function member =>
      exact .inl ⟨member, by simp [Expr.kindName]⟩
    | declared member => exact .inr (.inl ⟨_, rfl, member⟩)
    | unitStep member => exact .inr (.inr ⟨rfl, _, _, _, _, member⟩)

/-- A search without a match that retains what it recorded: a parameter at the place where it is
    declared, and the step that the loop leaves out. -/
theorem find_captures_origin_retained :
    let loop (span : Span) (step? : Option Expr) : Stmt :=
      .numericFor span "i" (.number ⟨20, 21⟩ "2") (.ident ⟨23, 24⟩ "n") step? []
    let declared (name? : Option String) (inner : Stmt) : Stmt :=
      .localFunction ⟨0, 40⟩ "f" ⟨[⟨⟨17, 18⟩, name?⟩], false⟩ [inner]
    let candidate : Block := [declared (some "n") (loop ⟨20, 36⟩ none)]
    let template : Template :=
      ⟨[declared none (loop ⟨0, 0⟩ (some (.wildcard ⟨0, 0⟩ .number))), .breakStmt ⟨0, 0⟩], by simp⟩
    let found : Found :=
      ⟨.noMatch, ⟨[.number ⟨20, 36⟩ "1", .ident ⟨17, 18⟩ "n"], []⟩⟩
    find candidate template default = .ok found ∧
      ∀ e ∈ found.captures.exprs, e.kindName = "identifier" →
        .expr e ∈ Nodes.stmts candidate ∨
          ∃ name, .binder ⟨e.span, some name⟩ ∈ Nodes.stmts candidate := by
  intro loop declared candidate template found
  have ok : find candidate template default = .ok found := rfl
  refine ⟨ok, ?_⟩
  intro e recorded kind
  rcases (find_captures_origin ok).2 e recorded with
    ⟨member, _⟩ | ⟨name, _, member⟩ | ⟨one, _⟩
  · exact .inl member
  · exact .inr ⟨name, member⟩
  · rw [one] at kind
    simp [Expr.kindName] at kind

end LuaSearch
