import LuaSearch.Match.Captures

/-!
Comparing a candidate with a template, candidate first. Shapes are compared, not contents: names,
methods, literal values, unary operators, table fields and the bounds of a numeric loop may
differ. A wildcard takes a candidate of its kind and records it. A name can stand for any
expression wildcard, since markers are written as names; only the wildcards for names and
functions record it. Wildcards of the candidate match nothing.
-/
namespace LuaSearch.Compare

def number (span : Span) (text : String) : Expr → Comparison
  | .number .. => .yes
  | .wildcard _ .number => .recorded (.ofExpr (.number span text))
  | _ => .no

def string (span : Span) (value : String) : Expr → Comparison
  | .string .. => .yes
  | .wildcard _ .string => .recorded (.ofExpr (.string span value))
  | _ => .no

def ident (span : Span) (name : String) : Expr → Comparison
  | .ident .. => .yes
  | .wildcard _ .ident | .wildcard _ .function => .recorded (.ofExpr (.ident span name))
  | .wildcard .. => .yes
  | _ => .no

def constant (value : Constant) : Expr → Comparison
  | .constant _ other => .test (value = other)
  | _ => .no

def unitStep (span : Span) : Expr := .number span "1"

def declared : List Binder → List Binder → Captures
  | b :: bs, t :: ts =>
      match b.name?, t.name? with
      | some name, none => .ofExpr (.ident b.span name) ++ declared bs ts
      | _, _ => declared bs ts
  | _, _ => ∅

/-- Two lists compare only at equal length; the pairs are compared by `pairs`. -/
@[macro_inline] def sized {α : Type} (items others : List α) (pairs : Comparison) : Comparison :=
  (Comparison.test (items.length = others.length)).and pairs

/-- An empty template body takes any body. -/
@[macro_inline] def bodies (body other : Block) (pairs : Comparison) : Comparison :=
  if other.isEmpty then .yes else sized body other pairs

/-- Functions compare by the shape of their parameters and by their bodies. Names are recorded
    last. -/
@[macro_inline] def functions (params others : Params) (body : Comparison) : Comparison :=
  ((Comparison.test (params.hasVarargs = others.hasVarargs)).and
    (sized params.names others.names body)).and
      (.recorded (declared params.names others.names))

mutual
def expr : Expr → Expr → Comparison
  | .constant _ value, t => constant value t
  | .string span value, t => string span value t
  | .number span text, t => number span text t
  | .ident span name, t => ident span name t
  | .unary _ _ operand, .unary _ _ other => expr operand other
  | .binary _ op left right, .binary _ otherOp otherLeft otherRight =>
      ((Comparison.test (op = otherOp)).and (expr left otherLeft)).and (expr right otherRight)
  | .index _ object key, .index _ otherObject otherKey =>
      (expr object otherObject).and (expr key otherKey)
  | .table .., .table .. => .yes
  | .call _ callee args adjusted, .call _ otherCallee otherArgs otherAdjusted =>
      (Comparison.test (adjusted = otherAdjusted)).and
        (sized args otherArgs ((expr callee otherCallee).and (exprPairs args otherArgs)))
  | .methodCall _ receiver _ args adjusted,
      .methodCall _ otherReceiver _ otherArgs otherAdjusted =>
      (Comparison.test (adjusted = otherAdjusted)).and
        (sized args otherArgs ((expr receiver otherReceiver).and (exprPairs args otherArgs)))
  | .function span params body, .wildcard _ .function =>
      .recorded (.ofExpr (.function span params body))
  | .function _ params body, .function _ otherParams otherBody =>
      functions params otherParams (bodies body otherBody (stmtPairs body otherBody))
  | _, _ => .no
termination_by structural e => e

def exprPairs : List Expr → List Expr → Comparison
  | e :: es, t :: ts => (expr e t).and (exprPairs es ts)
  | _, _ => .yes
termination_by structural es => es

def steps (span otherSpan : Span) : Option Expr → Option Expr → Comparison
  | none, none => .yes
  | none, some t => number span "1" t
  | some e, none => expr e (unitStep otherSpan)
  | some e, some t => expr e t
termination_by structural e => e

def stmt : Stmt → Stmt → Comparison
  | .assign _ targets values, .assign _ otherTargets otherValues =>
      sized targets otherTargets <| sized values otherValues <|
        (exprPairs targets otherTargets).and (exprPairs values otherValues)
  | .localVars _ names values, .localVars _ otherNames otherValues =>
      (sized names otherNames <| sized values otherValues <| exprPairs values otherValues).and
        (.recorded (declared names otherNames))
  | .call _ call, .call _ other => expr call other
  | .doBlock _ body, .doBlock _ other => bodies body other (stmtPairs body other)
  | .whileLoop _ condition body, .whileLoop _ otherCondition otherBody =>
      (expr condition otherCondition).and (bodies body otherBody (stmtPairs body otherBody))
  | .repeatLoop _ body condition, .repeatLoop _ otherBody otherCondition =>
      (expr condition otherCondition).and (bodies body otherBody (stmtPairs body otherBody))
  | .localFunction span name params body, .wildcard _ .localFunction =>
      .recorded (.ofStmt (.localFunction span name params body))
  | .localFunction _ _ params body, .localFunction _ _ otherParams otherBody =>
      functions params otherParams (bodies body otherBody (stmtPairs body otherBody))
  | .function _ target method? params body,
      .function _ otherTarget otherMethod? otherParams otherBody =>
      (Comparison.test (method?.isSome = otherMethod?.isSome)).and <|
        (expr target otherTarget).and <|
          functions params otherParams (bodies body otherBody (stmtPairs body otherBody))
  | .returnStmt _ values, .returnStmt _ others => sized values others (exprPairs values others)
  | .ifStmt span condition thenBody elseBody, .wildcard _ .ifStmt =>
      .recorded (.ofStmt (.ifStmt span condition thenBody elseBody))
  | .ifStmt _ condition thenBody elseBody, .ifStmt _ otherCondition otherThen otherElse =>
      (expr condition otherCondition).and <|
        (bodies thenBody otherThen (stmtPairs thenBody otherThen)).and
          (bodies elseBody otherElse (stmtPairs elseBody otherElse))
  | .breakStmt _, .breakStmt _ => .yes
  | .numericFor span _ _ _ step? body, .numericFor otherSpan _ _ _ otherStep? otherBody =>
      (steps span otherSpan step? otherStep?).and
        (bodies body otherBody (stmtPairs body otherBody))
  | .genericFor _ names es body, .genericFor _ otherNames otherExprs otherBody =>
      sized names otherNames <|
        (sized es otherExprs (exprPairs es otherExprs)).and
          (bodies body otherBody (stmtPairs body otherBody))
  | _, _ => .no
termination_by structural s => s

def stmtPairs : List Stmt → List Stmt → Comparison
  | s :: ss, t :: ts => (stmt s t).and (stmtPairs ss ts)
  | _, _ => .yes
termination_by structural ss => ss
end

def exprs (es ts : List Expr) : Comparison := sized es ts (exprPairs es ts)

def stmts (ss ts : Block) : Comparison := bodies ss ts (stmtPairs ss ts)

end LuaSearch.Compare
