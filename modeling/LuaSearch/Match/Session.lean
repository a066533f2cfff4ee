import LuaSearch.Match.Walk

/-!
Several questions about one template, asked one after another in one session. The captures of
all of them are collected.
-/
namespace LuaSearch

inductive Question where
  | scan (chunk : Block)
  | exprEqual (candidate template : Expr)
  | exprsEqual (candidates templates : List Expr)
  | stmtEqual (candidate template : Stmt)
  | stmtsEqual (candidates templates : Block)
  | traverse (exprs : List Expr)

inductive Answer where
  | verdict (verdict : Verdict)
  | flag (value : Bool)
  deriving DecidableEq, Repr

def Question.walk : Question → Walk Answer
  | scan chunk => return .verdict (← Walk.scan chunk)
  | exprEqual e t => return .flag (← Walk.compare (Compare.expr e t))
  | exprsEqual es ts => return .flag (← Walk.compare (Compare.exprs es ts))
  | stmtEqual s t => return .flag (← Walk.compare (Compare.stmt s t))
  | stmtsEqual ss ts => return .flag (← Walk.compare (Compare.stmts ss ts))
  | traverse es => return .flag (← Walk.traverse es)

def Session.ask (session : Session) (question : Question) : Except MatchError Answer × Session :=
  question.walk.runOn session

/-- The answers to questions asked one after another, and the session after the last. A question
    that ends with an error does not end the session. -/
def Session.askAll (session : Session) :
    List Question → List (Except MatchError Answer) × Session
  | [] => ([], session)
  | question :: rest =>
      let (answer, after) := session.ask question
      let (answers, last) := after.askAll rest
      (answer :: answers, last)

end LuaSearch
