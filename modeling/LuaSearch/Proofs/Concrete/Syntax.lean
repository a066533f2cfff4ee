import LuaSearch.Proofs.Phrase.Block

/-!
Concrete syntax: source with nothing left out but blanks and comments. Parentheses, semicolons,
separators and the spelling of literals are kept, and so is which of two ways of writing the same
thing was chosen. Such a tree has a text, and it has the syntax tree that the text is read as.

Five forms are shorthands for longer ones: an `elseif`, a single string or table as the arguments of
a call, the access of a field by its name, the field of a table by its name, and a compound
assignment. Each occurrence carries a mark, and the marked ones can be written out. The mark
is no part of the text.
-/
namespace LuaSearch.Concrete

open Lexeme

abbrev Name := { text : String // isName text }

abbrev Numeral := { text : String // isNumber text }

structure StringLiteral where
  long : Bool
  text : String
  stands : Stands (if long then .longString else .string, text)

namespace StringLiteral

def lexeme (s : StringLiteral) : Lexeme := (if s.long then .longString else .string, s.text)

def value (s : StringLiteral) : String := Token.stringValue ⟨s.lexeme.1, default, s.lexeme.2⟩

end StringLiteral

theorem written_name {name : String} (named : isName name) :
    Literal.Written '"' name.toList name.toList := by
  simp only [isName, Bool.and_eq_true, List.all_eq_true] at named
  have continues := named.1.2
  generalize name.toList = cs at continues
  induction cs with
  | nil => exact .nil
  | cons c cs ih =>
    have word : Lexer.continuesWord c := continues c List.mem_cons_self
    have other (d : Char) (never : Lexer.continuesWord d = false) : c ≠ d := by
      rintro rfl
      rw [never] at word
      cases word
    exact .plain (other _ rfl) (other _ rfl) (other _ rfl)
      (ih fun d member => continues d (List.mem_cons_of_mem c member))

def Name.quoted (name : Name) : StringLiteral where
  long := false
  text := "\"" ++ name.1 ++ "\""
  stands := by
    have text : "\"" ++ name.1 ++ "\"" = String.ofList ('"' :: (name.1.toList ++ ['"'])) := by
      apply String.toList_inj.mp
      simp
    rw [text]
    exact stands_quoted (.inl rfl) (written_name name.2)

theorem Name.value_quoted (name : Name) : name.quoted.value = name.1 := by
  have text : ("\"" ++ name.1 ++ "\"").toList = '"' :: (name.1.toList ++ ['"']) := by simp
  have inside : Literal.unescape name.1.toList = name.1.toList :=
    Literal.unescape_written (.inl rfl) (written_name name.2)
  simp [StringLiteral.value, StringLiteral.lexeme, Name.quoted, Token.stringValue,
    Literal.quotedValue, inside]

inductive Separator where
  | comma | semicolon

def Separator.lexeme : Separator → Lexeme
  | comma => ofSymbol .comma
  | semicolon => ofSymbol .semicolon

inductive Compound where
  | add | sub | mul | div | mod | pow | concat
  deriving DecidableEq

namespace Compound

def sign : Compound → Symbol
  | add => .plusEq
  | sub => .minusEq
  | mul => .starEq
  | div => .slashEq
  | mod => .percentEq
  | pow => .caretEq
  | concat => .dotDotEq

def op : Compound → BinaryOp
  | add => .arith .add
  | sub => .arith .sub
  | mul => .arith .mul
  | div => .arith .div
  | mod => .arith .mod
  | pow => .arith .pow
  | concat => .concat

end Compound

structure Parameters where
  names : List Name
  dots : Bool

def Name.binder (name : Name) : Binder := ⟨default, some name.1⟩

def Parameters.tree (ps : Parameters) : Params := ⟨ps.names.map Name.binder, ps.dots⟩

inductive Path where
  | name (name : Name)
  | field (object : Path) (name : Name)

def Path.tree : Path → Expr
  | .name word => .ident default word.1
  | .field object word => .index default object.tree (.string default word.1)

mutual
inductive Head where
  | name (name : Name)
  | group (inside : Term)
  | index (object : Head) (key : Term)
  | access (marked : Bool) (object : Head) (name : Name)
  | call (callee : Head) (args : Args)
  | methodCall (receiver : Head) (method : Name) (args : Args)

inductive Term where
  | constant (value : Constant)
  | number (text : Numeral)
  | string (literal : StringLiteral)
  | function (params : Parameters) (body : Body)
  | table (entries : Entries)
  | head (head : Head)
  | unary (op : UnaryOp) (operand : Term)
  | binary (op : BinaryOp) (left right : Term)

inductive Terms where
  | one (term : Term)
  | more (term : Term) (rest : Terms)

inductive Values where
  | none
  | given (terms : Terms)

inductive Args where
  | list (values : Values)
  | table (marked : Bool) (entries : Entries)
  | string (marked : Bool) (literal : StringLiteral)

inductive Entries where
  | none
  | last (entry : Entry)
  | more (entry : Entry) (separator : Separator) (rest : Entries)

inductive Entry where
  | positional (value : Term)
  | keyed (key value : Term)
  | named (marked : Bool) (name : Name) (value : Term)

inductive Targets where
  | one (head : Head)
  | more (head : Head) (rest : Targets)

inductive Step where
  | none
  | by (step : Term)

inductive Command where
  | assign (targets : Targets) (values : Terms)
  | compound (marked : Bool) (op : Compound) (target : Head) (value : Term)
  | localVars (first : Name) (more : List Name) (values : Values)
  | call (call : Head)
  | doBlock (body : Body)
  | whileLoop (condition : Term) (body : Body)
  | repeatLoop (body : Body) (condition : Term)
  | localFunction (name : Name) (params : Parameters) (body : Body)
  | function (path : Path) (params : Parameters) (body : Body)
  | method (path : Path) (name : Name) (params : Parameters) (body : Body)
  | ifThen (condition : Term) (body : Body) (branch : Branch)
  | breakStmt
  | continueStmt
  | numericFor (var : Name) (start limit : Term) (step : Step) (body : Body)
  | genericFor (first : Name) (more : List Name) (values : Terms) (body : Body)

inductive Branch where
  | none
  | otherwise (body : Body)
  | elseif (marked : Bool) (condition : Term) (body : Body) (branch : Branch)

inductive Body where
  | none
  | result (values : Values) (closed : Bool)
  | semicolon (rest : Body)
  | more (command : Command) (rest : Body)
end

section Phrases

-- What becomes of the values of marked compound assignments in the syntax tree.
variable (value : Expr → Expr)

mutual
@[simp] def Head.phrase : Head → Phrase Expr
  | .name name => .name name.1
  | .group inside => .group inside.phrase
  | .index object key => .index object.phrase key.phrase
  | .access _ object name => .access object.phrase name.1
  | .call callee args => .call callee.phrase args.phrase
  | .methodCall receiver method args => .methodCall receiver.phrase method.1 args.phrase
termination_by structural head => head

@[simp] def Term.phrase : Term → Phrase Expr
  | .constant value => .constant value
  | .number text => .number text.1
  | .string literal => .string literal.lexeme literal.value
  | .function params body => .function params.tree body.phrase
  | .table entries => .table entries.phrase
  | .head head => head.phrase
  | .unary op operand => .unary op operand.phrase
  | .binary op left right => .binary op left.phrase right.phrase
termination_by structural term => term

@[simp] def Terms.phrases : Terms → List (Phrase Expr)
  | .one term => [term.phrase]
  | .more term rest => term.phrase :: rest.phrases
termination_by structural terms => terms

@[simp] def Values.phrases : Values → List (Phrase Expr)
  | .none => []
  | .given terms => terms.phrases
termination_by structural values => values

@[simp] def Args.phrase : Args → Phrase (List Expr)
  | .list values => .argList values.phrases
  | .table _ entries => .tableArg entries.phrase
  | .string _ literal => .stringArg literal.lexeme literal.value
termination_by structural args => args

@[simp] def Entries.phrase : Entries → Phrase (List Field)
  | .none => ⟨[], 0, []⟩
  | .last entry => ⟨entry.phrase.text, entry.phrase.levels, [entry.phrase.tree]⟩
  | .more entry separator rest =>
      ⟨entry.phrase.text ++ separator.lexeme :: rest.phrase.text,
        max entry.phrase.levels rest.phrase.levels, entry.phrase.tree :: rest.phrase.tree⟩
termination_by structural entries => entries

@[simp] def Entry.phrase : Entry → Phrase Field
  | .positional value => .positional value.phrase
  | .keyed key value => .keyed key.phrase value.phrase
  | .named _ name value => .named name.1 value.phrase
termination_by structural entry => entry

@[simp] def Targets.phrases : Targets → List (Phrase Expr)
  | .one head => [head.phrase]
  | .more head rest => head.phrase :: rest.phrases
termination_by structural targets => targets

@[simp] def Step.phrase? : Step → Option (Phrase Expr)
  | .none => none
  | .by step => some step.phrase
termination_by structural step => step

@[simp] def Command.phrase : Command → Phrase Stmt
  | .assign targets values => .assign targets.phrases values.phrases
  | .compound marked op target e =>
      .compound op.sign op.op target.phrase
        { e.phrase with tree := if marked then value e.phrase.tree else e.phrase.tree }
  | .localVars first more values => .localVars ((first :: more).map Name.binder) values.phrases
  | .call call => .callStmt call.phrase
  | .doBlock body => .doBlock body.phrase
  | .whileLoop condition body => .whileLoop condition.phrase body.phrase
  | .repeatLoop body condition => .repeatLoop body.phrase condition.phrase
  | .localFunction name params body => .localFunction name.1 params.tree body.phrase
  | .function path params body => .function_ path.tree params.tree body.phrase
  | .method path name params body => .method path.tree name.1 params.tree body.phrase
  | .ifThen condition body branch => .ifStmt condition.phrase body.phrase branch.phrase
  | .breakStmt => .breakStmt
  | .continueStmt => .continueStmt
  | .numericFor var start limit step body =>
      .numericFor var.1 start.phrase limit.phrase step.phrase? body.phrase
  | .genericFor first more values body =>
      .genericFor first.1 (more.map Subtype.val) values.phrases body.phrase
termination_by structural command => command

@[simp] def Branch.phrase : Branch → Phrase Block
  | .none => .noElse
  | .otherwise body => .elseBlock body.phrase
  | .elseif _ condition body branch => .elseif condition.phrase body.phrase branch.phrase
termination_by structural branch => branch

@[simp] def Body.phrase : Body → Phrase Block
  | .none => .emptyBody
  | .result values closed => .result values.phrases closed
  | .semicolon rest => .semicolon rest.phrase
  | .more command rest => .follow command.phrase rest.phrase
termination_by structural body => body
end

end Phrases

abbrev Head.text (head : Head) : List Lexeme := (head.phrase id).text

abbrev Term.text (term : Term) : List Lexeme := (term.phrase id).text

abbrev Body.text (body : Body) : List Lexeme := (body.phrase id).text

mutual
def Head.isCall : Head → Bool
  | .call .. | .methodCall .. => true
  | .group inside => inside.isCall
  | .name _ | .index .. | .access .. => false
termination_by structural head => head

def Term.isCall : Term → Bool
  | .head head => head.isCall
  | _ => false
termination_by structural term => term
end

mutual
def Head.isAssignable : Head → Bool
  | .name _ | .index .. | .access .. => true
  | .group inside => inside.isAssignable
  | .call .. | .methodCall .. => false
termination_by structural head => head

def Term.isAssignable : Term → Bool
  | .head head => head.isAssignable
  | _ => false
termination_by structural term => term
end

/-- An access or a call behind it would be taken for a part of it. -/
def Term.isOpen : Term → Bool
  | .head _ => true
  | .unary _ operand => operand.isOpen
  | .binary _ _ right => right.isOpen
  | _ => false
termination_by structural term => term

/-- No reader that the text leaves open takes the operator behind it. -/
def Term.closes (next : BinaryOp) : Term → Bool
  | .unary _ operand => next.leftPriority ≤ UnaryOp.priority && operand.closes next
  | .binary op _ right => next.leftPriority ≤ op.rightPriority && right.closes next
  | _ => true
termination_by structural term => term

def Terms.isOpen : Terms → Bool
  | .one term => term.isOpen
  | .more _ rest => rest.isOpen
termination_by structural terms => terms

def Values.isOpen : Values → Bool
  | .none => false
  | .given terms => terms.isOpen

def Command.isOpen : Command → Bool
  | .assign _ values => values.isOpen
  | .compound _ _ _ value => value.isOpen
  | .localVars _ _ values => values.isOpen
  | .call _ => true
  | .repeatLoop _ condition => condition.isOpen
  | _ => false

def Head.startsGroup : Head → Bool
  | .name _ => false
  | .group _ => true
  | .index object _ | .access _ object _ => object.startsGroup
  | .call callee _ => callee.startsGroup
  | .methodCall receiver _ _ => receiver.startsGroup
termination_by structural head => head

def Targets.startsGroup : Targets → Bool
  | .one head | .more head _ => head.startsGroup

def Command.startsGroup : Command → Bool
  | .assign targets _ => targets.startsGroup
  | .compound _ _ target _ => target.startsGroup
  | .call head => head.startsGroup
  | _ => false

def Body.startsGroup : Body → Bool
  | .more command _ => command.startsGroup
  | _ => false

mutual
@[simp] def Head.formed : Head → Bool
  | .name _ => true
  | .group inside => inside.formed 0
  | .index object key => object.formed && key.formed 0
  | .access _ object _ => object.formed
  | .call callee args => callee.formed && args.formed
  | .methodCall receiver _ args => receiver.formed && args.formed
termination_by structural head => head

/-- Operators are grouped as their priorities say, and those that are not in parentheses bind
    tighter than the limit. -/
@[simp] def Term.formed : Term → Nat → Bool
  | .constant _, _ | .number _, _ | .string _, _ => true
  | .function _ body, _ => body.formed
  | .table entries, _ => entries.formed
  | .head head, _ => head.formed
  | .unary _ operand, _ => operand.formed UnaryOp.priority
  | .binary op left right, limit =>
      limit < op.leftPriority && left.closes op && left.formed limit &&
        right.formed op.rightPriority
termination_by structural term => term

@[simp] def Terms.formed : Terms → Bool
  | .one term => term.formed 0
  | .more term rest => term.formed 0 && rest.formed
termination_by structural terms => terms

@[simp] def Values.formed : Values → Bool
  | .none => true
  | .given terms => terms.formed
termination_by structural values => values

@[simp] def Args.formed : Args → Bool
  | .list values => values.formed
  | .table _ entries => entries.formed
  | .string .. => true
termination_by structural args => args

@[simp] def Entries.formed : Entries → Bool
  | .none => true
  | .last entry => entry.formed
  | .more entry _ rest => entry.formed && rest.formed
termination_by structural entries => entries

@[simp] def Entry.formed : Entry → Bool
  | .positional value => value.formed 0
  | .keyed key value => key.formed 0 && value.formed 0
  | .named _ _ value => value.formed 0
termination_by structural entry => entry

@[simp] def Targets.formed : Targets → Bool
  | .one head => head.isAssignable && head.formed
  | .more head rest => head.isAssignable && head.formed && rest.formed
termination_by structural targets => targets

@[simp] def Step.formed : Step → Bool
  | .none => true
  | .by step => step.formed 0
termination_by structural step => step

@[simp] def Command.formed : Command → Bool
  | .assign targets values => targets.formed && values.formed
  | .compound _ _ target value => target.isAssignable && target.formed && value.formed 0
  | .localVars _ _ values => values.formed
  | .call call => call.isCall && call.formed
  | .doBlock body => body.formed
  | .whileLoop condition body => condition.formed 0 && body.formed
  | .repeatLoop body condition => body.formed && condition.formed 0
  | .localFunction _ _ body | .function _ _ body | .method _ _ _ body => body.formed
  | .ifThen condition body branch => condition.formed 0 && body.formed && branch.formed
  | .breakStmt | .continueStmt => true
  | .numericFor _ start limit step body =>
      start.formed 0 && limit.formed 0 && step.formed && body.formed
  | .genericFor _ _ values body => values.formed && body.formed
termination_by structural command => command

@[simp] def Branch.formed : Branch → Bool
  | .none => true
  | .otherwise body => body.formed
  | .elseif _ condition body branch => condition.formed 0 && body.formed && branch.formed
termination_by structural branch => branch

/-- Behind an open end no statement starts with a parenthesis. -/
@[simp] def Body.formed : Body → Bool
  | .none => true
  | .result values _ => values.formed
  | .semicolon rest => rest.formed
  | .more command rest =>
      command.formed && !(command.isOpen && rest.startsGroup) && rest.formed
termination_by structural body => body
end

section WrittenOut

-- Whether compound assignments are written out whose value is a call.
variable (calls : Bool)

def Command.isWrittenOut : Command → Bool
  | .compound marked _ _ value => marked && (calls || !value.isCall)
  | _ => false

mutual
@[simp] def Head.writtenOut : Head → Head
  | .name name => .name name
  | .group inside => .group inside.writtenOut
  | .index object key => .index object.writtenOut key.writtenOut
  | .access marked object name =>
      if marked then .index object.writtenOut (.string name.quoted)
      else .access marked object.writtenOut name
  | .call callee args => .call callee.writtenOut args.writtenOut
  | .methodCall receiver method args =>
      .methodCall receiver.writtenOut method args.writtenOut
termination_by structural head => head

@[simp] def Term.writtenOut : Term → Term
  | .constant value => .constant value
  | .number text => .number text
  | .string literal => .string literal
  | .function params body => .function params body.writtenOut
  | .table entries => .table entries.writtenOut
  | .head head => .head head.writtenOut
  | .unary op operand => .unary op operand.writtenOut
  | .binary op left right => .binary op left.writtenOut right.writtenOut
termination_by structural term => term

@[simp] def Terms.writtenOut : Terms → Terms
  | .one term => .one term.writtenOut
  | .more term rest => .more term.writtenOut rest.writtenOut
termination_by structural terms => terms

@[simp] def Values.writtenOut : Values → Values
  | .none => .none
  | .given terms => .given terms.writtenOut
termination_by structural values => values

@[simp] def Args.writtenOut : Args → Args
  | .list values => .list values.writtenOut
  | .table marked entries =>
      if marked then .list (.given (.one (.table entries.writtenOut)))
      else .table marked entries.writtenOut
  | .string marked literal =>
      if marked then .list (.given (.one (.string literal))) else .string marked literal
termination_by structural args => args

@[simp] def Entries.writtenOut : Entries → Entries
  | .none => .none
  | .last entry => .last entry.writtenOut
  | .more entry separator rest => .more entry.writtenOut separator rest.writtenOut
termination_by structural entries => entries

@[simp] def Entry.writtenOut : Entry → Entry
  | .positional value => .positional value.writtenOut
  | .keyed key value => .keyed key.writtenOut value.writtenOut
  | .named marked name value =>
      if marked then .keyed (.string name.quoted) value.writtenOut
      else .named marked name value.writtenOut
termination_by structural entry => entry

@[simp] def Targets.writtenOut : Targets → Targets
  | .one head => .one head.writtenOut
  | .more head rest => .more head.writtenOut rest.writtenOut
termination_by structural targets => targets

@[simp] def Step.writtenOut : Step → Step
  | .none => .none
  | .by step => .by step.writtenOut
termination_by structural step => step

/-- `target op= value` becomes `target = target op (value)`. -/
@[simp] def Command.writtenOut : Command → Command
  | .assign targets values => .assign targets.writtenOut values.writtenOut
  | .compound marked op target value =>
      if marked && (calls || !value.isCall) then
        .assign (.one target.writtenOut)
          (.one (.binary op.op (.head target.writtenOut) (.head (.group value.writtenOut))))
      else .compound marked op target.writtenOut value.writtenOut
  | .localVars first more values => .localVars first more values.writtenOut
  | .call call => .call call.writtenOut
  | .doBlock body => .doBlock body.writtenOut
  | .whileLoop condition body => .whileLoop condition.writtenOut body.writtenOut
  | .repeatLoop body condition => .repeatLoop body.writtenOut condition.writtenOut
  | .localFunction name params body => .localFunction name params body.writtenOut
  | .function path params body => .function path params body.writtenOut
  | .method path name params body => .method path name params body.writtenOut
  | .ifThen condition body branch =>
      .ifThen condition.writtenOut body.writtenOut branch.writtenOut
  | .breakStmt => .breakStmt
  | .continueStmt => .continueStmt
  | .numericFor var start limit step body =>
      .numericFor var start.writtenOut limit.writtenOut step.writtenOut body.writtenOut
  | .genericFor first more values body =>
      .genericFor first more values.writtenOut body.writtenOut
termination_by structural command => command

@[simp] def Branch.writtenOut : Branch → Branch
  | .none => .none
  | .otherwise body => .otherwise body.writtenOut
  | .elseif marked condition body branch =>
      if marked then
        .otherwise (.more (.ifThen condition.writtenOut body.writtenOut branch.writtenOut) .none)
      else .elseif marked condition.writtenOut body.writtenOut branch.writtenOut
termination_by structural branch => branch

@[simp] def Body.writtenOut : Body → Body
  | .none => .none
  | .result values closed => .result values.writtenOut closed
  | .semicolon rest => .semicolon rest.writtenOut
  | .more command rest =>
      .more command.writtenOut
        (if command.isWrittenOut calls then .semicolon rest.writtenOut else rest.writtenOut)
termination_by structural body => body
end

end WrittenOut

end LuaSearch.Concrete
