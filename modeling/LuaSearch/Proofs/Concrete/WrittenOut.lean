import LuaSearch.Proofs.Concrete.Reads

/-!
Writing shorthands out keeps a concrete tree formed, and keeps its syntax tree but for the values of
compound assignments, which then stand in parentheses.
-/
namespace LuaSearch.Concrete

section

variable {calls : Bool}

mutual
@[simp] theorem isCall_writtenOut_head : ∀ h : Head, (h.writtenOut calls).isCall = h.isCall
  | .group inside => isCall_writtenOut_term inside
  | .access marked _ _ => by cases marked <;> rfl
  | .name _ | .index .. | .call .. | .methodCall .. => rfl
termination_by structural h => h

@[simp] theorem isCall_writtenOut_term : ∀ t : Term, (t.writtenOut calls).isCall = t.isCall
  | .head head => isCall_writtenOut_head head
  | .constant _ | .number _ | .string _ | .function .. | .table _ | .unary .. | .binary .. => rfl
termination_by structural t => t
end

mutual
@[simp] theorem isAssignable_writtenOut_head :
    ∀ h : Head, (h.writtenOut calls).isAssignable = h.isAssignable
  | .group inside => isAssignable_writtenOut_term inside
  | .access marked _ _ => by cases marked <;> rfl
  | .name _ | .index .. | .call .. | .methodCall .. => rfl
termination_by structural h => h

@[simp] theorem isAssignable_writtenOut_term :
    ∀ t : Term, (t.writtenOut calls).isAssignable = t.isAssignable
  | .head head => isAssignable_writtenOut_head head
  | .constant _ | .number _ | .string _ | .function .. | .table _ | .unary .. | .binary .. => rfl
termination_by structural t => t
end

@[simp] theorem isOpen_writtenOut_term : ∀ t : Term, (t.writtenOut calls).isOpen = t.isOpen
  | .unary _ operand => isOpen_writtenOut_term operand
  | .binary _ _ right => isOpen_writtenOut_term right
  | .constant _ | .number _ | .string _ | .function .. | .table _ | .head _ => rfl
termination_by structural t => t

@[simp] theorem closes_writtenOut (op : BinaryOp) :
    ∀ t : Term, (t.writtenOut calls).closes op = t.closes op
  | .unary _ operand => by simp [Term.closes, closes_writtenOut op operand]
  | .binary _ _ right => by simp [Term.closes, closes_writtenOut op right]
  | .constant _ | .number _ | .string _ | .function .. | .table _ | .head _ => rfl
termination_by structural t => t

@[simp] theorem isOpen_writtenOut_terms : ∀ ts : Terms, (ts.writtenOut calls).isOpen = ts.isOpen
  | .one term => isOpen_writtenOut_term term
  | .more _ rest => isOpen_writtenOut_terms rest
termination_by structural ts => ts

@[simp] theorem isOpen_writtenOut_values (vs : Values) :
    (vs.writtenOut calls).isOpen = vs.isOpen := by
  cases vs with
  | none => rfl
  | given terms => exact isOpen_writtenOut_terms terms

@[simp] theorem startsGroup_writtenOut_head :
    ∀ h : Head, (h.writtenOut calls).startsGroup = h.startsGroup
  | .access marked object _ => by cases marked <;> exact startsGroup_writtenOut_head object
  | .index object _ => startsGroup_writtenOut_head object
  | .call callee _ => startsGroup_writtenOut_head callee
  | .methodCall receiver _ _ => startsGroup_writtenOut_head receiver
  | .name _ | .group _ => rfl
termination_by structural h => h

theorem isOpen_writtenOut_command {c : Command} (kept : c.isWrittenOut calls = false) :
    (c.writtenOut calls).isOpen = c.isOpen := by
  cases c with
  | compound marked op target value =>
    have kept : (marked && (calls || !value.isCall)) = false := kept
    simp [kept, Command.isOpen]
  | _ => simp [Command.isOpen]

@[simp] theorem startsGroup_writtenOut_command (c : Command) :
    (c.writtenOut calls).startsGroup = c.startsGroup := by
  cases c with
  | assign targets values =>
    cases targets <;> exact startsGroup_writtenOut_head _
  | compound marked op target value =>
    simp only [Command.writtenOut]
    split <;> exact startsGroup_writtenOut_head target
  | call call => exact startsGroup_writtenOut_head call
  | _ => rfl

@[simp] theorem startsGroup_writtenOut_body (body : Body) :
    (body.writtenOut calls).startsGroup = body.startsGroup := by
  cases body with
  | more command rest => exact startsGroup_writtenOut_command command
  | _ => rfl

mutual
theorem formed_head : ∀ h : Head, h.formed → (h.writtenOut calls).formed
  | .name _, _ => rfl
  | .group inside, formed => formed_term inside 0 formed
  | .index object key, formed => by
      simp only [Head.formed, Bool.and_eq_true] at formed
      simp [formed_head object formed.1, formed_term key 0 formed.2]
  | .access marked object _, formed => by
      have kept := formed_head object formed
      cases marked <;> simp [kept]
  | .call callee args, formed => by
      simp only [Head.formed, Bool.and_eq_true] at formed
      simp [formed_head callee formed.1, formed_args args formed.2]
  | .methodCall receiver _ args, formed => by
      simp only [Head.formed, Bool.and_eq_true] at formed
      simp [formed_head receiver formed.1, formed_args args formed.2]
termination_by structural h => h

theorem formed_term : ∀ (t : Term) (limit : Nat), t.formed limit →
    (t.writtenOut calls).formed limit
  | .constant _, _, _ | .number _, _, _ | .string _, _, _ => rfl
  | .function _ body, _, formed => formed_body body formed
  | .table entries, _, formed => formed_entries entries formed
  | .head head, _, formed => formed_head head formed
  | .unary _ operand, _, formed => formed_term operand _ formed
  | .binary op left right, limit, formed => by
      simp only [Term.formed, Bool.and_eq_true] at formed
      obtain ⟨⟨⟨tighter, closes⟩, leftFormed⟩, rightFormed⟩ := formed
      simp [tighter, closes, formed_term left limit leftFormed, formed_term right _ rightFormed]
termination_by structural t => t

theorem formed_terms : ∀ ts : Terms, ts.formed → (ts.writtenOut calls).formed
  | .one term, formed => formed_term term 0 formed
  | .more term rest, formed => by
      simp only [Terms.formed, Bool.and_eq_true] at formed
      simp [formed_term term 0 formed.1, formed_terms rest formed.2]
termination_by structural ts => ts

theorem formed_values : ∀ vs : Values, vs.formed → (vs.writtenOut calls).formed
  | .none, _ => rfl
  | .given terms, formed => formed_terms terms formed
termination_by structural vs => vs

theorem formed_args : ∀ args : Args, args.formed → (args.writtenOut calls).formed
  | .list values, formed => formed_values values formed
  | .table marked entries, formed => by
      cases marked <;> exact formed_entries entries formed
  | .string marked _, _ => by cases marked <;> rfl
termination_by structural args => args

theorem formed_entries : ∀ entries : Entries, entries.formed → (entries.writtenOut calls).formed
  | .none, _ => rfl
  | .last entry, formed => formed_entry entry formed
  | .more entry _ rest, formed => by
      simp only [Entries.formed, Bool.and_eq_true] at formed
      simp [formed_entry entry formed.1, formed_entries rest formed.2]
termination_by structural entries => entries

theorem formed_entry : ∀ entry : Entry, entry.formed → (entry.writtenOut calls).formed
  | .positional value, formed => formed_term value 0 formed
  | .keyed key value, formed => by
      simp only [Entry.formed, Bool.and_eq_true] at formed
      simp [formed_term key 0 formed.1, formed_term value 0 formed.2]
  | .named marked _ value, formed => by
      have kept := formed_term value 0 formed
      cases marked <;> simp [kept]
termination_by structural entry => entry

theorem formed_targets : ∀ ts : Targets, ts.formed → (ts.writtenOut calls).formed
  | .one head, formed => by
      simp only [Targets.formed, Bool.and_eq_true] at formed
      simp [formed.1, formed_head head formed.2]
  | .more head rest, formed => by
      simp only [Targets.formed, Bool.and_eq_true] at formed
      simp [formed.1.1, formed_head head formed.1.2, formed_targets rest formed.2]
termination_by structural ts => ts

theorem formed_step : ∀ step : Step, step.formed → (step.writtenOut calls).formed
  | .none, _ => rfl
  | .by step, formed => formed_term step 0 formed
termination_by structural step => step

theorem formed_command : ∀ c : Command, c.formed → (c.writtenOut calls).formed
  | .assign targets values, formed => by
      simp only [Command.formed, Bool.and_eq_true] at formed
      simp [formed_targets targets formed.1, formed_terms values formed.2]
  | .compound marked op target value, formed => by
      simp only [Command.formed, Bool.and_eq_true] at formed
      have targetFormed := formed_head target formed.1.2
      have valueFormed := formed_term value 0 formed.2
      simp only [Command.writtenOut]
      split
      · simp [Term.closes, leftPriority_pos, formed.1.1, targetFormed, valueFormed]
      · simp [formed.1.1, targetFormed, valueFormed]
  | .localVars _ _ values, formed => formed_values values formed
  | .call call, formed => by
      simp only [Command.formed, Bool.and_eq_true] at formed
      simp [formed.1, formed_head call formed.2]
  | .doBlock body, formed => formed_body body formed
  | .whileLoop condition body, formed => by
      simp only [Command.formed, Bool.and_eq_true] at formed
      simp [formed_term condition 0 formed.1, formed_body body formed.2]
  | .repeatLoop body condition, formed => by
      simp only [Command.formed, Bool.and_eq_true] at formed
      simp [formed_body body formed.1, formed_term condition 0 formed.2]
  | .localFunction _ _ body, formed => formed_body body formed
  | .function _ _ body, formed => formed_body body formed
  | .method _ _ _ body, formed => formed_body body formed
  | .ifThen condition body branch, formed => by
      simp only [Command.formed, Bool.and_eq_true] at formed
      simp [formed_term condition 0 formed.1.1, formed_body body formed.1.2,
        formed_branch branch formed.2]
  | .breakStmt, _ => rfl
  | .continueStmt, _ => rfl
  | .numericFor _ start limit step body, formed => by
      simp only [Command.formed, Bool.and_eq_true] at formed
      obtain ⟨⟨⟨startFormed, limitFormed⟩, stepFormed⟩, bodyFormed⟩ := formed
      simp [formed_term start 0 startFormed, formed_term limit 0 limitFormed,
        formed_step step stepFormed, formed_body body bodyFormed]
  | .genericFor _ _ values body, formed => by
      simp only [Command.formed, Bool.and_eq_true] at formed
      simp [formed_terms values formed.1, formed_body body formed.2]
termination_by structural c => c

theorem formed_branch : ∀ branch : Branch, branch.formed → (branch.writtenOut calls).formed
  | .none, _ => rfl
  | .otherwise body, formed => formed_body body formed
  | .elseif marked condition body branch, formed => by
      simp only [Branch.formed, Bool.and_eq_true] at formed
      have conditionFormed := formed_term condition 0 formed.1.1
      have bodyFormed := formed_body body formed.1.2
      have branchFormed := formed_branch branch formed.2
      cases marked <;>
        simp [Command.isOpen, conditionFormed, bodyFormed, branchFormed]
termination_by structural branch => branch

theorem formed_body : ∀ body : Body, body.formed → (body.writtenOut calls).formed
  | .none, _ => rfl
  | .result values _, formed => formed_values values formed
  | .semicolon rest, formed => formed_body rest formed
  | .more command rest, formed => by
      simp only [Body.formed, Bool.and_eq_true, Bool.not_eq_true'] at formed
      obtain ⟨⟨commandFormed, apart⟩, restFormed⟩ := formed
      have first := formed_command command commandFormed
      have others := formed_body rest restFormed
      cases written : command.isWrittenOut calls with
      | true => simp [written, first, others, Body.startsGroup]
      | false =>
        simp [written, first, others, isOpen_writtenOut_command written, apart]
termination_by structural body => body
end

end

theorem parenthesized_parenthesized (outer : Span) (e : Expr) :
    (e.parenthesized outer).parenthesized outer = e.parenthesized outer := by cases e <;> rfl

/-- Parentheses are seen in the syntax tree of a call only. -/
theorem parenthesized_term (value : Expr → Expr) {t : Term} (noCall : t.isCall = false) :
    (t.phrase value).tree.parenthesized default = (t.phrase value).tree := by
  cases t with
  | head head =>
    cases head with
    | group inside => exact parenthesized_parenthesized _ _
    | call callee args => cases noCall
    | methodCall receiver method args => cases noCall
    | _ => rfl
  | _ => rfl

def adjusted (calls : Bool) : Expr → Expr := if calls then Expr.parenthesized default else id

section

variable (calls : Bool)

theorem tree_compound (marked : Bool) (op : Compound) {target : Head} {value : Term}
    (targetKept : ((target.writtenOut calls).phrase id).tree =
      (target.phrase (adjusted calls)).tree)
    (valueKept : ((value.writtenOut calls).phrase id).tree = (value.phrase (adjusted calls)).tree) :
    (((Command.compound marked op target value).writtenOut calls).phrase id).tree =
      ((Command.compound marked op target value).phrase (adjusted calls)).tree := by
  cases written : marked && (calls || !value.isCall) with
  | false =>
    have kept (e : Expr) : (if marked then adjusted calls e else e) = e := by
      cases marked <;> cases calls <;> simp_all [adjusted]
    simp [written, Phrase.compound, targetKept, valueKept, kept]
  | true =>
    obtain ⟨rfl, adjusts⟩ : marked = true ∧ (calls || !value.isCall) = true := by
      simpa using written
    have seen : ((value.writtenOut calls).phrase id).tree.parenthesized default =
        adjusted calls (value.phrase (adjusted calls)).tree := by
      cases calls with
      | true => rw [valueKept]; rfl
      | false =>
        have noCall : (value.writtenOut false).isCall = false := by simpa using adjusts
        rw [parenthesized_term id noCall, valueKept]
        rfl
    simp [adjusts, Phrase.compound, Phrase.assign, Phrase.binary, Phrase.group, targetKept, seen]

mutual
theorem tree_head : ∀ h : Head,
    ((h.writtenOut calls).phrase id).tree = (h.phrase (adjusted calls)).tree
  | .name _ => rfl
  | .group inside => by
      simp [Phrase.group, tree_term inside]
  | .index object key => by
      simp [Phrase.index, tree_head object, tree_term key]
  | .access marked object name => by
      cases marked <;>
        simp [Phrase.index, Phrase.access, Phrase.string, tree_head object, Name.value_quoted]
  | .call callee args => by
      simp [Phrase.call, tree_head callee, tree_args args]
  | .methodCall receiver method args => by
      simp [Phrase.methodCall, tree_head receiver, tree_args args]
termination_by structural h => h

theorem tree_term : ∀ t : Term,
    ((t.writtenOut calls).phrase id).tree = (t.phrase (adjusted calls)).tree
  | .constant _ | .number _ | .string _ => rfl
  | .function params body => by
      simp [Phrase.function, tree_body body]
  | .table entries => by simp [Phrase.table, tree_entries entries]
  | .head head => tree_head head
  | .unary op operand => by simp [Phrase.unary, tree_term operand]
  | .binary op left right => by
      simp [Phrase.binary, tree_term left, tree_term right]
termination_by structural t => t

theorem trees_terms : ∀ ts : Terms,
    ((ts.writtenOut calls).phrases id).map Phrase.tree =
      (ts.phrases (adjusted calls)).map Phrase.tree
  | .one term => by simp [tree_term term]
  | .more term rest => by
      simp [tree_term term, trees_terms rest]
termination_by structural ts => ts

theorem trees_values : ∀ vs : Values,
    ((vs.writtenOut calls).phrases id).map Phrase.tree =
      (vs.phrases (adjusted calls)).map Phrase.tree
  | .none => rfl
  | .given terms => trees_terms terms
termination_by structural vs => vs

theorem tree_args : ∀ args : Args,
    ((args.writtenOut calls).phrase id).tree = (args.phrase (adjusted calls)).tree
  | .list values => trees_values values
  | .table marked entries => by
      cases marked <;>
        simp [Phrase.argList, Phrase.tableArg, Phrase.table, tree_entries entries]
  | .string marked literal => by cases marked <;> rfl
termination_by structural args => args

theorem tree_entries : ∀ entries : Entries,
    ((entries.writtenOut calls).phrase id).tree = (entries.phrase (adjusted calls)).tree
  | .none => rfl
  | .last entry => by simp [tree_entry entry]
  | .more entry separator rest => by
      simp [tree_entry entry, tree_entries rest]
termination_by structural entries => entries

theorem tree_entry : ∀ entry : Entry,
    ((entry.writtenOut calls).phrase id).tree = (entry.phrase (adjusted calls)).tree
  | .positional value => by
      simp [Phrase.positional, tree_term value]
  | .keyed key value => by
      simp [Phrase.keyed, tree_term key, tree_term value]
  | .named marked name value => by
      cases marked <;>
        simp [Phrase.keyed, Phrase.named, Phrase.string, tree_term value, Name.value_quoted]
termination_by structural entry => entry

theorem trees_targets : ∀ ts : Targets,
    ((ts.writtenOut calls).phrases id).map Phrase.tree =
      (ts.phrases (adjusted calls)).map Phrase.tree
  | .one head => by simp [tree_head head]
  | .more head rest => by
      simp [tree_head head, trees_targets rest]
termination_by structural ts => ts

theorem tree_step : ∀ step : Step,
    ((step.writtenOut calls).phrase? id).map Phrase.tree =
      (step.phrase? (adjusted calls)).map Phrase.tree
  | .none => rfl
  | .by step => by simp [tree_term step]
termination_by structural step => step

theorem tree_command : ∀ c : Command,
    ((c.writtenOut calls).phrase id).tree = (c.phrase (adjusted calls)).tree
  | .assign targets values => by
      simp [Phrase.assign, trees_targets targets, trees_terms values]
  | .compound marked op target value =>
      tree_compound calls marked op (tree_head target) (tree_term value)
  | .localVars first more values => by
      simp [Phrase.localVars, trees_values values]
  | .call call => by simp [Phrase.callStmt, tree_head call]
  | .doBlock body => by
      simp [Phrase.doBlock, tree_body body]
  | .whileLoop condition body => by
      simp [Phrase.whileLoop, tree_term condition, tree_body body]
  | .repeatLoop body condition => by
      simp [Phrase.repeatLoop, tree_term condition, tree_body body]
  | .localFunction name params body => by
      simp [Phrase.localFunction, tree_body body]
  | .function path params body => by
      simp [Phrase.function_, tree_body body]
  | .method path name params body => by
      simp [Phrase.method, tree_body body]
  | .ifThen condition body branch => by
      simp [Phrase.ifStmt, tree_term condition, tree_body body, tree_branch branch]
  | .breakStmt | .continueStmt => rfl
  | .numericFor var start limit step body => by
      simp [Phrase.numericFor, tree_term start, tree_term limit, tree_step step, tree_body body]
  | .genericFor first more values body => by
      simp [Phrase.genericFor, trees_terms values, tree_body body]
termination_by structural c => c

theorem tree_branch : ∀ branch : Branch,
    ((branch.writtenOut calls).phrase id).tree = (branch.phrase (adjusted calls)).tree
  | .none => rfl
  | .otherwise body => by
      simp [Phrase.elseBlock, tree_body body]
  | .elseif marked condition body branch => by
      cases marked <;>
        simp [Phrase.elseBlock, Phrase.elseif, Phrase.follow, Phrase.ifStmt, Phrase.emptyBody,
          tree_term condition, tree_body body, tree_branch branch]
termination_by structural branch => branch

/-- Writing out changes the syntax tree in the values of compound assignments at most. -/
theorem tree_body : ∀ body : Body,
    ((body.writtenOut calls).phrase id).tree = (body.phrase (adjusted calls)).tree
  | .none => rfl
  | .result values closed => by
      simp [Phrase.result, Phrase.returnStmt, trees_values values]
  | .semicolon rest => by
      simp [Phrase.semicolon, tree_body rest]
  | .more command rest => by
      have others : ((if command.isWrittenOut calls then Body.semicolon (rest.writtenOut calls)
          else rest.writtenOut calls).phrase id).tree = (rest.phrase (adjusted calls)).tree := by
        split <;> simp [Phrase.semicolon, tree_body rest]
      simp [Phrase.follow, tree_command command, others]
termination_by structural body => body
end

end

end LuaSearch.Concrete
