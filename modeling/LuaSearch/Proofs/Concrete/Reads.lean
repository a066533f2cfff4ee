import LuaSearch.Proofs.Concrete.Syntax

/-!
Formed concrete trees are read back. The text of a formed tree, before something that ends it, is
read as the syntax tree of it if the levels of nesting suffice, and refused as too deep if not.
-/
namespace LuaSearch

open Lexeme Parse Relabeling

namespace Kind

def followsStmt (kind : Kind) : Bool :=
  kind.startsStmt || kind.endsBlock || kind = symbol .semicolon || kind = keyword .return_

theorem followsStmt_cases {kind : Kind} (follows : kind.followsStmt) :
    BinaryOp.ofKind? kind = none ∧ BinaryOp.ofCompound? kind = none ∧ kind ≠ symbol .comma ∧
      kind ≠ symbol .eq ∧ (kind ≠ symbol .lparen → kind.startsSuffix = false) := by
  revert follows
  cases kind with
  | keyword word => cases word <;> decide
  | symbol sign => cases sign <;> decide
  | _ => decide

end Kind

namespace Concrete

variable {rest : List Lexeme}

theorem StringLiteral.quotes (s : StringLiteral) : Phrase.Quotes s.lexeme s.value where
  kind := by
    unfold lexeme
    cases s.long <;> simp
  reads := by
    intro token same
    have kind : token.kind = s.lexeme.1 := congrArg Prod.fst same
    have text : token.text = s.lexeme.2 := congrArg Prod.snd same
    simp only [Token.stringValue, value, kind, text]

theorem Separator.isSeparator (separator : Separator) : Phrase.IsSeparator separator.lexeme := by
  cases separator
  · exact .inl rfl
  · exact .inr rfl

theorem Separator.endsExpr (separator : Separator) :
    Leads (·.endsExpr) (separator.lexeme :: rest) := by
  cases separator <;> exact .cons rfl

theorem Compound.ofCompound?_sign (op : Compound) :
    BinaryOp.ofCompound? (.symbol op.sign) = some op.op := by cases op <;> rfl

theorem Compound.noSuffix_sign (op : Compound) : (Kind.symbol op.sign).startsSuffix = false := by
  cases op <;> rfl

theorem binder_named (name : Name) : WellFormed.binder name.binder := name.2

theorem Parameters.named (ps : Parameters) : WellFormed.params ps.tree := by
  simp [WellFormed.params, Parameters.tree, List.all_eq_true, binder_named]

theorem Path.isPath : ∀ path : Path, WellFormed.path path.tree
  | .name word => word.2
  | .field object word => by
      simp only [Path.tree, WellFormed.path, Bool.and_eq_true]
      exact ⟨object.isPath, word.2⟩

theorem leads_head : ∀ h : Head, Leads
    (fun kind => kind.startsHead ∧ (h.startsGroup ↔ kind = .symbol .lparen)) h.text
  | .name _ => .cons ⟨rfl, by simp [Head.startsGroup, ofName]⟩
  | .group _ => .cons ⟨rfl, by simp [Head.startsGroup, ofSymbol]⟩
  | .index object _ | .access _ object _ => (leads_head object).append _
  | .call callee _ => (leads_head callee).append _
  | .methodCall receiver _ _ => (leads_head receiver).append _
termination_by structural h => h

theorem startsHead_head (h : Head) : Leads (·.startsHead) h.text :=
  (leads_head h).mono fun _ => And.left

theorem leads_term : ∀ t : Term, Leads (·.startsTerm) t.text
  | .constant value => .cons (by cases value <;> rfl)
  | .number _ | .function .. | .table _ => .cons rfl
  | .string literal => .cons (by rcases literal.quotes.kind with kind | kind <;> rw [kind] <;> rfl)
  | .head head => by
      apply (startsHead_head head).mono
      intro kind starts
      simp [Kind.startsTerm, Kind.startsExpr, Kind.startsOperand_of_startsHead starts]
  | .unary op _ => .cons (by simp [Kind.startsTerm, Kind.startsExpr, unary_ofKind?_lexeme])
  | .binary _ left _ => (leads_term left).append _
termination_by structural t => t

theorem leads_terms : ∀ ts : Terms, ∀ p ∈ ts.phrases id, Leads (·.startsTerm) p.text
  | .one term => by simpa using leads_term term
  | .more term rest => by
      simpa [leads_term term] using leads_terms rest
termination_by structural ts => ts

theorem phrases_ne_nil (ts : Terms) (value : Expr → Expr) : ts.phrases value ≠ [] := by
  cases ts <;> exact List.cons_ne_nil _ _

theorem leads_values : ∀ vs : Values, ∀ p ∈ vs.phrases id, Leads (·.startsTerm) p.text
  | .none => by simp
  | .given terms => leads_terms terms

theorem leads_args (args : Args) : Leads (· ≠ .symbol .eq) (args.phrase id).text := by
  cases args with
  | list values => exact .cons nofun
  | table marked entries => exact .cons nofun
  | string marked literal =>
    refine .cons ?_
    rcases literal.quotes.kind with kind | kind <;> rw [kind] <;> nofun

theorem ne_none_of_phrases {values : Values} {value : Expr → Expr}
    (nonempty : values.phrases value ≠ []) : values ≠ .none := by
  rintro rfl
  exact nonempty rfl

theorem unnamed_head : ∀ (h : Head) {rest : List Lexeme}, Leads (· ≠ .symbol .eq) rest →
    Unnamed (h.text ++ rest)
  | .name _, rest, ⟨l, first, other⟩ => by
      intro _
      cases rest with
      | nil => cases first
      | cons l' rest =>
        cases first
        exact other
  | .group _, _, _ => unnamed_of_leads (.cons nofun)
  | .index object key, rest, _ => by
      have text : (Head.index object key).text ++ rest = object.text ++
        (Render.enclosed .lbracket key.text .rbracket ++ rest) := List.append_assoc _ _ _
      rw [text]
      exact unnamed_head object (.cons nofun)
  | .access marked object name, rest, _ => by
      have text : (Head.access marked object name).text ++ rest = object.text ++
        ([ofSymbol .dot, ofName name.1] ++ rest) := List.append_assoc _ _ _
      rw [text]
      exact unnamed_head object (.cons nofun)
  | .call callee args, rest, _ => by
      have text : (Head.call callee args).text ++ rest = callee.text ++
        ((args.phrase id).text ++ rest) := List.append_assoc _ _ _
      rw [text]
      exact unnamed_head callee ((leads_args args).append rest)
  | .methodCall receiver method args, rest, _ => by
      have text : (Head.methodCall receiver method args).text ++ rest = receiver.text ++
        (ofSymbol .colon :: ofName method.1 :: (args.phrase id).text ++ rest) :=
        List.append_assoc _ _ _
      rw [text]
      exact unnamed_head receiver (.cons nofun)
termination_by structural h => h

theorem unnamed_term : ∀ (t : Term) {rest : List Lexeme}, Leads (· ≠ .symbol .eq) rest →
    Unnamed (t.text ++ rest)
  | .head head, _, other => unnamed_head head other
  | .binary op left right, rest, _ => by
      have text : (Term.binary op left right).text ++ rest = left.text ++
        (op.lexeme :: right.text ++ rest) := List.append_assoc _ _ _
      rw [text]
      exact unnamed_term left (.cons (binary_lexeme_noEquals op))
  | .constant value, _, _ => by cases value <;> exact unnamed_of_leads (.cons nofun)
  | .unary op _, _, _ => by cases op <;> exact unnamed_of_leads (.cons nofun)
  | .string literal, _, _ => by
      refine unnamed_of_leads (.cons ?_)
      rcases literal.quotes.kind with kind | kind <;> rw [kind] <;> nofun
  | .number _, _, _ | .function .., _, _ | .table _, _, _ => unnamed_of_leads (.cons nofun)
termination_by structural t => t

theorem leads_entry (entry : Entry) : Leads (· ≠ .symbol .rbrace) (entry.phrase id).text := by
  cases entry with
  | positional value =>
    apply (leads_term value).mono
    rintro _ starts rfl
    cases starts
  | keyed key value => exact .cons nofun
  | named marked name value => exact .cons nofun

theorem leads_entries {entries : Entries} (some : entries ≠ .none) :
    Leads (· ≠ .symbol .rbrace) (entries.phrase id).text := by
  cases entries with
  | none => exact absurd rfl some
  | last entry => exact leads_entry entry
  | more entry separator others => exact (leads_entry entry).append _

theorem leads_targets : ∀ ts : Targets, ∀ p ∈ ts.phrases id, Leads (·.startsHead) p.text
  | .one head => by simpa using startsHead_head head
  | .more head rest => by simpa [startsHead_head head] using leads_targets rest
termination_by structural ts => ts

theorem targets_ne_nil (ts : Targets) (value : Expr → Expr) : ts.phrases value ≠ [] := by
  cases ts <;> exact List.cons_ne_nil _ _

theorem leads_command (c : Command) : Leads
    (fun kind => kind.startsStmt ∧ (c.startsGroup ↔ kind = .symbol .lparen))
    (c.phrase id).text := by
  have head (h : Head) : Leads
      (fun kind => kind.startsStmt ∧ (h.startsGroup ↔ kind = .symbol .lparen)) h.text :=
    (leads_head h).mono fun _ => And.imp_left Kind.startsStmt_of_startsHead
  cases c with
  | assign targets values =>
    cases targets with
    | one first => exact (head first).append _
    | more first rest => exact (leads_separated (head first) _).append _
  | compound marked op target value => exact (head target).append _
  | call call => exact head call
  | _ => exact .cons ⟨rfl, by simp [Command.startsGroup, ofKeyword]⟩

def StmtEnds (isOpen : Bool) (rest : List Lexeme) : Prop :=
  Leads (fun kind => kind.followsStmt ∧ (isOpen → kind ≠ .symbol .lparen)) rest

theorem stmtEnds_of_result {isOpen : Bool}
    (ended : Leads (fun kind => kind.endsBlock ∨ kind = .symbol .semicolon) rest) :
    StmtEnds isOpen rest := by
  apply ended.mono
  rintro kind (ends | rfl)
  · refine ⟨by simp [Kind.followsStmt, ends], ?_⟩
    rintro _ rfl
    cases ends
  · exact ⟨rfl, fun _ => nofun⟩

theorem stmtEnds_body {body : Body} {isOpen : Bool} (apart : (isOpen && body.startsGroup) = false)
    (ended : Leads (·.endsBlock) rest) : StmtEnds isOpen (body.text ++ rest) := by
  cases body with
  | none => exact stmtEnds_of_result (ended.mono fun _ => Or.inl)
  | result values closed => exact .cons ⟨rfl, fun _ => nofun⟩
  | semicolon others => exact .cons ⟨rfl, fun _ => nofun⟩
  | more command others =>
    refine (((leads_command command).append _).append rest).mono ?_
    rintro kind ⟨starts, group⟩
    refine ⟨by simp [Kind.followsStmt, starts], fun opened isGroup => ?_⟩
    simp [opened, Body.startsGroup, group.mpr isGroup] at apart

theorem isCall_parenthesized (outer : Span) (e : Expr) :
    (e.parenthesized outer).isCall = e.isCall := by cases e <;> rfl

theorem isAssignable_parenthesized (outer : Span) (e : Expr) :
    (e.parenthesized outer).isAssignable = e.isAssignable := by cases e <;> rfl

section Trees

variable (value : Expr → Expr)

mutual
theorem isCall_head : ∀ h : Head, (h.phrase value).tree.isCall = h.isCall
  | .group inside => (isCall_parenthesized _ _).trans (isCall_term inside)
  | .name _ | .index .. | .access .. | .call .. | .methodCall .. => rfl
termination_by structural h => h

theorem isCall_term : ∀ t : Term, (t.phrase value).tree.isCall = t.isCall
  | .head head => isCall_head head
  | .constant _ | .number _ | .string _ | .function .. | .table _ | .unary .. | .binary .. => rfl
termination_by structural t => t
end

mutual
theorem isAssignable_head : ∀ h : Head, (h.phrase value).tree.isAssignable = h.isAssignable
  | .group inside => (isAssignable_parenthesized _ _).trans (isAssignable_term inside)
  | .name _ | .index .. | .access .. | .call .. | .methodCall .. => rfl
termination_by structural h => h

theorem isAssignable_term : ∀ t : Term, (t.phrase value).tree.isAssignable = t.isAssignable
  | .head head => isAssignable_head head
  | .constant _ | .number _ | .string _ | .function .. | .table _ | .unary .. | .binary .. => rfl
termination_by structural t => t
end

end Trees

/-- Neither an operator nor, behind an open end, an access or a call follows. -/
def Closed (isOpen : Bool) (rest : List Lexeme) : Prop :=
  Leads (fun kind => BinaryOp.ofKind? kind = none ∧ (isOpen → kind.startsSuffix = false)) rest

theorem closed_of_endsExpr {isOpen : Bool} (ended : Leads (·.endsExpr) rest) :
    Closed isOpen rest :=
  ended.mono fun _ ends => ⟨Kind.endsExpr_noBinary ends, fun _ => Kind.endsExpr_noSuffix ends⟩

theorem StmtEnds.closed {isOpen : Bool} (ended : StmtEnds isOpen rest) : Closed isOpen rest := by
  apply ended.mono
  rintro kind ⟨follows, noGroup⟩
  obtain ⟨noBinary, _, _, _, noSuffix⟩ := Kind.followsStmt_cases follows
  exact ⟨noBinary, fun opened => noSuffix (noGroup opened)⟩

theorem StmtEnds.apart {isOpen : Bool} (ended : StmtEnds isOpen rest) :
    Leads (fun kind => kind ≠ .symbol .comma ∧ kind ≠ .symbol .eq) rest := by
  apply ended.mono
  rintro kind ⟨follows, _⟩
  obtain ⟨_, _, noComma, noEquals, _⟩ := Kind.followsStmt_cases follows
  exact ⟨noComma, noEquals⟩

theorem StmtEnds.endsCall (ended : StmtEnds true rest) : Leads Phrase.EndsCall rest := by
  apply ended.mono
  rintro kind ⟨follows, noGroup⟩
  obtain ⟨_, noCompound, noComma, noEquals, noSuffix⟩ := Kind.followsStmt_cases follows
  exact ⟨noSuffix (noGroup rfl), noCompound, noEquals, noComma⟩

structure Term.EndsAt (t : Term) (kind : Kind) : Prop where
  closes : ∀ op, BinaryOp.ofKind? kind = some op → t.closes op
  noSuffix : t.isOpen → kind.startsSuffix = false

/-- The term is read as the start of a chain of operators, before what may stand behind it. -/
structure TermReads (t : Term) : Prop where
  asLeft : ∀ {limit : Nat} {rest : List Lexeme}, t.formed limit → Leads t.EndsAt rest →
    Phrase.AsLeft limit (t.phrase id) rest

theorem Closed.endsAt {t : Term} (closed : Closed t.isOpen rest) : Leads t.EndsAt rest := by
  apply closed.mono
  rintro kind ⟨noBinary, noSuffix⟩
  exact ⟨fun op operator => by simp [noBinary] at operator, noSuffix⟩

theorem Closed.stops {isOpen : Bool} (closed : Closed isOpen rest) : Phrase.Stops 0 rest := by
  apply closed.mono
  rintro kind ⟨noBinary, _⟩ op operator
  simp [noBinary] at operator

theorem TermReads.asExpr {t : Term} (reads : TermReads t) (formed : t.formed 0)
    (closed : Closed t.isOpen rest) : Phrase.AsExpr 0 (t.phrase id) rest :=
  (reads.asLeft formed closed.endsAt).asExpr closed.stops

theorem TermReads.asExpr_ended {t : Term} (reads : TermReads t) (formed : t.formed 0)
    (ended : Leads (·.endsExpr) rest) : Phrase.AsExpr 0 (t.phrase id) rest :=
  reads.asExpr formed (closed_of_endsExpr ended)

theorem termReads_operand (t : Term)
    (reads : ∀ {limit : Nat} {rest : List Lexeme}, t.formed limit →
      (t.isOpen → Leads (·.startsSuffix = false) rest) →
      Phrase.AsOperand (t.phrase id) rest) : TermReads t := by
  constructor
  intro limit rest formed ended
  refine (reads formed fun opened => ?_).asLeft limit
  exact ended.mono fun _ ends => ends.noSuffix opened

theorem termReads_head {head : Head} (reads : head.formed → Phrase.AsHead (head.phrase id)) :
    TermReads (.head head) :=
  termReads_operand (.head head) fun formed noSuffix =>
    (reads formed).asOperand (startsHead_head head) (noSuffix rfl)

theorem termReads_unary {op : UnaryOp} {operand : Term} (reads : TermReads operand) :
    TermReads (.unary op operand) := by
  constructor
  intro limit rest formed ended
  have stops : Phrase.Stops UnaryOp.priority rest := ended.mono fun kind ends next operator => by
    have closes := ends.closes next operator
    simp only [Term.closes, Bool.and_eq_true, decide_eq_true_eq] at closes
    exact closes.1
  have inner : Leads operand.EndsAt rest := ended.mono fun kind ends => by
    refine ⟨fun next operator => ?_, ends.noSuffix⟩
    have closes := ends.closes next operator
    simp only [Term.closes, Bool.and_eq_true] at closes
    exact closes.2
  exact (((reads.asLeft formed inner).asExpr stops).asOperand_unary op).asLeft limit

theorem termReads_binary {op : BinaryOp} {left right : Term} (leftReads : TermReads left)
    (rightReads : TermReads right) : TermReads (.binary op left right) := by
  constructor
  intro limit rest formed ended
  simp only [Term.formed, Bool.and_eq_true, decide_eq_true_eq] at formed
  obtain ⟨⟨⟨tighter, leftCloses⟩, leftFormed⟩, rightFormed⟩ := formed
  have stops : Phrase.Stops op.rightPriority rest := ended.mono fun kind ends next operator => by
    have closes := ends.closes next operator
    simp only [Term.closes, Bool.and_eq_true, decide_eq_true_eq] at closes
    exact closes.1
  have inner : Leads right.EndsAt rest := ended.mono fun kind ends => by
    refine ⟨fun next operator => ?_, ends.noSuffix⟩
    have closes := ends.closes next operator
    simp only [Term.closes, Bool.and_eq_true] at closes
    exact closes.2
  have leftEnds : Leads left.EndsAt (op.lexeme :: (right.text ++ rest)) := by
    refine .cons ⟨fun next operator => ?_, fun _ => binary_lexeme_noSuffix op⟩
    rw [binary_ofKind?_lexeme] at operator
    cases operator
    exact leftCloses
  exact (leftReads.asLeft leftFormed leftEnds).binary tighter
    ((rightReads.asLeft rightFormed inner).asExpr stops)

theorem asArgs_values {values : Values}
    (listed : ∀ {rest : List Lexeme}, values ≠ .none → Closed values.isOpen rest →
      Phrase.Listed (values.phrases id) rest) : Phrase.AsArgs (.argList (values.phrases id)) := by
  refine Phrase.asArgs_argList ?_ (leads_values values)
  intro nonempty rest
  exact listed (ne_none_of_phrases nonempty) (closed_of_endsExpr (.cons rfl))

theorem asFields_of_items {entries : Entries}
    (items : entries ≠ .none → Phrase.AsItems (entries.phrase id)) :
    Phrase.AsFields (entries.phrase id) := by
  by_cases empty : entries = .none
  · subst empty
    exact Phrase.asFields_none
  · exact (items empty).asFields (leads_entries empty)

theorem targets_assignable : ∀ targets : Targets, targets.formed →
    ((targets.phrases id).map Phrase.tree).all Expr.isAssignable
  | .one head, formed => by
      simp only [Targets.formed, Bool.and_eq_true] at formed
      simpa [isAssignable_head] using formed.1
  | .more head others, formed => by
      simp only [Targets.formed, Bool.and_eq_true] at formed
      have more := targets_assignable others formed.2
      simpa [isAssignable_head, formed.1.1] using more
termination_by structural targets => targets

mutual
theorem head_reads : ∀ h : Head, h.formed → Phrase.AsHead (h.phrase id)
  | .name name, _ => Phrase.asHead_name name.1
  | .group inside, formed =>
      Phrase.asHead_group ((term_reads inside).asExpr_ended formed (.cons rfl))
  | .index object key, formed => by
      simp only [Head.formed, Bool.and_eq_true] at formed
      exact (head_reads object formed.1).index ((term_reads key).asExpr_ended formed.2 (.cons rfl))
  | .access _ object name, formed => (head_reads object formed).access name.1
  | .call callee args, formed => by
      simp only [Head.formed, Bool.and_eq_true] at formed
      exact (head_reads callee formed.1).call (args_read args formed.2)
  | .methodCall receiver method args, formed => by
      simp only [Head.formed, Bool.and_eq_true] at formed
      exact (head_reads receiver formed.1).methodCall method.1 (args_read args formed.2)
termination_by structural h => h

theorem term_reads : ∀ t : Term, TermReads t
  | .constant value =>
      termReads_operand (.constant value) fun _ _ => Phrase.asOperand_constant value
  | .number text => termReads_operand (.number text) fun _ _ => Phrase.asOperand_number text.1
  | .string literal => termReads_operand (.string literal) fun _ _ => literal.quotes.asOperand
  | .function params body => termReads_operand (.function params body) fun formed _ =>
      (body_reads body formed).asBlock.asOperand_function params.named
  | .table entries => termReads_operand (.table entries) fun formed _ =>
      (asFields_of_items (entries_items entries formed)).asOperand_table
  | .head head => termReads_head (head_reads head)
  | .unary _ operand => termReads_unary (term_reads operand)
  | .binary _ left right => termReads_binary (term_reads left) (term_reads right)
termination_by structural t => t

theorem terms_listed : ∀ ts : Terms, ts.formed → ∀ {rest : List Lexeme}, Closed ts.isOpen rest →
    Phrase.Listed (ts.phrases id) rest
  | .one term, formed, _, closed => ((term_reads term).asExpr formed closed).listed
  | .more term others, formed, _, closed => by
      simp only [Terms.formed, Bool.and_eq_true] at formed
      exact (terms_listed others formed.2 closed).cons
        ((term_reads term).asExpr_ended formed.1 (.cons rfl))
termination_by structural ts => ts

theorem values_listed : ∀ vs : Values, vs.formed → ∀ {rest : List Lexeme}, vs ≠ .none →
    Closed vs.isOpen rest → Phrase.Listed (vs.phrases id) rest
  | .none, _, _, nonempty, _ => absurd rfl nonempty
  | .given terms, formed, _, _, closed => terms_listed terms formed closed
termination_by structural vs => vs

theorem args_read : ∀ args : Args, args.formed → Phrase.AsArgs (args.phrase id)
  | .list values, formed => asArgs_values (values_listed values formed)
  | .table _ entries, formed => (asFields_of_items (entries_items entries formed)).asArgs
  | .string _ literal, _ => literal.quotes.asArgs
termination_by structural args => args

theorem entry_reads : ∀ entry : Entry, entry.formed → ∀ {rest : List Lexeme},
    Leads (·.endsExpr) rest → Phrase.AsField (entry.phrase id) rest
  | .positional value, formed, _, ended =>
      ((term_reads value).asExpr_ended formed ended).asField_positional (leads_term value)
        (unnamed_term value (ended.mono fun _ => Kind.endsExpr_noEquals))
  | .keyed key value, formed, _, ended => by
      simp only [Entry.formed, Bool.and_eq_true] at formed
      exact ((term_reads value).asExpr_ended formed.2 ended).asField_keyed
        ((term_reads key).asExpr_ended formed.1 (.cons rfl))
  | .named _ name value, formed, _, ended =>
      ((term_reads value).asExpr_ended formed ended).asField_named name.1
termination_by structural entry => entry

theorem entries_items : ∀ entries : Entries, entries.formed → entries ≠ .none →
    Phrase.AsItems (entries.phrase id)
  | .none, _, nonempty => absurd rfl nonempty
  | .last entry, formed, _ => Phrase.asItems_last (entry_reads entry formed (.cons rfl))
  | .more entry separator others, formed, _ => by
      simp only [Entries.formed, Bool.and_eq_true] at formed
      have reads {rest : List Lexeme} :
          Phrase.AsField (entry.phrase id) (separator.lexeme :: rest) :=
        entry_reads entry formed.1 separator.endsExpr
      by_cases empty : others = .none
      · subst empty
        simpa using Phrase.asItems_closed separator.isSeparator reads
      · exact (entries_items others formed.2 empty).more separator.isSeparator reads
          (leads_entries empty)
termination_by structural entries => entries

theorem targets_read : ∀ targets : Targets, targets.formed →
    ∀ p ∈ targets.phrases id, Phrase.AsHead p
  | .one head, formed => by
      simp only [Targets.formed, Bool.and_eq_true] at formed
      simpa using head_reads head formed.2
  | .more head others, formed => by
      simp only [Targets.formed, Bool.and_eq_true] at formed
      simpa [head_reads head formed.1.2] using targets_read others formed.2
termination_by structural targets => targets

theorem step_reads : ∀ step : Step, step.formed → ∀ p ∈ step.phrase? id,
    ∀ {rest : List Lexeme}, Leads (·.endsExpr) rest → Phrase.AsExpr 0 p rest
  | .none, _, _, member, _, _ => by cases member
  | .by step, formed, _, member, _, ended => by
      cases member
      exact (term_reads step).asExpr_ended formed ended
termination_by structural step => step

theorem command_reads : ∀ c : Command, c.formed → ∀ {rest : List Lexeme},
    StmtEnds c.isOpen rest → Phrase.AsStmt (c.phrase id) rest
  | .assign targets values, formed, _, ended => by
      simp only [Command.formed, Bool.and_eq_true] at formed
      exact Phrase.asStmt_assign (targets_ne_nil targets id) (leads_targets targets)
        (targets_assignable targets formed.1) (targets_read targets formed.1)
        (terms_listed values formed.2 ended.closed) (ended.apart.mono fun _ => And.left)
  | .compound marked op target value, formed, _, ended => by
      simp only [Command.formed, Bool.and_eq_true] at formed
      have reads := Phrase.asStmt_compound op.ofCompound?_sign op.noSuffix_sign
        (head_reads target formed.1.2) (startsHead_head target)
        (by rw [isAssignable_head, formed.1.1])
        ((term_reads value).asExpr formed.2 ended.closed)
      cases marked <;> exact reads
  | .localVars first more values, formed, _, ended =>
      Phrase.asStmt_localVars (List.cons_ne_nil _ _) (by simp [binder_named])
        (fun nonempty => values_listed values formed (ne_none_of_phrases nonempty) ended.closed)
        ended.apart
  | .call call, formed, _, ended => by
      simp only [Command.formed, Bool.and_eq_true] at formed
      exact Phrase.asStmt_callStmt (head_reads call formed.2) (startsHead_head call)
        (by rw [isCall_head, formed.1]) ended.endsCall
  | .doBlock body, formed, _, _ => Phrase.asStmt_doBlock (body_reads body formed).asBlock
  | .whileLoop condition body, formed, _, _ => by
      simp only [Command.formed, Bool.and_eq_true] at formed
      exact Phrase.asStmt_whileLoop ((term_reads condition).asExpr_ended formed.1 (.cons rfl))
        (body_reads body formed.2).asBlock
  | .repeatLoop body condition, formed, _, ended => by
      simp only [Command.formed, Bool.and_eq_true] at formed
      exact Phrase.asStmt_repeatLoop (body_reads body formed.1).asBlock
        ((term_reads condition).asExpr formed.2 ended.closed)
  | .localFunction name params body, formed, _, _ =>
      Phrase.asStmt_localFunction name.1 params.named (body_reads body formed).asBlock
  | .function path params body, formed, _, _ =>
      Phrase.asStmt_function path.isPath params.named (body_reads body formed).asBlock
  | .method path name params body, formed, _, _ =>
      Phrase.asStmt_method path.isPath name.1 params.named (body_reads body formed).asBlock
  | .ifThen condition body branch, formed, _, _ => by
      simp only [Command.formed, Bool.and_eq_true] at formed
      exact Phrase.asStmt_ifStmt ((term_reads condition).asExpr_ended formed.1.1 (.cons rfl))
        (body_reads body formed.1.2).asBlock (branch_reads branch formed.2)
  | .breakStmt, _, _, _ => Phrase.asStmt_breakStmt
  | .continueStmt, _, _, _ => Phrase.asStmt_continueStmt
  | .numericFor var start limit step body, formed, _, _ => by
      simp only [Command.formed, Bool.and_eq_true] at formed
      obtain ⟨⟨⟨startFormed, limitFormed⟩, stepFormed⟩, bodyFormed⟩ := formed
      exact Phrase.asStmt_numericFor var.1 ((term_reads start).asExpr_ended startFormed)
        ((term_reads limit).asExpr_ended limitFormed) (step_reads step stepFormed)
        (body_reads body bodyFormed).asBlock
  | .genericFor first more values body, formed, _, _ => by
      simp only [Command.formed, Bool.and_eq_true] at formed
      exact Phrase.asStmt_genericFor first.1 _
        (terms_listed values formed.1 (closed_of_endsExpr (.cons rfl)))
        (body_reads body formed.2).asBlock
termination_by structural c => c

theorem branch_reads : ∀ branch : Branch, branch.formed → Phrase.AsElse (branch.phrase id)
  | .none, _ => Phrase.asElse_noElse
  | .otherwise body, formed => Phrase.asElse_elseBlock (body_reads body formed).asBlock
  | .elseif _ condition body branch, formed => by
      simp only [Branch.formed, Bool.and_eq_true] at formed
      exact Phrase.asElse_elseif ((term_reads condition).asExpr_ended formed.1.1 (.cons rfl))
        (body_reads body formed.1.2).asBlock (branch_reads branch formed.2)
termination_by structural branch => branch

theorem body_reads : ∀ body : Body, body.formed → Phrase.AsBody (body.phrase id)
  | .none, _ => Phrase.asBody_empty
  | .result values closed, formed => by
      refine Phrase.asBody_result ?_ (leads_values values)
      intro nonempty rest ended
      exact values_listed values formed (ne_none_of_phrases nonempty)
        (stmtEnds_of_result ended).closed
  | .semicolon others, formed => (body_reads others formed).semicolon
  | .more command others, formed => by
      simp only [Body.formed, Bool.and_eq_true, Bool.not_eq_true'] at formed
      obtain ⟨⟨commandFormed, apart⟩, othersFormed⟩ := formed
      refine (body_reads others othersFormed).follow
        ((leads_command command).mono fun _ => And.left) ?_
      intro rest ended
      exact command_reads command commandFormed (stmtEnds_body apart ended)
termination_by structural body => body
end

end Concrete

end LuaSearch
