import LuaSearch.Proofs.Phrase.Expression

/-!
Phrases of functions, tables and literals.
-/
namespace LuaSearch

open Lexeme Parse Relabeling Grammar

namespace Phrase

variable {rest : List Lexeme}

def AsBlock (body : Phrase Block) : Prop :=
  ∀ n {rest : List Lexeme}, Leads (·.endsBlock) rest →
    Reads (body.levels < n) (SameBlock · body.tree) (Level.free n).block (body.text ++ rest) rest

theorem binder_takes {b : Binder} (named : WellFormed.binder b) :
    Takes (fun b' => eraseSpans.binder b' = eraseSpans.binder b) binder
      (Render.binder b :: rest) rest := by
  apply (ident_takes (b.name?.getD "")).next
  intro name same
  refine .pure trivial ?_
  rcases b with ⟨span, _ | given⟩
  · cases named
  · simp only [Option.getD_some] at same
    simp only [Relabeling.binder, same]
    rfl

theorem param_takes_more {b : Binder} (named : WellFormed.binder b) :
    Takes (fun r => r.1.map eraseSpans.binder = some (eraseSpans.binder b) ∧ r.2 = true) param
      (Render.binder b :: ofSymbol .comma :: rest) rest := by
  apply (eat_takes_false (.cons (by nofun))).next
  rintro _ rfl
  apply (binder_takes named).next
  intro b' same
  apply (eat_takes_true (l := ofSymbol .comma) rfl).next
  rintro _ rfl
  exact .pure trivial ⟨congrArg some same, rfl⟩

theorem param_takes_last {item : Option Binder} (named : ∀ b ∈ item, WellFormed.binder b) :
    Takes (fun r => r.1.map eraseSpans.binder = item.map eraseSpans.binder ∧ r.2 = false) param
      (Render.param item :: ofSymbol .rparen :: rest) (ofSymbol .rparen :: rest) := by
  cases item with
  | none =>
    apply (eat_takes_true (l := ofSymbol .ellipsis) rfl).next
    rintro _ rfl
    exact .pure trivial ⟨rfl, rfl⟩
  | some b =>
    apply (eat_takes_false (.cons (by nofun))).next
    rintro _ rfl
    apply (binder_takes (named b rfl)).next
    intro b' same
    apply (eat_takes_false (.cons (by decide))).next
    rintro _ rfl
    exact .pure trivial ⟨congrArg some same, rfl⟩

theorem paramItems_cases (ps : Params) : Render.paramItems ps = [] ∨
    ∃ front : List Binder, ∃ last, Render.paramItems ps = front.map some ++ [last] ∧
      (∀ b ∈ front, b ∈ ps.names) ∧ ∀ b ∈ last, b ∈ ps.names := by
  rcases ps with ⟨names, _ | _⟩
  · rcases names.eq_nil_or_concat with rfl | ⟨front, last, rfl⟩
    · exact .inl rfl
    · exact .inr ⟨front, some last, by simp [Render.paramItems], by simp +contextual, by simp⟩
  · exact .inr ⟨names, none, by simp [Render.paramItems], by simp, by simp⟩

theorem eraseSpans_paramItems (ps : Params) : eraseSpans.params ps =
    ⟨((Render.paramItems ps).map (Option.map eraseSpans.binder)).filterMap id,
      ((Render.paramItems ps).map (Option.map eraseSpans.binder)).contains none⟩ := by
  rw [← eraseSpans_given]
  rcases ps with ⟨names, _ | _⟩ <;> simp [Render.paramItems]

theorem params_takes {ps : Params} (named : WellFormed.params ps) :
    Takes (fun ps' => eraseSpans.params ps' = eraseSpans.params ps) params
      (Render.separated ((Render.paramItems ps).map ([Render.param ·])) ++
        ofSymbol .rparen :: rest) (ofSymbol .rparen :: rest) := by
  have isNamed := List.all_eq_true.mp named
  rw [eraseSpans_paramItems]
  rcases paramItems_cases ps with empty | ⟨front, last, items, frontNames, lastName⟩
  · rw [empty]
    apply (isAt_takes_true (.cons rfl)).next
    rintro _ rfl
    exact .pure trivial rfl
  · rw [items]
    have begins : ∀ item ∈ front.map some ++ [last], ∀ tail,
        Leads (· ≠ .symbol .rparen) ([Render.param item] ++ tail) := by
      rintro (_ | b) _ tail <;> exact .cons (by nofun)
    have middle : ∀ item ∈ front.map some, ∀ tail, Leads (· ≠ .symbol .rparen) tail →
        Takes (fun r => r.1.map eraseSpans.binder = item.map eraseSpans.binder ∧ r.2 = true) param
          ([Render.param item] ++ ofSymbol .comma :: tail) tail := by
      intro item member tail _
      obtain ⟨b, given, rfl⟩ := List.mem_map.mp member
      exact param_takes_more (isNamed b (frontNames b given))
    have final : Takes
        (fun r => r.1.map eraseSpans.binder = last.map eraseSpans.binder ∧ r.2 = false) param
        ([Render.param last] ++ ofSymbol .rparen :: rest) (ofSymbol .rparen :: rest) :=
      param_takes_last fun b member => isNamed b (lastName b member)
    apply (isAt_takes_false (separated_starts _ begins)).next
    rintro _ rfl
    apply (series_reads _ begins middle final).bind (fun _ _ _ => trivial)
    intro _ given same
    refine .pure trivial ?_
    rw [eraseSpans_given, same]

theorem functionBody_reads {ps : Params} {body : Phrase Block} (named : WellFormed.params ps)
    (reads : AsBlock body) (n : Nat) :
    Reads (body.levels < n)
      (fun f => eraseSpans.params f.1 = eraseSpans.params ps ∧ SameBlock f.2 body.tree)
      (functionBody (Level.free n)) (Render.functionBody ps body.text ++ rest) rest := by
  simp only [Render.functionBody, Render.params, Render.enclosed, List.cons_append,
    List.append_assoc, List.nil_append]
  apply (symbol_takes .lparen).next
  intro _ _
  apply (params_takes named).next
  intro ps' sameParams
  apply (symbol_takes .rparen).next
  intro _ _
  apply (reads n (.cons rfl)).bind id
  intro fit body' sameBody
  apply (keyword_takes .end_).next
  intro _ _
  exact .pure fit ⟨sameParams, sameBody⟩

def function (ps : Params) (body : Phrase Block) : Phrase Expr :=
  ⟨ofKeyword .function_ :: Render.functionBody ps body.text, body.levels + 1,
    .function default ps body.tree⟩

theorem AsBlock.asOperand_function {ps : Params} {body : Phrase Block} (reads : AsBlock body)
    (named : WellFormed.params ps) : AsOperand (function ps body) rest := by
  refine asOperand_of_simple (.cons rfl) ?_
  intro n
  apply peek_takes_first.next
  rintro _ rfl
  apply spanned_reads
  apply advance_takes.next
  intro _ _
  apply (functionBody_reads named reads n).bind id
  rintro fit ⟨ps', body'⟩ ⟨sameParams, sameBody⟩
  refine .pure fit fun outer => ?_
  simp only [function, SameExpr, Relabeling.expr, sameParams, sameBody]
  rfl

def AsField (f : Phrase Field) (rest : List Lexeme) : Prop :=
  ∀ n, Reads (f.levels ≤ n) (fun f' => eraseSpans.field f' = eraseSpans.field f.tree)
    (field (Level.free n)) (f.text ++ rest) rest

def positional (value : Phrase Expr) : Phrase Field :=
  ⟨value.text, value.levels + 1, .positional value.tree⟩

theorem AsExpr.asField_positional {value : Phrase Expr} (reads : AsExpr 0 value rest)
    (starts : Leads (·.startsTerm) value.text) (unnamed : Unnamed (value.text ++ rest)) :
    AsField (positional value) rest := by
  intro n
  have read : Reads (value.levels < n)
      (fun f => eraseSpans.field f = eraseSpans.field (.positional value.tree))
      (do return .positional (← expr (Level.free n))) (value.text ++ rest) rest := by
    apply (reads n).bind id
    intro fit a same
    exact .pure fit (congrArg Field.positional same)
  obtain ⟨l, front, starts⟩ := starts.append rest
  apply (peek_takes (P := (· = l.1)) ⟨l, front, rfl⟩).next
  rintro _ rfl
  split
  · rename_i bracket
    rw [bracket] at starts
    cases starts
  · rename_i ident
    -- A name is the key of the field only if the equals sign follows it.
    apply peekSecond_takes.next
    rintro _ rfl
    rw [if_neg (unnamed ⟨l, front, ident⟩)]
    exact read
  · exact read

def keyed (key value : Phrase Expr) : Phrase Field :=
  ⟨Render.enclosed .lbracket key.text .rbracket ++ ofSymbol .eq :: value.text,
    max (key.levels + 1) (value.levels + 1), .keyed key.tree value.tree⟩

theorem AsExpr.asField_keyed {key value : Phrase Expr} (reads : AsExpr 0 value rest)
    (keyReads : ∀ {rest : List Lexeme}, AsExpr 0 key (ofSymbol .rbracket :: rest)) :
    AsField (keyed key value) rest := by
  intro n
  simp only [keyed, Render.enclosed, List.cons_append, List.append_assoc, List.nil_append]
  apply peek_takes_first.next
  rintro _ rfl
  apply advance_takes.next
  intro _ _
  apply (keyReads n).bind fun fit => (Nat.max_le.mp fit).1
  intro keyFit key' sameKey
  apply (symbol_takes .rbracket).next
  intro _ _
  apply (symbol_takes .eq).next
  intro _ _
  apply (reads n).bind fun fit => (Nat.max_le.mp fit).2
  intro valueFit value' sameValue
  refine .pure (Nat.max_le.mpr ⟨keyFit, valueFit⟩) ?_
  simp only [Relabeling.field, sameKey, sameValue]

def named (key : String) (value : Phrase Expr) : Phrase Field :=
  ⟨ofName key :: ofSymbol .eq :: value.text, value.levels + 1,
    .keyed (.string default key) value.tree⟩

theorem AsExpr.asField_named {value : Phrase Expr} (reads : AsExpr 0 value rest) (key : String) :
    AsField (named key value) rest := by
  intro n
  apply peek_takes_first.next
  rintro _ rfl
  apply (peekSecond_takes_leads (P := (· = .symbol .eq)) (.cons rfl)).next
  rintro _ rfl
  apply (ident_takes key).next
  intro token same
  apply (symbol_takes .eq).next
  intro _ _
  apply (reads n).bind Nat.lt_of_succ_le
  intro fit value' sameValue
  refine .pure fit ?_
  simp only [Phrase.named, Relabeling.field, Relabeling.expr, same, sameValue]
  rfl

def AsFields (fs : Phrase (List Field)) : Prop :=
  ∀ n {rest : List Lexeme}, Reads (fs.levels ≤ n)
    (fun fs' => fs'.map eraseSpans.field = fs.tree.map eraseSpans.field)
    (tableFields (Level.free n)) (fs.text ++ ofSymbol .rbrace :: rest) (ofSymbol .rbrace :: rest)

def tableItem (inner : Level) : Parse (Field × Bool) := do
  let one ← Grammar.field inner
  if ← fieldSeparator then return (one, !(← isAt (.symbol .rbrace)))
  else return (one, false)

theorem tableFields_eq (inner : Level) : tableFields inner = (do
    if ← isAt (.symbol .rbrace) then return []
    series (tableItem inner)) := rfl

def IsSeparator (l : Lexeme) : Prop := l = ofSymbol .comma ∨ l = ofSymbol .semicolon

theorem IsSeparator.takes {l : Lexeme} (isSeparator : IsSeparator l) :
    Takes (· = true) fieldSeparator (l :: rest) rest := by
  rcases isSeparator with rfl | rfl
  · apply (eat_takes_true (l := ofSymbol .comma) rfl).next
    rintro _ rfl
    exact .pure trivial rfl
  · apply (eat_takes_false (.cons (by decide))).next
    rintro _ rfl
    exact eat_takes_true (l := ofSymbol .semicolon) rfl

theorem fieldSeparator_takes_false :
    Takes (· = false) fieldSeparator (ofSymbol .rbrace :: rest) (ofSymbol .rbrace :: rest) := by
  apply (eat_takes_false (.cons (by decide))).next
  rintro _ rfl
  exact eat_takes_false (.cons (by decide))

/-- The text is read as the entries of a table that are left, whatever was collected before. -/
def AsItems (fs : Phrase (List Field)) : Prop :=
  ∀ n (items : Array Field) {rest : List Lexeme}, RoundsRead (fs.levels ≤ n)
    (fun fs' => fs'.map eraseSpans.field =
      items.toList.map eraseSpans.field ++ fs.tree.map eraseSpans.field)
    (seriesRound (tableItem (Level.free n))) items (fs.text ++ ofSymbol .rbrace :: rest)
    (ofSymbol .rbrace :: rest)

theorem asItems_last {f : Phrase Field}
    (reads : ∀ {rest : List Lexeme}, AsField f (ofSymbol .rbrace :: rest)) :
    AsItems ⟨f.text, f.levels, [f.tree]⟩ := by
  intro n items rest
  apply RoundsRead.done
  have one : Reads (f.levels ≤ n)
      (fun r => eraseSpans.field r.1 = eraseSpans.field f.tree ∧ r.2 = false)
      (tableItem (Level.free n)) (f.text ++ ofSymbol .rbrace :: rest)
      (ofSymbol .rbrace :: rest) := by
    apply (reads n).bind id
    intro fit f' same
    apply fieldSeparator_takes_false.next
    rintro _ rfl
    exact .pure fit ⟨same, rfl⟩
  apply one.bind id
  rintro fit ⟨f', _⟩ ⟨same, rfl⟩
  exact .pure fit ⟨_, rfl, by simp [same]⟩

section Separated

variable {f : Phrase Field} {l : Lexeme} (isSeparator : IsSeparator l)
  (reads : ∀ {rest : List Lexeme}, AsField f (l :: rest))

include isSeparator reads

theorem asItems_closed : AsItems ⟨f.text ++ [l], f.levels, [f.tree]⟩ := by
  intro n items rest
  simp only [List.append_assoc, List.cons_append, List.nil_append]
  apply RoundsRead.done
  have one : Reads (f.levels ≤ n)
      (fun r => eraseSpans.field r.1 = eraseSpans.field f.tree ∧ r.2 = false)
      (tableItem (Level.free n)) (f.text ++ l :: ofSymbol .rbrace :: rest)
      (ofSymbol .rbrace :: rest) := by
    apply (reads n).bind id
    intro fit f' same
    apply isSeparator.takes.next
    rintro _ rfl
    apply (isAt_takes_true (.cons rfl)).next
    rintro _ rfl
    exact .pure fit ⟨same, rfl⟩
  apply one.bind id
  rintro fit ⟨f', _⟩ ⟨same, rfl⟩
  exact .pure fit ⟨_, rfl, by simp [same]⟩

theorem AsItems.more {fs : Phrase (List Field)} (others : AsItems fs)
    (starts : Leads (· ≠ .symbol .rbrace) fs.text) :
    AsItems ⟨f.text ++ l :: fs.text, max f.levels fs.levels, f.tree :: fs.tree⟩ := by
  intro n items rest
  simp only [List.append_assoc, List.cons_append]
  have one : Reads (f.levels ≤ n) (fun r => ∃ next, r = .again next ∧
      next.toList.map eraseSpans.field =
        items.toList.map eraseSpans.field ++ [eraseSpans.field f.tree])
      (seriesRound (tableItem (Level.free n)) items)
      (f.text ++ l :: (fs.text ++ ofSymbol .rbrace :: rest))
      (fs.text ++ ofSymbol .rbrace :: rest) := by
    have item : Reads (f.levels ≤ n)
        (fun r => eraseSpans.field r.1 = eraseSpans.field f.tree ∧ r.2 = true)
        (tableItem (Level.free n)) (f.text ++ l :: (fs.text ++ ofSymbol .rbrace :: rest))
        (fs.text ++ ofSymbol .rbrace :: rest) := by
      apply (reads n).bind id
      intro fit f' same
      apply isSeparator.takes.next
      rintro _ rfl
      apply (isAt_takes_false (starts.append _)).next
      rintro _ rfl
      exact .pure fit ⟨same, rfl⟩
    apply item.bind id
    rintro fit ⟨f', _⟩ ⟨same, rfl⟩
    exact .pure fit ⟨_, rfl, by simp [same]⟩
  have shorter : (fs.text ++ ofSymbol .rbrace :: rest).length <
      (f.text ++ l :: (fs.text ++ ofSymbol .rbrace :: rest)).length := by
    simp only [List.length_append, List.length_cons]
    omega
  apply RoundsRead.again one shorter fun fit => (Nat.max_le.mp fit).1
  intro fit next collected fuel enough
  refine Reads.congr ((others n next fuel enough).mono ?_) ?_
  · intro fs' same
    rw [same, collected]
    simp
  · exact ⟨fun more => Nat.max_le.mpr ⟨fit, more⟩, fun all => (Nat.max_le.mp all).2⟩

end Separated

theorem asFields_none : AsFields ⟨[], 0, []⟩ := by
  intro n rest
  rw [tableFields_eq]
  apply (isAt_takes_true (.cons rfl)).next
  rintro _ rfl
  exact .pure (Nat.zero_le n) rfl

theorem AsItems.asFields {fs : Phrase (List Field)} (reads : AsItems fs)
    (starts : Leads (· ≠ .symbol .rbrace) fs.text) : AsFields fs := by
  intro n rest
  rw [tableFields_eq]
  apply (isAt_takes_false (starts.append _)).next
  rintro _ rfl
  exact (iterate_reads (@reads n #[] rest)).mono fun fs' same => by simpa using same

theorem AsFields.table_reads {fs : Phrase (List Field)} (reads : AsFields fs) (n : Nat) :
    Reads (fs.levels ≤ n) (fun fs' => fs'.map eraseSpans.field = fs.tree.map eraseSpans.field)
      (Grammar.table (Level.free n)) (Render.enclosed .lbrace fs.text .rbrace ++ rest) rest := by
  simp only [Render.enclosed, List.cons_append, List.append_assoc, List.nil_append]
  apply (symbol_takes .lbrace).next
  intro _ _
  apply (reads n).bind id
  intro fit fs' same
  apply (symbol_takes .rbrace).next
  intro _ _
  exact .pure fit same

def table (fs : Phrase (List Field)) : Phrase Expr :=
  ⟨Render.enclosed .lbrace fs.text .rbrace, fs.levels, .table default fs.tree⟩

theorem AsFields.tableExpr_reads {fs : Phrase (List Field)} (reads : AsFields fs) (n : Nat) :
    Reads (fs.levels ≤ n) (SameExpr · (table fs).tree)
      (spanned do return (Expr.table · (← Grammar.table (Level.free n))))
      ((table fs).text ++ rest) rest := by
  apply spanned_reads
  apply (reads.table_reads n).bind id
  intro fit fs' same
  refine .pure fit fun outer => ?_
  simp only [table, SameExpr, Relabeling.expr, fields_eq_map, same]
  rfl

theorem AsFields.asOperand_table {fs : Phrase (List Field)} (reads : AsFields fs) :
    AsOperand (table fs) rest := by
  refine asOperand_of_simple (.cons rfl) ?_
  intro n
  apply peek_takes_first.next
  rintro _ rfl
  exact reads.tableExpr_reads n

def tableArg (fs : Phrase (List Field)) : Phrase (List Expr) :=
  ⟨(table fs).text, fs.levels, [(table fs).tree]⟩

theorem AsFields.asArgs {fs : Phrase (List Field)} (reads : AsFields fs) :
    AsArgs (tableArg fs) := by
  refine ⟨.cons (.inr (.inl rfl)), ?_⟩
  intro n rest
  apply peek_takes_first.next
  rintro _ rfl
  apply (reads.tableExpr_reads n).bind id
  intro fit e same
  exact .pure fit (congrArg (fun e => [e]) same)

def constant (value : Constant) : Phrase Expr := ⟨[value.lexeme], 0, .constant default value⟩

theorem asOperand_constant (value : Constant) : AsOperand (constant value) rest := by
  refine asOperand_of_simple (.cons (by cases value <;> rfl)) ?_
  intro n
  have reads : Reads ((constant value).levels ≤ n) (SameExpr · (constant value).tree)
      (Grammar.constant value) (value.lexeme :: rest) rest := by
    apply spanned_reads
    apply advance_takes.next
    intro _ _
    exact .pure (Nat.zero_le n) fun span => rfl
  apply peek_takes_first.next
  rintro _ rfl
  cases value <;> exact reads

def number (text : String) : Phrase Expr := ⟨[ofNumber text], 0, .number default text⟩

theorem asOperand_number (text : String) : AsOperand (number text) rest := by
  refine asOperand_of_simple (.cons rfl) ?_
  intro n
  apply peek_takes_first.next
  rintro _ rfl
  apply spanned_reads
  apply advance_takes.next
  intro token same
  refine .pure (Nat.zero_le n) fun outer => ?_
  have given : token.text = text := congrArg Prod.snd same
  simp only [SameExpr, Relabeling.expr, given]
  rfl

/-- The lexeme is a literal for the string. -/
structure Quotes (l : Lexeme) (value : String) : Prop where
  kind : l.1 = .string ∨ l.1 = .longString
  reads : ∀ {token : Token}, token.lexeme = l → token.stringValue = value

def string (l : Lexeme) (value : String) : Phrase Expr := ⟨[l], 0, .string default value⟩

theorem Quotes.asOperand {l : Lexeme} {value : String} (quotes : Quotes l value) :
    AsOperand (string l value) rest := by
  have noUnary : UnaryOp.ofKind? l.1 = none := by
    rcases quotes.kind with kind | kind <;> rw [kind] <;> rfl
  refine asOperand_of_simple (.cons noUnary) ?_
  intro n
  have reads : Reads ((string l value).levels ≤ n) (SameExpr · (string l value).tree)
      (spanned do
        let token ← advance
        return (.string · token.stringValue)) (l :: rest) rest := by
    apply spanned_reads
    apply advance_takes.next
    intro token same
    refine .pure (Nat.zero_le n) fun outer => ?_
    simp only [SameExpr, Relabeling.expr, quotes.reads same]
    rfl
  apply peek_takes_first.next
  rintro _ rfl
  rcases quotes.kind with kind | kind <;> rw [kind] <;> exact reads

def stringArg (l : Lexeme) (value : String) : Phrase (List Expr) :=
  ⟨[l], 0, [.string default value]⟩

theorem Quotes.asArgs {l : Lexeme} {value : String} (quotes : Quotes l value) :
    AsArgs (stringArg l value) := by
  refine ⟨.cons (by simp [quotes.kind]), ?_⟩
  intro n rest
  have reads : Reads ((stringArg l value).levels ≤ n) (SameExprs · (stringArg l value).tree)
      (do
        let token ← advance
        return [.string token.span token.stringValue]) (l :: rest) rest := by
    apply advance_takes.next
    intro token same
    refine .pure (Nat.zero_le n) ?_
    simp only [SameExprs, Relabeling.exprs, Relabeling.expr, quotes.reads same]
    rfl
  apply peek_takes_first.next
  rintro _ rfl
  rcases quotes.kind with kind | kind <;> rw [kind] <;> exact reads

end Phrase

end LuaSearch
