import LuaSearch.Proofs.Concrete.Reads
import LuaSearch.Proofs.Parse.Leaves

/-!
Whatever is read as an expression is the text of a formed concrete tree. The readers are followed
one by one; where a reader looks at what comes next to decide whether it goes on, that it did not go
on is what makes the tree formed.
-/
namespace LuaSearch

open Lexeme Parse Grammar

namespace Concrete

variable {input rest : List Lexeme}

structure Head.Like (h : Head) (a : Expr) : Prop where
  isCall : a.isCall = h.isCall
  isAssignable : a.isAssignable = h.isAssignable

structure Term.Like (t : Term) (a : Expr) : Prop where
  isCall : a.isCall = t.isCall
  isAssignable : a.isAssignable = t.isAssignable

def HeadFound (input : List Lexeme) (a : Expr) (rest : List Lexeme) : Prop :=
  ∃ h : Head, h.formed ∧ input = h.text ++ rest ∧ h.Like a

def TermFound (limit : Nat) (input : List Lexeme) (a : Expr) (rest : List Lexeme) : Prop :=
  ∃ t : Term, t.formed limit ∧ input = t.text ++ rest ∧ t.EndsAt (kindOf rest) ∧ t.Like a

def TermsFound (input rest : List Lexeme) : Prop :=
  ∃ ts : Terms, ts.formed ∧ input = Phrase.texts (ts.phrases id) ++ rest ∧
    (ts.isOpen → (kindOf rest).startsSuffix = false)

def BodyFound (input rest : List Lexeme) : Prop :=
  ∃ body : Body, body.formed ∧ input = body.text ++ rest

def BranchFound (input rest : List Lexeme) : Prop :=
  ∃ branch : Branch, branch.formed ∧ input = (branch.phrase id).text ++ rest

/-- What the readers of a level take are texts of formed trees. -/
structure Level.Finds (inner : Level) : Prop where
  operators (limit : Nat) (input : List Lexeme) : Leaves input (fun a rest =>
    TermFound limit input a rest ∧
      ∀ op, BinaryOp.ofKind? (kindOf rest) = some op → op.leftPriority ≤ limit)
    (inner.operators limit)
  block (input : List Lexeme) : Leaves input (fun _ => BodyFound input) inner.block
  elseif {input : List Lexeme} (seen : kindOf input = .keyword .elseif_) :
    Leaves input (fun _ => BranchFound input) inner.elseif

theorem advance_leaves_string (seen : kindOf input = .string ∨ kindOf input = .longString) :
    Leaves input (fun _ rest => ∃ literal : StringLiteral, input = literal.lexeme :: rest)
      advance := by
  have inside : kindOf input ≠ .eof := by rcases seen with seen | seen <;> rw [seen] <;> nofun
  apply (advance_leaves inside).mono
  rintro ⟨kind, span, text⟩ rest ⟨isKind, rfl, proper⟩
  obtain rfl | rfl : kind = .string ∨ kind = .longString := by simpa [← isKind] using seen
  · cases proper with
    | string stands => exact ⟨⟨false, text, stands⟩, rfl⟩
  · cases proper with
    | longString stands => exact ⟨⟨true, text, stands⟩, rfl⟩

theorem advance_leaves_number (seen : kindOf input = .number) :
    Leaves input (fun token rest => isNumber token.text ∧ input = ofNumber token.text :: rest)
      advance := by
  apply (advance_leaves (by rw [seen]; nofun)).mono
  rintro ⟨kind, span, text⟩ rest ⟨isKind, rfl, proper⟩
  obtain rfl : kind = .number := isKind.trans seen
  cases proper with
  | number numeric => exact ⟨numeric, rfl⟩

theorem advance_leaves_unary {op : UnaryOp} (seen : UnaryOp.ofKind? (kindOf input) = some op) :
    Leaves input (fun _ rest => input = op.lexeme :: rest) advance := by
  generalize isKind : kindOf input = kind at seen
  unfold UnaryOp.ofKind? at seen
  split at seen <;> cases seen <;>
    first | exact advance_leaves_symbol isKind | exact advance_leaves_keyword isKind

theorem advance_leaves_binary {op : BinaryOp} (seen : BinaryOp.ofKind? (kindOf input) = some op) :
    Leaves input (fun _ rest => input = op.lexeme :: rest) advance := by
  generalize isKind : kindOf input = kind at seen
  unfold BinaryOp.ofKind? at seen
  split at seen <;> cases seen <;>
    first | exact advance_leaves_symbol isKind | exact advance_leaves_keyword isKind

theorem constant_found {value : Constant}
    (taken : Leaves input (fun _ rest => input = value.lexeme :: rest) advance) :
    Leaves input (fun a rest => ∀ limit, TermFound limit input a rest)
      (Grammar.constant value) := by
  apply spanned_leaves
  apply taken.bind
  rintro _ _ rfl
  exact .pure fun _ _ => ⟨.constant value, rfl, rfl, ⟨fun _ _ => rfl, nofun⟩, rfl, rfl⟩

theorem string_found (seen : kindOf input = .string ∨ kindOf input = .longString) :
    Leaves input (fun a rest => ∀ limit, TermFound limit input a rest) (spanned do
      let token ← advance
      return (.string · token.stringValue)) := by
  apply spanned_leaves
  apply (advance_leaves_string seen).bind
  rintro _ _ ⟨literal, rfl⟩
  exact .pure fun _ _ => ⟨.string literal, rfl, rfl, ⟨fun _ _ => rfl, nofun⟩, rfl, rfl⟩

def Parameters.text (ps : Parameters) : List Lexeme :=
  Render.separated ((Render.paramItems ps.tree).map ([Render.param ·]))

theorem Parameters.text_cons (name : Name) {ps : Parameters} (some : ps.names ≠ [] ∨ ps.dots) :
    Parameters.text ⟨name :: ps.names, ps.dots⟩ =
      ofName name.1 :: ofSymbol .comma :: ps.text := by
  rcases ps with ⟨names, dots⟩
  have more : (Render.paramItems (Parameters.tree ⟨names, dots⟩)).map ([Render.param ·]) ≠ [] := by
    rcases some with nonempty | rfl
    · simp [Render.paramItems, Parameters.tree, nonempty]
    · simp [Render.paramItems, Parameters.tree]
  exact Render.separated_cons [ofName name.1] more

theorem param_found :
    Leaves input (fun r middle =>
      if r.2 then ∃ name : Name, input = ofName name.1 :: ofSymbol .comma :: middle
      else input = ofSymbol .ellipsis :: middle ∨ ∃ name : Name, input = ofName name.1 :: middle)
      param := by
  apply (eatSymbol_leaves .ellipsis).bind
  rintro _ middle (⟨rfl⟩ | _)
  · exact .pure (.inl rfl)
  · have name : Leaves input (fun _ rest => ∃ name : Name, input = ofName name.1 :: rest)
        binder := by
      apply ident_leaves.bind
      rintro token rest ⟨named, taken⟩
      exact .pure ⟨⟨_, named⟩, taken⟩
    apply name.bind
    rintro b middle ⟨name, taken⟩
    apply (eatSymbol_leaves .comma).bind
    rintro _ tail (⟨rfl⟩ | _)
    · exact .pure ⟨name, taken⟩
    · exact .pure (.inr ⟨name, taken⟩)

theorem params_found :
    Leaves input (fun _ rest => ∃ ps : Parameters, input = ps.text ++ rest) params := by
  apply isAt_leaves
  by_cases empty : kindOf input = .symbol .rparen
  · simp only [empty, decide_true, if_true]
    exact .pure ⟨⟨[], false⟩, rfl⟩
  · simp only [empty, decide_false]
    have all : Leaves input (fun _ rest => ∃ ps : Parameters,
        (ps.names ≠ [] ∨ ps.dots) ∧ input = ps.text ++ rest) (series param) := by
      refine series_leaves (K := fun input _ rest => ∃ ps : Parameters,
        (ps.names ≠ [] ∨ ps.dots) ∧ input = ps.text ++ rest) ?_
      intro input
      apply param_found.mono
      rintro ⟨_, _ | _⟩ middle found
      · rcases found with rfl | ⟨name, rfl⟩
        · exact ⟨⟨[], true⟩, .inr rfl, rfl⟩
        · exact ⟨⟨[name], false⟩, .inl (List.cons_ne_nil _ _), rfl⟩
      · obtain ⟨name, rfl⟩ := found
        rintro _ rest ⟨ps, some, rfl⟩
        refine ⟨⟨name :: ps.names, ps.dots⟩, .inl (List.cons_ne_nil _ _), ?_⟩
        rw [Parameters.text_cons name some]
        rfl
    apply all.bind
    rintro given rest ⟨ps, _, taken⟩
    exact .pure ⟨ps, taken⟩

theorem fieldSeparator_found :
    Leaves input (fun b rest => if b then ∃ separator : Separator, input = separator.lexeme :: rest
      else rest = input) fieldSeparator := by
  apply (eatSymbol_leaves .comma).bind
  rintro _ _ (⟨rfl⟩ | _)
  · exact .pure ⟨.comma, rfl⟩
  · apply (eatSymbol_leaves .semicolon).mono
    rintro _ _ (⟨rfl⟩ | _)
    · exact ⟨.semicolon, rfl⟩
    · rfl

theorem texts_more (term : Term) (others : Terms) :
    Phrase.texts ((Terms.more term others).phrases id) =
      term.text ++ ofSymbol .comma :: Phrase.texts (others.phrases id) := by
  refine Render.separated_cons _ ?_
  simp [phrases_ne_nil]

section

variable {inner : Level} (finds : Level.Finds inner)

include finds

theorem expr_found : Leaves input (TermFound 0 input) (Grammar.expr inner) :=
  (finds.operators 0 input).mono fun _ _ => And.left

theorem exprs_found : Leaves input (fun _ => TermsFound input) (Grammar.exprs inner) := by
  refine commaSeparated_leaves (K := fun input _ => TermsFound input)
    (fun _ => expr_found finds) ?_ ?_
  · rintro _ a rest ⟨t, formed, rfl, ends, _⟩
    exact ⟨.one t, formed, rfl, ends.noSuffix⟩
  · rintro _ a middle _ rest ⟨t, formed, rfl, _, _⟩ ⟨ts, others, rfl, noSuffix⟩
    refine ⟨.more t ts, by simp [formed, others], ?_, noSuffix⟩
    rw [texts_more, List.append_assoc, List.cons_append]

theorem functionBody_found :
    Leaves input (fun _ rest => ∃ (ps : Parameters) (body : Body), body.formed ∧
      input = Render.functionBody ps.tree body.text ++ rest) (functionBody inner) := by
  apply (symbol_leaves .lparen).bind
  rintro _ _ rfl
  apply params_found.bind
  rintro _ _ ⟨ps, rfl⟩
  apply (symbol_leaves .rparen).bind
  rintro _ _ rfl
  apply (finds.block _).bind
  rintro _ _ ⟨body, formed, rfl⟩
  apply (keyword_leaves .end_).bind
  rintro _ _ rfl
  refine .pure ⟨ps, body, formed, ?_⟩
  simp [Render.functionBody, Render.params, Render.enclosed, Parameters.text]

theorem field_found :
    Leaves input (fun _ rest => ∃ entry : Entry, entry.formed ∧
      input = (entry.phrase id).text ++ rest) (Grammar.field inner) := by
  have positional : Leaves input (fun _ rest => ∃ entry : Entry, entry.formed ∧
      input = (entry.phrase id).text ++ rest)
      (do return Field.positional (← Grammar.expr inner)) := by
    apply (expr_found finds).bind
    rintro _ _ ⟨t, formed, rfl, _, _⟩
    exact .pure ⟨.positional t, formed, rfl⟩
  apply peek_leaves
  split
  · rename_i seen
    apply (advance_leaves_symbol seen).bind
    rintro _ _ rfl
    apply (expr_found finds).bind
    rintro _ _ ⟨key, keyFormed, rfl, _, _⟩
    apply (symbol_leaves .rbracket).bind
    rintro _ _ rfl
    apply (symbol_leaves .eq).bind
    rintro _ _ rfl
    apply (expr_found finds).bind
    rintro _ _ ⟨value, formed, rfl, _, _⟩
    refine .pure ⟨.keyed key value, by simp [keyFormed, formed], ?_⟩
    simp [Phrase.keyed, Render.enclosed]
  · apply peekSecond_leaves
    intro second
    split
    · apply ident_leaves.bind
      rintro token _ ⟨named, rfl⟩
      apply (symbol_leaves .eq).bind
      rintro _ _ rfl
      apply (expr_found finds).bind
      rintro _ _ ⟨value, formed, rfl, _, _⟩
      exact .pure ⟨.named false ⟨_, named⟩ value, formed, rfl⟩
    · exact positional
  · exact positional

theorem tableFields_found :
    Leaves input (fun _ rest => ∃ entries : Entries, entries.formed ∧
      input = (entries.phrase id).text ++ rest) (tableFields inner) := by
  rw [Phrase.tableFields_eq]
  apply isAt_leaves
  by_cases empty : kindOf input = .symbol .rbrace
  · simp only [empty, decide_true, if_true]
    exact .pure ⟨.none, rfl, rfl⟩
  · simp only [empty, decide_false]
    refine series_leaves (K := fun input _ rest => ∃ entries : Entries, entries.formed ∧
      input = (entries.phrase id).text ++ rest) ?_
    intro input
    apply (field_found finds).bind
    rintro _ _ ⟨entry, formed, rfl⟩
    apply fieldSeparator_found.bind
    rintro (_ | _) middle found
    · obtain rfl := found
      exact .pure ⟨.last entry, formed, rfl⟩
    · obtain ⟨separator, rfl⟩ := found
      apply isAt_leaves
      by_cases last : kindOf middle = .symbol .rbrace
      · simp only [last, decide_true]
        refine .pure ⟨.more entry separator .none, by simp [formed], ?_⟩
        simp
      · simp only [last, decide_false]
        refine .pure ?_
        rintro _ _ ⟨entries, others, rfl⟩
        refine ⟨.more entry separator entries, by simp [formed, others], ?_⟩
        simp

theorem table_found :
    Leaves input (fun _ rest => ∃ entries : Entries, entries.formed ∧
      input = Render.enclosed .lbrace (entries.phrase id).text .rbrace ++ rest)
      (Grammar.table inner) := by
  apply (symbol_leaves .lbrace).bind
  rintro _ _ rfl
  apply (tableFields_found finds).bind
  rintro _ _ ⟨entries, formed, rfl⟩
  apply (symbol_leaves .rbrace).bind
  rintro _ _ rfl
  exact .pure ⟨entries, formed, by simp [Render.enclosed]⟩

theorem args_found :
    Leaves input (fun _ rest => ∃ args : Args, args.formed ∧
      input = (args.phrase id).text ++ rest) (args inner) := by
  apply peek_leaves
  split
  · rename_i seen
    apply (advance_leaves_symbol seen).bind
    rintro _ middle rfl
    apply isAt_leaves
    by_cases empty : kindOf middle = .symbol .rparen
    · simp only [empty, decide_true, if_true]
      apply (symbol_leaves .rparen).bind
      rintro _ _ rfl
      exact .pure ⟨.list .none, rfl, rfl⟩
    · simp only [empty, decide_false]
      apply (exprs_found finds).bind
      rintro _ _ ⟨ts, formed, rfl, _⟩
      apply (symbol_leaves .rparen).bind
      rintro _ _ rfl
      refine .pure ⟨.list (.given ts), formed, ?_⟩
      simp [Phrase.argList, Render.enclosed]
  · have table : Leaves input (fun _ rest => ∃ entries : Entries, entries.formed ∧
        input = Render.enclosed .lbrace (entries.phrase id).text .rbrace ++ rest)
        (spanned do return (Expr.table · (← Grammar.table inner))) := by
      apply spanned_leaves
      apply (table_found finds).bind
      intro _ _ found
      exact .pure fun _ => found
    apply table.bind
    rintro _ _ ⟨entries, formed, rfl⟩
    exact .pure ⟨.table false entries, formed, rfl⟩
  · rename_i seen
    apply (advance_leaves_string (.inl seen)).bind
    rintro _ _ ⟨literal, rfl⟩
    exact .pure ⟨.string false literal, rfl, rfl⟩
  · rename_i seen
    apply (advance_leaves_string (.inr seen)).bind
    rintro _ _ ⟨literal, rfl⟩
    exact .pure ⟨.string false literal, rfl, rfl⟩
  · exact currentSpan_leaves fun _ => .fail _ _

theorem primary_found : Leaves input (HeadFound input) (primary inner) := by
  apply peek_leaves
  split
  · apply ident_leaves.bind
    rintro token _ ⟨named, rfl⟩
    exact .pure ⟨.name ⟨_, named⟩, rfl, rfl, rfl, rfl⟩
  · rename_i seen
    apply currentSpan_leaves
    intro start
    apply (advance_leaves_symbol seen).bind
    rintro _ _ rfl
    apply (expr_found finds).bind
    rintro inside _ ⟨t, formed, rfl, _, like⟩
    apply (symbol_leaves .rparen).bind
    rintro _ _ rfl
    apply finish_leaves start
    intro span
    refine .pure ⟨.group t, formed,
      by simp [Head.text, Phrase.group, Render.enclosed], ?_, ?_⟩
    · rw [isCall_parenthesized, like.isCall]
      rfl
    · rw [isAssignable_parenthesized, like.isAssignable]
      rfl
  · exact currentSpan_leaves fun _ => .fail _ _
  · exact currentSpan_leaves fun _ => .fail _ _

theorem suffix_found {whole : List Lexeme} (start : Span) (object : Expr)
    (found : HeadFound whole object input) :
    Leaves input (Link (HeadFound whole) fun rest =>
      HeadFound whole object rest ∧ (kindOf rest).startsSuffix = false)
      (suffix inner start object) := by
  have called : Leaves input (Link (HeadFound whole) fun rest =>
      HeadFound whole object rest ∧ (kindOf rest).startsSuffix = false) (do
        let given ← args inner
        return some (.call (← finish start) object given false)) := by
    apply (args_found finds).bind
    rintro _ _ ⟨args, argsFormed, rfl⟩
    apply finish_leaves start
    intro span
    obtain ⟨h, formed, rfl, like⟩ := found
    exact .pure (.more ⟨.call h args, by simp [formed, argsFormed],
      by simp [Head.text, Phrase.call], rfl, rfl⟩)
  apply peek_leaves
  split
  · rename_i seen
    obtain ⟨h, formed, rfl, like⟩ := found
    apply (advance_leaves_symbol seen).bind
    rintro _ _ rfl
    apply ident_leaves.bind
    rintro token _ ⟨named, rfl⟩
    exact .pure (.more ⟨.access false h ⟨_, named⟩, formed,
      by simp [Head.text, Phrase.access], rfl, rfl⟩)
  · rename_i seen
    obtain ⟨h, formed, rfl, like⟩ := found
    apply (advance_leaves_symbol seen).bind
    rintro _ _ rfl
    apply (expr_found finds).bind
    rintro _ _ ⟨key, keyFormed, rfl, _, _⟩
    apply (symbol_leaves .rbracket).bind
    rintro _ _ rfl
    apply finish_leaves start
    intro span
    exact .pure (.more ⟨.index h key, by simp [formed, keyFormed],
      by simp [Head.text, Phrase.index, Render.enclosed], rfl, rfl⟩)
  · rename_i seen
    obtain ⟨h, formed, rfl, like⟩ := found
    apply (advance_leaves_symbol seen).bind
    rintro _ _ rfl
    apply ident_leaves.bind
    rintro token _ ⟨named, rfl⟩
    apply (args_found finds).bind
    rintro _ _ ⟨args, argsFormed, rfl⟩
    apply finish_leaves start
    intro span
    exact .pure (.more ⟨.methodCall h ⟨_, named⟩ args, by simp [formed, argsFormed],
      by simp [Head.text, Phrase.methodCall], rfl, rfl⟩)
  · exact called
  · exact called
  · exact called
  · exact called
  · refine .pure (.last ⟨found, ?_⟩)
    unfold Kind.startsSuffix
    split <;> simp_all

theorem suffixed_found :
    Leaves input (fun a rest => HeadFound input a rest ∧ (kindOf rest).startsSuffix = false)
      (suffixed inner) := by
  apply currentSpan_leaves
  intro start
  apply (primary_found finds).bind
  intro object middle found
  exact chain_leaves (fun a _ found => suffix_found finds start a found) found

theorem simple_found :
    Leaves input (fun a rest => ∀ limit, TermFound limit input a rest) (simple inner) := by
  apply peek_leaves
  split
  · rename_i seen
    apply spanned_leaves
    apply (advance_leaves_number seen).bind
    rintro _ _ ⟨numeric, rfl⟩
    exact .pure fun _ _ => ⟨.number ⟨_, numeric⟩, rfl, rfl, ⟨fun _ _ => rfl, nofun⟩, rfl, rfl⟩
  · rename_i seen
    exact string_found (.inl seen)
  · rename_i seen
    exact string_found (.inr seen)
  · rename_i seen
    exact constant_found (advance_leaves_keyword seen)
  · rename_i seen
    exact constant_found (advance_leaves_keyword seen)
  · rename_i seen
    exact constant_found (advance_leaves_keyword seen)
  · rename_i seen
    exact constant_found (advance_leaves_symbol seen)
  · apply spanned_leaves
    apply (table_found finds).bind
    rintro _ _ ⟨entries, formed, rfl⟩
    exact .pure fun _ _ => ⟨.table entries, formed, rfl, ⟨fun _ _ => rfl, nofun⟩, rfl, rfl⟩
  · rename_i seen
    apply spanned_leaves
    apply (advance_leaves_keyword seen).bind
    rintro _ _ rfl
    apply (functionBody_found finds).bind
    rintro _ _ ⟨ps, body, formed, rfl⟩
    exact .pure fun _ _ => ⟨.function ps body, formed, rfl, ⟨fun _ _ => rfl, nofun⟩, rfl, rfl⟩
  · apply (suffixed_found finds).mono
    rintro a rest ⟨⟨h, formed, rfl, like⟩, noSuffix⟩ limit
    exact ⟨.head h, formed, rfl, ⟨fun _ _ => rfl, fun _ => noSuffix⟩, like.isCall,
      like.isAssignable⟩

theorem operand_found :
    Leaves input (fun a rest => ∀ limit, TermFound limit input a rest) (operand inner) := by
  apply peek_leaves
  split
  · rename_i op seen
    apply (advance_leaves_unary seen).bind
    rintro sign _ rfl
    apply (finds.operators UnaryOp.priority _).bind
    rintro a rest ⟨⟨t, formed, rfl, ends, _⟩, stops⟩
    refine .pure fun limit => ⟨.unary op t, formed, rfl, ⟨?_, ends.noSuffix⟩, rfl, rfl⟩
    intro next operator
    simp [Term.closes, stops next operator, ends.closes next operator]
  · exact simple_found finds

theorem operation_found {limit : Nat} {whole : List Lexeme} {left : Expr}
    (found : TermFound limit whole left input) :
    Leaves input (Link (TermFound limit whole) fun rest => TermFound limit whole left rest ∧
        ∀ op, BinaryOp.ofKind? (kindOf rest) = some op → op.leftPriority ≤ limit)
      (operation inner limit left) := by
  apply peek_leaves
  split
  · rename_i op seen
    by_cases looser : op.leftPriority ≤ limit
    · simp only [looser, if_true]
      refine .pure (.last ⟨found, ?_⟩)
      intro other same
      rw [seen] at same
      cases same
      exact looser
    · simp only [looser, if_false]
      obtain ⟨t, formed, rfl, ends, _⟩ := found
      have closes : t.closes op := ends.closes op seen
      apply (advance_leaves_binary seen).bind
      rintro sign _ rfl
      apply (finds.operators op.rightPriority _).bind
      rintro right rest ⟨⟨u, rightFormed, rfl, rightEnds, _⟩, stops⟩
      refine .pure (.more ⟨.binary op t u, ?_, ?_, ⟨?_, rightEnds.noSuffix⟩, rfl, rfl⟩)
      · simp [Nat.not_le.mp looser, closes, formed, rightFormed]
      · simp [Term.text, Phrase.binary]
      · intro next operator
        simp [Term.closes, stops next operator, rightEnds.closes next operator]
  · rename_i seen
    refine .pure (.last ⟨found, ?_⟩)
    intro op operator
    rw [seen] at operator
    cases operator

theorem operators_found (limit : Nat) : Leaves input (fun a rest =>
    TermFound limit input a rest ∧
      ∀ op, BinaryOp.ofKind? (kindOf rest) = some op → op.leftPriority ≤ limit)
    (Grammar.operators inner limit) := by
  apply (operand_found finds).bind
  intro first middle found
  exact chain_leaves (fun _ _ => operation_found finds) (found limit)

end

end Concrete

end LuaSearch
