import LuaSearch.Proofs.Concrete.Found.Statement
import LuaSearch.Proofs.Phrase.Source

/-!
Concrete trees and the sources they spell. Blanks and comments are all that a tree leaves open of
its source. The sources of formed trees are exactly those that can be parsed, but for the limit on
nesting, and what they are parsed as is the syntax tree of the concrete one.
-/
namespace LuaSearch

open Lexeme Parse Relabeling

namespace Concrete

theorem separator_stands (separator : Separator) : separator.lexeme.Stands := by
  cases separator <;> exact stands_symbol _

theorem literal_stands (literal : StringLiteral) : literal.lexeme.Stands := literal.stands

theorem standing_texts {ps : List (Phrase Expr)} (each : ∀ p ∈ ps, Standing p.text) :
    Standing (Phrase.texts ps) :=
  Standing.separated (by simpa using each)

mutual
theorem standing_head : ∀ h : Head, Standing h.text
  | .name name => by simpa [Head.text, Phrase.name] using stands_name name.2
  | .group inside => (standing_term inside).enclosed _ _
  | .index object key => by
      simpa [Head.text, Phrase.index, standing_head object] using
        (standing_term key).enclosed .lbracket .rbracket
  | .access _ object name => by
      simp [Head.text, Phrase.access, standing_head object, stands_name name.2]
  | .call callee args => by
      simp [Head.text, Phrase.call, standing_head callee, standing_args args]
  | .methodCall receiver method args => by
      simp [Head.text, Phrase.methodCall, standing_head receiver, stands_name method.2,
        standing_args args]
termination_by structural h => h

theorem standing_term : ∀ t : Term, Standing t.text
  | .constant value => by
      simpa [Term.text, Phrase.constant] using constant_stands value
  | .number text => by simpa [Term.text, Phrase.number] using stands_number text.2
  | .string literal => by simpa [Term.text, Phrase.string] using literal_stands literal
  | .function params body => by
      simpa [Term.text, Phrase.function] using
        standing_functionBody params.named (standing_body body)
  | .table entries => (standing_entries entries).enclosed _ _
  | .head head => standing_head head
  | .unary op operand => by
      simp [Term.text, Phrase.unary, unaryOp_stands, standing_term operand]
  | .binary op left right => by
      simp [Term.text, Phrase.binary, binaryOp_stands, standing_term left, standing_term right]
termination_by structural t => t

theorem standing_terms : ∀ ts : Terms, ∀ p ∈ ts.phrases id, Standing p.text
  | .one term => by simpa using standing_term term
  | .more term rest => by simpa [standing_term term] using standing_terms rest
termination_by structural ts => ts

theorem standing_values : ∀ vs : Values, ∀ p ∈ vs.phrases id, Standing p.text
  | .none => by simp
  | .given terms => standing_terms terms
termination_by structural vs => vs

theorem standing_args : ∀ args : Args, Standing (args.phrase id).text
  | .list values => (standing_texts (standing_values values)).enclosed _ _
  | .table _ entries => (standing_entries entries).enclosed _ _
  | .string _ literal => by simpa [Phrase.stringArg] using literal_stands literal
termination_by structural args => args

theorem standing_entries : ∀ entries : Entries, Standing (entries.phrase id).text
  | .none => by simp
  | .last entry => standing_entry entry
  | .more entry separator rest => by
      simp [standing_entry entry, separator_stands, standing_entries rest]
termination_by structural entries => entries

theorem standing_entry : ∀ entry : Entry, Standing (entry.phrase id).text
  | .positional value => standing_term value
  | .keyed key value => by
      simp [Phrase.keyed, (standing_term key).enclosed, standing_term value]
  | .named _ name value => by
      simp [Phrase.named, stands_name name.2, standing_term value]
termination_by structural entry => entry

theorem standing_targets : ∀ ts : Targets, ∀ p ∈ ts.phrases id, Standing p.text
  | .one head => by simpa using standing_head head
  | .more head rest => by simpa [standing_head head] using standing_targets rest
termination_by structural ts => ts

theorem standing_stepText : ∀ step : Step, Standing (Phrase.stepText (step.phrase? id))
  | .none => by simp [Phrase.stepText]
  | .by step => by simpa [Phrase.stepText] using standing_term step
termination_by structural step => step

theorem standing_command : ∀ c : Command, Standing (c.phrase id).text
  | .assign targets values => by
      simp [Phrase.assign, standing_texts (standing_targets targets),
        standing_texts (standing_terms values)]
  | .compound _ op target value => by
      simp [Phrase.compound, standing_head target, standing_term value]
  | .localVars first more values => by
      have right : Standing (ofSymbol .eq :: Phrase.texts (values.phrases id)) := by
        simpa using standing_texts (standing_values values)
      have left : Standing (Render.separated
          (((first :: more).map Name.binder).map ([Render.binder ·]))) := by
        refine standing_singles fun b member => ?_
        obtain ⟨name, _, rfl⟩ := List.mem_map.mp member
        exact binder_stands (binder_named name)
      simp only [Command.phrase, Phrase.localVars, Phrase.valuesText, Standing.cons,
        Standing.append]
      exact ⟨stands_keyword _, left, right.optional⟩
  | .call call => standing_head call
  | .doBlock body => by simp [Phrase.doBlock, standing_body body]
  | .whileLoop condition body => by
      simp [Phrase.whileLoop, standing_term condition, standing_body body]
  | .repeatLoop body condition => by
      simp [Phrase.repeatLoop, standing_term condition, standing_body body]
  | .localFunction name params body => by
      simp [Phrase.localFunction, stands_name name.2,
        standing_functionBody params.named (standing_body body)]
  | .function path params body => by
      simp [Phrase.function_, standing_path path.isPath,
        standing_functionBody params.named (standing_body body)]
  | .method path name params body => by
      simp [Phrase.method, standing_path path.isPath, stands_name name.2,
        standing_functionBody params.named (standing_body body)]
  | .ifThen condition body branch => by
      simp [Phrase.ifStmt, Phrase.conditionalText, standing_term condition, standing_body body,
        standing_branch branch]
  | .breakStmt => by simp [Phrase.breakStmt]
  | .continueStmt => by simp [Phrase.continueStmt]
  | .numericFor var start limit step body => by
      simp [Phrase.numericFor, stands_name var.2, standing_term start, standing_term limit,
        standing_stepText step, standing_body body]
  | .genericFor first more values body => by
      have others : Standing (ofSymbol .comma ::
          Render.separated ((more.map Subtype.val).map ([ofName ·]))) := by
        refine Standing.cons.mpr ⟨stands_symbol _, standing_singles fun word member => ?_⟩
        obtain ⟨name, _, rfl⟩ := List.mem_map.mp member
        exact stands_name name.2
      simp only [Command.phrase, Phrase.genericFor, Render.further, Standing.cons, Standing.append]
      exact ⟨stands_keyword _, stands_name first.2, others.optional, stands_keyword _,
        standing_texts (standing_terms values), stands_keyword _, standing_body body,
        stands_keyword _, Standing.nil⟩
termination_by structural c => c

theorem standing_branch : ∀ branch : Branch, Standing (branch.phrase id).text
  | .none => by simp [Phrase.noElse]
  | .otherwise body => by simp [Phrase.elseBlock, standing_body body]
  | .elseif _ condition body branch => by
      simp [Phrase.elseif, Phrase.conditionalText, standing_term condition, standing_body body,
        standing_branch branch]
termination_by structural branch => branch

theorem standing_body : ∀ body : Body, Standing body.text
  | .none => by simp [Body.text, Phrase.emptyBody]
  | .result values closed => by
      have values := standing_texts (standing_values values)
      cases closed <;>
        simp [Body.text, Phrase.result, Phrase.returnStmt, values]
  | .semicolon rest => by
      simpa [Body.text, Phrase.semicolon] using standing_body rest
  | .more command rest => by
      simp [Body.text, Phrase.follow, standing_command command, standing_body rest]
termination_by structural body => body
end

/-- The source is the text of the tree, with blanks and comments anywhere between its lexemes. -/
def Body.Spells (body : Body) (source : String) : Prop :=
  (tokenize source).map Token.lexeme = body.text ++ [endMarker]

theorem Body.exists_spells (body : Body) : ∃ source, body.Spells source := by
  have space : Lexer.isBlank ' ' := rfl
  refine ⟨String.ofList (spaced ' ' body.text), ?_⟩
  simpa [Body.Spells, tokenize] using tokensAt_spaced space (standing_body body) 0

/-- A formed tree is parsed as its syntax tree or refused as too deep. -/
theorem Body.parse {body : Body} (formed : body.formed) {source : String}
    (spells : body.Spells source) :
    ((body.phrase id).levels < maxNesting →
        ∃ read, LuaSearch.parse source = .ok read ∧ SameBlock read (body.phrase id).tree) ∧
      (maxNesting ≤ (body.phrase id).levels →
        ∃ span, LuaSearch.parse source = .error ⟨.tooDeep, span⟩) :=
  (body_reads body formed).asBlock.parse (standing_body body) spells

theorem chunkReader_found {input : List Lexeme} :
    Leaves input (fun _ _ => ∃ rest, BodyFound input rest ∧ kindOf rest = .eof)
      Parser.chunkReader := by
  apply ((finds_free maxNesting).block input).bind
  intro _ rest found
  apply expect_leaves_end.bind
  intro _ _ ended
  exact .pure ⟨rest, found, ended⟩

theorem cursor_before {source : String}
    (noError : (tokenize source).find? (·.kind = .error) = none) :
    (Parser.ofSource source).cursor.Before ((tokenize source).map Token.lexeme) where
  ahead := rfl
  final := by
    obtain ⟨front, tokens, _⟩ := (tokenize_tiles source).ends
    simp [Parser.ofSource, Parser.ofTokens, Cursor.start, tokens, Token.endMarker]
  proper := by
    intro l member inside
    obtain ⟨token, given, rfl⟩ := List.mem_map.mp member
    refine proper_of_token given ?_ inside
    simpa using List.find?_eq_none.mp noError token given

theorem eq_endMarker {front text rest : List Lexeme} (inside : ∀ l ∈ front, l.1 ≠ .eof)
    (standing : Standing text) (split : front ++ [endMarker] = text ++ rest)
    (ended : kindOf rest = .eof) : rest = [endMarker] := by
  cases rest with
  | nil =>
    have member : endMarker ∈ text := by
      rw [List.append_nil] at split
      rw [← split]
      exact List.mem_append_right _ List.mem_cons_self
    obtain ⟨_, _, _, nonempty, _⟩ := standing _ member
    cases nonempty
  | cons l rest =>
    rcases List.append_eq_append_iff.mp split with ⟨between, _, tail⟩ | ⟨between, rfl, tail⟩
    · cases between with
      | nil => exact tail.symm
      | cons _ _ => simp at tail
    · cases between with
      | nil => exact tail
      | cons b _ =>
        obtain ⟨rfl, _⟩ := List.cons.inj tail
        exact absurd ended (inside l (by simp))

/-- Every source that can be parsed is spelled by a formed tree. -/
theorem exists_spells_of_parse {source : String} {chunk : Block}
    (parsed : LuaSearch.parse source = .ok chunk) :
    ∃ body : Body, body.formed ∧ body.Spells source := by
  obtain ⟨noError, _, ran⟩ := chunkReader_of_parse parsed
  obtain ⟨_, _, rest, ⟨body, formed, text⟩, ended⟩ :=
    chunkReader_found.holds (cursor_before noError) ran
  obtain ⟨front, tokens, each⟩ := (tokenize_tiles source).ends
  have inside : ∀ l ∈ front.map Token.lexeme, l.1 ≠ .eof := by
    simpa [Token.lexeme] using fun token member => (each token member).1
  have split : front.map Token.lexeme ++ [endMarker] = body.text ++ rest := by
    rw [← text, tokens, List.map_append]
    rfl
  obtain rfl := eq_endMarker inside (standing_body body) split ended
  exact ⟨body, formed, text⟩

end Concrete

end LuaSearch
