import LuaSearch.Proofs.Match.Relabel
import LuaSearch.Proofs.Parse.Layout.Statement

/-!
Layout independence. Two sources with the same lexemes in the same order, whatever blanks, line
breaks and comments stand between them, are read to the same tree up to spans or refused for the
same fault. Searching either for either of two such templates gives the same verdict, or the same
error, and the same captures up to spans.
-/
namespace LuaSearch

open Parse

/-- The same lexemes in the same order. -/
def SameLexemes (source source' : String) : Prop :=
  (tokenize source).map Token.lexeme = (tokenize source').map Token.lexeme

instance (source source' : String) : Decidable (SameLexemes source source') :=
  inferInstanceAs (Decidable (_ = _))

namespace Relabeling

variable (r : Relabeling)

def syntaxError (e : SyntaxError) : SyntaxError := ⟨e.fault, r.span e.span⟩

def searchError : SearchError → SearchError
  | .template error => .template (r.syntaxError error)
  | .source error => .source (r.syntaxError error)
  | .refused error => .refused error

def parsed (result : Except SyntaxError Block) : Except SyntaxError Block :=
  (result.map r.stmts).mapError r.syntaxError

def searched (result : Except SearchError Found) : Except SearchError Found :=
  (result.map r.found).mapError r.searchError

end Relabeling

open Relabeling

theorem start_alike {tokens tokens' : List Token} (length length' : Nat)
    (same : tokens.map Token.lexeme = tokens'.map Token.lexeme) :
    (Cursor.start length tokens).Alike (Cursor.start length' tokens') where
  rest := same
  final := by
    have lasts : tokens.getLast?.map Token.lexeme = tokens'.getLast?.map Token.lexeme := by
      rw [← List.getLast?_map, ← List.getLast?_map, same]
    simp only [Cursor.start]
    cases last : tokens.getLast? <;> cases last' : tokens'.getLast? <;> simp_all
    rfl

theorem chunkReader_agree : Agree SameBlock Parser.chunkReader Parser.chunkReader := by
  apply (Grammar.Level.agrees_free maxNesting).block.bind
  intro body body' same
  apply (expect_agree .eof).bind
  intro _ _ _
  exact .pure same

theorem find_error_isSome {tokens tokens' : List Token}
    (same : tokens.map Token.lexeme = tokens'.map Token.lexeme) :
    (tokens.find? (·.kind = .error)).isSome = (tokens'.find? (·.kind = .error)).isSome := by
  have seen (tokens : List Token) : (tokens.find? (·.kind = .error)).isSome =
      ((tokens.map Token.lexeme).find? (·.1 = .error)).isSome := by
    rw [List.find?_map, Option.isSome_map]
    rfl
  rw [seen, seen, same]

theorem chunk_of_lexemes {tokens tokens' : List Token} (length length' : Nat)
    (same : tokens.map Token.lexeme = tokens'.map Token.lexeme) :
    eraseSpans.parsed (Parser.ofTokens length tokens).chunk.1 =
      eraseSpans.parsed (Parser.ofTokens length' tokens').chunk.1 := by
  have errors := find_error_isSome same
  have ended := chunkReader_agree _ _ (start_alike length length' same)
  cases bad : tokens.find? (·.kind = .error) with
  | some token =>
    cases bad' : tokens'.find? (·.kind = .error) with
    | some token' => simp only [Parser.chunk, Parser.ofTokens, bad, bad']; rfl
    | none => simp [bad, bad'] at errors
  | none =>
    cases bad' : tokens'.find? (·.kind = .error) with
    | some token' => simp [bad, bad'] at errors
    | none =>
      rw [Parser.chunk_eq_run rfl bad, Parser.chunk_eq_run rfl bad']
      simp only [Parser.run, Parser.ofTokens]
      generalize Machine.runOn _ (Cursor.start length tokens) = x at ended ⊢
      generalize Machine.runOn _ (Cursor.start length' tokens') = y at ended ⊢
      cases ended with
      | ok related _ => exact congrArg Except.ok related
      | @error e e' _ _ fault _ =>
        have erased : eraseSpans.syntaxError e = eraseSpans.syntaxError e' := by
          simp only [syntaxError, fault]
          rfl
        exact congrArg Except.error erased

theorem parse_of_lexemes {source source' : String} (same : SameLexemes source source') :
    eraseSpans.parsed (parse source) = eraseSpans.parsed (parse source') :=
  chunk_of_lexemes source.utf8ByteSize source'.utf8ByteSize same

def searchRead (source template : Except SyntaxError Block) (options : Options) :
    Except SearchError Found := do
  let pattern ← template.mapError .template
  let pattern ← (Template.ofChunk pattern).mapError .refused
  let chunk ← source.mapError .source
  (find chunk pattern options).mapError .refused

theorem search_eq_searchRead (source template : String) (options : Options) :
    search source template options = searchRead (parse source) (parse template) options := rfl

theorem searchRead_ok (source : Except SyntaxError Block) (pattern : Block)
    (options : Options) :
    searchRead source (.ok pattern) options = (do
      let t ← (Template.ofChunk pattern).mapError .refused
      let chunk ← source.mapError .source
      (find chunk t options).mapError .refused) := rfl

theorem searchRead_relabel (r : Relabeling) (keeps : r.KeepsNames)
    (source template : Except SyntaxError Block) (options : Options) :
    searchRead (r.parsed source) (r.parsed template) options =
      r.searched (searchRead source template options) := by
  cases template with
  | error e => rfl
  | ok pattern =>
    have read : r.parsed (.ok pattern) = .ok (r.stmts pattern) := rfl
    rw [read, searchRead_ok, searchRead_ok, template_ofChunk r keeps]
    cases Template.ofChunk pattern with
    | error e => rfl
    | ok t =>
      cases source with
      | error e => rfl
      | ok chunk =>
        change (find (r.stmts chunk) (r.template t) options).mapError _ =
          r.searched ((find chunk t options).mapError _)
        rw [find_relabel]
        cases find chunk t options <;> rfl

/-- Layout is seen neither by the parser nor by the search: sources, and templates, with the same
    lexemes give the same tree or the same fault, and the same verdict and captures or the same
    error, once spans are erased. -/
theorem layout_independent {source source' : String} (same : SameLexemes source source') :
    eraseSpans.parsed (parse source) = eraseSpans.parsed (parse source') ∧
      ∀ {template template' : String}, SameLexemes template template' → ∀ options : Options,
        eraseSpans.searched (search source template options) =
          eraseSpans.searched (search source' template' options) := by
  refine ⟨parse_of_lexemes same, ?_⟩
  intro template template' sameTemplate options
  have blind := searchRead_relabel eraseSpans eraseSpans_keepsNames
  rw [search_eq_searchRead, search_eq_searchRead, ← blind, ← blind, parse_of_lexemes same,
    parse_of_lexemes sameTemplate]

/-- A conditional and a template for its body, each written in one line and over several lines
    with a comment. -/
theorem layout_independent_comment :
    SameLexemes "if x then f(1)end" "if x then -- yes\n  f (1)\nend\n" ∧
      SameLexemes "_IdentExpr_(1)" "_IdentExpr_\n( 1 )" ∧
        eraseSpans.parsed (parse "if x then f(1)end") =
          eraseSpans.parsed (parse "if x then -- yes\n  f (1)\nend\n") ∧
        eraseSpans.searched (search "if x then f(1)end" "_IdentExpr_(1)" default) =
          eraseSpans.searched
            (search "if x then -- yes\n  f (1)\nend\n" "_IdentExpr_\n( 1 )" default) := by
  have sources : SameLexemes "if x then f(1)end" "if x then -- yes\n  f (1)\nend\n" := by
    decide +kernel
  have templates : SameLexemes "_IdentExpr_(1)" "_IdentExpr_\n( 1 )" := by
    decide +kernel
  have both := layout_independent sources
  exact ⟨sources, templates, both.1, both.2 templates default⟩

end LuaSearch
