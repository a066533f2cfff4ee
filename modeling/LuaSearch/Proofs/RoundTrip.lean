import LuaSearch.Proofs.Concrete.Printed
import LuaSearch.Proofs.Phrase.Source

/-!
The parser inverts the printer. The text of a well-formed tree is read back to the same tree up to
spans if its levels of nesting are within the limit, and refused for its depth if they are not.
-/
namespace LuaSearch

open Lexeme Parse Relabeling

theorem lexemes_render {chunk : Block} (wellFormed : WellFormed.block chunk) :
    (tokenize (render chunk)).map Token.lexeme = Render.block chunk ++ [endMarker] := by
  have space : Lexer.isBlank ' ' := rfl
  simpa [tokenize, render] using tokensAt_spaced space (standing_block chunk wellFormed) 0

/-- The text of a well-formed tree is read back to that tree, up to spans, exactly when its levels
    of nesting are within the limit; beyond it the text is refused as too deep. -/
theorem parse_render (chunk : Block) (wellFormed : WellFormed.block chunk) :
    (Levels.block chunk < maxNesting →
        ∃ read, parse (render chunk) = .ok read ∧ SameBlock read chunk) ∧
      (maxNesting ≤ Levels.block chunk →
        ∃ span, parse (render chunk) = .error ⟨.tooDeep, span⟩) := by
  obtain ⟨body, formed, writes⟩ := Concrete.printed_block chunk wellFormed
  have standing := standing_block chunk wellFormed
  have cut := lexemes_render wellFormed
  rw [← writes.text] at standing cut
  obtain ⟨within, beyond⟩ := (Concrete.body_reads body formed).asBlock.parse standing cut
  rw [writes.levels] at within beyond
  refine ⟨fun fit => ?_, beyond⟩
  obtain ⟨read, parsed, same⟩ := within fit
  exact ⟨read, parsed, same.trans writes.tree⟩

def renderedMethod : Block :=
  [.localVars default [⟨default, some "s"⟩] [.string default "a\"b\n"],
    .function default (.index default (.ident default "a") (.string default "b")) (some "m")
      ⟨[⟨default, some "self"⟩, ⟨default, some "x"⟩], true⟩
      [.numericFor default "i" (.number default "1") (.ident default "x") none
          [.call default (.methodCall default (.string default "k") "rep" [] false),
            .breakStmt default],
        .assign default [.index default (.ident default "t") (.constant default .nil)]
          [.table default [.keyed (.number default "2") (.constant default .vararg),
            .positional (.ident default "x")]],
        .returnStmt default [.binary default (.arith .add)
          (.call default (.ident default "f") [.ident default "x"] true)
          (.unary default .neg
            (.binary default (.arith .pow) (.number default "0x1p4") (.ident default "x")))]]]

def negations (height : Nat) : Block :=
  [.returnStmt default [Nat.repeat (.unary default .not) height (.constant default .nil)]]

theorem parse_render_method :
    (WellFormed.block renderedMethod ∧ Levels.block renderedMethod < maxNesting ∧
      render renderedMethod = "local s = \"a\\\"b\\n\" ; function a . b : m ( x , ... ) " ++
        "for i = 1 , x do ( \"k\" ) : rep ( ) ; break ; end ; " ++
        "t [ nil ] = \x7b [ 2 ] = ... , x \x7d ; " ++
        "return ( f ( x ) ) + ( - ( 0x1p4 ^ x ) ) ; end ; " ∧
      ∃ read, parse (render renderedMethod) = .ok read ∧ SameBlock read renderedMethod) ∧
    WellFormed.block (negations 100) ∧ maxNesting ≤ Levels.block (negations 100) ∧
      ∃ span, parse (render (negations 100)) = .error ⟨.tooDeep, span⟩ := by
  have formed : WellFormed.block renderedMethod := by decide
  have within : Levels.block renderedMethod < maxNesting := by decide
  have tower : WellFormed.block (negations 100) := by decide +kernel
  have deep : maxNesting ≤ Levels.block (negations 100) := by decide +kernel
  exact ⟨⟨formed, within, by decide +kernel, (parse_render _ formed).1 within⟩,
    tower, deep, (parse_render _ tower).2 deep⟩

end LuaSearch
