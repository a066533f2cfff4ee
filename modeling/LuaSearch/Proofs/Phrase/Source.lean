import LuaSearch.Proofs.Phrase.Block
import LuaSearch.Proofs.Syntax.Standing

/-!
Sources that are cut into the text of a phrase. What such a source is parsed as is decided by the
levels of the phrase.
-/
namespace LuaSearch

open Lexeme Parse Relabeling

theorem Standing.find?_error {ls : List Lexeme} (standing : Standing ls) {tokens : List Token}
    (cut : tokens.map Token.lexeme = ls ++ [endMarker]) :
    tokens.find? (·.kind = .error) = none := by
  rw [List.find?_eq_none]
  intro token member
  have lexeme : token.lexeme ∈ ls ++ [endMarker] := by
    rw [← cut]
    exact List.mem_map_of_mem member
  have noError : token.lexeme.1 ≠ .error := by
    rcases List.mem_append.mp lexeme with inside | last
    · exact (standing _ inside).1
    · rw [List.mem_singleton.mp last]
      nofun
  simpa [Token.lexeme] using noError

namespace Phrase

variable {p : Phrase Block}

theorem AsBlock.chunkReader (reads : AsBlock p) :
    Reads (p.levels < maxNesting) (SameBlock · p.tree) Parser.chunkReader
      (p.text ++ [endMarker]) [] := by
  apply (reads maxNesting (.cons rfl)).bind id
  intro fit read same
  apply (expect_takes (l := endMarker) rfl).next
  intro _ _
  exact .pure fit same

/-- The source is parsed as the tree of the phrase, up to spans, exactly when the levels of the
    phrase are within the limit; beyond it the source is refused as too deep. -/
theorem AsBlock.parse (reads : AsBlock p) (standing : Standing p.text) {source : String}
    (cut : (tokenize source).map Token.lexeme = p.text ++ [endMarker]) :
    (p.levels < maxNesting → ∃ read, LuaSearch.parse source = .ok read ∧ SameBlock read p.tree) ∧
      (maxNesting ≤ p.levels → ∃ span, LuaSearch.parse source = .error ⟨.tooDeep, span⟩) := by
  have ended := reads.chunkReader (Parser.ofSource source).cursor cut
  rw [parse_eq_chunkReader (standing.find?_error cut)]
  generalize Machine.runOn _ _ = final at ended ⊢
  cases ended with
  | value fit same _ =>
    exact ⟨fun _ => ⟨_, rfl, same⟩, fun deep => absurd fit (Nat.not_lt.mpr deep)⟩
  | tooDeep unfit => exact ⟨fun fit => absurd fit unfit, fun _ => ⟨_, rfl⟩⟩

end Phrase

end LuaSearch
