import LuaSearch.Proofs.Concrete.Source
import LuaSearch.Proofs.Concrete.WrittenOut

/-!
Shorthands are not seen in the syntax tree. Whatever can be parsed is spelled by a concrete tree,
and what is spelled by the tree with any choice of its shorthands written out is parsed alike.
-/
namespace LuaSearch

open Relabeling Concrete

/-- A source that is parsed is spelled by a formed concrete tree. With the marked shorthands of any
    such tree written out, its sources are parsed as the same chunk up to spans, or are refused as
    too deep where the levels of the tree exceed the limit. Compound assignments whose value is a
    call may be among them; then the calls are adjusted, and that is all. -/
theorem parse_writtenOut {source : String} {chunk : Block} (parsed : parse source = .ok chunk) :
    (∃ body : Body, body.formed ∧ body.Spells source) ∧
      ∀ body : Body, body.formed → body.Spells source →
        SameBlock chunk (body.phrase id).tree ∧
          ∀ calls : Bool, (∃ longer, (body.writtenOut calls).Spells longer) ∧
            ∀ longer, (body.writtenOut calls).Spells longer →
              (((body.writtenOut calls).phrase id).levels < maxNesting →
                ∃ read, parse longer = .ok read ∧
                  SameBlock read (body.phrase (adjusted calls)).tree ∧
                  (calls = false → SameBlock read chunk)) ∧
              (maxNesting ≤ ((body.writtenOut calls).phrase id).levels →
                ∃ span, parse longer = .error ⟨.tooDeep, span⟩) := by
  refine ⟨exists_spells_of_parse parsed, ?_⟩
  intro body formed spells
  have same : SameBlock chunk (body.phrase id).tree := by
    rcases Nat.lt_or_ge (body.phrase id).levels maxNesting with within | deep
    · obtain ⟨read, again, same⟩ := (Body.parse formed spells).1 within
      rw [parsed] at again
      cases again
      exact same
    · obtain ⟨span, refused⟩ := (Body.parse formed spells).2 deep
      rw [parsed] at refused
      cases refused
  refine ⟨same, fun calls => ⟨Body.exists_spells _, fun longer spelled => ?_⟩⟩
  obtain ⟨reads, refuses⟩ := Body.parse (formed_body body formed) spelled
  refine ⟨fun within => ?_, refuses⟩
  obtain ⟨read, readLonger, like⟩ := reads within
  rw [tree_body] at like
  refine ⟨read, readLonger, like, ?_⟩
  rintro rfl
  exact like.trans same.symm

def shortConditional : Body :=
  let word (text : String) (named : Lexeme.isName text) : Term := .head (.name ⟨text, named⟩)
  let one : Numeral := ⟨"1", by decide⟩
  let x : StringLiteral := ⟨false, "'x'", by simp, '\'', ['x', '\''], rfl, rfl⟩
  .more (.ifThen (word "a" (by decide))
      (.more (.compound true .add (.access true (.name ⟨"p", by decide⟩) ⟨"q", by decide⟩)
          (.number one))
        (.more (.call (.call (.group (word "f" (by decide))) (.list .none))) .none))
      (.elseif true (word "b" (by decide))
        (.more (.call (.call (.name ⟨"f", by decide⟩)
          (.table true (.last (.named true ⟨"k", by decide⟩ (word "v" (by decide))))))) .none)
        (.otherwise (.more (.call (.methodCall (.name ⟨"s", by decide⟩) ⟨"m", by decide⟩
          (.string true x))) .none))))
    .none

def shortCall : Body :=
  .more (.compound true .concat (.name ⟨"x", by decide⟩)
    (.head (.call (.name ⟨"f", by decide⟩) (.list .none)))) .none

theorem parse_writtenOut_conditional :
    (∃ chunk read,
      parse "if a then p.q += 1 (f)() elseif b then f\x7bk = v\x7d else s:m'x' end" = .ok chunk ∧
      parse ("if a then p[\"q\"] = p[\"q\"] + (1); (f)() else if b then " ++
        "f(\x7b[\"k\"] = v\x7d) else s:m('x') end end") = .ok read ∧
      SameBlock read chunk) ∧
    ∃ chunk read, parse "x ..= f()" = .ok chunk ∧ parse "x = x .. (f());" = .ok read ∧
      SameBlock chunk [.assign default [.ident default "x"] [.binary default .concat
        (.ident default "x") (.call default (.ident default "f") [] false)]] ∧
      SameBlock read [.assign default [.ident default "x"] [.binary default .concat
        (.ident default "x") (.call default (.ident default "f") [] true)]] := by
  constructor
  · have formed : shortConditional.formed := by decide
    have spells : shortConditional.Spells
        "if a then p.q += 1 (f)() elseif b then f\x7bk = v\x7d else s:m'x' end" := by
      unfold Body.Spells
      decide +kernel
    have longer : (shortConditional.writtenOut false).Spells
        ("if a then p[\"q\"] = p[\"q\"] + (1); (f)() else if b then " ++
          "f(\x7b[\"k\"] = v\x7d) else s:m('x') end end") := by
      unfold Body.Spells
      decide +kernel
    obtain ⟨chunk, parsed, _⟩ := (Body.parse formed spells).1 (by decide)
    have all := (parse_writtenOut parsed).2 _ formed spells
    obtain ⟨read, again, _, same⟩ := ((all.2 false).2 _ longer).1 (by decide)
    exact ⟨chunk, read, parsed, again, same rfl⟩
  · have formed : shortCall.formed := by decide
    have spells : shortCall.Spells "x ..= f()" := by
      unfold Body.Spells
      decide +kernel
    have longer : (shortCall.writtenOut true).Spells "x = x .. (f());" := by
      unfold Body.Spells
      decide +kernel
    obtain ⟨chunk, parsed, _⟩ := (Body.parse formed spells).1 (by decide)
    have all := (parse_writtenOut parsed).2 _ formed spells
    obtain ⟨read, again, adjusts, _⟩ := ((all.2 true).2 _ longer).1 (by decide)
    exact ⟨chunk, read, parsed, again, all.1, adjusts⟩

end LuaSearch
