import LuaSearch.Proofs.Layout
import LuaSearch.Proofs.Token.Proper

/-!
Tokens can be spaced anew. The tokens of a source without errors stand by themselves: each is cut as
itself from its own text, and a blank ends it. So the source written again as the texts of its
tokens, with one blank between each two, is cut into the same lexemes, and neither the parser nor
the search sees a difference.
-/
namespace LuaSearch

open Lexer Lexeme Relabeling

def joined (blank : Char) (tokens : List Token) : String :=
  (String.singleton blank).intercalate (tokens.map Token.text)

/-- The source with its tokens spaced anew, once without and once with the empty text of the end
    marker as the last of the texts. -/
def respacings (blank : Char) (source : String) : List String :=
  [joined blank (tokenize source).dropLast, joined blank (tokenize source)]

theorem tokenize_stands {source : String} (clean : ∀ token ∈ tokenize source, token.kind ≠ .error) :
    ∃ front last, tokenize source = front ++ [Token.endMarker last] ∧
      ∀ token ∈ front, Stands token.lexeme := by
  obtain ⟨front, split, inside⟩ := (tokenize_tiles source).ends
  refine ⟨front, _, split, ?_⟩
  intro token member
  have among : token ∈ tokenize source := by
    rw [split]
    exact List.mem_append_left _ member
  exact (proper_of_token among (clean token among) (inside token member).1).stands

def Lexeme.between (blank : Char) (ls : List Lexeme) : List Char :=
  [blank].intercalate (ls.map (·.2.toList))

theorem toList_joined (blank : Char) (tokens : List Token) :
    (joined blank tokens).toList = between blank (tokens.map Token.lexeme) := by
  simp only [joined, between, String.toList_intercalate, String.toList_singleton, List.map_map]
  rfl

namespace Lexeme

theorem between_cons_cons (blank : Char) (l next : Lexeme) (ls : List Lexeme) :
    between blank (l :: next :: ls) = l.2.toList ++ blank :: between blank (next :: ls) := by
  simp [between, List.intercalate_cons_cons]

theorem takeWhile_isBlank_between {ls : List Lexeme} (stand : ∀ l ∈ ls, l.Stands) (blank : Char) :
    (between blank ls).takeWhile isBlank = [] := by
  match ls with
  | [] => rfl
  | [l] =>
    rw [between, List.map_singleton, List.intercalate_singleton, ← List.append_nil l.2.toList]
    exact takeWhile_isBlank_stands (stand l List.mem_cons_self) []
  | l :: next :: ls =>
    rw [between_cons_cons]
    exact takeWhile_isBlank_stands (stand l List.mem_cons_self) _

/-- A blank between each two is enough: the last lexeme is ended by the end of the text. -/
theorem tokensAt_between {blank : Char} (isBlank : isBlank blank) {ls : List Lexeme}
    (stand : ∀ l ∈ ls, l.Stands) (offset : Nat) :
    (tokensAt offset (between blank ls)).map Token.lexeme = ls ++ [endMarker] := by
  induction ls generalizing offset with
  | nil => rfl
  | cons l ls ih =>
    obtain ⟨stands, others⟩ := List.forall_mem_cons.mp stand
    cases ls with
    | nil =>
      rw [between, List.map_singleton, List.intercalate_singleton, tokensAt_stands stands]
      rfl
    | cons next ls =>
      rw [between_cons_cons, tokensAt_stands_blank stands isBlank
        (takeWhile_isBlank_between others blank), List.map_cons, ih others]
      rfl

theorem between_endMarker (blank : Char) (ls : List Lexeme) :
    between blank (ls ++ [endMarker]) = spaced blank ls := by
  induction ls with
  | nil => rfl
  | cons l ls ih =>
    obtain ⟨next, more, behind⟩ : ∃ next more, ls ++ [endMarker] = next :: more :=
      List.exists_cons_of_ne_nil (by simp)
    rw [List.cons_append, behind, between_cons_cons, ← behind, ih, spaced_cons]

end Lexeme

theorem sameLexemes_of_respacing {source again : String} {blank : Char}
    (clean : ∀ token ∈ tokenize source, token.kind ≠ .error) (isBlank : isBlank blank)
    (respaced : again ∈ respacings blank source) : SameLexemes source again := by
  obtain ⟨front, last, split, stand⟩ := tokenize_stands clean
  have before : (tokenize source).map Token.lexeme = front.map Token.lexeme ++ [endMarker] := by
    rw [split, List.map_append]
    rfl
  rw [SameLexemes, before, tokenize]
  rcases List.mem_pair.mp respaced with rfl | rfl
  · rw [toList_joined, split, List.dropLast_concat, tokensAt_between isBlank (by simpa using stand)]
  · rw [toList_joined, before, between_endMarker, tokensAt_spaced isBlank (by simpa using stand)]

theorem search_of_lexemes {source source' template template' : String}
    (same : SameLexemes source source') (sameTemplate : SameLexemes template template')
    (options : Options) :
    eraseSpans.searched (search source template options) =
      eraseSpans.searched (search source' template' options) := by
  have blind := searchRead_relabel eraseSpans eraseSpans_keepsNames
  rw [search_eq_searchRead, search_eq_searchRead, ← blind, ← blind, parse_of_lexemes same,
    parse_of_lexemes sameTemplate]

/-- A source without error tokens, written again with one and the same blank between its tokens, has
    the same lexemes. It is read to the same tree or refused for the same fault, and a search in it
    finds the same, once spans are erased; the template may be spaced anew as well. -/
theorem respacing_keeps_tokens {source : String}
    (clean : ∀ token ∈ tokenize source, token.kind ≠ .error) {blank : Char}
    (isBlank : isBlank blank) :
    ∀ again ∈ respacings blank source,
      SameLexemes source again ∧
      eraseSpans.parsed (parse source) = eraseSpans.parsed (parse again) ∧
      ∀ {template template' : String}, SameLexemes template template' → ∀ options : Options,
        eraseSpans.searched (search source template options) =
          eraseSpans.searched (search again template' options) := by
  intro again respaced
  have same := sameLexemes_of_respacing clean isBlank respaced
  exact ⟨same, parse_of_lexemes same, fun sameTemplate options =>
    search_of_lexemes same sameTemplate options⟩

/-- Two dashes that would start a comment, a number before two points, a long bracket before a
    comment, and a string with a line break in it. -/
theorem respacing_keeps_tokens_dashes :
    let source := "x= - -1 ..[=[]]]=]--[[-]]\nf(a[#b],'\\\n')"
    let again := "x\n=\n-\n-\n1\n..\n[=[]]]=]\nf\n(\na\n[\n#\nb\n]\n,\n'\\\n'\n)"
    (∀ token ∈ tokenize source, token.kind ≠ .error) ∧
    respacings '\n' source = [again, again ++ "\n"] ∧ SameLexemes source again ∧
    eraseSpans.parsed (parse source) = eraseSpans.parsed (parse again) ∧
    SameLexemes "_IdentExpr_(1)" "_IdentExpr_ ( 1 )" ∧
    eraseSpans.searched (search source "_IdentExpr_(1)" default) =
      eraseSpans.searched (search again "_IdentExpr_ ( 1 )" default) := by
  intro source again
  have clean : ∀ token ∈ tokenize source, token.kind ≠ .error := by decide +kernel
  have spaced : respacings '\n' source = [again, again ++ "\n"] := by decide +kernel
  have templates : SameLexemes "_IdentExpr_(1)" "_IdentExpr_ ( 1 )" := by decide +kernel
  obtain ⟨same, parsed, searched⟩ := @respacing_keeps_tokens source clean '\n' rfl again
    (by rw [spaced]; exact List.mem_cons_self)
  exact ⟨clean, spaced, same, parsed, templates, searched templates default⟩

end LuaSearch
