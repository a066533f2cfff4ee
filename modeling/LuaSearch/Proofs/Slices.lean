import LuaSearch.Cli.Report
import LuaSearch.Proofs.Literal
import LuaSearch.Proofs.Match.Origin
import LuaSearch.Proofs.Parse.Placed.Statement

/-!
What is cut out of a source. Tokens, the gaps between them, the nodes of the tree and the faults of
a source that is refused have spans between edges of the source; what stands between the delimiters
of a literal is cut between edges of the literal; and a report shows spans of the tree. So a text
and a position can be taken wherever the program takes one.
-/
namespace LuaSearch

open Lexer

/-- Text and position of the span can be taken from the source. -/
structure Span.Readable (source : String) (s : Span) : Prop where
  fits : s.Fits source
  stop_le : s.stop ≤ source.utf8ByteSize
  text : ∃ text, s.text? source = some text
  position : s.position? source = some (s.position source)

theorem Span.Fits.readable {source : String} {s : Span} (fits : s.Fits source) :
    s.Readable source :=
  ⟨fits, fits.stop_le, fits.text?, fits.position?⟩

namespace Literal

/-- The text of a literal with its delimiters, by the kind of its token. -/
inductive Delimited : Kind → List Char → Prop where
  | quoted {mark : Char} (isMark : IsMark mark) (body : List Char) :
      Delimited .string (mark :: (body ++ [mark]))
  | long (level : Nat) (body : List Char) : Delimited .longString (long level body)

theorem quoted_closed {mark : Char} {cs text : List Char}
    (closed : Lexer.quoted mark cs = (text, true)) : ∃ body, text = body ++ [mark] := by
  fun_induction Lexer.quoted mark cs generalizing text with
  | case1 => cases closed
  | case2 => cases closed
  | case3 c cs inner done read ih =>
    cases closed
    obtain ⟨body, rfl⟩ := ih read
    exact ⟨'\\' :: c :: body, rfl⟩
  | case4 =>
    cases closed
    exact ⟨[], rfl⟩
  | case5 => cases closed
  | case6 c cs =>
    rename_i inner done read ih
    cases closed
    obtain ⟨body, rfl⟩ := ih read
    exact ⟨c :: body, rfl⟩

theorem piece_delimited {c : Char} {cs text : List Char} {kind : Kind}
    (read : piece c cs = ⟨some kind, text⟩) (literal : kind = .string ∨ kind = .longString) :
    Delimited kind text := by
  have cut := piece_cut c cs
  rw [read] at cut
  cases cut with
  | string mark closed =>
    obtain ⟨body, rfl⟩ := quoted_closed closed
    exact .quoted mark body
  | longString closed => exact .long _ _
  | _ => simp at literal

end Literal

def Token.inside (token : Token) : Span :=
  let width :=
    if token.kind = .longString then (token.text.toList.tail.takeWhile (· = '=')).length + 2 else 1
  ⟨width, token.text.utf8ByteSize - width⟩

def Token.contentValue (token : Token) (content : List Char) : List Char :=
  if token.kind = .longString then Literal.dropLineBreak content else Literal.unescape content

theorem byteLength_equals (level : Nat) : byteLength (List.replicate level '=') = level := by
  induction level with
  | zero => rfl
  | succ level ih =>
    have one : '='.utf8Size = 1 := rfl
    simp only [List.replicate_succ, byteLength, ih, one]
    omega

theorem byteLength_opener (level : Nat) : byteLength (opener level) = level + 2 := by
  have one : '['.utf8Size = 1 := rfl
  simp only [opener, List.cons_append, byteLength, byteLength_append, byteLength_equals, one]
  omega

theorem byteLength_closer (level : Nat) : byteLength (closer level) = level + 2 := by
  have one : ']'.utf8Size = 1 := rfl
  simp only [closer, List.cons_append, byteLength, byteLength_append, byteLength_equals, one]
  omega

theorem inside_shows {token : Token} (delimited : Literal.Delimited token.kind token.text.toList) :
    ∃ content, token.inside.Shows token.text content ∧
      token.stringValue = String.ofList (token.contentValue content) := by
  have size := byteLength_toList token.text
  rcases token with ⟨kind, span, text⟩
  simp only at delimited size
  generalize whole : text.toList = cs at delimited size
  cases delimited with
  | @quoted mark isMark body =>
    have one : byteLength [mark] = 1 := by rcases isMark with rfl | rfl <;> rfl
    rw [← List.singleton_append, byteLength_append, byteLength_append, one] at size
    refine ⟨body, ⟨[mark], [mark], whole, ?_, ?_⟩, ?_⟩
    · simp [Token.inside, one]
    · simp only [Token.inside, reduceCtorEq, if_false, one]
      omega
    · simp [Token.stringValue, Token.contentValue, whole, Literal.quotedValue]
  | long level body =>
    have value := Literal.longValue_long level body
    have width : ((Literal.long level body).tail.takeWhile (· = '=')).length = level := by
      simp [Literal.long, opener]
    have opens := byteLength_opener level
    have closes := byteLength_closer level
    rw [Literal.long, byteLength_append, byteLength_append, opens, closes] at size
    refine ⟨body, ⟨opener level, closer level, whole, ?_, ?_⟩, ?_⟩
    · simp only [Token.inside, if_true, whole, width, opens]
    · simp only [Token.inside, if_true, whole, width, opens]
      omega
    · simp [Token.stringValue, Token.contentValue, whole, value]

theorem rest_fits {token : Token} (delimited : Literal.Delimited token.kind token.text.toList) :
    (⟨1, token.text.utf8ByteSize⟩ : Span).Fits token.text := by
  obtain ⟨first, rest, whole, one⟩ :
      ∃ first rest, token.text.toList = first :: rest ∧ first.utf8Size = 1 := by
    generalize token.kind = kind, token.text.toList = cs at delimited
    cases delimited with
    | quoted isMark body => exact ⟨_, _, rfl, by rcases isMark with rfl | rfl <;> rfl⟩
    | long level body => exact ⟨'[', _, rfl, rfl⟩
  have size := byteLength_toList token.text
  have shows : (⟨1, token.text.utf8ByteSize⟩ : Span).Shows token.text rest := by
    refine ⟨[first], [], by simp [whole], by simp [byteLength, one], ?_⟩
    simp [← size, whole, byteLength]
  exact shows.fits

theorem delimited_of_token {source : String} {token : Token} (member : token ∈ tokenize source)
    (literal : token.kind = .string ∨ token.kind = .longString) :
    Literal.Delimited token.kind token.text.toList := by
  have notLast : token.kind ≠ .eof := by rcases literal with kind | kind <;> simp [kind]
  obtain ⟨_, c, cs, _, _, read⟩ := piece_of_token member notLast
  exact Literal.piece_delimited read literal

section

variable {source : String} {chunk : Block}

theorem fits_of_node (read : parse source = .ok chunk) {node : Node}
    (member : node ∈ Nodes.stmts chunk) : node.span.Fits source :=
  ((placed_of_parse read).placed node member).1.fits

theorem fits_of_stmt (read : parse source = .ok chunk) {s : Stmt} (member : s ∈ chunk) :
    s.span.Fits source :=
  fits_of_node read (Nodes.stmt_subset_stmts member (Nodes.self_mem_stmt s))

theorem fits_of_exprFrom (read : parse source = .ok chunk) {e : Expr}
    (origin : ExprFrom (Nodes.stmts chunk) e) : e.span.Fits source := by
  cases origin with
  | ident member | string member | number member | function member | declared member
  | unitStep member => exact fits_of_node read member

theorem fits_of_stmtFrom (read : parse source = .ok chunk) {s : Stmt}
    (origin : StmtFrom (Nodes.stmts chunk) s) : s.span.Fits source := by
  cases origin with
  | localFunction member | ifStmt member => exact fits_of_node read member

theorem anchor_mem {template : Template} {options : Options} {verdict : Verdict} {s : Stmt}
    (anchored : anchor? chunk template options verdict = some s) : s ∈ chunk := by
  cases verdict with
  | noMatch => cases anchored
  | found start stop => exact List.mem_of_getElem? anchored
  | nested scope => exact List.mem_of_find?_eq_some anchored

end

structure Cli.FileReport.Exact (source : String) (anchor? : Option Stmt) (captures : Captures)
    (report : FileReport) : Prop where
  exprs : report.exprs.map (fun r => (some r.text, some r.position)) =
    captures.exprs.map fun e => (e.span.text? source, e.span.position? source)
  stmts : report.stmts.map (fun r => (some r.text, some r.position)) =
    captures.stmts.map fun s => (s.span.text? source, s.span.position? source)
  anchor : report.position?.map some = anchor?.map fun s => s.span.position? source

theorem Cli.exact_of_readable {source : String} {anchor? : Option Stmt} {found : Found}
    (exprs : ∀ e ∈ found.captures.exprs, e.span.Readable source)
    (stmts : ∀ s ∈ found.captures.stmts, s.span.Readable source)
    (anchor : ∀ s ∈ anchor?, s.span.Readable source) (path : String) :
    (FileReport.of path source anchor? found).Exact source anchor? found.captures := by
  have shown {s : Span} (readable : s.Readable source) (kindName : String) :
      (some (CaptureReport.of source kindName s).text,
        some (CaptureReport.of source kindName s).position) =
      (s.text? source, s.position? source) := by
    obtain ⟨text, given⟩ := readable.text
    simp [CaptureReport.of, given, readable.position]
  constructor
  · simp only [FileReport.of, List.map_map]
    exact List.map_congr_left fun e member => shown (exprs e member) e.kindName
  · simp only [FileReport.of, List.map_map]
    exact List.map_congr_left fun s member => shown (stmts s member) s.kindName
  · cases anchor? with
    | none => rfl
    | some s => simp [FileReport.of, (anchor s rfl).position]

/-- Wherever a text or a position is taken, there is one. The tree of a source is placed in it, its
    statements in order; a source that is refused is refused at a place in it; so are the tokens
    and what is between them; the content of a literal is cut out of the literal; and what a
    search reports on the tree has the text and position that the report shows. -/
theorem spans_readable (source : String) :
    (∀ chunk, parse source = .ok chunk → InOrder chunk ∧
      ∀ node ∈ Nodes.stmts chunk, node.Placed source ∧ node.span.Readable source) ∧
    (∀ e, parse source = .error e → e.span.Readable source) ∧
    (∀ token ∈ tokenize source,
      token.span.Readable source ∧ token.span.text? source = some token.text) ∧
    (∀ gap ∈ gaps source, gap.Readable source) ∧
    (∀ token ∈ tokenize source, token.kind = .string ∨ token.kind = .longString →
      (⟨1, token.text.utf8ByteSize⟩ : Span).Readable token.text ∧
      token.inside.Readable token.text ∧
      ∃ content, token.inside.text? token.text = some content ∧
        token.stringValue = String.ofList (token.contentValue content.toList)) ∧
    ∀ chunk template options found, parse source = .ok chunk →
      find chunk template options = .ok found →
      (∀ e ∈ found.captures.exprs, e.span.Readable source) ∧
      (∀ s ∈ found.captures.stmts, s.span.Readable source) ∧
      (∀ s ∈ anchor? chunk template options found.verdict, s.span.Readable source) ∧
      ∀ path, (Cli.FileReport.of path source (anchor? chunk template options found.verdict)
        found).Exact source (anchor? chunk template options found.verdict) found.captures := by
  refine ⟨?_, ?_, ?_, ?_, ?_, ?_⟩
  · intro chunk read
    have stands := placed_of_parse read
    refine ⟨stands.ordered, fun node member => ?_⟩
    exact ⟨(stands.placed node member).1, (fits_of_node read member).readable⟩
  · intro e refused
    exact (fits_of_parse_error refused).readable
  · intro token member
    have shown := tokenize_shows member
    exact ⟨shown.fits.readable, by rw [shown.text?, String.ofList_toList]⟩
  · intro gap member
    have isGap := (tokenize_tiles source).isGap (List.nil_append _).symm rfl gap member
    obtain ⟨before, text, after, split, start, stop, _⟩ := isGap
    have shown : gap.Shows source text := ⟨before, after, split, start, stop⟩
    exact shown.fits.readable
  · intro token member literal
    have delimited := delimited_of_token member literal
    obtain ⟨content, shown, value⟩ := inside_shows delimited
    refine ⟨(rest_fits delimited).readable, shown.fits.readable, _, shown.text?, ?_⟩
    rw [value, String.toList_ofList]
  · intro chunk template options found read ok
    have origin := captures_from ok
    have exprs (e : Expr) (member : e ∈ found.captures.exprs) : e.span.Readable source :=
      (fits_of_exprFrom read (origin.exprs e member)).readable
    have stmts (s : Stmt) (member : s ∈ found.captures.stmts) : s.span.Readable source :=
      (fits_of_stmtFrom read (origin.stmts s member)).readable
    have anchor (s : Stmt) (anchored : s ∈ anchor? chunk template options found.verdict) :
        s.span.Readable source := (fits_of_stmt read (anchor_mem anchored)).readable
    exact ⟨exprs, stmts, anchor, Cli.exact_of_readable exprs stmts anchor⟩

/-- A compound assignment with a character of two bytes in parentheses, which a search captures, and
    a method with the receiver that it declares; and such a character where no token starts. -/
theorem spans_readable_receiver :
    let source := "s += (\"é\") function o:m() end"
    let receiver : Binder := ⟨⟨23, 24⟩, some "self"⟩
    let name : Expr := .ident ⟨0, 1⟩ "s"
    let literal : Expr := .string ⟨5, 11⟩ "é"
    let chunk : Block :=
      [.assign ⟨0, 11⟩ [name] [.binary ⟨0, 11⟩ (.arith .add) name literal],
        .function ⟨12, 30⟩ (.ident ⟨21, 22⟩ "o") (some "m") ⟨[receiver], false⟩ []]
    let template : Template := ⟨[.assign default [.ident default "x"]
      [.binary default (.arith .add) (.ident default "x") (.wildcard default .string)]], by simp⟩
    let token : Token := ⟨.string, ⟨6, 10⟩, "\"é\""⟩
    parse source = .ok chunk ∧ (Node.binder receiver).Placed source ∧
    token ∈ tokenize source ∧ token.inside.Readable token.text ∧
    find chunk template default = .ok ⟨.found 0 1, ⟨[literal], []⟩⟩ ∧
    literal.span.Readable source ∧
    parse "x = é" = .error ⟨.invalidToken, ⟨4, 6⟩⟩ ∧ (⟨4, 6⟩ : Span).Readable "x = é" := by
  intro source receiver name literal chunk template token
  have read : parse source = .ok chunk := by
    dsimp only [source, chunk, name, literal, receiver]
    rfl
  have taken : token ∈ tokenize source := by
    dsimp only [source, token]
    decide
  have ok : find chunk template default = .ok ⟨.found 0 1, ⟨[literal], []⟩⟩ := rfl
  have refused : parse "x = é" = .error ⟨.invalidToken, ⟨4, 6⟩⟩ := rfl
  obtain ⟨trees, _, _, _, literals, reports⟩ := spans_readable source
  have inside : .binder receiver ∈ Nodes.stmts chunk := by
    simp [chunk, Nodes.stmts, Nodes.stmt, Nodes.binders]
  have placed := ((trees chunk read).2 _ inside).1
  have cut := (literals token taken (.inl rfl)).2.1
  have captured := (reports chunk template default _ read ok).1 literal (by simp)
  exact ⟨read, placed, taken, cut, ok, captured, refused, (spans_readable "x = é").2.1 _ refused⟩

end LuaSearch
