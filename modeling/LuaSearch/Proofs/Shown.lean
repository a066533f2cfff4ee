import LuaSearch.Proofs.Match.Limit
import LuaSearch.Proofs.Match.Reflexive
import LuaSearch.Proofs.Parse.Formed.Statement
import LuaSearch.Proofs.Slices

/-!
What captures show. The text at the place of a captured name or number holds it: the expression is
written there, with or without parentheses, or the name is declared there. The receiver that a
method has by itself, which is written nowhere, is not captured: the method of a template has such
a receiver too, and that is no wildcard. Only the step that a numeric loop leaves out is shown by
something else, which is the loop.
-/
namespace LuaSearch

def Expr.spelling? : Expr → Option String
  | ident _ text | number _ text => some text
  | _ => none

def Expr.IsLeftOut (nodes : List Node) (e : Expr) : Prop :=
  e = Compare.unitStep e.span ∧
    ∃ var start limit body, .stmt (.numericFor e.span var start limit none body) ∈ nodes

/-- The text at the place of a name or number holds it, unless it is a step left out. -/
def Expr.Shown (source : String) (nodes : List Node) (e : Expr) : Prop :=
  ∀ x ∈ e.spelling?, ∃ shown, e.span.text? source = some shown ∧
    (x.toList <:+: shown.toList ∨ e.IsLeftOut nodes)

def Captures.Shown (source : String) (nodes : List Node) (captures : Captures) : Prop :=
  ∀ e ∈ captures.exprs, e.Shown source nodes

section

variable {source : String} {nodes : List Node}

theorem Expr.shown_of_spells {e : Expr} (fits : e.span.Fits source)
    (spells : (Node.expr e).Spells source) : e.Shown source nodes := by
  intro x spelled
  obtain ⟨text, shows⟩ := fits.shows
  refine ⟨String.ofList text, shows.text?, .inl ?_⟩
  rw [String.toList_ofList]
  cases e with
  | ident | number =>
    obtain rfl := Option.some.inj spelled
    obtain ⟨inner, inside, given⟩ := spells
    exact (Span.shows_of_text? given).isInfix shows inside
  | _ => cases spelled

theorem Binder.Written.shown {b : Binder} (written : b.Written (tokenize source)) :
    ∀ name ∈ b.name?, (Expr.ident b.span name).Shown source nodes := by
  obtain ⟨token, member, _, rfl⟩ := written
  rintro _ ⟨⟩ _ ⟨⟩
  have shows := tokenize_shows member
  exact ⟨token.text, by rw [Expr.span, shows.text?, String.ofList_toList], .inl List.infix_rfl⟩

theorem Expr.shown_unitStep {span : Span} {var : String} {start limit : Expr} {body : Block}
    (member : .stmt (.numericFor span var start limit none body) ∈ nodes)
    (fits : span.Fits source) : (Compare.unitStep span).Shown source nodes := by
  intro _ _
  obtain ⟨shown, given⟩ := fits.text?
  exact ⟨shown, given, .inr ⟨rfl, _, _, _, _, member⟩⟩

end

/-- The receiver of a method is no wildcard. -/
def Node.NamesReceiver (node : Node) : Prop :=
  node.isMethod = true → ∃ name, node.declares.head?.bind Binder.name? = some name

theorem Lower.receiver_binder {bs : List Binder}
    (receives : bs.head?.bind Binder.name? = some "self") :
    (bs.map Lower.binder).head?.bind Binder.name? = some "self" := by
  cases bs with
  | nil => cases receives
  | cons b bs =>
    have named : b.name? = some "self" := receives
    have plain : b.name? ≠ some Marker.ident := by simp [named, Marker.ident]
    simpa [Lower.binder, plain] using named

theorem Node.Formed.namesReceiver_lower {tokens : List Token} {node : Node}
    (formed : node.Formed tokens) : node.lower.NamesReceiver := by
  intro isMethod
  cases node with
  | expr e => cases isMethod
  | binder b => cases isMethod
  | stmt s =>
    cases s with
    | function span target method? ps body =>
      obtain ⟨method, rfl⟩ := Option.isSome_iff_exists.mp isMethod
      obtain ⟨_, methods, _⟩ := formed
      obtain ⟨_, receives⟩ := methods method rfl
      exact ⟨_, Lower.receiver_binder receives⟩
    | call | localFunction =>
      simp only [lower, Lower.stmt] at isMethod
      split at isMethod <;> cases isMethod
    | _ => cases isMethod

theorem namesReceiver_of_parse {text : String} {pattern : Block} {template : Template}
    (read : parse text = .ok pattern) (lowered : Template.ofChunk pattern = .ok template) :
    ∀ node ∈ Nodes.stmts template.stmts, node.NamesReceiver := by
  obtain ⟨_, formed⟩ := formed_of_parse read
  have nonempty : pattern ≠ [] := by
    rintro rfl
    cases lowered
  obtain ⟨_, stmts⟩ := ofChunk_eq nonempty
  obtain rfl := Except.ok.inj (stmts.symm.trans lowered)
  intro node member
  obtain ⟨before, inside, rfl⟩ := Block.exists_of_mem_lower member
  exact (formed before inside).namesReceiver_lower

theorem Compare.declared_tail {bs ts : List Binder} {name : String}
    (named : ts.head?.bind Binder.name? = some name) :
    declared bs ts = declared bs.tail ts.tail := by
  cases ts with
  | nil => cases named
  | cons t ts =>
    have given : t.name? = some name := named
    cases bs with
    | nil => cases ts <;> rfl
    | cons b bs => cases other : b.name? <;> simp [declared, given, other]

namespace Captures.Shown

variable {source : String} {nodes : List Node} {a b : Captures}

theorem empty : Shown source nodes ∅ := by simp [Shown]

theorem append (first : Shown source nodes a) (second : Shown source nodes b) :
    Shown source nodes (a ++ b) := List.forall_mem_append.mpr ⟨first, second⟩

theorem ofExpr {e : Expr} (shown : e.Shown source nodes) : Shown source nodes (.ofExpr e) :=
  List.forall_mem_singleton.mpr shown

theorem declared {bs : List Binder} (written : ∀ b ∈ bs, b.Written (tokenize source))
    (ts : List Binder) : Shown source nodes (Compare.declared bs ts) := by
  apply Compare.declared_of_each empty append
  intro b member name named
  exact ofExpr ((written b member).shown name named)

/-- What is recorded in a source shows itself, if the template names its receivers. -/
theorem recording {chunk : Block} (read : parse source = .ok chunk) :
    Recording (· ∈ Nodes.stmts chunk) Node.NamesReceiver (Shown source (Nodes.stmts chunk)) where
  empty := empty
  append := append
  expr _ member := by
    have here := ((placed_of_parse read).placed _ member).1
    exact ofExpr (Expr.shown_of_spells here.fits here.spells)
  stmt _ _ := empty
  declared node other member _ receiver alike := by
    have written := ((formed_of_parse read).2 node member).written
    cases isMethod : node.isMethod with
    | false =>
      rw [isMethod] at written
      exact declared written other.declares
    | true =>
      rw [isMethod] at written
      obtain ⟨_, named⟩ := receiver (alike ▸ isMethod)
      rw [Compare.declared_tail named]
      exact declared written other.declares.tail
  unitStep member := ofExpr (Expr.shown_unitStep member (fits_of_node read member))
  impliedStep _ := nofun

end Captures.Shown

/-- Captured names and numbers are shown with their own text. For each of them the source has a
    text at its place, which a report gives, and the name or number stands in that text; except that
    the number one, captured for the step that a numeric loop leaves out, is shown by the loop. -/
theorem search_captures_shown {source template : String} {options : Options} {found : Found}
    (ok : search source template options = .ok found) :
    ∃ chunk, parse source = .ok chunk ∧
      ∀ e ∈ found.captures.exprs, ∀ x, e = .ident e.span x ∨ e = .number e.span x →
        ∃ shown, e.span.text? source = some shown ∧
          (Cli.CaptureReport.of source e.kindName e.span).text = shown ∧
          (x.toList <:+: shown.toList ∨
            e = .number e.span "1" ∧ ∃ var start limit body,
              .stmt (.numericFor e.span var start limit none body) ∈ Nodes.stmts chunk) := by
  obtain ⟨pattern, t, chunk, readTemplate, lowered, read, searched⟩ := find_of_search ok
  have shows := find_records (Captures.Shown.recording read) searched (fun _ member => member)
    (namesReceiver_of_parse readTemplate lowered)
  refine ⟨chunk, read, ?_⟩
  intro e captured x isX
  have spelled : e.spelling? = some x := by
    rcases isX with same | same <;> rw [same] <;> rfl
  obtain ⟨shown, given, holds⟩ := shows e captured x spelled
  exact ⟨shown, given, by simp [Cli.CaptureReport.of, given], holds⟩

/-- A name in parentheses and one where it is declared: the text of the first is longer than it. -/
theorem search_captures_shown_parenthesized :
    let source := "local n = (k)"
    let template := "local _IdentExpr_ = _IdentExpr_"
    let captured : List Expr := [.ident ⟨10, 13⟩ "k", .ident ⟨6, 7⟩ "n"]
    search source template default = .ok ⟨.found 0 1, ⟨captured, []⟩⟩ ∧
      ∃ shown, (⟨10, 13⟩ : Span).text? source = some shown ∧ "k".toList <:+: shown.toList := by
  intro source template captured
  have read : parse source =
      .ok [.localVars ⟨0, 13⟩ [⟨⟨6, 7⟩, some "n"⟩] [.ident ⟨10, 13⟩ "k"]] := by
    dsimp only [source]
    rfl
  have readTemplate : parse template =
      .ok [.localVars ⟨0, 31⟩ [⟨⟨6, 17⟩, some Marker.ident⟩] [.ident ⟨20, 31⟩ Marker.ident]] := by
    dsimp only [template]
    rfl
  have ok : search source template default = .ok ⟨.found 0 1, ⟨captured, []⟩⟩ := by
    rw [search_eq_find readTemplate rfl read]
    rfl
  obtain ⟨_, _, shows⟩ := search_captures_shown ok
  obtain ⟨shown, given, _, inside | ⟨other, _⟩⟩ :=
    shows (.ident ⟨10, 13⟩ "k") (by simp [captured]) "k" (.inl rfl)
  · exact ⟨ok, shown, given, inside⟩
  · cases other

/-- The step that a loop leaves out is captured as a number that stands nowhere in the loop. -/
theorem search_captures_shown_leftOut :
    ¬ ∀ source template options found, search source template options = .ok found →
      ∀ e ∈ found.captures.exprs, ∀ x, e = .ident e.span x ∨ e = .number e.span x →
        ∃ shown, e.span.text? source = some shown ∧ x.toList <:+: shown.toList := by
  intro always
  let loop (span : Span) (step? : Option Expr) : Stmt :=
    .numericFor span "i" (.ident ⟨8, 9⟩ "a") (.ident ⟨11, 12⟩ "b") step? []
  have read : parse "for i = a, b do end" = .ok [loop ⟨0, 19⟩ none] := rfl
  have readTemplate : parse "for i = a, b, _NumberExpr_ do end" =
      .ok [loop ⟨0, 33⟩ (some (.ident ⟨14, 26⟩ Marker.number))] := rfl
  have ok : search "for i = a, b do end" "for i = a, b, _NumberExpr_ do end" default =
      .ok ⟨.found 0 1, ⟨[.number ⟨0, 19⟩ "1"], []⟩⟩ := by
    rw [search_eq_find readTemplate rfl read]
    rfl
  obtain ⟨shown, given, inside⟩ :=
    always _ _ _ _ ok (.number ⟨0, 19⟩ "1") (by simp) "1" (.inr rfl)
  have whole : (⟨0, 19⟩ : Span).text? "for i = a, b do end" = some "for i = a, b do end" := rfl
  have absent : ¬ "1".toList <:+: "for i = a, b do end".toList := by decide +kernel
  obtain rfl := Option.some.inj (whole.symm.trans given)
  exact absent inside

end LuaSearch
