import LuaSearch.Text.Literal

/-!
Writing strings as literals. Between two quotes a backslash, the quote and a line break are written
as escapes and all else stands as it is. Such a literal is cut from any source as one token, and
its value is the string that was written.
-/
namespace LuaSearch.Literal

def escaped (mark c : Char) : List Char :=
  if c = '\n' then ['\\', 'n']
  else if c = '\\' ∨ c = mark then ['\\', c]
  else [c]

def body (mark : Char) (cs : List Char) : List Char := cs.flatMap (escaped mark)

theorem body_cons (mark c : Char) (cs : List Char) :
    body mark (c :: cs) = escaped mark c ++ body mark cs := rfl

def quote (mark : Char) (cs : List Char) : List Char := mark :: (body mark cs ++ [mark])

def IsMark (mark : Char) : Prop := mark = '"' ∨ mark = '\''

/-- The text is a way to write the characters between two marks. What would end the literal or
    start an escape stands behind a backslash, a line break as itself or by its letter. -/
inductive Written (mark : Char) : List Char → List Char → Prop where
  | nil : Written mark [] []
  | plain {c : Char} {cs text : List Char} (backslash : c ≠ '\\') (newline : c ≠ '\n')
      (other : c ≠ mark) (rest : Written mark cs text) : Written mark (c :: cs) (c :: text)
  | escaped {c : Char} {cs text : List Char} (held : c = '\\' ∨ c = '\n' ∨ c = mark)
      (rest : Written mark cs text) : Written mark (c :: cs) ('\\' :: c :: text)
  | lineBreak {cs text : List Char} (rest : Written mark cs text) :
      Written mark ('\n' :: cs) ('\\' :: 'n' :: text)

theorem written_body (mark : Char) (cs : List Char) : Written mark cs (body mark cs) := by
  induction cs with
  | nil => exact .nil
  | cons c cs ih =>
    rw [body_cons]
    unfold escaped
    split
    · rename_i newline
      exact newline ▸ .lineBreak ih
    · rename_i newline
      split
      · rename_i held
        exact .escaped (held.imp id .inr) ih
      · rename_i plain
        exact .plain (not_or.mp plain).1 newline (not_or.mp plain).2 ih

theorem unescape_written {mark : Char} (isMark : IsMark mark) {cs text : List Char}
    (written : Written mark cs text) : unescape text = cs := by
  induction written with
  | nil => rfl
  | plain backslash newline other rest ih => rw [unescape_cons_of_ne backslash, ih]
  | @escaped c cs text held rest ih =>
    have read : escape (c :: text) = ([c], text) := by
      rcases held with rfl | rfl | rfl
      · rfl
      · rfl
      · rcases isMark with rfl | rfl <;> rfl
    simp [unescape_backslash, read, ih]
  | lineBreak rest ih => simp [unescape_backslash, escape, ih]

theorem quotedValue_quote {mark : Char} (isMark : IsMark mark) (cs : List Char) :
    quotedValue (quote mark cs) = cs := by
  simp [quotedValue, quote, unescape_written isMark (written_body mark cs)]

end LuaSearch.Literal

namespace LuaSearch.Lexer

theorem quoted_backslash (mark c : Char) (cs : List Char) :
    quoted mark ('\\' :: c :: cs) =
      ('\\' :: c :: (quoted mark cs).1, (quoted mark cs).2) := rfl

theorem quoted_plain {mark c : Char} (backslash : c ≠ '\\') (newline : c ≠ '\n')
    (other : c ≠ mark) (cs : List Char) :
    quoted mark (c :: cs) = (c :: (quoted mark cs).1, (quoted mark cs).2) := by
  rw [quoted]
  · simp [other, newline]
  · intro empty
    exact absurd empty backslash
  · intro d ds first
    exact absurd first backslash

/-- The string ends at its closing mark, whatever it holds. -/
theorem quoted_written {mark : Char} (isMark : Literal.IsMark mark) {cs text : List Char}
    (written : Literal.Written mark cs text) (rest : List Char) :
    quoted mark (text ++ mark :: rest) = (text ++ [mark], true) := by
  induction written with
  | nil => rcases isMark with rfl | rfl <;> rfl
  | plain backslash newline other _ ih => simp [quoted_plain backslash newline other, ih]
  | escaped held _ ih => simp [quoted_backslash, ih]
  | lineBreak _ ih => simp [quoted_backslash, ih]

end LuaSearch.Lexer
