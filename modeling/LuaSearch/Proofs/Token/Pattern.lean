import Mathlib.Computability.Language
import LuaSearch.Proofs.Token.Lexeme
import LuaSearch.Proofs.Token.Tiling

/-!
The lexical rules as languages. Every kind of token has a pattern, numbers three and strings two,
and so have the blanks, the lines that start with `#!` and the comments. A long bracket is declared
by its opener and a comment by its dashes; what they take beyond that is said on its own. A munch is
a text that some rule takes while no rule fits a longer front of the input.
-/
namespace LuaSearch.Lexer

open Computability

namespace Pattern

def oneOf (accepts : Char → Bool) : Language Char := {w | ∃ c, accepts c = true ∧ [c] = w}

def char (c : Char) : Language Char := oneOf (· = c)

def exactly (text : String) : Language Char := {text.toList}

def plus (item : Language Char) : Language Char := item * item∗

def optional (item : Language Char) : Language Char := 1 + item

def exponent (mark : Char → Bool) : Language Char :=
  oneOf mark * (optional (oneOf fun c => c = '+' || c = '-') * plus (oneOf isDigit))

def fraction (digit : Char → Bool) : Language Char := char '.' * (oneOf digit)∗

def tail (digit mark : Char → Bool) : Language Char :=
  optional (fraction digit) * optional (exponent mark)

def decimal : Language Char := plus (oneOf isDigit) * tail isDigit fun c => c = 'e' || c = 'E'

def pointDecimal : Language Char :=
  char '.' * (plus (oneOf isDigit) * optional (exponent fun c => c = 'e' || c = 'E'))

def hexadecimal : Language Char :=
  char '0' * (oneOf (fun c => c = 'x' || c = 'X') *
    (plus (oneOf isHexDigit) * tail isHexDigit fun c => c = 'p' || c = 'P'))

def number : Language Char := decimal + pointDecimal + hexadecimal

def quoted (mark : Char) : Language Char :=
  char mark * ((oneOf (fun c => c ≠ mark && c ≠ '\\' && c ≠ '\n') +
    char '\\' * oneOf fun _ => true)∗ * char mark)

def longBracket : Language Char := char '[' * ((char '=')∗ * char '[')

def word : Language Char := oneOf startsWord * (oneOf continuesWord)∗

def blanks : Language Char := plus (oneOf isBlank)

def hashBang : Language Char := char '#' * (char '!' * (oneOf (· ≠ '\n'))∗)

def comment : Language Char := char '-' * char '-'

variable {accepts : Char → Bool} {item rest : Language Char} {c d : Char} {w : List Char}

@[simp] theorem mem_oneOf : w ∈ oneOf accepts ↔ ∃ c, accepts c = true ∧ [c] = w := Iff.rfl

@[simp] theorem nil_notMem_oneOf_mul : [] ∉ oneOf accepts * rest := by
  simp [Language.mem_mul]

@[simp] theorem cons_mem_oneOf_mul :
    c :: w ∈ oneOf accepts * rest ↔ accepts c = true ∧ w ∈ rest := by
  simp only [Language.mem_mul, mem_oneOf]
  constructor
  · rintro ⟨_, ⟨d, accepted, rfl⟩, b, inside, whole⟩
    obtain ⟨rfl, rfl⟩ := List.cons.inj whole
    exact ⟨accepted, inside⟩
  · rintro ⟨accepted, inside⟩
    exact ⟨[c], ⟨c, accepted, rfl⟩, w, inside, rfl⟩

@[simp] theorem mem_char : w ∈ char c ↔ w = [c] := by simp [char, eq_comm]

@[simp] theorem mem_exactly {text : String} : w ∈ exactly text ↔ w = text.toList := Iff.rfl

@[simp] theorem nil_notMem_char_mul : [] ∉ char d * rest := nil_notMem_oneOf_mul

@[simp] theorem cons_mem_char_mul : c :: w ∈ char d * rest ↔ c = d ∧ w ∈ rest := by
  simp [char]

@[simp] theorem mem_optional : w ∈ optional item ↔ w = [] ∨ w ∈ item := Iff.rfl

@[simp] theorem mem_many : w ∈ (oneOf accepts)∗ ↔ ∀ c ∈ w, accepts c = true := by
  constructor
  · intro member
    obtain ⟨parts, rfl, each⟩ := Language.mem_kstar.mp member
    intro c inside
    obtain ⟨part, among, holds⟩ := List.mem_flatten.mp inside
    obtain ⟨d, accepted, rfl⟩ := each part among
    rwa [List.mem_singleton.mp holds]
  · intro all
    refine Language.mem_kstar.mpr ⟨w.map ([·]), ?_, ?_⟩
    · rw [← List.flatMap_def, List.flatMap_singleton']
    · intro part among
      obtain ⟨c, inside, rfl⟩ := List.mem_map.mp among
      exact ⟨c, all c inside, rfl⟩

@[simp] theorem mem_plus :
    w ∈ plus (oneOf accepts) ↔ w ≠ [] ∧ ∀ c ∈ w, accepts c = true := by
  cases w <;> simp [plus]

end Pattern

inductive Rule where
  | blanks | hashBang
  | keyword (name : Keyword) | symbol (sign : Symbol)
  | decimal | pointDecimal | hexadecimal
  | doubleQuoted | singleQuoted | longBracket | word | comment

namespace Rule

def pattern : Rule → Language Char
  | blanks => Pattern.blanks
  | hashBang => Pattern.hashBang
  | keyword name => Pattern.exactly name.text
  | symbol sign => Pattern.exactly sign.text
  | decimal => Pattern.decimal
  | pointDecimal => Pattern.pointDecimal
  | hexadecimal => Pattern.hexadecimal
  | doubleQuoted => Pattern.quoted '"'
  | singleQuoted => Pattern.quoted '\''
  | longBracket => Pattern.longBracket
  | word => Pattern.word
  | comment => Pattern.comment

def kind? : Rule → Option Kind
  | blanks | hashBang | comment => none
  | keyword name => some (.keyword name)
  | symbol sign => some (.symbol sign)
  | decimal | pointDecimal | hexadecimal => some .number
  | doubleQuoted | singleQuoted => some .string
  | longBracket => some .longString
  | word => some .ident

/-- The rule goes on behind what its pattern fits. -/
def goesOn : Rule → Bool
  | longBracket | comment => true
  | _ => false

/-- What the rule takes of the input where its pattern fits the front and the given text comes
    after. A long bracket goes on to its first closer, a comment to that or to the end of the
    line; the other rules take what their pattern fits. -/
inductive Takes (after : List Char) : Rule → List Char → List Char → Prop where
  | front {rule : Rule} {front : List Char} (plain : rule.goesOn = false) :
      Takes after rule front front
  | longBracket {level : Nat} {body : List Char} (closed : FirstBehind (closer level) body) :
      Takes after longBracket (opener level) (opener level ++ (body ++ closer level))
  | longComment {level : Nat} {body : List Char} (closed : FirstBehind (closer level) body) :
      Takes after comment ['-', '-'] ('-' :: '-' :: (opener level ++ (body ++ closer level)))
  | lineComment {text : List Char} (noBreak : '\n' ∉ text) (ended : EndsLine after)
      (short : ∀ level, ¬ opener level <+: text) :
      Takes after comment ['-', '-'] ('-' :: '-' :: text)

end Rule

/-- A rule for the kind takes the text, and no rule fits a longer front of the input. -/
def Munched (kind? : Option Kind) (text after : List Char) : Prop :=
  ∃ rule front, Rule.kind? rule = kind? ∧ front ∈ rule.pattern ∧ rule.Takes after front text ∧
    ∀ other fit, fit ∈ Rule.pattern other → fit <+: text ++ after → fit.length ≤ front.length

/-- Which rules can start with a character. -/
inductive Lead where
  | blank | letter | digit | mark | sign
  deriving DecidableEq

def Lead.of (c : Char) : Lead :=
  if isBlank c then .blank
  else if startsWord c then .letter
  else if isDigit c then .digit
  else if c = '"' || c = '\'' then .mark
  else .sign

def Rule.lead : Rule → Lead
  | blanks => .blank
  | keyword _ | word => .letter
  | decimal | hexadecimal => .digit
  | doubleQuoted | singleQuoted => .mark
  | hashBang | symbol _ | pointDecimal | longBracket | comment => .sign

theorem Lead.of_blank {c : Char} (blank : isBlank c = true) : Lead.of c = .blank := by
  simp [Lead.of, blank]

theorem Lead.of_letter {c : Char} (starts : startsWord c = true) : Lead.of c = .letter := by
  simp [Lead.of, Lexeme.not_isBlank_of_startsWord starts, starts]

theorem not_isBlank_of_isDigit {c : Char} (digit : isDigit c = true) : isBlank c = false := by
  cases blank : isBlank c with
  | false => rfl
  | true => exact absurd digit (by simp [not_isDigit_blank blank])

theorem Lead.of_digit {c : Char} (digit : isDigit c = true) : Lead.of c = .digit := by
  simp [Lead.of, not_isBlank_of_isDigit digit, Lexeme.not_startsWord_of_isDigit digit, digit]

theorem Rule.nil_notMem (rule : Rule) : [] ∉ rule.pattern := by
  cases rule with
  | keyword name => cases name <;> simp [pattern, Keyword.text]
  | symbol sign => exact (symbol_text_ne_nil sign).symm
  | _ =>
    simp [pattern, Pattern.blanks, Pattern.hashBang, Pattern.decimal, Pattern.pointDecimal,
      Pattern.hexadecimal, Pattern.quoted, Pattern.longBracket, Pattern.word, Pattern.comment,
      Pattern.plus, mul_assoc]

theorem Rule.lead_of_mem {rule : Rule} {c : Char} {w : List Char} (fits : c :: w ∈ rule.pattern) :
    rule.lead = Lead.of c := by
  cases rule with
  | keyword name =>
    have starts : startsWord c = true := by
      have text : name.text.toList = c :: w := fits.symm
      have first : name.text.toList.head?.all startsWord = true := by cases name <;> rfl
      simpa [text] using first
    exact (Lead.of_letter starts).symm
  | symbol sign =>
    have text : sign.text.toList = c :: w := fits.symm
    have first : sign.text.toList.head?.all (Lead.of · = .sign) = true := by cases sign <;> rfl
    simpa [text, eq_comm, lead] using first
  | blanks =>
    simp only [pattern, Pattern.blanks, Pattern.mem_plus, List.forall_mem_cons] at fits
    exact (Lead.of_blank fits.2.1).symm
  | decimal =>
    simp only [pattern, Pattern.decimal, Pattern.plus, mul_assoc, Pattern.cons_mem_oneOf_mul]
      at fits
    exact (Lead.of_digit fits.1).symm
  | word => exact (Lead.of_letter (Pattern.cons_mem_oneOf_mul.mp fits).1).symm
  | hashBang | pointDecimal | hexadecimal | doubleQuoted | singleQuoted | longBracket | comment =>
    obtain ⟨rfl, _⟩ := Pattern.cons_mem_char_mul.mp fits
    rfl

end LuaSearch.Lexer
