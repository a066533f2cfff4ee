import Mathlib.Tactic.SplitIfs
import LuaSearch.Json

/-!
The text of a JSON value. It tells the value, on one line as on indented lines: a value is told by
its first character and ends where its text says, so whatever stands behind it is told as well. Only
a number needs to know that no digit follows.
-/
namespace LuaSearch.Json

def hexValue (c : Char) : Nat := if c ≤ '9' then c.toNat - '0'.toNat else c.toNat - 'a'.toNat + 10

def unescaped? : List Char → Option (Char × List Char)
  | '\\' :: 'b' :: behind => some ('\x08', behind)
  | '\\' :: 'f' :: behind => some ('\x0c', behind)
  | '\\' :: 'n' :: behind => some ('\n', behind)
  | '\\' :: 'r' :: behind => some ('\r', behind)
  | '\\' :: 't' :: behind => some ('\t', behind)
  | '\\' :: 'u' :: '0' :: '0' :: high :: low :: behind =>
      some (Char.ofNat (16 * hexValue high + hexValue low), behind)
  | '\\' :: c :: behind => some (c, behind)
  | c :: behind => some (c, behind)
  | [] => none

theorem hexValue_hexDigit (n : Nat) : hexValue (hexDigit n) = n % 16 := by
  have small : ∀ m < 16, hexValue (hexDigit m) = m := by decide
  have same : hexDigit n = hexDigit (n % 16) := by
    unfold hexDigit
    rw [Nat.mod_mod]
  rw [same, small _ (Nat.mod_lt n (by decide))]

theorem unescaped?_escaped (c : Char) (behind : List Char) :
    unescaped? ((escaped c).toList ++ behind) = some (c, behind) := by
  unfold escaped
  split_ifs with _ backslash _ _ _ _ _ control
  iterate 7 subst c; rfl
  · have low : c.toNat / 16 < 16 := by
      have : c.toNat < 32 := control
      omega
    have back : 16 * (c.toNat / 16 % 16) + c.toNat % 16 = c.toNat := by omega
    simp [unescaped?, hexValue_hexDigit, back]
  · simp [unescaped?, backslash]

theorem head?_escaped_ne (c : Char) (behind : List Char) :
    ((escaped c).toList ++ behind).head? ≠ some '"' := by
  unfold escaped
  split_ifs with quote
  iterate 8 simp
  simpa using quote

theorem quoted_toList (s : String) :
    (quoted s).toList = '"' :: (s.toList.flatMap (fun c => (escaped c).toList) ++ ['"']) := by
  have whole : ∀ (cs : List Char) (out : String),
      (cs.foldl (fun out c => out ++ escaped c) out).toList =
        out.toList ++ cs.flatMap (fun c => (escaped c).toList) := by
    intro cs
    induction cs with
    | nil => simp
    | cons c cs ih => simp [ih]
  simp [quoted, whole]

theorem escapes_unambiguous (cs ds behind after : List Char)
    (same : cs.flatMap (fun c => (escaped c).toList) ++ '"' :: behind =
      ds.flatMap (fun c => (escaped c).toList) ++ '"' :: after) : cs = ds ∧ behind = after := by
  induction cs generalizing ds with
  | nil =>
    cases ds with
    | nil => simpa using same
    | cons d ds =>
      have := congrArg List.head? same
      rw [List.flatMap_cons, List.append_assoc] at this
      exact absurd this.symm (head?_escaped_ne d _)
  | cons c cs ih =>
    cases ds with
    | nil =>
      have := congrArg List.head? same
      rw [List.flatMap_cons, List.append_assoc] at this
      exact absurd this (head?_escaped_ne c _)
    | cons d ds =>
      simp only [List.flatMap_cons, List.append_assoc] at same
      have first := congrArg unescaped? same
      simp only [unescaped?_escaped, Option.some.injEq, Prod.mk.injEq] at first
      obtain ⟨rfl, rest⟩ := first
      obtain ⟨rfl, rfl⟩ := ih ds rest
      exact ⟨rfl, rfl⟩

theorem quoted_unambiguous {s t : String} {behind after : List Char}
    (same : (quoted s).toList ++ behind = (quoted t).toList ++ after) : s = t ∧ behind = after := by
  simp only [quoted_toList, List.cons_append, List.append_assoc, List.cons.injEq, true_and,
    List.nil_append] at same
  obtain ⟨whole, rest⟩ := escapes_unambiguous _ _ _ _ same
  exact ⟨String.toList_inj.mp whole, rest⟩

def NoDigit (text : List Char) : Prop := ∀ c, text.head? = some c → c.isDigit = false

theorem repr_toList (n : Nat) : n.repr.toList = Nat.toDigits 10 n := by
  rw [Nat.repr_eq_ofList_toDigits, String.toList_ofList]

theorem isDigit_of_mem_repr {n : Nat} {c : Char} (mem : c ∈ n.repr.toList) : c.isDigit = true :=
  Nat.isDigit_of_mem_toDigits (b := 10) (by decide) (by decide) (repr_toList n ▸ mem)

theorem exists_digit_repr (n : Nat) : ∃ c cs, n.repr.toList = c :: cs ∧ c.isDigit = true := by
  cases digits : n.repr.toList with
  | nil => exact absurd (repr_toList n ▸ digits) Nat.toDigits_ne_nil
  | cons c cs => exact ⟨c, cs, rfl, isDigit_of_mem_repr (digits ▸ List.mem_cons_self)⟩

theorem takeWhile_repr {behind : List Char} (ends : NoDigit behind) (n : Nat) :
    (n.repr.toList ++ behind).takeWhile Char.isDigit = n.repr.toList := by
  rw [List.takeWhile_append_of_pos fun _ => isDigit_of_mem_repr]
  cases behind with
  | nil => simp
  | cons c cs => simp [ends c rfl]

theorem repr_unambiguous {m n : Nat} {behind after : List Char} (ends : NoDigit behind)
    (ends' : NoDigit after) (same : m.repr.toList ++ behind = n.repr.toList ++ after) :
    m = n ∧ behind = after := by
  have digits := congrArg (List.takeWhile Char.isDigit) same
  rw [takeWhile_repr ends, takeWhile_repr ends'] at digits
  have numbers := congrArg (Nat.ofDigitChars 10 · 0) digits
  simp only [repr_toList, Nat.ofDigitChars_toDigits (b := 10) (by decide) (by decide)] at numbers
  subst numbers
  exact ⟨rfl, List.append_cancel_left same⟩

mutual
def text : Json → Layout → List Char
  | .null, _ => ['n', 'u', 'l', 'l']
  | .bool true, _ => ['t', 'r', 'u', 'e']
  | .bool false, _ => ['f', 'a', 'l', 's', 'e']
  | .number value, _ => value.repr.toList
  | .string value, _ => (quoted value).toList
  | .array [], _ => ['[', ']']
  | .array (item :: items), layout =>
      '[' :: (layout.inside.lineBreak.toList ++ (item.text layout.inside ++ itemsText items layout))
  | .object [], _ => ['\x7b', '\x7d']
  | .object (member :: members), layout =>
      '\x7b' :: (layout.inside.lineBreak.toList ++
        (memberText member layout ++ membersText members layout))
termination_by structural value => value

def itemsText : List Json → Layout → List Char
  | [], layout => layout.lineBreak.toList ++ [']']
  | item :: items, layout =>
      ',' :: (layout.inside.lineBreak.toList ++ (item.text layout.inside ++ itemsText items layout))
termination_by structural items => items

def memberText : String × Json → Layout → List Char
  | (name, value), layout =>
      (quoted name).toList ++ (layout.colon.toList ++ value.text layout.inside)
termination_by structural member => member

def membersText : List (String × Json) → Layout → List Char
  | [], layout => layout.lineBreak.toList ++ ['\x7d']
  | member :: members, layout =>
      ',' :: (layout.inside.lineBreak.toList ++
        (memberText member layout ++ membersText members layout))
termination_by structural members => members
end

mutual
theorem write_toList : ∀ (value : Json) (layout : Layout) (out : String),
    (value.write layout out).toList = out.toList ++ value.text layout
  | .null, layout, out => by simp [write, text]
  | .bool true, layout, out => by simp [write, text]
  | .bool false, layout, out => by simp [write, text]
  | .number value, layout, out => by simp [write, text]
  | .string value, layout, out => by simp [write, text]
  | .array [], layout, out => by simp [write, text]
  | .array (item :: items), layout, out => by
      simp [write, text, writeItems_toList items, write_toList item]
  | .object [], layout, out => by simp [write, text]
  | .object (member :: members), layout, out => by
      simp [write, text, writeMembers_toList members, writeMember_toList member]
termination_by structural value => value

theorem writeItems_toList : ∀ (items : List Json) (layout : Layout) (out : String),
    (writeItems items layout out).toList = out.toList ++ itemsText items layout
  | [], layout, out => by simp [writeItems, itemsText]
  | item :: items, layout, out => by
      simp [writeItems, itemsText, writeItems_toList items, write_toList item]
termination_by structural items => items

theorem writeMember_toList : ∀ (member : String × Json) (layout : Layout) (out : String),
    (writeMember member layout out).toList = out.toList ++ memberText member layout
  | (name, value), layout, out => by simp [writeMember, memberText, write_toList value]
termination_by structural member => member

theorem writeMembers_toList : ∀ (members : List (String × Json)) (layout : Layout) (out : String),
    (writeMembers members layout out).toList = out.toList ++ membersText members layout
  | [], layout, out => by simp [writeMembers, membersText]
  | member :: members, layout, out => by
      simp [writeMembers, membersText, writeMembers_toList members, writeMember_toList member]
termination_by structural members => members
end

inductive Form where
  | null | bool | number | string | array | object

def form : Json → Form
  | .null => .null
  | .bool _ => .bool
  | .number _ => .number
  | .string _ => .string
  | .array _ => .array
  | .object _ => .object

/-- What the first character says of the value. -/
def Form.ofText : List Char → Form
  | 'n' :: _ => .null
  | 't' :: _ => .bool
  | 'f' :: _ => .bool
  | '"' :: _ => .string
  | '[' :: _ => .array
  | '\x7b' :: _ => .object
  | _ => .number

theorem ofText_digit {c : Char} (digit : c.isDigit = true) (behind : List Char) :
    Form.ofText (c :: behind) = .number := by
  unfold Form.ofText
  split
  iterate 6
    rename_i same
    obtain ⟨rfl, -⟩ := List.cons.inj same
    exact absurd digit (by decide)
  rfl

theorem ofText_text (value : Json) (layout : Layout) (behind : List Char) :
    Form.ofText (value.text layout ++ behind) = value.form := by
  cases value with
  | null => rfl
  | bool value => cases value <;> rfl
  | number value =>
    obtain ⟨c, cs, digits, digit⟩ := exists_digit_repr value
    rw [text, digits]
    exact ofText_digit digit _
  | string value =>
    rw [text, quoted_toList]
    rfl
  | array items => cases items <;> rfl
  | object members => cases members <;> rfl

theorem noDigit_itemsText (items : List Json) (layout : Layout) (behind : List Char) :
    NoDigit (itemsText items layout ++ behind) := by
  rintro c first
  cases items with
  | nil =>
    cases layout <;> simp [itemsText, Layout.lineBreak] at first <;> subst first <;> decide
  | cons item items =>
    simp [itemsText] at first
    subst first
    decide

theorem noDigit_membersText (members : List (String × Json)) (layout : Layout)
    (behind : List Char) : NoDigit (membersText members layout ++ behind) := by
  rintro c first
  cases members with
  | nil =>
    cases layout <;> simp [membersText, Layout.lineBreak] at first <;> subst first <;> decide
  | cons member members =>
    simp [membersText] at first
    subst first
    decide

theorem head?_text_ne (value : Json) (layout : Layout) (behind : List Char) :
    (value.text layout ++ behind).head? ≠ some ']' := by
  cases value with
  | null => simp [text]
  | bool value => cases value <;> simp [text]
  | number value =>
    obtain ⟨c, cs, digits, digit⟩ := exists_digit_repr value
    rw [text, digits]
    rintro ⟨⟩
    exact absurd digit (by decide)
  | string value => simp [text, quoted_toList]
  | array items => cases items <;> simp [text]
  | object members => cases members <;> simp [text]

theorem item_ne_close (item : Json) (layout : Layout) (behind after : List Char) :
    layout.inside.lineBreak.toList ++ (item.text layout.inside ++ behind) ≠ ']' :: after := by
  intro same
  cases layout with
  | compact => exact head?_text_ne item .compact behind (congrArg List.head? same)
  | indented depth => simp [Layout.inside, Layout.lineBreak] at same

theorem member_ne_close (member : String × Json) (layout : Layout) (behind after : List Char) :
    layout.inside.lineBreak.toList ++ (memberText member layout ++ behind) ≠ '\x7d' :: after := by
  rcases member with ⟨name, value⟩
  cases layout <;> simp [Layout.inside, Layout.lineBreak, memberText, quoted_toList]

theorem close_ne_comma {bracket : Char} (other : bracket ≠ ',') (layout : Layout)
    (behind after : List Char) :
    layout.lineBreak.toList ++ bracket :: behind ≠ ',' :: after := by
  cases layout <;> simp [Layout.lineBreak, other]

mutual
theorem text_unambiguous : ∀ (value other : Json) (layout : Layout) (behind after : List Char),
    NoDigit behind → NoDigit after → value.text layout ++ behind = other.text layout ++ after →
    value = other ∧ behind = after
  | value, other, layout, behind, after, ends, ends', same => by
      have form := congrArg Form.ofText same
      rw [ofText_text, ofText_text] at form
      cases value <;> cases other <;> cases form
      case null.null => exact ⟨rfl, List.append_cancel_left same⟩
      case bool.bool b b' => cases b <;> cases b' <;> simp_all [text]
      case number.number n n' =>
        obtain ⟨rfl, rest⟩ := repr_unambiguous ends ends' same
        exact ⟨rfl, rest⟩
      case string.string s s' =>
        obtain ⟨rfl, rest⟩ := quoted_unambiguous same
        exact ⟨rfl, rest⟩
      case array.array items others =>
        cases items <;> cases others
        case nil.nil => exact ⟨rfl, List.append_cancel_left same⟩
        case nil.cons other others =>
          simp only [text, List.cons_append, List.append_assoc, List.cons.injEq, true_and] at same
          exact absurd same.symm (item_ne_close other layout _ _)
        case cons.nil item items =>
          simp only [text, List.cons_append, List.append_assoc, List.cons.injEq, true_and] at same
          exact absurd same (item_ne_close item layout _ _)
        case cons.cons item items other others =>
          -- Read behind a comma, the same items follow.
          have listed : itemsText (item :: items) layout ++ behind =
              itemsText (other :: others) layout ++ after := by
            simpa [text, itemsText] using same
          obtain ⟨items, rest⟩ := itemsText_unambiguous _ _ layout behind after listed
          exact ⟨congrArg _ items, rest⟩
      case object.object members others =>
        cases members <;> cases others
        case nil.nil => exact ⟨rfl, List.append_cancel_left same⟩
        case nil.cons other others =>
          simp only [text, List.cons_append, List.append_assoc, List.cons.injEq, true_and] at same
          exact absurd same.symm (member_ne_close other layout _ _)
        case cons.nil member members =>
          simp only [text, List.cons_append, List.append_assoc, List.cons.injEq, true_and] at same
          exact absurd same (member_ne_close member layout _ _)
        case cons.cons member members other others =>
          have listed : membersText (member :: members) layout ++ behind =
              membersText (other :: others) layout ++ after := by
            simpa [text, membersText] using same
          obtain ⟨members, rest⟩ := membersText_unambiguous _ _ layout behind after listed
          exact ⟨congrArg _ members, rest⟩
termination_by structural value => value

theorem itemsText_unambiguous : ∀ (items others : List Json) (layout : Layout)
    (behind after : List Char),
    itemsText items layout ++ behind = itemsText others layout ++ after →
    items = others ∧ behind = after
  | [], [], layout, behind, after, same => ⟨rfl, List.append_cancel_left same⟩
  | [], _ :: _, layout, behind, after, same => by
      simp only [itemsText, List.cons_append, List.append_assoc, List.nil_append] at same
      exact absurd same (close_ne_comma (by decide) _ _ _)
  | _ :: _, [], layout, behind, after, same => by
      simp only [itemsText, List.cons_append, List.append_assoc, List.nil_append] at same
      exact absurd same.symm (close_ne_comma (by decide) _ _ _)
  | item :: items, other :: others, layout, behind, after, same => by
      simp only [itemsText, List.cons_append, List.append_assoc, List.cons.injEq, true_and,
        List.append_cancel_left_eq] at same
      obtain ⟨rfl, further⟩ := text_unambiguous item other layout.inside _ _
        (noDigit_itemsText items layout behind) (noDigit_itemsText others layout after) same
      obtain ⟨rfl, rest⟩ := itemsText_unambiguous items others layout behind after further
      exact ⟨rfl, rest⟩
termination_by structural items => items

theorem memberText_unambiguous : ∀ (member other : String × Json) (layout : Layout)
    (behind after : List Char), NoDigit behind → NoDigit after →
    memberText member layout ++ behind = memberText other layout ++ after →
    member = other ∧ behind = after
  | (name, value), (name', value'), layout, behind, after, ends, ends', same => by
      simp only [memberText, List.append_assoc] at same
      obtain ⟨rfl, valueSame⟩ := quoted_unambiguous same
      obtain ⟨rfl, rest⟩ := text_unambiguous value value' layout.inside behind after ends ends'
        (List.append_cancel_left valueSame)
      exact ⟨rfl, rest⟩
termination_by structural member => member

theorem membersText_unambiguous : ∀ (members others : List (String × Json)) (layout : Layout)
    (behind after : List Char),
    membersText members layout ++ behind = membersText others layout ++ after →
    members = others ∧ behind = after
  | [], [], layout, behind, after, same => ⟨rfl, List.append_cancel_left same⟩
  | [], _ :: _, layout, behind, after, same => by
      simp only [membersText, List.cons_append, List.append_assoc, List.nil_append] at same
      exact absurd same (close_ne_comma (by decide) _ _ _)
  | _ :: _, [], layout, behind, after, same => by
      simp only [membersText, List.cons_append, List.append_assoc, List.nil_append] at same
      exact absurd same.symm (close_ne_comma (by decide) _ _ _)
  | member :: members, other :: others, layout, behind, after, same => by
      simp only [membersText, List.cons_append, List.append_assoc, List.cons.injEq, true_and,
        List.append_cancel_left_eq] at same
      obtain ⟨rfl, further⟩ := memberText_unambiguous member other layout _ _
        (noDigit_membersText members layout behind) (noDigit_membersText others layout after) same
      obtain ⟨rfl, rest⟩ := membersText_unambiguous members others layout behind after further
      exact ⟨rfl, rest⟩
termination_by structural members => members
end

/-- Values whose texts are the same are the same, however they are laid out. -/
theorem write_injective {value other : Json} {layout : Layout}
    (same : value.write layout "" = other.write layout "") : value = other := by
  have texts := congrArg String.toList same
  simp only [write_toList] at texts
  have nothing : NoDigit [] := nofun
  refine (text_unambiguous value other layout [] [] nothing nothing ?_).1
  simpa using texts

end LuaSearch.Json
