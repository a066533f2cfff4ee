import Mathlib.Logic.Basic
import LuaSearch.Proofs.Json
import LuaSearch.Syntax.Json

/-!
Trees and their JSON. Reading what was written gives the tree back, also when members that are null
were left out on the way, wherever they stand. So the JSON of a tree tells it from every other one.
-/
namespace LuaSearch

namespace Json

mutual
/-- The second value is the first with some of its null members left out, at any depth. -/
inductive Thinned : Json → Json → Prop where
  | null : Thinned .null .null
  | bool (value : Bool) : Thinned (.bool value) (.bool value)
  | number (value : Nat) : Thinned (.number value) (.number value)
  | string (value : String) : Thinned (.string value) (.string value)
  | array {items others : List Json} (each : ThinnedItems items others) :
      Thinned (.array items) (.array others)
  | object {members others : List (String × Json)} (each : ThinnedMembers members others) :
      Thinned (.object members) (.object others)

inductive ThinnedItems : List Json → List Json → Prop where
  | nil : ThinnedItems [] []
  | cons {item other : Json} {items others : List Json} (first : Thinned item other)
      (rest : ThinnedItems items others) : ThinnedItems (item :: items) (other :: others)

inductive ThinnedMembers : List (String × Json) → List (String × Json) → Prop where
  | nil : ThinnedMembers [] []
  | keep {name : String} {value other : Json} {members others : List (String × Json)}
      (first : Thinned value other) (rest : ThinnedMembers members others) :
      ThinnedMembers ((name, value) :: members) ((name, other) :: others)
  | leave {name : String} {members others : List (String × Json)}
      (rest : ThinnedMembers members others) :
      ThinnedMembers ((name, .null) :: members) others
end

mutual
theorem Thinned.refl : ∀ value : Json, Thinned value value
  | .null => .null
  | .bool value => .bool value
  | .number value => .number value
  | .string value => .string value
  | .array items => .array (thinnedItems_refl items)
  | .object members => .object (thinnedMembers_refl members)
termination_by structural value => value

theorem thinnedItems_refl : ∀ items : List Json, ThinnedItems items items
  | [] => .nil
  | item :: items => .cons (Thinned.refl item) (thinnedItems_refl items)
termination_by structural items => items

theorem thinnedMember_refl : ∀ member : String × Json, Thinned member.2 member.2
  | (_, value) => Thinned.refl value
termination_by structural member => member

theorem thinnedMembers_refl : ∀ members : List (String × Json), ThinnedMembers members members
  | [] => .nil
  | member :: members => .keep (thinnedMember_refl member) (thinnedMembers_refl members)
termination_by structural members => members
end

def AllThinned (value : Json) (P : Json → Prop) : Prop := ∀ other, Thinned value other → P other

def AllThinnedItems (items : List Json) (P : List Json → Prop) : Prop :=
  ∀ others, ThinnedItems items others → P others

def AllThinnedMembers (members : List (String × Json)) (P : List (String × Json) → Prop) : Prop :=
  ∀ others, ThinnedMembers members others → P others

section

variable {P : Json → Prop} {Q : List Json → Prop} {R : List (String × Json) → Prop}
  {value item : Json} {name : String} {items : List Json} {members : List (String × Json)}

@[simp] theorem allThinned_bool {b : Bool} : AllThinned (.bool b) P ↔ P (.bool b) := by
  constructor
  · intro all
    exact all _ (.bool b)
  · rintro holds _ ⟨⟩
    exact holds

@[simp] theorem allThinned_number {n : Nat} : AllThinned (.number n) P ↔ P (.number n) := by
  constructor
  · intro all
    exact all _ (.number n)
  · rintro holds _ ⟨⟩
    exact holds

@[simp] theorem allThinned_string {s : String} : AllThinned (.string s) P ↔ P (.string s) := by
  constructor
  · intro all
    exact all _ (.string s)
  · rintro holds _ ⟨⟩
    exact holds

@[simp] theorem allThinned_array :
    AllThinned (.array items) P ↔ AllThinnedItems items fun others => P (.array others) := by
  constructor
  · intro all others each
    exact all _ (.array each)
  · rintro all _ ⟨⟩
    exact all _ ‹_›

@[simp] theorem allThinned_object :
    AllThinned (.object members) P ↔
      AllThinnedMembers members fun others => P (.object others) := by
  constructor
  · intro all others each
    exact all _ (.object each)
  · rintro all _ ⟨⟩
    exact all _ ‹_›

theorem allThinnedItems_nil : AllThinnedItems [] Q ↔ Q [] := by
  constructor
  · intro all
    exact all _ .nil
  · rintro holds _ ⟨⟩
    exact holds

theorem allThinnedItems_cons :
    AllThinnedItems (item :: items) Q ↔
      AllThinned item fun other => AllThinnedItems items fun others => Q (other :: others) := by
  constructor
  · intro all other first others rest
    exact all _ (.cons first rest)
  · rintro all _ (_ | ⟨first, rest⟩)
    exact all _ first _ rest

@[simp] theorem allThinnedMembers_nil : AllThinnedMembers [] R ↔ R [] := by
  constructor
  · intro all
    exact all _ .nil
  · rintro holds _ ⟨⟩
    exact holds

@[simp] theorem allThinnedMembers_cons (some : value ≠ .null) :
    AllThinnedMembers ((name, value) :: members) R ↔
      AllThinned value fun other =>
        AllThinnedMembers members fun others => R ((name, other) :: others) := by
  constructor
  · intro all other first others rest
    exact all _ (.keep first rest)
  · rintro all _ (_ | ⟨first, rest⟩ | rest)
    · exact all _ first _ rest
    · exact absurd rfl some

@[simp] theorem allThinnedMembers_cons_null :
    AllThinnedMembers ((name, .null) :: members) R ↔
      AllThinnedMembers members fun others => R ((name, .null) :: others) ∧ R others := by
  constructor
  · intro all others rest
    exact ⟨all _ (.keep .null rest), all _ (.leave rest)⟩
  · rintro all _ (_ | ⟨⟨⟩, rest⟩ | rest)
    · exact (all _ rest).1
    · exact (all _ rest).2

theorem allThinnedItems_map {α : Type} {write : α → Json}
    (fixed : ∀ a (P : Json → Prop), AllThinned (write a) P ↔ P (write a)) (as : List α) :
    AllThinnedItems (as.map write) Q ↔ Q (as.map write) := by
  induction as generalizing Q with
  | nil => exact allThinnedItems_nil
  | cons a as ih => rw [List.map_cons, allThinnedItems_cons, fixed, ih]

end

theorem depth_pos (value : Json) : 0 < value.depth := by
  cases value <;> simp [depth]

end Json

open Json

namespace Encode

@[simp] theorem expr_ne_null (e : Expr) : expr e ≠ .null := by cases e <;> exact nofun

theorem object_of_thinned {e : Expr} {value : Json} (thinned : Thinned (expr e) value) :
    ∃ members, value = .object members := by
  cases e <;> cases thinned <;> exact ⟨_, rfl⟩

@[simp] theorem span_ne_null (s : Span) : s.toJson ≠ .null := nofun

@[simp] theorem strings_ne_null (names : List String) : strings names ≠ .null := nofun

@[simp] theorem binders_ne_null (names : List Binder) : binders names ≠ .null := nofun

@[simp] theorem params_ne_null (given : Params) : params given ≠ .null := nofun

@[simp] theorem tagged_ne_null (tag : String) (content : Json) : tagged tag content ≠ .null := nofun

@[simp] theorem binary_ne_null (op : BinaryOp) (left right : Json) :
    binary op left right ≠ .null := by
  cases op <;> exact nofun

section

variable {P : Json → Prop} {kind content : Json}

@[simp] theorem allThinned_span {s : Span} : AllThinned s.toJson P ↔ P s.toJson := by
  simp [Span.toJson]

@[simp] theorem allThinned_node {span : Span} (some : kind ≠ .null) :
    AllThinned (node span kind) P ↔ AllThinned kind fun other => P (node span other) := by
  simp [node, some]

@[simp] theorem allThinned_tagged {tag : String} (some : content ≠ .null) :
    AllThinned (tagged tag content) P ↔ AllThinned content fun other => P (tagged tag other) := by
  simp [tagged, some]

@[simp] theorem allThinned_strings {names : List String} :
    AllThinned (strings names) P ↔ P (strings names) := by
  simp [strings, allThinnedItems_map]

theorem allThinned_binder (b : Binder) (P : Json → Prop) :
    AllThinned (binder b) P ↔ P (binder b) := by
  rcases b with ⟨span, _ | name⟩ <;> simp [binder]

@[simp] theorem allThinned_binders {names : List Binder} :
    AllThinned (binders names) P ↔ P (binders names) := by
  simp [binders, allThinnedItems_map allThinned_binder]

@[simp] theorem allThinned_params {given : Params} :
    AllThinned (params given) P ↔ P (params given) := by
  simp [params]

@[simp] theorem allThinned_binary {op : BinaryOp} {left right : Json} (someLeft : left ≠ .null)
    (someRight : right ≠ .null) :
    AllThinned (binary op left right) P ↔
      AllThinned left fun x => AllThinned right fun y => P (binary op x y) := by
  cases op <;> simp [binary, binary.operation, someLeft, someRight]

end

end Encode

namespace Decode

theorem mapM_map {α : Type} {read : Json → Option α} {write : α → Json}
    (back : ∀ a, read (write a) = some a) (as : List α) : (as.map write).mapM read = some as := by
  induction as with
  | nil => rfl
  | cons a as ih => simp [back, ih]

theorem strings?_strings (names : List String) : strings? (Encode.strings names) = some names := by
  have back : ∀ name, Json.string? (.string name) = some name := fun _ => rfl
  exact mapM_map back names

theorem binder?_binder (b : Binder) : binder? (Encode.binder b) = some b := by
  rcases b with ⟨span, _ | name⟩ <;> rfl

theorem binders?_binders (names : List Binder) : binders? (Encode.binders names) = some names :=
  mapM_map binder?_binder names

theorem params?_params (params : Params) : params? (Encode.params params) = some params := by
  change (do return (⟨← binders? (Encode.binders params.names), params.hasVarargs⟩ : Params)) = _
  rw [binders?_binders]
  rfl

/-- The value is read as what is given, with fuel for its depth. -/
def Reads {α : Type} (read : Nat → Json → Option α) (value : Json) (a : α) : Prop :=
  ∀ fuel, value.depth ≤ fuel → read fuel value = some a

def ReadsItems {α : Type} (read : Nat → Json → Option α) (values : List Json) (as : List α) :
    Prop :=
  ∀ fuel, depthItems values ≤ fuel → values.mapM (fun value => read fuel value) = some as

/-- However its null members are left out, what was written is read as what is given. -/
def ReadsBack {α : Type} (read : Nat → Json → Option α) (written : Json) (a : α) : Prop :=
  AllThinned written fun value => Reads read value a

def ReadsBackItems {α : Type} (read : Nat → Json → Option α) (written : List Json) (as : List α) :
    Prop :=
  AllThinnedItems written fun values => ReadsItems read values as

section

variable {α : Type} {read : Nat → Json → Option α} {written value : Json} {a : α}

theorem Reads.of_succ
    (each : ∀ fuel, value.depth ≤ fuel + 1 → read (fuel + 1) value = some a) :
    Reads read value a := by
  intro fuel enough
  have positive := value.depth_pos
  cases fuel with
  | zero => omega
  | succ fuel => exact each fuel enough

theorem ReadsBackItems.nil : ReadsBackItems read [] [] :=
  allThinnedItems_nil.mpr fun _ _ => rfl

theorem ReadsBackItems.cons {writtenRest : List Json} {as : List α}
    (first : ReadsBack read written a) (rest : ReadsBackItems read writtenRest as) :
    ReadsBackItems read (written :: writtenRest) (a :: as) := by
  refine allThinnedItems_cons.mpr ?_
  intro value thinned values others fuel enough
  simp only [depthItems, Nat.max_le] at enough
  simp [first value thinned fuel enough.1, rest values others fuel enough.2]

end

open Encode (node tagged)

section Expressions

variable {span : Span}

theorem constant_back (constant : Constant) :
    ReadsBack expr? (Encode.expr (.constant span constant)) (.constant span constant) := by
  simp [ReadsBack]
  refine .of_succ fun fuel _ => ?_
  cases constant <;> rfl

theorem string_back (content : String) :
    ReadsBack expr? (Encode.expr (.string span content)) (.string span content) := by
  simp [ReadsBack]
  exact .of_succ fun _ _ => rfl

theorem number_back (text : String) :
    ReadsBack expr? (Encode.expr (.number span text)) (.number span text) := by
  simp [ReadsBack]
  exact .of_succ fun _ _ => rfl

theorem ident_back (name : String) :
    ReadsBack expr? (Encode.expr (.ident span name)) (.ident span name) := by
  simp [ReadsBack]
  exact .of_succ fun _ _ => rfl

theorem exprWildcard_back (wanted : ExprWildcard) :
    ReadsBack expr? (Encode.expr (.wildcard span wanted)) (.wildcard span wanted) := by
  simp [ReadsBack]
  refine .of_succ fun fuel _ => ?_
  cases wanted <;> rfl

theorem unary_back (op : UnaryOp) {operand : Expr}
    (back : ReadsBack expr? (Encode.expr operand) operand) :
    ReadsBack expr? (Encode.expr (.unary span op operand)) (.unary span op operand) := by
  simp [ReadsBack]
  intro x part
  refine .of_succ fun fuel enough => ?_
  simp only [node, tagged, depth, depthMembers, depthMember] at enough
  change (do
    let op ← ofLabel? UnaryOp.all UnaryOp.label (.string op.label)
    return Expr.unary span op (← expr? fuel x)) = _
  rw [back x part fuel (by omega)]
  cases op <;> rfl

theorem expr?_binary (op : BinaryOp) (left right : Json) (fuel : Nat) :
    expr? (fuel + 1) (node span (Encode.binary op left right)) =
      (do return Expr.binary span op (← expr? fuel left) (← expr? fuel right)) := by
  rcases op with op | op | op | _
  case concat => rfl
  all_goals cases op <;> rfl

theorem depth_binary (span : Span) (op : BinaryOp) (left right : Json) :
    left.depth < (node span (Encode.binary op left right)).depth ∧
      right.depth < (node span (Encode.binary op left right)).depth := by
  cases op <;>
    simp only [node, tagged, Encode.binary, Encode.binary.operation, depth, depthMembers,
      depthMember] <;>
    omega

theorem binary_back (op : BinaryOp) {left right : Expr}
    (backLeft : ReadsBack expr? (Encode.expr left) left)
    (backRight : ReadsBack expr? (Encode.expr right) right) :
    ReadsBack expr? (Encode.expr (.binary span op left right)) (.binary span op left right) := by
  simp [ReadsBack]
  intro x inLeft y inRight
  refine .of_succ fun fuel enough => ?_
  have deeper := depth_binary span op x y
  rw [expr?_binary, backLeft x inLeft fuel (by omega), backRight y inRight fuel (by omega)]
  rfl

theorem index_back {object key : Expr} (backObject : ReadsBack expr? (Encode.expr object) object)
    (backKey : ReadsBack expr? (Encode.expr key) key) :
    ReadsBack expr? (Encode.expr (.index span object key)) (.index span object key) := by
  simp [ReadsBack]
  intro x inObject y inKey
  refine .of_succ fun fuel enough => ?_
  simp only [node, tagged, depth, depthMembers, depthMember] at enough
  change (do return Expr.index span (← expr? fuel x) (← expr? fuel y)) = _
  rw [backObject x inObject fuel (by omega), backKey y inKey fuel (by omega)]
  rfl

theorem table_back {fields : List Field}
    (back : ReadsBackItems field? (Encode.fieldItems fields) fields) :
    ReadsBack expr? (Encode.expr (.table span fields)) (.table span fields) := by
  simp [ReadsBack]
  intro xs parts
  refine .of_succ fun fuel enough => ?_
  simp only [node, tagged, depth, depthMembers, depthMember] at enough
  change (do return Expr.table span (← xs.mapM fun item => field? fuel item)) = _
  rw [back xs parts fuel (by omega)]
  rfl

theorem call_back (adjusted : Bool) {callee : Expr} {args : List Expr}
    (backCallee : ReadsBack expr? (Encode.expr callee) callee)
    (backArgs : ReadsBackItems expr? (Encode.exprItems args) args) :
    ReadsBack expr? (Encode.expr (.call span callee args adjusted))
      (.call span callee args adjusted) := by
  simp [ReadsBack, Encode.call]
  intro x inCallee xs inArgs
  refine .of_succ fun fuel enough => ?_
  simp only [node, tagged, depth, depthMembers, depthMember] at enough
  change (do
    let given ← xs.mapM fun item => expr? fuel item
    return Expr.call span (← expr? fuel x) given adjusted) = _
  rw [backArgs xs inArgs fuel (by omega), backCallee x inCallee fuel (by omega)]
  rfl

theorem methodCall_back (method : String) (adjusted : Bool) {receiver : Expr} {args : List Expr}
    (backReceiver : ReadsBack expr? (Encode.expr receiver) receiver)
    (backArgs : ReadsBackItems expr? (Encode.exprItems args) args) :
    ReadsBack expr? (Encode.expr (.methodCall span receiver method args adjusted))
      (.methodCall span receiver method args adjusted) := by
  simp [ReadsBack, Encode.call]
  intro x inReceiver xs inArgs
  refine .of_succ fun fuel enough => ?_
  simp only [node, tagged, depth, depthMembers, depthMember] at enough
  change (do
    let given ← xs.mapM fun item => expr? fuel item
    return Expr.methodCall span (← expr? fuel x) method given adjusted) = _
  rw [backArgs xs inArgs fuel (by omega), backReceiver x inReceiver fuel (by omega)]
  rfl

theorem function_back (params : Params) {body : Block}
    (back : ReadsBackItems stmt? (Encode.stmtItems body) body) :
    ReadsBack expr? (Encode.expr (.function span params body)) (.function span params body) := by
  simp [ReadsBack, Encode.function]
  intro xs parts
  refine .of_succ fun fuel enough => ?_
  simp only [node, tagged, depth, depthMembers, depthMember] at enough
  change (do
    let params ← params? (Encode.params params)
    let body ← xs.mapM fun item => stmt? fuel item
    return Expr.function span params body) = _
  rw [params?_params, back xs parts fuel (by omega)]
  rfl

theorem positional_back {content : Expr} (back : ReadsBack expr? (Encode.expr content) content) :
    ReadsBack field? (Encode.field (.positional content)) (.positional content) := by
  simp [ReadsBack]
  intro x part
  constructor <;>
  · refine .of_succ fun fuel enough => ?_
    simp only [depth, depthMembers, depthMember] at enough
    change (do return Field.positional (← expr? fuel x)) = _
    rw [back x part fuel (by omega)]
    rfl

theorem keyed_back {key content : Expr} (backKey : ReadsBack expr? (Encode.expr key) key)
    (backContent : ReadsBack expr? (Encode.expr content) content) :
    ReadsBack field? (Encode.field (.keyed key content)) (.keyed key content) := by
  simp [ReadsBack]
  intro x inKey y inContent
  refine .of_succ fun fuel enough => ?_
  obtain ⟨members, rfl⟩ := Encode.object_of_thinned inKey
  simp only [depth, depthMembers, depthMember] at enough
  have first := backKey _ inKey fuel (by rw [depth]; omega)
  have present : optional? (fun key => expr? fuel key)
      (.object [("key", .object members), ("value", y)]) "key" = some (some key) := by
    change (expr? fuel (.object members)).map some = _
    rw [first]
    rfl
  have other : Json.member? (.object [("key", .object members), ("value", y)]) "value" = some y :=
    rfl
  simp [field?, present, other, backContent y inContent fuel (by omega)]

end Expressions

section Statements

variable {span : Span}

theorem breakStmt_back : ReadsBack stmt? (Encode.stmt (.breakStmt span)) (.breakStmt span) := by
  simp [ReadsBack]
  exact .of_succ fun _ _ => rfl

theorem continueStmt_back :
    ReadsBack stmt? (Encode.stmt (.continueStmt span)) (.continueStmt span) := by
  simp [ReadsBack]
  exact .of_succ fun _ _ => rfl

theorem stmtWildcard_back (wanted : StmtWildcard) :
    ReadsBack stmt? (Encode.stmt (.wildcard span wanted)) (.wildcard span wanted) := by
  simp [ReadsBack]
  refine .of_succ fun fuel _ => ?_
  cases wanted <;> rfl

theorem assign_back {targets values : List Expr}
    (backTargets : ReadsBackItems expr? (Encode.exprItems targets) targets)
    (backValues : ReadsBackItems expr? (Encode.exprItems values) values) :
    ReadsBack stmt? (Encode.stmt (.assign span targets values)) (.assign span targets values) := by
  simp [ReadsBack]
  intro xs inTargets ys inValues
  refine .of_succ fun fuel enough => ?_
  simp only [node, tagged, depth, depthMembers, depthMember] at enough
  change (do
    return Stmt.assign span (← xs.mapM fun item => expr? fuel item)
      (← ys.mapM fun item => expr? fuel item)) = _
  rw [backTargets xs inTargets fuel (by omega), backValues ys inValues fuel (by omega)]
  rfl

theorem localVars_back (names : List Binder) {values : List Expr}
    (back : ReadsBackItems expr? (Encode.exprItems values) values) :
    ReadsBack stmt? (Encode.stmt (.localVars span names values))
      (.localVars span names values) := by
  simp [ReadsBack]
  intro xs parts
  refine .of_succ fun fuel enough => ?_
  simp only [node, tagged, depth, depthMembers, depthMember] at enough
  change (do
    return Stmt.localVars span (← binders? (Encode.binders names))
      (← xs.mapM fun item => expr? fuel item)) = _
  rw [binders?_binders, back xs parts fuel (by omega)]
  rfl

theorem callStmt_back {call : Expr} (back : ReadsBack expr? (Encode.expr call) call) :
    ReadsBack stmt? (Encode.stmt (.call span call)) (.call span call) := by
  simp [ReadsBack]
  intro x part
  refine .of_succ fun fuel enough => ?_
  simp only [node, tagged, depth, depthMembers, depthMember] at enough
  change (do return Stmt.call span (← expr? fuel x)) = _
  rw [back x part fuel (by omega)]
  rfl

theorem doBlock_back {body : Block} (back : ReadsBackItems stmt? (Encode.stmtItems body) body) :
    ReadsBack stmt? (Encode.stmt (.doBlock span body)) (.doBlock span body) := by
  simp [ReadsBack]
  intro xs parts
  refine .of_succ fun fuel enough => ?_
  simp only [node, tagged, depth, depthMembers, depthMember] at enough
  change (do return Stmt.doBlock span (← xs.mapM fun item => stmt? fuel item)) = _
  rw [back xs parts fuel (by omega)]
  rfl

theorem whileLoop_back {condition : Expr} {body : Block}
    (backCondition : ReadsBack expr? (Encode.expr condition) condition)
    (backBody : ReadsBackItems stmt? (Encode.stmtItems body) body) :
    ReadsBack stmt? (Encode.stmt (.whileLoop span condition body))
      (.whileLoop span condition body) := by
  simp [ReadsBack]
  intro x inCondition ys inBody
  refine .of_succ fun fuel enough => ?_
  simp only [node, tagged, depth, depthMembers, depthMember] at enough
  change (do
    return Stmt.whileLoop span (← expr? fuel x) (← ys.mapM fun item => stmt? fuel item)) = _
  rw [backCondition x inCondition fuel (by omega), backBody ys inBody fuel (by omega)]
  rfl

theorem repeatLoop_back {body : Block} {condition : Expr}
    (backBody : ReadsBackItems stmt? (Encode.stmtItems body) body)
    (backCondition : ReadsBack expr? (Encode.expr condition) condition) :
    ReadsBack stmt? (Encode.stmt (.repeatLoop span body condition))
      (.repeatLoop span body condition) := by
  simp [ReadsBack]
  intro xs inBody y inCondition
  refine .of_succ fun fuel enough => ?_
  simp only [node, tagged, depth, depthMembers, depthMember] at enough
  change (do
    return Stmt.repeatLoop span (← xs.mapM fun item => stmt? fuel item) (← expr? fuel y)) = _
  rw [backBody xs inBody fuel (by omega), backCondition y inCondition fuel (by omega)]
  rfl

theorem localFunction_back (name : String) (params : Params) {body : Block}
    (back : ReadsBackItems stmt? (Encode.stmtItems body) body) :
    ReadsBack stmt? (Encode.stmt (.localFunction span name params body))
      (.localFunction span name params body) := by
  simp [ReadsBack, Encode.function]
  intro xs parts
  refine .of_succ fun fuel enough => ?_
  simp only [node, tagged, depth, depthMembers, depthMember] at enough
  change (do
    let (params, body) ← (do
      return (← params? (Encode.params params), ← xs.mapM fun item => stmt? fuel item))
    return Stmt.localFunction span name params body) = _
  rw [params?_params, back xs parts fuel (by omega)]
  rfl

theorem functionStmt_back (method? : Option String) (params : Params) {target : Expr} {body : Block}
    (backTarget : ReadsBack expr? (Encode.expr target) target)
    (backBody : ReadsBackItems stmt? (Encode.stmtItems body) body) :
    ReadsBack stmt? (Encode.stmt (.function span target method? params body))
      (.function span target method? params body) := by
  cases method? with
  | none =>
    simp [ReadsBack, Encode.function]
    intro x inTarget ys inBody
    constructor <;>
    · refine .of_succ fun fuel enough => ?_
      simp only [node, tagged, depth, depthMembers, depthMember] at enough
      change (do
        let (params, body) ← (do
          return (← params? (Encode.params params), ← ys.mapM fun item => stmt? fuel item))
        return Stmt.function span (← expr? fuel x) none params body) = _
      rw [params?_params, backTarget x inTarget fuel (by omega), backBody ys inBody fuel (by omega)]
      rfl
  | some method =>
    simp [ReadsBack, Encode.function]
    intro x inTarget ys inBody
    refine .of_succ fun fuel enough => ?_
    simp only [node, tagged, depth, depthMembers, depthMember] at enough
    change (do
      let (params, body) ← (do
        return (← params? (Encode.params params), ← ys.mapM fun item => stmt? fuel item))
      return Stmt.function span (← expr? fuel x) (some method) params body) = _
    rw [params?_params, backTarget x inTarget fuel (by omega), backBody ys inBody fuel (by omega)]
    rfl

theorem returnStmt_back {values : List Expr}
    (back : ReadsBackItems expr? (Encode.exprItems values) values) :
    ReadsBack stmt? (Encode.stmt (.returnStmt span values)) (.returnStmt span values) := by
  simp [ReadsBack]
  intro xs parts
  refine .of_succ fun fuel enough => ?_
  simp only [node, tagged, depth, depthMembers, depthMember] at enough
  change (do return Stmt.returnStmt span (← xs.mapM fun item => expr? fuel item)) = _
  rw [back xs parts fuel (by omega)]
  rfl

theorem ifStmt_back {condition : Expr} {thenBody elseBody : Block}
    (backCondition : ReadsBack expr? (Encode.expr condition) condition)
    (backThen : ReadsBackItems stmt? (Encode.stmtItems thenBody) thenBody)
    (backElse : ReadsBackItems stmt? (Encode.stmtItems elseBody) elseBody) :
    ReadsBack stmt? (Encode.stmt (.ifStmt span condition thenBody elseBody))
      (.ifStmt span condition thenBody elseBody) := by
  simp [ReadsBack]
  intro x inCondition ys inThen zs inElse
  refine .of_succ fun fuel enough => ?_
  simp only [node, tagged, depth, depthMembers, depthMember] at enough
  change (do
    return Stmt.ifStmt span (← expr? fuel x) (← ys.mapM fun item => stmt? fuel item)
      (← zs.mapM fun item => stmt? fuel item)) = _
  rw [backCondition x inCondition fuel (by omega), backThen ys inThen fuel (by omega),
    backElse zs inElse fuel (by omega)]
  rfl

theorem steplessFor_back (var : String) {start limit : Expr} {body : Block}
    (backStart : ReadsBack expr? (Encode.expr start) start)
    (backLimit : ReadsBack expr? (Encode.expr limit) limit)
    (backBody : ReadsBackItems stmt? (Encode.stmtItems body) body) :
    ReadsBack stmt? (Encode.stmt (.numericFor span var start limit none body))
      (.numericFor span var start limit none body) := by
  simp [ReadsBack]
  intro x inStart y inLimit zs inBody
  constructor <;>
  · refine .of_succ fun fuel enough => ?_
    simp only [node, tagged, depth, depthMembers, depthMember] at enough
    change (do
      return Stmt.numericFor span var (← expr? fuel x) (← expr? fuel y) none
        (← zs.mapM fun item => stmt? fuel item)) = _
    rw [backStart x inStart fuel (by omega), backLimit y inLimit fuel (by omega),
      backBody zs inBody fuel (by omega)]
    rfl

theorem steppedFor_back (var : String) {start limit step : Expr} {body : Block}
    (backStart : ReadsBack expr? (Encode.expr start) start)
    (backLimit : ReadsBack expr? (Encode.expr limit) limit)
    (backStep : ReadsBack expr? (Encode.expr step) step)
    (backBody : ReadsBackItems stmt? (Encode.stmtItems body) body) :
    ReadsBack stmt? (Encode.stmt (.numericFor span var start limit (some step) body))
      (.numericFor span var start limit (some step) body) := by
  simp [ReadsBack]
  intro x inStart y inLimit z inStep ws inBody
  refine .of_succ fun fuel enough => ?_
  obtain ⟨members, rfl⟩ := Encode.object_of_thinned inStep
  simp only [node, tagged, depth, depthMembers, depthMember] at enough
  have third := backStep _ inStep fuel (by rw [depth]; omega)
  change (do
    return Stmt.numericFor span var (← expr? fuel x) (← expr? fuel y)
      (← (expr? fuel (.object members)).map some) (← ws.mapM fun item => stmt? fuel item)) = _
  rw [backStart x inStart fuel (by omega), backLimit y inLimit fuel (by omega), third,
    backBody ws inBody fuel (by omega)]
  rfl

theorem genericFor_back (names : List String) {exprs : List Expr} {body : Block}
    (backExprs : ReadsBackItems expr? (Encode.exprItems exprs) exprs)
    (backBody : ReadsBackItems stmt? (Encode.stmtItems body) body) :
    ReadsBack stmt? (Encode.stmt (.genericFor span names exprs body))
      (.genericFor span names exprs body) := by
  simp [ReadsBack]
  intro xs inExprs ys inBody
  refine .of_succ fun fuel enough => ?_
  simp only [node, tagged, depth, depthMembers, depthMember] at enough
  change (do
    return Stmt.genericFor span (← strings? (Encode.strings names))
      (← xs.mapM fun item => expr? fuel item) (← ys.mapM fun item => stmt? fuel item)) = _
  rw [strings?_strings, backExprs xs inExprs fuel (by omega), backBody ys inBody fuel (by omega)]
  rfl

end Statements

mutual
theorem expr_back : ∀ e : Expr, ReadsBack expr? (Encode.expr e) e
  | .constant _ value => constant_back value
  | .string _ value => string_back value
  | .number _ text => number_back text
  | .ident _ name => ident_back name
  | .unary _ op operand => unary_back op (expr_back operand)
  | .binary _ op left right => binary_back op (expr_back left) (expr_back right)
  | .index _ container key => index_back (expr_back container) (expr_back key)
  | .table _ fields => table_back (fieldItems_back fields)
  | .call _ callee args adjusted => call_back adjusted (expr_back callee) (exprItems_back args)
  | .methodCall _ receiver method args adjusted =>
      methodCall_back method adjusted (expr_back receiver) (exprItems_back args)
  | .function _ params body => function_back params (stmtItems_back body)
  | .wildcard _ wanted => exprWildcard_back wanted
termination_by structural e => e

theorem exprItems_back : ∀ es : List Expr, ReadsBackItems expr? (Encode.exprItems es) es
  | [] => .nil
  | e :: es => .cons (expr_back e) (exprItems_back es)
termination_by structural es => es

theorem field_back : ∀ f : Field, ReadsBack field? (Encode.field f) f
  | .positional value => positional_back (expr_back value)
  | .keyed key value => keyed_back (expr_back key) (expr_back value)
termination_by structural f => f

theorem fieldItems_back : ∀ fs : List Field, ReadsBackItems field? (Encode.fieldItems fs) fs
  | [] => .nil
  | f :: fs => .cons (field_back f) (fieldItems_back fs)
termination_by structural fs => fs

theorem stmt_back : ∀ s : Stmt, ReadsBack stmt? (Encode.stmt s) s
  | .assign _ targets values => assign_back (exprItems_back targets) (exprItems_back values)
  | .localVars _ names values => localVars_back names (exprItems_back values)
  | .call _ call => callStmt_back (expr_back call)
  | .doBlock _ body => doBlock_back (stmtItems_back body)
  | .whileLoop _ condition body => whileLoop_back (expr_back condition) (stmtItems_back body)
  | .repeatLoop _ body condition => repeatLoop_back (stmtItems_back body) (expr_back condition)
  | .localFunction _ name params body => localFunction_back name params (stmtItems_back body)
  | .function _ target method? params body =>
      functionStmt_back method? params (expr_back target) (stmtItems_back body)
  | .returnStmt _ values => returnStmt_back (exprItems_back values)
  | .ifStmt _ condition thenBody elseBody =>
      ifStmt_back (expr_back condition) (stmtItems_back thenBody) (stmtItems_back elseBody)
  | .breakStmt _ => breakStmt_back
  | .continueStmt _ => continueStmt_back
  | .numericFor _ var start limit none body =>
      steplessFor_back var (expr_back start) (expr_back limit) (stmtItems_back body)
  | .numericFor _ var start limit (some step) body =>
      steppedFor_back var (expr_back start) (expr_back limit) (expr_back step)
        (stmtItems_back body)
  | .genericFor _ names exprs body =>
      genericFor_back names (exprItems_back exprs) (stmtItems_back body)
  | .wildcard _ wanted => stmtWildcard_back wanted
termination_by structural s => s

theorem stmtItems_back : ∀ ss : List Stmt, ReadsBackItems stmt? (Encode.stmtItems ss) ss
  | [] => .nil
  | s :: ss => .cons (stmt_back s) (stmtItems_back ss)
termination_by structural ss => ss
end

end Decode

theorem Block.ofJson?_of_thinned (chunk : Block) {value : Json}
    (thinned : Thinned chunk.toJson value) : Block.ofJson? value = some chunk := by
  have each : ∀ ss : List Stmt,
      Decode.ReadsBackItems (fun _ => Stmt.ofJson?) (Encode.stmtItems ss) ss := by
    intro ss
    induction ss with
    | nil => exact .nil
    | cons s ss ih =>
      refine .cons (fun value thinned _ _ => ?_) ih
      exact Decode.stmt_back s value thinned value.depth (Nat.le_refl _)
  have all : AllThinned chunk.toJson fun value => Block.ofJson? value = some chunk := by
    refine allThinned_array.mpr ?_
    intro items parts
    exact each chunk items parts _ (Nat.le_refl _)
  exact all value thinned

theorem Block.toJson_injective {chunk other : Block} (same : chunk.toJson = other.toJson) :
    chunk = other := by
  have back := Block.ofJson?_of_thinned chunk (.refl _)
  rw [same, Block.ofJson?_of_thinned other (.refl _)] at back
  exact (Option.some.inj back).symm

/-- The JSON of a chunk is read as the chunk itself, whether its null members (the step of a loop,
    the method of a function, the key of a table item) are kept or left out, all of them or some. So
    no other chunk has the same JSON, nor the same text of it, on one line or on indented lines. -/
theorem Block.json_lossless (chunk : Block) :
    Block.ofJson? chunk.toJson = some chunk ∧
    (∀ value, Thinned chunk.toJson value → Block.ofJson? value = some chunk) ∧
    ∀ other : Block,
      chunk.toJson = other.toJson ∨ chunk.toJson.compress = other.toJson.compress ∨
        chunk.toJson.pretty = other.toJson.pretty → chunk = other := by
  refine ⟨ofJson?_of_thinned chunk (.refl _), fun _ => ofJson?_of_thinned chunk, ?_⟩
  rintro other (same | same | same)
  · exact toJson_injective same
  · exact toJson_injective (write_injective same)
  · exact toJson_injective (write_injective same)

/-- `for i = a, b do end`, written without a member for its step. -/
theorem Block.json_lossless_stepless :
    Block.ofJson? (.array [Encode.node ⟨0, 19⟩ (Encode.tagged "NumericFor" (.object [
      ("var", .string "i"), ("start", Encode.expr (.ident ⟨8, 9⟩ "a")),
      ("limit", Encode.expr (.ident ⟨11, 12⟩ "b")), ("body", .array [])]))]) =
    some [.numericFor ⟨0, 19⟩ "i" (.ident ⟨8, 9⟩ "a") (.ident ⟨11, 12⟩ "b") none []] := by
  refine (Block.json_lossless _).2.1 _ (.array (.cons (.object (.keep (.object (.keep (.object ?_)
    .nil)) (.keep (.refl _) .nil))) .nil))
  exact .keep (.refl _) (.keep (.refl _) (.keep (.refl _) (.leave (.keep (.refl _) .nil))))

end LuaSearch
