import LuaSearch.Cli.Run

/-!
A search over many paths is the searches over each of them, put together in order. Outputs form a
monoid: texts and diagnostics are strung together, and of the statuses the graver one counts. What
fails says nothing on the output, so that it takes nothing from the report on any other file.
-/
namespace LuaSearch.Cli

namespace Status

def join : Status → Status → Status
  | failed, _ | _, failed => failed
  | matched, _ | _, matched => matched
  | unmatched, unmatched => unmatched

@[simp] theorem unmatched_join (a : Status) : unmatched.join a = a := by cases a <;> rfl

@[simp] theorem join_unmatched (a : Status) : a.join unmatched = a := by cases a <;> rfl

@[simp] theorem failed_join (a : Status) : failed.join a = failed := by cases a <;> rfl

@[simp] theorem join_failed (a : Status) : a.join failed = failed := by cases a <;> rfl

theorem join_assoc (a b c : Status) : (a.join b).join c = a.join (b.join c) := by
  cases a <;> cases b <;> cases c <;> rfl

theorem exitCode_join (a b : Status) :
    (a.join b).exitCode =
      if a.exitCode = 2 ∨ b.exitCode = 2 then 2
      else if a.exitCode = 0 ∨ b.exitCode = 0 then 0 else 1 := by
  cases a <;> cases b <;> rfl

end Status

namespace Output

def empty : Output := ⟨.unmatched, "", []⟩

def append (a b : Output) : Output :=
  ⟨a.status.join b.status, a.stdout ++ b.stdout, a.diagnostics ++ b.diagnostics⟩

@[simp] theorem empty_append (a : Output) : empty.append a = a := by simp [append, empty]

@[simp] theorem append_empty (a : Output) : a.append empty = a := by simp [append, empty]

theorem silent_append_comm (a : Output) :
    append ⟨.failed, "", []⟩ a = a.append ⟨.failed, "", []⟩ := by
  simp [append]

theorem append_assoc (a b c : Output) : (a.append b).append c = a.append (b.append c) := by
  simp [append, Status.join_assoc, String.append_assoc]

def concat (outputs : List Output) : Output := outputs.foldr append empty

@[simp] theorem concat_nil : concat [] = empty := rfl

@[simp] theorem concat_cons (a : Output) (outputs : List Output) :
    concat (a :: outputs) = a.append (concat outputs) := rfl

theorem concat_append (outputs others : List Output) :
    concat (outputs ++ others) = (concat outputs).append (concat others) := by
  induction outputs with
  | nil => simp
  | cons a outputs ih => simp [ih, append_assoc]

theorem concat_flatMap {α : Type} (items : List α) (outputs : α → List Output) :
    concat (items.flatMap outputs) = concat (items.map fun a => concat (outputs a)) := by
  induction items with
  | nil => rfl
  | cons a items ih => simp [concat_append, ih]

theorem concat_stdout (outputs : List Output) :
    (concat outputs).stdout = String.join (outputs.map stdout) := by
  induction outputs with
  | nil => rfl
  | cons a outputs ih => simp [append, ih]

def line (text : String) : Output := ⟨.unmatched, text ++ "\n", []⟩

theorem lines_eq_concat (texts : List String) :
    .lines texts = append ⟨.matched, "", []⟩ (concat (texts.map line)) := by
  have whole : concat (texts.map line) = ⟨.unmatched, String.join (texts.map (· ++ "\n")), []⟩ := by
    induction texts with
    | nil => rfl
    | cons text texts ih => simp [ih, append, line]
  rw [whole]
  simp [lines, append, String.join, List.foldl_map, String.append_assoc, Status.join]

def Silent (a : Output) : Prop := a.status = .failed → a.stdout = ""

theorem join_map_filter {outputs : List Output} (silent : ∀ a ∈ outputs, a.Silent) :
    String.join ((outputs.filter (·.status ≠ .failed)).map stdout) =
      String.join (outputs.map stdout) := by
  induction outputs with
  | nil => rfl
  | cons a outputs ih =>
    have rest := ih fun b mem => silent b (List.mem_cons_of_mem a mem)
    by_cases failed : a.status = .failed
    · simpa [failed, silent a List.mem_cons_self failed] using rest
    · simpa [failed] using rest

end Output

def searchText (path source : String) (chunk : Block) (template : Template) (options : Options)
    (json : Bool) : Output :=
  match find chunk template options with
  | .error e => .failed (.line s!"{path}: {e.message}")
  | .ok found =>
      if found.verdict.isMatch then
        let report := FileReport.of path source
          (anchor? chunk template options found.verdict) found
        .lines (if json then [report.toJson.compress] else report.lines)
      else .empty

def searchFile (template : Template) (options : Options) (json : Bool) (path : String)
    (found : Except ReadError Node) : Output :=
  match readAndParse path found with
  | .error diagnostic => .failed diagnostic
  | .ok (source, chunk) => searchText path source chunk template options json

def searchEntry (template : Template) (options : Options) (json : Bool) : Entry → Output
  | .file path found => searchFile template options json path found
  | .unwalked => ⟨.failed, "", []⟩

theorem silent_searchText (path source : String) (chunk : Block) (template : Template)
    (options : Options) (json : Bool) :
    (searchText path source chunk template options json).Silent := by
  unfold searchText
  split
  · exact fun _ => rfl
  · split <;> exact nofun

theorem silent_searchEntry (template : Template) (options : Options) (json : Bool) (entry : Entry) :
    (searchEntry template options json entry).Silent := by
  cases entry with
  | unwalked => exact fun _ => rfl
  | file path found =>
    simp only [searchEntry, searchFile]
    split
    · exact fun _ => rfl
    · exact silent_searchText _ _ _ _ _ _

namespace Progress

theorem output_fail (p : Progress) (said : List Diagnostic) :
    (p.fail said).output = p.output.append ⟨.failed, "", said⟩ := by
  simp [output, fail, Output.append]

theorem output_print (p : Progress) (text : String) :
    (p.print text).output = p.output.append (.line text) := by
  simp [output, print, Output.append, Output.line, String.append_assoc]

theorem output_matched (p : Progress) :
    { p with matched := true }.output = p.output.append ⟨.matched, "", []⟩ := by
  rcases p with ⟨_ | _, _ | _, stdout, diagnostics⟩ <;> simp [output, Output.append, Status.join]

/-- A loop that is never broken off puts the outputs of its rounds together. -/
theorem out_forIn {α β : Type} (out : β → Progress → Output) (one : α → Output)
    {body : α → β → StateM Progress (ForInStep β)}
    (round : ∀ a b p, ∃ b' p', (body a b).run p = (.yield b', p') ∧
      out b' p' = (out b p).append (one a)) (items : List α) (b : β) (p : Progress) :
    let after := (forIn items b body).run p
    out after.1 after.2 = (out b p).append (.concat (items.map one)) := by
  induction items generalizing b p with
  | nil => exact (Output.append_empty _).symm
  | cons a items ih =>
    obtain ⟨b', p', ran, first⟩ := round a b p
    have later := ih b' p'
    rw [first, Output.append_assoc] at later
    rw [List.forIn_cons, StateT.run_bind, ran]
    exact later

theorem output_forIn_print (texts : List String) (p : Progress) :
    let printing : StateM Progress PUnit := do
      for text in texts do
        modify (·.print text)
    (printing.run p).2.output = p.output.append (.concat (texts.map .line)) := by
  refine out_forIn (fun _ p => p.output) Output.line ?_ texts PUnit.unit p
  rintro text ⟨⟩ p
  exact ⟨⟨⟩, p.print text, rfl, p.output_print text⟩

end Progress

section

variable (disk : Disk) (template : Template) (options : Options) (json : Bool)

theorem output_searchFiles (files : Array (String × Except ReadError Node)) (p : Progress) :
    ((searchFiles template options json files).run p).2.output = p.output.append
      (.concat (files.toList.map fun (path, found) =>
        searchFile template options json path found)) := by
  unfold searchFiles
  rw [← Array.forIn_toList]
  refine Progress.out_forIn (fun _ p => p.output)
    (fun (path, found) => searchFile template options json path found) ?_ files.toList PUnit.unit p
  rintro ⟨path, found⟩ ⟨⟩ p
  simp only [searchFile]
  cases readAndParse path found with
  | error diagnostic => exact ⟨⟨⟩, _, rfl, p.output_fail _⟩
  | ok read =>
    simp only [searchText]
    cases find read.2 template options with
    | error e => exact ⟨⟨⟩, _, rfl, p.output_fail _⟩
    | ok found =>
      by_cases hit : found.verdict.isMatch
      · simp only [hit, Bool.not_true, Bool.false_eq_true, if_false, if_true]
        rw [Output.lines_eq_concat, ← Output.append_assoc, ← Progress.output_matched]
        cases json with
        | true =>
          refine ⟨⟨⟩, _, rfl, ?_⟩
          simpa using Progress.output_print { p with matched := true } _
        | false => exact ⟨⟨⟩, _, rfl, Progress.output_forIn_print _ _⟩
      · simp only [hit]
        exact ⟨⟨⟩, p, rfl, (Output.append_empty _).symm⟩

def outputs (paths : List String) : List Output :=
  (paths.flatMap (expand disk)).map (searchEntry template options json)

def collected (files : Array (String × Except ReadError Node)) (p : Progress) : Output :=
  p.output.append (.concat (files.toList.map fun (path, found) =>
    searchFile template options json path found))

/-- A walk that fails is recorded before any file is searched, but says nothing, so the output is as
    if that came in its turn. -/
theorem collected_collectFiles (paths : List String) (p : Progress) :
    let after := (collectFiles disk paths).run p
    collected template options json after.1 after.2 =
      p.output.append (.concat (outputs disk template options json paths)) := by
  have start : p.output = collected template options json #[] p := (Output.append_empty _).symm
  rw [start, outputs, List.map_flatMap, Output.concat_flatMap]
  refine Progress.out_forIn (collected template options json)
    (fun path => .concat ((expand disk path).map (searchEntry template options json))) ?_ paths #[] p
  intro path files p
  refine ⟨_, _, rfl, ?_⟩
  refine Progress.out_forIn (collected template options json) (searchEntry template options json)
    ?_ (expand disk path) files p
  rintro (⟨path, found⟩ | _) files p
  · refine ⟨_, _, rfl, ?_⟩
    simp [collected, searchEntry, Output.concat_append, Output.append_assoc]
  · refine ⟨_, _, rfl, ?_⟩
    simp only [collected, searchEntry, Progress.output_fail, Output.append_assoc,
      Output.silent_append_comm]

theorem searchPaths_eq_concat (paths : List String) :
    searchPaths disk template options json paths =
      Output.concat (outputs disk template options json paths) := by
  have searched := output_searchFiles template options json
  have whole := collected_collectFiles disk template options json paths .start
  simp only [searchPaths, StateT.run_bind]
  exact (searched _ _).trans (whole.trans (Output.empty_append _))

theorem searchPaths_append (paths others : List String) :
    searchPaths disk template options json (paths ++ others) =
      (searchPaths disk template options json paths).append
        (searchPaths disk template options json others) := by
  simp only [searchPaths_eq_concat, outputs, List.flatMap_append, List.map_append,
    Output.concat_append]

end

theorem run_search_append (disk : Disk) (given : TemplateSource) (json : Bool) (options : Options)
    (paths others : List String) :
    let out (paths : List String) := (Command.search paths given json options).run disk
    (out (paths ++ others)).stdout = (out paths).stdout ++ (out others).stdout ∧
    (out (paths ++ others)).status = (out paths).status.join (out others).status := by
  simp only [Command.run]
  split
  · exact ⟨rfl, rfl⟩
  · rw [searchPaths_append]
    exact ⟨rfl, rfl⟩

/-- Searching many files is searching each file. The output on two lists of paths is the output on
    the one and then on the other; the exit status is two if either has two, else zero if either
    has zero, else one. With a template to search for, the output is what each file gives on its
    own, in order, and the files that fail can be left out of it. -/
theorem search_each_file (disk : Disk) (given : TemplateSource) (json : Bool) (options : Options)
    (paths others : List String) :
    let out (paths : List String) := (Command.search paths given json options).run disk
    (out (paths ++ others)).stdout = (out paths).stdout ++ (out others).stdout ∧
    (out (paths ++ others)).status.exitCode =
      (if (out paths).status.exitCode = 2 ∨ (out others).status.exitCode = 2 then 2
      else if (out paths).status.exitCode = 0 ∨ (out others).status.exitCode = 0 then 0 else 1) ∧
    ∀ template, loadTemplate disk given = .ok template →
      let alone := (paths.flatMap (expand disk)).map (searchEntry template options json)
      (out paths).stdout = String.join (alone.map Output.stdout) ∧
      (out paths).stdout = String.join ((alone.filter (·.status ≠ .failed)).map Output.stdout) := by
  intro out
  obtain ⟨text, status⟩ := run_search_append disk given json options paths others
  refine ⟨text, ?_, ?_⟩
  · rw [← Status.exitCode_join]
    exact congrArg Status.exitCode status
  · intro template loaded alone
    have whole : (out paths).stdout = String.join (alone.map Output.stdout) := by
      simp only [out, Command.run, loaded, searchPaths_eq_concat]
      exact Output.concat_stdout _
    refine ⟨whole, ?_⟩
    rw [whole, Output.join_map_filter]
    intro output mem
    obtain ⟨entry, -, rfl⟩ := List.mem_map.mp mem
    exact silent_searchEntry template options json entry

/-- A file that is not there before one that holds the match, and another one that holds it. -/
theorem search_each_file_missing :
    let disk : Disk := fun path =>
      if path = "a.lua" then .ok (.file "local x\nf()".toUTF8)
      else if path = "c.lua" then .ok (.file "f()".toUTF8) else .error .notFound
    let out (paths : List String) := (Command.search paths (.text "f()") false default).run disk
    (∃ template, loadTemplate disk (.text "f()") = .ok template ∧
      (out ["b.lua", "a.lua"]).stdout = String.join
        [(searchFile template default false "b.lua" (disk "b.lua")).stdout,
          (searchFile template default false "a.lua" (disk "a.lua")).stdout]) ∧
    (out ["b.lua", "a.lua"]).stdout = "a.lua:2:1: statements 2..2\n" ∧
    (out ["b.lua", "a.lua"]).status.exitCode = 2 ∧
    (out ["c.lua"]).stdout = "c.lua:1:1: statements 1..1\n" ∧
    (out ["c.lua"]).status.exitCode = 0 ∧
    (out ["b.lua", "a.lua", "c.lua"]).stdout =
      "a.lua:2:1: statements 2..2\nc.lua:1:1: statements 1..1\n" ∧
    (out ["b.lua", "a.lua", "c.lua"]).status.exitCode = 2 := by
  intro disk out
  obtain ⟨text, code, alone⟩ :=
    search_each_file disk (.text "f()") false default ["b.lua", "a.lua"] ["c.lua"]
  have first : (out ["b.lua", "a.lua"]).stdout = "a.lua:2:1: statements 2..2\n" := by
    decide +kernel
  have missing : (out ["b.lua", "a.lua"]).status.exitCode = 2 := by decide +kernel
  have second : (out ["c.lua"]).stdout = "c.lua:1:1: statements 1..1\n" := by decide +kernel
  have found : (out ["c.lua"]).status.exitCode = 0 := by decide +kernel
  have loads : (loadTemplate disk (.text "f()")).isOk := by decide +kernel
  cases loaded : loadTemplate disk (.text "f()") with
  | error e =>
    rw [loaded] at loads
    cases loads
  | ok template =>
    refine ⟨⟨template, rfl, (alone template loaded).1⟩, first, missing, second, found, ?_, ?_⟩
    · refine text.trans ?_
      change (out ["b.lua", "a.lua"]).stdout ++ (out ["c.lua"]).stdout = _
      rw [first, second]
      rfl
    · exact code.trans (if_pos (.inl missing))

end LuaSearch.Cli
