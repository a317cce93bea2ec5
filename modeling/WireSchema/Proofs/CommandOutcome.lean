import WireSchema.CommandLine
import WireSchema.Proofs.Overwriting
import WireSchema.Proofs.Retouching
import WireSchema.Proofs.SettingsText

/-! The exit code of a command and what it writes to the output. Both follow from what the library
makes of the files: what is logged, how much of it, and what is said about warnings and errors goes
elsewhere. So they do not depend on how talkative the command is, nor on what a text says only to
take it back. -/
namespace WireSchema

/-- The second text is the first one with other values for some options that are overwritten later
on: nothing is changed outside of strings and, if the text is a document, nothing else in it. -/
structure ValuesReplaced (text text' : String) : Prop where
  retouched : Retouched text.toList text'.toList
  overwritten : ∀ doc doc', Document.ofText text = .ok doc → Document.ofText text' = .ok doc' →
    doc.SameButOverwritten doc'

/-- The file holds the first text at first and the second one later. So does every other path that
leads to it, and all other files stay as they are. -/
structure Files.Edited (files files' : Files) (path text text' : String) : Prop where
  before : files.readText path = .ok text
  behind : files'.readText path = .ok text'
  isFile : ∀ other, files'.isFile other = files.isFile other
  others : ∀ other, files'.read other = files.read other ∨
    files.readText other = .ok text ∧ files'.readText other = .ok text'

namespace CommandLine
namespace Invocation

/-- The library does all that is asked for: it compiles the file and, for a plan, finds the
project's settings and makes the plan. -/
def Succeeds (i : Invocation) (files : Files) : Prop :=
  match i.action with
  | .compile | .check => ∃ schema, (compileFile files i.file {}).2 = .ok schema
  | .plan => ∃ schema config plan, (compileFile files i.file {}).2 = .ok schema ∧
      i.loadConfig files = .ok config ∧ Plan.ofSchema schema config = .ok plan

/-- The invocations are for the same thing in the same form. They may differ in how much is said
about it. -/
structure AsksSame (i i' : Invocation) : Prop where
  action : i.action = i'.action
  file : i.file = i'.file
  format : i.format = i'.format
  config : i.settings.config = i'.settings.config

/-- What is told of a schema; none if something fails on the way. -/
def answer? (i : Invocation) (files : Files) (schema : Schema) : Option String :=
  match i.action with
  | .compile => some (unlines [schema.json.sorted.pretty])
  | .check => some (unlines (i.checkLines schema))
  | .plan => do
    let config ← (i.loadConfig files).toOption
    let plan ← (Plan.ofSchema schema config).toOption
    return unlines [plan.json.sorted.pretty]

/-- What is written to the output; none if something fails on the way. -/
def output? (i : Invocation) (files : Files) : Option String :=
  (compileFile files i.file {}).2.toOption.bind (i.answer? files)

variable {i i' : Invocation} {files files' : Files}

theorem plan_exit_out (haction : i.action = .plan) (threshold : Threshold) (schema : Schema)
    (err : List String) :
    (i.plan files threshold schema err).exit =
        (if (i.answer? files schema).isSome then 0 else 1) ∧
      (i.plan files threshold schema err).out = (i.answer? files schema).getD "" := by
  simp only [plan, answer?, haction]
  cases hconfig : i.loadConfig files with
  | error e => exact ⟨rfl, rfl⟩
  | ok config => cases hplan : Plan.ofSchema schema config <;> simp [hplan, Except.toOption]

/-- What is logged and how much of it changes neither the code nor the output. -/
theorem run_exit_out (i : Invocation) (files : Files) (threshold : Threshold) :
    (i.run files threshold).exit = (if (i.output? files).isSome then 0 else 1) ∧
      (i.run files threshold).out = (i.output? files).getD "" := by
  have hlog (log : Log) : (compileFile files i.file log).2 = (compileFile files i.file {}).2 :=
    compileFile_snd files i.file log {}
  rw [run, output?]
  simp only [hlog]
  cases (compileFile files i.file {}).2 with
  | error e => exact ⟨rfl, rfl⟩
  | ok schema =>
    simp only [Except.toOption, Option.bind_some]
    cases haction : i.action with
    | compile => simp [answer?, haction]
    | check => simp [answer?, haction]
    | plan => exact plan_exit_out haction threshold schema _

theorem isSome_output?_iff (i : Invocation) (files : Files) :
    (i.output? files).isSome = true ↔ i.Succeeds files := by
  rw [output?, Succeeds]
  cases (compileFile files i.file {}).2 with
  | error e => cases i.action <;> simp [Except.toOption]
  | ok schema =>
    simp only [Except.toOption, Option.bind_some, answer?]
    cases i.action with
    | compile => simp
    | check => simp
    | plan =>
      cases i.loadConfig files with
      | error e => simp
      | ok config => cases hplan : Plan.ofSchema schema config <;> simp [hplan]

/-! ## How much is said -/

theorem AsksSame.loadConfig_eq (h : i.AsksSame i') (files : Files) :
    i.loadConfig files = i'.loadConfig files := by
  simp only [loadConfig, configPath?, projectName, h.file, h.config]

/-- Only the summary of a check is silenced. -/
theorem AsksSame.checkLines_eq (h : i.AsksSame i') (schema : Schema)
    (hquiet : i.format = .text → i.settings.quiet = i'.settings.quiet) :
    i.checkLines schema = i'.checkLines schema := by
  rw [checkLines, checkLines, ← h.file, ← h.format]
  cases hformat : i.format with
  | json => rfl
  | text => simp only [hquiet hformat]

theorem AsksSame.succeeds_iff (h : i.AsksSame i') : i.Succeeds files ↔ i'.Succeeds files := by
  rw [Succeeds, Succeeds, h.action, h.file, h.loadConfig_eq]

theorem AsksSame.output?_eq (h : i.AsksSame i')
    (hquiet : i.action = .check → i.format = .text → i.settings.quiet = i'.settings.quiet) :
    i.output? files = i'.output? files := by
  have hanswer (schema : Schema) : i.answer? files schema = i'.answer? files schema := by
    rw [answer?, answer?, ← h.action, h.loadConfig_eq]
    cases haction : i.action with
    | compile => rfl
    | check => simp only [h.checkLines_eq _ (hquiet haction)]
    | plan => rfl
  rw [output?, output?, ← h.file, funext hanswer]

/-- A quiet check in plain text has nothing to tell. -/
theorem output?_quiet (haction : i.action = .check) (hformat : i.format = .text)
    (hquiet : i.settings.quiet = true) : (i.output? files).getD "" = "" := by
  have hlines (schema : Schema) : i.checkLines schema = [] := by simp [checkLines, hformat, hquiet]
  rw [output?]
  cases (compileFile files i.file {}).2 with
  | error e => rfl
  | ok schema => simp [Except.toOption, answer?, haction, hlines, unlines]

/-! ## What is taken back -/

/-- A summary has nothing to do with places. -/
theorem checkLines_unplaced (i : Invocation) (schema : Schema) :
    i.checkLines schema.unplaced = i.checkLines schema := by
  have hservices : (schema.unplaced.services.toList.map fun s => dispatchLine s.1 s.2) =
      schema.services.toList.map fun s => dispatchLine s.1 s.2 := by
    simp only [Schema.unplaced, Table.toList_map, List.map_map, Function.comp_def,
      dispatchLine_unplaced]
  rw [checkLines, checkLines, Summary.ofSchema_unplaced, hservices]

theorem answer?_unplaced (i : Invocation) (files : Files) (schema : Schema) :
    i.answer? files schema.unplaced = i.answer? files schema := by
  simp only [answer?, Schema.json_unplaced, checkLines_unplaced, Plan.ofSchema_unplaced]

end Invocation
end CommandLine

namespace Files
variable {files files' : Files} {path text text' : String}

/-- A project's settings are read from another file, or else cannot be read. -/
theorem Edited.load_eq (h : files.Edited files' path text text') {doc doc' : Document}
    (hdoc : Document.ofText text = .ok doc) (hdoc' : Document.ofText text' = .ok doc')
    (other fallback : String) :
    ProjectConfig.load files' other fallback = ProjectConfig.load files other fallback := by
  rcases h.others other with heq | ⟨hold, hnew⟩
  · have htext : files'.readText other = files.readText other := by rw [readText, readText, heq]
    rw [ProjectConfig.load, ProjectConfig.load, htext]
  · rw [Document.load_of_document hold hdoc, Document.load_of_document hnew hdoc']

end Files

/-- Neither text compiles, or both do, and their schemas differ only in places. -/
theorem ValuesReplaced.outcomes {text text' : String} (h : ValuesReplaced text text') :
    ((∃ e, (compile text {}).2 = .error e) ∧
      ∃ e, (compile text' {}).2 = .error e) ∨
    ∃ schema schema', (compile text {}).2 = .ok schema ∧
      (compile text' {}).2 = .ok schema' ∧ schema.unplaced = schema'.unplaced := by
  have hiff := Document.exists_ofText_iff_of_retouched h.retouched
  cases hs : (compile text {}).2 with
  | ok schema =>
    obtain ⟨doc, hdoc, hw, rfl⟩ := compile_ok_iff.1 hs
    obtain ⟨doc', hdoc'⟩ := hiff.1 ⟨doc, hdoc⟩
    have hsame := h.overwritten doc doc' hdoc hdoc'
    have hs' : (compile text' {}).2 = .ok doc'.elaborate :=
      compile_ok_iff.2 ⟨doc', hdoc', hsame.wellFormed_iff.1 hw, rfl⟩
    exact .inr ⟨_, _, rfl, hs', hsame.unplaced_eq⟩
  | error e =>
    refine .inl ⟨⟨e, rfl⟩, ?_⟩
    cases hs' : (compile text' {}).2 with
    | error e' => exact ⟨e', rfl⟩
    | ok schema' =>
      obtain ⟨doc', hdoc', hw', rfl⟩ := compile_ok_iff.1 hs'
      obtain ⟨doc, hdoc⟩ := hiff.2 ⟨doc', hdoc'⟩
      have hsame := h.overwritten doc doc' hdoc hdoc'
      rw [compile_ok_iff.2 ⟨doc, hdoc, hsame.wellFormed_iff.2 hw', rfl⟩] at hs
      cases hs

namespace CommandLine.Invocation
variable {files files' : Files} {text text' : String}

theorem loadConfig_of_edited (i : Invocation) (h : files.Edited files' i.file text text')
    {doc doc' : Document} (hdoc : Document.ofText text = .ok doc)
    (hdoc' : Document.ofText text' = .ok doc') : i.loadConfig files' = i.loadConfig files := by
  simp only [loadConfig, configPath?, h.isFile, h.load_eq hdoc hdoc']

/-- What a text says only to take it back changes nothing. -/
theorem output?_of_edited (i : Invocation) (h : files.Edited files' i.file text text')
    (hvalues : ValuesReplaced text text') : i.output? files' = i.output? files := by
  rw [output?, output?, compileFile_of_read h.before, compileFile_of_read h.behind]
  rcases hvalues.outcomes with ⟨⟨e, he⟩, ⟨e', he'⟩⟩ | ⟨schema, schema', hs, hs', heq⟩
  · rw [he, he']
    rfl
  · obtain ⟨doc, hdoc, -⟩ := compile_ok_iff.1 hs
    obtain ⟨doc', hdoc', -⟩ := compile_ok_iff.1 hs'
    have hanswer : i.answer? files' schema' = i.answer? files schema' := by
      rw [answer?, answer?, i.loadConfig_of_edited h hdoc hdoc']
    rw [hs, hs']
    calc i.answer? files' schema' = i.answer? files schema' := hanswer
      _ = i.answer? files schema := by rw [← answer?_unplaced, ← heq, answer?_unplaced]

end CommandLine.Invocation

namespace CommandLine

theorem run_of_arguments {args : List String} {i : Invocation}
    (hargs : Request.ofArguments? args = some (.run i)) (files : Files) (logName : Option String) :
    (run files logName args).exit = (if (i.output? files).isSome then 0 else 1) ∧
      (run files logName args).out = (i.output? files).getD "" := by
  rw [run, hargs]
  exact i.run_exit_out files _

/-- The outcome of a command for a file. The exit code tells whether the library succeeds, and if it
does not, nothing is written to the output. Neither of them depends on what is logged or on how much
is said, but that a quiet check in plain text writes nothing; and neither changes with the value of
an option that is overwritten later. -/
theorem run_outcome (files : Files) (logName : Option String) (args : List String) (i : Invocation)
    (hargs : Request.ofArguments? args = some (.run i)) :
    ((run files logName args).exit = 0 ↔ i.Succeeds files) ∧
    ((run files logName args).exit = 1 ↔ ¬ i.Succeeds files) ∧
    ((run files logName args).exit = 1 → (run files logName args).out = "") ∧
    (∀ (logName' : Option String) (args' : List String) (i' : Invocation),
      Request.ofArguments? args' = some (.run i') → i.AsksSame i' →
      (run files logName' args').exit = (run files logName args).exit ∧
      ((i.action = .check → i.format = .text → i.settings.quiet = i'.settings.quiet) →
        (run files logName' args').out = (run files logName args).out)) ∧
    (i.action = .check → i.format = .text → i.settings.quiet = true →
      (run files logName args).out = "") ∧
    (∀ (files' : Files) (text text' : String), files.Edited files' i.file text text' →
      ValuesReplaced text text' →
      (run files' logName args).exit = (run files logName args).exit ∧
      (run files' logName args).out = (run files logName args).out) := by
  have hsucceeds := i.isSome_output?_iff files
  obtain ⟨hexit, hout⟩ := run_of_arguments hargs files logName
  rw [hexit, hout, ← hsucceeds]
  refine ⟨?_, ?_, ?_, ?_, ?_, ?_⟩
  · cases i.output? files <;> simp
  · cases i.output? files <;> simp
  · cases i.output? files <;> simp
  · intro logName' args' i' hargs' hsame
    obtain ⟨hexit', hout'⟩ := run_of_arguments hargs' files logName'
    have hsome : (i'.output? files).isSome = (i.output? files).isSome := by
      rw [Bool.eq_iff_iff, Invocation.isSome_output?_iff, hsucceeds, hsame.succeeds_iff]
    refine ⟨by rw [hexit', hsome], fun hquiet => ?_⟩
    rw [hout', hsame.output?_eq hquiet]
  · exact Invocation.output?_quiet
  · intro files' text text' hedited hvalues
    obtain ⟨hexit', hout'⟩ := run_of_arguments hargs files' logName
    rw [hexit', hout', i.output?_of_edited hedited hvalues]
    exact ⟨rfl, rfl⟩

/-- Another value for an option that is set again, in a plan that is made first with few words and
then with many. -/
theorem run_outcome_overwritten :
    let text := "options\x7ba=\"1\" a=\"2\"\x7d"
    let text' := "options\x7ba=\"\\\"\" a=\"2\"\x7d"
    let files (content : String) : Files :=
      { isFile := fun path => path = "s"
        read := fun path => if path = "s" then .ok content.toUTF8 else .error .notFound }
    let i : Invocation := ⟨.plan, "s", {}⟩
    let i' : Invocation := ⟨.plan, "s", { quiet := true, verbosity := 2 }⟩
    Request.ofArguments? ["plan", "s"] = some (.run i) ∧
    Request.ofArguments? ["-vv", "plan", "s", "--quiet"] = some (.run i') ∧ i.AsksSame i' ∧
    (files text).Edited (files text') "s" text text' ∧ ValuesReplaced text text' ∧
    i.Succeeds (files text) ∧ (run (files text) none ["plan", "s"]).exit = 0 ∧
    (run (files text) none ["-vv", "plan", "s", "--quiet"]).out =
      (run (files text) none ["plan", "s"]).out ∧
    (run (files text') none ["plan", "s"]).out = (run (files text) none ["plan", "s"]).out := by
  intro text text' files i i'
  have hargs : Request.ofArguments? ["plan", "s"] = some (.run i) := by decide +kernel
  have hargs' : Request.ofArguments? ["-vv", "plan", "s", "--quiet"] = some (.run i') := by
    decide +kernel
  have hsame : i.AsksSame i' := ⟨rfl, rfl, rfl, rfl⟩
  have hretouched : Retouched text.toList text'.toList := by
    have htext : text.toList = 'o' :: (['p', 't', 'i', 'o', 'n', 's'] ++ '\x7b' :: ([] ++ 'a' ::
        ([] ++ '=' :: ([] ++ '"' :: (['1'] ++ '"' :: " a=\"2\"\x7d".toList))))) := by
      decide +kernel
    have htext' : text'.toList = 'o' :: (['p', 't', 'i', 'o', 'n', 's'] ++ '\x7b' :: ([] ++ 'a' ::
        ([] ++ '=' :: ([] ++ '"' :: (['\\', '"'] ++ '"' :: " a=\"2\"\x7d".toList))))) := by
      decide +kernel
    rw [htext, htext']
    refine .token (t := .word "options") (by decide) (by decide) (by decide +kernel) ?_
    refine .token (t := .punct .openBrace) (by decide) (by decide) (by decide +kernel) ?_
    refine .token (t := .word "a") (by decide) (by decide) (by decide +kernel) ?_
    refine .token (t := .punct .equals) (by decide) (by decide) (by decide +kernel) ?_
    exact .string (.plain (by decide) (by decide) (by decide) .nil)
      (.escape (d := '"') (by decide) .nil) (.refl _)
  have hedited : (files text).Edited (files text') "s" text text' := by
    have hbefore : (files text).readText "s" = .ok text := by decide +kernel
    have hbehind : (files text').readText "s" = .ok text' := by decide +kernel
    refine ⟨hbefore, hbehind, fun other => rfl, fun other => ?_⟩
    by_cases hother : other = "s"
    · exact .inr (hother ▸ ⟨hbefore, hbehind⟩)
    · exact .inl (by simp [files, hother])
  have hvalues : ValuesReplaced text text' := by
    have hdoc : Document.ofText text =
        .ok [.options [⟨"a", "1", ⟨1, 9⟩⟩, ⟨"a", "2", ⟨1, 15⟩⟩] ⟨1, 1⟩] := by decide +kernel
    have hdoc' : Document.ofText text' =
        .ok [.options [⟨"a", "\"", ⟨1, 9⟩⟩, ⟨"a", "2", ⟨1, 16⟩⟩] ⟨1, 1⟩] := by decide +kernel
    refine ⟨hretouched, ?_⟩
    rintro doc doc' h h'
    rw [hdoc] at h
    rw [hdoc'] at h'
    cases h
    cases h'
    exact ⟨rfl, .overwritten rfl ⟨_, List.mem_cons_self, rfl⟩ (.kept rfl rfl .nil)⟩
  have hexit : (run (files text) none ["plan", "s"]).exit = 0 := by decide +kernel
  obtain ⟨hsucceeds, -, -, hsaid, -, hchanged⟩ := run_outcome (files text) none _ i hargs
  exact ⟨hargs, hargs', hsame, hedited, hvalues, hsucceeds.1 hexit, hexit,
    (hsaid none _ i' hargs' hsame).2 (by decide), (hchanged _ _ _ hedited hvalues).2⟩

end CommandLine
end WireSchema
