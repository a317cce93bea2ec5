import WireSchema.Proofs.FirstFinding

/-! What a compilation tells on its way, whoever listens. The remarks are those of one full trace,
which is known from the text alone; a log keeps of it what weighs enough, behind what it held, and
has no part in the outcome. -/
namespace WireSchema

/-- The first thing that is wrong, or the options that are replaced if nothing is. -/
def Document.ending (doc : Document) : List Diagnostic :=
  match doc.findings.head? with
  | some x => [⟨.error, some x.loc, x.offence.message⟩]
  | none => Schema.replacements doc.options

/-- All that is to be told of a text. -/
def fullTrace (text : String) : List Diagnostic :=
  match Document.ofText text with
  | .error e => [⟨.error, some e.loc, e.fault.message⟩]
  | .ok doc => .debug s!"parsed {doc.length} definitions" :: doc.progress ++ doc.ending

namespace Compilation

/-- What comes last is told by the first finding, as the passes stop there. -/
theorem lastRemarks_eq_ending (doc : Document) :
    doc.afterword ++ lastWord (ofDocument doc).outcome = doc.ending := by
  have hmeets := doc.passes_meets
  rw [ofDocument_outcome, Document.afterword, Document.ending]
  cases hpasses : doc.passes with
  | ok schema =>
    rw [hpasses] at hmeets
    have hnone : doc.findings = [] := hmeets
    rw [hnone]
    exact List.append_nil _
  | error v =>
    rw [hpasses] at hmeets
    obtain ⟨x, rest, hx, rfl⟩ := hmeets
    rw [hx]
    rfl

/-- All that is told of a text is what its findings and its options say. -/
theorem ofText_trace (text : String) :
    textTrace text ++ lastWord (ofText text).outcome = fullTrace text := by
  unfold textTrace ofText fullTrace
  cases Document.ofText text with
  | error e => rfl
  | ok doc =>
    simp only
    rw [List.append_assoc, lastRemarks_eq_ending]

end Compilation

/-! ## What weighs how much -/

theorem Document.level_counted {α : Type} {table : Except Violation (Table α)}
    {message : Nat → String} : ∀ d ∈ counted table message, d.level = .info := by
  intro d hd
  cases table with
  | error v => cases hd
  | ok t =>
    rw [List.mem_singleton.1 hd]
    rfl

theorem Document.level_progress (doc : Document) : ∀ d ∈ doc.progress, d.level = .info := by
  simp only [progress, List.forall_mem_append]
  exact ⟨⟨level_counted, level_counted⟩, level_counted⟩

theorem Schema.level_replacements (entries : List OptionDef) :
    ∀ d ∈ replacements entries, d.level = .warning := by
  intro d hd
  obtain ⟨e, -, he⟩ := List.mem_filterMap.1 hd
  obtain ⟨old, -, rfl⟩ := Option.map_eq_some_iff.1 he
  rfl

theorem Document.level_afterword (doc : Document) : ∀ d ∈ doc.afterword, d.level = .warning := by
  unfold afterword
  cases doc.passes with
  | error v => simp
  | ok schema => exact Schema.level_replacements doc.options

namespace Compilation
variable {text : String} {e : CompileError} {schema : Schema}

/-- Only the last word can be an error. -/
theorem level_textTrace (text : String) : ∀ d ∈ textTrace text, d.level ≠ .error := by
  unfold textTrace
  cases Document.ofText text with
  | error e => simp
  | ok doc =>
    simp only [List.forall_mem_append, List.forall_mem_cons]
    refine ⟨⟨by simp [Diagnostic.debug], fun d hd => ?_⟩, fun d hd => ?_⟩
    · simp [doc.level_progress d hd]
    · simp [doc.level_afterword d hd]

theorem fullTrace_of_error (h : (ofText text).outcome = .error e) : ∃ before,
    fullTrace text = before ++ [⟨.error, e.report.loc, e.report.message⟩] ∧
      ∀ d ∈ before, d.level ≠ .error := by
  refine ⟨textTrace text, ?_, level_textTrace text⟩
  rw [← ofText_trace, h]
  rfl

/-- A compilation that succeeds tells of no error. -/
theorem level_of_ok (h : (ofText text).outcome = .ok schema) :
    ∀ d ∈ fullTrace text, d.level ≠ .error := by
  rw [← ofText_trace, h, lastWord, List.append_nil]
  exact level_textTrace text

/-- Nothing is wrong with the document, so all three tables are produced: those of the schema. -/
theorem fullTrace_of_ok (h : (ofText text).outcome = .ok schema) :
    ∃ doc, Document.ofText text = .ok doc ∧
      fullTrace text = [.debug s!"parsed {doc.length} definitions",
        .info s!"{schema.constants.size} constants resolved",
        .info s!"{schema.structs.size} structs validated",
        .info s!"{schema.services.size} services validated"] ++
          Schema.replacements doc.options := by
  rw [← ofText_trace, h, lastWord, List.append_nil]
  unfold ofText at h
  unfold textTrace
  cases hdoc : Document.ofText text with
  | error e => rw [hdoc] at h; cases h
  | ok doc =>
    rw [hdoc] at h
    simp only at h ⊢
    refine ⟨doc, rfl, ?_⟩
    have hpasses : doc.passes = .ok schema := by
      rwa [ofDocument_outcome, mapError_eq_ok] at h
    obtain ⟨constants, drafts, structs, services, hc, hd, hs, hv, hm, rfl⟩ :=
      ofDocument_outcome_eq_ok.1 h
    have hstructs : doc.structTable = .ok structs := by
      simp only [Document.structTable, hc, hd, ok_bind, hs]
    have hservices : doc.serviceTable = .ok services := by
      simp only [Document.serviceTable, hc, hstructs, hv, hm, ok_bind, pure_eq_ok]
    rw [Document.progress, Document.afterword, hpasses, hc, hstructs, hservices]
    rfl

end Compilation

theorem entries_compile (text : String) (log : Log) : (compile text log).1.entries.toList =
    log.entries.toList ++ (fullTrace text).filter (log.level ≤ ·.level) := by
  rw [compile_eq, Log.entries_recordAll, Compilation.ofText_trace]

/-- An error weighs enough for any log. -/
theorem hasErrors_compile (text : String) (level : Level) :
    (compile text ⟨level, #[]⟩).1.hasErrors = true ↔ ∃ d ∈ fullTrace text, d.level = .error := by
  have herror : level ≤ .error := by cases level <;> decide
  rw [Log.hasErrors, ← Array.any_toList, entries_compile]
  simp only [List.nil_append, List.any_eq_true, List.mem_filter, decide_eq_true_eq]
  constructor
  · rintro ⟨d, ⟨hd, -⟩, he⟩
    exact ⟨d, hd, he⟩
  · rintro ⟨d, hd, he⟩
    exact ⟨d, ⟨hd, by rwa [he]⟩, he⟩

/-- The outcome does not depend on the log, and the log keeps what it held and adds what weighs
enough of the full trace. That ends with the error, if there is one, and has no other; without one
it tells the sizes of all tables and then of the options that were replaced. -/
theorem compile_recorded (text : String) (log : Log) :
    (∀ log', (compile text log').2 = (compile text log).2) ∧
    (compile text log).1.level = log.level ∧
    (compile text log).1.entries.toList =
      log.entries.toList ++ (fullTrace text).filter (log.level ≤ ·.level) ∧
    (∀ e, (compile text log).2 = .error e → ∃ before,
      fullTrace text = before ++ [⟨.error, e.report.loc, e.report.message⟩] ∧
        ∀ d ∈ before, d.level ≠ .error) ∧
    (∀ schema, (compile text log).2 = .ok schema → (∀ d ∈ fullTrace text, d.level ≠ .error) ∧
      ∃ doc, Document.ofText text = .ok doc ∧
        fullTrace text = [.debug s!"parsed {doc.length} definitions",
          .info s!"{schema.constants.size} constants resolved",
          .info s!"{schema.structs.size} structs validated",
          .info s!"{schema.services.size} services validated"] ++
            Schema.replacements doc.options) ∧
    ∀ level, (compile text ⟨level, #[]⟩).1.hasErrors = true ↔
      ∃ e, (compile text ⟨level, #[]⟩).2 = .error e := by
  have houtcome (log : Log) : (compile text log).2 = (Compilation.ofText text).outcome := by
    rw [compile_eq]
  refine ⟨fun log' => by rw [houtcome, houtcome], by rw [compile_eq, Log.recordAll_level],
    entries_compile text log, fun e h => ?_, fun schema h => ?_, fun level => ?_⟩
  · exact Compilation.fullTrace_of_error (by rwa [houtcome] at h)
  · rw [houtcome] at h
    exact ⟨Compilation.level_of_ok h, Compilation.fullTrace_of_ok h⟩
  rw [hasErrors_compile, houtcome]
  cases ho : (Compilation.ofText text).outcome with
  | error e =>
    obtain ⟨before, htrace, -⟩ := Compilation.fullTrace_of_error ho
    exact ⟨fun _ => ⟨e, rfl⟩, fun _ => ⟨_, by rw [htrace]; exact List.mem_concat_self, rfl⟩⟩
  | ok schema =>
    constructor
    · rintro ⟨d, hd, he⟩
      exact absurd he (Compilation.level_of_ok ho d hd)
    · rintro ⟨e, he⟩
      cases he

/-- The third pass refuses the document, so only the constants are counted. -/
theorem compile_recorded_refused :
    let text := "const n = 1\nstruct A { b: B }"
    let kept : Diagnostic := ⟨.warning, none, "kept"⟩
    let refusal : Diagnostic :=
      ⟨.error, some ⟨2, 12⟩, "error processing struct A, field b: undefined typename B"⟩
    (compile text ⟨.info, #[kept]⟩).1.entries.toList =
      [kept, .info "1 constants resolved", refusal] ∧
    ∃ e, (compile text ⟨.error, #[]⟩).2 = .error e := by
  intro text kept refusal
  obtain ⟨-, -, hentries, -, -, hfresh⟩ := compile_recorded text ⟨.info, #[kept]⟩
  have htrace : fullTrace text =
      [.debug "parsed 2 definitions", .info "1 constants resolved", refusal] := by
    decide +kernel
  refine ⟨by rw [hentries, htrace]; decide, (hfresh .error).1 ?_⟩
  rw [hasErrors_compile, htrace]
  decide

end WireSchema
