/-
What can end a run over a report. The analyzer does, if it exits with a code other than zero or its
output is neither blank nor a JSON array of messages. A message whose file cannot be read becomes an
error of its own, and to all other files the run does what it does without this message. Two things
end a run that should not: an overlong number in the output, and a reported file that cannot be loaded
for a reason that lies with its name, with the name of the encoding, with a missing byte order mark or
with a codec that fails in a way of its own.
-/
import Amend.Proofs.Report.Naming

namespace Amend.Report

/-! ## Outputs -/

/-- No escape of the output stands for half of a pair alone, so that all texts in it are of characters. -/
def IsWhole (output : String) : Prop :=
  Json.hasLoneHalf 0 output.toList = false

instance (output : String) : Decidable (IsWhole output) :=
  inferInstanceAs (Decidable (_ = false))

/-- The output is a report of messages: it is blank and there are none, or it is a JSON array of them. -/
inductive IsReport (output : String) : List Message → Prop
  | blank (hb : Text.isBlankText output = true) : IsReport output []
  | array (hb : Text.isBlankText output = false) (json : Json) (hj : Json.read output = .ok json)
      (messages : List Message) (hm : Shape.list message (Tree.ofJson json) = .valid messages) :
      IsReport output messages

/-- The output is neither blank nor a JSON array of messages. -/
inductive IsMalformed (output : String) : Prop
  | notJson (hb : Text.isBlankText output = false) (misfit : Json.Misfit)
      (hj : Json.read output = .error (.notJson misfit))
  | badShape (hb : Text.isBlankText output = false) (json : Json) (hj : Json.read output = .ok json)
      (issues : List Shape.Issue) (hs : Shape.list message (Tree.ofJson json) = .invalid issues)

/-- The output is not blank and has a number with more digits than are read. -/
def IsOverlong (output : String) : Prop :=
  Text.isBlankText output = false ∧ ∃ digits, Json.read output = .error (.longNumber digits)

theorem parse_ok_iff (output : String) (messages : List Message) :
    parse output = .ok messages ↔ IsReport output messages := by
  constructor
  · intro h
    unfold parse at h
    split at h
    · cases h
      exact .blank ‹_›
    · rename_i hb
      rw [Bool.not_eq_true] at hb
      split at h
      · cases h
      · cases h
      · split at h
        · cases h
          exact .array hb _ ‹_› messages ‹_›
        · cases h
  · intro h
    unfold parse
    cases h with
    | blank hb => rw [if_pos hb]
    | array hb json hj _ hm =>
      rw [if_neg (by rw [hb]; decide), hj]
      simp only [hm]

theorem parse_unreadable_iff (output : String) :
    (∃ fault, parse output = .error (.unreadable fault)) ↔ IsMalformed output := by
  constructor
  · rintro ⟨fault, h⟩
    unfold parse at h
    split at h
    · cases h
    · rename_i hb
      rw [Bool.not_eq_true] at hb
      split at h
      · exact .notJson hb _ ‹_›
      · cases h
      · split at h
        · cases h
        · exact .badShape hb _ ‹_› _ ‹_›
  · intro h
    unfold parse
    cases h with
    | notJson hb misfit hj =>
      rw [if_neg (by rw [hb]; decide), hj]
      exact ⟨_, rfl⟩
    | badShape hb json hj issues hs =>
      rw [if_neg (by rw [hb]; decide), hj]
      simp only [hs]
      exact ⟨_, rfl⟩

theorem parse_overlong_iff (output : String) :
    (∃ digits, parse output = .error (.longNumber digits)) ↔ IsOverlong output := by
  unfold parse IsOverlong
  cases hb : Text.isBlankText output with
  | true => simp
  | false =>
    rcases hj : Json.read output with (misfit | digits) | json
    · simp
    · simp
    · rcases hs : Shape.list message (Tree.ofJson json) with messages | issues <;> simp [hs]

/-! ## Messages -/

/-- The message names a file that can be read. -/
def Message.isHoused (root : FilePath) (ws : Workspace) (m : Message) : Bool :=
  (m.source root ws).isSome

/-- The message names a file that cannot be loaded, and not because the file cannot be read: its name
or that of the encoding has a zero character, there is no such encoding, a byte order mark is missing, or the
codec fails in a way of its own. -/
def Message.Baffles (root : FilePath) (ws : Workspace) (m : Message) : Prop :=
  ∃ filename fault, nonEmpty m.filename = some filename ∧
    (ws.load (relativePath ws.tree.cwd root filename)).1 = .error fault ∧
    (fault = .file .zeroByte ∨ fault = .zeroInEncoding ∨ (∃ name, fault = .unknownEncoding name) ∨ fault = .unmarked ∨
      ∃ own, fault = .broken own)

theorem not_isUnreadable_iff (fault : LoadFault) : fault.isUnreadable = false ↔
    fault = .file .zeroByte ∨ fault = .zeroInEncoding ∨ (∃ name, fault = .unknownEncoding name) ∨ fault = .unmarked ∨
      ∃ own, fault = .broken own := by
  rcases fault with (⟨_, _⟩ | _) | _ | name | _ | _ | own <;> simp [LoadFault.isUnreadable]

section Messages

variable {root : FilePath} {ws : Workspace} {m : Message} (settings : Settings)

theorem convert_error_iff :
    (∃ fault, (convert settings root ws m).1 = .error fault) ↔ m.Baffles root ws := by
  unfold Message.Baffles
  rcases hf : nonEmpty m.filename with _ | filename
  · simp [convert_unnamed hf]
  · simp only [convert_named hf, ← not_isUnreadable_iff, Option.some.injEq]
    rcases hl : (ws.load (relativePath ws.tree.cwd root filename)).1 with fault | document
    · by_cases hu : fault.isUnreadable = true
      · simp [hl, hu]
      · simp [hl, hu]
    · simp [hl]

theorem load_of_error {path : String} {fault : LoadFault} (h : (ws.load path).1 = .error fault) :
    (ws.load path).2 = ws := by
  unfold Workspace.load at h ⊢
  rcases ws.loader.load_cases ws.tree path with ⟨_, -, hl⟩ | ⟨_, -, -, hl⟩ | ⟨_, -, -, hl⟩
  · rw [hl] at h; cases h
  · rw [hl] at h; cases h
  · rw [hl]

/-- A message without a file that can be read leaves the workspace as it was. -/
theorem convert_homeless (hh : m.isHoused root ws = false) (hb : ¬ m.Baffles root ws) :
    ∃ journal, convert settings root ws m = (.ok ⟨some (homeless m), none, journal⟩, ws) := by
  rcases hf : nonEmpty m.filename with _ | filename
  · exact ⟨[], convert_unnamed hf⟩
  rcases hl : (ws.load (relativePath ws.tree.cwd root filename)).1 with fault | document
  · have hu : fault.isUnreadable = true := by
      by_contra hu
      exact hb ⟨filename, fault, hf, hl, (not_isUnreadable_iff fault).1 (by simpa using hu)⟩
    rw [convert_named hf, hl, load_of_error hl]
    simp only [hu, if_true]
    exact ⟨_, rfl⟩
  · simp [Message.isHoused, Message.source, hf, hl, Except.toOption] at hh

/-- A finding has a file exactly if its message names one that can be read. -/
theorem file?_finding {d : Diagnostic} (h : m.finding root ws = some d) : d.file?.isSome = m.isHoused root ws := by
  unfold Message.finding at h
  unfold Message.isHoused
  rcases hs : m.source root ws with _ | ⟨path, document⟩
  · rw [hs] at h
    cases h
    rfl
  · rw [hs] at h
    obtain ⟨range, -, rfl⟩ := Option.map_eq_some_iff.1 h
    have hpath : path ≠ "" := by
      unfold Message.source at hs
      obtain ⟨filename, -, hs⟩ := Option.bind_eq_some_iff.1 hs
      obtain ⟨document, -, hpair⟩ := Option.map_eq_some_iff.1 hs
      cases hpair
      exact relativePath_ne_empty _ _ _
    simp [Diagnostic.file?, hpath]

theorem finding_of_homeless (h : m.isHoused root ws = false) : m.finding root ws = some (homeless m) := by
  unfold Message.isHoused at h
  unfold Message.finding
  rw [Option.isSome_eq_false_iff, Option.isNone_iff_eq_none] at h
  rw [h]

/-- What is known of a message does not depend on what was converted before. -/
theorem source_convert (m n : Message) : n.source root (convert settings root ws m).2 = n.source root ws := by
  obtain ⟨htree, hload⟩ := convert_view settings root ws m
  unfold Message.source
  simp only [htree, hload]

theorem baffles_convert (m n : Message) : n.Baffles root (convert settings root ws m).2 ↔ n.Baffles root ws := by
  rw [← convert_error_iff settings, ← convert_error_iff settings, convert_convert]

end Messages

/-! ## Conversions -/

section Conversions

variable (settings : Settings) (root : FilePath)

theorem convertAll_ending_iff (messages : List Message) : ∀ (ws : Workspace) (fixes : FixTable),
    (convertAll settings root ws fixes messages).ending = .ok () ↔ ∀ m ∈ messages, ¬ m.Baffles root ws := by
  induction messages with
  | nil => intro ws fixes; simp [convertAll]
  | cons m rest ih =>
    intro ws fixes
    rw [List.forall_mem_cons]
    rcases hc : (convert settings root ws m).1 with fault | c
    · have hb : m.Baffles root ws := (convert_error_iff settings).1 ⟨fault, hc⟩
      rw [convertAll_error hc]
      simp [hb]
    · have hb : ¬ m.Baffles root ws := by
        intro hb
        obtain ⟨fault, hf⟩ := (convert_error_iff settings).2 hb
        rw [hc] at hf
        cases hf
      rw [convertAll_ok hc]
      simp only [Conversion.after, ih, baffles_convert, hb, not_false_eq_true, true_and]

theorem diagnostics_convertAll {ws : Workspace} {messages : List Message} (hb : ∀ m ∈ messages, ¬ m.Baffles root ws) :
    (convertAll settings root ws [] messages).diagnostics = messages.filterMap (·.finding root ws) := by
  obtain ⟨cs, heach, hdiagnostics, -⟩ := convertAll_each messages ws [] ((convertAll_ending_iff settings root messages ws []).2 hb)
  rw [hdiagnostics, ← List.filterMap_eq_flatMap_toList]
  exact filterMap_of_forall₂ (heach.imp fun m c hc => (convert_ok hc).1)

/-- Messages without a file that can be read add neither a fix nor a document. -/
theorem convertAll_housed (messages : List Message) : ∀ (ws : Workspace) (fixes : FixTable),
    (∀ m ∈ messages, ¬ m.Baffles root ws) →
    (convertAll settings root ws fixes (messages.filter (·.isHoused root ws))).fixes =
        (convertAll settings root ws fixes messages).fixes ∧
      (convertAll settings root ws fixes (messages.filter (·.isHoused root ws))).workspace =
        (convertAll settings root ws fixes messages).workspace := by
  induction messages with
  | nil => intro ws fixes _; exact ⟨rfl, rfl⟩
  | cons m rest ih =>
    intro ws fixes hb
    obtain ⟨hm, hrest⟩ := List.forall_mem_cons.1 hb
    by_cases hh : m.isHoused root ws = true
    · rcases hc : (convert settings root ws m).1 with fault | c
      · exact absurd ((convert_error_iff settings).1 ⟨fault, hc⟩) hm
      -- the messages that stay are picked by the workspace at the start, but converted later
      · have hsame : ∀ n : Message, n.isHoused root (convert settings root ws m).2 = n.isHoused root ws := by
          intro n
          unfold Message.isHoused
          rw [source_convert]
        have := ih (convert settings root ws m).2 (c.addTo fixes)
          fun n hn => (baffles_convert settings m n).not.2 (hrest n hn)
        simp only [hsame] at this
        rw [List.filter_cons_of_pos hh, convertAll_ok hc, convertAll_ok hc]
        exact this
    · obtain ⟨journal, hc⟩ := convert_homeless settings (by simpa using hh) hm
      rw [List.filter_cons_of_neg hh, convertAll_ok (c := ⟨some (homeless m), none, journal⟩) (by rw [hc]), hc]
      exact ih ws fixes hrest

/-- What is said while messages are converted is neither an event nor a call of the writer. -/
theorem convert_quiet {settings : Settings} {root : FilePath} {ws : Workspace} {m : Message} {c : Converted}
    (h : (convert settings root ws m).1 = .ok c) :
    c.journal.events = [] ∧ c.journal.calls = [] := by
  have hcandidate : ∀ index path, (candidate settings index path m).1.events = [] ∧
      (candidate settings index path m).1.calls = [] := by
    intro index path
    unfold candidate
    split
    · exact ⟨rfl, rfl⟩
    · split
      · exact ⟨rfl, rfl⟩
      · split <;> exact ⟨rfl, rfl⟩
  rcases hf : nonEmpty m.filename with _ | filename
  · rw [convert_unnamed hf] at h
    cases h
    exact ⟨rfl, rfl⟩
  · rw [convert_named hf] at h
    rcases hl : (ws.load (relativePath ws.tree.cwd root filename)).1 with fault | document
    · simp only [hl] at h
      split at h
      · cases h
        exact ⟨rfl, rfl⟩
      · cases h
    · simp only [hl] at h
      cases h
      unfold convertIn
      simp only
      split
      · exact ⟨rfl, rfl⟩
      · exact hcandidate _ _

theorem convertAll_quiet (messages : List Message) : ∀ (ws : Workspace) (fixes : FixTable),
    (convertAll settings root ws fixes messages).journal.events = [] ∧
      (convertAll settings root ws fixes messages).journal.calls = [] := by
  induction messages with
  | nil => intro ws fixes; exact ⟨rfl, rfl⟩
  | cons m rest ih =>
    intro ws fixes
    rcases hc : (convert settings root ws m).1 with fault | c
    · rw [convertAll_error hc]
      exact ⟨rfl, rfl⟩
    · obtain ⟨hevents, hcalls⟩ := convert_quiet hc
      obtain ⟨hevents', hcalls'⟩ := ih (convert settings root ws m).2 (c.addTo fixes)
      rw [convertAll_ok hc]
      simp [Conversion.after, hevents, hcalls, hevents', hcalls']

end Conversions

section Findings

variable (root : FilePath) (ws : Workspace) (messages : List Message)

theorem findings_housed : (messages.filter (·.isHoused root ws)).filterMap (·.finding root ws) =
    (messages.filterMap (·.finding root ws)).filter (·.file?.isSome) := by
  induction messages with
  | nil => rfl
  | cons m rest ih =>
    rcases hd : m.finding root ws with _ | d
    · cases hh : m.isHoused root ws <;> simp [hd, hh, ih]
    · have hfile := file?_finding hd
      cases hh : m.isHoused root ws <;> simp [hd, hh, ih, hfile]

theorem findings_homeless : (messages.filterMap (·.finding root ws)).filter (·.file? = none) =
    (messages.filter fun m => !m.isHoused root ws).map homeless := by
  induction messages with
  | nil => rfl
  | cons m rest ih =>
    rcases hh : m.isHoused root ws with _ | _
    · have hfile : (homeless m).file? = none := rfl
      simp [hh, finding_of_homeless hh, hfile, ih]
    · rcases hd : m.finding root ws with _ | d
      · simp [hh, hd, ih]
      · have hfile : d.file? ≠ none := by
          rw [← Option.isSome_iff_ne_none, file?_finding hd, hh]
        simp [hh, hd, hfile, ih]

end Findings

/-! ## Runs -/

section Runs

variable (backend : Backend) (root : FilePath) (paths : List String) (ws : Workspace) (finished : Finished)

theorem analyze_given : ∃ said, backend.analyze (Launcher.given finished) root paths ws =
    { backend.receive root ws (backend.settings.commandLine paths) finished with
      journal := .note .info .report said ::
        (backend.receive root ws (backend.settings.commandLine paths) finished).journal } :=
  ⟨_, rfl⟩

theorem findings_given : (backend.analyze (Launcher.given finished) root paths ws).findings =
    if finished.code ≠ 0 then
      .error (.analyzer (.exited finished.code finished.stderr (backend.settings.commandLine paths)))
    else match parse finished.stdout with
      | .error (.unreadable fault) => .error (.analyzer (.unreadable fault))
      | .error (.longNumber digits) => .error (.longNumber digits)
      | .ok messages => match (convertAll backend.settings root ws [] messages).ending with
        | .error fault => .error (.load fault)
        | .ok () => .ok (convertAll backend.settings root ws [] messages).diagnostics := by
  obtain ⟨said, hgiven⟩ := analyze_given backend root paths ws finished
  rw [hgiven]
  unfold Backend.receive
  split
  · rfl
  · rcases parse finished.stdout with (fault | digits) | messages
    · rfl
    · rfl
    · simp only
      rcases (convertAll backend.settings root ws [] messages).ending with fault | _ <;> rfl

/-- The analysis of a report that names no baffling file. -/
theorem analysis_of_report {messages : List Message} (hcode : finished.code = 0)
    (hp : parse finished.stdout = .ok messages) (hb : ∀ m ∈ messages, ¬ m.Baffles root ws) :
    ∃ journal : Journal, (backend.analyze (Launcher.given finished) root paths ws).toAnalysis =
        ⟨.ok (messages.filterMap (·.finding root ws)),
          Backend.oracle ⟨backend.settings, (convertAll backend.settings root ws [] messages).fixes⟩, journal,
          (convertAll backend.settings root ws [] messages).workspace⟩ ∧
      journal.events = [] ∧ journal.calls = [] := by
  have hend := (convertAll_ending_iff backend.settings root messages ws []).2 hb
  obtain ⟨hevents, hcalls⟩ := convertAll_quiet backend.settings root messages ws []
  have hreceive : ∃ journal : Journal,
      backend.receive root ws (backend.settings.commandLine paths) finished =
        ⟨.ok (convertAll backend.settings root ws [] messages).diagnostics,
          ⟨backend.settings, (convertAll backend.settings root ws [] messages).fixes⟩, journal,
          (convertAll backend.settings root ws [] messages).workspace, some (backend.settings.commandLine paths)⟩ ∧
      journal.events = [] ∧ journal.calls = [] := by
    unfold Backend.receive
    rw [if_neg (not_not.2 hcode), hp]
    simp only [hend]
    refine ⟨_, rfl, ?_, ?_⟩
    · rw [Journal.events_append, hevents]; rfl
    · rw [Journal.calls_append, hcalls]; rfl
  obtain ⟨journal, hreceive, hj⟩ := hreceive
  rw [← diagnostics_convertAll backend.settings root hb]
  obtain ⟨said, hgiven⟩ := analyze_given backend root paths ws finished
  rw [hgiven, hreceive]
  exact ⟨_, rfl, hj⟩

end Runs

section Complete

variable (backend : Backend) (root : FilePath) (paths : List String) (ws : Workspace) (options : RunOptions)
  (token : Token) (writer : Writer) (schedule : List Run.Turn) (finished : Finished)

/-- The run over what the analyzer gave. -/
def Backend.run : RunResult AnalysisFault :=
  Run.complete options token writer schedule (backend.analyze (Launcher.given finished) root paths ws).toAnalysis

/-- The run over the findings of these messages. -/
def Backend.over (messages : List Message) : Summary × Journal × Workspace :=
  Run.overFindings
    ⟨Backend.oracle ⟨backend.settings, (convertAll backend.settings root ws [] messages).fixes⟩, options, token, writer⟩
    schedule (convertAll backend.settings root ws [] messages).workspace (messages.filterMap (·.finding root ws))

theorem summary_error_iff (fault : AnalysisFault) :
    (backend.run root paths ws options token writer schedule finished).summary = .error fault ↔
      (backend.analyze (Launcher.given finished) root paths ws).findings = .error fault := by
  unfold Backend.run Run.complete Backend.Response.toAnalysis
  rcases (backend.analyze (Launcher.given finished) root paths ws).findings with e | ds <;> simp

theorem summary_ok_iff :
    (∃ summary, (backend.run root paths ws options token writer schedule finished).summary = .ok summary) ↔
      ∃ ds, (backend.analyze (Launcher.given finished) root paths ws).findings = .ok ds := by
  unfold Backend.run Run.complete Backend.Response.toAnalysis
  rcases (backend.analyze (Launcher.given finished) root paths ws).findings with e | ds <;> simp

/-- The run over a report that names no baffling file. -/
theorem run_of_report {messages : List Message} (hcode : finished.code = 0)
    (hreport : IsReport finished.stdout messages) (hb : ∀ m ∈ messages, ¬ m.Baffles root ws) :
    (backend.run root paths ws options token writer schedule finished).summary =
        .ok (backend.over root ws options token writer schedule messages).1 ∧
      (backend.run root paths ws options token writer schedule finished).journal.events =
        (backend.over root ws options token writer schedule messages).2.1.events ∧
      (backend.run root paths ws options token writer schedule finished).journal.calls =
        (backend.over root ws options token writer schedule messages).2.1.calls ∧
      (backend.run root paths ws options token writer schedule finished).workspace =
        (backend.over root ws options token writer schedule messages).2.2 := by
  obtain ⟨journal, hanalysis, hevents, hcalls⟩ :=
    analysis_of_report backend root paths ws finished hcode ((parse_ok_iff _ _).2 hreport) hb
  unfold Backend.run
  rw [hanalysis]
  refine ⟨rfl, ?_, ?_, rfl⟩
  · simp only [Run.complete, List.cons_append, Journal.events_cons_note, Journal.events_append, hevents, List.nil_append]
    rfl
  · simp only [Run.complete, List.cons_append, Journal.calls_cons_note, Journal.calls_append, hcalls, List.nil_append]
    rfl

/-- Without its messages that have no file, a report leads to a run over the findings that have one. -/
theorem over_housed {messages : List Message} (hb : ∀ m ∈ messages, ¬ m.Baffles root ws) :
    ∃ setup ws', backend.over root ws options token writer schedule messages =
        Run.overFindings setup schedule ws' (messages.filterMap (·.finding root ws)) ∧
      backend.over root ws options token writer schedule (messages.filter (·.isHoused root ws)) =
        Run.overFindings setup schedule ws' ((messages.filterMap (·.finding root ws)).filter (·.file?.isSome)) := by
  obtain ⟨hfixes, hworkspace⟩ := convertAll_housed backend.settings root messages ws [] hb
  refine ⟨_, _, rfl, ?_⟩
  unfold Backend.over
  rw [hfixes, hworkspace, findings_housed]

theorem aborts_iff : (∃ fault, (backend.run root paths ws options token writer schedule finished).summary =
    .error (.analyzer fault)) ↔ finished.code ≠ 0 ∨ IsMalformed finished.stdout := by
  simp only [summary_error_iff, findings_given, ← parse_unreadable_iff]
  by_cases hcode : finished.code = 0
  · rw [if_neg (not_not.2 hcode)]
    rcases hp : parse finished.stdout with (fault | digits) | messages
    · simp
    · simp [hcode]
    · rcases he : (convertAll backend.settings root ws [] messages).ending with fault | _ <;> simp [he, hcode]
  · simp [hcode]

theorem ends_iff : (∃ summary, (backend.run root paths ws options token writer schedule finished).summary = .ok summary) ↔
    finished.code = 0 ∧ ∃ messages, IsReport finished.stdout messages ∧ ∀ m ∈ messages, ¬ m.Baffles root ws := by
  simp only [summary_ok_iff, findings_given, ← parse_ok_iff, ← convertAll_ending_iff backend.settings root _ ws []]
  by_cases hcode : finished.code = 0
  · rw [if_neg (not_not.2 hcode)]
    rcases hp : parse finished.stdout with (fault | digits) | messages
    · simp
    · simp
    · rcases he : (convertAll backend.settings root ws [] messages).ending with fault | _ <;> simp [he, hcode]
  · simp [hcode]

theorem settles_iff :
    ((∃ summary, (backend.run root paths ws options token writer schedule finished).summary = .ok summary) ∨
      ∃ fault, (backend.run root paths ws options token writer schedule finished).summary = .error (.analyzer fault)) ↔
    ¬ (finished.code = 0 ∧ (IsOverlong finished.stdout ∨
      ∃ messages, IsReport finished.stdout messages ∧ ∃ m ∈ messages, m.Baffles root ws)) := by
  rw [ends_iff, aborts_iff]
  simp only [← parse_ok_iff, ← parse_unreadable_iff, ← parse_overlong_iff]
  by_cases hcode : finished.code = 0
  · rcases hp : parse finished.stdout with (fault | digits) | messages <;> simp [hcode]
  · simp [hcode]

end Complete

/-- Only the analyzer should end a run, and it does so exactly if it fails or its output is no report.
Nothing else does but an overlong number and a baffling file. A message whose file cannot be read is an
error of its own, and the run does to the files what it does without it. Outputs that are not whole are
left out, and nothing is said of how deep an output may be nested for a reader with a limit to that. -/
theorem only_analyzer_aborts (backend : Backend) (root : FilePath) (paths : List String) (ws : Workspace)
    (options : RunOptions) (token : Token) (writer : Writer) (schedule : List Run.Turn) (finished : Finished) :
    let run := backend.run root paths ws options token writer schedule
    IsWhole finished.stdout →
    (((∃ summary, (run finished).summary = .ok summary) ∨ ∃ fault, (run finished).summary = .error (.analyzer fault)) ↔
      ¬ (finished.code = 0 ∧ (IsOverlong finished.stdout ∨
        ∃ messages, IsReport finished.stdout messages ∧ ∃ m ∈ messages, m.Baffles root ws))) ∧
    ((∃ fault, (run finished).summary = .error (.analyzer fault)) ↔
      finished.code ≠ 0 ∨ IsMalformed finished.stdout) ∧
    ∀ messages, finished.code = 0 → IsReport finished.stdout messages → (∀ m ∈ messages, ¬ m.Baffles root ws) →
      ∃ summary, (run finished).summary = .ok summary ∧
        summary.unresolved = (messages.filter fun m => !m.isHoused root ws).map (fun m =>
          ⟨none, some (homeless m), .error, MissingFile.message ⟨homeless m⟩⟩) ∧
        ∀ other : Finished, other.code = 0 → IsWhole other.stdout →
          IsReport other.stdout (messages.filter (·.isHoused root ws)) →
          ∃ rest, (run other).summary = .ok rest ∧ rest.unresolved = [] ∧
            summary.files = rest.files ∧ summary.cancelled = rest.cancelled ∧
            (run finished).journal.events = summary.unresolved ++ (run other).journal.events ∧
            (run finished).journal.calls = (run other).journal.calls ∧
            (run finished).workspace = (run other).workspace := by
  intro run _
  refine ⟨settles_iff backend root paths ws options token writer schedule finished,
    aborts_iff backend root paths ws options token writer schedule finished, fun messages hcode hreport hb => ?_⟩
  obtain ⟨hsummary, hevents, hcalls, hworkspace⟩ :=
    run_of_report backend root paths ws options token writer schedule finished hcode hreport hb
  obtain ⟨setup, ws', hall, hhoused⟩ := over_housed backend root ws options token writer schedule hb
  rw [hall] at hsummary hevents hcalls hworkspace
  refine ⟨_, hsummary, ?_, fun other hcode' _ hreport' => ?_⟩
  · rw [Run.unresolved_overFindings, Run.missingEvents_eq, findings_homeless, List.map_map]
    rfl
  · obtain ⟨hsummary', hevents', hcalls', hworkspace'⟩ :=
      run_of_report backend root paths ws options token writer schedule other hcode' hreport'
        fun m hm => hb m (List.mem_filter.1 hm).1
    rw [hhoused] at hsummary' hevents' hcalls' hworkspace'
    refine ⟨_, hsummary', ?_, (Run.files_filter_isSome ..).symm, ?_, ?_, ?_, ?_⟩
    · rw [Run.unresolved_overFindings, Run.missingEvents_filter_isSome]
    · rw [Run.cancelled_overFindings, Run.cancelled_overFindings, Run.filesRun_filter_isSome]
    · rw [hevents, hevents', Run.unresolved_overFindings, Run.events_filter_isSome]
    · rw [hcalls, hcalls', Run.calls_overFindings, Run.calls_overFindings, Run.filesRun_filter_isSome]
    · rw [hworkspace, hworkspace', Run.workspace_overFindings, Run.workspace_overFindings, Run.filesRun_filter_isSome]

/-! ### A report on a file that is not there -/

/-- A message in JSON on the first character of a file. -/
def messageText (name : String) : String :=
  "\x7b\"filename\":\"" ++ name ++ "\",\"location\":\x7b\"row\":1,\"column\":1\x7d," ++
  "\"end_location\":\x7b\"row\":1,\"column\":2\x7d\x7d"

/-- The message of this text. -/
def messageOn (name : String) : Message :=
  ⟨none, some name, "", ⟨1, 1⟩, ⟨1, 2⟩, none, none⟩

def reportOnA : String :=
  "[" ++ messageText "a" ++ "]"

/-- There is no file `c`. -/
def strayReport : String :=
  "[" ++ messageText "c" ++ "," ++ messageText "a" ++ "]"

theorem strayReport_facts :
    parse strayReport = .ok [messageOn "c", messageOn "a"] ∧ parse reportOnA = .ok [messageOn "a"] ∧
    (convertAll Settings.default (FilePath.ofString "/") Run.sampleWorkspace [] [messageOn "c", messageOn "a"]).ending =
      .ok () ∧
    (messageOn "c").isHoused (FilePath.ofString "/") Run.sampleWorkspace = false ∧
    (messageOn "a").isHoused (FilePath.ofString "/") Run.sampleWorkspace = true := by
  decide +kernel

theorem stray_only_analyzer_aborts :
    let run output := (Backend.new Settings.default).run (FilePath.ofString "/") [] Run.sampleWorkspace
      ⟨Rules.none, false, false, 1⟩ Token.never (Run.defaultWriter Run.sampleWorkspace.loader) [] ⟨output, 0, ""⟩
    ∃ summary rest, (run strayReport).summary = .ok summary ∧ (run reportOnA).summary = .ok rest ∧
      summary.unresolved = [⟨none, some (homeless (messageOn "c")), .error, MissingFile.message ⟨homeless (messageOn "c")⟩⟩] ∧
      rest.unresolved = [] ∧ summary.files = rest.files ∧
      (run strayReport).journal.calls = (run reportOnA).journal.calls := by
  intro run
  obtain ⟨hstray, hsample, hending, hhomeless, hhoused⟩ := strayReport_facts
  obtain ⟨-, -, hcontained⟩ := only_analyzer_aborts (Backend.new Settings.default) (FilePath.ofString "/") []
    Run.sampleWorkspace ⟨Rules.none, false, false, 1⟩ Token.never (Run.defaultWriter Run.sampleWorkspace.loader) []
    ⟨strayReport, 0, ""⟩ (by decide +kernel)
  obtain ⟨summary, hsummary, hunresolved, hother⟩ := hcontained _ rfl ((parse_ok_iff _ _).1 hstray)
    ((convertAll_ending_iff _ _ _ _ []).1 hending)
  have hreport : IsReport reportOnA ([messageOn "c", messageOn "a"].filter
      (·.isHoused (FilePath.ofString "/") Run.sampleWorkspace)) := by
    simpa [hhomeless, hhoused] using (parse_ok_iff _ _).1 hsample
  obtain ⟨rest, hrest, hnone, hfiles, -, -, hcalls, -⟩ := hother ⟨reportOnA, 0, ""⟩ rfl (by decide +kernel) hreport
  refine ⟨summary, rest, hsummary, hrest, ?_, hnone, hfiles, hcalls⟩
  simpa [hhomeless, hhoused] using hunresolved

/-! ### A report on a file without a byte order mark -/

/-- A file in an encoding that wants a byte order mark, which it does not have. -/
def unmarkedWorkspace : Workspace :=
  ⟨⟨[(["a"], .file [97, 0, 98, 0])], []⟩, Loader.new none "utf-16"⟩

/-- A well-formed report on this file ends the run with an error that is not the analyzer's. -/
theorem unmarked_file_aborts :
    IsReport reportOnA [messageOn "a"] ∧
    ((Backend.new Settings.default).run (FilePath.ofString "/") [] unmarkedWorkspace ⟨Rules.none, false, false, 1⟩
      Token.never (Run.defaultWriter unmarkedWorkspace.loader) [] ⟨reportOnA, 0, ""⟩).summary =
        .error (.load .unmarked) := by
  have hfindings : ((Backend.new Settings.default).analyze (Launcher.given ⟨reportOnA, 0, ""⟩)
      (FilePath.ofString "/") [] unmarkedWorkspace).findings = .error (.load .unmarked) := by
    decide +kernel
  exact ⟨(parse_ok_iff _ _).1 strayReport_facts.2.1, (summary_error_iff ..).2 hfindings⟩

end Amend.Report
