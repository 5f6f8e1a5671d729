/-
The data of a checked configuration pass the check again. They give the same configuration, but for the file
it came from and for codes that were not in their normal form: these are made normal only where they come in
a list, as they do in data, and so a checked configuration is a normal form unless its codes came in something
else. What a check gives for any other entry, it gives again for the data of what it gave.
-/
import Amend.Config.Check
import Amend.Proofs.Shape
import Amend.Proofs.Text.Upper

namespace Amend

/-! ## Sections as data -/

/-- The section on the project as data. -/
def Project.toTree (p : Project) : Tree :=
  Config.group [("root", .text p.root), ("encoding", .text p.encoding)]

/-- The section on the analyzer as data. -/
def Analyzer.toTree (a : Analyzer) : Tree :=
  Config.group
    [("name", .text a.tool.name), ("command", Config.texts a.settings.command),
     ("select", Config.texts a.settings.select), ("ignore", Config.texts a.settings.ignore),
     ("extra_args", Config.texts a.settings.extraArgs), ("unsafe_fixes", .bool a.settings.riskyFixes),
     ("paths", Config.texts a.paths)]

/-- The section on codes and names as data. -/
def Choices.toTree (c : Choices) : Tree :=
  Config.group [("codes", Config.texts c.codes), ("fixes", Config.texts c.fixes)]

/-- The section with its codes made normal. -/
def Choices.normal (c : Choices) : Choices :=
  { c with codes := c.codes.map Code.normalize }

/-- The section on the work as data. -/
def Pace.toTree (p : Pace) : Tree :=
  Config.group [("workers", .int p.workers), ("dry_run", .bool p.dryRun)]

/-- The section on logging as data. -/
def Logging.toTree (l : Logging) : Tree :=
  Config.group [("level", .text l.level.name), ("telemetry", .bool l.telemetry)]

namespace Config

open Shape Checked

/-- The configuration with its codes made normal, and from no file. -/
def normal (c : Config) : Config :=
  { c with filters := c.filters.normal, path := none }

/-- All codes of the configuration are in their normal form. -/
def HasNormalCodes (c : Config) : Prop :=
  ∀ code ∈ c.filters.codes, Code.normalize code = code

theorem toTree_eq (c : Config) : c.toTree = group
    [("project", c.project.toTree), ("analyzer", c.analyzer.toTree), ("filters", c.filters.toTree),
     ("run", c.run.toTree), ("logging", c.logging.toTree)] := rfl

/-! ## Entries -/

/-- A check takes the data of every value it gives, and gives the value again. -/
def Settles {α : Type} (check : Tree → Checked α) (data : α → Tree) : Prop :=
  ∀ t a, check t = .valid a → check (data a) = .valid a

theorem itemsFrom_texts (i : Int) (items : List String) : itemsFrom text i (items.map .text) = .valid items := by
  induction items generalizing i with
  | nil => rfl
  | cons item rest ih =>
    rw [List.map_cons, itemsFrom, ih]
    rfl

theorem textList_texts (items : List String) : textList (texts items) = .valid items :=
  itemsFrom_texts 0 items

theorem settles_text : Settles text .text := fun _ _ _ => rfl

theorem settles_textList : Settles textList texts := fun _ items _ => textList_texts items

theorem settles_flag : Settles flag .bool := fun _ _ _ => rfl

theorem settles_tool : Settles tool fun a => .text a.name := fun _ a _ => by cases a; rfl

theorem level_name (l : Level) : level (.text l.name) = .valid l := by
  have hname : Level.ofName? (Text.upper l.name) = some l := by cases l <;> decide
  show (Level.ofName? (Text.upper l.name)).elim (.fail .notListed) .valid = Checked.valid l
  rw [hname]
  rfl

theorem settles_level : Settles level fun l => .text l.name := fun _ l _ => level_name l

/-- A command that was taken starts with a word, and so it is taken again. -/
theorem settles_command : Settles command texts := by
  intro t words h
  obtain ⟨given, -, hwords⟩ := andThen_eq_valid_iff.1 h
  refine andThen_eq_valid_iff.2 ⟨words, textList_texts words, ?_⟩
  split at hwords
  · cases hwords
  · rename_i hfirst
    cases hwords
    exact if_neg hfirst

/-- Codes that come in a list are made normal. -/
theorem normal_of_codes {items : List Tree} {names : List String} (h : codes (.list items) = .valid names) :
    ∀ name ∈ names, Code.normalize name = name := by
  rw [codes] at h
  split at h
  · cases h
  · cases h
    intro _ hname
    obtain ⟨item, -, rfl⟩ := List.mem_map.1 hname
    exact Code.normalize_normalize _

theorem codes_texts (names : List String) : codes (texts names) = .valid (names.map Code.normalize) := by
  have hshort : (names.map Tree.text).any Tree.hasLongNumber = false := by
    rw [List.any_map, List.any_eq_false]
    exact fun _ _ => Bool.false_ne_true
  show (if (names.map Tree.text).any Tree.hasLongNumber then _ else _) = Checked.valid (names.map Code.normalize)
  rw [hshort, if_neg Bool.false_ne_true, List.map_map]
  rfl

theorem settles_intFrom (least : Int) : Settles (intFrom least) .int := by
  intro t n h
  obtain ⟨given, -, hn⟩ := andThen_eq_valid_iff.1 h
  refine andThen_eq_valid_iff.2 ⟨n, rfl, ?_⟩
  split at hn
  · cases hn
  · rename_i hleast
    cases hn
    exact if_neg hleast

/-! ## Sections -/

section Fields

variable {α β : Type} {check : Tree → Checked α} {data : α → Tree} {entries : Entries} {name : String} {usual : α}

/-- The value of an entry is given again for its data, also if it was the default. -/
theorem Settles.of_optional {a : α} (hcheck : Settles check data) (husual : check (data usual) = .valid usual)
    (h : optional entries name usual check = .valid a) : check (data a) = .valid a := by
  rcases optional_eq_valid_iff.1 h with ⟨-, rfl⟩ | ⟨t, -, ht⟩
  · exact husual
  · exact hcheck t a ht

/-- The first field of a section that was taken. -/
theorem Settles.of_map {f : α → β} {b : β} (hcheck : Settles check data)
    (husual : check (data usual) = .valid usual) (h : f <$> optional entries name usual check = .valid b) :
    ∃ a, check (data a) = .valid a ∧ f a = b := by
  obtain ⟨a, ha, hb⟩ := map_eq_valid_iff.1 h
  exact ⟨a, hcheck.of_optional husual ha, hb⟩

/-- Any other field, and the fields before it. -/
theorem Settles.of_seq {f : Checked (α → β)} {b : β} (hcheck : Settles check data)
    (husual : check (data usual) = .valid usual) (h : f <*> optional entries name usual check = .valid b) :
    ∃ g a, f = .valid g ∧ check (data a) = .valid a ∧ g a = b := by
  obtain ⟨g, a, hf, ha, hb⟩ := seq_eq_valid_iff.1 h
  exact ⟨g, a, hf, hcheck.of_optional husual ha, hb⟩

theorem map_of_entry {f : α → β} {t : Tree} {a : α} (hentry : Tree.entry? name entries = some t)
    (ht : check t = .valid a) : f <$> optional entries name usual check = .valid (f a) :=
  map_eq_valid_iff.2 ⟨a, optional_eq_valid_iff.2 (.inr ⟨t, hentry, ht⟩), rfl⟩

theorem seq_of_entry {f : Checked (α → β)} {g : α → β} {t : Tree} {a : α} (hf : f = .valid g)
    (hentry : Tree.entry? name entries = some t) (ht : check t = .valid a) :
    f <*> optional entries name usual check = .valid (g a) :=
  seq_eq_valid_iff.2 ⟨g, a, hf, optional_eq_valid_iff.2 (.inr ⟨t, hentry, ht⟩), rfl⟩

theorem mapping_closed_eq_valid_iff {known : List String} {check : Entries → Checked α} {t : Tree} {a : α} :
    mapping (fun entries => closed known entries (check entries)) t = .valid a ↔
      ∃ entries, t = .map entries ∧ strangers known entries = [] ∧ check entries = .valid a := by
  simp only [mapping_eq_valid_iff, closed_eq_valid_iff]

end Fields

theorem settles_project : Settles checkProject Project.toTree := by
  intro _ p h
  obtain ⟨entries, -, -, h⟩ := mapping_closed_eq_valid_iff.1 h
  obtain ⟨_, encoding, h1, hencoding, rfl⟩ := settles_text.of_seq rfl h
  obtain ⟨root, hroot, rfl⟩ := settles_text.of_map rfl h1
  apply mapping_closed_eq_valid_iff.2
  exact ⟨_, rfl, rfl, seq_of_entry (map_of_entry rfl hroot) rfl hencoding⟩

theorem settles_analyzer : Settles checkAnalyzer Analyzer.toTree := by
  intro _ a h
  obtain ⟨entries, -, -, h⟩ := mapping_closed_eq_valid_iff.1 h
  obtain ⟨_, paths, h6, hpaths, rfl⟩ := settles_textList.of_seq rfl h
  obtain ⟨_, risky, h5, hrisky, rfl⟩ := settles_flag.of_seq rfl h6
  obtain ⟨_, extra, h4, hextra, rfl⟩ := settles_textList.of_seq rfl h5
  obtain ⟨_, ignore, h3, hignore, rfl⟩ := settles_textList.of_seq rfl h4
  obtain ⟨_, select, h2, hselect, rfl⟩ := settles_textList.of_seq rfl h3
  obtain ⟨_, command, h1, hcommand, rfl⟩ := settles_command.of_seq rfl h2
  obtain ⟨tool, htool, rfl⟩ := settles_tool.of_map rfl h1
  unfold checkAnalyzer
  apply mapping_closed_eq_valid_iff.2
  exact ⟨_, rfl, rfl, seq_of_entry (seq_of_entry (seq_of_entry (seq_of_entry (seq_of_entry (seq_of_entry
    (map_of_entry rfl htool) rfl hcommand) rfl hselect) rfl hignore) rfl hextra) rfl hrisky) rfl hpaths⟩

/-- The data of any choices are taken, and their codes made normal. -/
theorem checkFilters_toTree (c : Choices) : checkFilters c.toTree = .valid c.normal :=
  mapping_closed_eq_valid_iff.2
    ⟨_, rfl, rfl, seq_of_entry (map_of_entry rfl (codes_texts _)) rfl (textList_texts _)⟩

theorem settles_run : Settles checkRun Pace.toTree := by
  intro _ p h
  obtain ⟨entries, -, -, h⟩ := mapping_closed_eq_valid_iff.1 h
  obtain ⟨_, dry, h1, hdry, rfl⟩ := settles_flag.of_seq rfl h
  obtain ⟨workers, hworkers, rfl⟩ := (settles_intFrom 1).of_map rfl h1
  apply mapping_closed_eq_valid_iff.2
  exact ⟨_, rfl, rfl, seq_of_entry (map_of_entry rfl hworkers) rfl hdry⟩

theorem settles_logging : Settles checkLogging Logging.toTree := by
  intro _ l h
  obtain ⟨entries, -, -, h⟩ := mapping_closed_eq_valid_iff.1 h
  obtain ⟨_, telemetry, h1, htelemetry, rfl⟩ := settles_flag.of_seq rfl h
  obtain ⟨level, hlevel, rfl⟩ := settles_level.of_map (level_name _) h1
  apply mapping_closed_eq_valid_iff.2
  exact ⟨_, rfl, rfl, seq_of_entry (map_of_entry rfl hlevel) rfl htelemetry⟩

/-- The data of a checked configuration give it again, with its codes made normal and from no file. -/
theorem check_toTree {data : Tree} {c : Config} (h : check data = .valid c) : check c.toTree = .valid c.normal := by
  obtain ⟨entries, -, -, h⟩ := mapping_closed_eq_valid_iff.1 h
  obtain ⟨_, path, h5, -, rfl⟩ := seq_eq_valid_iff.1 h
  obtain ⟨_, logging, h4, hlogging, rfl⟩ := settles_logging.of_seq rfl h5
  obtain ⟨_, run, h3, hrun, rfl⟩ := settles_run.of_seq rfl h4
  obtain ⟨_, filters, h2, -, rfl⟩ := seq_eq_valid_iff.1 h3
  obtain ⟨_, analyzer, h1, hanalyzer, rfl⟩ := settles_analyzer.of_seq rfl h2
  obtain ⟨project, hproject, rfl⟩ := settles_project.of_map rfl h1
  rw [toTree_eq]
  apply mapping_closed_eq_valid_iff.2
  exact ⟨_, rfl, rfl, seq_eq_valid_iff.2 ⟨_, none, seq_of_entry (seq_of_entry (seq_of_entry (seq_of_entry
    (map_of_entry rfl hproject) rfl hanalyzer) rfl (checkFilters_toTree filters)) rfl hrun) rfl hlogging,
    optional_eq_valid_iff.2 (.inl ⟨rfl, rfl⟩), rfl⟩⟩

/-! ## Codes -/

theorem HasNormalCodes.normal_eq {c : Config} (h : c.HasNormalCodes) : c.normal = { c with path := none } := by
  have hcodes : c.filters.normal = c.filters := by
    unfold Choices.normal
    rw [(List.map_congr_left h).trans (List.map_id c.filters.codes)]
  unfold normal
  rw [hcodes]

/-- A configuration has its codes in their normal form exactly if making them normal changes nothing. -/
theorem normal_eq_iff (c : Config) : c.normal = { c with path := none } ↔ c.HasNormalCodes := by
  refine ⟨fun h => ?_, HasNormalCodes.normal_eq⟩
  have hcodes : c.filters.codes.map Code.normalize = c.filters.codes := congrArg (·.filters.codes) h
  exact List.map_inj_left.1 (hcodes.trans (List.map_id c.filters.codes).symm)

theorem normal_normal (c : Config) : c.normal.HasNormalCodes := by
  intro code hcode
  obtain ⟨given, -, rfl⟩ := List.mem_map.1 hcode
  exact Code.normalize_normalize given

/-- What data have for the codes. -/
def codesOf? : Tree → Option Tree
  | .map entries => match Tree.entry? "filters" entries with
    | some (.map choices) => Tree.entry? "codes" choices
    | _ => none
  | _ => none

/-- Data have their codes in a list, or none. -/
def ListsCodes (data : Tree) : Prop :=
  ∀ t, codesOf? data = some t → ∃ items, t = .list items

/-- Codes that came in a list, or were left out, are in their normal form. -/
theorem hasNormalCodes_of_lists {data : Tree} {c : Config} (h : check data = .valid c) (hlists : ListsCodes data) :
    c.HasNormalCodes := by
  obtain ⟨entries, rfl, -, h⟩ := mapping_closed_eq_valid_iff.1 h
  obtain ⟨_, path, h5, -, rfl⟩ := seq_eq_valid_iff.1 h
  obtain ⟨_, logging, h4, -, rfl⟩ := seq_eq_valid_iff.1 h5
  obtain ⟨_, run, h3, -, rfl⟩ := seq_eq_valid_iff.1 h4
  obtain ⟨_, filters, h2, hfilters, rfl⟩ := seq_eq_valid_iff.1 h3
  obtain ⟨_, analyzer, h1, -, rfl⟩ := seq_eq_valid_iff.1 h2
  obtain ⟨project, -, rfl⟩ := map_eq_valid_iff.1 h1
  show ∀ code ∈ filters.codes, Code.normalize code = code
  rcases optional_eq_valid_iff.1 hfilters with ⟨-, rfl⟩ | ⟨t, ht, hfilters⟩
  · exact nofun
  obtain ⟨choices, rfl, -, hchoices⟩ := mapping_closed_eq_valid_iff.1 hfilters
  obtain ⟨_, fixes, hcodes, -, rfl⟩ := seq_eq_valid_iff.1 hchoices
  obtain ⟨names, hnames, rfl⟩ := map_eq_valid_iff.1 hcodes
  rcases optional_eq_valid_iff.1 hnames with ⟨-, rfl⟩ | ⟨given, hgiven, hnames⟩
  · exact nofun
  obtain ⟨items, rfl⟩ := hlists given (by simp only [codesOf?, ht, hgiven])
  exact normal_of_codes hnames

end Config

end Amend
