/-
Telemetry loses nothing. An event is logged as one line of characters that ASCII shows, and reading that
line gives its name, the time, and the plain value of every field; so outcome events with different fields
have different lines.
-/
import Amend.Journal
import Amend.Proofs.Json.RoundTrip

namespace Amend.Telemetry

open Json (Fits Legible)

/-! ## Values -/

/-- A value without fractions whose whole numbers have no more digits than a limit, if there is one. -/
inductive Value.Exact (limit : Option Nat) : Value → Prop where
  | null : Exact limit .null
  | bool (b : Bool) : Exact limit (.bool b)
  | int {n : Int} (h : Fits limit n) : Exact limit (.int n)
  | str (s : String) : Exact limit (.str s)
  | path (p : FilePath) : Exact limit (.path p)
  | outcome (o : Outcome) : Exact limit (.outcome o)
  | constant (label : String) {plain : Value} (h : Exact limit plain) : Exact limit (.constant label plain)
  | seq {items : List Value} (h : ∀ item ∈ items, Exact limit item) : Exact limit (.seq items)
  | mapping {entries : List (Value × Value)} (h : ∀ entry ∈ entries, Exact limit entry.2) :
      Exact limit (.mapping entries)
  | other (text : String) : Exact limit (.other text)

section Values

variable {limit : Option Nat}

theorem mem_toJsonItems {items : List Value} {j : Json} (h : j ∈ Value.toJsonItems items) :
    ∃ item ∈ items, j = item.toJson := by
  induction items with
  | nil => cases h
  | cons item rest ih =>
    rcases List.mem_cons.1 h with rfl | h
    · exact ⟨item, List.mem_cons_self, rfl⟩
    · obtain ⟨found, hfound, hj⟩ := ih h
      exact ⟨found, List.mem_cons_of_mem _ hfound, hj⟩

/-- Entries are added with their own values, and no name is there twice. -/
theorem legible_toJsonFields {entries : List (Value × Value)}
    (h : ∀ entry ∈ entries, Legible limit entry.2.toJson) :
    ∀ done : List (String × Json), (Table.keys done).Nodup → (∀ row ∈ done, Legible limit row.2) →
      (Table.keys (Value.toJsonFields entries done)).Nodup ∧
        ∀ row ∈ Value.toJsonFields entries done, Legible limit row.2 := by
  induction entries with
  | nil => exact fun done hnames hdone => ⟨hnames, hdone⟩
  | cons entry rest ih =>
    obtain ⟨key, v⟩ := entry
    obtain ⟨hv, hrest⟩ := List.forall_mem_cons.1 h
    intro done hnames hdone
    refine ih hrest _ (Table.nodup_put hnames _ _) fun row hrow => ?_
    rcases Table.mem_put hrow with rfl | hrow
    · exact hv
    · exact hdone row hrow

theorem legible_toJson {v : Value} (h : v.Exact limit) : Legible limit v.toJson := by
  induction h with
  | null => exact .null
  | bool b => exact .bool b
  | int h => exact .int h
  | str s => exact .str s
  | path p => exact .str p.text
  | outcome o => exact .str o.name
  | constant _ _ ih => exact ih
  | seq _ ih =>
    refine .arr fun j hj => ?_
    obtain ⟨item, hitem, rfl⟩ := mem_toJsonItems hj
    exact ih item hitem
  | mapping _ ih =>
    obtain ⟨hnames, hrows⟩ := legible_toJsonFields ih [] List.nodup_nil nofun
    exact .obj hnames hrows
  | other text => exact .str text

end Values

/-! ## Lines -/

/-- What the line of an event is read as. -/
def content (time name : String) (fields : Fields) : Json :=
  .obj (("event", .str name) :: ("timestamp", .str time) :: fields.map fun row => (row.1, row.2.toJson))

/-- A log of one line of telemetry, whose characters ASCII shows and which is read as an event. -/
def Logged (limit : Option Nat) (time name : String) (fields : Fields) (log : List LogLine) : Prop :=
  ∃ text, log = [⟨.info, .telemetry, text⟩] ∧ Text.AllShown text.toList ∧
    Json.readWithin limit text = .ok (content time name fields)

/-- Fields of an event that are named neither like each other nor like its own two. -/
structure Named (fields : Fields) : Prop where
  nodup : fields.keys.Nodup
  event : "event" ∉ fields.keys
  time : "timestamp" ∉ fields.keys

section Lines

variable {time name : String} {fields : Fields}

theorem Named.nodup_content (h : Named fields) (time name : String) : (Table.keys
    ([("event", Json.str name), ("timestamp", .str time)] ++ fields.map fun row => (row.1, row.2.toJson))).Nodup := by
  have hkeys : Table.keys (fields.map fun row => (row.1, row.2.toJson)) = fields.keys := by
    rw [Table.keys, List.map_map]
    rfl
  rw [Table.keys, List.map_append]
  change ("event" :: "timestamp" :: Table.keys (fields.map fun row => (row.1, row.2.toJson))).Nodup
  rw [hkeys]
  exact List.nodup_cons.2 ⟨by simpa using h.event, List.nodup_cons.2 ⟨h.time, h.nodup⟩⟩

theorem line_eq (h : Named fields) (time name : String) :
    line time name fields = Json.write (content time name fields) := by
  have hfold := Table.foldl_put_of_nodup (fields.map fun row => (row.1, row.2.toJson)) _ (h.nodup_content time name)
  rw [List.foldl_map] at hfold
  unfold line content
  exact congrArg (fun rows => Json.write (.obj rows)) hfold

theorem legible_content {limit : Option Nat} (h : Named fields) (hexact : ∀ row ∈ fields, row.2.Exact limit)
    (time name : String) : Legible limit (content time name fields) := by
  refine .obj (h.nodup_content time name) ?_
  simp only [List.forall_mem_cons]
  refine ⟨.str name, .str time, fun row hrow => ?_⟩
  obtain ⟨field, hfield, rfl⟩ := List.mem_map.1 hrow
  exact legible_toJson (hexact field hfield)

/-- A line loses nothing. -/
theorem logged_line {limit : Option Nat} (h : Named fields) (hexact : ∀ row ∈ fields, row.2.Exact limit)
    (time name : String) : Logged limit time name fields [⟨.info, .telemetry, line time name fields⟩] := by
  have hlegible := legible_content h hexact time name
  refine ⟨_, rfl, ?_, ?_⟩
  · rw [line_eq h]
    exact Json.shown_write hlegible
  · rw [line_eq h]
    exact Json.readWithin_write hlegible

end Lines

/-! ## Outcome events -/

theorem named_ofEvent (event : Event) : Named (ofEvent event) := by
  unfold ofEvent
  cases event.diagnostic with
  | none =>
    constructor
    · exact (by decide : ["path", "outcome", "detail"].Nodup)
    · exact (by decide : "event" ∉ ["path", "outcome", "detail"])
    · exact (by decide : "timestamp" ∉ ["path", "outcome", "detail"])
  | some d =>
    constructor
    · exact (by decide : ["path", "outcome", "detail", "diagnostic"].Nodup)
    · exact (by decide : "event" ∉ ["path", "outcome", "detail", "diagnostic"])
    · exact (by decide : "timestamp" ∉ ["path", "outcome", "detail", "diagnostic"])

theorem exact_ofEvent {limit : Option Nat} {event : Event}
    (h : ∀ d ∈ event.diagnostic, Fits limit d.start ∧ Fits limit d.length) :
    ∀ row ∈ ofEvent event, row.2.Exact limit := by
  unfold ofEvent
  simp only [List.cons_append, List.nil_append, List.forall_mem_cons]
  refine ⟨?_, .str _, .str _, ?_⟩
  · cases event.path with
    | none => exact .null
    | some path => exact .str path
  · cases hd : event.diagnostic with
    | none => exact nofun
    | some d =>
      obtain ⟨hstart, hlength⟩ := h d hd
      refine List.forall_mem_singleton.2 (.mapping ?_)
      simp only [List.forall_mem_cons]
      exact ⟨.str _, .int hstart, .int hlength, .str _, nofun⟩

theorem toJson_ofDiagnostic (d : Diagnostic) : (ofDiagnostic d).toJson =
    .obj [("code", .str d.code), ("start", .int d.start), ("length", .int d.length), ("message", .str d.message)] := by
  rfl

theorem ofDiagnostic_of_toJson {d d' : Diagnostic} (h : (ofDiagnostic d).toJson = (ofDiagnostic d').toJson) :
    ofDiagnostic d = ofDiagnostic d' := by
  rw [toJson_ofDiagnostic, toJson_ofDiagnostic] at h
  simp only [Json.obj.injEq, List.cons.injEq, Prod.mk.injEq, Json.str.injEq, Json.int.injEq, true_and, and_true] at h
  obtain ⟨hcode, hstart, hlength, hmessage⟩ := h
  unfold ofDiagnostic
  rw [hcode, hstart, hlength, hmessage]

/-- Events that are read alike have the same fields. -/
theorem ofEvent_of_content {time time' : String} {event event' : Event}
    (h : content time "outcome" (ofEvent event) = content time' "outcome" (ofEvent event')) :
    ofEvent event = ofEvent event' := by
  have hrows : (ofEvent event).map (fun row => (row.1, row.2.toJson)) =
      (ofEvent event').map fun row => (row.1, row.2.toJson) :=
    (List.cons.inj (List.cons.inj (Json.obj.inj h)).2).2
  unfold ofEvent at hrows ⊢
  simp only [List.cons_append, List.nil_append, List.map_cons, List.cons.injEq, Prod.mk.injEq, true_and] at hrows
  obtain ⟨hpath, houtcome, hdetail, hdiagnostic⟩ := hrows
  have hpath : event.path.elim Value.null .str = event'.path.elim .null .str := by
    generalize event.path = path at hpath ⊢
    generalize event'.path = path' at hpath ⊢
    cases path with
    | none => cases path' with
      | none => rfl
      | some => cases hpath
    | some path => cases path' with
      | none => cases hpath
      | some path' => exact congrArg Value.str (Json.str.inj hpath)
  have hdiagnostic : event.diagnostic.elim [] (fun d => [("diagnostic", ofDiagnostic d)]) =
      event'.diagnostic.elim [] fun d => [("diagnostic", ofDiagnostic d)] := by
    generalize event.diagnostic = diagnostic at hdiagnostic ⊢
    generalize event'.diagnostic = diagnostic' at hdiagnostic ⊢
    cases diagnostic with
    | none => cases diagnostic' with
      | none => rfl
      | some => cases hdiagnostic
    | some d => cases diagnostic' with
      | none => cases hdiagnostic
      | some d' =>
        have hjson : (ofDiagnostic d).toJson = (ofDiagnostic d').toJson := (Prod.mk.inj (List.cons.inj hdiagnostic).1).2
        exact congrArg (fun v => [("diagnostic", v)]) (ofDiagnostic_of_toJson hjson)
  rw [hpath, Json.str.inj houtcome, Json.str.inj hdetail, hdiagnostic]

/-- Telemetry loses nothing: an event whose fields have names of their own and no fractions is logged as one
line that is read as its name, the time and the plain values of its fields, by a reader that takes their
whole numbers. An outcome event is one of these; and those with different fields leave different logs. -/
theorem telemetry_lossless (time : String) :
    (∀ (limit : Option Nat) (echo : Bool) (name : String) (fields : Fields), Named fields →
      (∀ row ∈ fields, row.2.Exact limit) →
      Logged limit time name fields (Journal.log time echo [.telemetry name fields])) ∧
    (∀ (limit : Option Nat) (event : Event), (∀ d ∈ event.diagnostic, Fits limit d.start ∧ Fits limit d.length) →
      Logged limit time "outcome" (ofEvent event) (Journal.log time true [.outcome event])) ∧
    ∀ (time' : String) (event event' : Event), ofEvent event ≠ ofEvent event' →
      Journal.log time true [.outcome event] ≠ Journal.log time' true [.outcome event'] := by
  have houtcome : ∀ (time : String) (limit : Option Nat) (event : Event),
      (∀ d ∈ event.diagnostic, Fits limit d.start ∧ Fits limit d.length) →
        Logged limit time "outcome" (ofEvent event) (Journal.log time true [.outcome event]) :=
    fun time limit event hfits => logged_line (named_ofEvent event) (exact_ofEvent hfits) time "outcome"
  refine ⟨fun limit _ name fields hnamed hexact => logged_line hnamed hexact time name, houtcome time, ?_⟩
  intro time' event event' hne hlog
  -- without a limit to their digits, both lines are read
  have hfits : ∀ (event : Event), ∀ d ∈ event.diagnostic, Fits none d.start ∧ Fits none d.length :=
    fun _ _ _ => ⟨nofun, nofun⟩
  obtain ⟨text, htext, -, hread⟩ := houtcome time none event (hfits event)
  obtain ⟨text', htext', -, hread'⟩ := houtcome time' none event' (hfits event')
  obtain rfl : text = text' := by
    rw [hlog, htext'] at htext
    exact (LogLine.mk.inj (List.cons.inj htext).1).2.2.symm
  exact hne (ofEvent_of_content (Except.ok.inj (hread.symm.trans hread')))

/-- A field with a line end and a character of two units, and one in which two keys have one text. -/
def mixedFields : Fields :=
  [("a", .seq [.str "\n😀", .int (-12), .null]),
    ("b", .mapping [(.bool true, .other "x"), (.str "True", .constant "Colour.TEN" (.int 10))])]

/-- A finding that was fixed, and one that was not. -/
def mixedEvents : Event × Event :=
  (⟨some "a", some ⟨"E1", some "a", 0, 2, "\"é\""⟩, .fixed, ""⟩, ⟨none, none, .error, "\\"⟩)

theorem mixed_lossless :
    Logged (some Decimal.mostDigits) "t" "n" mixedFields (Journal.log "t" false [.telemetry "n" mixedFields]) ∧
      Logged (some Decimal.mostDigits) "t" "outcome" (ofEvent mixedEvents.1)
        (Journal.log "t" true [.outcome mixedEvents.1]) ∧
      Journal.log "t" true [.outcome mixedEvents.1] ≠ Journal.log "u" true [.outcome mixedEvents.2] := by
  have hfits : ∀ n ∈ [-12, 10, 0, 2], Fits (some Decimal.mostDigits) n := by
    rintro n hn _ ⟨⟩
    revert n
    decide
  have hnamed : Named mixedFields := ⟨by decide, by decide, by decide⟩
  have hexact : ∀ row ∈ mixedFields, row.2.Exact (some Decimal.mostDigits) := by
    unfold mixedFields
    simp only [List.forall_mem_cons]
    refine ⟨.seq ?_, .mapping ?_, nofun⟩
    · simp only [List.forall_mem_cons]
      exact ⟨.str _, .int (hfits (-12) (by decide)), .null, nofun⟩
    · simp only [List.forall_mem_cons]
      exact ⟨.other _, .constant _ (.int (hfits 10 (by decide))), nofun⟩
  have hevent : ∀ d ∈ mixedEvents.1.diagnostic,
      Fits (some Decimal.mostDigits) d.start ∧ Fits (some Decimal.mostDigits) d.length := by
    rintro _ ⟨⟩
    exact ⟨hfits 0 (by decide), hfits 2 (by decide)⟩
  have hdiffer : ofEvent mixedEvents.1 ≠ ofEvent mixedEvents.2 := by
    intro h
    cases congrArg List.length h
  obtain ⟨hline, houtcome, hlines⟩ := telemetry_lossless "t"
  exact ⟨hline _ false "n" _ hnamed hexact, houtcome _ _ hevent, hlines "u" _ _ hdiffer⟩

end Amend.Telemetry
