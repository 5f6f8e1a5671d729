/-
Projections of a journal: its events, queries and calls of the writer go along with `++`. What a
journal has about one file is enough to know the events and the calls of that file.
-/
import Amend.Journal
import Mathlib.Data.List.Basic

namespace Amend

namespace Journal

variable (journal other : Journal)

@[simp] theorem events_nil : events [] = [] := rfl

@[simp] theorem events_append : events (journal ++ other) = events journal ++ events other :=
  List.filterMap_append ..

@[simp] theorem events_cons_note (level : Level) (channel : Channel) (text : String) :
    events (.note level channel text :: journal) = events journal := rfl

@[simp] theorem events_cons_outcome (event : Event) :
    events (.outcome event :: journal) = event :: events journal := rfl

@[simp] theorem events_cons_telemetry (name : String) (fields : Telemetry.Fields) :
    events (.telemetry name fields :: journal) = events journal := rfl

@[simp] theorem events_cons_query (d : Diagnostic) : events (.query d :: journal) = events journal := rfl

@[simp] theorem events_cons_write (path content : String) (result : Except Failure Unit) :
    events (.write path content result :: journal) = events journal := rfl

@[simp] theorem calls_nil : calls [] = [] := rfl

@[simp] theorem calls_append : calls (journal ++ other) = calls journal ++ calls other :=
  List.filterMap_append ..

@[simp] theorem calls_cons_note (level : Level) (channel : Channel) (text : String) :
    calls (.note level channel text :: journal) = calls journal := rfl

@[simp] theorem calls_cons_outcome (event : Event) : calls (.outcome event :: journal) = calls journal := rfl

@[simp] theorem calls_cons_telemetry (name : String) (fields : Telemetry.Fields) :
    calls (.telemetry name fields :: journal) = calls journal := rfl

@[simp] theorem calls_cons_query (d : Diagnostic) : calls (.query d :: journal) = calls journal := rfl

@[simp] theorem calls_cons_write (path content : String) (result : Except Failure Unit) :
    calls (.write path content result :: journal) = ⟨path, content, result⟩ :: calls journal := rfl

@[simp] theorem queries_nil : queries [] = [] := rfl

@[simp] theorem queries_append : queries (journal ++ other) = queries journal ++ queries other :=
  List.filterMap_append ..

@[simp] theorem queries_cons_note (level : Level) (channel : Channel) (text : String) :
    queries (.note level channel text :: journal) = queries journal := rfl

@[simp] theorem queries_cons_outcome (event : Event) : queries (.outcome event :: journal) = queries journal := rfl

@[simp] theorem queries_cons_telemetry (name : String) (fields : Telemetry.Fields) :
    queries (.telemetry name fields :: journal) = queries journal := rfl

@[simp] theorem queries_cons_query (d : Diagnostic) : queries (.query d :: journal) = d :: queries journal := rfl

@[simp] theorem queries_cons_write (path content : String) (result : Except Failure Unit) :
    queries (.write path content result :: journal) = queries journal := rfl

theorem events_notes (lines : List LogLine) : events (lines.map LogLine.entry) = [] := by
  induction lines with
  | nil => rfl
  | cons line lines ih => exact ih

theorem calls_notes (lines : List LogLine) : calls (lines.map LogLine.entry) = [] := by
  induction lines with
  | nil => rfl
  | cons line lines ih => exact ih

theorem queries_notes (lines : List LogLine) : queries (lines.map LogLine.entry) = [] := by
  induction lines with
  | nil => rfl
  | cons line lines ih => exact ih

/-- What becomes of a sink that is told of the events as they happen. -/
def tell {σ : Type} (sink : σ → Event → σ) : σ → Journal → σ
  | state, [] => state
  | state, .outcome event :: rest => tell sink (sink state event) rest
  | state, _ :: rest => tell sink state rest

theorem tell_eq_foldl {σ : Type} (sink : σ → Event → σ) (journal : Journal) :
    ∀ state, tell sink state journal = journal.events.foldl sink state := by
  induction journal with
  | nil => intro state; rfl
  | cons entry rest ih =>
    intro state
    cases entry with
    | note | telemetry | query | write => exact ih state
    | outcome event => exact ih (sink state event)

end Journal

/-! ## What a journal has about a file -/

/-- Is the entry an event of the file, or a call of the writer for it? -/
def Entry.isAbout (path : String) : Entry → Bool
  | .outcome event => event.path = some path
  | .write p _ _ => p = path
  | _ => false

namespace Journal

variable {journal other : Journal} {path : String}

/-- The events of a file and the calls of the writer for it. -/
def about (path : String) (journal : Journal) : Journal :=
  journal.filter (Entry.isAbout path)

@[simp] theorem about_nil (path : String) : about path [] = [] := rfl

@[simp] theorem about_append (path : String) (journal other : Journal) :
    about path (journal ++ other) = about path journal ++ about path other :=
  List.filter_append ..

theorem events_about (path : String) (journal : Journal) :
    events (about path journal) = journal.events.filter (·.path = some path) := by
  induction journal with
  | nil => rfl
  | cons entry rest ih =>
    unfold about at *
    cases entry with
    | note | telemetry | query => simpa [Entry.isAbout] using ih
    | outcome event => by_cases h : event.path = some path <;> simp [Entry.isAbout, h, ih]
    | write p content result => by_cases h : p = path <;> simp [Entry.isAbout, h, ih]

theorem calls_about (path : String) (journal : Journal) :
    calls (about path journal) = journal.calls.filter (·.path = path) := by
  induction journal with
  | nil => rfl
  | cons entry rest ih =>
    unfold about at *
    cases entry with
    | note | telemetry | query => simpa [Entry.isAbout] using ih
    | outcome event => by_cases h : event.path = some path <;> simp [Entry.isAbout, h, ih]
    | write p content result => by_cases h : p = path <;> simp [Entry.isAbout, h, ih]

/-- A journal that speaks of one file only. -/
structure Confined (path : String) (journal : Journal) : Prop where
  events : ∀ e ∈ journal.events, e.path = some path
  calls : ∀ c ∈ journal.calls, c.path = path

theorem Confined.of_append (h : Confined path (journal ++ other)) : Confined path journal ∧ Confined path other := by
  refine ⟨⟨fun e he => h.events e ?_, fun c hc => h.calls c ?_⟩, ⟨fun e he => h.events e ?_, fun c hc => h.calls c ?_⟩⟩
  · rw [events_append]; exact List.mem_append_left _ he
  · rw [calls_append]; exact List.mem_append_left _ hc
  · rw [events_append]; exact List.mem_append_right _ he
  · rw [calls_append]; exact List.mem_append_right _ hc

theorem Confined.of_cons {entry : Entry} (h : Confined path (entry :: journal)) :
    Confined path [entry] ∧ Confined path journal :=
  of_append (by simpa using h)

/-- A journal that speaks of one file has nothing about another. -/
theorem Confined.about_other (h : Confined path journal) {p : String} (hne : p ≠ path) : about p journal = [] := by
  refine List.filter_eq_nil_iff.2 fun entry hentry => ?_
  cases entry with
  | note | telemetry | query => simp [Entry.isAbout]
  | outcome event =>
    have := h.events event (List.mem_filterMap.2 ⟨_, hentry, rfl⟩)
    simpa [Entry.isAbout, this] using Ne.symm hne
  | write p' content result =>
    have : p' = path := h.calls ⟨p', content, result⟩ (List.mem_filterMap.2 ⟨_, hentry, rfl⟩)
    simpa [Entry.isAbout, this] using Ne.symm hne

end Journal

end Amend
