/-
The values of what was read. A plain scalar has no value only if it writes a number, a day or a moment
that cannot be; and a source is refused for its form, for its end, or for a scalar.
-/
import Amend.Proofs.Yaml.Node
import Amend.Proofs.Yaml.Token

namespace Amend.Yaml

/-! ## Plain scalars -/

/-- A scalar that looks like a value that there is not. -/
inductive Impossible (s : String) : Prop where
  /-- A mark of a base, and underscores for its digits. -/
  | digitless (mark : Char) (digits : List Char) (h : (signed s.toList).2 = '0' :: mark :: digits)
      (hmark : mark = 'b' ∨ mark = 'x') (hdigits : digits ≠ [] ∧ ∀ c ∈ digits, c = '_')
  /-- Too many digits, the first of them not zero, up to the end or to a colon. -/
  | lengthy (first : Char) (digits more : List Char) (h : (signed s.toList).2 = first :: digits ++ more)
      (hfirst : '1' ≤ first ∧ first ≤ '9') (hdigits : ∀ c ∈ digits, isLoose Text.isPlainDigit c = true)
      (hmore : more = [] ∨ more.head? = some ':')
      (hlong : Decimal.mostDigits < ((first :: digits).filter Text.isPlainDigit).length)
  /-- A day that the calendar does not have. -/
  | day (date : Date) (h : day? 2 s.toList = some (date, [])) (hfault : (Date.fault? date).isSome = true)
  /-- A moment that the calendar or the clock does not have. -/
  | moment (m : Moment) (h : moment? s.toList = some m) (hfault : (Moment.fault? m).isSome = true)

theorem colonParts_ne_nil (cs : List Char) : colonParts cs ≠ [] := by
  cases cs with
  | nil => exact nofun
  | cons c cs =>
    rw [colonParts]
    split
    · exact nofun
    · split <;> exact nofun

theorem colonParts_head {cs head : List Char} {parts : List (List Char)} (h : colonParts cs = head :: parts) :
    ∃ more, cs = head ++ more ∧ (more = [] ∨ more.head? = some ':') := by
  induction cs generalizing head parts with
  | nil =>
    cases h
    exact ⟨[], rfl, .inl rfl⟩
  | cons c cs ih =>
    rw [colonParts] at h
    split at h
    · rename_i hnil
      exact absurd hnil (colonParts_ne_nil cs)
    · rename_i part rest hparts
      split at h
      · cases h
        rename_i hcolon
        exact ⟨c :: cs, rfl, .inr (congrArg some hcolon)⟩
      · cases h
        obtain ⟨more, rfl, hmore⟩ := ih hparts
        exact ⟨more, rfl, hmore⟩

theorem markedInt_error {base : Nat} {digits : List Char} {fault : Fault} (h : markedInt base digits = .error fault) :
    ∀ c ∈ digits, c = '_' := by
  unfold markedInt at h
  split at h
  · rename_i hall
    simpa using hall
  · cases h

theorem decimalInt_error {digits : List Char} {fault : Fault} (h : decimalInt digits = .error fault) :
    Decimal.mostDigits < (digits.filter Text.isPlainDigit).length := by
  unfold decimalInt at h
  simp only at h
  split at h
  · assumption
  · cases h

theorem map_error {α β ε : Type} {r : Except ε α} {f : α → β} {e : ε} (h : r.map f = .error e) : r = .error e := by
  cases r with
  | error e' =>
    cases h
    rfl
  | ok a => cases h

/-- The first part of a number is not empty, for a digit is no colon. -/
theorem colonParts_digit {first : Char} {digits head : List Char} {parts : List (List Char)} (hfirst : first ≤ '9')
    (h : colonParts (first :: digits) = head :: parts) :
    ∃ part more, head = first :: part ∧ digits = part ++ more ∧ (more = [] ∨ more.head? = some ':') := by
  obtain ⟨more, hcs, hmore⟩ := colonParts_head h
  cases head with
  | nil =>
    rw [List.nil_append] at hcs
    rcases hmore with rfl | hcolon
    · cases hcs
    · rw [← hcs] at hcolon
      cases hcolon
      exact absurd hfirst (by decide)
  | cons c part =>
    obtain ⟨rfl, rfl⟩ := List.cons.inj hcs
    exact ⟨part, more, rfl, rfl, hmore⟩

theorem unsignedInt?_error {cs : List Char} {fault : Fault} (h : unsignedInt? cs = some (.error fault)) :
    (∃ mark digits, cs = '0' :: mark :: digits ∧ (mark = 'b' ∨ mark = 'x') ∧ digits ≠ [] ∧ ∀ c ∈ digits, c = '_') ∨
    ∃ first digits more, cs = first :: digits ++ more ∧ ('1' ≤ first ∧ first ≤ '9') ∧
      (∀ c ∈ digits, isLoose Text.isPlainDigit c = true) ∧ (more = [] ∨ more.head? = some ':') ∧
      Decimal.mostDigits < ((first :: digits).filter Text.isPlainDigit).length := by
  unfold unsignedInt? at h
  split at h
  · split at h
    · rename_i digits hdigits
      have hne : digits ≠ [] := by
        rintro rfl
        cases hdigits
      exact .inl ⟨'b', digits, rfl, .inl rfl, hne, markedInt_error (Option.some.inj h)⟩
    · cases h
  · split at h
    · rename_i digits hdigits
      have hne : digits ≠ [] := by
        rintro rfl
        cases hdigits
      exact .inl ⟨'x', digits, rfl, .inr rfl, hne, markedInt_error (Option.some.inj h)⟩
    · cases h
  · cases h
  · split at h
    · cases h
    · cases h
  · rename_i first digits _ _ _ _
    split at h
    · cases h
    · rename_i hfirst
      simp only [Bool.not_eq_true', Bool.not_eq_false, Bool.and_eq_true, decide_eq_true_eq] at hfirst
      split at h
      · rename_i hdigits
        exact .inr ⟨first, digits, [], (List.append_nil _).symm, hfirst, List.all_eq_true.1 hdigits, .inl rfl,
          decimalInt_error (Option.some.inj h)⟩
      · split at h
        · rename_i head parts hparts
          obtain ⟨part, more, rfl, rfl, hmore⟩ := colonParts_digit hfirst.2 hparts
          split at h
          · rename_i hcond
            simp only [Bool.and_eq_true, List.all_eq_true] at hcond
            exact .inr ⟨first, part, more, rfl, hfirst, (List.forall_mem_cons.1 hcond.1.1).2, hmore,
              decimalInt_error (map_error (Option.some.inj h))⟩
          · cases h
        · cases h
  · cases h

theorem int?_error {s : String} {fault : Fault} (h : int? s.toList = some (.error fault)) : Impossible s := by
  unfold int? at h
  obtain ⟨r, hr, hmap⟩ := Option.map_eq_some_iff.1 h
  rw [map_error hmap] at hr
  rcases unsignedInt?_error hr with ⟨mark, digits, hcs, hmark, hdigits⟩ |
    ⟨first, digits, more, hcs, hfirst, hdigits, hmore, hlong⟩
  · exact .digitless mark digits hcs hmark hdigits
  · exact .lengthy first digits more hcs hfirst hdigits hmore hlong

theorem time?_error {s : String} {fault : Fault} (h : time? s.toList = some (.error fault)) : Impossible s := by
  unfold time? at h
  simp only at h
  split at h
  · rename_i date hday
    rcases hfault : Date.fault? date with _ | message
    · rw [hfault] at h
      cases h
    · exact .day date hday (by rw [hfault]; rfl)
  · obtain ⟨m, hm, h⟩ := Option.map_eq_some_iff.1 h
    rcases hfault : Moment.fault? m with _ | message
    · rw [hfault] at h
      cases h
    · exact .moment m hm (by rw [hfault]; rfl)

/-- A plain scalar is refused as one of two signs, or as a value that there is not. -/
theorem plain_error {s : String} {fault : Fault} (h : plain s = .error fault) :
    fault = .malformed ∨ Impossible s := by
  unfold plain at h
  split at h
  · cases h
  · split at h
    · cases h
    · split at h
      · cases h
      · split at h
        · cases h
          exact .inl rfl
        · split at h
          · rename_i r hr
            rw [h] at hr
            exact .inr (int?_error hr)
          · split at h
            · cases h
            · rcases htime : time? s.toList with _ | r
              · rw [htime] at h
                cases h
              · rw [htime] at h
                cases h
                exact .inr (time?_error htime)

/-- A character that a number, a day or a moment may start with. -/
def startsNumber (c : Char) : Bool :=
  Text.isPlainDigit c || c = '+' || c = '-'

theorem startsNumber_of_signed {cs rest : List Char} {c : Char} (h : (signed cs).2 = c :: rest)
    (hc : Text.isPlainDigit c = true) : cs.head?.any startsNumber = true := by
  unfold signed at h
  split at h
  · rfl
  · rfl
  · cases h
    simp [startsNumber, hc]

theorem startsNumber_of_day? {least : Nat} {cs : List Char} {found : Date × List Char} (h : day? least cs = some found) :
    cs.head?.any startsNumber = true := by
  unfold day? at h
  obtain ⟨year, hyear, -⟩ := Option.bind_eq_some_iff.1 h
  unfold digitRun? at hyear
  simp only at hyear
  split at hyear
  · cases hyear
  · rename_i hlength
    cases cs with
    | nil => exact absurd (by decide) hlength
    | cons c cs =>
      by_cases hc : Text.isPlainDigit c = true
      · simp [startsNumber, hc]
      · exact absurd (by simp [hc]) hlength

/-- What is refused as a value starts like a number. -/
theorem Impossible.startsNumber {s : String} (h : Impossible s) : s.toList.head?.any startsNumber = true := by
  cases h with
  | digitless mark digits h => exact startsNumber_of_signed h (by decide)
  | lengthy first digits more h hfirst =>
    have hzero : '0' ≤ first := Char.le_trans (by decide) hfirst.1
    exact startsNumber_of_signed h (by simp [Text.isPlainDigit, hzero, hfirst.2])
  | day date h => exact startsNumber_of_day? h
  | moment m h =>
    unfold moment? at h
    obtain ⟨date, hdate, -⟩ := Option.bind_eq_some_iff.1 h
    exact startsNumber_of_day? hdate

/-! ## Nodes -/

/-- A fault that a node can be refused for. -/
def Node.Faults (node : Node) (fault : Fault) : Prop :=
  fault = .malformed ∨ ∃ text, node.Holds text true ∧ plain text = .error fault

namespace Node

variable {fault : Fault}

theorem Faults.item {items : List Node} {item : Node} (hitem : item ∈ items) (h : item.Faults fault) :
    (sequence items).Faults fault :=
  h.imp_right fun ⟨text, hholds, hplain⟩ => ⟨text, .item hitem hholds, hplain⟩

theorem Faults.key {node : Node} {entry : Node × Node} (hentry : entry ∈ node.pairs)
    (h : entry.1.Faults fault) : node.Faults fault :=
  h.imp_right fun ⟨text, hholds, hplain⟩ => ⟨text, .key hentry hholds, hplain⟩

theorem Faults.value {node : Node} {entry : Node × Node} (hentry : entry ∈ node.pairs)
    (h : entry.2.Faults fault) : node.Faults fault :=
  h.imp_right fun ⟨text, hholds, hplain⟩ => ⟨text, .value hentry hholds, hplain⟩

theorem Faults.cons {entries : List (Node × Node)} (entry : Node × Node) (h : (mapping entries).Faults fault) :
    (mapping (entry :: entries)).Faults fault := by
  refine h.imp_right fun ⟨text, hholds, hplain⟩ => ⟨text, ?_, hplain⟩
  cases hholds with
  | key hentry hholds => exact .key (List.mem_cons_of_mem _ hentry) hholds
  | value hentry hholds => exact .value (List.mem_cons_of_mem _ hentry) hholds

/-- A set has the faults of the mapping that writes it. -/
theorem Faults.set {entries : List (Node × Node)} (h : (mapping entries).Faults fault) :
    (Node.set entries).Faults fault := by
  refine h.imp_right fun ⟨text, hholds, hplain⟩ => ⟨text, ?_, hplain⟩
  cases hholds with
  | key hentry hholds => exact .key hentry hholds
  | value hentry hholds => exact .value hentry hholds

theorem faults_scalar {text : String} {isPlain : Bool} (h : Yaml.scalar text isPlain = .error fault) :
    (scalar text isPlain).Faults fault := by
  cases isPlain with
  | true => exact .inr ⟨text, .here text true, h⟩
  | false => cases h

end Node

/-! ## Level by level -/

/-- A traversal reaches its end, or one of the items stops it. -/
theorem mapM_cases {α β ε : Type} (f : α → Except ε β) (items : List α) :
    (∃ results, items.mapM f = .ok results ∧ ∀ b ∈ results, ∃ a ∈ items, f a = .ok b) ∨
    ∃ a ∈ items, ∃ e, f a = .error e ∧ items.mapM f = .error e := by
  induction items with
  | nil => exact .inl ⟨[], rfl, nofun⟩
  | cons a items ih =>
    rw [List.mapM_cons]
    rcases ha : f a with e | b
    · exact .inr ⟨a, List.mem_cons_self .., e, ha, rfl⟩
    · rcases ih with ⟨results, hrest, hfrom⟩ | ⟨a', hmem, e, ha', hrest⟩
      · rw [hrest]
        refine .inl ⟨b :: results, rfl, List.forall_mem_cons.2 ⟨⟨a, List.mem_cons_self .., ha⟩, fun b' hb' => ?_⟩⟩
        obtain ⟨a', hmem, ha'⟩ := hfrom b' hb'
        exact ⟨a', List.mem_cons_of_mem _ hmem, ha'⟩
      · rw [hrest]
        exact .inr ⟨a', List.mem_cons_of_mem _ hmem, e, ha', rfl⟩

namespace Node

/-- Looking at a node gives nodes of which none has a fault of its own, or a fault of the node. -/
def Surveys (node : Node) : Except Fault (List Node) → Prop
  | .ok inner => ∀ other ∈ inner, ∀ fault, other.Faults fault → node.Faults fault
  | .error fault => node.Faults fault

theorem surveys_glance (node : Node) : node.Surveys (glance node) := by
  cases node with
  | scalar text isPlain =>
    rw [glance]
    rcases h : Yaml.scalar text isPlain with fault | t
    · exact faults_scalar h
    · exact nofun
  | _ => exact List.forall_mem_singleton.2 fun _ h => h

theorem faults_glanceKey {node : Node} {fault : Fault} (h : glanceKey node = .error fault) : node.Faults fault := by
  unfold glanceKey at h
  split at h
  · split at h
    · cases h
    · exact faults_scalar (map_error h)
  · cases h
    exact .inl rfl

theorem surveys_glanceEntry {node : Node} {entry : Node × Node} (hentry : entry ∈ node.pairs) :
    node.Surveys (glanceEntry entry) := by
  unfold glanceEntry
  rcases hkey : glanceKey entry.1 with fault | _
  · exact .key hentry (faults_glanceKey hkey)
  · have hvalue := surveys_glance entry.2
    simp only [bind, Except.bind]
    cases hr : glance entry.2 with
    | error fault =>
      rw [hr] at hvalue
      exact .value hentry hvalue
    | ok inner =>
      rw [hr] at hvalue
      exact fun other hother fault hfault => .value hentry (hvalue other hother fault hfault)

theorem surveys_mapM {α : Type} {node : Node} {f : α → Except Fault (List Node)} {parts : List α}
    (h : ∀ part ∈ parts, node.Surveys (f part)) : node.Surveys ((parts.mapM f).map List.flatten) := by
  rcases mapM_cases f parts with ⟨results, hr, hfrom⟩ | ⟨part, hpart, fault, hf, hr⟩
  · rw [hr]
    intro other hother
    obtain ⟨inner, hinner, hmem⟩ := List.mem_flatten.1 hother
    obtain ⟨part, hpart, hf⟩ := hfrom inner hinner
    have hsurveys := h part hpart
    rw [hf] at hsurveys
    exact hsurveys other hmem
  · rw [hr]
    have hsurveys := h part hpart
    rw [hf] at hsurveys
    exact hsurveys

theorem surveys_survey (node : Node) : node.Surveys (survey node) := by
  cases node with
  | scalar text isPlain => exact surveys_glance _
  | sequence items =>
    refine surveys_mapM fun item hitem => ?_
    have hglance := surveys_glance item
    cases hr : glance item with
    | error fault =>
      rw [hr] at hglance
      exact .item hitem hglance
    | ok inner =>
      rw [hr] at hglance
      exact fun other hother fault hfault => .item hitem (hglance other hother fault hfault)
  | mapping entries | set entries => exact surveys_mapM fun entry hentry => surveys_glanceEntry hentry
  | misfit => exact .inl rfl

end Node

/-- Whatever level a fault is met on, it is one of the nodes at the top. -/
theorem surveyLevels_error {fault : Fault} (depth : Nat) : ∀ {nodes : List Node},
    surveyLevels depth nodes = .error fault → ∃ node ∈ nodes, node.Faults fault := by
  induction depth with
  | zero => exact nofun
  | succ depth ih =>
    intro nodes h
    cases nodes with
    | nil => cases h
    | cons node nodes =>
      rw [surveyLevels] at h
      rcases mapM_cases survey (node :: nodes) with ⟨results, hr, hfrom⟩ | ⟨node', hnode, fault', hf, hr⟩
      · rw [hr] at h
        obtain ⟨other, hother, hfault⟩ := ih h
        obtain ⟨inner, hinner, hmem⟩ := List.mem_flatten.1 hother
        obtain ⟨node', hnode, hf⟩ := hfrom inner hinner
        have hsurveys := node'.surveys_survey
        rw [hf] at hsurveys
        exact ⟨node', hnode, hsurveys other hmem fault hfault⟩
      · rw [hr] at h
        cases h
        have hsurveys := node'.surveys_survey
        rw [hf] at hsurveys
        exact ⟨node', hnode, hsurveys⟩
      · exact nofun

/-! ## Values -/

mutual

theorem value_error {fault : Fault} : ∀ {node : Node}, value node = .error fault → node.Faults fault
  | .scalar text isPlain, h => Node.faults_scalar (by rwa [value] at h)
  | .sequence items, h => by
    rw [value] at h
    rcases hr : values items with fault' | trees
    · rw [hr] at h
      cases h
      obtain ⟨item, hitem, hfault⟩ := values_error hr
      exact .item hitem hfault
    · rw [hr] at h
      cases h
  | .mapping nodes, h => by
    rw [value] at h
    rcases hr : entries nodes [] with fault' | trees
    · rw [hr] at h
      cases h
      exact entries_error hr
    · rw [hr] at h
      cases h
  | .set nodes, h => by
    rw [value] at h
    rcases hr : entries nodes [] with fault' | trees
    · rw [hr] at h
      cases h
      exact (entries_error hr).set
    · rw [hr] at h
      cases h
  | .misfit, h => by
    rw [value] at h
    cases h
    exact .inl rfl

theorem values_error {fault : Fault} : ∀ {items : List Node}, values items = .error fault →
    ∃ item ∈ items, item.Faults fault
  | [], h => by
    rw [values] at h
    cases h
  | item :: items, h => by
    rw [values] at h
    rcases hr : value item with fault' | tree
    · rw [hr] at h
      cases h
      exact ⟨item, List.mem_cons_self .., value_error hr⟩
    · rw [hr] at h
      rcases hrest : values items with fault' | trees
      · rw [hrest] at h
        cases h
        obtain ⟨item', hitem, hfault⟩ := values_error hrest
        exact ⟨item', List.mem_cons_of_mem _ hitem, hfault⟩
      · rw [hrest] at h
        cases h

theorem entries_error {fault : Fault} : ∀ {nodes : List (Node × Node)} {done : List (Tree × Tree)},
    entries nodes done = .error fault → (Node.mapping nodes).Faults fault
  | [], _, h => by
    rw [entries] at h
    cases h
  | (key, val) :: nodes, done, h => by
    rw [entries] at h
    have hentry : (key, val) ∈ (key, val) :: nodes := List.mem_cons_self ..
    have hlast : ∀ tree, (if !isKey tree then .error .malformed else do
        let v ← value val
        entries nodes (Tree.putEntry done tree v)) = .error fault →
        (Node.mapping ((key, val) :: nodes)).Faults fault := by
      intro tree h
      split at h
      · cases h
        exact .inl rfl
      · rcases hval : value val with fault' | v
        · rw [hval] at h
          cases h
          exact .value hentry (value_error hval)
        · rw [hval] at h
          exact (entries_error h).cons _
    split at h
    · exact hlast (.text "=") h
    · rcases hkey : value key with fault' | tree
      · rw [hkey] at h
        cases h
        exact .key hentry (value_error hkey)
      · rw [hkey] at h
        exact hlast tree h

end

/-! ## Sources -/

/-- A source is refused for its form or its end, for a far escape, or for a plain scalar that writes what
cannot be. -/
theorem read_error {source : Source} {fault : Fault} (h : read source = .error fault) :
    Stops source.text source.ending fault ∨ ∃ s, .scalar s true ∈ tokens source ∧ Impossible s := by
  have hnode : ∀ {node : Node}, Node.From (tokens source) node → node.Faults fault →
      Stops source.text source.ending fault ∨ ∃ s, .scalar s true ∈ tokens source ∧ Impossible s := by
    intro node hfrom hfaults
    rcases hfaults with rfl | ⟨text, hholds, hplain⟩
    · exact .inl (.inl rfl)
    · rcases plain_error hplain with rfl | himpossible
      · exact .inl (.inl rfl)
      · rcases hfrom text true hholds with hmem | ⟨rfl, -⟩
        · exact .inr ⟨text, hmem, himpossible⟩
        · cases hplain
  unfold read at h
  simp only at h
  rcases Node.ofTokens_cases (tokens source) with ⟨content, hr, hfrom⟩ | ⟨fault', hr, hfault⟩
  · rw [hr] at h
    cases content with
    | none => cases h
    | some node =>
      have hfrom := hfrom node rfl
      simp only [bind, Except.bind] at h
      split at h
      · rename_i hsurvey
        cases h
        obtain ⟨node', hmem, hfaults⟩ := surveyLevels_error _ hsurvey
        cases List.mem_singleton.1 hmem
        exact hnode hfrom hfaults
      · exact hnode hfrom (value_error h)
  · rw [hr] at h
    cases h
    exact hfault.elim (fun hform => .inl (.inl hform)) fun hmem => .inl (stops_of_mem_tokens hmem)

end Amend.Yaml
