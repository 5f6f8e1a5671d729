/-
Nodes and their tokens. Every scalar of a node that is read stands among the tokens, save those that
are not written; and tokens are refused for their form, or for where the text could not be read on.
-/
import Amend.Yaml.Node
import Mathlib.Data.List.Basic

namespace Amend.Yaml

namespace Node

/-- The entries of a mapping or of a set. -/
def pairs : Node → List (Node × Node)
  | .mapping entries => entries
  | .set entries => entries
  | _ => []

/-- A scalar that is somewhere in a node. -/
inductive Holds : Node → String → Bool → Prop where
  | here (text : String) (plain : Bool) : Holds (.scalar text plain) text plain
  | item {items : List Node} {item : Node} {text : String} {plain : Bool} (hitem : item ∈ items)
      (h : item.Holds text plain) : Holds (.sequence items) text plain
  | key {node : Node} {entry : Node × Node} {text : String} {plain : Bool} (hentry : entry ∈ node.pairs)
      (h : entry.1.Holds text plain) : Holds node text plain
  | value {node : Node} {entry : Node × Node} {text : String} {plain : Bool} (hentry : entry ∈ node.pairs)
      (h : entry.2.Holds text plain) : Holds node text plain

/-- A node whose scalars are tokens, or are not written. -/
def From (tokens : List Token) (node : Node) : Prop :=
  ∀ text plain, node.Holds text plain → .scalar text plain ∈ tokens ∨ text = "" ∧ plain = true

section From

variable {tokens : List Token}

theorem from_empty : From tokens empty := by
  intro text plain hholds
  cases hholds with
  | here => exact .inr ⟨rfl, rfl⟩
  | key hentry _ | value hentry _ => cases hentry

theorem from_scalar {text : String} {plain : Bool} (h : .scalar text plain ∈ tokens) :
    From tokens (.scalar text plain) := by
  intro text' plain' hholds
  cases hholds with
  | here => exact .inl h
  | key hentry _ | value hentry _ => cases hentry

theorem from_sequence {items : List Node} (h : ∀ item ∈ items, From tokens item) : From tokens (.sequence items) := by
  intro text plain hholds
  cases hholds with
  | item hitem hholds => exact h _ hitem text plain hholds
  | key hentry _ | value hentry _ => cases hentry

theorem from_misfit : From tokens .misfit := by
  intro text plain hholds
  cases hholds with
  | key hentry _ | value hentry _ => cases hentry

/-- An entry of a mapping whose scalars are tokens. -/
def EntryFrom (tokens : List Token) (entry : Node × Node) : Prop :=
  From tokens entry.1 ∧ From tokens entry.2

theorem from_mapping {entries : List (Node × Node)} (h : ∀ entry ∈ entries, EntryFrom tokens entry) :
    From tokens (.mapping entries) := by
  intro text plain hholds
  cases hholds with
  | key hentry hholds => exact (h _ hentry).1 text plain hholds
  | value hentry hholds => exact (h _ hentry).2 text plain hholds

/-- A node that is said to be a set has the scalars that it had, or none. -/
theorem from_asSet {node : Node} (h : From tokens node) : From tokens node.asSet := by
  cases node with
  | mapping entries =>
    intro text plain hholds
    cases hholds with
    | key hentry hholds => exact h text plain (.key hentry hholds)
    | value hentry hholds => exact h text plain (.value hentry hholds)
  | _ => exact from_misfit

end From

/-! ## Reading from tokens -/

/-- Tokens give something of a kind and leave some of them, or are refused. -/
def Parses {α : Type} (tokens : List Token) (good : α → Prop) : Except Fault (α × List Token) → Prop
  | .ok (a, rest) => good a ∧ rest ⊆ tokens
  | .error fault => fault = .malformed ∨ .broken fault ∈ tokens

section Parsing

variable {α β : Type} {tokens rest : List Token} {good : α → Prop} {good' : β → Prop}

theorem Parses.bind {r : Except Fault (α × List Token)} {f : α × List Token → Except Fault (β × List Token)}
    (h : Parses tokens good r) (hf : ∀ a rest, good a → rest ⊆ tokens → Parses tokens good' (f (a, rest))) :
    Parses tokens good' (r >>= f) := by
  cases r with
  | error fault => exact h
  | ok found => exact hf found.1 found.2 h.1 h.2

theorem Parses.ok {a : α} (h : good a) (hrest : rest ⊆ tokens) :
    Parses tokens good (pure (a, rest)) :=
  ⟨h, hrest⟩

theorem Parses.malformed : Parses tokens good (.error .malformed) :=
  .inl rfl

/-- One more item before those that are read next. -/
theorem Parses.cons {a : α} {r : Except Fault (List α × List Token)} (ha : good a)
    (h : Parses tokens (∀ a ∈ ·, good a) r) :
    Parses tokens (∀ a ∈ ·, good a) (do let (as, rest) ← r; return (a :: as, rest)) :=
  h.bind fun _ _ has hrest => .ok (List.forall_mem_cons.2 ⟨ha, has⟩) hrest

theorem refuse_cases (h : rest ⊆ tokens) :
    ∃ fault, (refuse rest : Except Fault α) = .error fault ∧ (fault = .malformed ∨ .broken fault ∈ tokens) := by
  unfold refuse
  split
  · exact ⟨_, rfl, .inr (h (List.mem_cons_self ..))⟩
  · exact ⟨_, rfl, .inl rfl⟩

theorem Parses.refuse (h : rest ⊆ tokens) : Parses tokens good (refuse rest) := by
  obtain ⟨fault, hr, hfault⟩ : ∃ fault, (Node.refuse rest : Except Fault (α × List Token)) = .error fault ∧ _ :=
    refuse_cases h
  rw [hr]
  exact hfault

theorem subset_of_cons {token : Token} (h : token :: rest ⊆ tokens) : rest ⊆ tokens :=
  fun _ hmem => h (List.mem_cons_of_mem _ hmem)

end Parsing

/-- Every part of a node is read from tokens, with so much fuel. -/
structure Reading (tokens : List Token) (fuel : Nat) : Prop where
  node : ∀ block bare {rest}, rest ⊆ tokens → Parses tokens (From tokens) (node block bare fuel rest)
  nodeUnless : ∀ closing block bare {rest}, rest ⊆ tokens →
    Parses tokens (From tokens) (nodeUnless closing block bare fuel rest)
  blockItems : ∀ {rest}, rest ⊆ tokens → Parses tokens (∀ item ∈ ·, From tokens item) (blockItems fuel rest)
  bareItems : ∀ {rest}, rest ⊆ tokens → Parses tokens (∀ item ∈ ·, From tokens item) (bareItems fuel rest)
  blockEntries : ∀ {rest}, rest ⊆ tokens →
    Parses tokens (∀ entry ∈ ·, EntryFrom tokens entry) (blockEntries fuel rest)
  flowItems : ∀ first {rest}, rest ⊆ tokens →
    Parses tokens (∀ item ∈ ·, From tokens item) (flowItems first fuel rest)
  flowEntries : ∀ first {rest}, rest ⊆ tokens →
    Parses tokens (∀ entry ∈ ·, EntryFrom tokens entry) (flowEntries first fuel rest)

section Step

variable {tokens rest : List Token} {fuel : Nat} (ih : Reading tokens fuel) (h : rest ⊆ tokens)
include ih h

theorem parses_node (block bare : Bool) : Parses tokens (From tokens) (node block bare (fuel + 1) rest) := by
  unfold Node.node
  split
  · exact ⟨from_scalar (h (List.mem_cons_self ..)), subset_of_cons h⟩
  · exact (ih.flowItems true (subset_of_cons h)).bind fun items rest hitems hrest => .ok (from_sequence hitems) hrest
  · exact (ih.flowEntries true (subset_of_cons h)).bind fun entries rest hentries hrest =>
      .ok (from_mapping hentries) hrest
  · split
    · exact (ih.blockItems (subset_of_cons h)).bind fun items rest hitems hrest => .ok (from_sequence hitems) hrest
    · exact .refuse h
  · split
    · exact (ih.blockEntries (subset_of_cons h)).bind fun entries rest hentries hrest =>
        .ok (from_mapping hentries) hrest
    · exact .refuse h
  · split
    · exact (ih.bareItems h).bind fun items rest hitems hrest => .ok (from_sequence hitems) hrest
    · exact .refuse h
  · split
    · exact (ih.node _ _ (subset_of_cons h)).bind fun content rest hcontent hrest => .ok (from_asSet hcontent) hrest
    · split
      · exact .refuse (subset_of_cons h)
      · exact ⟨from_misfit, subset_of_cons h⟩
  · exact .refuse h

theorem parses_nodeUnless (closing : List Token) (block bare : Bool) :
    Parses tokens (From tokens) (nodeUnless closing block bare (fuel + 1) rest) := by
  unfold Node.nodeUnless
  split
  · exact ⟨from_empty, h⟩
  · exact ih.node block bare h

theorem parses_blockItems : Parses tokens (∀ item ∈ ·, From tokens item) (blockItems (fuel + 1) rest) := by
  unfold Node.blockItems
  split
  · exact (ih.nodeUnless _ _ _ (subset_of_cons h)).bind fun item rest hitem hrest => (ih.blockItems hrest).cons hitem
  · exact ⟨nofun, subset_of_cons h⟩
  · exact .refuse h

theorem parses_bareItems : Parses tokens (∀ item ∈ ·, From tokens item) (bareItems (fuel + 1) rest) := by
  unfold Node.bareItems
  split
  · exact (ih.nodeUnless _ _ _ (subset_of_cons h)).bind fun item rest hitem hrest => (ih.bareItems hrest).cons hitem
  · exact ⟨nofun, h⟩

theorem parses_blockEntries : Parses tokens (∀ entry ∈ ·, EntryFrom tokens entry) (blockEntries (fuel + 1) rest) := by
  unfold Node.blockEntries
  simp only
  split
  · exact ⟨nofun, subset_of_cons h⟩
  · refine (ih.nodeUnless _ _ _ (subset_of_cons h)).bind fun key rest hkey hrest => ?_
    dsimp only
    split
    · exact (ih.nodeUnless _ _ _ (subset_of_cons hrest)).bind fun value rest hvalue hrest =>
        (ih.blockEntries hrest).cons ⟨hkey, hvalue⟩
    · exact (ih.blockEntries hrest).cons ⟨hkey, from_empty⟩
  · exact .refuse h

omit ih h in
/-- Between two items of a list there has to be a comma, after which the items go on as they start. -/
theorem flowItems_false (rest : List Token) : flowItems false (fuel + 1) rest = match rest with
    | .flowSequenceEnd :: rest => .ok ([], rest)
    | .flowEntry :: rest => flowItems true (fuel + 1) rest
    | rest => refuse rest := by
  match rest with
  | [] => rfl
  | [token] => cases token <;> rfl
  | token :: next :: _ =>
    cases token with
    | flowEntry => cases next <;> rfl
    | _ => rfl

omit ih h in
theorem flowEntries_false (rest : List Token) : flowEntries false (fuel + 1) rest = match rest with
    | .flowMappingEnd :: rest => .ok ([], rest)
    | .flowEntry :: rest => flowEntries true (fuel + 1) rest
    | rest => refuse rest := by
  match rest with
  | [] => rfl
  | [token] => cases token <;> rfl
  | token :: next :: _ =>
    cases token with
    | flowEntry => cases next <;> rfl
    | _ => rfl

theorem parses_flowItems_true : Parses tokens (∀ item ∈ ·, From tokens item) (flowItems true (fuel + 1) rest) := by
  rw [Node.flowItems.eq_def]
  dsimp only
  split
  · exact ⟨nofun, subset_of_cons h⟩
  · dsimp only [bind, Except.bind]
    split
    · exact ⟨nofun, subset_of_cons h⟩
    · refine Parses.bind (ih.nodeUnless _ _ _ (subset_of_cons h)) fun key rest hkey hrest => ?_
      have hpair : ∀ value, From tokens value → From tokens (.mapping [(key, value)]) := by
        intro value hvalue
        exact from_mapping (List.forall_mem_singleton.2 ⟨hkey, hvalue⟩)
      dsimp only
      split
      · exact Parses.bind (ih.nodeUnless _ _ _ (subset_of_cons hrest)) fun value rest hvalue hrest =>
          (ih.flowItems false hrest).cons (hpair value hvalue)
      · exact (ih.flowItems false hrest).cons (hpair empty from_empty)
    · exact Parses.bind (ih.node _ _ h) fun item rest hitem hrest => (ih.flowItems false hrest).cons hitem

theorem parses_flowItems (first : Bool) :
    Parses tokens (∀ item ∈ ·, From tokens item) (flowItems first (fuel + 1) rest) := by
  cases first with
  | true => exact parses_flowItems_true ih h
  | false =>
    rw [flowItems_false]
    split
    · exact ⟨nofun, subset_of_cons h⟩
    · exact parses_flowItems_true ih (subset_of_cons h)
    · exact .refuse h

theorem parses_flowEntries_true :
    Parses tokens (∀ entry ∈ ·, EntryFrom tokens entry) (flowEntries true (fuel + 1) rest) := by
  rw [Node.flowEntries.eq_def]
  dsimp only
  split
  · exact ⟨nofun, subset_of_cons h⟩
  · dsimp only [bind, Except.bind]
    split
    · exact ⟨nofun, subset_of_cons h⟩
    · refine Parses.bind (ih.nodeUnless _ _ _ (subset_of_cons h)) fun key rest hkey hrest => ?_
      dsimp only
      split
      · exact Parses.bind (ih.nodeUnless _ _ _ (subset_of_cons hrest)) fun value rest hvalue hrest =>
          (ih.flowEntries false hrest).cons ⟨hkey, hvalue⟩
      · exact (ih.flowEntries false hrest).cons ⟨hkey, from_empty⟩
    · exact Parses.bind (ih.node _ _ h) fun key rest hkey hrest =>
        (ih.flowEntries false hrest).cons ⟨hkey, from_empty⟩

theorem parses_flowEntries (first : Bool) :
    Parses tokens (∀ entry ∈ ·, EntryFrom tokens entry) (flowEntries first (fuel + 1) rest) := by
  cases first with
  | true => exact parses_flowEntries_true ih h
  | false =>
    rw [flowEntries_false]
    split
    · exact ⟨nofun, subset_of_cons h⟩
    · exact parses_flowEntries_true ih (subset_of_cons h)
    · exact .refuse h

end Step

theorem reading (tokens : List Token) (fuel : Nat) : Reading tokens fuel := by
  induction fuel with
  | zero =>
    exact {
      node := fun _ _ _ _ => .malformed
      nodeUnless := fun _ _ _ _ _ => .malformed
      blockItems := fun _ => .malformed
      bareItems := fun _ => .malformed
      blockEntries := fun _ => .malformed
      flowItems := fun _ _ _ => .malformed
      flowEntries := fun _ _ _ => .malformed }
  | succ fuel ih =>
    exact {
      node := fun block bare _ h => parses_node ih h block bare
      nodeUnless := fun closing block bare _ h => parses_nodeUnless ih h closing block bare
      blockItems := parses_blockItems ih
      bareItems := parses_bareItems ih
      blockEntries := parses_blockEntries ih
      flowItems := fun first _ h => parses_flowItems ih h first
      flowEntries := fun first _ h => parses_flowEntries ih h first }

/-! ## Documents -/

theorem parses_document (tokens : List Token) (fuel : Nat) :
    Parses tokens (∀ node ∈ ·, From tokens node) (document fuel tokens) := by
  have hrefl : tokens ⊆ tokens := List.Subset.refl tokens
  unfold document
  split
  · exact ⟨nofun, hrefl⟩
  · refine ((reading _ fuel).nodeUnless _ _ _ (subset_of_cons hrefl)).bind fun node rest hnode hrest => ?_
    exact .ok (by rintro _ ⟨⟩; exact hnode) hrest
  · refine ((reading _ fuel).node _ _ hrefl).bind fun node rest hnode hrest => ?_
    exact .ok (by rintro _ ⟨⟩; exact hnode) hrest

/-- A document is read from its tokens, and they are refused only for their form or where the text could
not be read on. -/
theorem ofTokens_cases (tokens : List Token) :
    (∃ content, ofTokens tokens = .ok content ∧ ∀ node ∈ content, From tokens node) ∨
    ∃ fault, ofTokens tokens = .error fault ∧ (fault = .malformed ∨ .broken fault ∈ tokens) := by
  unfold ofTokens
  have hread := parses_document tokens (2 * tokens.length + 2)
  generalize document (2 * tokens.length + 2) tokens = found at hread ⊢
  rcases found with fault | ⟨content, rest⟩
  · exact .inr ⟨fault, rfl, hread⟩
  · obtain ⟨hcontent, hrest⟩ := hread
    simp only [bind, Except.bind]
    split
    · exact .inl ⟨content, rfl, hcontent⟩
    · exact .inr (refuse_cases (List.Subset.trans (List.dropWhile_subset _) hrest))

end Node

end Amend.Yaml
