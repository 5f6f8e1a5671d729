/-
Nodes: the scalars, lists, mappings and sets that tokens spell out.
-/
import Amend.Yaml.Token

namespace Amend.Yaml

/-- A node of a document. -/
inductive Node where
  | scalar (text : String) (plain : Bool)
  | sequence (items : List Node)
  | mapping (entries : List (Node × Node))
  /-- A set, written as a mapping from its members. -/
  | set (entries : List (Node × Node))
  /-- What is said to be a set and is no mapping. -/
  | misfit
  deriving Repr

namespace Node

/-- The scalar that is not written. -/
def empty : Node := .scalar "" true

/-- Refuses the token that comes next. If the text cannot be read there, that is the fault. -/
def refuse {α : Type} (tokens : List Token) : Except Fault α :=
  match tokens with
  | .broken fault :: _ => .error fault
  | _ => .error .malformed

/-- A node that is said to be a set. -/
def asSet : Node → Node
  | .mapping entries => .set entries
  | _ => .misfit

/-- Does a node come next that says nothing of its kind? -/
def startsPlainly (block bare : Bool) (tokens : List Token) : Bool :=
  match tokens with
  | .scalar .. :: _ => true
  | .flowSequenceStart :: _ => true
  | .flowMappingStart :: _ => true
  | .blockSequenceStart :: _ => block
  | .blockMappingStart :: _ => block
  | .blockEntry :: _ => bare
  | _ => false

/-- Can the text not be read from the next token on? -/
def stopsHere (tokens : List Token) : Bool :=
  match tokens with
  | .broken _ :: _ => true
  | _ => false

/-- Does one of these tokens come next? -/
def next (wanted : List Token) (tokens : List Token) : Bool :=
  tokens.head?.any wanted.contains

mutual

/-- A node. `block` tells whether block collections may start here, and `bare` whether the items of
a list may stand in the column of the key before them. -/
def node (block bare : Bool) : Nat → List Token → Except Fault (Node × List Token)
  | 0, _ => .error .malformed
  | fuel + 1, tokens =>
    match tokens with
    | .scalar text plain :: rest => .ok (.scalar text plain, rest)
    | .flowSequenceStart :: rest => do
      let (items, rest) ← flowItems true fuel rest
      return (.sequence items, rest)
    | .flowMappingStart :: rest => do
      let (entries, rest) ← flowEntries true fuel rest
      return (.mapping entries, rest)
    | .blockSequenceStart :: rest =>
      if block then do
        let (items, rest) ← blockItems fuel rest
        return (.sequence items, rest)
      else refuse tokens
    | .blockMappingStart :: rest =>
      if block then do
        let (entries, rest) ← blockEntries fuel rest
        return (.mapping entries, rest)
      else refuse tokens
    | .blockEntry :: _ =>
      if bare then do
        let (items, rest) ← bareItems fuel tokens
        return (.sequence items, rest)
      else refuse tokens
    | .setTag :: rest =>
      if startsPlainly block bare rest then do
        let (content, rest) ← node block bare fuel rest
        return (content.asSet, rest)
      else if stopsHere rest then refuse rest
      else .ok (.misfit, rest)
    | _ => refuse tokens

/-- A node, or nothing if one of the closing tokens comes next. -/
def nodeUnless (closing : List Token) (block bare : Bool) : Nat → List Token → Except Fault (Node × List Token)
  | 0, _ => .error .malformed
  | fuel + 1, tokens => if next closing tokens then .ok (empty, tokens) else node block bare fuel tokens

/-- The items of a block list. -/
def blockItems : Nat → List Token → Except Fault (List Node × List Token)
  | 0, _ => .error .malformed
  | fuel + 1, tokens =>
    match tokens with
    | .blockEntry :: rest => do
      let (item, rest) ← nodeUnless [.blockEntry, .blockEnd] true false fuel rest
      let (items, rest) ← blockItems fuel rest
      return (item :: items, rest)
    | .blockEnd :: rest => .ok ([], rest)
    | _ => refuse tokens

/-- The items of a block list in the column of its key, which nothing closes. -/
def bareItems : Nat → List Token → Except Fault (List Node × List Token)
  | 0, _ => .error .malformed
  | fuel + 1, tokens =>
    match tokens with
    | .blockEntry :: rest => do
      let (item, rest) ← nodeUnless [.blockEntry, .key, .value, .blockEnd] true false fuel rest
      let (items, rest) ← bareItems fuel rest
      return (item :: items, rest)
    | _ => .ok ([], tokens)

/-- The entries of a block mapping. -/
def blockEntries : Nat → List Token → Except Fault (List (Node × Node) × List Token)
  | 0, _ => .error .malformed
  | fuel + 1, tokens =>
    let closing : List Token := [.key, .value, .blockEnd]
    match tokens with
    | .blockEnd :: rest => .ok ([], rest)
    | .key :: rest => do
      let (key, rest) ← nodeUnless closing true true fuel rest
      let (value, rest) ← match rest with
        | .value :: rest => nodeUnless closing true true fuel rest
        | rest => .ok (empty, rest)
      let (entries, rest) ← blockEntries fuel rest
      return ((key, value) :: entries, rest)
    | _ => refuse tokens

/-- The items of a flow list. A key among them makes a mapping of one entry. -/
def flowItems (first : Bool) : Nat → List Token → Except Fault (List Node × List Token)
  | 0, _ => .error .malformed
  | fuel + 1, tokens =>
    match tokens with
    | .flowSequenceEnd :: rest => .ok ([], rest)
    | tokens => do
      let rest ← match first, tokens with
        | true, rest => .ok rest
        | false, .flowEntry :: rest => .ok rest
        | false, _ => refuse tokens
      match rest with
      | .flowSequenceEnd :: rest => return ([], rest)
      | .key :: rest =>
        let (key, rest) ← nodeUnless [.value, .flowEntry, .flowSequenceEnd] false false fuel rest
        let (value, rest) ← match rest with
          | .value :: rest => nodeUnless [.flowEntry, .flowSequenceEnd] false false fuel rest
          | rest => .ok (empty, rest)
        let (items, rest) ← flowItems false fuel rest
        return (.mapping [(key, value)] :: items, rest)
      | rest =>
        let (item, rest) ← node false false fuel rest
        let (items, rest) ← flowItems false fuel rest
        return (item :: items, rest)

/-- The entries of a flow mapping. A node without a colon is a key without a value. -/
def flowEntries (first : Bool) : Nat → List Token → Except Fault (List (Node × Node) × List Token)
  | 0, _ => .error .malformed
  | fuel + 1, tokens =>
    match tokens with
    | .flowMappingEnd :: rest => .ok ([], rest)
    | tokens => do
      let rest ← match first, tokens with
        | true, rest => .ok rest
        | false, .flowEntry :: rest => .ok rest
        | false, _ => refuse tokens
      match rest with
      | .flowMappingEnd :: rest => return ([], rest)
      | .key :: rest =>
        let (key, rest) ← nodeUnless [.value, .flowEntry, .flowMappingEnd] false false fuel rest
        let (value, rest) ← match rest with
          | .value :: rest => nodeUnless [.flowEntry, .flowMappingEnd] false false fuel rest
          | rest => .ok (empty, rest)
        let (entries, rest) ← flowEntries false fuel rest
        return ((key, value) :: entries, rest)
      | rest =>
        let (key, rest) ← node false false fuel rest
        let (entries, rest) ← flowEntries false fuel rest
        return ((key, empty) :: entries, rest)

end

/-- The one document of a text, if it has one, and the tokens after it. -/
def document (fuel : Nat) (tokens : List Token) : Except Fault (Option Node × List Token) :=
  match tokens with
  | .streamEnd :: _ => .ok (none, tokens)
  | .documentStart :: rest => do
    let (content, rest) ← nodeUnless [.documentStart, .documentEnd, .streamEnd] true false fuel rest
    return (some content, rest)
  | tokens => do
    let (content, rest) ← node true false fuel tokens
    return (some content, rest)

/-- The document of tokens. There may be one at most, and marks of its end after it. -/
def ofTokens (tokens : List Token) : Except Fault (Option Node) := do
  let (content, rest) ← document (2 * tokens.length + 2) tokens
  match rest.dropWhile (· = .documentEnd) with
  | [.streamEnd] => return content
  | rest => refuse rest

end Node

end Amend.Yaml
