/-
The tokens of a configuration text. Indentation opens and closes block collections, and what stands
before a colon turns out to be a key only when the colon comes: its place is remembered until then.
A text that cannot be read on ends in a token that says why, after those that were certain by then.
-/
import Amend.Yaml.Scalar

namespace Amend.Yaml

/-- A token. -/
inductive Token where
  | streamEnd
  | documentStart
  | documentEnd
  | blockSequenceStart
  | blockMappingStart
  | blockEnd
  | flowSequenceStart
  | flowSequenceEnd
  | flowMappingStart
  | flowMappingEnd
  | blockEntry
  | flowEntry
  | key
  | value
  /-- What follows is said to be a set. -/
  | setTag
  | scalar (text : String) (plain : Bool)
  /-- The text cannot be read from here on. -/
  | broken (fault : Fault)
  deriving DecidableEq, Repr

/-- A token that may turn out to start a key: its number and its place. In a block, a token in the
column of the collection has to be a key. -/
structure PossibleKey where
  number : Nat
  required : Bool
  index : Nat
  line : Nat
  column : Nat
  deriving Repr

/-- The tokens so far, and what decides on the next one. -/
structure Lexer where
  cur : Cursor
  tokens : List Token
  /-- How many flow collections are open. -/
  flow : Nat
  /-- The column of the innermost block collection, or less than zero. -/
  indent : Int
  /-- The columns of the block collections around it. -/
  outer : List Int
  keyAllowed : Bool
  /-- Possible keys by the number of open flow collections. -/
  keys : List (Nat × PossibleKey)
  deriving Repr

namespace Lexer

/-- A lexer at the start of a text. -/
def start (text : List Char) : Lexer :=
  ⟨Cursor.start text, [], 0, -1, [], true, []⟩

/-- Adds a token. -/
def push (lx : Lexer) (token : Token) : Lexer :=
  { lx with tokens := lx.tokens ++ [token] }

/-- Adds a token and moves on. -/
def take (lx : Lexer) (token : Token) (width : Nat) : Lexer :=
  { lx with tokens := lx.tokens ++ [token], cur := lx.cur.skip width }

/-- The possible key among the open flow collections. -/
def key? (lx : Lexer) : Option PossibleKey :=
  lx.keys.lookup lx.flow

/-- Gives up the possible key here; one that had to be a key is a fault. -/
def dropKey (lx : Lexer) : Except Fault Lexer :=
  match lx.key? with
  | some key =>
    if key.required then .error .malformed
    else .ok { lx with keys := lx.keys.filter (·.1 ≠ lx.flow) }
  | none => .ok lx

/-- Remembers that a key may start here. -/
def markKey (lx : Lexer) : Except Fault Lexer :=
  if !lx.keyAllowed then .ok lx
  else do
    let lx ← lx.dropKey
    let required := lx.flow = 0 && lx.indent = lx.cur.column
    let key : PossibleKey := ⟨lx.tokens.length, required, lx.cur.index, lx.cur.line, lx.cur.column⟩
    return { lx with keys := (lx.flow, key) :: lx.keys }

/-- Is a possible key on an earlier line, or too far back? -/
def isStale (lx : Lexer) (key : PossibleKey) : Bool :=
  key.line ≠ lx.cur.line || lx.cur.index - key.index > 1024

/-- Gives up stale keys; one that had to be a key is a fault. -/
def dropStaleKeys (lx : Lexer) : Except Fault Lexer :=
  if lx.keys.any fun row => lx.isStale row.2 && row.2.required then .error .malformed
  else .ok { lx with keys := lx.keys.filter fun row => !lx.isStale row.2 }

/-- The tokens that are certain: those before the first that may still turn out to be a key. -/
def certain (lx : Lexer) : List Token :=
  let open_ := lx.keys.filter fun row => !lx.isStale row.2
  lx.tokens.take ((open_.map (·.2.number)).foldl min lx.tokens.length)

/-- Closes block collections that stand deeper than a column. -/
def unwindTo (column : Int) : List Int → Lexer → Lexer
  | [], lx => lx
  | outer :: rest, lx =>
    if lx.indent > column then
      unwindTo column rest { lx.push .blockEnd with indent := outer, outer := rest }
    else lx

/-- Closes block collections that stand deeper than a column. In a flow collection indentation does
not count. -/
def unwind (lx : Lexer) (column : Int) : Lexer :=
  if lx.flow > 0 then lx else unwindTo column lx.outer lx

/-- Opens a block collection at a column, if it stands deeper than the open one. -/
def indentTo? (lx : Lexer) (column : Int) : Option Lexer :=
  if lx.indent < column then some { lx with indent := column, outer := lx.indent :: lx.outer }
  else none

/-- Moves to the next token over blanks, comments and line ends. -/
def toNextToken : Nat → Lexer → Lexer
  | 0, lx => lx
  | fuel + 1, lx =>
    let cur := lx.cur.skipWhile (· = ' ')
    let cur := if cur.char = '#' then (cur.takeUntil endsLine).2 else cur
    let (lineEnd, next) := cur.lineBreak
    if lineEnd.isEmpty then { lx with cur := cur }
    else toNextToken fuel
      { lx with cur := next, keyAllowed := lx.keyAllowed || lx.flow = 0 }

/-! ## One token -/

/-- A mark between documents. -/
def documentMark (lx : Lexer) (token : Token) : Except Fault Lexer := do
  let lx ← (lx.unwind (-1)).dropKey
  return { lx with keyAllowed := false }.take token 3

/-- The opening of a flow collection. -/
def flowStart (lx : Lexer) (token : Token) : Except Fault Lexer := do
  let lx ← lx.markKey
  return { lx with flow := lx.flow + 1, keyAllowed := true }.take token 1

/-- The closing of a flow collection. -/
def flowEnd (lx : Lexer) (token : Token) : Except Fault Lexer :=
  if lx.flow = 0 then .error .malformed
  else do
    let lx ← lx.dropKey
    return { lx with flow := lx.flow - 1, keyAllowed := false }.take token 1

/-- A comma in a flow collection. -/
def flowEntry (lx : Lexer) : Except Fault Lexer := do
  let lx ← { lx with keyAllowed := true }.dropKey
  return lx.take .flowEntry 1

/-- Opens a block collection here if one has to be opened. -/
def openBlock (lx : Lexer) (token : Token) : Except Fault Lexer :=
  if lx.flow > 0 then .ok lx
  else if !lx.keyAllowed then .error .malformed
  else match lx.indentTo? lx.cur.column with
    | some lx => .ok (lx.push token)
    | none => .ok lx

/-- The dash before an item of a block list. -/
def blockEntry (lx : Lexer) : Except Fault Lexer := do
  let lx ← lx.openBlock .blockSequenceStart
  let lx ← { lx with keyAllowed := true }.dropKey
  return lx.take .blockEntry 1

/-- The mark before a key that is not written on one line. -/
def explicitKey (lx : Lexer) : Except Fault Lexer := do
  let lx ← lx.openBlock .blockMappingStart
  let lx ← { lx with keyAllowed := lx.flow = 0 }.dropKey
  return lx.take .key 1

/-- The colon before a value. What was a possible key is one now. -/
def valueMark (lx : Lexer) : Except Fault Lexer :=
  match lx.key? with
  | some key =>
    let lx := { lx with
      keys := lx.keys.filter (·.1 ≠ lx.flow)
      tokens := lx.tokens.insertIdx key.number .key
      keyAllowed := false }
    let lx := if lx.flow > 0 then lx else match lx.indentTo? key.column with
      | some lx => { lx with tokens := lx.tokens.insertIdx key.number .blockMappingStart }
      | none => lx
    .ok (lx.take .value 1)
  | none => do
    let lx ← lx.openBlock .blockMappingStart
    let lx ← { lx with keyAllowed := lx.flow = 0 }.dropKey
    return lx.take .value 1

/-- A block scalar. -/
def blockText (lx : Lexer) : Except Fault Lexer := do
  let lx ← { lx with keyAllowed := true }.dropKey
  let (text, cur) ← blockScalar lx.indent lx.cur
  return { lx.push (.scalar (String.ofList text) false) with cur := cur }

/-- A quoted scalar. -/
def quotedText (lx : Lexer) : Except Fault Lexer := do
  let lx ← lx.markKey
  let (text, cur) ← quotedScalar lx.cur
  return { lx.push (.scalar (String.ofList text) false) with cur := cur, keyAllowed := false }

/-- A plain scalar. -/
def plainText (lx : Lexer) : Except Fault Lexer := do
  let lx ← lx.markKey
  let (text, newLine, cur) := plainWords (lx.flow > 0) (lx.indent + 1) (lx.cur.rest.length + 1) lx.cur
  return { lx.push (.scalar (String.ofList text) true) with cur := cur, keyAllowed := newLine }

/-- The tag of sets. -/
def setTagText : List Char := ['!', '!', 's', 'e', 't']

/-- The tag of a set, which has to be followed by a space or a line end. Other tags are not part of
configurations. -/
def tag (lx : Lexer) : Except Fault Lexer :=
  let after := lx.cur.peek setTagText.length
  if setTagText.isPrefixOf lx.cur.rest && (after = ' ' || endsLine after) then do
    let lx ← lx.markKey
    return { lx with keyAllowed := false }.take .setTag setTagText.length
  else .error .malformed

/-- The characters that no plain scalar starts with, unless a word follows some of them. -/
def indicators : List Char :=
  ['-', '?', ':', ',', '[', ']', '\x7b', '\x7d', '#', '&', '*', '!', '|', '>', '\'', '"', '%', '@',
   '\x60']

/-- May a plain scalar start here? -/
def startsPlain (lx : Lexer) : Bool :=
  let c := lx.cur.char
  if endsWord c then false
  else !indicators.contains c
    || (!endsWord (lx.cur.peek 1) && (c = '-' || (lx.flow = 0 && (c = '?' || c = ':'))))

/-- The token at the cursor. References and directives are not part of configurations. -/
def token (lx : Lexer) : Except Fault Lexer :=
  let c := lx.cur.char
  let alone := endsWord (lx.cur.peek 1)
  let block := lx.flow = 0
  if lx.cur.column = 0 && c = '-' && lx.cur.atDocumentMark then lx.documentMark .documentStart
  else if lx.cur.column = 0 && c = '.' && lx.cur.atDocumentMark then lx.documentMark .documentEnd
  else if c = '[' then lx.flowStart .flowSequenceStart
  else if c = '\x7b' then lx.flowStart .flowMappingStart
  else if c = ']' then lx.flowEnd .flowSequenceEnd
  else if c = '\x7d' then lx.flowEnd .flowMappingEnd
  else if c = ',' then lx.flowEntry
  else if c = '-' && alone then lx.blockEntry
  else if c = '?' && (!block || alone) then lx.explicitKey
  else if c = ':' && (!block || alone) then lx.valueMark
  else if (c = '|' || c = '>') && block then lx.blockText
  else if c = '!' then lx.tag
  else if c = '\'' || c = '"' then lx.quotedText
  else if lx.startsPlain then lx.plainText
  else .error .malformed

/-- The end of the text, which closes every block collection. -/
def streamEnd (lx : Lexer) : Except Fault Lexer := do
  let lx ← (lx.unwind (-1)).dropKey
  return lx.push .streamEnd

/-- One more token, and the block collections that end before it. -/
def step (lx : Lexer) : Except Fault Lexer := do
  let lx ← lx.dropStaleKeys
  let lx := lx.unwind lx.cur.column
  if lx.cur.atEnd then lx.streamEnd else lx.token

/-- All tokens of a text after which `ending` is met, unless the text is complete. What reaches the
end of such a text is never certain. -/
def run (ending : Option Fault) : Nat → Lexer → List Token
  | 0, lx => lx.certain ++ [.broken .malformed]
  | fuel + 1, lx =>
    let stop (fault : Fault) : List Token := lx.certain ++ [.broken fault]
    let moved := lx.toNextToken (lx.cur.rest.length + 1)
    match ending, moved.cur.atEnd, moved.step with
    | some fault, true, _ => stop fault
    | _, _, .error .cutOff => stop (ending.getD .malformed)
    | _, _, .error fault => stop fault
    | some fault, _, .ok next => if next.cur.atEnd then stop fault else run ending fuel next
    | none, _, .ok next =>
      if next.tokens.getLast? = some .streamEnd then next.tokens else run ending fuel next

end Lexer

/-- A character that a configuration text may hold. -/
def isAllowed (c : Char) : Bool :=
  c = '\t' || c = '\n' || c = '\r' || (' ' ≤ c && c ≤ '~') || c = '\u0085'
    || (0xa0 ≤ c.toNat && c.toNat ≤ 0xfffd) || 0x10000 ≤ c.toNat

/-- A text as far as it can be read, and what is met after it unless it is complete. -/
structure Source where
  text : List Char
  ending : Option Fault
  deriving Repr

/-- The source that comes in portions, of which the reading stopped at a fault unless they are all.
The first two are looked at together before anything else; a later one is looked at when it is
needed. -/
def Source.ofPortions (portions : List (List Char)) (fault : Option Fault) : Source :=
  let first := portions.take 2
  let later := portions.drop 2
  let good := later.takeWhile (·.all isAllowed)
  if fault.isSome && portions.length < 2 then ⟨[], fault⟩
  else if !first.all (·.all isAllowed) then ⟨[], some .malformed⟩
  else ⟨(first ++ good).flatten, if good.length < later.length then some .malformed else fault⟩

/-- The tokens of a source. A byte order mark at its start is passed over. -/
def tokens (source : Source) : List Token :=
  let lx := Lexer.start source.text
  let lx := if lx.cur.char = '\ufeff' then { lx with cur := lx.cur.next } else lx
  lx.run source.ending (source.text.length + 2)

end Amend.Yaml
