/-
The texts of scalars: plain ones, quoted ones and blocks. A line end inside a plain or quoted scalar
is a space, unless empty lines follow, which are then line ends.
-/
import Amend.Text.Hex
import Amend.Yaml.Cursor

namespace Amend.Yaml

/-- A scalar that was read, and the cursor after it. -/
abbrev Scanned := Except Fault (List Char × Cursor)

/-- What a line end and the empty lines after it stand for. -/
def folded (first : List Char) (breaks : List Char) : List Char :=
  if first ≠ ['\n'] then first ++ breaks else if breaks.isEmpty then [' '] else breaks

/-! ## Quoted scalars -/

/-- The characters that a one-letter escape stands for. -/
def escapes : List (Char × Char) :=
  [('0', '\x00'), ('a', '\x07'), ('b', '\x08'), ('t', '\t'), ('\t', '\t'), ('n', '\n'),
   ('v', '\x0b'), ('f', '\x0c'), ('r', '\r'), ('e', '\x1b'), (' ', ' '), ('"', '"'), ('\\', '\\'),
   ('/', '/'), ('N', '\u0085'), ('_', '\u00a0'), ('L', '\u2028'), ('P', '\u2029')]

/-- How many digits an escape by number has. -/
def escapeWidth? (c : Char) : Option Nat :=
  if c = 'x' then some 2 else if c = 'u' then some 4 else if c = 'U' then some 8 else none

/-- The character of an escape by number, the cursor standing at its digits. -/
def numberEscape (width : Nat) (cur : Cursor) : Scanned :=
  let digits := cur.rest.take width
  if !digits.all fun c => (Text.hexValue? c).isSome then .error .malformed
  else if digits.length < width then .error .cutOff
  else match digits.mapM Text.hexValue? with
    | none => .error .malformed
    | some values =>
      let n := values.foldl (fun n d => n * 16 + d) 0
      if n > 0x7fffffff then .error (.tooLarge "Python int too large to convert to C int")
      else if n > 0x10ffff then .error (.impossible "chr() arg not in range(0x110000)")
      else .ok ([Char.ofNat n], cur.skip width)

/-- The empty lines inside a quoted scalar. -/
def quotedBreaks : Nat → Cursor → Scanned
  | 0, _ => .error .malformed
  | fuel + 1, cur =>
    if cur.atDocumentMark then .error .malformed
    else
      let cur := cur.skipWhile fun c => c = ' ' || c = '\t'
      if isBreak cur.char then do
        let (first, cur) := cur.lineBreak
        let (rest, cur) ← quotedBreaks fuel cur
        return (first ++ rest, cur)
      else .ok ([], cur)

/-- A quoted scalar from inside its quotes up to its closing quote. -/
def quotedBody (double : Bool) : Nat → Cursor → Scanned
  | 0, _ => .error .malformed
  | fuel + 1, cur => do
    let c := cur.char
    let add (taken : List Char) (cur : Cursor) : Scanned := do
      let (rest, cur) ← quotedBody double fuel cur
      return (taken ++ rest, cur)
    if cur.atEnd then .error .cutOff
    else if c = ' ' || c = '\t' || isBreak c then
      let (blanks, cur) := cur.takeUntil fun c => !(c = ' ' || c = '\t')
      if cur.atEnd then .error .cutOff
      else if isBreak cur.char then
        let (first, cur) := cur.lineBreak
        let (breaks, cur) ← quotedBreaks (cur.rest.length + 1) cur
        add (folded first breaks) cur
      else add blanks cur
    else if double then
      if c = '"' then return ([], cur.next)
      else if c = '\\' then
        let e := cur.peek 1
        match escapes.lookup e, escapeWidth? e with
        | some value, _ => add [value] (cur.skip 2)
        | none, some width =>
          let (value, cur) ← numberEscape width (cur.skip 2)
          add value cur
        | none, none =>
          if isBreak e then
            let (_, cur) := cur.next.lineBreak
            let (breaks, cur) ← quotedBreaks (cur.rest.length + 1) cur
            add breaks cur
          else .error (if cur.next.atEnd then .cutOff else .malformed)
      else add [c] cur.next
    else if c = '\'' then
      if cur.peek 1 = '\'' then add ['\''] (cur.skip 2) else return ([], cur.next)
    else add [c] cur.next

/-- A quoted scalar, the cursor standing at its opening quote. -/
def quotedScalar (cur : Cursor) : Scanned :=
  quotedBody (cur.char = '"') (cur.rest.length + 1) cur.next

/-! ## Plain scalars -/

/-- Does a plain scalar stop at this character, the next one being given? -/
def stopsPlain (flow : Bool) (c next : Char) : Bool :=
  endsWord c
    || (c = ':' && (endsWord next || (flow && [',', '[', ']', '\x7b', '\x7d'].contains next)))
    || (flow && [',', '?', '[', ']', '\x7b', '\x7d'].contains c)

/-- The characters of a plain scalar up to its next stop. -/
def plainWord (flow : Bool) : List Char → List Char
  | [] => []
  | c :: rest => if stopsPlain flow c (rest.headD '\x00') then [] else c :: plainWord flow rest

/-- Line ends and spaces inside a plain scalar; nothing if a mark between documents follows. -/
def plainBreaks : Nat → Cursor → Option (List Char) × Cursor
  | 0, cur => (some [], cur)
  | fuel + 1, cur =>
    if cur.char = ' ' then plainBreaks fuel cur.next
    else if isBreak cur.char then
      let (first, cur) := cur.lineBreak
      if cur.atDocumentMark then (none, cur)
      else
        let (rest, cur) := plainBreaks fuel cur
        (rest.map (first ++ ·), cur)
    else (some [], cur)

/-- What stands between two words of a plain scalar, and whether a line ended there. -/
def plainGap (cur : Cursor) : List Char × Bool × Cursor :=
  let (blanks, cur) := cur.takeUntil (· ≠ ' ')
  if isBreak cur.char then
    let (first, cur) := cur.lineBreak
    if cur.atDocumentMark then ([], true, cur)
    else match plainBreaks (cur.rest.length + 1) cur with
      | (none, cur) => ([], true, cur)
      | (some breaks, cur) => (folded first breaks, true, cur)
  else (blanks, false, cur)

/-- The words of a plain scalar. In a block, words on later lines stand at `indent` or deeper.
`newLine` tells whether the scalar ended with a line end. -/
def plainWords (flow : Bool) (indent : Int) : Nat → Cursor → List Char × Bool × Cursor
  | 0, cur => ([], false, cur)
  | fuel + 1, cur =>
    let word := if cur.char = '#' then [] else plainWord flow cur.rest
    if word.isEmpty then ([], false, cur)
    else
      let (gap, newLine, cur) := plainGap (cur.skip word.length)
      if gap.isEmpty || cur.char = '#' || (!flow && (cur.column : Int) < indent) then
        (word, newLine, cur)
      else
        let (rest, later, cur) := plainWords flow indent fuel cur
        if rest.isEmpty then (word, newLine, cur) else (word ++ gap ++ rest, later, cur)

/-! ## Block scalars -/

/-- What becomes of the line ends after a block scalar. -/
inductive Chomping where
  | strip
  | clip
  | keep
  deriving DecidableEq, Repr

/-- The signs that follow the mark of a block scalar: chomping and indentation, in any order. -/
def blockSigns (cur : Cursor) : Except Fault (Chomping × Option Nat × Cursor) := do
  let chomping? (c : Char) : Option Chomping :=
    if c = '+' then some .keep else if c = '-' then some .strip else none
  let digit? (c : Char) : Option Nat :=
    if '0' ≤ c && c ≤ '9' then some (c.toNat - 48) else none
  let (chomping, increment, cur) := match chomping? cur.char, digit? cur.char with
    | some chomping, _ => match digit? (cur.peek 1) with
      | some n => (chomping, some n, cur.skip 2)
      | none => (chomping, none, cur.next)
    | none, some n => match chomping? (cur.peek 1) with
      | some chomping => (chomping, some n, cur.skip 2)
      | none => (.clip, some n, cur.next)
    | none, none => (.clip, none, cur)
  if increment = some 0 then .error .malformed
  else if !(endsLine cur.char || cur.char = ' ') then .error .malformed
  else return (chomping, increment, cur)

/-- The empty lines before the text of a block scalar, and the deepest column of their spaces. -/
def blockLead : Nat → Cursor → Nat → List Char × Nat × Cursor
  | 0, cur, deepest => ([], deepest, cur)
  | fuel + 1, cur, deepest =>
    if cur.char = ' ' then blockLead fuel cur.next (max deepest cur.next.column)
    else if isBreak cur.char then
      let (first, cur) := cur.lineBreak
      let (rest, deepest, cur) := blockLead fuel cur deepest
      (first ++ rest, deepest, cur)
    else ([], deepest, cur)

/-- The empty lines inside a block scalar. -/
def blockBreaks (indent : Nat) : Nat → Cursor → List Char × Cursor
  | 0, cur => ([], cur)
  | fuel + 1, cur =>
    let cur := cur.skipIndent indent
    if isBreak cur.char then
      let (first, cur) := cur.lineBreak
      let (rest, cur) := blockBreaks indent fuel cur
      (first ++ rest, cur)
    else ([], cur)

/-- The lines of a block scalar. `breaks` are the empty lines before the line at the cursor. -/
def blockLines (fold : Bool) (chomping : Chomping) (indent : Nat) :
    Nat → Cursor → List Char → List Char × Cursor
  | 0, cur, _ => ([], cur)
  | fuel + 1, cur, breaks =>
    let firstBlank := cur.char = ' ' || cur.char = '\t'
    let (text, cur) := cur.takeUntil endsLine
    let (lineEnd, cur) := cur.lineBreak
    let (after, cur) := blockBreaks indent (cur.rest.length + 1) cur
    if cur.column = indent && !cur.atEnd then
      let nextBlank := cur.char = ' ' || cur.char = '\t'
      let joint :=
        if fold && lineEnd = ['\n'] && !firstBlank && !nextBlank then
          if after.isEmpty then [' '] else []
        else lineEnd
      let (rest, cur) := blockLines fold chomping indent fuel cur after
      (breaks ++ text ++ joint ++ rest, cur)
    else
      let tail := match chomping with
        | .strip => []
        | .clip => lineEnd
        | .keep => lineEnd ++ after
      (breaks ++ text ++ tail, cur)

/-- A block scalar, the cursor standing at its mark, inside a collection indented by `outer`. -/
def blockScalar (outer : Int) (cur : Cursor) : Scanned := do
  let fold := cur.char = '>'
  let (chomping, increment, cur) ← blockSigns cur.next
  let cur := cur.skipWhile (· = ' ')
  let cur := if cur.char = '#' then (cur.takeUntil endsLine).2 else cur
  if !endsLine cur.char then .error .malformed
  else
    let (_, cur) := cur.lineBreak
    let least := (max (outer + 1) 1).toNat
    let fuel := cur.rest.length + 1
    let (breaks, indent, cur) := match increment with
      | some n =>
        let indent := least + n - 1
        let (breaks, cur) := blockBreaks indent fuel cur
        (breaks, indent, cur)
      | none =>
        let (breaks, deepest, cur) := blockLead fuel cur 0
        (breaks, max least deepest, cur)
    if cur.column = indent && !cur.atEnd then
      return blockLines fold chomping indent fuel cur breaks
    else return (if chomping = .keep then breaks else [], cur)

end Amend.Yaml
