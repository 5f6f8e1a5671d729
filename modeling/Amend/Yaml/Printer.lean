/-
Writing data as a configuration text. Every entry and every item has a line of its own, lists stand
in the column of their key, and empty collections are written in brackets. A text is written plainly
where that reads back as the same text, else in single quotes, and in double quotes where it holds
characters that have to be escaped. Long texts go on in the next line.
-/
import Amend.Text.Hex
import Amend.Yaml.Value

namespace Amend.Yaml

/-! ## The style of a scalar -/

/-- How a scalar is written. -/
inductive Style where
  | plain
  | singleQuoted
  | doubleQuoted
  deriving DecidableEq, Repr

/-- The characters that a plain scalar cannot start with. -/
def leadingIndicators : List Char :=
  ['#', ',', '[', ']', '\x7b', '\x7d', '&', '*', '!', '|', '>', '\'', '"', '%', '@', '\x60']

/-- Does a blank or the end of the text follow? -/
def blankNext (rest : List Char) : Bool :=
  endsWord (rest.headD '\x00')

/-- Does a text start in a way that no plain scalar does? -/
def startsMarked (cs : List Char) : Bool :=
  match cs with
  | c :: rest =>
    leadingIndicators.contains c || (['?', ':', '-'].contains c && blankNext rest)
      || cs.take 3 = ['-', '-', '-'] || cs.take 3 = ['.', '.', '.']
  | [] => false

/-- Is there a colon before a blank, or a number sign after one, that would end a plain scalar?
`previous` is the character before the text. -/
def hasMark (previous : Char) : List Char → Bool
  | [] => false
  | c :: rest =>
    (c = ':' && blankNext rest) || (c = '#' && endsWord previous) || hasMark c rest

/-- Is there a space at the start or at the end, or a line end? -/
def isRagged (cs : List Char) : Bool :=
  cs.head? = some ' ' || cs.getLast? = some ' ' || cs.contains '\n'

/-- Does one character stand right before another somewhere? -/
def hasPair (first second : Char) : List Char → Bool
  | a :: b :: rest => (a = first && b = second) || hasPair first second (b :: rest)
  | _ => false

/-- A character that is written by its escape, a line end apart. -/
def isSpecial (c : Char) : Bool :=
  c ≠ '\n' && !(' ' ≤ c && c ≤ '~')

/-- Does a text need escapes? Spaces around a line end do not survive without. -/
def needsEscapes (cs : List Char) : Bool :=
  cs.any isSpecial || hasPair '\n' ' ' cs || hasPair ' ' '\n' cs

/-- Would a plain scalar of this text be read as a text? -/
def readsAsText (s : String) : Bool :=
  match plain s with
  | .ok (.text _) => true
  | _ => false

/-- The style of a text. -/
def styleOf (s : String) : Style :=
  let cs := s.toList
  if needsEscapes cs then .doubleQuoted
  else if startsMarked cs || hasMark ' ' cs || isRagged cs || !readsAsText s then .singleQuoted
  else .plain

/-! ## The layout of a scalar -/

/-- The column after which a text goes on in the next line. -/
def widestColumn : Nat := 80

/-- A line end and the indentation of the next line. -/
def newLine (indent : Nat) : List Char :=
  '\n' :: List.replicate indent ' '

/-- A text in plain or single-quoted style, from `column` on. Past the widest column, a single space
becomes a line end; a line end itself takes an empty line. `quote` tells whether quotes are doubled,
and `previous` is the character before the text. -/
def wrapped (quote : Bool) (indent : Nat) (split : Bool) :
    Nat → Option Char → List Char → List Char
  | _, _, [] => []
  | column, previous, c :: rest =>
    let inside := previous.any (· ≠ ' ') && rest.head?.any (· ≠ ' ')
    if c = ' ' && split && inside && widestColumn < column then
      newLine indent ++ wrapped quote indent split indent (some c) rest
    else if c = '\n' then
      (if previous = some '\n' then ['\n'] else ['\n', '\n'])
        ++ (if rest.head? = some '\n' then [] else List.replicate indent ' ')
        ++ wrapped quote indent split indent (some c) rest
    else if c = '\'' && quote then
      '\'' :: '\'' :: wrapped quote indent split (column + 2) (some c) rest
    else c :: wrapped quote indent split (column + 1) (some c) rest

/-- The characters that have an escape of one letter. -/
def shortEscapes : List (Char × Char) :=
  [('\x00', '0'), ('\x07', 'a'), ('\x08', 'b'), ('\t', 't'), ('\n', 'n'), ('\x0b', 'v'),
   ('\x0c', 'f'), ('\r', 'r'), ('\x1b', 'e'), ('"', '"'), ('\\', '\\'), ('\u0085', 'N'),
   ('\u00a0', '_'), ('\u2028', 'L'), ('\u2029', 'P')]

/-- The escape of a character that needs one. -/
def escape? (c : Char) : Option (List Char) :=
  match shortEscapes.lookup c with
  | some letter => some ['\\', letter]
  | none =>
    let n := c.toNat
    if !isSpecial c then none
    else if n ≤ 0xff then some ('\\' :: 'x' :: (Text.hexUpper 2 n).toList)
    else if n ≤ 0xffff then some ('\\' :: 'u' :: (Text.hexUpper 4 n).toList)
    else some ('\\' :: 'U' :: (Text.hexUpper 8 n).toList)

/-- A text in double quotes, from `column` on. Past the widest column, a line ends with a backslash
before a space, and before or after an escape; a space at the start of a line takes a backslash as
well. `fresh` tells that the text or a line starts here or an escape comes right before. -/
def escaped (indent : Nat) (split : Bool) : Nat → Bool → Bool → List Char → List Char
  | _, _, _, [] => []
  | column, first, fresh, c :: rest =>
    let may := split && !first && !rest.isEmpty
    match escape? c with
    | some written =>
      let column := column + written.length
      if may && widestColumn + 1 < column then
        let guard := if rest.head? = some ' ' then ['\\'] else []
        written ++ '\\' :: newLine indent ++ guard
          ++ escaped indent split (indent + guard.length) false true rest
      else written ++ escaped indent split column false true rest
    | none =>
      if may && (c = ' ' || fresh) && widestColumn < column then
        let guard := if c = ' ' then ['\\'] else []
        '\\' :: newLine indent ++ guard
          ++ c :: escaped indent split (indent + guard.length + 1) false false rest
      else c :: escaped indent split (column + 1) false false rest

/-- A text from `column` on, its later lines being indented. `split` tells whether it may take
several lines. -/
def textScalar (indent column : Nat) (split : Bool) (s : String) : String :=
  let cs := s.toList
  match styleOf s with
  | .plain => String.ofList (wrapped false indent split column none cs)
  | .singleQuoted =>
    String.ofList ('\'' :: wrapped true indent split (column + 1) none cs ++ ['\''])
  | .doubleQuoted =>
    String.ofList ('"' :: escaped indent split (column + 1) true true cs ++ ['"'])

/-- A number with a point. There is always a point, since without one it would be a text. -/
def floatScalar (x : Double) : String :=
  match x with
  | .nan => ".nan"
  | .infinite negative => if negative then "-.inf" else ".inf"
  | x =>
    let cs := x.text.toList
    if cs.contains '.' then x.text
    else
      let digits := cs.takeWhile (· ≠ 'e')
      String.ofList (digits ++ ['.', '0'] ++ cs.drop digits.length)

/-! ## Collections -/

/-- The most characters of a key that stands on a line with its value. -/
def longestKey : Nat := 122

/-- May a key stand on a line with its value? -/
def isSimpleKey : Tree → Bool
  | .text s =>
    !s.isEmpty && s.length ≤ longestKey && !s.toList.any fun c => isBreak c && c ≠ '\r'
  | .list items => items.isEmpty
  | .tuple items => items.isEmpty
  | .set items => items.isEmpty
  | .map entries => entries.isEmpty
  | _ => true

/-- So many spaces. -/
def spaces (n : Nat) : String :=
  String.ofList (List.replicate n ' ')

/-- Data that takes no lines of its own: scalars and empty collections. -/
def leaf (indent column : Nat) (split : Bool) : Tree → String
  | .null => "null"
  | .bool b => if b then "true" else "false"
  | .int n => toString n
  | .float x => floatScalar x
  | .text s => textScalar indent column split s
  | .date d => d.text
  | .moment m => m.text
  | .list _ => "[]"
  | .tuple _ => "[]"
  | .set _ => "!!set \x7b\x7d"
  | .map _ => "\x7b\x7d"

/-- The line of a member of a set, which is a key without a value; `shown` is the member as it takes
lines of its own. -/
def memberLine (indent : Nat) (member : Tree) (shown : String) : String :=
  if isSimpleKey member then leaf (indent + 2) indent false member ++ ": null"
  else "? " ++ shown ++ "\n" ++ spaces indent ++ ": null"

mutual

/-- Data from the column `indent` on. -/
def printAt (indent : Nat) : Tree → String
  | .list items => if items.isEmpty then "[]" else printItems indent items
  | .tuple items => if items.isEmpty then "[]" else printItems indent items
  | .set items =>
    if items.isEmpty then "!!set \x7b\x7d"
    else "!!set\n" ++ spaces indent ++ printMembers indent items
  | .map entries => if entries.isEmpty then "\x7b\x7d" else printEntries indent entries
  | t => leaf indent indent true t

/-- The value of an entry whose key ends at a column; `indent` is that of the mapping. -/
def entryValue (indent column : Nat) : Tree → String
  | .list items =>
    if items.isEmpty then " []" else "\n" ++ spaces indent ++ printItems indent items
  | .tuple items =>
    if items.isEmpty then " []" else "\n" ++ spaces indent ++ printItems indent items
  | .set items =>
    if items.isEmpty then " !!set \x7b\x7d"
    else " !!set\n" ++ spaces (indent + 2) ++ printMembers (indent + 2) items
  | .map entries =>
    if entries.isEmpty then " \x7b\x7d"
    else "\n" ++ spaces (indent + 2) ++ printEntries (indent + 2) entries
  | t => " " ++ leaf (indent + 2) (column + 1) true t

/-- The items of a list, the first without its indentation. -/
def printItems (indent : Nat) : List Tree → String
  | [] => ""
  | [item] => "- " ++ printAt (indent + 2) item
  | item :: next :: rest =>
    "- " ++ printAt (indent + 2) item ++ "\n" ++ spaces indent
      ++ printItems indent (next :: rest)

/-- The members of a set, the first without its indentation. -/
def printMembers (indent : Nat) : List Tree → String
  | [] => ""
  | [item] => memberLine indent item (printAt (indent + 2) item)
  | item :: next :: rest =>
    memberLine indent item (printAt (indent + 2) item) ++ "\n" ++ spaces indent
      ++ printMembers indent (next :: rest)

/-- One entry of a mapping, without its indentation. -/
def printEntry (indent : Nat) : Tree × Tree → String
  | (key, value) =>
    if isSimpleKey key then
      let name := leaf (indent + 2) indent false key
      name ++ ":" ++ entryValue indent (indent + name.length + 1) value
    else
      "? " ++ printAt (indent + 2) key ++ "\n" ++ spaces indent ++ ": " ++ printAt (indent + 2) value

/-- The entries of a mapping, the first without its indentation. -/
def printEntries (indent : Nat) : List (Tree × Tree) → String
  | [] => ""
  | [entry] => printEntry indent entry
  | entry :: next :: rest =>
    printEntry indent entry ++ "\n" ++ spaces indent ++ printEntries indent (next :: rest)

end

/-- The text of data. -/
def print (t : Tree) : String :=
  printAt 0 t ++ "\n"

end Amend.Yaml
