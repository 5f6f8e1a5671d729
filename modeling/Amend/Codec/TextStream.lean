/-
Reading a text file bit by bit. Bytes are fetched in pieces and characters handed out in portions,
so bytes that are no text come to light only when a portion is asked for that needs their piece, and
they are counted from the start of that piece. Every line end becomes a line feed.
-/
import Amend.Codec.Utf8

namespace Amend.Codec

/-- Every line end as a line feed. -/
def plainNewlines : List Char → List Char
  | '\r' :: '\n' :: rest => '\n' :: plainNewlines rest
  | '\r' :: rest => '\n' :: plainNewlines rest
  | c :: rest => c :: plainNewlines rest
  | [] => []

/-- A file that is being read. -/
structure TextStream where
  /-- The bytes that were not fetched yet. -/
  rest : Bytes
  /-- The bytes of a character whose end was not fetched yet. -/
  begun : Bytes
  /-- A carriage return waits for what follows it. -/
  returning : Bool
  /-- The characters that were not handed out yet. -/
  ready : List Char
  /-- How many bytes the last piece had. -/
  lastBytes : Nat
  /-- How many characters the last piece gave. -/
  lastChars : Nat
  deriving Repr

namespace TextStream

/-- The least size of a piece. -/
def pieceSize : Nat := 8192

/-- How many characters a portion has; only the last has fewer. -/
def portionSize : Nat := 4096

/-- A file of which nothing was read yet. -/
def start (bytes : Bytes) : TextStream :=
  ⟨bytes, [], false, [], 0, 0⟩

/-- How many bytes are fetched for so many characters, going by the last piece. -/
def fetchSize (s : TextStream) (wanted : Nat) : Nat :=
  if 0 < s.lastChars && s.lastChars < s.lastBytes then
    max pieceSize (wanted * s.lastBytes / s.lastChars)
  else max pieceSize wanted

/-- The characters of bytes that may end inside a character, and the bytes of that one. When the
file has ended, they may not. -/
def decodePiece (ended : Bool) (bytes : Bytes) : Except DecodeFault (List Char × Bytes) :=
  match Utf8.decodeFrom 0 0 bytes with
  | .ok cs => .ok (cs, [])
  | .error fault =>
    if fault.reason = .unexpectedEnd && !ended then
      (Utf8.decodeFrom 0 0 (bytes.take fault.offset)).map fun cs => (cs, bytes.drop fault.offset)
    else .error fault

/-- Fetches a piece when all characters before it were handed out. -/
def fetch (s : TextStream) (wanted : Nat) : Except DecodeFault TextStream := do
  let piece := s.rest.take (s.fetchSize wanted)
  let ended := piece.isEmpty
  let (cs, begun) ← decodePiece ended (s.begun ++ piece)
  let cs := if s.returning then '\r' :: cs else cs
  let returning := !ended && cs.getLast? = some '\r'
  let cs := plainNewlines (if returning then cs.dropLast else cs)
  return ⟨s.rest.drop piece.length, begun, returning, cs, piece.length, cs.length⟩

/-- So many characters, or fewer if the file ends. -/
def take : Nat → Nat → TextStream → Except DecodeFault (List Char × TextStream)
  | 0, _, s => .ok ([], s)
  | fuel + 1, wanted, s => do
    let taken := s.ready.take wanted
    let s := { s with ready := s.ready.drop wanted }
    let missing := wanted - taken.length
    if missing = 0 then return (taken, s)
    let next ← s.fetch missing
    if s.rest.isEmpty && next.ready.isEmpty then return (taken, next)
    let (more, last) ← take fuel missing next
    return (taken ++ more, last)

/-- The portions of a file, and the fault that the reading stopped at. -/
def portionsFrom : Nat → TextStream → List (List Char) × Option DecodeFault
  | 0, _ => ([], none)
  | fuel + 1, s =>
    match s.take (s.rest.length + 3) portionSize with
    | .error fault => ([], some fault)
    | .ok ([], _) => ([], none)
    | .ok (portion, s) =>
      let (more, fault) := portionsFrom fuel s
      (portion :: more, fault)

/-- The portions of the text of some bytes, and the fault that the reading stopped at. -/
def portions (bytes : Bytes) : List (List Char) × Option DecodeFault :=
  portionsFrom (bytes.length + 1) (start bytes)

end TextStream

end Amend.Codec
