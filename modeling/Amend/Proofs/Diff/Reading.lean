/-
A unified diff, read back from its lines alone, tells how the first text becomes the second. The ranges in
a header name slices of both texts: the lines of a hunk with a blank or a minus are the slice of the first,
those with a blank or a plus the slice of the second. What no hunk names is the same in both; so putting the
new lines of every hunk in place of its old ones makes the second text of the first.
-/
import Amend.Proofs.Diff.Identity

namespace Amend

namespace Diff

/-! ## Reading a diff -/

/-- A hunk as a reader finds it: the ranges of its header, counted from zero up to a line that is not in them,
and the lines below the header. -/
structure Shown where
  left : Nat
  leftStop : Nat
  right : Nat
  rightStop : Nat
  body : List String
  deriving DecidableEq, Repr

/-- A number, and what follows it. -/
def readNumber (cs : List Char) : Option (Nat × List Char) :=
  match cs.takeWhile Char.isDigit with
  | [] => none
  | digits => some (Nat.ofDigitChars 10 digits 0, cs.dropWhile Char.isDigit)

/-- A range, as its first line, from one on, and its length. A range without a length is one line, and one of
length zero comes after the line it names. -/
def readRange (cs : List Char) : Option (Nat × Nat × List Char) := do
  let (first, rest) ← readNumber cs
  match rest with
  | ',' :: rest =>
    let (length, rest) ← readNumber rest
    let start := if length = 0 then first else first - 1
    return (start, start + length, rest)
  | rest => return (first - 1, first, rest)

/-- The header of a hunk, whose lines are yet to come. -/
def readHeader (line : String) : Option Shown :=
  match line.toList with
  | '@' :: '@' :: ' ' :: '-' :: rest => do
    let (left, leftStop, rest) ← readRange rest
    match rest with
    | ' ' :: '+' :: rest =>
      let (right, rightStop, rest) ← readRange rest
      if rest = [' ', '@', '@', '\n'] then return ⟨left, leftStop, right, rightStop, []⟩ else none
    | _ => none
  | _ => none

/-- The lines before the first header, and the hunks. -/
def sections : List String → List String × List Shown
  | [] => ([], [])
  | line :: rest =>
    let (body, hunks) := sections rest
    match readHeader line with
    | some hunk => ([], { hunk with body } :: hunks)
    | none => (line :: body, hunks)

/-- The hunks of a diff: there are none without lines, and otherwise they come after two lines that name the
files. -/
def readDiff : List String → Option (List Shown)
  | [] => some []
  | before :: after :: rest =>
    if "--- ".toList <+: before.toList ∧ "+++ ".toList <+: after.toList then
      match sections rest with
      | ([], hunks) => some hunks
      | _ => none
    else none
  | _ => none

/-- A line without its sign, if it is one of these. -/
def unsigned (signs : List Char) (line : String) : Option String :=
  match line.toList with
  | [] => none
  | sign :: text => if sign ∈ signs then some (String.ofList text) else none

namespace Shown

/-- The lines of the first text that a hunk shows. -/
def old (hunk : Shown) : List String :=
  hunk.body.filterMap (unsigned [' ', '-'])

/-- The lines of the second text that a hunk shows. -/
def new (hunk : Shown) : List String :=
  hunk.body.filterMap (unsigned [' ', '+'])

/-- A hunk shows just what stands in its ranges. -/
structure Faithful (a b : List String) (hunk : Shown) : Prop where
  signed : ∀ line ∈ hunk.body, ∃ sign ∈ [' ', '-', '+'], line.toList.head? = some sign
  left : hunk.left ≤ hunk.leftStop ∧ hunk.leftStop ≤ a.length
  right : hunk.right ≤ hunk.rightStop ∧ hunk.rightStop ≤ b.length
  old : hunk.old = between a hunk.left hunk.leftStop
  new : hunk.new = between b hunk.right hunk.rightStop

end Shown

/-- The lines from `pos` on that are in none of the ranges: those before each range, and those after the last. -/
def outside (lines : List String) : Nat → List (Nat × Nat) → List (List String)
  | pos, [] => [lines.drop pos]
  | pos, (start, stop) :: rest => between lines pos start :: outside lines stop rest

/-- The lines from `pos` on, with the new lines of each hunk in place of its range. -/
def patched (lines : List String) : Nat → List Shown → List String
  | pos, [] => lines.drop pos
  | pos, hunk :: rest => between lines pos hunk.left ++ hunk.new ++ patched lines hunk.leftStop rest

/-- Hunks that show how one list of lines becomes another. -/
structure Sound (a b : List String) (hunks : List Shown) : Prop where
  faithful : ∀ hunk ∈ hunks, hunk.Faithful a b
  ascending : hunks.Pairwise fun hunk later => hunk.leftStop < later.left ∧ hunk.rightStop < later.right
  outside : outside a 0 (hunks.map fun hunk => (hunk.left, hunk.leftStop)) =
    outside b 0 (hunks.map fun hunk => (hunk.right, hunk.rightStop))

variable {a b : List String} {i j i' j' gap : Nat}

/-! ## Slices -/

theorem between_append_drop {lines : List String} {start stop : Nat} (hs : start ≤ stop)
    (hlength : stop ≤ lines.length) :
    between lines start stop ++ lines.drop stop = lines.drop start := by
  have htake : start ≤ (lines.take stop).length := by
    rw [List.length_take]
    omega
  rw [between, ← List.drop_append_of_le_length htake, List.take_append_drop]

theorem between_append {lines : List String} {start middle stop : Nat} (hs : start ≤ middle) (hm : middle ≤ stop)
    (hlength : middle ≤ lines.length) :
    between lines start middle ++ between lines middle stop = between lines start stop := by
  have htake : middle ≤ (lines.take stop).length := by
    rw [List.length_take]
    omega
  have hslice := between_append_drop hs htake
  rwa [between, List.take_take, Nat.min_eq_left hm] at hslice

theorem SameLines.between_eq {n : Nat} (h : SameLines a b i j n) : between a i (i + n) = between b j (j + n) := by
  refine List.ext_getElem? fun k => ?_
  simp only [between, List.getElem?_drop, List.getElem?_take, Nat.add_lt_add_iff_left]
  split
  · exact h.line k ‹_›
  · rfl

/-- Replacing the slices that hunks name gives the second list. -/
theorem patched_eq_drop {hunks : List Shown} : ∀ {i j : Nat}, (∀ hunk ∈ hunks, hunk.Faithful a b) →
    (hunks.Pairwise fun hunk later => hunk.leftStop < later.left ∧ hunk.rightStop < later.right) →
    (∀ hunk ∈ hunks, j ≤ hunk.right) →
    outside a i (hunks.map fun hunk => (hunk.left, hunk.leftStop)) =
      outside b j (hunks.map fun hunk => (hunk.right, hunk.rightStop)) →
    patched a i hunks = b.drop j := by
  induction hunks with
  | nil => exact fun _ _ _ h => List.singleton_inj.1 h
  | cons hunk rest ih =>
    intro i j hfaithful hascending hj houtside
    obtain ⟨hbefore, hrest⟩ := List.cons.inj houtside
    obtain ⟨hlater, hascending⟩ := List.pairwise_cons.1 hascending
    have hhunk := hfaithful hunk (List.mem_cons_self ..)
    have hpatched := ih (fun h hmem => hfaithful h (List.mem_cons_of_mem _ hmem)) hascending
      (fun h hmem => Nat.le_of_lt (hlater h hmem).2) hrest
    have hright := hj hunk (List.mem_cons_self ..)
    -- lines outside of the hunks can be taken from either list, so all of it is a slice of the second
    calc between a i hunk.left ++ hunk.new ++ patched a hunk.leftStop rest
        = between b j hunk.right ++ between b hunk.right hunk.rightStop ++ b.drop hunk.rightStop := by
          rw [hbefore, hhunk.new, hpatched]
      _ = between b j hunk.rightStop ++ b.drop hunk.rightStop := by
          rw [between_append hright hhunk.right.1 (Nat.le_trans hhunk.right.1 hhunk.right.2)]
      _ = b.drop j := between_append_drop (Nat.le_trans hright hhunk.right.1) hhunk.right.2

theorem Sound.patched_eq {hunks : List Shown} (h : Sound a b hunks) : patched a 0 hunks = b :=
  patched_eq_drop h.faithful h.ascending (fun _ _ => Nat.zero_le _) h.outside

/-! ## Headers -/

theorem readNumber_toString (n : Nat) {c : Char} (hc : c.isDigit = false) (rest : List Char) :
    readNumber ((toString n).toList ++ c :: rest) = some (n, c :: rest) := by
  have hdigits : ∀ d ∈ Nat.toDigits 10 n, d.isDigit = true :=
    fun d hd => Nat.isDigit_of_mem_toDigits (by decide) (by decide) hd
  have hc : ¬ c.isDigit = true := Bool.eq_false_iff.1 hc
  rw [Nat.toString_eq_ofList_toDigits, String.toList_ofList]
  unfold readNumber
  rw [List.takeWhile_append_of_pos hdigits, List.takeWhile_cons_of_neg hc, List.append_nil,
    List.dropWhile_append_of_pos hdigits, List.dropWhile_cons_of_neg hc]
  split
  · rename_i hnone
    exact absurd hnone Nat.toDigits_ne_nil
  · rw [Nat.ofDigitChars_ten_toDigits]

/-- A range is read as it was written. -/
theorem readRange_rangeText {start stop : Nat} (h : start ≤ stop) (rest : List Char) :
    readRange ((rangeText start stop).toList ++ ' ' :: rest) = some (start, stop, ' ' :: rest) := by
  unfold rangeText
  simp only
  split
  · rename_i hone
    obtain rfl : stop = start + 1 := by omega
    rw [if_neg (by omega)]
    simp only [readRange, readNumber_toString (start + 1) (show ' '.isDigit = false by decide), Option.bind_eq_bind,
      Option.bind_some, Option.pure_def, Nat.add_sub_cancel]
    rfl
  · rename_i hone
    have hlist : ∀ first length : Nat, s!"{first},{length}".toList ++ ' ' :: rest =
        (toString first).toList ++ ',' :: ((toString length).toList ++ ' ' :: rest) := by simp [toString]
    rw [hlist]
    simp only [readRange, readNumber_toString _ (show ','.isDigit = false by decide),
      readNumber_toString _ (show ' '.isDigit = false by decide), Option.bind_eq_bind, Option.bind_some,
      Option.pure_def]
    by_cases hnone : stop - start = 0
    · obtain rfl : start = stop := by omega
      simp
    · simp only [if_neg hnone, Nat.add_sub_cancel, Nat.add_sub_cancel' h]

theorem toList_header {hunk : Hunk} {first last : Stretch} (hfirst : hunk.head? = some first)
    (hlast : hunk.getLast? = some last) : hunk.header.toList =
      '@' :: '@' :: ' ' :: '-' :: ((rangeText first.left last.leftStop).toList ++
        ' ' :: '+' :: ((rangeText first.right last.rightStop).toList ++ [' ', '@', '@', '\n'])) := by
  unfold Hunk.header
  rw [hfirst, hlast]
  simp [toString]

/-- A header names the lines that the stretches of the hunk go over. -/
theorem readHeader_header {hunk : Hunk} (hne : hunk ≠ []) (h : Tiles a b i j hunk i' j') :
    readHeader hunk.header = some ⟨i, i', j, j', []⟩ := by
  obtain ⟨last, hlast, rfl, rfl⟩ := tiles_getLast hne h
  obtain ⟨hi, hj⟩ := tiles_le h
  obtain ⟨first, rest, rfl⟩ := List.exists_cons_of_ne_nil hne
  obtain ⟨rfl, rfl, -⟩ := h
  unfold readHeader
  rw [toList_header rfl hlast]
  simp only [readRange_rangeText hi, readRange_rangeText hj, Option.bind_eq_bind, Option.bind_some]
  rfl

/-- A line put into an empty text. -/
example : readHeader "@@ -0,0 +1 @@\n" = some ⟨0, 0, 0, 1, []⟩ := by decide

/-! ## Lines -/

theorem unsigned_append {sign text : String} {c : Char} (hsign : sign.toList = [c]) (signs : List Char) :
    unsigned signs (sign ++ text) = if c ∈ signs then some text else none := by
  unfold unsigned
  rw [String.toList_append, hsign]
  simp only [List.singleton_append, String.ofList_toList]

theorem filterMap_unsigned {sign : String} {c : Char} (hsign : sign.toList = [c]) (signs : List Char)
    (lines : List String) :
    (lines.map (sign ++ ·)).filterMap (unsigned signs) = if c ∈ signs then lines else [] := by
  rw [List.filterMap_map]
  by_cases hc : c ∈ signs
  · have hline : unsigned signs ∘ (sign ++ ·) = some :=
      funext fun text => (unsigned_append hsign signs).trans (if_pos hc)
    rw [hline, List.filterMap_some, if_pos hc]
  · have hline : unsigned signs ∘ (sign ++ ·) = fun _ => none :=
      funext fun text => (unsigned_append hsign signs).trans (if_neg hc)
    rw [hline, List.filterMap_none, if_neg hc]

/-- The lines of stretches, without their signs, are the slices that the stretches go over. -/
theorem unsigned_of_tiles {hunk : List Stretch} : ∀ {i j : Nat}, Tiles a b i j hunk i' j' →
    (hunk.flatMap (Stretch.lines a b)).filterMap (unsigned [' ', '-']) = between a i i' ∧
      (hunk.flatMap (Stretch.lines a b)).filterMap (unsigned [' ', '+']) = between b j j' := by
  induction hunk with
  | nil =>
    rintro i j ⟨rfl, rfl⟩
    simp [between]
  | cons s rest ih =>
    rintro i j ⟨rfl, rfl, hs, hrest⟩
    obtain ⟨hold, hnew⟩ := ih hrest
    obtain ⟨hi, hj⟩ := tiles_le hrest
    rw [List.flatMap_cons, List.filterMap_append, List.filterMap_append, hold, hnew]
    cases hs with
    | equal hsame =>
      rw [← between_append (Nat.le_add_right ..) hi hsame.left, ← between_append (Nat.le_add_right ..) hj hsame.right,
        ← hsame.between_eq]
      simp [Stretch.lines, filterMap_unsigned (show " ".toList = [' '] from rfl)]
    | changed hl hl' hr hr' =>
      rw [← between_append hl hi hl', ← between_append hr hj hr']
      simp [Stretch.lines, filterMap_unsigned (show "-".toList = ['-'] from rfl),
        filterMap_unsigned (show "+".toList = ['+'] from rfl)]

theorem signed_of_mem_lines {s : Stretch} {line : String} (h : line ∈ s.lines a b) :
    ∃ sign ∈ [' ', '-', '+'], line.toList.head? = some sign := by
  unfold Stretch.lines at h
  split at h
  · obtain ⟨text, -, rfl⟩ := List.mem_map.1 h
    exact ⟨' ', by decide, by rw [String.toList_append]; rfl⟩
  · rcases List.mem_append.1 h with h | h
    · obtain ⟨text, -, rfl⟩ := List.mem_map.1 h
      exact ⟨'-', by decide, by rw [String.toList_append]; rfl⟩
    · obtain ⟨text, -, rfl⟩ := List.mem_map.1 h
      exact ⟨'+', by decide, by rw [String.toList_append]; rfl⟩

/-- A line with a sign is no header. -/
theorem readHeader_of_signed {line : String} {sign : Char} (hsign : sign ∈ [' ', '-', '+'])
    (h : line.toList.head? = some sign) : readHeader line = none := by
  unfold readHeader
  split
  · rename_i heq
    rw [heq] at h
    obtain rfl : '@' = sign := Option.some.inj h
    exact absurd hsign (by decide)
  · rfl

theorem sections_body {body : List String} (h : ∀ line ∈ body, readHeader line = none) (rest : List String) :
    sections (body ++ rest) = (body ++ (sections rest).1, (sections rest).2) := by
  induction body with
  | nil => rfl
  | cons line body ih =>
    rw [List.cons_append, sections, ih fun line hline => h line (List.mem_cons_of_mem _ hline)]
    simp only [h line (List.mem_cons_self ..), List.cons_append]

/-! ## Hunks as they are read -/

/-- Hunks that are read cover both lists from `i` and `j` on, as the hunks of the lists do. -/
def Laid (a b : List String) : Nat → Nat → Nat → List Shown → Prop
  | _, i, j, [] => ∃ n, SameLines a b i j n ∧ i + n = a.length ∧ j + n = b.length
  | gap, i, j, hunk :: rest => hunk.Faithful a b ∧
      (∃ n, gap ≤ n ∧ SameLines a b i j n ∧ i + n = hunk.left ∧ j + n = hunk.right) ∧
      Laid a b 1 hunk.leftStop hunk.rightStop rest

/-- The lines of hunks are read as hunks that cover the lists. -/
theorem sections_of_covers {hunks : List Hunk} (hne : ∀ hunk ∈ hunks, hunk ≠ []) : ∀ {gap i j : Nat},
    Covers a b gap i j hunks →
    ∃ shown, sections (hunks.flatMap (Hunk.lines a b)) = ([], shown) ∧ Laid a b gap i j shown ∧
      shown.length = hunks.length := by
  induction hunks with
  | nil => exact fun h => ⟨[], rfl, h, rfl⟩
  | cons hunk rest ih =>
    rintro gap i j ⟨n, i', j', hgap, hsame, htiles, hi, hj, hcovers⟩
    obtain ⟨shown, hread, hlaid, hlength⟩ := ih (fun hunk hmem => hne hunk (List.mem_cons_of_mem _ hmem)) hcovers
    have hsigned : ∀ line ∈ hunk.flatMap (Stretch.lines a b),
        ∃ sign ∈ [' ', '-', '+'], line.toList.head? = some sign := by
      intro line hline
      obtain ⟨s, -, hline⟩ := List.mem_flatMap.1 hline
      exact signed_of_mem_lines hline
    have hbody : ∀ line ∈ hunk.flatMap (Stretch.lines a b), readHeader line = none := by
      intro line hline
      obtain ⟨sign, hsign, hline⟩ := hsigned line hline
      exact readHeader_of_signed hsign hline
    obtain ⟨hold, hnew⟩ := unsigned_of_tiles htiles
    obtain ⟨hle, hle'⟩ := tiles_le htiles
    refine ⟨⟨i + n, i', j + n, j', hunk.flatMap (Stretch.lines a b)⟩ :: shown, ?_,
      ⟨⟨hsigned, ⟨hle, hi⟩, ⟨hle', hj⟩, hold, hnew⟩, ⟨n, hgap, hsame, rfl, rfl⟩, hlaid⟩, congrArg (· + 1) hlength⟩
    rw [List.flatMap_cons, Hunk.lines, List.cons_append, sections, sections_body hbody, hread,
      readHeader_header (hne hunk (List.mem_cons_self ..)) htiles, List.append_nil]

theorem Laid.after {hunks : List Shown} : ∀ {gap i j : Nat}, Laid a b gap i j hunks →
    ∀ hunk ∈ hunks, i + gap ≤ hunk.left ∧ j + gap ≤ hunk.right := by
  induction hunks with
  | nil => exact fun _ hunk hmem => absurd hmem List.not_mem_nil
  | cons first rest ih =>
    rintro gap i j ⟨hfirst, ⟨n, hgap, -, hleft, hright⟩, hrest⟩ hunk hmem
    rcases List.mem_cons.1 hmem with rfl | hmem
    · omega
    · have hlater := ih hrest hunk hmem
      have hl := hfirst.left.1
      have hr := hfirst.right.1
      omega

theorem Laid.faithful {hunks : List Shown} : ∀ {gap i j : Nat}, Laid a b gap i j hunks →
    ∀ hunk ∈ hunks, hunk.Faithful a b := by
  induction hunks with
  | nil => exact fun _ hunk hmem => absurd hmem List.not_mem_nil
  | cons first rest ih =>
    rintro gap i j ⟨hfirst, -, hrest⟩ hunk hmem
    rcases List.mem_cons.1 hmem with rfl | hmem
    · exact hfirst
    · exact ih hrest hunk hmem

theorem Laid.ascending {hunks : List Shown} : ∀ {gap i j : Nat}, Laid a b gap i j hunks →
    hunks.Pairwise fun hunk later => hunk.leftStop < later.left ∧ hunk.rightStop < later.right := by
  induction hunks with
  | nil => exact fun _ => .nil
  | cons first rest ih => exact fun h => .cons (fun hunk hmem => h.2.2.after hunk hmem) (ih h.2.2)

theorem Laid.outside {hunks : List Shown} : ∀ {gap i j : Nat}, Laid a b gap i j hunks →
    outside a i (hunks.map fun hunk => (hunk.left, hunk.leftStop)) =
      outside b j (hunks.map fun hunk => (hunk.right, hunk.rightStop)) := by
  induction hunks with
  | nil =>
    rintro gap i j ⟨n, hsame, hi, hj⟩
    have hrest := hsame.between_eq
    rw [hi, hj, between, between, List.take_length, List.take_length] at hrest
    exact congrArg ([·]) hrest
  | cons first rest ih =>
    rintro gap i j ⟨-, ⟨n, -, hsame, hleft, hright⟩, hrest⟩
    have hbefore := hsame.between_eq
    rw [hleft, hright] at hbefore
    exact congrArg₂ List.cons hbefore (ih hrest)

/-! ## Diffs are sound -/

theorem readDiff_unifiedLines (path : String) {shown : List Shown}
    (h : sections ((hunks a b).flatMap (Hunk.lines a b)) = ([], shown)) :
    readDiff (unifiedLines path a b) = some shown := by
  unfold unifiedLines
  split
  · rename_i hnone
    rw [hnone] at h
    exact congrArg some (Prod.mk.inj h).2
  · have hbefore : "--- ".toList <+: s!"--- a/{path}\n".toList := by simp [toString]
    have hafter : "+++ ".toList <+: s!"+++ b/{path}\n".toList := by simp [toString]
    rw [readDiff, if_pos ⟨hbefore, hafter⟩, h]

/-- What a diff shows is sound: its hunks ascend without overlapping, each shows just the lines in its ranges, and
the lines outside are the same in both texts. So putting the new lines of the hunks in place of their old ones gives
the second text, and there is no hunk exactly if the texts are equal. -/
theorem unified_sound (path before after : String) :
    ∃ hunks, readDiff (unifiedLines path (Text.lines before) (Text.lines after)) = some hunks ∧
      Sound (Text.lines before) (Text.lines after) hunks ∧
      String.join (patched (Text.lines before) 0 hunks) = after ∧ (hunks = [] ↔ before = after) := by
  obtain ⟨shown, hread, hlaid, hlength⟩ := sections_of_covers (fun _ => ne_nil_of_mem_hunks)
    (covers_hunks (Text.lines before) (Text.lines after))
  have hsound : Sound (Text.lines before) (Text.lines after) shown := ⟨hlaid.faithful, hlaid.ascending, hlaid.outside⟩
  refine ⟨shown, readDiff_unifiedLines path hread, hsound, ?_, ?_⟩
  · rw [hsound.patched_eq, Text.join_lines]
  · calc shown = [] ↔ hunks (Text.lines before) (Text.lines after) = [] := by
          rw [← List.length_eq_zero_iff, hlength, List.length_eq_zero_iff]
      _ ↔ Text.lines before = Text.lines after := hunks_eq_nil_iff
      _ ↔ before = after := ⟨Text.lines_injective, congrArg Text.lines⟩

end Diff

end Amend
