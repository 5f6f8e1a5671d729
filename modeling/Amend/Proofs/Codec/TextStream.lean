/-
Reading a text file bit by bit gives what reading it at once does. If the bytes are UTF-8, no piece of
them is refused, wherever characters and line ends are cut through, and the portions handed out are the
beginning of the text with every line end as a line feed. Of a text that was written in UTF-8 they are all.
-/
import Amend.Codec.TextStream
import Amend.Proofs.Codec.Utf8

namespace Amend.Codec

namespace Utf8

/-! ## Bytes cut in two -/

theorem tail_append (follow : Nat) : ∀ {number good low high m : Nat} {xs ys : Bytes},
    tail number good low high follow (xs ++ ys) = .whole m →
    follow ≤ xs.length ∧ tail number good low high follow xs = .whole m ∨
      xs.length < follow ∧ ∃ seen, tail number good low high follow xs = .short seen := by
  induction follow with
  | zero => exact fun h => .inl ⟨Nat.zero_le _, by rwa [tail] at h ⊢⟩
  | succ follow ih =>
    intro number good low high m xs ys h
    cases xs with
    | nil => exact .inr ⟨Nat.succ_pos _, good, rfl⟩
    | cons b rest =>
      rw [List.cons_append, tail] at h
      rw [tail, List.length_cons]
      split at h
      · rename_i hb
        rw [if_pos hb]
        rcases ih h with ⟨hlen, hwhole⟩ | ⟨hlen, hshort⟩
        · exact .inl ⟨Nat.succ_le_succ hlen, hwhole⟩
        · exact .inr ⟨Nat.succ_lt_succ hlen, hshort⟩
      · cases h

/-- A character that is cut through is one whose end is missing. -/
theorem head_append {b : UInt8} {xs ys : Bytes} {c : Char} {length : Nat} (h : head b (xs ++ ys) = .char c length) :
    0 < length ∧ (length - 1 ≤ xs.length ∧ head b xs = .char c length ∨
      xs.length < length - 1 ∧ ∃ good, head b xs = .bad good .unexpectedEnd) := by
  unfold head at h ⊢
  rcases hl : lead? b.toNat with _ | lead
  · rw [hl] at h; cases h
  · rw [hl] at h
    simp only at h ⊢
    rcases ht : tail lead.bits 1 lead.low lead.high lead.follow (xs ++ ys) with m | good | good
    · rw [ht] at h
      cases h
      refine ⟨Nat.succ_pos _, ?_⟩
      rw [Nat.add_sub_cancel]
      rcases tail_append _ ht with ⟨hlen, hwhole⟩ | ⟨hlen, seen, hshort⟩
      · exact .inl ⟨hlen, by rw [hwhole]⟩
      · exact .inr ⟨hlen, seen, by rw [hshort]⟩
    · rw [ht] at h; cases h
    · rw [ht] at h; cases h

/-- A fault is found at the same byte wherever counting starts. -/
theorem decodeFrom_add (bytes : Bytes) : ∀ offset n skip,
    decodeFrom (offset + n) skip bytes = (decodeFrom offset skip bytes).mapError (·.shift n) := by
  induction bytes with
  | nil => intro _ _ skip; cases skip <;> rfl
  | cons b rest ih =>
    intro offset n skip
    cases skip with
    | succ skip => rw [decodeFrom, decodeFrom, Nat.add_right_comm, ih]
    | zero =>
      rw [decodeFrom, decodeFrom]
      cases head b rest with
      | bad length reason => rfl
      | char c length =>
        simp only [Nat.add_right_comm offset n 1, ih (offset + 1) n (length - 1)]
        cases decodeFrom (offset + 1) (length - 1) rest <;> rfl

theorem decodeFrom_ok_offset {bytes : Bytes} {offset : Nat} {cs : List Char} :
    decodeFrom offset 0 bytes = .ok cs ↔ decodeFrom 0 0 bytes = .ok cs := by
  rw [← Nat.zero_add offset, decodeFrom_add]
  cases decodeFrom 0 0 bytes <;> simp [Except.mapError]

/-- No character takes less than a byte. -/
theorem length_of_decodeFrom (bytes : Bytes) : ∀ {offset skip : Nat} {cs : List Char},
    decodeFrom offset skip bytes = .ok cs → cs.length ≤ bytes.length := by
  induction bytes with
  | nil =>
    intro offset skip cs h
    cases skip <;> cases h <;> exact Nat.le_refl 0
  | cons b rest ih =>
    intro offset skip cs h
    cases skip with
    | succ skip => exact Nat.le_succ_of_le (ih h)
    | zero =>
      rw [decodeFrom] at h
      cases hhead : head b rest with
      | bad length reason => rw [hhead] at h; cases h
      | char c length =>
        rw [hhead] at h
        simp only at h
        rcases hrest : decodeFrom (offset + 1) (length - 1) rest with fault | found
        · rw [hrest] at h; cases h
        · rw [hrest] at h
          cases h
          exact Nat.succ_le_succ (ih hrest)

theorem decodeFrom_drop {bytes : Bytes} {skip : Nat} (h : skip ≤ bytes.length) (offset : Nat) :
    decodeFrom offset skip bytes = decodeFrom (offset + skip) 0 (bytes.drop skip) := by
  have hskip := decodeFrom_skip (bytes.take skip) (bytes.drop skip) offset
  rwa [List.take_append_drop, List.length_take_of_le h] at hskip

/-- Decoding a character and what follows it. -/
theorem decodeFrom_cons {b : UInt8} {rest : Bytes} {c : Char} {length : Nat} (h : head b rest = .char c length)
    (offset : Nat) : decodeFrom offset 0 (b :: rest) =
      (decodeFrom (offset + length) 0 (rest.drop (length - 1))).map (c :: ·) := by
  have hwhole : head b (rest ++ []) = .char c length := by rwa [List.append_nil]
  obtain ⟨hpos, hlen⟩ := head_append hwhole
  have hle : length - 1 ≤ rest.length := by
    rcases hlen with ⟨hle, -⟩ | ⟨-, good, hbad⟩
    · exact hle
    · rw [h] at hbad; cases hbad
  rw [decodeFrom]
  simp only [h]
  rw [decodeFrom_drop hle, show offset + 1 + (length - 1) = offset + length by omega]

/-- A character is known by its own bytes. -/
theorem head_take {b : UInt8} {xs : Bytes} {c : Char} {length : Nat} (h : head b xs = .char c length)
    (hle : length - 1 ≤ xs.length) {n : Nat} (hn : length - 1 ≤ n) : head b (xs.take n) = .char c length := by
  have hsplit : head b (xs.take n ++ xs.drop n) = .char c length := by rwa [List.take_append_drop]
  obtain ⟨-, ⟨-, hchar⟩ | ⟨hless, -⟩⟩ := head_append hsplit
  · exact hchar
  · rw [List.length_take] at hless
    omega

/-- A place in bytes that others follow: a character begins at it, the bytes before it are `first`, and
what follows is `rest`. It is the end of the bytes, or that of the character that is cut through. -/
structure Cut (offset : Nat) (xs ys : Bytes) (k : Nat) (first rest : List Char) : Prop where
  before : decodeFrom offset 0 (xs.take k) = .ok first
  after : decodeFrom offset 0 (xs.drop k ++ ys) = .ok rest
  last : k = xs.length ∧ decodeFrom offset 0 xs = .ok first ∨ ∃ fault, decodeFrom offset 0 xs = .error fault ∧
    fault.offset = offset + k ∧ fault.reason = .unexpectedEnd

/-- The place after a character that is whole is found after its bytes. -/
theorem Cut.cons {offset k length : Nat} {b : UInt8} {xs ys : Bytes} {c : Char} {first rest : List Char}
    (h : Cut (offset + length) (xs.drop (length - 1)) ys k first rest) (hhead : head b xs = .char c length)
    (hpos : 0 < length) (hle : length - 1 ≤ xs.length) :
    Cut offset (b :: xs) ys (length + k) (c :: first) rest where
  before := by
    rw [show length + k = length - 1 + k + 1 by omega, List.take_succ_cons,
      decodeFrom_cons (head_take hhead hle (Nat.le_add_right _ k)), List.drop_take, Nat.add_sub_cancel_left, h.before]
    rfl
  after := by
    rw [show length + k = length - 1 + k + 1 by omega, List.drop_succ_cons, ← List.drop_drop]
    exact decodeFrom_ok_offset.2 (decodeFrom_ok_offset.1 h.after)
  last := by
    rw [decodeFrom_cons hhead]
    rcases h.last with ⟨rfl, hall⟩ | ⟨fault, hfault, hoffset, hreason⟩
    · refine .inl ⟨?_, by rw [hall]; rfl⟩
      rw [List.length_drop, List.length_cons]
      omega
    · exact .inr ⟨fault, by rw [hfault]; rfl, by omega, hreason⟩

/-- Where bytes of a text are cut in two, the first part is decoded up to a place at which a character
begins, and what follows that place is the rest of the text. -/
theorem decodeFrom_append : ∀ (n : Nat) {xs ys : Bytes} {cs : List Char} {offset : Nat}, xs.length ≤ n →
    decodeFrom offset 0 (xs ++ ys) = .ok cs → ∃ k first rest, cs = first ++ rest ∧ Cut offset xs ys k first rest := by
  -- on a bound of the length, since a character takes several bytes off at once
  intro n
  induction n with
  | zero =>
    intro xs ys cs offset hn h
    obtain rfl := List.length_eq_zero_iff.1 (Nat.le_zero.1 hn)
    exact ⟨0, [], cs, rfl, rfl, h, .inl ⟨rfl, rfl⟩⟩
  | succ n ih =>
    intro xs ys cs offset hn h
    cases xs with
    | nil => exact ⟨0, [], cs, rfl, rfl, h, .inl ⟨rfl, rfl⟩⟩
    | cons b xs =>
      rw [List.cons_append] at h
      rcases hhead : head b (xs ++ ys) with ⟨c, length⟩ | ⟨length, reason⟩
      · obtain ⟨hpos, ⟨hle, hwhole⟩ | ⟨hless, good, hcut⟩⟩ := head_append hhead
        · rw [decodeFrom_cons hhead, List.drop_append_of_le_length hle] at h
          rcases hrest : decodeFrom (offset + length) 0 (xs.drop (length - 1) ++ ys) with fault | found
          · rw [hrest] at h; cases h
          rw [hrest] at h
          cases h
          have hshort : (xs.drop (length - 1)).length ≤ n := by
            rw [List.length_drop]
            rw [List.length_cons] at hn
            omega
          obtain ⟨k, first, rest, rfl, hlater⟩ := ih hshort hrest
          exact ⟨length + k, c :: first, rest, rfl, hlater.cons hwhole hpos hle⟩
        · refine ⟨0, [], cs, rfl, rfl, h, .inr ?_⟩
          rw [decodeFrom, hcut]
          exact ⟨_, rfl, rfl, rfl⟩
      · rw [decodeFrom, hhead] at h
        cases h

end Utf8

/-! ## Line ends cut in two -/

theorem plainNewlines_return {rest : List Char} (h : rest.head? ≠ some '\n') :
    plainNewlines ('\r' :: rest) = '\n' :: plainNewlines rest := by
  rw [plainNewlines]
  rintro tail rfl
  exact h rfl

/-- Lines can be cut anywhere but between a carriage return and a line feed. -/
theorem plainNewlines_append {xs ys : List Char} (h : xs.getLast? ≠ some '\r' ∨ ys.head? ≠ some '\n') :
    plainNewlines (xs ++ ys) = plainNewlines xs ++ plainNewlines ys := by
  have htail : ∀ {c : Char} {rest : List Char}, (c :: rest).getLast? ≠ some '\r' → rest.getLast? ≠ some '\r' := by
    intro c rest hlast hrest
    rw [List.getLast?_cons, hrest] at hlast
    exact hlast rfl
  fun_induction plainNewlines xs with
  | case1 rest ih =>
    rw [List.cons_append, List.cons_append, plainNewlines, ih (h.imp_left fun hlast => htail (htail hlast)),
      List.cons_append]
  | case2 rest hrest ih =>
    have hhead : (rest ++ ys).head? ≠ some '\n' := by
      cases rest with
      | nil => exact h.resolve_left fun hlast => hlast rfl
      | cons c rest =>
        rintro ⟨⟩
        exact hrest rest rfl
    rw [List.cons_append, plainNewlines_return hhead, ih (h.imp_left htail), List.cons_append]
  | case3 c rest _ hc ih =>
    rw [List.cons_append, plainNewlines.eq_3 c (rest ++ ys) (fun _ h _ => hc h) hc, ih (h.imp_left htail),
      List.cons_append]
  | case4 => rfl

namespace TextStream

/-! ## Pieces -/

/-- A stream that has a text before it: what is ready, and what its bytes are. -/
def Holds (s : TextStream) (text : List Char) : Prop :=
  ∃ cs, Utf8.decodeFrom 0 0 (s.begun ++ s.rest) = .ok cs ∧
    text = s.ready ++ plainNewlines ((if s.returning then ['\r'] else []) ++ cs)

theorem fetchSize_pos (s : TextStream) (wanted : Nat) : 0 < s.fetchSize wanted := by
  have hpiece : 0 < pieceSize := by decide
  unfold fetchSize
  split <;> omega

/-- The bytes of a text can be decoded piece by piece. -/
theorem decodePiece_of_text {begun piece rest : Bytes} {cs : List Char}
    (h : Utf8.decodeFrom 0 0 (begun ++ (piece ++ rest)) = .ok cs) (hend : piece = [] → rest = []) :
    ∃ first begun' later, decodePiece piece.isEmpty (begun ++ piece) = .ok (first, begun') ∧ cs = first ++ later ∧
      Utf8.decodeFrom 0 0 (begun' ++ rest) = .ok later ∧ (piece = [] → begun' = []) := by
  unfold decodePiece
  by_cases hpiece : piece = []
  · rw [hend hpiece, List.append_nil] at h
    rw [h]
    exact ⟨cs, [], [], rfl, (List.append_nil cs).symm, by rw [hend hpiece]; rfl, fun _ => rfl⟩
  · rw [← List.append_assoc] at h
    obtain ⟨k, first, later, rfl, hfirst, hlater, hor⟩ := Utf8.decodeFrom_append _ (Nat.le_refl _) h
    rcases hor with ⟨rfl, hall⟩ | ⟨fault, hfault, hoffset, hreason⟩
    · rw [hall]
      rw [List.drop_length] at hlater
      exact ⟨first, [], later, rfl, rfl, hlater, fun hp => absurd hp hpiece⟩
    · rw [Nat.zero_add] at hoffset
      have hgoes : (fault.reason = .unexpectedEnd && !piece.isEmpty) = true := by simp [hreason, hpiece]
      rw [hfault]
      simp only
      rw [if_pos hgoes, hoffset, hfirst]
      exact ⟨first, _, later, rfl, rfl, hlater, fun hp => absurd hp hpiece⟩

/-- Fetching a piece of a text goes well and keeps the text. -/
theorem fetch_of_text {s : TextStream} {text : List Char} (h : s.Holds text) (hready : s.ready = []) (wanted : Nat) :
    ∃ next, s.fetch wanted = .ok next ∧ next.Holds text := by
  obtain ⟨cs, hcs, rfl⟩ := h
  have hsplit : s.rest.take (s.fetchSize wanted) ++ s.rest.drop (s.rest.take (s.fetchSize wanted)).length = s.rest :=
    (List.prefix_iff_eq_append.1 (List.take_prefix ..))
  have hend : s.rest.take (s.fetchSize wanted) = [] → s.rest.drop (s.rest.take (s.fetchSize wanted)).length = [] := by
    intro hpiece
    have hpos := s.fetchSize_pos wanted
    rcases List.take_eq_nil_iff.1 hpiece with hzero | hnil
    · omega
    · rw [hnil, List.drop_nil]
  rw [← hsplit] at hcs
  unfold fetch
  generalize s.rest.take (s.fetchSize wanted) = piece at hcs hend
  obtain ⟨first, begun, later, hpiece, rfl, hlater, hbegun⟩ := decodePiece_of_text hcs hend
  simp only [hpiece, bind, Except.bind, pure, Except.pure, Except.ok.injEq, exists_eq_left', hready, List.nil_append]
  refine ⟨later, hlater, ?_⟩
  simp only
  rw [← List.append_assoc, show (if s.returning = true then '\r' :: first else first) =
    (if s.returning = true then ['\r'] else []) ++ first by split <;> rfl]
  generalize (if s.returning = true then ['\r'] else []) ++ first = taken
  by_cases hreturn : piece ≠ [] ∧ taken.getLast? = some '\r'
  · -- the line feed that may follow is still to come
    have hlast : taken.dropLast ++ ['\r'] = taken := by
      obtain ⟨before, rfl⟩ := List.getLast?_eq_some_iff.1 hreturn.2
      rw [List.dropLast_concat]
    have hflag : (!piece.isEmpty && decide (taken.getLast? = some '\r')) = true := by simpa using hreturn
    rw [hflag, if_pos rfl, if_pos rfl, ← plainNewlines_append (.inr (by simp)), ← List.append_assoc, hlast]
  · have hflag : (!piece.isEmpty && decide (taken.getLast? = some '\r')) = false := by simpa using hreturn
    rw [hflag, if_neg (by decide), if_neg (by decide), List.nil_append]
    refine plainNewlines_append ?_
    by_cases hpiece : piece = []
    · rw [hbegun hpiece, hend hpiece] at hlater
      cases hlater
      exact .inr (by simp)
    · exact .inl fun hlast => hreturn ⟨hpiece, hlast⟩

/-! ## Portions -/

/-- Taking characters of a text goes well and keeps what follows them. -/
theorem take_of_text (fuel : Nat) : ∀ {s : TextStream} {text : List Char}, s.Holds text → ∀ wanted,
    ∃ taken later next, s.take fuel wanted = .ok (taken, next) ∧ text = taken ++ later ∧ next.Holds later := by
  induction fuel with
  | zero => exact fun {s text} h wanted => ⟨[], text, s, rfl, rfl, h⟩
  | succ fuel ih =>
    intro s text h wanted
    obtain ⟨cs, hcs, rfl⟩ := h
    have hready := List.take_append_drop wanted s.ready
    unfold take
    generalize hnow : ({ s with ready := s.ready.drop wanted } : TextStream) = now
    have hholds : now.Holds (s.ready.drop wanted ++ plainNewlines ((if s.returning then ['\r'] else []) ++ cs)) := by
      rw [← hnow]
      exact ⟨cs, hcs, rfl⟩
    simp only [bind, Except.bind, pure, Except.pure]
    by_cases hmissing : wanted - (s.ready.take wanted).length = 0
    · rw [if_pos hmissing]
      exact ⟨s.ready.take wanted, _, now, rfl, by rw [← List.append_assoc, hready], hholds⟩
    · rw [if_neg hmissing]
      have hnil : s.ready.drop wanted = [] := by
        rw [List.length_take] at hmissing
        exact List.drop_eq_nil_of_le (by omega)
      obtain ⟨next, hfetch, hnext⟩ := fetch_of_text hholds (by rw [← hnow]; exact hnil)
        (wanted - (s.ready.take wanted).length)
      rw [hfetch]
      simp only
      have htext : s.ready ++ plainNewlines ((if s.returning then ['\r'] else []) ++ cs) = s.ready.take wanted ++
          (s.ready.drop wanted ++ plainNewlines ((if s.returning then ['\r'] else []) ++ cs)) := by
        rw [← List.append_assoc, hready]
      split
      · exact ⟨s.ready.take wanted, _, next, rfl, htext, hnext⟩
      · obtain ⟨more, later, last, hmore, hlater, hlast⟩ := ih hnext (wanted - (s.ready.take wanted).length)
        rw [hmore]
        exact ⟨s.ready.take wanted ++ more, later, last, rfl, by rw [htext, hlater, List.append_assoc], hlast⟩

theorem portionsFrom_of_text (fuel : Nat) : ∀ {s : TextStream} {text : List Char}, s.Holds text →
    (portionsFrom fuel s).2 = none ∧ (portionsFrom fuel s).1.flatten <+: text := by
  induction fuel with
  | zero => exact fun _ => ⟨rfl, List.nil_prefix⟩
  | succ fuel ih =>
    intro s text h
    obtain ⟨taken, later, next, htake, rfl, hnext⟩ := take_of_text (s.rest.length + 3) h portionSize
    unfold portionsFrom
    rw [htake]
    cases taken with
    | nil => exact ⟨rfl, List.nil_prefix⟩
    | cons c taken =>
      obtain ⟨hfault, hbegin⟩ := ih hnext
      exact ⟨hfault, (List.prefix_append_right_inj (c :: taken)).2 hbegin⟩

/-- Bytes that are UTF-8 are read to their end, portion by portion, as a beginning of their text. -/
theorem portions_of_text {bytes : Bytes} {text : String} (h : Utf8.decode bytes = .ok text) :
    (portions bytes).2 = none ∧ (portions bytes).1.flatten <+: plainNewlines text.toList := by
  unfold Utf8.decode at h
  rcases hcs : Utf8.decodeFrom 0 0 bytes with fault | cs
  · rw [hcs] at h; cases h
  · rw [hcs] at h
    cases h
    rw [String.toList_ofList]
    exact portionsFrom_of_text _ ⟨cs, hcs, rfl⟩

/-! ## Whole texts -/

/-- A stream of whose bytes nothing is left. -/
structure Spent (s : TextStream) : Prop where
  rest : s.rest = []
  begun : s.begun = []
  returning : s.returning = false

theorem Spent.eq_ready {s : TextStream} {text : List Char} (h : s.Spent) (hholds : s.Holds text) : text = s.ready := by
  obtain ⟨cs, hcs, rfl⟩ := hholds
  rw [h.begun, h.rest] at hcs
  cases hcs
  rw [h.returning]
  exact List.append_nil _

/-- Where no bytes are left, a fetch leaves the stream spent, and gives nothing if it was before. -/
theorem fetch_of_nil {s next : TextStream} {wanted : Nat} (hrest : s.rest = []) (h : s.fetch wanted = .ok next) :
    next.Spent ∧ (s.Spent → next.ready = []) := by
  unfold fetch decodePiece at h
  simp only [hrest, List.take_nil, List.drop_nil, List.append_nil, List.isEmpty_nil, Bool.not_true, Bool.and_false,
    bind, Except.bind, pure, Except.pure] at h
  split at h
  · cases h
  · rename_i result hresult
    cases h
    split at hresult
    · rename_i cs hcs
      cases hresult
      refine ⟨⟨rfl, rfl, rfl⟩, fun hspent => ?_⟩
      rw [hspent.begun] at hcs
      cases hcs
      simp [hspent.returning, plainNewlines]
    · cases hresult

/-- Otherwise it takes bytes off. -/
theorem fetch_of_ne_nil {s next : TextStream} {wanted : Nat} (hrest : s.rest ≠ []) (h : s.fetch wanted = .ok next) :
    next.rest.length < s.rest.length := by
  unfold fetch at h
  simp only [bind, Except.bind, pure, Except.pure] at h
  split at h
  · cases h
  · cases h
    have hbytes := List.length_pos_iff.2 hrest
    have hpos := s.fetchSize_pos wanted
    simp only [List.length_drop, List.length_take]
    omega

/-- Fuel to read a stream to its end: one for each byte and two more, or one if it is spent. -/
def Fueled (s : TextStream) (fuel : Nat) : Prop :=
  s.rest.length + 2 ≤ fuel ∨ s.Spent ∧ 1 ≤ fuel

/-- A fetch takes one fuel, unless the reading ends with it. -/
theorem Fueled.fetch {s next : TextStream} {fuel wanted : Nat} (h : s.Fueled (fuel + 1))
    (hfetch : s.fetch wanted = .ok next) (hmore : ¬ (s.rest = [] ∧ next.ready = [])) : next.Fueled fuel := by
  by_cases hnil : s.rest = []
  · obtain ⟨hgone, hnothing⟩ := fetch_of_nil hnil hfetch
    refine .inr ⟨hgone, ?_⟩
    rcases h with hfuel | ⟨hs, -⟩
    · omega
    -- a spent stream gives nothing more, and the reading ends
    · exact absurd ⟨hnil, hnothing hs⟩ hmore
  · have hless := fetch_of_ne_nil hnil hfetch
    rcases h with hfuel | ⟨hs, -⟩
    · exact .inl (by omega)
    · exact absurd hs.rest hnil

/-- So many characters are taken, or all there are. -/
theorem take_fills (fuel : Nat) : ∀ {s next : TextStream} {wanted : Nat} {taken : List Char},
    s.Fueled fuel → s.take fuel wanted = .ok (taken, next) →
      taken.length = wanted ∨ next.Spent ∧ next.ready = [] := by
  induction fuel with
  | zero => rintro s next wanted taken (hfuel | hfuel) <;> omega
  | succ fuel ih =>
    intro s next wanted taken hfuel h
    unfold take at h
    generalize hnow : ({ s with ready := s.ready.drop wanted } : TextStream) = now at h
    simp only [bind, Except.bind, pure, Except.pure] at h
    split at h
    · rename_i hmissing
      cases h
      rw [List.length_take] at hmissing ⊢
      exact .inl (by omega)
    · rename_i hmissing
      have hfueled : now.Fueled (fuel + 1) :=
        hnow ▸ hfuel.imp_right (And.imp_left fun hs => ⟨hs.rest, hs.begun, hs.returning⟩)
      split at h
      · cases h
      · rename_i fetched hfetch
        split at h
        · rename_i hdone
          cases h
          rw [Bool.and_eq_true, List.isEmpty_iff, List.isEmpty_iff] at hdone
          exact .inr ⟨(fetch_of_nil hdone.1 hfetch).1, hdone.2⟩
        · rename_i hmore
          rw [Bool.and_eq_true, List.isEmpty_iff, List.isEmpty_iff] at hmore
          split at h
          · cases h
          · rename_i result hresult
            cases h
            refine (ih (hfueled.fetch hfetch hmore) hresult).imp_left fun hlength => ?_
            rw [List.length_append, hlength, List.length_take]
            rw [List.length_take] at hmissing
            omega

/-- The portions of a text are the whole of it. -/
theorem flatten_portionsFrom (fuel : Nat) : ∀ {s : TextStream} {text : List Char}, s.Holds text →
    text.length < fuel → (portionsFrom fuel s).1.flatten = text := by
  induction fuel with
  | zero => intro s text _ hfuel; omega
  | succ fuel ih =>
    intro s text h hfuel
    obtain ⟨taken, later, next, htake, rfl, hnext⟩ := take_of_text (s.rest.length + 3) h portionSize
    have hfills := take_fills _ (.inl (Nat.le_succ _)) htake
    unfold portionsFrom
    rw [htake]
    cases taken with
    | nil =>
      rcases hfills with hzero | ⟨hspent, hready⟩
      · cases hzero
      · rw [hspent.eq_ready hnext, hready]
        rfl
    | cons c taken =>
      rw [List.cons_append, List.length_cons, List.length_append] at hfuel
      show (c :: taken) ++ (portionsFrom fuel next).1.flatten = (c :: taken) ++ later
      rw [ih hnext (by omega)]

theorem plainNewlines_of_not_mem {cs : List Char} (h : '\r' ∉ cs) : plainNewlines cs = cs := by
  induction cs with
  | nil => rfl
  | cons c rest ih =>
    rw [List.mem_cons, not_or] at h
    rw [plainNewlines.eq_3 c rest (fun _ hc _ => h.1 hc.symm) (fun hc => h.1 hc.symm), ih h.2]

/-- A text without carriage returns that was written in UTF-8 is read back portion by portion. -/
theorem portions_encode {text : String} (h : '\r' ∉ text.toList) :
    (portions (Utf8.encode text)).2 = none ∧ (portions (Utf8.encode text)).1.flatten = text.toList := by
  have hdecode : Utf8.decodeFrom 0 0 (Utf8.encode text) = .ok text.toList := Utf8.decodeFrom_encode _ 0
  have hlength : text.toList.length ≤ (Utf8.encode text).length := Utf8.length_of_decodeFrom _ hdecode
  have hholds : (start (Utf8.encode text)).Holds text.toList :=
    ⟨text.toList, hdecode, (plainNewlines_of_not_mem h).symm⟩
  exact ⟨(portionsFrom_of_text _ hholds).1, flatten_portionsFrom _ hholds (Nat.lt_succ_of_le hlength)⟩

end TextStream

end Amend.Codec
