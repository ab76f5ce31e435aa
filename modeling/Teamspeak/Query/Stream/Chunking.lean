import Mathlib.Data.List.Induction
import Teamspeak.Query.Stream

/-!
# How a stream is divided

* `push_spec`: what one chunk does, given what is held of the line before it.
* `ReadSoFar`, `handleChunks_reading`: where the transport is while no line is too long.
* `handleChunks_spec`: it ends with an error just when a line is too long, however the
  stream is divided, and it passes on the lines before that one, unless the chunk that takes
  it past the limit swallows some.
-/

namespace Teamspeak.Query

variable {limit : Nat} {decode : Bytes → Str}

/-- What `push` makes of the bytes of a line. -/
def lineOf (decode : Bytes → Str) (line : Bytes) : Str := trimCarriageReturns (decode line)

/-! ### One chunk -/

namespace LineReader

theorem add_of_lt {reader : LineReader} {part : Bytes}
    (h : limit < (reader.held ++ part).length) : reader.add limit part = none := by
  rw [List.length_append, held, ← reader.length_eq] at h
  exact if_pos h

theorem add_of_le {reader : LineReader} {part : Bytes}
    (h : (reader.held ++ part).length ≤ limit) :
    ∃ reader', reader.add limit part = some reader' ∧ reader'.held = reader.held ++ part := by
  rw [List.length_append, held, ← reader.length_eq] at h
  refine ⟨_, if_neg (Nat.not_lt.mpr h), ?_⟩
  show List.flatten (if part.length > 0 then _ else _) = _
  split
  · rw [List.flatten_append, List.flatten_singleton, held]
  · rename_i hpart
    rw [List.eq_nil_of_length_eq_zero (Nat.eq_zero_of_not_pos hpart), List.append_nil, held]

/-- The pieces of a chunk, the first of them after what is held. -/
def joined (held : Bytes) : List Bytes → Bytes → List Bytes × Bytes
  | [], rest => ([], held ++ rest)
  | part :: parts, rest => ((held ++ part) :: parts, rest)

theorem joined_nil (parts : List Bytes) (rest : Bytes) : joined [] parts rest = (parts, rest) := by
  cases parts with
  | nil => rfl
  | cons part parts => rfl

theorem pushPieces_spec (limit : Nat) (decode : Bytes → Str) (reader : LineReader)
    (parts : List Bytes) (rest : Bytes) :
    ((∀ line ∈ (joined reader.held parts rest).1 ++ [(joined reader.held parts rest).2],
        line.length ≤ limit) →
      (reader.pushPieces limit decode parts rest).2 =
          some ((joined reader.held parts rest).1.map (lineOf decode)) ∧
        (reader.pushPieces limit decode parts rest).1.held = (joined reader.held parts rest).2) ∧
    ((∃ line ∈ (joined reader.held parts rest).1 ++ [(joined reader.held parts rest).2],
        limit < line.length) →
      (reader.pushPieces limit decode parts rest).2 = none) := by
  induction parts generalizing reader with
  | nil =>
    refine ⟨fun h => ?_, fun ⟨line, hline, h⟩ => ?_⟩
    · obtain ⟨reader', hadd, hheld⟩ := add_of_le (h _ (List.mem_append_right _ List.mem_cons_self))
      rw [pushPieces, hadd]
      exact ⟨rfl, hheld⟩
    · rw [List.mem_singleton.mp hline] at h
      rw [pushPieces, add_of_lt h]
  | cons part parts ih =>
    have hrest := ih {}
    rw [show held {} = [] from rfl, joined_nil] at hrest
    rw [pushPieces]
    by_cases hpart : (reader.held ++ part).length ≤ limit
    · obtain ⟨reader', hadd, hheld⟩ := add_of_le hpart
      rw [hadd]
      refine ⟨fun h => ?_, fun ⟨line, hline, h⟩ => ?_⟩
      · obtain ⟨hlines, hleft⟩ := hrest.1 fun line hline => h line (List.mem_cons_of_mem _ hline)
        refine ⟨?_, hleft⟩
        show Option.map _ _ = _
        rw [hlines, hheld]
        rfl
      · have hnone := hrest.2 ⟨line, ?_, h⟩
        · show Option.map _ _ = _
          rw [hnone]
          rfl
        · refine (List.mem_cons.mp hline).resolve_left fun heq => ?_
          rw [heq] at h
          exact absurd hpart (Nat.not_le.mpr h)
    · rw [add_of_lt (Nat.lt_of_not_le hpart)]
      exact ⟨fun h => absurd (h _ List.mem_cons_self) hpart, fun _ => rfl⟩

/-- **One chunk**: the lines that what is held and the chunk make together, unless one of
them is too long. -/
theorem push_spec (decode : Bytes → Str) {reader : LineReader}
    (hopen : ∀ b ∈ reader.held, isNewline b = false) (chunk : Bytes) :
    (¬Overlong limit (reader.held ++ chunk) →
      (reader.push limit decode chunk).2 =
          some ((pieces isNewline (reader.held ++ chunk)).1.map (lineOf decode)) ∧
        (reader.push limit decode chunk).1.held = (pieces isNewline (reader.held ++ chunk)).2) ∧
    (Overlong limit (reader.held ++ chunk) → (reader.push limit decode chunk).2 = none) := by
  have hspec := pushPieces_spec limit decode reader (pieces isNewline chunk).1
    (pieces isNewline chunk).2
  have hjoined : joined reader.held (pieces isNewline chunk).1 (pieces isNewline chunk).2 =
      pieces isNewline (reader.held ++ chunk) := by
    rw [pieces_open hopen]
    cases (pieces isNewline chunk).1 with
    | nil => rfl
    | cons part parts => rfl
  rw [hjoined] at hspec
  refine ⟨fun h => hspec.1 fun line hline => ?_, hspec.2⟩
  by_contra hlong
  exact h ⟨line, hline, Nat.lt_of_not_le hlong⟩

end LineReader

/-! ### Lines that are too long -/

theorem overlong_append {a : Bytes} (h : Overlong limit a) (b : Bytes) :
    Overlong limit (a ++ b) := by
  obtain ⟨line, hline, hlong⟩ := h
  rw [Overlong, pieces_append]
  rcases List.mem_append.mp hline with hline | hline
  · exact ⟨line, List.mem_append_left _ (List.mem_append_left _ hline), hlong⟩
  · rw [List.mem_singleton.mp hline] at hlong
    rw [pieces_open (open_of_pieces a)]
    cases (pieces isNewline b).1 with
    | nil =>
      refine ⟨_, List.mem_append_right _ List.mem_cons_self, ?_⟩
      show limit < ((pieces isNewline a).2 ++ _).length
      rw [List.length_append]
      omega
    | cons part parts =>
      refine ⟨_, List.mem_append_left _ (List.mem_append_right _ List.mem_cons_self), ?_⟩
      rw [List.length_append]
      omega

/-- What is held and a chunk are too long together just when the stream so far is. -/
theorem overlong_held {a b : Bytes} (h : ¬Overlong limit a) :
    Overlong limit ((pieces isNewline a).2 ++ b) ↔ Overlong limit (a ++ b) := by
  have hshort : ∀ line ∈ (pieces isNewline a).1, ¬limit < line.length := fun line hline hlong =>
    h ⟨line, List.mem_append_left _ hline, hlong⟩
  rw [Overlong, Overlong, pieces_append a b]
  constructor
  · rintro ⟨line, hline, hlong⟩
    rw [List.append_assoc]
    exact ⟨line, List.mem_append_right _ hline, hlong⟩
  · rintro ⟨line, hline, hlong⟩
    rw [List.append_assoc] at hline
    exact ⟨line, (List.mem_append.mp hline).resolve_left fun hmem => hshort line hmem hlong, hlong⟩

theorem linesBefore_of_not_overlong {data : Bytes} (h : ¬Overlong limit data) :
    linesBefore limit data = (pieces isNewline data).1 := by
  refine List.takeWhile_eq_self_iff.mpr fun line hline => decide_eq_true ?_
  by_contra hlong
  exact h ⟨line, List.mem_append_left _ hline, Nat.lt_of_not_le hlong⟩

/-- The lines before one that is too long come first in whatever follows. -/
theorem prefix_linesBefore {a : Bytes} (h : ¬Overlong limit a) (b : Bytes) :
    (pieces isNewline a).1 <+: linesBefore limit (a ++ b) := by
  rw [← linesBefore_of_not_overlong h, linesBefore, linesBefore, pieces_append]
  have hall : ∀ line ∈ (pieces isNewline a).1, decide (line.length ≤ limit) = true :=
    List.takeWhile_eq_self_iff.mp (linesBefore_of_not_overlong h)
  rw [List.takeWhile_append_of_pos hall, List.takeWhile_eq_self_iff.mpr hall]
  exact List.prefix_append _ _

/-- What comes after a line that is too long does not matter. -/
theorem linesBefore_append {a : Bytes} (h : Overlong limit a) (b : Bytes) :
    linesBefore limit (a ++ b) = linesBefore limit a := by
  rw [linesBefore, linesBefore, pieces_append, List.takeWhile_append]
  split
  · rename_i hlength
    -- The line that is too long is the one that has not ended.
    have hall : (pieces isNewline a).1.takeWhile (fun line => decide (line.length ≤ limit)) =
        (pieces isNewline a).1 := (List.takeWhile_prefix _).eq_of_length hlength
    have hlast : limit < (pieces isNewline a).2.length := by
      obtain ⟨line, hline, hlong⟩ := h
      rcases List.mem_append.mp hline with hline | hline
      · have hshort := of_decide_eq_true (List.takeWhile_eq_self_iff.mp hall line hline)
        exact absurd hlong (Nat.not_lt.mpr hshort)
      · rwa [List.mem_singleton.mp hline] at hlong
    have hnone : (pieces isNewline ((pieces isNewline a).2 ++ b)).1.takeWhile
        (fun line => decide (line.length ≤ limit)) = [] := by
      rw [pieces_open (open_of_pieces a)]
      cases (pieces isNewline b).1 with
      | nil => rfl
      | cons part parts =>
        refine List.takeWhile_cons_of_neg fun hshort => ?_
        have hle := of_decide_eq_true hshort
        rw [List.length_append] at hle
        omega
    rw [hnone, hall, List.append_nil]
  · rfl

/-! ### The run -/

theorem foldl_deliver (lines : List Str) (s : StreamTransport) :
    lines.foldl StreamTransport.deliver s =
      { s with
        banner := s.banner - lines.length
        delivered := s.delivered ++ lines.drop s.banner } := by
  induction lines generalizing s with
  | nil => simp
  | cons line lines ih =>
    rw [List.foldl_cons, ih, StreamTransport.deliver]
    split
    · rename_i hbanner
      obtain ⟨n, hn⟩ := Nat.exists_eq_succ_of_ne_zero (Nat.ne_of_gt hbanner)
      simp only [hn, List.length_cons, List.drop_succ_cons, Nat.succ_eq_add_one,
        Nat.add_sub_cancel, Nat.add_sub_add_right]
    · rename_i hbanner
      have hzero := Nat.eq_zero_of_not_pos hbanner
      simp [hzero]

/-- Where the transport is after `data`, no line of which is too long. -/
structure ReadSoFar (decode : Bytes → Str) (data : Bytes) (s : StreamTransport) : Prop where
  open_ : s.ended = false
  error : s.error = none
  held : s.reader.held = (pieces isNewline data).2
  banner : s.banner = 2 - (pieces isNewline data).1.length
  delivered : s.delivered = ((pieces isNewline data).1.map (lineOf decode)).drop 2

theorem ReadSoFar.handleData {data : Bytes} {s : StreamTransport} (h : ReadSoFar decode data s)
    {chunk : Bytes} (hdata : ¬Overlong limit data) (hshort : ¬Overlong limit (data ++ chunk)) :
    ReadSoFar decode (data ++ chunk) (s.handleData limit decode chunk) := by
  have hopen : ∀ b ∈ s.reader.held, isNewline b = false := by
    rw [h.held]
    exact open_of_pieces data
  have hpieces : pieces isNewline (data ++ chunk) = _ := pieces_append data chunk
  rw [← h.held] at hpieces
  have hheld : ¬Overlong limit (s.reader.held ++ chunk) := by
    rw [h.held, overlong_held hdata]
    exact hshort
  obtain ⟨hlines, hleft⟩ := (LineReader.push_spec decode hopen chunk).1 hheld
  rw [StreamTransport.handleData, if_neg (by rw [h.open_]; exact Bool.false_ne_true)]
  dsimp only
  rw [hlines]
  dsimp only
  rw [foldl_deliver]
  refine ⟨h.open_, h.error, ?_, ?_, ?_⟩
  · rw [hpieces]
    exact hleft
  · rw [hpieces]
    show s.banner - _ = _
    rw [h.banner, List.length_map, List.length_append]
    omega
  · rw [hpieces]
    show s.delivered ++ _ = _
    rw [h.delivered, h.banner, List.map_append, List.drop_append, List.length_map]

/-- The chunk in which a line gets too long ends the connection. -/
theorem ReadSoFar.handleData_overlong {data : Bytes} {s : StreamTransport}
    (h : ReadSoFar decode data s)
    {chunk : Bytes} (hdata : ¬Overlong limit data) (hlong : Overlong limit (data ++ chunk)) :
    (s.handleData limit decode chunk).ended = true ∧
      (s.handleData limit decode chunk).error = some limit ∧
      (s.handleData limit decode chunk).delivered = s.delivered := by
  have hopen : ∀ b ∈ s.reader.held, isNewline b = false := by
    rw [h.held]
    exact open_of_pieces data
  have hheld : Overlong limit (s.reader.held ++ chunk) := by
    rw [h.held, overlong_held hdata]
    exact hlong
  rw [StreamTransport.handleData, if_neg (by rw [h.open_]; exact Bool.false_ne_true)]
  dsimp only
  rw [(LineReader.push_spec decode hopen chunk).2 hheld]
  exact ⟨rfl, rfl, rfl⟩

theorem not_overlong_nil : ¬Overlong limit [] := by
  rintro ⟨line, hline, hlong⟩
  rw [List.mem_singleton.mp hline] at hlong
  cases hlong

theorem handleChunks_concat (chunks : List Bytes) (chunk : Bytes) :
    StreamTransport.handleChunks limit decode (chunks ++ [chunk]) =
      (StreamTransport.handleChunks limit decode chunks).handleData limit decode chunk :=
  List.foldl_concat ..

theorem handleChunks_reading (decode : Bytes → Str) {chunks : List Bytes}
    (h : ¬Overlong limit chunks.flatten) :
    ReadSoFar decode chunks.flatten (StreamTransport.handleChunks limit decode chunks) := by
  induction chunks using List.reverseRecOn with
  | nil => exact ⟨rfl, rfl, rfl, rfl, rfl⟩
  | append_singleton chunks chunk ih =>
    rw [List.flatten_append, List.flatten_singleton] at h ⊢
    have hshort : ¬Overlong limit chunks.flatten := fun hlong => h (overlong_append hlong chunk)
    rw [handleChunks_concat]
    exact (ih hshort).handleData hshort h

/-- Once it has ended the transport reads nothing. -/
theorem foldl_handleData_ended (chunks : List Bytes) {s : StreamTransport} (h : s.ended = true) :
    chunks.foldl (StreamTransport.handleData limit decode) s = s := by
  induction chunks with
  | nil => rfl
  | cons chunk chunks ih =>
    rw [List.foldl_cons, StreamTransport.handleData, if_pos h]
    exact ih

/-- Of a stream with a line that is too long, the chunk that takes it past the limit. -/
theorem exists_overlong_chunk {chunks : List Bytes} (h : Overlong limit chunks.flatten) :
    ∃ before chunk after, chunks = before ++ chunk :: after ∧ ¬Overlong limit before.flatten ∧
      Overlong limit (before ++ [chunk]).flatten := by
  induction chunks using List.reverseRecOn with
  | nil => exact absurd h not_overlong_nil
  | append_singleton chunks chunk ih =>
    by_cases hlong : Overlong limit chunks.flatten
    · obtain ⟨before, first, after, heq, hshort, hlong⟩ := ih hlong
      refine ⟨before, first, after ++ [chunk], ?_, hshort, hlong⟩
      rw [heq, List.append_assoc, List.cons_append]
    · exact ⟨chunks, chunk, [], rfl, hlong, h⟩

theorem handleChunks_overlong {before : List Bytes} {chunk : Bytes} (after : List Bytes)
    (hshort : ¬Overlong limit before.flatten) (hlong : Overlong limit (before ++ [chunk]).flatten) :
    (StreamTransport.handleChunks limit decode (before ++ chunk :: after)).error = some limit ∧
      (StreamTransport.handleChunks limit decode (before ++ chunk :: after)).delivered =
        ((pieces isNewline before.flatten).1.map (lineOf decode)).drop 2 := by
  have hreading := handleChunks_reading decode hshort
  rw [List.flatten_append, List.flatten_singleton] at hlong
  obtain ⟨hended, herror, hdelivered⟩ := hreading.handleData_overlong hshort hlong
  have hrun : StreamTransport.handleChunks limit decode (before ++ chunk :: after) =
      (StreamTransport.handleChunks limit decode before).handleData limit decode chunk := by
    rw [StreamTransport.handleChunks, List.foldl_append, List.foldl_cons]
    exact foldl_handleData_ended after hended
  rw [hrun, herror, hdelivered, hreading.delivered]
  exact ⟨rfl, rfl⟩

/-- What a division passes on is what there is to pass on, unless a chunk swallows lines. -/
theorem delivered_handleChunks (limit : Nat) (decode : Bytes → Str) (chunks : List Bytes) :
    (StreamTransport.handleChunks limit decode chunks).delivered =
        linesOf limit decode chunks.flatten ↔ ¬Swallows limit chunks := by
  by_cases hlong : Overlong limit chunks.flatten
  · obtain ⟨before, chunk, after, rfl, hshort, hfirst⟩ := exists_overlong_chunk hlong
    have hbefore : linesBefore limit (before ++ chunk :: after).flatten =
        linesBefore limit (before ++ [chunk]).flatten := by
      rw [show before ++ chunk :: after = before ++ [chunk] ++ after by simp, List.flatten_append,
        linesBefore_append hfirst]
    have hprefix : (pieces isNewline before.flatten).1 <+:
        linesBefore limit (before ++ [chunk]).flatten := by
      rw [List.flatten_append]
      exact prefix_linesBefore hshort _
    rw [(handleChunks_overlong after hshort hfirst).2, linesOf, hbefore]
    obtain ⟨swallowed, hswallowed⟩ := hprefix
    constructor
    · rintro heq ⟨before', chunk', after', hchunks, hshort', hfirst', hlt⟩
      -- Only one chunk takes the stream past the limit.
      have hsame : before' = before ∧ chunk' = chunk := by
        rcases List.append_eq_append_iff.mp hchunks with ⟨l, rfl, hl⟩ | ⟨l, rfl, hl⟩
        · cases l with
          | nil =>
            obtain ⟨rfl, -⟩ := List.cons.inj hl
            exact ⟨List.append_nil _, rfl⟩
          | cons c l =>
            obtain ⟨rfl, -⟩ := List.cons.inj hl
            refine absurd ?_ hshort'
            rw [show before ++ chunk :: l = before ++ [chunk] ++ l by simp, List.flatten_append]
            exact overlong_append hfirst _
        · cases l with
          | nil =>
            obtain ⟨rfl, -⟩ := List.cons.inj hl
            exact ⟨(List.append_nil _).symm, rfl⟩
          | cons c l =>
            obtain ⟨rfl, -⟩ := List.cons.inj hl
            refine absurd ?_ hshort
            rw [show before' ++ chunk' :: l = before' ++ [chunk'] ++ l by simp, List.flatten_append]
            exact overlong_append hfirst' _
      obtain ⟨rfl, rfl⟩ := hsame
      have hlength := congrArg List.length heq
      rw [List.length_drop, List.length_drop, List.length_map, List.length_map] at hlength
      omega
    · intro hnot
      have hle : (linesBefore limit (before ++ [chunk]).flatten).length ≤
          max 2 (pieces isNewline before.flatten).1.length :=
        Nat.le_of_not_lt fun hlt => hnot ⟨before, chunk, after, rfl, hshort, hfirst, hlt⟩
      rw [← hswallowed, List.length_append] at hle
      rw [← hswallowed]
      by_cases hnone : swallowed = []
      · rw [hnone, List.append_nil]
        rfl
      · have hpos := List.length_pos_iff.mpr hnone
        rw [List.drop_eq_nil_of_le (by rw [List.length_map]; omega),
          List.drop_eq_nil_of_le (by rw [List.length_map, List.length_append]; omega)]
  · rw [(handleChunks_reading decode hlong).delivered, linesOf, linesBefore_of_not_overlong hlong]
    refine ⟨fun _ => ?_, fun _ => rfl⟩
    rintro ⟨before, chunk, after, rfl, -, hfirst, -⟩
    refine hlong ?_
    rw [show before ++ chunk :: after = before ++ [chunk] ++ after by simp, List.flatten_append]
    exact overlong_append hfirst _

/-- It ends with an error just when some line is too long. -/
theorem error_handleChunks (limit : Nat) (decode : Bytes → Str) (chunks : List Bytes) :
    (StreamTransport.handleChunks limit decode chunks).error.isSome = true ↔
      Overlong limit chunks.flatten := by
  by_cases hlong : Overlong limit chunks.flatten
  · obtain ⟨before, chunk, after, rfl, hshort, hfirst⟩ := exists_overlong_chunk hlong
    rw [(handleChunks_overlong _ hshort hfirst).1]
    exact ⟨fun _ => hlong, fun _ => rfl⟩
  · rw [(handleChunks_reading decode hlong).error]
    exact ⟨nofun, fun h => absurd h hlong⟩

/-- **Two divisions of a stream**: both end with an error, or neither, just as some line is
too long or none, and both pass on the lines of the stream up to one that is too long, just
when neither takes a line past the limit in a chunk in which lines end before it. -/
theorem handleChunks_divisions (limit : Nat) (decode : Bytes → Str) {chunks chunks' : List Bytes}
    (h : chunks.flatten = chunks'.flatten) :
    (((StreamTransport.handleChunks limit decode chunks).error.isSome = true ↔
        Overlong limit chunks.flatten) ∧
      ((StreamTransport.handleChunks limit decode chunks').error.isSome = true ↔
        Overlong limit chunks.flatten)) ∧
    ((StreamTransport.handleChunks limit decode chunks).delivered =
          linesOf limit decode chunks.flatten ∧
        (StreamTransport.handleChunks limit decode chunks').delivered =
          linesOf limit decode chunks.flatten ↔
      ¬Swallows limit chunks ∧ ¬Swallows limit chunks') := by
  refine ⟨⟨error_handleChunks limit decode chunks, ?_⟩, ?_⟩
  · rw [h]
    exact error_handleChunks limit decode chunks'
  · rw [delivered_handleChunks limit decode chunks, h,
      delivered_handleChunks limit decode chunks']

/-- What a server says first, and a line of one letter. -/
def greeting : Bytes := [0x54, 0x53, 0x33, 0x0A, 0x68, 0x69, 0x0A, 0x61, 0x0A]

/-- Divided inside its greeting, or not at all, it passes on its line. -/
theorem handleChunks_divisions_short :
    (StreamTransport.handleChunks 8 (List.map UInt8.toUInt16) [greeting]).delivered = [.of "a"] ∧
      (StreamTransport.handleChunks 8 (List.map UInt8.toUInt16)
        [greeting.take 5, greeting.drop 5]).delivered = [.of "a"] := by
  have h := @handleChunks_divisions 8 (List.map UInt8.toUInt16) [greeting]
    [greeting.take 5, greeting.drop 5] (by decide)
  have hshort : ¬Overlong 8 greeting := by decide
  have hlines : linesOf 8 (List.map UInt8.toUInt16) [greeting].flatten = [.of "a"] := by decide
  have hnot : ∀ {chunks : List Bytes}, chunks.flatten = greeting → ¬Swallows 8 chunks := by
    rintro chunks hflatten ⟨before, chunk, after, rfl, -, hlong, -⟩
    refine hshort ?_
    rw [← hflatten, show before ++ chunk :: after = before ++ [chunk] ++ after by simp,
      List.flatten_append]
    exact overlong_append hlong _
  rw [← hlines]
  exact h.2.mpr ⟨hnot (by decide), hnot (by decide)⟩

/-- A line that is too long. -/
def longLine : Bytes := List.replicate (maxLineBytes + 1) 0x61

theorem overlong_longLine {data : Bytes} (h : (pieces isNewline data).2 = []) :
    Overlong maxLineBytes (data ++ longLine) := by
  have hopen : ∀ b ∈ longLine, isNewline b = false := fun b hb => by
    rw [List.eq_of_mem_replicate hb]
    rfl
  rw [Overlong, pieces_append, h, List.nil_append, pieces_of_open hopen]
  refine ⟨longLine, List.mem_append_right _ List.mem_cons_self, ?_⟩
  rw [longLine, List.length_replicate]
  exact Nat.lt_succ_self _

/-- A line that ended just before one that is too long is passed on in one division, and not
in the other. -/
theorem handleChunks_swallows :
    [greeting, longLine].flatten = [greeting ++ longLine].flatten ∧
      (StreamTransport.handleChunks maxLineBytes (List.map UInt8.toUInt16)
        [greeting, longLine]).delivered = [.of "a"] ∧
      (StreamTransport.handleChunks maxLineBytes (List.map UInt8.toUInt16)
        [greeting ++ longLine]).delivered = [] := by
  have hlong : Overlong maxLineBytes (greeting ++ longLine) := overlong_longLine (by decide)
  refine ⟨by rw [List.flatten_cons, List.flatten_singleton, List.flatten_singleton], ?_, ?_⟩
  · have hgreeting : ¬Overlong maxLineBytes [greeting].flatten := by decide
    have hfirst : Overlong maxLineBytes ([greeting] ++ [longLine]).flatten := by
      rw [List.flatten_append, List.flatten_singleton, List.flatten_singleton]
      exact hlong
    exact ((handleChunks_overlong [] hgreeting hfirst).2).trans (by decide)
  · have hfirst : Overlong maxLineBytes (([] : List Bytes) ++ [greeting ++ longLine]).flatten := by
      rw [List.nil_append, List.flatten_singleton]
      exact hlong
    exact (handleChunks_overlong [] not_overlong_nil hfirst).2

end Teamspeak.Query
