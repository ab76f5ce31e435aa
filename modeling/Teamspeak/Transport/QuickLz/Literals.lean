import Teamspeak.Transport.QuickLz.Expansion

/-!
# Blocks of literals

The plainest level-1 block: the bytes themselves, with a control word before each 31 of
them whose bits all say "literal".  The decoder's loop and its tail take the same steps on
it, so where the one hands over to the other does not matter.

* `literals`: the body of the block.
* `decodeLoop_literals`: the decoder's run over it.
* `decompress_literalBlock`: such a block gives its bytes.
-/

namespace Teamspeak.Transport

/-- `0x80000000`, low byte first: 31 literals. -/
def literalControl : Bytes := [0, 0, 0, 0x80]

/-- The bytes as literals, `left` bits of the last control word being unused. -/
def literals : Nat → Bytes → Bytes
  | _, [] => []
  | 0, b :: bytes => literalControl ++ b :: literals 30 bytes
  | left + 1, b :: bytes => b :: literals left bytes

/-- `DataView.setUint32(_, n, true)`. -/
def uint32LE (n : Nat) : Bytes :=
  [UInt8.ofNat n, UInt8.ofNat (n / 256), UInt8.ofNat (n / 65536), UInt8.ofNat (n / 16777216)]

def shortHeader (flags : UInt8) (compressedSize decompressedSize : Nat) : Bytes :=
  [flags, UInt8.ofNat compressedSize, UInt8.ofNat decompressedSize]

def longHeader (flags : UInt8) (compressedSize decompressedSize : Nat) : Bytes :=
  flags :: (uint32LE compressedSize ++ uint32LE decompressedSize)

def shortBlock (flags : UInt8) (bytes : Bytes) : Bytes :=
  shortHeader flags (3 + (literals 0 bytes).length) bytes.length ++ literals 0 bytes

def longBlock (flags : UInt8) (bytes : Bytes) : Bytes :=
  longHeader flags (9 + (literals 0 bytes).length) bytes.length ++ literals 0 bytes

/-- A short header holds the sizes of the block. -/
def fitsShort (bytes : Bytes) : Prop := 3 + (literals 0 bytes).length < 256

instance (bytes : Bytes) : Decidable (fitsShort bytes) := inferInstanceAs (Decidable (_ < _))

theorem length_le_literals (left : Nat) (bytes : Bytes) :
    bytes.length ≤ (literals left bytes).length := by
  induction bytes generalizing left with
  | nil => exact Nat.zero_le _
  | cons b bytes ih =>
    cases left with
    | zero =>
      have := ih 30
      rw [literals, List.length_append, List.length_cons, List.length_cons]
      omega
    | succ left =>
      rw [literals, List.length_cons, List.length_cons]
      exact Nat.succ_le_succ (ih left)

/-! ### Reading -/

theorem getD_of_drop {data rest : Bytes} {pos : Nat} {b : UInt8}
    (h : data.drop pos = b :: rest) : data.getD pos 0 = b ∧ pos < data.length ∧
      data.drop (pos + 1) = rest := by
  have hget : data[pos]? = some b := by rw [← List.head?_drop, h, List.head?_cons]
  refine ⟨by rw [List.getD_eq_getElem?_getD, hget, Option.getD_some],
    (List.getElem?_eq_some_iff.mp hget).1, ?_⟩
  rw [← List.drop_drop, h, List.drop_one, List.tail_cons]

/-- A control word is read as its four bytes. -/
theorem readUint32LE_of_drop {data rest : Bytes} {pos : Nat} {b₀ b₁ b₂ b₃ : UInt8}
    (h : data.drop pos = b₀ :: b₁ :: b₂ :: b₃ :: rest) :
    readUint32LE data pos =
      b₀.toNat + b₁.toNat * 256 + b₂.toNat * 65536 + b₃.toNat * 16777216 ∧
        pos + 4 ≤ data.length ∧ data.drop (pos + 4) = rest := by
  obtain ⟨h₀, -, hdrop⟩ := getD_of_drop h
  obtain ⟨h₁, -, hdrop⟩ := getD_of_drop hdrop
  obtain ⟨h₂, -, hdrop⟩ := getD_of_drop hdrop
  obtain ⟨h₃, hlt, hdrop⟩ := getD_of_drop hdrop
  refine ⟨?_, hlt, hdrop⟩
  rw [readUint32LE, h₀, h₁, h₂, h₃]

namespace QlzState

variable {data : Bytes}

/-- The decoder has written `written`, and `rest` is to come as literals. -/
structure AtLiterals (data : Bytes) (left : Nat) (written rest : Bytes) (st : QlzState) : Prop where
  control : st.control = 2 ^ left
  source : data.drop st.sourcePos = literals left rest
  destPos : st.destPos = written.length
  dest : st.dest = written ++ List.replicate rest.length 0

/-- A control word is read where none of the last is left. -/
theorem ensureControl_literals {left : Nat} {written rest : Bytes} {b : UInt8} {st : QlzState}
    (h : AtLiterals data left written (b :: rest) st) :
    ∃ next left', ensureControl data st = .ok next ∧
      AtLiterals data (left' + 1) written (b :: rest) next := by
  rw [ensureControl]
  have hsource := h.source
  cases left with
  | zero =>
    have hone : st.control = 1 := h.control
    obtain ⟨hcontrol, hle, hdrop⟩ := readUint32LE_of_drop hsource
    rw [if_neg (not_not.mpr hone), if_neg (Nat.not_lt.mpr hle)]
    exact ⟨_, 30, rfl, hcontrol, hdrop, h.destPos, h.dest⟩
  | succ left =>
    have hcontrol : st.control ≠ 1 := by
      have := Nat.two_pow_pos left
      rw [h.control, Nat.pow_succ]
      omega
    rw [if_pos hcontrol]
    exact ⟨st, left, rfl, h⟩

theorem copyLiteral_literals {left : Nat} {written rest : Bytes} {b : UInt8} {st : QlzState}
    (h : AtLiterals data (left + 1) written (b :: rest) st) :
    st.sourcePos < data.length ∧
      AtLiterals data left (written ++ [b]) rest (copyLiteral data st) := by
  obtain ⟨hget, hlt, hdrop⟩ := getD_of_drop h.source
  refine ⟨hlt, ⟨?_, hdrop, ?_, ?_⟩⟩
  · show st.control / 2 = 2 ^ left
    rw [h.control, Nat.pow_succ, Nat.mul_div_cancel _ Nat.two_pos]
  · show st.destPos + 1 = _
    rw [h.destPos, List.length_append, List.length_singleton]
  · show st.dest.set st.destPos (data.getD st.sourcePos 0) = _
    rw [h.dest, h.destPos, hget, List.set_append_right _ _ (Nat.le_refl _), Nat.sub_self,
      List.length_cons, List.replicate_succ, List.set_cons_zero, List.append_assoc,
      List.singleton_append]

theorem copyTail_literals {left : Nat} {written rest : Bytes} {st : QlzState}
    (h : AtLiterals data left written rest st) :
    ∃ st', copyTail data st rest.length = .ok st' ∧ st'.destPos = (written ++ rest).length ∧
      st'.dest = written ++ rest := by
  induction rest generalizing left written st with
  | nil => exact ⟨st, rfl, by rw [h.destPos, List.append_nil], h.dest⟩
  | cons b rest ih =>
    obtain ⟨next, left', hnext, hat⟩ := ensureControl_literals h
    obtain ⟨hlt, hcopied⟩ := copyLiteral_literals hat
    obtain ⟨st', hst', hpos', hdest'⟩ := ih hcopied
    rw [List.append_assoc, List.singleton_append] at hpos' hdest'
    refine ⟨st', ?_, hpos', hdest'⟩
    rw [List.length_cons, copyTail, hnext]
    exact (if_neg (Nat.not_le.mpr hlt)).trans hst'

/-- A literal of the block: the last of its tail, or one with others to come. -/
theorem processLiteral_literals {left : Nat} {written rest : Bytes} {b : UInt8} {st : QlzState}
    (h : AtLiterals data (left + 1) written (b :: rest) st) :
    (∃ st', processLiteral data (written ++ b :: rest).length st = .ok (st', true) ∧
        st'.destPos = (written ++ b :: rest).length ∧ st'.dest = written ++ b :: rest) ∨
      ∃ st', processLiteral data (written ++ b :: rest).length st = .ok (st', false) ∧
        AtLiterals data left (written ++ [b]) rest st' := by
  rw [processLiteral]
  dsimp only
  split
  · obtain ⟨st', hst', hpos, hdest⟩ := copyTail_literals h
    have hleft : (written ++ b :: rest).length - st.destPos = (b :: rest).length := by
      rw [h.destPos, List.length_append, Nat.add_sub_cancel_left]
    rw [hleft, hst']
    exact Or.inl ⟨st', rfl, hpos, hdest⟩
  · obtain ⟨hlt, hcopied⟩ := copyLiteral_literals h
    rw [if_neg (Nat.not_le.mpr hlt)]
    set copied := copyLiteral data st
    obtain ⟨hcontrol, hsource, hpos, hdest⟩ :=
      updateHashtable_keeps (max (copied.destPos - 2) 0 - copied.nextHashed) copied
    have hfilled : AtLiterals data left (written ++ [b]) rest
        (copied.updateHashtable (max (copied.destPos - 2) 0 - copied.nextHashed)) :=
      ⟨by rw [hcontrol, hcopied.control], by rw [hsource, hcopied.source],
        by rw [hpos, hcopied.destPos], by rw [hdest, hcopied.dest]⟩
    refine Or.inr ⟨_, rfl, ?_⟩
    split
    · exact ⟨hfilled.control, hfilled.source, hfilled.destPos, hfilled.dest⟩
    · exact hfilled

/-- **The run of the decoder over literals**, which has a turn for each. -/
theorem decodeLoop_literals {fuel left : Nat} {written rest : Bytes} {st : QlzState}
    (h : AtLiterals data left written rest st) (hfuel : rest.length < fuel) :
    ∃ st', decodeLoop data (written ++ rest).length fuel st = .ok st' ∧
      st'.destPos = (written ++ rest).length ∧ st'.dest = written ++ rest := by
  induction rest generalizing fuel left written st with
  | nil =>
    obtain ⟨fuel, rfl⟩ := Nat.exists_eq_succ_of_ne_zero (Nat.ne_zero_of_lt hfuel)
    rw [List.append_nil, decodeLoop, h.destPos, if_neg (Nat.lt_irrefl _)]
    exact ⟨st, rfl, h.destPos, h.dest.trans (List.append_nil _)⟩
  | cons b rest ih =>
    obtain ⟨fuel, rfl⟩ := Nat.exists_eq_succ_of_ne_zero (Nat.ne_zero_of_lt hfuel)
    have hlt : st.destPos < (written ++ b :: rest).length := by
      rw [h.destPos, List.length_append, List.length_cons]
      omega
    obtain ⟨next, left', hnext, hat⟩ := ensureControl_literals h
    have hliteral : ¬ next.control % 2 ≠ 0 := by
      rw [hat.control, Nat.pow_succ, Nat.mul_mod_left]
      exact fun hne => hne rfl
    rw [decodeLoop, if_pos hlt, hnext]
    simp only [bind, Except.bind]
    rw [if_neg hliteral]
    rcases processLiteral_literals hat with ⟨st', hst', hpos, hdest⟩ | ⟨st', hst', hcopied⟩
    · rw [hst']
      exact ⟨st', rfl, hpos, hdest⟩
    · obtain ⟨last, hlast, hpos, hdest⟩ := ih hcopied (Nat.lt_of_succ_lt_succ hfuel)
      rw [List.append_assoc, List.singleton_append] at hlast hpos hdest
      rw [hst']
      exact ⟨last, hlast, hpos, hdest⟩

end QlzState

/-! ### A block -/

/-- What holds of all 256 flag bytes holds of one. -/
theorem flags_cases {p : UInt8 → Prop} (h : ∀ n < 256, p (UInt8.ofNat n)) (flags : UInt8) :
    p flags := by
  have hflags := h flags.toNat flags.toNat_lt
  rwa [UInt8.ofNat_toNat] at hflags

theorem short_flags (flags : UInt8) (h : flags &&& 0x0f = 0x05) :
    (flags >>> 2) &&& 0x03 = 1 ∧ flags &&& 0x02 = 0 ∧ flags &&& 0x01 ≠ 0 := by
  revert h
  exact flags_cases (p := fun flags => flags &&& 0x0f = 0x05 →
    (flags >>> 2) &&& 0x03 = 1 ∧ flags &&& 0x02 = 0 ∧ flags &&& 0x01 ≠ 0) (by decide +kernel) flags

theorem long_flags (flags : UInt8) (h : flags &&& 0x0f = 0x07) :
    (flags >>> 2) &&& 0x03 = 1 ∧ flags &&& 0x02 ≠ 0 ∧ flags &&& 0x01 ≠ 0 := by
  revert h
  exact flags_cases (p := fun flags => flags &&& 0x0f = 0x07 →
    (flags >>> 2) &&& 0x03 = 1 ∧ flags &&& 0x02 ≠ 0 ∧ flags &&& 0x01 ≠ 0) (by decide +kernel) flags

theorem parseQlzHeader_short {flags : UInt8} (h : flags &&& 0x0f = 0x05) {bytes : Bytes}
    (hsize : bytes.length < 256) :
    parseQlzHeader (shortBlock flags bytes) =
      .ok { headerLen := 3, decompressedSize := bytes.length, flags } := by
  obtain ⟨hlevel, hlong, -⟩ := short_flags flags h
  have hlen : 3 ≤ (shortBlock flags bytes).length := Nat.le_add_left 3 _
  have hflags : (shortBlock flags bytes).getD 0 0 = flags := rfl
  have hdeclared : ((shortBlock flags bytes).getD 2 0).toNat = bytes.length :=
    UInt8.toNat_ofNat_of_lt hsize
  have hmax : ¬ bytes.length > maxDecompressedSize := by
    rw [maxDecompressedSize]
    omega
  rw [parseQlzHeader, if_neg (Nat.not_lt.mpr hlen)]
  dsimp only
  rw [hflags, if_neg (not_not.mpr hlevel)]
  simp only [hlong, ne_eq, not_true_eq_false, if_false]
  rw [if_neg (Nat.not_lt.mpr hlen), hdeclared, if_neg hmax]

theorem readUint32LE_uint32LE {n : Nat} (h : n < 4294967296) (before after : Bytes) :
    readUint32LE (before ++ (uint32LE n ++ after)) before.length = n := by
  have hdrop : (before ++ (uint32LE n ++ after)).drop before.length = uint32LE n ++ after :=
    List.drop_left
  rw [(readUint32LE_of_drop hdrop).1]
  simp only [UInt8.toNat_ofNat']
  omega

theorem parseQlzHeader_long {flags : UInt8} (h : flags &&& 0x0f = 0x07) {bytes : Bytes}
    (hsize : bytes.length ≤ maxDecompressedSize) :
    parseQlzHeader (longBlock flags bytes) =
      .ok { headerLen := 9, decompressedSize := bytes.length, flags } := by
  obtain ⟨hlevel, hlong, -⟩ := long_flags flags h
  have hlen : 9 ≤ (longBlock flags bytes).length := Nat.le_add_left 9 _
  have hflags : (longBlock flags bytes).getD 0 0 = flags := rfl
  have hdeclared : readUint32LE (longBlock flags bytes) 5 = bytes.length := by
    rw [maxDecompressedSize] at hsize
    exact readUint32LE_uint32LE (n := bytes.length) (by omega)
      (flags :: uint32LE (9 + (literals 0 bytes).length)) (literals 0 bytes)
  rw [parseQlzHeader, if_neg (by omega)]
  dsimp only
  rw [hflags, if_neg (not_not.mpr hlevel)]
  simp only [hlong, ne_eq, not_false_eq_true, if_true]
  rw [if_neg (Nat.not_lt.mpr hlen), hdeclared, if_neg (Nat.not_lt.mpr hsize)]

/-- What follows the header is decoded. -/
theorem decompress_literals {data bytes : Bytes} {headerLen : Nat} {flags : UInt8}
    (hparse : parseQlzHeader data = .ok { headerLen, decompressedSize := bytes.length, flags })
    (hcompressed : flags &&& 0x01 ≠ 0) (hdrop : data.drop headerLen = literals 0 bytes) :
    decompress data = .ok bytes := by
  have hbody := length_le_literals 0 bytes
  have hlen : data.length - headerLen = (literals 0 bytes).length := by
    rw [← hdrop, List.length_drop]
  have hguard : ¬ bytes.length > (data.length - headerLen) * maxExpansion := by
    rw [hlen, maxExpansion]
    omega
  have hstart : QlzState.AtLiterals data 0 [] bytes
      { control := 1, sourcePos := headerLen, destPos := 0, nextHashed := 0
        dest := List.replicate bytes.length 0, hashtable := fun _ => 0 } :=
    ⟨rfl, hdrop, rfl, rfl⟩
  have hturns : bytes.length < data.length + 1 := by omega
  obtain ⟨st, hst, hpos, hdest⟩ := QlzState.decodeLoop_literals hstart hturns
  rw [List.nil_append] at hst hpos hdest
  rw [decompress, hparse]
  simp only [bind, Except.bind]
  rw [if_neg hcompressed, if_neg hguard, hst]
  simp only
  rw [if_neg (not_not.mpr hpos), hdest]

/-- **A block of literals gives its bytes**, in the long form and, where its sizes fit, in
the short one. -/
theorem decompress_literalBlock (bytes : Bytes) (hsize : bytes.length ≤ 2 ^ 20) :
    (∀ flags, flags &&& 0x0f = 0x07 → decompress (longBlock flags bytes) = .ok bytes) ∧
      (fitsShort bytes →
        ∀ flags, flags &&& 0x0f = 0x05 → decompress (shortBlock flags bytes) = .ok bytes) := by
  refine ⟨fun flags hflags => ?_, fun hfits flags hflags => ?_⟩
  · exact decompress_literals (parseQlzHeader_long hflags hsize) (long_flags flags hflags).2.2 rfl
  · have hbody := length_le_literals 0 bytes
    have hlt : bytes.length < 256 := by
      rw [fitsShort] at hfits
      omega
    exact decompress_literals (parseQlzHeader_short hflags hlt) (short_flags flags hflags).2.2 rfl

/-- Forty bytes, after two control words. -/
theorem decompress_forty :
    decompress (shortBlock 0x05 (List.replicate 40 7)) = .ok (List.replicate 40 7) :=
  (decompress_literalBlock (List.replicate 40 7) (by decide)).2 (by decide) 0x05 (by decide)

end Teamspeak.Transport
