import Teamspeak.Transport.QuickLz.Checked

/-!
# The expansion guard

`decompress` refuses a block that declares more than `maxExpansion` times its bytes before
it reads any.  Every turn of the decoder pays for what it writes: a reference of three
bytes writes 255 at most, one of two bytes 17, and a literal itself.

* `decodeLoop_paid`: what a whole run writes is paid for.
* `expansion_guard`: no block that decodes is refused.
-/

namespace Teamspeak.Transport

/-- `decompress` without the check of `maxExpansion`. -/
def decompressUnguarded (data : Bytes) : Except QuickLZError Bytes := do
  let { headerLen, decompressedSize, flags } ← parseQlzHeader data
  if flags &&& 0x01 = 0 then
    if headerLen + decompressedSize > data.length then .error .storedShort
    else .ok ((data.drop headerLen).take decompressedSize)
  else do
    let st ← QlzState.decodeLoop data decompressedSize (data.length + 1)
      { control := 1, sourcePos := headerLen, destPos := 0, nextHashed := 0
        dest := List.replicate decompressedSize 0, hashtable := fun _ => 0 }
    if st.destPos ≠ decompressedSize then .error .endsEarly else .ok st.dest

theorem bind_eq_ok {ε α β : Type} {x : Except ε α} {f : α → Except ε β} {b : β} :
    x >>= f = .ok b ↔ ∃ a, x = .ok a ∧ f a = .ok b := by
  cases x with
  | error e => exact ⟨fun h => (by cases h), fun ⟨a, h, _⟩ => (by cases h)⟩
  | ok a => exact ⟨fun h => ⟨a, rfl, h⟩, fun ⟨a', h, hf⟩ => Except.ok.inj h ▸ hf⟩

namespace QlzState

variable {data : Bytes} {size start : Nat}

/-- What is written so far is at most 85 bytes for each that was read. -/
structure Paid (data : Bytes) (start : Nat) (st : QlzState) : Prop where
  start_le : start ≤ st.sourcePos
  read_le : st.sourcePos ≤ data.length
  written_le : st.destPos ≤ 85 * (st.sourcePos - start)

theorem updateHashtable_keeps (n : Nat) (st : QlzState) :
    (st.updateHashtable n).control = st.control ∧
      (st.updateHashtable n).sourcePos = st.sourcePos ∧
        (st.updateHashtable n).destPos = st.destPos ∧ (st.updateHashtable n).dest = st.dest := by
  induction n generalizing st with
  | zero => exact ⟨rfl, rfl, rfl, rfl⟩
  | succ n ih =>
    rw [updateHashtable]
    split
    · exact ⟨rfl, rfl, rfl, rfl⟩
    · exact ih _

theorem copyMatch_written (st : QlzState) (start n : Nat) :
    (st.copyMatch start n).sourcePos = st.sourcePos ∧
      (st.copyMatch start n).destPos = st.destPos + n := by
  induction n generalizing st start with
  | zero => exact ⟨rfl, rfl⟩
  | succ n ih =>
    obtain ⟨hsource, hdest⟩ := ih
      { st with dest := st.dest.set st.destPos (st.dest.getD start 0), destPos := st.destPos + 1 }
      (start + 1)
    rw [copyMatch, hsource, hdest]
    exact ⟨rfl, Nat.add_right_comm _ _ _⟩

/-! ### One turn -/

theorem ensureControl_paid {st st' : QlzState} (h : Paid data start st)
    (hst : ensureControl data st = .ok st') : Paid data start st' ∧ st'.destPos = st.destPos := by
  have hstart := h.start_le
  have hwritten := h.written_le
  rw [ensureControl] at hst
  split at hst
  · obtain rfl := Except.ok.inj hst
    exact ⟨h, rfl⟩
  split at hst
  · cases hst
  obtain rfl := Except.ok.inj hst
  exact ⟨⟨by dsimp only; omega, by dsimp only; omega, by dsimp only; omega⟩, rfl⟩

/-- A reference writes its length, and reads nothing more. -/
theorem copyReference_written {st st' : QlzState} {hash matchlen : Nat}
    (hst : copyReference st hash matchlen = .ok st') :
    st'.sourcePos = st.sourcePos ∧ st'.destPos = st.destPos + matchlen := by
  rw [copyReference] at hst
  split at hst
  · cases hst
  split at hst
  · cases hst
  dsimp only at hst
  obtain rfl := Except.ok.inj hst
  obtain ⟨hsource, hdest⟩ := copyMatch_written st (st.hashtable hash) matchlen
  set copied := st.copyMatch (st.hashtable hash) matchlen
  obtain ⟨-, hsource', hdest', -⟩ :=
    updateHashtable_keeps (copied.destPos + 1 - matchlen - copied.nextHashed) copied
  exact ⟨hsource'.trans hsource, hdest'.trans hdest⟩

theorem processReference_paid {st st' : QlzState} (h : Paid data start st)
    (hst : processReference data st = .ok st') : Paid data start st' := by
  have hstart := h.start_le
  have hwritten := h.written_le
  have hlength := (data.getD (st.sourcePos + 2) 0).toNat_lt
  rw [processReference_eq] at hst
  split at hst
  · cases hst
  dsimp only at hst
  split at hst
  · obtain ⟨hsource, hdest⟩ := copyReference_written hst
    dsimp only at hsource hdest
    exact ⟨by omega, by omega, by omega⟩
  split at hst
  · cases hst
  obtain ⟨hsource, hdest⟩ := copyReference_written hst
  dsimp only at hsource hdest
  exact ⟨by omega, by omega, by omega⟩

theorem copyLiteral_paid {st : QlzState} (h : Paid data start st)
    (hread : st.sourcePos < data.length) : Paid data start (copyLiteral data st) := by
  have hstart := h.start_le
  have hwritten := h.written_le
  rw [copyLiteral]
  exact ⟨by dsimp only; omega, by dsimp only; omega, by dsimp only; omega⟩

theorem copyTail_paid {n : Nat} {st st' : QlzState} (h : Paid data start st)
    (hst : copyTail data st n = .ok st') : Paid data start st' := by
  induction n generalizing st with
  | zero =>
    obtain rfl := Except.ok.inj hst
    exact h
  | succ n ih =>
    rw [copyTail] at hst
    obtain ⟨next, hnext, hst⟩ := bind_eq_ok.mp hst
    split at hst
    · cases hst
    · rename_i hread
      exact ih (copyLiteral_paid (ensureControl_paid h hnext).1 (Nat.not_le.mp hread)) hst

theorem processLiteral_paid {st : QlzState} {result : QlzState × Bool} (h : Paid data start st)
    (hst : processLiteral data size st = .ok result) : Paid data start result.1 := by
  rw [processLiteral] at hst
  dsimp only at hst
  split at hst
  · obtain ⟨next, hnext, hst⟩ := bind_eq_ok.mp hst
    obtain rfl := Except.ok.inj hst
    exact copyTail_paid h hnext
  split at hst
  · cases hst
  rename_i hread
  obtain rfl := Except.ok.inj hst
  have hcopied := copyLiteral_paid h (Nat.not_le.mp hread)
  set copied := copyLiteral data st
  obtain ⟨-, hsource, hdest, -⟩ :=
    updateHashtable_keeps (max (copied.destPos - 2) 0 - copied.nextHashed) copied
  have hpaid : Paid data start
      (copied.updateHashtable (max (copied.destPos - 2) 0 - copied.nextHashed)) :=
    ⟨by rw [hsource]; exact hcopied.start_le, by rw [hsource]; exact hcopied.read_le,
      by rw [hsource, hdest]; exact hcopied.written_le⟩
  dsimp only
  split
  · exact ⟨hpaid.start_le, hpaid.read_le, hpaid.written_le⟩
  · exact hpaid

/-! ### A whole run -/

/-- **What a run writes is paid for**, however many turns it is given. -/
theorem decodeLoop_paid {fuel : Nat} {st st' : QlzState} (h : Paid data start st)
    (hst : decodeLoop data size fuel st = .ok st') : Paid data start st' := by
  induction fuel generalizing st with
  | zero =>
    obtain rfl := Except.ok.inj hst
    exact h
  | succ fuel ih =>
    rw [decodeLoop] at hst
    split at hst
    swap
    · obtain rfl := Except.ok.inj hst
      exact h
    obtain ⟨next, hnext, hst⟩ := bind_eq_ok.mp hst
    replace h := (ensureControl_paid h hnext).1
    split at hst
    · obtain ⟨copied, hcopied, hst⟩ := bind_eq_ok.mp hst
      exact ih (processReference_paid h hcopied) hst
    · obtain ⟨⟨copied, done⟩, hcopied, hst⟩ := bind_eq_ok.mp hst
      have hpaid : Paid data start copied := processLiteral_paid h hcopied
      dsimp only at hst
      split at hst
      · obtain rfl := Except.ok.inj hst
        exact hpaid
      · exact ih hpaid hst

end QlzState

/-- A block that decodes declares no more than its bytes can expand to. -/
theorem declared_le {data : Bytes} {headerLen size : Nat} {st : QlzState}
    (hheader : headerLen ≤ data.length)
    (hst : QlzState.decodeLoop data size (data.length + 1)
      { control := 1, sourcePos := headerLen, destPos := 0, nextHashed := 0
        dest := List.replicate size 0, hashtable := fun _ => 0 } = .ok st)
    (hsize : st.destPos = size) : size ≤ (data.length - headerLen) * maxExpansion := by
  have hpaid := QlzState.decodeLoop_paid ⟨Nat.le_refl headerLen, hheader, Nat.zero_le _⟩ hst
  have hwritten := hpaid.written_le
  have hread := hpaid.read_le
  rw [maxExpansion]
  omega

theorem headerLen_le {data : Bytes} {header : QlzHeader} (h : parseQlzHeader data = .ok header) :
    header.headerLen ≤ data.length := by
  have hagrees := checkedHeader_agrees data
  rw [h] at hagrees
  obtain ⟨checked, -, rfl, hle, -⟩ := hagrees.of_ok
  exact hle

/-- **The guard refuses no block that decodes**: without it every block has the same
result, but that some of those that cannot be decoded fail with another error. -/
theorem expansion_guard (data : Bytes) :
    (∀ header out, parseQlzHeader data = .ok header → header.flags &&& 0x01 ≠ 0 →
      decompressUnguarded data = .ok out →
        header.decompressedSize ≤ (data.length - header.headerLen) * maxExpansion) ∧
      (∀ out, decompressUnguarded data = .ok out ↔ decompress data = .ok out) ∧
      (decompressUnguarded data = decompress data ∨
        ∃ declared body e, decompress data = .error (.cannotExpand declared body) ∧
          decompressUnguarded data = .error e) := by
  cases hparse : parseQlzHeader data with
  | error e =>
    have hguarded : decompress data = .error e := by
      rw [decompress, hparse]
      rfl
    have hunguarded : decompressUnguarded data = .error e := by
      rw [decompressUnguarded, hparse]
      rfl
    rw [hguarded, hunguarded]
    exact ⟨fun _ _ h => (by cases h), fun _ => Iff.rfl, Or.inl rfl⟩
  | ok header =>
    obtain ⟨headerLen, size, flags⟩ := header
    have hheader := headerLen_le hparse
    have hdeclared : flags &&& 0x01 ≠ 0 → ∀ out, decompressUnguarded data = .ok out →
        size ≤ (data.length - headerLen) * maxExpansion := by
      intro hflags out hout
      rw [decompressUnguarded, hparse] at hout
      obtain ⟨st, hst, hout⟩ := bind_eq_ok.mp ((if_neg hflags).symm.trans hout)
      split at hout
      · cases hout
      · rename_i hsize
        exact declared_le hheader hst (not_not.mp hsize)
    have hcases : decompressUnguarded data = decompress data ∨
        size > (data.length - headerLen) * maxExpansion ∧ flags &&& 0x01 ≠ 0 ∧
          decompress data = .error (.cannotExpand size (data.length - headerLen)) := by
      rw [decompressUnguarded, decompress, hparse]
      by_cases hflags : flags &&& 0x01 = 0
      · exact Or.inl ((if_pos hflags).trans (if_pos hflags).symm)
      · by_cases hguard : size > (data.length - headerLen) * maxExpansion
        · exact Or.inr ⟨hguard, hflags, (if_neg hflags).trans (if_pos hguard)⟩
        · exact Or.inl ((if_neg hflags).trans ((if_neg hflags).trans (if_neg hguard)).symm)
    refine ⟨?_, ?_, ?_⟩
    · rintro header' out hheader' hflags hout
      obtain rfl := Except.ok.inj hheader'
      exact hdeclared hflags out hout
    · intro out
      rcases hcases with heq | ⟨hguard, hflags, hrefused⟩
      · rw [heq]
      · rw [hrefused]
        refine iff_of_false (fun hout => ?_) (fun h => by cases h)
        exact absurd (hdeclared hflags out hout) (Nat.not_le.mpr hguard)
    · rcases hcases with heq | ⟨hguard, hflags, hrefused⟩
      · exact Or.inl heq
      · cases hunguarded : decompressUnguarded data with
        | error e => exact Or.inr ⟨_, _, e, hrefused, rfl⟩
        | ok out => exact absurd (hdeclared hflags out hunguarded) (Nat.not_le.mpr hguard)

end Teamspeak.Transport
