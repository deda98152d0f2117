import LootTables.Proofs.Result
import LootTables.Text.Utf8

/-!
# Decoding takes encoding back

What a text is encoded to is decoded to that text (`decode_of_encode`). The decoder reads the encoding
of one code point after the other (`decodeFrom_encodePoint`): the first byte puts it inside a sequence,
with the high bits of the code point, and each continuation byte adds six bits. The range in which the
first continuation is expected is the only one that depends on the code point, and it is left only by
encodings of surrogates. These are the only code points that keep a text from being encoded
(`exists_encode_iff`).
-/

namespace LootTables.Utf8

variable {position : Nat} {bs : Bytes}

/-! ### Continuation bytes -/

theorem toNat_ofNat {n : Nat} (h : n < 256) : (UInt8.ofNat n).toNat = n :=
  UInt8.toNat_ofNat_of_lt' h

/-- A continuation byte that is not the last adds its six bits. -/
theorem decodeFrom_continuation {due low high value n : Nat} {seen : Bytes} (hn : n < 64)
    (hlow : low ≤ 0x80 + n) (hhigh : 0x80 + n ≤ high) :
    decodeFrom position (.inside (due + 1) low high value seen) (.ofNat (0x80 + n) :: bs) =
      decodeFrom position (.inside due 0x80 0xBF (64 * value + n) (seen ++ [.ofNat (0x80 + n)])) bs := by
  rw [decodeFrom, toNat_ofNat (by omega), if_pos ⟨hlow, hhigh⟩, Nat.add_sub_cancel_left]

/-- The last continuation byte completes the code point. -/
theorem decodeFrom_last {low high value n : Nat} {seen : Bytes} (hn : n < 64)
    (hlow : low ≤ 0x80 + n) (hhigh : 0x80 + n ≤ high) :
    decodeFrom position (.inside 0 low high value seen) (.ofNat (0x80 + n) :: bs) =
      (CodePoint.ofNat (64 * value + n) :: ·) <$>
        decodeFrom (position + seen.length + 1) .ready bs := by
  rw [decodeFrom, toNat_ofNat (by omega), if_pos ⟨hlow, hhigh⟩, Nat.add_sub_cancel_left]

/-! ### First bytes -/

theorem begin_one {n : Nat} (h : n < 0x80) : begin (.ofNat n) = .ok (.inl (.ofNat n)) := by
  unfold begin
  rw [toNat_ofNat (by omega), if_pos h]

theorem begin_two {n : Nat} (hlow : 0x80 ≤ n) (hhigh : n < 0x800) :
    begin (.ofNat (0xC0 + n / 64)) =
      .ok (.inr (.inside 0 0x80 0xBF (n / 64) [.ofNat (0xC0 + n / 64)])) := by
  unfold begin
  rw [toNat_ofNat (by omega)]
  dsimp only
  rw [if_neg (by omega), if_neg (by omega), if_pos (by omega), Nat.add_sub_cancel_left]

/-- The first byte of three. What it expects next is what follows it in an encoding. -/
theorem begin_three {n : Nat} (hlow : 0x800 ≤ n) (hhigh : n < 0x10000)
    (hsurrogate : ¬ (0xD800 ≤ n ∧ n < 0xE000)) :
    ∃ low high, low ≤ 0x80 + n / 64 % 64 ∧ 0x80 + n / 64 % 64 ≤ high ∧
      begin (.ofNat (0xE0 + n / 4096)) =
        .ok (.inr (.inside 1 low high (n / 4096) [.ofNat (0xE0 + n / 4096)])) := by
  unfold begin
  rw [toNat_ofNat (by omega)]
  dsimp only
  rw [if_neg (by omega), if_neg (by omega), if_neg (by omega)]
  by_cases hleast : n < 0x1000
  · refine ⟨0xA0, 0xBF, by omega, by omega, ?_⟩
    rw [if_pos (by omega), show n / 4096 = 0 by omega]
  · rw [if_neg (by omega)]
    by_cases hbefore : 0xD000 ≤ n ∧ n < 0xE000
    · refine ⟨0x80, 0x9F, by omega, by omega, ?_⟩
      rw [if_pos (by omega), show n / 4096 = 0xD by omega]
    · refine ⟨0x80, 0xBF, by omega, by omega, ?_⟩
      rw [if_neg (by omega), if_pos (by omega), Nat.add_sub_cancel_left]

/-- The first byte of four. -/
theorem begin_four {n : Nat} (hlow : 0x10000 ≤ n) (hhigh : n < 0x110000) :
    ∃ low high, low ≤ 0x80 + n / 4096 % 64 ∧ 0x80 + n / 4096 % 64 ≤ high ∧
      begin (.ofNat (0xF0 + n / 262144)) =
        .ok (.inr (.inside 2 low high (n / 262144) [.ofNat (0xF0 + n / 262144)])) := by
  unfold begin
  rw [toNat_ofNat (by omega)]
  dsimp only
  rw [if_neg (by omega), if_neg (by omega), if_neg (by omega), if_neg (by omega), if_neg (by omega),
    if_neg (by omega)]
  by_cases hleast : n < 0x40000
  · refine ⟨0x90, 0xBF, by omega, by omega, ?_⟩
    rw [if_pos (by omega), show n / 262144 = 0 by omega]
  · rw [if_neg (by omega)]
    by_cases hlast : n < 0x100000
    · refine ⟨0x80, 0xBF, by omega, by omega, ?_⟩
      rw [if_pos (by omega), Nat.add_sub_cancel_left]
    · refine ⟨0x80, 0x8F, by omega, by omega, ?_⟩
      rw [if_neg (by omega), if_pos (by omega), show n / 262144 = 4 by omega]

/-! ### Texts -/

/-- The encoding of a code point is decoded to it, whatever comes after. -/
theorem decodeFrom_encodePoint {c : CodePoint} (hc : ¬ c.IsSurrogate) (start : Nat) (rest : Bytes) :
    ∃ next, decodeFrom start .ready (encodePoint c ++ rest) =
      (c :: ·) <$> decodeFrom next .ready rest := by
  obtain ⟨n, hn⟩ := c
  have hpoint : CodePoint.ofNat n = ⟨n, hn⟩ := CodePoint.ext (CodePoint.val_ofNat hn)
  unfold encodePoint
  dsimp only
  by_cases hone : n < 0x80
  · rw [if_pos hone, List.singleton_append, decodeFrom, begin_one hone, hpoint]
    exact ⟨_, rfl⟩
  by_cases htwo : n < 0x800
  · rw [if_neg hone, if_pos htwo, List.cons_append, List.singleton_append, decodeFrom,
      begin_two (by omega) htwo]
    dsimp only
    rw [decodeFrom_last (by omega) (by omega) (by omega), show 64 * (n / 64) + n % 64 = n by omega,
      hpoint]
    exact ⟨_, rfl⟩
  by_cases hthree : n < 0x10000
  · obtain ⟨low, high, hlow, hhigh, hbegin⟩ := begin_three (by omega) hthree hc
    rw [if_neg hone, if_neg htwo, if_pos hthree, List.cons_append, List.cons_append,
      List.singleton_append, decodeFrom, hbegin]
    dsimp only
    rw [decodeFrom_continuation (by omega) hlow hhigh,
      decodeFrom_last (by omega) (by omega) (by omega),
      show 64 * (64 * (n / 4096) + n / 64 % 64) + n % 64 = n by omega, hpoint]
    exact ⟨_, rfl⟩
  · obtain ⟨low, high, hlow, hhigh, hbegin⟩ := begin_four (by omega) hn
    rw [if_neg hone, if_neg htwo, if_neg hthree, List.cons_append, List.cons_append,
      List.cons_append, List.singleton_append, decodeFrom, hbegin]
    dsimp only
    rw [decodeFrom_continuation (by omega) hlow hhigh,
      decodeFrom_continuation (by omega) (by omega) (by omega),
      decodeFrom_last (by omega) (by omega) (by omega),
      show 64 * (64 * (64 * (n / 262144) + n / 4096 % 64) + n / 64 % 64) + n % 64 = n by omega,
      hpoint]
    exact ⟨_, rfl⟩

theorem decodeFrom_of_encodeFrom {s : Text} {count : Nat} (h : encodeFrom count s = .ok bs) :
    decodeFrom position .ready bs = .ok s := by
  induction s generalizing count position bs with
  | nil =>
    cases h
    rfl
  | cons c s ih =>
    unfold encodeFrom at h
    split at h
    · cases h
    · next hc =>
      cases hrest : encodeFrom (count + 1) s with
      | error e =>
        rw [hrest] at h
        cases h
      | ok rest =>
        rw [hrest] at h
        cases h
        obtain ⟨next, hnext⟩ := decodeFrom_encodePoint hc position rest
        rw [hnext, ih hrest]
        rfl

/-- Decoding takes encoding back. -/
theorem decode_of_encode {s : Text} (h : encode s = .ok bs) : decode bs = .ok s :=
  decodeFrom_of_encodeFrom h

/-! ### Texts with an encoding -/

theorem exists_encodeFrom_iff {s : Text} :
    (∃ bytes, encodeFrom position s = .ok bytes) ↔ ∀ c ∈ s, ¬c.IsSurrogate := by
  induction s generalizing position with
  | nil => exact iff_of_true ⟨[], rfl⟩ (List.forall_mem_nil _)
  | cons c s ih =>
    have hrest : (∃ bytes, encodeFrom (position + 1) s = .ok bytes) ↔ ∀ c ∈ s, ¬c.IsSurrogate := ih
    rw [List.forall_mem_cons, ← hrest, encodeFrom]
    split
    · next hsurrogate => simp [hsurrogate]
    · next hplain => cases encodeFrom (position + 1) s <;> simp [hplain]

/-- Exactly the texts without surrogates have an encoding. -/
theorem exists_encode_iff {s : Text} :
    (∃ bytes, encode s = .ok bytes) ↔ ∀ c ∈ s, ¬c.IsSurrogate := exists_encodeFrom_iff

end LootTables.Utf8
