import TextHistory.Text.Percent

/-!
# Percent-encoded text reads back

The bytes of a written form are the UTF-8 bytes of the text (`bytes_encode`), and UTF-8 bytes
decode to the text they came from (`Utf8.decode_encode`), one character at a time. So reading
undoes writing (`decode_encode`). A written form holds no line end, which is what keeps a run of
a patch on one line.
-/

set_option autoImplicit false

namespace TextHistory

/-! ## UTF-8 -/

namespace Utf8

variable {start : Nat} {b : UInt8} {p q : Pending} (rest : List UInt8)

theorem decodeFrom_single (h : begin? b.toNat = some p) (hn : p.needed = 0) :
    decodeFrom start none (b :: rest)
      = (decodeFrom (start + 1) none rest).map (Char.ofNat p.bits :: ·) := by
  simp [decodeFrom, h, hn]

theorem decodeFrom_begin (h : begin? b.toNat = some p) (hn : p.needed ≠ 0) :
    decodeFrom start none (b :: rest) = decodeFrom start (some p) rest := by
  simp [decodeFrom, h, hn]

theorem decodeFrom_next (h : p.next? b.toNat = some q) (hn : q.needed ≠ 0) :
    decodeFrom start (some p) (b :: rest) = decodeFrom start (some q) rest := by
  simp [decodeFrom, h, hn]

theorem decodeFrom_last (h : p.next? b.toNat = some q) (hn : q.needed = 0) :
    decodeFrom start (some p) (b :: rest)
      = (decodeFrom (start + q.seen) none rest).map (Char.ofNat q.bits :: ·) := by
  simp [decodeFrom, h, hn]

/-- A byte that carries six bits of a number carries a sequence on, if it is within the bounds. -/
theorem next?_trailing (n : Nat) (hlow : p.low ≤ n % 64 + 0x80) (hhigh : n % 64 + 0x80 ≤ p.high) :
    p.next? (UInt8.ofNat (n % 0x40 + 0x80)).toNat
      = some ⟨p.needed - 1, 0x80, 0xBF, p.bits * 0x40 + n % 64, p.seen + 1⟩ := by
  have hb : (UInt8.ofNat (n % 0x40 + 0x80)).toNat = n % 64 + 0x80 := by
    rw [UInt8.toNat_ofNat']
    omega
  rw [hb, Pending.next?, if_pos ⟨hlow, hhigh⟩]
  congr 2
  omega

variable {v : Nat}

theorem decodeFrom_one (hv : v ≤ 0x7f) :
    decodeFrom start none (UInt8.ofNat v :: rest)
      = (decodeFrom (start + 1) none rest).map (Char.ofNat v :: ·) := by
  have hb : (UInt8.ofNat v).toNat = v := by
    rw [UInt8.toNat_ofNat']
    omega
  have hbegin : begin? (UInt8.ofNat v).toNat = some ⟨0, 0x80, 0xBF, v, 1⟩ := by
    rw [hb, begin?, if_pos (by omega)]
  exact decodeFrom_single rest hbegin rfl

theorem decodeFrom_two (hlo : 0x80 ≤ v) (hhi : v ≤ 0x7ff) :
    decodeFrom start none
        (UInt8.ofNat (v / 64 % 0x20 + 0xc0) :: UInt8.ofNat (v % 0x40 + 0x80) :: rest)
      = (decodeFrom (start + 2) none rest).map (Char.ofNat v :: ·) := by
  have hb : (UInt8.ofNat (v / 64 % 0x20 + 0xc0)).toNat = v / 64 + 0xc0 := by
    rw [UInt8.toNat_ofNat']
    omega
  have hbegin : begin? (v / 64 + 0xc0) = some ⟨1, 0x80, 0xBF, v / 64, 1⟩ := by
    rw [begin?, if_neg (by omega), if_neg (by omega), if_pos (by omega)]
    congr 2
    omega
  have hbits : v / 64 * 0x40 + v % 64 = v := by omega
  rw [decodeFrom_begin _ (by rw [hb, hbegin]) (by simp),
    decodeFrom_last rest (next?_trailing v (by simp) (by simp; omega)) rfl, hbits]

/-- The first of three bytes bounds the second one, so that no sequence is longer than it need be
and none spells a surrogate. -/
theorem begin?_three (hlo : 0x800 ≤ v) (hhi : v ≤ 0xffff) (hs : v < 0xd800 ∨ 0xdfff < v) :
    ∃ low high, begin? (v / 4096 + 0xe0) = some ⟨2, low, high, v / 4096, 1⟩ ∧
      low ≤ v / 64 % 64 + 0x80 ∧ v / 64 % 64 + 0x80 ≤ high := by
  rw [begin?, if_neg (by omega), if_neg (by omega), if_neg (by omega)]
  by_cases h0 : v / 4096 + 0xe0 = 0xe0
  · rw [if_pos h0]
    exact ⟨0xA0, 0xBF, by congr 2; omega, by omega, by omega⟩
  · rw [if_neg h0]
    by_cases hd : v / 4096 + 0xe0 = 0xed
    · rw [if_pos hd]
      exact ⟨0x80, 0x9F, by congr 2; omega, by omega, by omega⟩
    · rw [if_neg hd, if_pos (by omega)]
      exact ⟨0x80, 0xBF, by congr 2; omega, by omega, by omega⟩

theorem decodeFrom_three (hlo : 0x800 ≤ v) (hhi : v ≤ 0xffff) (hs : v < 0xd800 ∨ 0xdfff < v) :
    decodeFrom start none
        (UInt8.ofNat (v / 4096 % 0x10 + 0xe0) :: UInt8.ofNat (v / 64 % 0x40 + 0x80)
          :: UInt8.ofNat (v % 0x40 + 0x80) :: rest)
      = (decodeFrom (start + 3) none rest).map (Char.ofNat v :: ·) := by
  have hb : (UInt8.ofNat (v / 4096 % 0x10 + 0xe0)).toNat = v / 4096 + 0xe0 := by
    rw [UInt8.toNat_ofNat']
    omega
  obtain ⟨low, high, hbegin, hlow, hhigh⟩ := begin?_three hlo hhi hs
  have hbits : (v / 4096 * 0x40 + v / 64 % 64) * 0x40 + v % 64 = v := by omega
  rw [decodeFrom_begin _ (by rw [hb, hbegin]) (by simp),
    decodeFrom_next _ (next?_trailing (v / 64) hlow hhigh) (by simp),
    decodeFrom_last rest (next?_trailing v (by simp) (by simp; omega)) rfl, hbits]

/-- The first of four bytes bounds the second one, so that no sequence is longer than it need be
and none leaves the range of the characters. -/
theorem begin?_four (hlo : 0x10000 ≤ v) (hhi : v < 0x110000) :
    ∃ low high, begin? (v / 262144 + 0xf0) = some ⟨3, low, high, v / 262144, 1⟩ ∧
      low ≤ v / 4096 % 64 + 0x80 ∧ v / 4096 % 64 + 0x80 ≤ high := by
  rw [begin?, if_neg (by omega), if_neg (by omega), if_neg (by omega), if_neg (by omega),
    if_neg (by omega), if_neg (by omega)]
  by_cases h0 : v / 262144 + 0xf0 = 0xf0
  · rw [if_pos h0]
    exact ⟨0x90, 0xBF, by congr 2; omega, by omega, by omega⟩
  · rw [if_neg h0]
    by_cases h4 : v / 262144 + 0xf0 < 0xf4
    · rw [if_pos h4]
      exact ⟨0x80, 0xBF, by congr 2; omega, by omega, by omega⟩
    · rw [if_neg h4, if_pos (by omega)]
      exact ⟨0x80, 0x8F, by congr 2; omega, by omega, by omega⟩

theorem decodeFrom_four (hlo : 0x10000 ≤ v) (hhi : v < 0x110000) :
    decodeFrom start none
        (UInt8.ofNat (v / 262144 % 0x08 + 0xf0) :: UInt8.ofNat (v / 4096 % 0x40 + 0x80)
          :: UInt8.ofNat (v / 64 % 0x40 + 0x80) :: UInt8.ofNat (v % 0x40 + 0x80) :: rest)
      = (decodeFrom (start + 4) none rest).map (Char.ofNat v :: ·) := by
  have hb : (UInt8.ofNat (v / 262144 % 0x08 + 0xf0)).toNat = v / 262144 + 0xf0 := by
    rw [UInt8.toNat_ofNat']
    omega
  obtain ⟨low, high, hbegin, hlow, hhigh⟩ := begin?_four hlo hhi
  have hbits : ((v / 262144 * 0x40 + v / 4096 % 64) * 0x40 + v / 64 % 64) * 0x40 + v % 64 = v := by
    omega
  rw [decodeFrom_begin _ (by rw [hb, hbegin]) (by simp),
    decodeFrom_next _ (next?_trailing (v / 4096) hlow hhigh) (by simp),
    decodeFrom_next _ (next?_trailing (v / 64) (by simp) (by simp; omega)) (by simp),
    decodeFrom_last rest (next?_trailing v (by simp) (by simp; omega)) rfl, hbits]

/-- A character is read back from its bytes. -/
theorem decodeFrom_encodeChar (start : Nat) (c : Char) :
    ∃ next, decodeFrom start none (String.utf8EncodeChar c ++ rest)
      = (decodeFrom next none rest).map (c :: ·) := by
  have hc : Char.ofNat c.val.toNat = c := Char.ofNat_toNat c
  have hvalid : c.val.toNat < 0xd800 ∨ 0xdfff < c.val.toNat ∧ c.val.toNat < 0x110000 := c.valid
  -- one case for each length of a sequence, shortest first
  rw [String.utf8EncodeChar]
  split
  · next h₁ =>
    refine ⟨start + 1, ?_⟩
    rw [List.cons_append, List.nil_append, decodeFrom_one rest h₁, hc]
  · next h₁ =>
    split
    · next h₂ =>
      refine ⟨start + 2, ?_⟩
      simp only [List.cons_append, List.nil_append]
      rw [decodeFrom_two rest (by omega) h₂, hc]
    · next h₂ =>
      split
      · next h₃ =>
        refine ⟨start + 3, ?_⟩
        simp only [List.cons_append, List.nil_append]
        rw [decodeFrom_three rest (by omega) h₃ (by omega), hc]
      · next h₃ =>
        refine ⟨start + 4, ?_⟩
        simp only [List.cons_append, List.nil_append]
        rw [decodeFrom_four rest (by omega) (by omega), hc]

theorem decodeFrom_encode (start : Nat) (t : Text) :
    decodeFrom start none (encode t) = .ok t := by
  induction t generalizing start with
  | nil => rfl
  | cons c t ih =>
      obtain ⟨next, hnext⟩ := decodeFrom_encodeChar (encode t) start c
      rw [encode, List.flatMap_cons]
      exact hnext.trans (by rw [ih]; rfl)

/-- Reading undoes writing. -/
theorem decode_encode (t : Text) : decode (encode t) = .ok t := decodeFrom_encode 0 t

end Utf8

/-! ## Percent signs -/

theorem Hex.value?_digit {n : Nat} (h : n < 16) : Hex.value? (Hex.digit n) = some n := by
  revert n
  decide

namespace Percent

theorem bytes_escape (b : UInt8) (rest : Text) : bytes (escape b ++ rest) = b :: bytes rest := by
  have hlt : b.toNat < 256 := b.toNat_lt
  have hb : UInt8.ofNat (16 * (b.toNat / 16) + b.toNat % 16) = b := by
    rw [Nat.div_add_mod, UInt8.ofNat_toNat]
  simp only [escape, List.cons_append, List.nil_append, bytes,
    Hex.value?_digit (show b.toNat / 16 < 16 by omega),
    Hex.value?_digit (show b.toNat % 16 < 16 by omega), hb]

theorem bytes_escapes (bs : List UInt8) (rest : Text) :
    bytes (bs.flatMap escape ++ rest) = bs ++ bytes rest := by
  induction bs with
  | nil => rfl
  | cons b bs ih => rw [List.flatMap_cons, List.append_assoc, bytes_escape, ih, List.cons_append]

theorem ne_percent_of_isKept {c : Char} (h : isKept c = true) : c ≠ '%' := by
  rintro rfl
  revert h
  decide

theorem bytes_encodeChar (c : Char) (rest : Text) :
    bytes (encodeChar c ++ rest) = String.utf8EncodeChar c ++ bytes rest := by
  unfold encodeChar
  split
  · next h =>
    rw [List.singleton_append, bytes.eq_def]
    split
    · next heq => exact absurd (List.cons.inj heq).1 (ne_percent_of_isKept h)
    · next heq => rw [(List.cons.inj heq).1, (List.cons.inj heq).2]
    · next heq => cases heq
  · exact bytes_escapes _ _

/-- A written form stands for the UTF-8 bytes of its text. -/
theorem bytes_encode (t : Text) : bytes (encode t) = Utf8.encode t := by
  induction t with
  | nil => rfl
  | cons c t ih =>
      rw [encode, List.flatMap_cons, bytes_encodeChar, Utf8.encode, List.flatMap_cons]
      exact congrArg _ ih

/-- Reading undoes writing. -/
theorem decode_encode (t : Text) : decode (encode t) = .ok t := by
  rw [decode, bytes_encode, Utf8.decode_encode]

/-! ## What a written form consists of -/

theorem digit_ne_newline (n : Nat) (h : n < 16) : Hex.digit n ≠ '\n' := by
  revert n
  decide

/-- A written form stays on its line. -/
theorem newline_not_mem_encode (t : Text) : '\n' ∉ encode t := by
  rw [encode, List.mem_flatMap]
  rintro ⟨c, -, hc⟩
  unfold encodeChar at hc
  split at hc
  · next h =>
    rw [← List.mem_singleton.mp hc] at h
    revert h
    decide
  · rw [List.mem_flatMap] at hc
    obtain ⟨b, -, hb⟩ := hc
    have hlt : b.toNat < 256 := b.toNat_lt
    simp only [escape, List.mem_cons, List.not_mem_nil, or_false] at hb
    rcases hb with hb | hb | hb
    · revert hb
      decide
    · exact digit_ne_newline _ (by omega) hb.symm
    · exact digit_ne_newline _ (by omega) hb.symm

end Percent

end TextHistory
