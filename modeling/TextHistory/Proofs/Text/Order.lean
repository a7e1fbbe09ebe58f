import TextHistory.Text.Utf8

/-!
# The order of texts

Texts are compared character by character. This is a total order, and it is the order of the
bytes: of two texts, the one that precedes the other has the smaller UTF-8 form
(`Text.encode_lt_of_precedes`). For the bytes of a smaller character are smaller than those of a
greater one, whatever follows (`Utf8.encodeChar_lt`): a shorter sequence begins with a smaller byte,
and in sequences of equal length the first six bits that differ decide.
-/

set_option autoImplicit false

namespace TextHistory

namespace Utf8

/-! ## Bytes -/

theorem ofNat_lt {m n : Nat} (h : m < n) (hn : n < 256) : UInt8.ofNat m < UInt8.ofNat n := by
  rw [UInt8.lt_iff_toNat_lt, UInt8.toNat_ofNat', UInt8.toNat_ofNat']
  omega

/-- The first byte decides, unless it is the same one. -/
theorem cons_lt_cons {m n : Nat} {s t : List UInt8} (hn : n < 256)
    (h : m < n ∨ m = n ∧ s < t) : UInt8.ofNat m :: s < UInt8.ofNat n :: t := by
  rw [List.cons_lt_cons_iff]
  rcases h with hlt | ⟨rfl, hst⟩
  · exact .inl (ofNat_lt hlt hn)
  · exact .inr ⟨rfl, hst⟩

/-- The last byte of a sequence holds the low six bits. -/
theorem trailing_lt {v w : Nat} (h : v % 64 < w % 64) (s t : List UInt8) :
    UInt8.ofNat (v % 64 + 128) :: s < UInt8.ofNat (w % 64 + 128) :: t :=
  cons_lt_cons (by omega) (.inl (by omega))

theorem trailing_two_lt {v w : Nat} (h : v % 4096 < w % 4096) (s t : List UInt8) :
    UInt8.ofNat (v / 64 % 64 + 128) :: UInt8.ofNat (v % 64 + 128) :: s
      < UInt8.ofNat (w / 64 % 64 + 128) :: UInt8.ofNat (w % 64 + 128) :: t := by
  refine cons_lt_cons (by omega) ?_
  rcases Nat.lt_or_ge (v / 64 % 64) (w / 64 % 64) with hlt | hge
  · exact .inl (by omega)
  · exact .inr ⟨by omega, trailing_lt (by omega) s t⟩

theorem trailing_three_lt {v w : Nat} (h : v % 262144 < w % 262144) (s t : List UInt8) :
    UInt8.ofNat (v / 4096 % 64 + 128) :: UInt8.ofNat (v / 64 % 64 + 128)
        :: UInt8.ofNat (v % 64 + 128) :: s
      < UInt8.ofNat (w / 4096 % 64 + 128) :: UInt8.ofNat (w / 64 % 64 + 128)
        :: UInt8.ofNat (w % 64 + 128) :: t := by
  refine cons_lt_cons (by omega) ?_
  rcases Nat.lt_or_ge (v / 4096 % 64) (w / 4096 % 64) with hlt | hge
  · exact .inl (by omega)
  · exact .inr ⟨by omega, trailing_two_lt (by omega) s t⟩

/-- **The bytes of a smaller character are smaller**, whatever follows. -/
theorem encodeChar_lt {c d : Char} (h : c.toNat < d.toNat) (s t : List UInt8) :
    String.utf8EncodeChar c ++ s < String.utf8EncodeChar d ++ t := by
  have hlt : c.val.toNat < d.val.toNat := h
  have hd : d.val.toNat < 0x110000 := by
    have hvalid : d.val.toNat < 0xd800 ∨ 0xdfff < d.val.toNat ∧ d.val.toNat < 0x110000 := d.valid
    omega
  generalize hv : c.val.toNat = v at hlt
  generalize hw : d.val.toNat = w at hlt hd
  rw [String.utf8EncodeChar, String.utf8EncodeChar]
  simp only [hv, hw]
  -- one case for each length of the second sequence, in which the first one is no longer
  by_cases h₁ : w ≤ 0x7f
  · rw [if_pos h₁, if_pos (by omega)]
    exact cons_lt_cons (by omega) (.inl hlt)
  rw [if_neg h₁]
  by_cases h₂ : w ≤ 0x7ff
  · rw [if_pos h₂]
    split
    · exact cons_lt_cons (by omega) (.inl (by omega))
    · rw [if_pos (by omega)]
      refine cons_lt_cons (by omega) ?_
      rcases Nat.lt_or_ge (v / 64) (w / 64) with hlead | hlead
      · exact .inl (by omega)
      · exact .inr ⟨by omega, trailing_lt (by omega) s t⟩
  rw [if_neg h₂]
  by_cases h₃ : w ≤ 0xffff
  · rw [if_pos h₃]
    split
    · exact cons_lt_cons (by omega) (.inl (by omega))
    · split
      · exact cons_lt_cons (by omega) (.inl (by omega))
      · rw [if_pos (by omega)]
        refine cons_lt_cons (by omega) ?_
        rcases Nat.lt_or_ge (v / 4096) (w / 4096) with hlead | hlead
        · exact .inl (by omega)
        · exact .inr ⟨by omega, trailing_two_lt (by omega) s t⟩
  rw [if_neg h₃]
  split
  · exact cons_lt_cons (by omega) (.inl (by omega))
  · split
    · exact cons_lt_cons (by omega) (.inl (by omega))
    · split
      · exact cons_lt_cons (by omega) (.inl (by omega))
      · refine cons_lt_cons (by omega) ?_
        rcases Nat.lt_or_ge (v / 262144) (w / 262144) with hlead | hlead
        · exact .inl (by omega)
        · exact .inr ⟨by omega, trailing_three_lt (by omega) s t⟩

theorem encode_cons (c : Char) (t : Text) :
    encode (c :: t) = String.utf8EncodeChar c ++ encode t := List.flatMap_cons

theorem encode_ne_nil (c : Char) (t : Text) : encode (c :: t) ≠ [] := by
  rw [encode_cons]
  exact List.append_ne_nil_of_left_ne_nil (by simp [String.utf8EncodeChar_ne_nil]) _

end Utf8

namespace Text

/-! ## The order -/

theorem precedes_total (s t : Text) : precedes s t || precedes t s := by
  induction s generalizing t with
  | nil => rfl
  | cons a s ih =>
      cases t with
      | nil => rfl
      | cons b t =>
          simp only [precedes]
          rcases Nat.lt_trichotomy a.toNat b.toNat with hlt | heq | hgt
          · simp [hlt]
          · obtain rfl : a = b := Char.toNat_inj.mp heq
            simpa using ih t
          · simp [hgt]

theorem precedes_trans {s t u : Text} (hst : precedes s t) (htu : precedes t u) :
    precedes s u := by
  induction s generalizing t u with
  | nil => rfl
  | cons a s ih =>
      cases t with
      | nil => cases hst
      | cons b t =>
          cases u with
          | nil => cases htu
          | cons c u =>
              simp only [precedes, Bool.or_eq_true, Bool.and_eq_true, decide_eq_true_eq,
                beq_iff_eq] at hst htu ⊢
              rcases hst with hab | ⟨rfl, hst⟩
              · rcases htu with hbc | ⟨rfl, -⟩
                · exact .inl (Nat.lt_trans hab hbc)
                · exact .inl hab
              · rcases htu with hbc | ⟨rfl, htu⟩
                · exact .inl hbc
                · exact .inr ⟨rfl, ih hst htu⟩

/-- **The order of texts is that of their bytes.** -/
theorem encode_lt_of_precedes {s t : Text} (h : precedes s t) (hne : s ≠ t) :
    Utf8.encode s < Utf8.encode t := by
  induction s generalizing t with
  | nil =>
      cases t with
      | nil => exact absurd rfl hne
      | cons b t =>
          cases hbytes : Utf8.encode (b :: t) with
          | nil => exact absurd hbytes (Utf8.encode_ne_nil b t)
          | cons x xs => exact List.Lex.nil
  | cons a s ih =>
      cases t with
      | nil => cases h
      | cons b t =>
          simp only [precedes, Bool.or_eq_true, Bool.and_eq_true, decide_eq_true_eq,
            beq_iff_eq] at h
          rw [Utf8.encode_cons, Utf8.encode_cons]
          rcases h with hlt | ⟨rfl, hst⟩
          · exact Utf8.encodeChar_lt hlt _ _
          · exact List.append_left_lt (ih hst fun heq => hne (by rw [heq]))

end Text

end TextHistory
