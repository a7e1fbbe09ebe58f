import TextHistory.Proofs.Patch.Gathering

/-!
# The text form of a patch is a faithful codec

The hunks that can be written and read are those whose headings tell the truth, whose places are
positions that a text can have, and whose texts are together no longer than a text can be
(`Hunk.Regular`). Such hunks are read back from their text form, and nothing else is ever read from
a text of a size that can be, however it is spelled (`Patch.codec_faithful`).

For the second half it takes a bound on what is read. Reading never makes more characters than it
is given: every character of a text in UTF-8 has one byte that begins it (`Utf8.isLead`), and a
percent sign with its two digits stands for one byte.
-/

set_option autoImplicit false

namespace TextHistory

/-! ## Characters and the bytes that begin them -/

namespace Utf8

/-- The byte can begin a character. -/
def isLead (b : UInt8) : Bool := b.toNat < 0x80 || 0xC0 ≤ b.toNat

theorem isLead_of_begin? {b : UInt8} {p : Pending} (h : begin? b.toNat = some p) :
    isLead b = true := by
  cases hlead : isLead b with
  | true => rfl
  | false =>
      simp only [isLead, Bool.or_eq_false_iff, decide_eq_false_iff_not] at hlead
      rw [begin?, if_neg (by omega), if_pos (by omega)] at h
      cases h

theorem isLead_trailing (n : Nat) : isLead (UInt8.ofNat (n % 0x40 + 0x80)) = false := by
  have hb : (UInt8.ofNat (n % 0x40 + 0x80)).toNat = n % 64 + 0x80 := by
    rw [UInt8.toNat_ofNat']
    omega
  simp only [isLead, hb, Bool.or_eq_false_iff, decide_eq_false_iff_not]
  omega

theorem countP_cons_le (b : UInt8) {rest : List UInt8} (h : ∀ c ∈ rest, isLead c = false) :
    (b :: rest).countP isLead ≤ 1 := by
  have hrest : rest.countP isLead = 0 := by
    rw [List.countP_eq_zero]
    intro c hc
    simp [h c hc]
  rw [List.countP_cons, hrest]
  split <;> omega

/-- A character has one byte that begins it; the others carry it on. -/
theorem countP_encodeChar_le (c : Char) : (String.utf8EncodeChar c).countP isLead ≤ 1 := by
  rw [String.utf8EncodeChar]
  split
  · exact List.countP_le_length
  · split
    · exact countP_cons_le _ (by simp only [List.forall_mem_cons, isLead_trailing]; simp)
    · split
      · exact countP_cons_le _ (by simp only [List.forall_mem_cons, isLead_trailing]; simp)
      · exact countP_cons_le _ (by simp only [List.forall_mem_cons, isLead_trailing]; simp)

/-- No more characters are read than begin in the bytes, not counting one that has begun before. -/
theorem length_of_decodeFrom {start : Nat} {pending : Option Pending} {bytes : List UInt8}
    {t : Text} (h : decodeFrom start pending bytes = .ok t) :
    t.length ≤ bytes.countP isLead + if pending.isSome then 1 else 0 := by
  fun_induction decodeFrom start pending bytes generalizing t with
  | case1 start =>
      cases h
      simp
  | case2 start p => cases h
  | case3 start b rest hbegin => cases h
  | case4 start b rest p hbegin hwhole ih =>
      -- the byte is a character by itself, and begins it
      obtain ⟨u, hu, rfl⟩ := Outcome.map_eq_ok_iff.mp h
      have := ih hu
      simp [isLead_of_begin? hbegin] at this ⊢
      omega
  | case5 start b rest p hbegin hmore ih =>
      have := ih h
      simpa [isLead_of_begin? hbegin] using this
  | case6 start p b rest hnext => cases h
  | case7 start p b rest q hnext hlast ih =>
      -- the character that is complete now has begun before
      obtain ⟨u, hu, rfl⟩ := Outcome.map_eq_ok_iff.mp h
      have := ih hu
      have hle := (List.sublist_cons_self b rest).countP_le (p := isLead)
      simp at this ⊢
      omega
  | case8 start p b rest q hnext hmore ih =>
      have := ih h
      have hle := (List.sublist_cons_self b rest).countP_le (p := isLead)
      simp at this ⊢
      omega

end Utf8

namespace Percent

/-- A written form stands for no more beginnings of characters than it has characters. -/
theorem countP_bytes_le (t : Text) : (bytes t).countP Utf8.isLead ≤ t.length := by
  fun_induction bytes t with
  | case1 a b rest x y hx hy ih =>
      rw [List.countP_cons]
      simp only [List.length_cons]
      split <;> omega
  | case2 a b rest hdigits ih =>
      -- a percent sign without two digits stands for itself
      have hchar := Utf8.countP_encodeChar_le '%'
      rw [List.countP_append]
      simp only [List.length_cons] at ih ⊢
      omega
  | case3 c rest hlone ih =>
      have hchar := Utf8.countP_encodeChar_le c
      rw [List.countP_append, List.length_cons]
      omega
  | case4 => exact Nat.le_refl 0

/-- **What is read is not longer** than its written form. -/
theorem length_of_decode {t u : Text} (h : decode t = .ok u) : u.length ≤ t.length :=
  Nat.le_trans (Utf8.length_of_decodeFrom h) (countP_bytes_le t)

end Percent

/-! ## Rows and what is read from them -/

/-- Cutting a text into rows only takes the newlines out. -/
theorem Text.length_flatten_rows (t : Text) : (rows t).flatten.length ≤ t.length := by
  induction t with
  | nil => exact Nat.le_refl 0
  | cons c t ih =>
      rw [rows]
      split
      · rw [List.flatten_cons, List.nil_append, List.length_cons]
        omega
      · rw [flatten_extendFirst, List.length_cons, List.length_cons]
        omega

namespace Script

/-- The number of characters in all runs. -/
def size (s : Script) : Nat := (s.flatMap Edit.text).length

theorem size_cons (e : Edit) (s : Script) : size (e :: s) = e.text.length + size s := by
  rw [size, List.flatMap_cons, List.length_append, size]

/-- Some of the runs hold no more characters than all of them. -/
theorem length_text_filter_le (s : Script) (keep : Edit → Bool) :
    ((s.filter keep).flatMap Edit.text).length ≤ s.size := by
  induction s with
  | nil => exact Nat.le_refl 0
  | cons e s ih =>
      rw [size_cons, List.filter_cons]
      split
      · rw [List.flatMap_cons, List.length_append]
        omega
      · omega

theorem length_source_le (s : Script) : s.source.length ≤ s.size := s.length_text_filter_le _

theorem length_target_le (s : Script) : s.target.length ≤ s.size := s.length_text_filter_le _

end Script

namespace Hunk

theorem length_of_readEdit {line : Nat} {sign : Char} {t : Text} {e : Edit}
    (h : readEdit line sign t = .ok e) : e.text.length ≤ t.length := by
  unfold readEdit at h
  split at h
  · cases h
  · split at h
    · cases h
    · next text htext =>
      cases h
      exact Percent.length_of_decode htext

theorem size_of_readBody {line : Nat} {rows : List Text} {s : Script}
    (h : readBody line rows = .ok s) : s.size ≤ rows.flatten.length := by
  induction rows generalizing line s with
  | nil =>
      cases h
      exact Nat.le_refl 0
  | cons row rows ih =>
      cases row with
      | nil => exact ih h
      | cons sign t =>
          obtain ⟨e, he, h⟩ := Outcome.bind_eq_ok_iff.mp h
          obtain ⟨es, hes, h⟩ := Outcome.bind_eq_ok_iff.mp h
          cases h
          have hrun := length_of_readEdit he
          have hrest := ih hes
          rw [Script.size_cons, List.flatten_cons, List.length_append, List.length_cons]
          omega

theorem size_of_read {line : Nat} {heading : Text} {body : List Text} {h : Hunk}
    (hr : read line heading body = .ok h) : h.edits.size ≤ body.flatten.length := by
  unfold read at hr
  split at hr
  · cases hr
  · obtain ⟨edits, hedits, hr⟩ := Outcome.bind_eq_ok_iff.mp hr
    change (if _ then _ else _) = _ at hr
    split at hr
    · cases hr
      exact size_of_readBody hedits
    · cases hr

end Hunk

namespace Patch

/-- The number of characters in all runs of all hunks. -/
def size : Patch → Nat
  | [] => 0
  | h :: p => h.edits.size + size p

theorem size_cons (h : Hunk) (p : Patch) : size (h :: p) = h.edits.size + size p := rfl

theorem size_append (p q : Patch) : size (p ++ q) = size p + size q := by
  induction p with
  | nil => exact (Nat.zero_add _).symm
  | cons h p ih => rw [List.cons_append, size_cons, size_cons, ih, Nat.add_assoc]

theorem size_of_readRows {line : Nat} {rows : List Text} {p : Patch}
    (hr : readRows line rows = .ok p) : p.size ≤ rows.flatten.length := by
  fun_induction readRows line rows generalizing p with
  | case1 line =>
      cases hr
      exact Nat.zero_le _
  | case2 line row rest hblank ih =>
      have hle := ih hr
      rw [List.flatten_cons, List.length_append]
      omega
  | case3 line row rest hrow body =>
      rename_i ih
      obtain ⟨h, hh, hr⟩ := Outcome.bind_eq_ok_iff.mp hr
      obtain ⟨q, hq, hr⟩ := Outcome.bind_eq_ok_iff.mp hr
      cases hr
      -- the rows of the body and those after it are the rest
      have hrest : body.flatten.length
          + (rest.dropWhile (!Hunk.opensHunk ·)).flatten.length = rest.flatten.length := by
        rw [← List.length_append, ← List.flatten_append, List.takeWhile_append_dropWhile]
      have hbody := Hunk.size_of_read hh
      have hhunks := ih hq
      rw [size_cons, List.flatten_cons, List.length_append]
      omega

/-- **A patch holds no more than the text it is read from.** -/
theorem size_le_of_parse {t : Text} {p : Patch} (h : parse t = .ok p) : p.size ≤ t.length :=
  Nat.le_trans (size_of_readRows h) (Text.length_flatten_rows t)

theorem size_le_of_mem {p : Patch} {h : Hunk} (hh : h ∈ p) : h.edits.size ≤ p.size := by
  obtain ⟨front, back, rfl⟩ := List.append_of_mem hh
  rw [size_append, size_cons]
  omega

/-- No hunk holds more than the text it is read from. -/
theorem size_of_parse {t : Text} {p : Patch} (h : parse t = .ok p) :
    ∀ g ∈ p, g.edits.size ≤ t.length :=
  fun _ hg => Nat.le_trans (size_le_of_mem hg) (size_le_of_parse h)

end Patch

/-! ## The codec -/

/-- A hunk that can be written and read: its heading tells the lengths of its body, its places are
positions that a text can have, and its runs together are no longer than a text. -/
structure Hunk.Regular (h : Hunk) : Prop where
  oldStart_le : h.oldStart ≤ maxPosition
  newStart_le : h.newStart ≤ maxPosition
  oldLength_eq : h.oldLength = h.edits.source.length
  newLength_eq : h.newLength = h.edits.target.length
  size_lt : h.edits.size < sizeLimit

theorem Hunk.Regular.wellFormed {h : Hunk} (hr : h.Regular) : h.WellFormed := by
  have hsize := hr.size_lt
  have hsource := h.edits.length_source_le
  have htarget := h.edits.length_target_le
  have hold := hr.oldLength_eq
  have hnew := hr.newLength_eq
  rw [sizeLimit_eq] at hsize
  refine ⟨hr.oldStart_le, hr.newStart_le, hold, hnew, ?_, ?_⟩
  · rw [wordLimit_eq]
    omega
  · rw [wordLimit_eq]
    omega

theorem Hunk.WellFormed.regular {h : Hunk} (hw : h.WellFormed) (hsize : h.edits.size < sizeLimit) :
    h.Regular :=
  ⟨hw.oldStart_le, hw.newStart_le, hw.oldLength_eq, hw.newLength_eq, hsize⟩

/-- **The text form of a patch is a faithful codec.** Regular hunks are read back from it as they
were, and what is read from a text, however it is spelled, is made of regular hunks. So a patch
that was read once is read again from its own text form, which does not change any more. -/
theorem Patch.codec_faithful :
    (∀ p : Patch, (∀ h ∈ p, h.Regular) → Patch.parse p.print = .ok p) ∧
      ∀ (t : Text) (p : Patch), t.length < sizeLimit → Patch.parse t = .ok p →
        (∀ h ∈ p, h.Regular) ∧ Patch.parse p.print = .ok p ∧
          (Patch.parse p.print).map Patch.print = .ok p.print := by
  refine ⟨fun p hp => Patch.parse_print fun h hh => (hp h hh).wellFormed, fun t p ht h => ?_⟩
  have hw := Patch.wellFormed_of_parse h
  have hsize := Patch.size_of_parse h
  have hback := Patch.parse_print_of_parse h
  refine ⟨fun g hg => (hw g hg).regular (Nat.lt_of_le_of_lt (hsize g hg) ht), hback, ?_⟩
  rw [hback]
  rfl

/-- All spellings of a range, an empty run, and runs with signs and escapes in them are read back.
A text with a plus sign, zeros in front, blank lines and characters that stand for themselves is
read too; what is in it has another text form. -/
theorem Patch.codec_faithful_spellings :
    let p : Patch :=
      [⟨[⟨.equal, "@\n".toList⟩, ⟨.delete, []⟩, ⟨.insert, "-%é\r".toList⟩], 0, 2, 7, 6⟩,
        ⟨[⟨.delete, "+".toList⟩], maxPosition, 1, maxPosition, 0⟩]
    let t := "\n@@ -+3,003 +0,0 @@\n\n-a%\n-é\n".toList
    let q : Patch := [⟨[⟨.delete, ['a', '%']⟩, ⟨.delete, ['é']⟩], 2, 3, 0, 0⟩]
    (∀ h ∈ p, h.Regular) ∧ Patch.parse p.print = .ok p ∧
      t.length < sizeLimit ∧ Patch.parse t = .ok q ∧
      (∀ h ∈ q, h.Regular) ∧ Patch.parse q.print = .ok q ∧
      q.print = "@@ -3,3 +0,0 @@\n-a%25\n-%C3%A9\n".toList := by
  intro p t q
  have hp : ∀ h ∈ p, h.Regular := by
    simp only [p, List.forall_mem_cons]
    exact ⟨⟨by decide, by decide, rfl, rfl, by decide⟩, ⟨by decide, by decide, rfl, rfl, by decide⟩,
      by simp⟩
  have ht : Patch.parse t = .ok q := by
    have hrows : Text.rows t
        = [[], "@@ -+3,003 +0,0 @@".toList, [], "-a%".toList, "-é".toList, []] := by decide
    have hread : Hunk.read 2 "@@ -+3,003 +0,0 @@".toList [[], "-a%".toList, "-é".toList, []]
        = .ok ⟨[⟨.delete, ['a', '%']⟩, ⟨.delete, ['é']⟩], 2, 3, 0, 0⟩ := rfl
    simp [parse, hrows, readRows, Hunk.opensHunk] at hread ⊢
    rw [hread]
    rfl
  have hlength : t.length < sizeLimit := by decide
  obtain ⟨hq, hback, -⟩ := Patch.codec_faithful.2 t q hlength ht
  exact ⟨hp, Patch.codec_faithful.1 p hp, hlength, ht, hq, hback, by decide⟩

end TextHistory
