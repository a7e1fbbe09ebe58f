import TextHistory.Patch.Parser
import TextHistory.Patch.Printer
import TextHistory.Proofs.Outcome
import TextHistory.Proofs.Text.Numeral
import TextHistory.Proofs.Text.Percent

/-!
# The text form of a patch reads back

A hunk is *well formed* when its heading tells the truth about its body and its places are
positions that a text can have (`Hunk.WellFormed`). Such hunks are exactly what reading gives:
the text form of well-formed hunks reads back to them (`Patch.parse_print`), and whatever is read
is well formed (`Patch.wellFormed_of_parse`).

Reading is undone from the inside out: numerals and ranges, the heading, the rows of a body, and
at last the rows of all hunks, where a body ends at the next row with an at sign.
-/

set_option autoImplicit false

namespace TextHistory

/-! ## Cutting a text at a separator -/

namespace Text

theorem stripLead?_append (lead t : Text) : stripLead? lead (lead ++ t) = some t := by
  rw [stripLead?, if_pos (List.isPrefixOf_iff_prefix.mpr (List.prefix_append _ _)),
    List.drop_left]

theorem stripTail?_append (tail t : Text) : stripTail? tail (t ++ tail) = some t := by
  rw [stripTail?, if_pos (List.isSuffixOf_iff_suffix.mpr (List.suffix_append _ _)),
    List.length_append, Nat.add_sub_cancel, List.take_left]

/-- A text is cut at the first separator when no character before it begins one. -/
theorem splitFirst?_append {c : Char} (separator : Text) {a : Text} (ha : c ∉ a) (b : Text) :
    splitFirst? (c :: separator) (a ++ (c :: separator ++ b)) = some (a, b) := by
  induction a with
  | nil =>
      rw [List.nil_append, List.cons_append, splitFirst?, if_pos, ← List.cons_append,
        List.drop_left]
      exact List.isPrefixOf_iff_prefix.mpr ⟨b, rfl⟩
  | cons d a ih =>
      obtain ⟨hd, ha⟩ := not_or.mp (mt List.mem_cons.mpr ha)
      rw [List.cons_append, splitFirst?, if_neg, ih ha]
      · rfl
      · rw [List.isPrefixOf_iff_prefix, List.cons_prefix_cons]
        exact fun h => hd h.1

theorem splitFirst?_eq_none {c : Char} {a : Text} (ha : c ∉ a) : splitFirst? [c] a = none := by
  induction a with
  | nil => rfl
  | cons d a ih =>
      obtain ⟨hd, ha⟩ := not_or.mp (mt List.mem_cons.mpr ha)
      rw [splitFirst?, if_neg, ih ha]
      · rfl
      · rw [List.isPrefixOf_iff_prefix, List.cons_prefix_cons]
        exact fun h => hd h.1

theorem rows_append {a : Text} (ha : '\n' ∉ a) (t : Text) :
    rows (a ++ '\n' :: t) = a :: rows t := by
  induction a with
  | nil => simp [rows]
  | cons c a ih =>
      obtain ⟨hc, ha⟩ := not_or.mp (mt List.mem_cons.mpr ha)
      rw [List.cons_append, rows, if_neg (Ne.symm hc), ih ha]
      rfl

end Text

namespace Hunk

/-! ## Well-formed hunks -/

/-- The heading of a hunk tells the lengths of its body, and its places are positions that a text
can have. -/
structure WellFormed (h : Hunk) : Prop where
  oldStart_le : h.oldStart ≤ maxPosition
  newStart_le : h.newStart ≤ maxPosition
  oldLength_eq : h.oldLength = h.edits.source.length
  newLength_eq : h.newLength = h.edits.target.length
  oldLength_lt : h.oldLength < wordLimit
  newLength_lt : h.newLength < wordLimit

theorem maxPosition_lt : maxPosition + 1 < wordLimit := by decide

/-! ## Headings -/

theorem readStart?_print {n : Nat} (h : n ≤ maxPosition) :
    readStart? (Numeral.print (n + 1)) = some n := by
  have hlt : n + 1 < wordLimit := Nat.lt_of_le_of_lt (Nat.succ_le_succ h) maxPosition_lt
  rw [readStart?, Numeral.readWord_print hlt]
  rfl

theorem comma_not_mem_print (n : Nat) : ',' ∉ Numeral.print n :=
  fun h => Numeral.ne_of_mem_print h (by decide) rfl

/-- The three spellings of a range are read back. -/
theorem readSpelling?_printRange {start length : Nat} (hs : start ≤ maxPosition)
    (hl : length < wordLimit) :
    readSpelling? (printRange start length) = some (start, length) := by
  have hslt : start < wordLimit := Nat.lt_of_le_of_lt hs (by decide)
  rcases length with _ | _ | n
  · have hcut := Text.splitFirst?_append [] (comma_not_mem_print start) ['0']
    simp only [readSpelling?, printRange]
    rw [show [',', '0'] = [','] ++ ['0'] from rfl, hcut]
    simp [Numeral.readWord_print hslt]
  · simp only [readSpelling?, printRange]
    rw [Text.splitFirst?_eq_none (comma_not_mem_print _)]
    simp [readStart?_print hs]
  · have hcut := Text.splitFirst?_append [] (comma_not_mem_print (start + 1))
      (Numeral.print (n + 2))
    simp only [readSpelling?, printRange]
    rw [show ',' :: Numeral.print (n + 2) = [','] ++ Numeral.print (n + 2) from rfl, hcut]
    split
    · next heq => cases heq
    · next a heq =>
      -- a length that prints as a lone zero is zero, which has the first spelling
      have hzero : Numeral.print (n + 2) = ['0'] := congrArg Prod.snd (Option.some.inj heq)
      have hvalue := Numeral.value_print (n + 2)
      rw [hzero] at hvalue
      exact absurd hvalue (by simp [Numeral.value, Numeral.digit])
    · next a b hb heq =>
      obtain ⟨rfl, rfl⟩ := Prod.mk.inj (Option.some.inj heq)
      simp [readStart?_print hs, Numeral.readWord_print hl]

theorem readRange?_printRange {start length : Nat} (hs : start ≤ maxPosition)
    (hl : length < wordLimit) : readRange? (printRange start length) = some (start, length) := by
  rw [readRange?, readSpelling?_printRange hs hl, Option.filter_some, if_pos (by simpa using hs)]

theorem mem_printRange {start length : Nat} {c : Char} (h : c ∈ printRange start length) :
    c.isDigit = true ∨ c = ',' := by
  unfold printRange at h
  split at h
  · rcases List.mem_append.mp h with h | h
    · exact Or.inl (Numeral.isDigit_of_mem_print h)
    · rcases List.mem_cons.mp h with rfl | h
      · exact Or.inr rfl
      · rw [List.mem_singleton.mp h]
        exact Or.inl rfl
  · exact Or.inl (Numeral.isDigit_of_mem_print h)
  · rcases List.mem_append.mp h with h | h
    · exact Or.inl (Numeral.isDigit_of_mem_print h)
    · rcases List.mem_cons.mp h with rfl | h
      · exact Or.inr rfl
      · exact Or.inl (Numeral.isDigit_of_mem_print h)

theorem not_mem_printRange {start length : Nat} {c : Char} (hd : c.isDigit = false)
    (hc : c ≠ ',') : c ∉ printRange start length := by
  intro h
  rcases mem_printRange h with h | h
  · rw [hd] at h
    cases h
  · exact hc h

theorem readHeading?_heading {h : Hunk} (hw : h.WellFormed) :
    readHeading? h.heading
      = some ⟨[], h.oldStart, h.oldLength, h.newStart, h.newLength⟩ := by
  have hsep : ' ' ∉ printRange h.oldStart h.oldLength := not_mem_printRange rfl (by decide)
  have hsplit := Text.splitFirst?_append ['+'] hsep (printRange h.newStart h.newLength)
  have hshape : h.heading = "@@ -".toList
      ++ ((printRange h.oldStart h.oldLength ++ (" +".toList ++ printRange h.newStart h.newLength))
        ++ " @@".toList) := by
    simp only [heading, List.append_assoc]
  rw [readHeading?, hshape, Text.stripLead?_append]
  simp only [Option.bind_eq_bind, Option.bind_some]
  rw [Text.stripTail?_append]
  simp only [Option.bind_some]
  rw [show " +".toList = ' ' :: ['+'] from rfl, hsplit]
  simp [readRange?_printRange hw.oldStart_le hw.oldLength_lt,
    readRange?_printRange hw.newStart_le hw.newLength_lt]

/-! ## Bodies -/

theorem readSign?_sign (k : EditKind) : readSign? k.sign = some k := by
  cases k <;> rfl

theorem readEdit_print (line : Nat) (e : Edit) :
    readEdit line e.kind.sign (Percent.encode e.text) = .ok e := by
  simp [readEdit, readSign?_sign, Percent.decode_encode]

/-- The rows of a body read back, blank rows after them or not. -/
theorem readBody_print (line : Nat) (s : Script) {blanks : List Text}
    (hb : ∀ row ∈ blanks, row = []) : readBody line (s.map printEdit ++ blanks) = .ok s := by
  induction s generalizing line with
  | nil =>
      -- blank rows are passed over
      rw [List.map_nil, List.nil_append]
      induction blanks generalizing line with
      | nil => rfl
      | cons row blanks ih =>
          rw [hb row List.mem_cons_self, readBody]
          exact ih (fun r hr => hb r (List.mem_cons_of_mem _ hr)) _
  | cons e s ih =>
      rw [List.map_cons, List.cons_append, printEdit, readBody, readEdit_print, ih]
      rfl

theorem read_print (line : Nat) {h : Hunk} (hw : h.WellFormed) {blanks : List Text}
    (hb : ∀ row ∈ blanks, row = []) :
    read line h.heading (h.edits.map printEdit ++ blanks) = .ok h := by
  have hm : h.lengthsMatch = true := by
    rw [lengthsMatch, ← hw.oldLength_eq, ← hw.newLength_eq]
    simp
  simp only [read, readHeading?_heading hw, readBody_print _ _ hb]
  exact if_pos hm

/-! ## Rows -/

/-- The rows that a hunk is written in. -/
def rows (h : Hunk) : List Text := h.heading :: h.edits.map printEdit

theorem newline_not_mem_heading (h : Hunk) : '\n' ∉ h.heading := by
  have hold : '\n' ∉ printRange h.oldStart h.oldLength := not_mem_printRange rfl (by decide)
  have hnew : '\n' ∉ printRange h.newStart h.newLength := not_mem_printRange rfl (by decide)
  simp only [heading, List.mem_append, not_or]
  exact ⟨⟨by decide, hold⟩, by decide, hnew, by decide⟩

theorem newline_not_mem_printEdit (e : Edit) : '\n' ∉ printEdit e := by
  refine mt List.mem_cons.mp (not_or.mpr ⟨?_, Percent.newline_not_mem_encode _⟩)
  cases e.kind <;> decide

theorem rows_print (h : Hunk) (t : Text) :
    Text.rows (h.print ++ t) = h.rows ++ Text.rows t := by
  have hbody : ∀ s : Script,
      Text.rows ((s.flatMap fun e => printEdit e ++ ['\n']) ++ t)
        = s.map printEdit ++ Text.rows t := by
    intro s
    induction s with
    | nil => rfl
    | cons e s ih =>
        rw [List.flatMap_cons, List.append_assoc, List.append_assoc, List.singleton_append,
          Text.rows_append (newline_not_mem_printEdit e), ih, List.map_cons, List.cons_append]
  rw [print, List.append_assoc, List.cons_append, Text.rows_append (newline_not_mem_heading h),
    hbody, rows, List.cons_append]

theorem opensHunk_heading (h : Hunk) : opensHunk h.heading = true := rfl

theorem opensHunk_printEdit (e : Edit) : opensHunk (printEdit e) = false := by
  unfold opensHunk printEdit
  cases e.kind <;> rfl

end Hunk

namespace Patch

theorem rows_print (p : Patch) : Text.rows p.print = p.flatMap Hunk.rows ++ [[]] := by
  induction p with
  | nil => rfl
  | cons h p ih =>
      rw [print, List.flatMap_cons, Hunk.rows_print, List.flatMap_cons, List.append_assoc]
      exact congrArg _ ih

/-- What follows the body rows of a hunk: the rows of the hunks after it, and one blank row. The
blank row belongs to the body of the last hunk. -/
theorem cut_at_hunk (p : Patch) :
    ∃ blanks, (∀ row ∈ blanks, row = []) ∧
      (p.flatMap Hunk.rows ++ [[]]).takeWhile (!Hunk.opensHunk ·) = blanks ∧
      (p = [] ∧ (p.flatMap Hunk.rows ++ [[]]).dropWhile (!Hunk.opensHunk ·) = [] ∨
        (p.flatMap Hunk.rows ++ [[]]).dropWhile (!Hunk.opensHunk ·)
          = p.flatMap Hunk.rows ++ [[]]) := by
  cases p with
  | nil => exact ⟨[[]], by simp, rfl, Or.inl ⟨rfl, rfl⟩⟩
  | cons h p =>
      refine ⟨[], by simp, ?_, Or.inr ?_⟩
      · simp [Hunk.rows, Hunk.opensHunk_heading]
      · simp [Hunk.rows, Hunk.opensHunk_heading]

theorem readRows_rows (line : Nat) (p : Patch) (hw : ∀ h ∈ p, h.WellFormed) :
    readRows line (p.flatMap Hunk.rows ++ [[]]) = .ok p := by
  induction p generalizing line with
  | nil => simp [readRows]
  | cons h p ih =>
      have hbody : ∀ row ∈ h.edits.map Hunk.printEdit, (!Hunk.opensHunk row) = true := by
        intro row hrow
        obtain ⟨e, -, rfl⟩ := List.mem_map.mp hrow
        rw [Hunk.opensHunk_printEdit]
        rfl
      obtain ⟨blanks, hblank, htake, hdrop⟩ := cut_at_hunk p
      have hread := Hunk.read_print line (hw h List.mem_cons_self) hblank
      have hrest := fun line => ih line fun h' hh => hw h' (List.mem_cons_of_mem _ hh)
      rw [List.flatMap_cons, Hunk.rows, List.cons_append, List.cons_append, readRows,
        if_neg (by rw [Hunk.heading]; simp), List.append_assoc,
        List.takeWhile_append_of_pos hbody, List.dropWhile_append_of_pos hbody, htake]
      simp only [hread]
      -- the rows end with this hunk, or go on with the heading of the next one
      rcases hdrop with ⟨rfl, hnil⟩ | hcons
      · rw [hnil, readRows]
        rfl
      · rw [hcons, hrest]
        rfl

/-- **A written patch reads back.** -/
theorem parse_print {p : Patch} (hw : ∀ h ∈ p, h.WellFormed) : parse p.print = .ok p := by
  rw [parse, rows_print, readRows_rows 1 p hw]

end Patch

/-! ## What is read is well formed -/

namespace Hunk

theorem readSpelling?_length_lt {t : Text} {start length : Nat}
    (h : readSpelling? t = some (start, length)) : length < wordLimit := by
  unfold readSpelling? at h
  split at h
  · obtain ⟨s, -, hs⟩ := Option.bind_eq_some_iff.mp h
    obtain ⟨-, rfl⟩ := Prod.mk.inj (Option.some.inj hs)
    decide
  · obtain ⟨s, -, hs⟩ := Option.bind_eq_some_iff.mp h
    obtain ⟨-, rfl⟩ := Prod.mk.inj (Option.some.inj hs)
    decide
  · obtain ⟨s, -, hs⟩ := Option.bind_eq_some_iff.mp h
    obtain ⟨l, hl, hpair⟩ := Option.bind_eq_some_iff.mp hs
    obtain ⟨-, rfl⟩ := Prod.mk.inj (Option.some.inj hpair)
    exact Numeral.readWord_lt hl

theorem bounds_of_readRange? {t : Text} {start length : Nat}
    (h : readRange? t = some (start, length)) : start ≤ maxPosition ∧ length < wordLimit := by
  obtain ⟨hs, hle⟩ := Option.filter_eq_some_iff.mp h
  exact ⟨of_decide_eq_true hle, readSpelling?_length_lt hs⟩

theorem bounds_of_readHeading? {row : Text} {h : Hunk} (hr : readHeading? row = some h) :
    h.oldStart ≤ maxPosition ∧ h.newStart ≤ maxPosition ∧ h.oldLength < wordLimit ∧
      h.newLength < wordLimit := by
  obtain ⟨a, -, hr⟩ := Option.bind_eq_some_iff.mp hr
  obtain ⟨b, -, hr⟩ := Option.bind_eq_some_iff.mp hr
  obtain ⟨⟨old, new⟩, -, hr⟩ := Option.bind_eq_some_iff.mp hr
  obtain ⟨⟨oldStart, oldLength⟩, hold, hr⟩ := Option.bind_eq_some_iff.mp hr
  obtain ⟨⟨newStart, newLength⟩, hnew, hr⟩ := Option.bind_eq_some_iff.mp hr
  obtain rfl := Option.some.inj hr
  obtain ⟨h₁, h₂⟩ := bounds_of_readRange? hold
  obtain ⟨h₃, h₄⟩ := bounds_of_readRange? hnew
  exact ⟨h₁, h₃, h₂, h₄⟩

theorem wellFormed_of_read {line : Nat} {heading : Text} {body : List Text} {h : Hunk}
    (hr : read line heading body = .ok h) : h.WellFormed := by
  unfold read at hr
  split at hr
  · cases hr
  · next g hg =>
    obtain ⟨h₁, h₂, h₃, h₄⟩ := bounds_of_readHeading? hg
    obtain ⟨edits, -, hr⟩ := Outcome.bind_eq_ok_iff.mp hr
    -- the lengths are held against the body before the hunk is given
    change (if _ then _ else _) = _ at hr
    split at hr
    · next hm =>
      cases hr
      rw [lengthsMatch, Bool.and_eq_true, beq_iff_eq, beq_iff_eq] at hm
      exact ⟨h₁, h₂, hm.1.symm, hm.2.symm, h₃, h₄⟩
    · cases hr

end Hunk

namespace Patch

theorem wellFormed_of_readRows {line : Nat} {rows : List Text} {p : Patch}
    (hr : readRows line rows = .ok p) : ∀ h ∈ p, h.WellFormed := by
  fun_induction readRows line rows generalizing p with
  | case1 line =>
      cases hr
      simp
  | case2 line row rest hblank ih => exact ih hr
  | case3 line row rest hrow body =>
      rename_i ih
      obtain ⟨h, hh, hr⟩ := Outcome.bind_eq_ok_iff.mp hr
      obtain ⟨q, hq, hr⟩ := Outcome.bind_eq_ok_iff.mp hr
      cases hr
      intro g hg
      rcases List.mem_cons.mp hg with rfl | hg
      · exact Hunk.wellFormed_of_read hh
      · exact ih hq g hg

/-- **What is read is well formed**, however it was spelled. -/
theorem wellFormed_of_parse {t : Text} {p : Patch} (h : parse t = .ok p) :
    ∀ g ∈ p, g.WellFormed :=
  wellFormed_of_readRows h

/-- A patch that was read once is read again from its own text form. -/
theorem parse_print_of_parse {t : Text} {p : Patch} (h : parse t = .ok p) :
    parse p.print = .ok p :=
  parse_print (wellFormed_of_parse h)

end Patch

end TextHistory
