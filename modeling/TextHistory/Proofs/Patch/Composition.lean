import TextHistory.Proofs.Patch.WrittenForm

/-!
# Patches one after the other

The texts of two patches can be written one after the other. If the first one ends with its last
line and the second one begins with a heading, what is read is what is read in the first and then
what is read in the second (`Patch.parse_append_eq`): no hunk looks behind the heading of the next
one, and blank rows before it count for nothing. A fault of the second patch stands as many lines
further down as there are newlines in the first (`PatchFault.lower`).

Rows come first, from the rows of a body (`Hunk.readBody_add`) to those of all hunks
(`Patch.readRows_append`). The texts are then cut into rows at the newline between them.
-/

set_option autoImplicit false

namespace TextHistory

open Outcome

/-- The same fault, `n` lines further down. A hunk without a place is in no line. -/
def PatchFault.lower (n : Nat) : PatchFault → PatchFault
  | .malformed line reason => .malformed (line + n) reason
  | .rejected hunk => .rejected hunk

/-! ## Rows further down -/

namespace Hunk

theorem readEdit_add (line n : Nat) (sign : Char) (t : Text) :
    readEdit (line + n) sign t = (readEdit line sign t).mapError (.lower n) := by
  unfold readEdit
  split
  · rfl
  · split <;> rfl

theorem readBody_add (line n : Nat) (body : List Text) :
    readBody (line + n) body = (readBody line body).mapError (.lower n) := by
  fun_induction readBody line body with
  | case1 line => rfl
  | case2 line rest ih =>
      rw [readBody, ← ih]
      rw [show line + n + 1 = line + 1 + n by omega]
  | case3 line sign t rest ih =>
      rw [readBody, readEdit_add, show line + n + 1 = line + 1 + n by omega, ih, mapError_bind]
      refine bind_congr fun e _ => ?_
      rw [mapError_bind]
      rfl

theorem read_add (line n : Nat) (heading : Text) (body : List Text) :
    read (line + n) heading body = (read line heading body).mapError (.lower n) := by
  unfold read
  split
  · rfl
  · rw [show line + n + 1 = line + 1 + n by omega, readBody_add, mapError_bind]
    refine bind_congr fun edits _ => ?_
    dsimp only
    split <;> rfl

/-- A blank row at the end of a body counts for nothing. -/
theorem readBody_blank (line : Nat) (body : List Text) :
    readBody line (body ++ [[]]) = readBody line body := by
  fun_induction readBody line body with
  | case1 line => rfl
  | case2 line rest ih => rw [List.cons_append, readBody, ih]
  | case3 line sign t rest ih => rw [List.cons_append, readBody, ih]

theorem read_blank (line : Nat) (heading : Text) (body : List Text) :
    read line heading (body ++ [[]]) = read line heading body := by
  simp only [read, readBody_blank]

end Hunk

namespace Patch

/-- No row is lost where the body of a hunk ends. -/
theorem length_body_add (rest : List Text) :
    (rest.takeWhile (!Hunk.opensHunk ·)).length + (rest.dropWhile (!Hunk.opensHunk ·)).length
      = rest.length := by
  rw [← List.length_append, List.takeWhile_append_dropWhile]

/-- The rows that begin with a heading: a hunk, and the rows from the next heading on. -/
theorem readRows_heading {row : Text} (hrow : ¬row.isEmpty = true) (line : Nat) (rest : List Text) :
    readRows line (row :: rest) = do
      let h ← Hunk.read line row (rest.takeWhile (!Hunk.opensHunk ·))
      let hs ← readRows (line + 1 + (rest.takeWhile (!Hunk.opensHunk ·)).length)
        (rest.dropWhile (!Hunk.opensHunk ·))
      return h :: hs := by
  rw [readRows, if_neg hrow]

/-- **Rows further down** are read alike, and their faults are further down. -/
theorem readRows_add (line n : Nat) (rows : List Text) :
    readRows (line + n) rows = (readRows line rows).mapError (.lower n) := by
  fun_induction readRows line rows with
  | case1 line =>
      rw [readRows]
      rfl
  | case2 line row rest hblank ih =>
      rw [readRows, if_pos hblank, ← ih, show line + n + 1 = line + 1 + n by omega]
  | case3 line row rest hrow body =>
      rename_i ih
      have hline : line + n + 1 + body.length = line + 1 + body.length + n := by omega
      rw [readRows_heading hrow, Hunk.read_add, mapError_bind]
      refine bind_congr fun h _ => ?_
      rw [mapError_bind, ← ih, ← hline]
      rfl

/-- A blank row at the end counts for nothing. -/
theorem readRows_blank (line : Nat) (rows : List Text) :
    readRows line (rows ++ [[]]) = readRows line rows := by
  fun_induction readRows line rows with
  | case1 line => simp [readRows]
  | case2 line row rest hblank ih =>
      rw [List.cons_append, readRows, if_pos hblank, ih]
  | case3 line row rest hrow body =>
      rename_i ih
      rw [List.cons_append, readRows_heading hrow, List.takeWhile_append, List.dropWhile_append]
      by_cases hlast : rest.dropWhile (!Hunk.opensHunk ·) = []
      · -- no other hunk comes, and the blank row is the last one of the body
        have hbody : rest.takeWhile (!Hunk.opensHunk ·) = rest := by
          refine (List.takeWhile_prefix _).eq_of_length ?_
          rw [← length_body_add rest, hlast]
          rfl
        have hblank : [([] : Text)].takeWhile (!Hunk.opensHunk ·) = [[]] := rfl
        have hnone : [([] : Text)].dropWhile (!Hunk.opensHunk ·) = [] := rfl
        rw [if_pos (by rw [hbody]), if_pos (by rw [hlast]; rfl), hblank, hnone, Hunk.read_blank,
          hlast]
        simp only [body, hbody, readRows]
      · -- the blank row stands behind the heading of another hunk
        have hmore : ¬(rest.takeWhile (!Hunk.opensHunk ·)).length = rest.length := by
          intro hlength
          have hsum := length_body_add rest
          exact hlast (List.length_eq_zero_iff.mp (by omega))
        rw [if_neg hmore, if_neg (by simpa using hlast), ih]

/-- **A heading ends what comes before it.** Rows that begin with one are read after the rows before
them. -/
theorem readRows_append {more : List Text} (hmore : ∀ row ∈ more.head?, Hunk.opensHunk row = true)
    (line : Nat) (rows : List Text) :
    readRows line (rows ++ more) = do
      let p ← readRows line rows
      let q ← readRows (line + rows.length) more
      return p ++ q := by
  have htake : more.takeWhile (!Hunk.opensHunk ·) = [] := by
    cases more with
    | nil => rfl
    | cons row more => simp [hmore row rfl]
  have hdrop : more.dropWhile (!Hunk.opensHunk ·) = more := by
    have hparts := List.takeWhile_append_dropWhile (p := (!Hunk.opensHunk ·)) (l := more)
    rwa [htake] at hparts
  fun_induction readRows line rows with
  | case1 line =>
      rw [List.nil_append, ok_bind]
      cases readRows line more <;> rfl
  | case2 line row rest hblank ih =>
      rw [List.cons_append, readRows, if_pos hblank, ih, List.length_cons]
      rw [show line + 1 + rest.length = line + (rest.length + 1) by omega]
  | case3 line row rest hrow body =>
      rename_i ih
      have hbody : (rest ++ more).takeWhile (!Hunk.opensHunk ·) = body := by
        rw [List.takeWhile_append, htake, List.append_nil]
        split
        · next hlength =>
          exact ((List.takeWhile_prefix _).eq_of_length hlength).symm
        · rfl
      have hothers : (rest ++ more).dropWhile (!Hunk.opensHunk ·)
          = rest.dropWhile (!Hunk.opensHunk ·) ++ more := by
        rw [List.dropWhile_append, hdrop]
        split
        · next hnone => rw [List.isEmpty_iff.mp hnone, List.nil_append]
        · rfl
      have hlines : line + 1 + body.length + (rest.dropWhile (!Hunk.opensHunk ·)).length
          = line + (row :: rest).length := by
        have hsum : body.length + _ = rest.length := length_body_add rest
        rw [List.length_cons]
        omega
      rw [List.cons_append, readRows_heading hrow, hbody, hothers, ih, hlines]
      simp only [bind_assoc, pure_bind, List.cons_append]

end Patch

/-! ## Where faults are -/

namespace Hunk

theorem malformed_of_readEdit {line : Nat} {sign : Char} {t : Text} {fault : PatchFault}
    (h : readEdit line sign t = .error fault) : ∃ reason, fault = .malformed line reason := by
  unfold readEdit at h
  split at h
  · cases h
    exact ⟨_, rfl⟩
  · split at h
    · cases h
      exact ⟨_, rfl⟩
    · cases h

/-- A fault of a body stands in one of its rows. -/
theorem malformed_of_readBody {line : Nat} {body : List Text} {fault : PatchFault}
    (h : readBody line body = .error fault) :
    ∃ n reason, fault = .malformed n reason ∧ line ≤ n ∧ n < line + body.length := by
  fun_induction readBody line body with
  | case1 line => cases h
  | case2 line rest ih =>
      obtain ⟨n, reason, rfl, hlow, hhigh⟩ := ih h
      refine ⟨n, reason, rfl, by omega, ?_⟩
      rw [List.length_cons]
      omega
  | case3 line sign t rest ih =>
      rw [List.length_cons]
      rcases bind_eq_error_iff.mp h with hedit | ⟨e, -, h⟩
      · obtain ⟨reason, rfl⟩ := malformed_of_readEdit hedit
        exact ⟨line, reason, rfl, by omega, by omega⟩
      · rcases bind_eq_error_iff.mp h with hbody | ⟨es, -, h⟩
        · obtain ⟨n, reason, rfl, hlow, hhigh⟩ := ih hbody
          exact ⟨n, reason, rfl, by omega, by omega⟩
        · cases h

/-- A fault of a hunk stands in its heading or in its body. -/
theorem malformed_of_read {line : Nat} {heading : Text} {body : List Text} {fault : PatchFault}
    (h : read line heading body = .error fault) :
    ∃ n reason, fault = .malformed n reason ∧ line ≤ n ∧ n < line + 1 + body.length := by
  unfold read at h
  split at h
  · cases h
    exact ⟨line, _, rfl, by omega, by omega⟩
  · rcases bind_eq_error_iff.mp h with hbody | ⟨edits, -, h⟩
    · obtain ⟨n, reason, rfl, hlow, hhigh⟩ := malformed_of_readBody hbody
      exact ⟨n, reason, rfl, by omega, by omega⟩
    · dsimp only at h
      split at h
      · cases h
      · -- the lengths are those of the heading
        cases h
        exact ⟨line, _, rfl, by omega, by omega⟩

end Hunk

namespace Patch

theorem malformed_of_readRows {line : Nat} {rows : List Text} {fault : PatchFault}
    (h : readRows line rows = .error fault) :
    ∃ n reason, fault = .malformed n reason ∧ line ≤ n ∧ n < line + rows.length := by
  fun_induction readRows line rows with
  | case1 line => cases h
  | case2 line row rest hblank ih =>
      obtain ⟨n, reason, rfl, hlow, hhigh⟩ := ih h
      refine ⟨n, reason, rfl, by omega, ?_⟩
      rw [List.length_cons]
      omega
  | case3 line row rest hrow body =>
      rename_i ih
      have hsum : body.length + _ = rest.length := length_body_add rest
      rw [List.length_cons]
      rcases bind_eq_error_iff.mp h with hread | ⟨g, -, h⟩
      · obtain ⟨n, reason, rfl, hlow, hhigh⟩ := Hunk.malformed_of_read hread
        exact ⟨n, reason, rfl, hlow, by omega⟩
      · rcases bind_eq_error_iff.mp h with hmore | ⟨hs, -, h⟩
        · obtain ⟨n, reason, rfl, hlow, hhigh⟩ := ih hmore
          exact ⟨n, reason, rfl, by omega, by omega⟩
        · cases h

end Patch

/-! ## Texts -/

namespace Text

theorem rows_ne_nil (t : Text) : rows t ≠ [] := by
  cases t with
  | nil => exact List.cons_ne_nil _ _
  | cons c t =>
      unfold rows
      split
      · exact List.cons_ne_nil _ _
      · cases rows t <;> exact List.cons_ne_nil _ _

/-- A newline ends a row, whatever stands in the rows before it. -/
theorem rows_append_newline (s t : Text) : rows (s ++ '\n' :: t) = rows s ++ rows t := by
  induction s with
  | nil => simp [rows]
  | cons c s ih =>
      rw [List.cons_append, rows, rows, ih]
      split
      · rfl
      · obtain ⟨row, rest, hrows⟩ := List.exists_cons_of_ne_nil (rows_ne_nil s)
        rw [hrows]
        rfl

/-- There is one row more than there are newlines. -/
theorem length_rows (t : Text) : (rows t).length = t.count '\n' + 1 := by
  induction t with
  | nil => rfl
  | cons c t ih =>
      obtain ⟨row, rest, hrows⟩ := List.exists_cons_of_ne_nil (rows_ne_nil t)
      rw [rows]
      split
      · next hc => rw [hc, List.length_cons, ih, List.count_cons_self]
      · next hc =>
        rw [List.count_cons_of_ne hc, ← ih, hrows]
        rfl

theorem opensHunk_of_mem_head?_rows {t : Text} (ht : t.head? = some '@') :
    ∀ row ∈ (rows t).head?, Hunk.opensHunk row = true := by
  obtain ⟨t, rfl⟩ := List.head?_eq_some_iff.mp ht
  obtain ⟨first, rest, hrows⟩ := List.exists_cons_of_ne_nil (rows_ne_nil t)
  intro row hrow
  rw [rows, if_neg (by decide), hrows] at hrow
  cases hrow
  rfl

end Text

namespace Patch

/-- **Two texts of patches, one after the other.** -/
theorem parse_append_eq {s t : Text} (hs : s = [] ∨ s.getLast? = some '\n')
    (ht : t = [] ∨ t.head? = some '@') :
    parse (s ++ t) = do
      let p ← parse s
      let q ← (parse t).mapError (.lower (s.count '\n'))
      return p ++ q := by
  have hempty : parse [] = .ok [] := by simp [parse, Text.rows, readRows]
  have hshift : ∀ n, readRows (1 + n) (Text.rows t) = (parse t).mapError (.lower n) :=
    fun n => readRows_add 1 n (Text.rows t)
  rcases ht with rfl | ht
  · have hnone : ∀ n, (parse []).mapError (PatchFault.lower n) = .ok [] := by
      rw [hempty]
      exact fun _ => rfl
    rw [List.append_nil, hnone]
    cases parse s with
    | error fault => rfl
    | ok p =>
        show Except.ok p = Except.ok (p ++ [])
        rw [List.append_nil]
  · rcases hs with rfl | hs
    · rw [hempty, ok_bind, List.count_nil, ← hshift 0]
      show parse t = parse t >>= fun q => .ok q
      cases parse t <;> rfl
    · obtain ⟨s, rfl⟩ := List.getLast?_eq_some_iff.mp hs
      -- the last row of the first text is blank, and is one row of the second when they are joined
      have hfirst : parse (s ++ ['\n']) = readRows 1 (Text.rows s) := by
        rw [parse, Text.rows_append_newline]
        exact readRows_blank 1 (Text.rows s)
      have hlines : (Text.rows s).length = (s ++ ['\n']).count '\n' := by
        rw [Text.length_rows, List.count_append]
        rfl
      rw [hfirst, ← hlines, ← hshift, List.append_assoc, List.singleton_append, parse,
        Text.rows_append_newline, readRows_append (Text.opensHunk_of_mem_head?_rows ht)]

/-- **Reading patches is compositional, line numbers included.** If the first text ends with its
last line and the second one begins with an at sign, a fault of the first is the fault of both
together; otherwise a fault of the second is, as many lines further down as the first one has; and
otherwise the hunks of the first are read, and then those of the second. Whatever is read, a fault
names one of its lines. -/
theorem parse_append {s t : Text} (hs : s = [] ∨ s.getLast? = some '\n')
    (ht : t = [] ∨ t.head? = some '@') :
    (∀ fault, parse s = .error fault → parse (s ++ t) = .error fault) ∧
      (∀ p line reason, parse s = .ok p → parse t = .error (.malformed line reason) →
        parse (s ++ t) = .error (.malformed (line + s.count '\n') reason)) ∧
      (∀ p q, parse s = .ok p → parse t = .ok q → parse (s ++ t) = .ok (p ++ q)) ∧
      ∀ u fault, parse u = .error fault →
        ∃ line reason, fault = .malformed line reason ∧ 1 ≤ line ∧ line ≤ u.count '\n' + 1 := by
  have happend := parse_append_eq hs ht
  refine ⟨fun fault hfault => ?_, fun p line reason hp hfault => ?_, fun p q hp hq => ?_, ?_⟩
  · rw [happend, hfault]
    rfl
  · rw [happend, hp, hfault]
    rfl
  · rw [happend, hp, hq]
    rfl
  · intro u fault hfault
    obtain ⟨line, reason, rfl, hlow, hhigh⟩ := malformed_of_readRows hfault
    rw [Text.length_rows] at hhigh
    exact ⟨line, reason, rfl, hlow, by omega⟩

/-- A hunk and a blank line, and behind them a row of no operation, a hunk whose lengths are wrong,
or a sound hunk. -/
theorem parse_append_faults :
    let s : Text := "@@ -1 +1 @@\n-a\n+b\n\n".toList
    let p : Patch := [⟨[⟨.delete, ['a']⟩, ⟨.insert, ['b']⟩], 0, 1, 0, 1⟩]
    let t : Text := "@@ -3 +3 @@\n\n*c\n".toList
    let v : Text := "@@ -3 +3,2 @@\n c\n".toList
    let w : Text := "@@ -3 +3 @@\n c\n".toList
    (s.getLast? = some '\n' ∧ t.head? = some '@' ∧ v.head? = some '@' ∧ w.head? = some '@') ∧
      parse t = .error (.malformed 3 (.unknownOperation '*')) ∧
      parse (s ++ t) = .error (.malformed 7 (.unknownOperation '*')) ∧
      parse v = .error (.malformed 1 .wrongLengths) ∧
      parse (s ++ v) = .error (.malformed 5 .wrongLengths) ∧
      parse (v ++ s) = .error (.malformed 1 .wrongLengths) ∧
      parse w = .ok [⟨[⟨.equal, ['c']⟩], 2, 1, 2, 1⟩] ∧
      parse (s ++ w) = .ok (p ++ [⟨[⟨.equal, ['c']⟩], 2, 1, 2, 1⟩]) := by
  intro s p t v w
  have hs : parse s = .ok p := by
    simp [s, parse, Text.rows, Text.extendFirst, readRows, Hunk.opensHunk]
    rfl
  have ht : parse t = .error (.malformed 3 (.unknownOperation '*')) := by
    simp [t, parse, Text.rows, Text.extendFirst, readRows, Hunk.opensHunk]
    rfl
  have hv : parse v = .error (.malformed 1 .wrongLengths) := by
    simp [v, parse, Text.rows, Text.extendFirst, readRows, Hunk.opensHunk]
    rfl
  have hw : parse w = .ok [⟨[⟨.equal, ['c']⟩], 2, 1, 2, 1⟩] := by
    simp [w, parse, Text.rows, Text.extendFirst, readRows, Hunk.opensHunk]
    rfl
  have hlast : s.getLast? = some '\n' := by decide
  obtain ⟨-, hbehind, -, -⟩ :=
    parse_append (Or.inr hlast) (Or.inr (show t.head? = some '@' from rfl))
  obtain ⟨-, hbehind', -, -⟩ :=
    parse_append (Or.inr hlast) (Or.inr (show v.head? = some '@' from rfl))
  obtain ⟨hbefore, -, -, -⟩ :=
    parse_append (s := v) (t := s) (Or.inr (by decide)) (Or.inr rfl)
  obtain ⟨-, -, hboth, -⟩ :=
    parse_append (Or.inr hlast) (Or.inr (show w.head? = some '@' from rfl))
  exact ⟨⟨hlast, rfl, rfl, rfl⟩, ht, hbehind p 3 _ hs ht, hv, hbehind' p 1 _ hs hv, hbefore _ hv,
    hw, hboth p _ hs hw⟩

end Patch

end TextHistory
