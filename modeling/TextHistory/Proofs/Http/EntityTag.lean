import TextHistory.Http.EntityTag
import TextHistory.Proofs.Text.Percent

/-!
# What a tag tells

The bytes that a tag is made from can be taken apart again. A word is read back from its eight bytes
(`EntityTag.littleEndian_inj`), and the mark in front of a number tells whether there is one. The
digest is written with two digits a byte, so it can be read off the tag. When no two lists of bytes
have the same digest, two versions of a file have the same tag only if they have the same number and
the same text (`EntityTag.of_eq_of_iff`). The length in front of a name tells where it ends, so
versions of any two files have the same bytes only if the names are the same too
(`EntityTag.preimage_unambiguous`). A tag can be sent as a list of tags as it is
(`EntityTag.listed_of_iff`).
-/

set_option autoImplicit false

namespace TextHistory

namespace Utf8

theorem encode_inj {s t : Text} (h : encode s = encode t) : s = t := by
  have hs := decode_encode s
  rw [h, decode_encode] at hs
  exact (Except.ok.inj hs).symm

end Utf8

namespace EntityTag

/-! ## Words -/

/-- The number that some bytes stand for, the lowest first. -/
def ofBytes : List UInt8 → Nat
  | [] => 0
  | b :: rest => b.toNat + 256 * ofBytes rest

/-- The lowest bytes of a number stand for what they hold of it. -/
theorem ofBytes_range (n k : Nat) :
    ofBytes ((List.range k).map fun i => UInt8.ofNat (n / Nat.pow 256 i))
      = n % Nat.pow 256 k := by
  induction k generalizing n with
  | zero => exact (Nat.mod_one n).symm
  | succ k ih =>
      have hshift : (fun i => UInt8.ofNat (n / Nat.pow 256 i)) ∘ Nat.succ
          = fun i => UInt8.ofNat (n / 256 / Nat.pow 256 i) := by
        funext i
        show UInt8.ofNat (n / Nat.pow 256 (i + 1)) = UInt8.ofNat (n / 256 / Nat.pow 256 i)
        rw [Nat.div_div_eq_div_mul]
        exact congrArg (fun m => UInt8.ofNat (n / m)) Nat.pow_succ'
      have hlowest : (UInt8.ofNat (n / Nat.pow 256 0)).toNat = n % 256 := by simp
      rw [List.range_succ_eq_map, List.map_cons, List.map_map, ofBytes, hshift, ih, hlowest]
      calc n % 256 + 256 * (n / 256 % Nat.pow 256 k)
          = n % (256 * Nat.pow 256 k) := Nat.mod_mul.symm
        _ = n % Nat.pow 256 (k + 1) := congrArg (n % ·) Nat.pow_succ'.symm

theorem littleEndian_inj {m n : Nat} (hm : m < wordLimit) (hn : n < wordLimit)
    (h : littleEndian m = littleEndian n) : m = n := by
  have hvalue : m % Nat.pow 256 8 = n % Nat.pow 256 8 := by
    rw [← ofBytes_range, ← ofBytes_range]
    exact congrArg ofBytes h
  calc m = m % Nat.pow 256 8 := (Nat.mod_eq_of_lt hm).symm
    _ = n % Nat.pow 256 8 := hvalue
    _ = n := Nat.mod_eq_of_lt hn

theorem length_littleEndian (n : Nat) : (littleEndian n).length = 8 := by
  rw [littleEndian, List.length_map, List.length_range]

/-- The mark tells where a number ends and what comes after it begins. -/
theorem versionBytes_append_inj {v w : Option Nat} (hv : ∀ n, v = some n → n < wordLimit)
    (hw : ∀ n, w = some n → n < wordLimit) {s t : List UInt8}
    (h : versionBytes v ++ s = versionBytes w ++ t) : v = w ∧ s = t := by
  cases v with
  | none =>
      cases w with
      | none => exact ⟨rfl, (List.cons.inj h).2⟩
      | some n => exact absurd (List.cons.inj h).1 (by decide)
  | some m =>
      cases w with
      | none => exact absurd (List.cons.inj h).1 (by decide)
      | some n =>
          obtain ⟨hnumber, hrest⟩ := List.append_inj (List.cons.inj h).2
            ((length_littleEndian m).trans (length_littleEndian n).symm)
          rw [littleEndian_inj (hv m rfl) (hw n rfl) hnumber]
          exact ⟨rfl, hrest⟩

/-! ## Digits -/

theorem digitChar_inj {m n : Nat} (hm : m < 16) (hn : n < 16)
    (h : Nat.digitChar m = Nat.digitChar n) : m = n := by
  have hall : ∀ m < 16, ∀ n < 16, Nat.digitChar m = Nat.digitChar n → m = n := by decide
  exact hall m hm n hn h

theorem hexByte_inj {b c : UInt8} (h : hexByte b = hexByte c) : b = c := by
  obtain ⟨hhigh, hrest⟩ := List.cons.inj h
  have hlow := (List.cons.inj hrest).1
  have hb := b.toNat_lt
  have hc := c.toNat_lt
  have hquotient := digitChar_inj (by omega) (by omega) hhigh
  have hremainder := digitChar_inj (by omega) (by omega) hlow
  rw [← UInt8.toNat_inj]
  omega

/-- Bytes are read off their digits. -/
theorem hexBytes_inj {bs cs : List UInt8} (h : bs.flatMap hexByte = cs.flatMap hexByte) :
    bs = cs := by
  induction bs generalizing cs with
  | nil =>
      cases cs with
      | nil => rfl
      | cons c cs => cases h
  | cons b bs ih =>
      cases cs with
      | nil => cases h
      | cons c cs =>
          rw [List.flatMap_cons, List.flatMap_cons] at h
          obtain ⟨hhead, hrest⟩ := List.append_inj h rfl
          rw [hexByte_inj hhead, ih hrest]

/-! ## Tags -/

/-- The digest is read off the tag. -/
theorem of_eq_iff_hash {hash : Hash} {name name' : Text} {v w : Option Nat} {s t : Text} :
    of hash name v s = of hash name' w t ↔
      hash (preimage name v s) = hash (preimage name' w t) := by
  constructor
  · intro h
    exact hexBytes_inj (List.append_cancel_right (List.cons.inj h).2)
  · intro h
    rw [of, of, h]

/-- **A tag tells the number and the text** of a version of a file. -/
theorem of_eq_of_iff {hash : Hash} (hhash : Function.Injective hash) (name : Text)
    {v w : Option Nat} (hv : ∀ n, v = some n → n < wordLimit)
    (hw : ∀ n, w = some n → n < wordLimit) (s t : Text) :
    of hash name v s = of hash name w t ↔ v = w ∧ s = t := by
  constructor
  · intro h
    have hbytes : preimage name v s = preimage name w t := hhash (of_eq_iff_hash.mp h)
    simp only [preimage, List.append_assoc] at hbytes
    have hbody := List.append_cancel_left (List.append_cancel_left hbytes)
    obtain ⟨hversion, htext⟩ := versionBytes_append_inj hv hw hbody
    exact ⟨hversion, Utf8.encode_inj htext⟩
  · rintro ⟨rfl, rfl⟩
    rfl

/-! ## Tags of several files -/

/-- The bytes are divided in one way only: the length comes first, and then the name, which is so
long, the number behind its mark, and the text. -/
theorem preimage_inj {name name' : Text} {v w : Option Nat} {s t : Text}
    (hname : (Utf8.encode name).length < wordLimit)
    (hname' : (Utf8.encode name').length < wordLimit) (hv : ∀ n, v = some n → n < wordLimit)
    (hw : ∀ n, w = some n → n < wordLimit) (h : preimage name v s = preimage name' w t) :
    name = name' ∧ v = w ∧ s = t := by
  simp only [preimage, List.append_assoc] at h
  obtain ⟨hlength, hrest⟩ := List.append_inj h
    ((length_littleEndian _).trans (length_littleEndian _).symm)
  obtain ⟨hbytes, hbody⟩ := List.append_inj hrest (littleEndian_inj hname hname' hlength)
  obtain ⟨hversion, htext⟩ := versionBytes_append_inj hv hw hbody
  exact ⟨Utf8.encode_inj hbytes, hversion, Utf8.encode_inj htext⟩

/-- **A tag tells the file, the number and the text.** The bytes that are digested are the same for
two versions only if all three are. So are the tags, unless these bytes collide. -/
theorem preimage_unambiguous {name name' : Text} {v w : Option Nat}
    (hname : (Utf8.encode name).length < wordLimit)
    (hname' : (Utf8.encode name').length < wordLimit) (hv : ∀ n, v = some n → n < wordLimit)
    (hw : ∀ n, w = some n → n < wordLimit) (s t : Text) :
    (preimage name v s = preimage name' w t ↔ name = name' ∧ v = w ∧ s = t) ∧
      ∀ hash : Hash,
        (hash (preimage name v s) = hash (preimage name' w t) →
          preimage name v s = preimage name' w t) →
        (of hash name v s = of hash name' w t ↔ name = name' ∧ v = w ∧ s = t) := by
  have hbytes : preimage name v s = preimage name' w t ↔ name = name' ∧ v = w ∧ s = t := by
    constructor
    · exact preimage_inj hname hname' hv hw
    · rintro ⟨rfl, rfl, rfl⟩
      rfl
  refine ⟨hbytes, fun hash hcollide => ?_⟩
  rw [of_eq_iff_hash, ← hbytes]
  exact ⟨hcollide, congrArg hash⟩

/-- A name that goes on like the mark and the number of another one. Behind the lengths of the names
the bytes are the same. -/
theorem preimage_unambiguous_run_together :
    let name := ['a']
    let name' := 'a' :: '\x01' :: List.replicate 7 '\x00'
    let s := ['b']
    let hash := Sha256.digest
    ((Utf8.encode name).length < wordLimit ∧ (Utf8.encode name').length < wordLimit ∧
      (∀ n, some 0 = some n → n < wordLimit) ∧
      (hash (preimage name (some 0) s) = hash (preimage name' none s) →
        preimage name (some 0) s = preimage name' none s)) ∧
      (preimage name (some 0) s).drop 8 = (preimage name' none s).drop 8 ∧
      preimage name (some 0) s ≠ preimage name' none s ∧
      of hash name (some 0) s ≠ of hash name' none s := by
  intro name name' s hash
  have hname : (Utf8.encode name).length < wordLimit := by decide
  have hname' : (Utf8.encode name').length < wordLimit := by decide
  have hnumber : ∀ n, some 0 = some n → n < wordLimit := by
    rintro n ⟨⟩
    decide
  have hdigests : hash (preimage name (some 0) s) ≠ hash (preimage name' none s) := by
    decide +kernel
  have hcollide : hash (preimage name (some 0) s) = hash (preimage name' none s) →
      preimage name (some 0) s = preimage name' none s := fun h => absurd h hdigests
  obtain ⟨hbytes, htags⟩ := preimage_unambiguous hname hname' hnumber (w := none) (by simp) s s
  have hdiffer : ¬(name = name' ∧ some 0 = none ∧ s = s) := by simp
  exact ⟨⟨hname, hname', hnumber, hcollide⟩, by decide, mt hbytes.mp hdiffer,
    mt (htags hash hcollide).mp hdiffer⟩

/-! ## A list of one tag -/

theorem ne_comma_of_mem_hexByte {b : UInt8} {c : Char} (h : c ∈ hexByte b) : c ≠ ',' := by
  have hdigit : ∀ n < 16, Nat.digitChar n ≠ ',' := by decide
  have hb := b.toNat_lt
  simp only [hexByte, List.mem_cons, List.not_mem_nil, or_false] at h
  rcases h with rfl | rfl
  · exact hdigit _ (by omega)
  · exact hdigit _ (by omega)

theorem comma_not_mem_of (hash : Hash) (name : Text) (v : Option Nat) (t : Text) :
    ',' ∉ of hash name v t := by
  intro h
  simp only [of, List.mem_append, List.mem_cons, List.mem_flatMap, List.not_mem_nil,
    or_false] at h
  rcases h with (h | ⟨b, -, h⟩) | h
  · exact absurd h (by decide)
  · exact ne_comma_of_mem_hexByte h rfl
  · exact absurd h (by decide)

/-- The quotes of a tag are not blank, so nothing is trimmed. -/
theorem trim_of (hash : Hash) (name : Text) (v : Option Nat) (t : Text) :
    Text.trim (of hash name v t) = of hash name v t := by
  have hquote : ¬Text.isBlank '"' = true := by decide
  rw [Text.trim, of, List.cons_append, List.dropWhile_cons_of_neg hquote, ← List.cons_append,
    List.reverse_append, List.reverse_singleton, List.singleton_append,
    List.dropWhile_cons_of_neg hquote, List.reverse_cons, List.reverse_reverse]

/-- A tag alone, taken as a list, holds itself and no other tag. -/
theorem listed_of_iff (tag : Text) (hash : Hash) (name : Text) (v : Option Nat) (t : Text) :
    listed tag (of hash name v t) = true ↔ of hash name v t = tag := by
  have hstar : of hash name v t ≠ ['*'] := by
    intro h
    exact absurd (List.cons.inj h).1 (by decide)
  rw [listed, List.splitOn_eq_singleton (comma_not_mem_of hash name v t)]
  simp [trim_of, hstar]

end EntityTag

end TextHistory
