import Mathlib.Data.List.Basic

/-!
# `Lib.Utf8` — character strings seen through their UTF-8 bytes

A string is a list of Unicode scalar values (`Text`); `bytes` is its UTF-8 encoding, computed by the
core `String.utf8EncodeChar`. Byte-indexed programs address such a string by *offsets*; the offsets that
fall between two characters are the only ones a slice may use.

## Contents
- **Slicing.** `slice s i j` is the part of `s` between two byte offsets, and is `none` exactly where a
  checked slice faults (out of range, reversed, or inside a character).
- **Cursors.** A *cursor* is a split `s = pre ++ c :: post` read at offset `byteLen pre`: the byte there
  is the lead byte of `c` (`bytes_getElem?_cursor`) and the slice over `c` is `[c]` (`slice_cursor`).
- **Windows.** `window n s` is the characters that begin in the first `n` bytes, `dropWindow n s` the rest.
- **Decoding.** `fromUtf8?` (strict) and `fromUtf8Lossy` (one `U+FFFD` for each maximal invalid part),
  which agree wherever the strict one succeeds (`fromUtf8Lossy_eq`).
-/

namespace Utf8

/-- A string as its sequence of Unicode scalar values. -/
abbrev Text := List Char

/-- The UTF-8 encoding of a string. -/
def bytes (s : Text) : List UInt8 := s.flatMap String.utf8EncodeChar

/-- The length of a string in bytes. -/
def byteLen : Text → Nat
  | []     => 0
  | c :: s => c.utf8Size + byteLen s

@[simp] theorem bytes_nil : bytes [] = [] := rfl
@[simp] theorem bytes_cons (c : Char) (s : Text) :
    bytes (c :: s) = String.utf8EncodeChar c ++ bytes s := rfl
@[simp] theorem bytes_append (s t : Text) : bytes (s ++ t) = bytes s ++ bytes t :=
  List.flatMap_append

theorem bytes_eq_nil_iff {s : Text} : bytes s = [] ↔ s = [] := by
  cases s with
  | nil => simp
  | cons c s =>
      have hpos := Char.utf8Size_pos c
      have hlen := String.length_utf8EncodeChar c
      simp only [bytes_cons, List.append_eq_nil_iff, reduceCtorEq, iff_false, not_and]
      intro hnil
      rw [hnil] at hlen
      exact absurd hlen (by simp; omega)

@[simp] theorem byteLen_nil : byteLen [] = 0 := rfl
@[simp] theorem byteLen_cons (c : Char) (s : Text) : byteLen (c :: s) = c.utf8Size + byteLen s := rfl
@[simp] theorem byteLen_append (s t : Text) : byteLen (s ++ t) = byteLen s + byteLen t := by
  induction s with
  | nil => simp
  | cons c s ih => rw [List.cons_append, byteLen_cons, byteLen_cons, ih, Nat.add_assoc]

@[simp] theorem length_bytes (s : Text) : (bytes s).length = byteLen s := by
  induction s with
  | nil => rfl
  | cons c s ih => simp [ih]

theorem length_le_byteLen (s : Text) : s.length ≤ byteLen s := by
  induction s with
  | nil => simp
  | cons c s ih =>
      have := c.utf8Size_pos
      simp only [List.length_cons, byteLen_cons]
      omega

/-- Leaving characters out takes bytes away. -/
theorem byteLen_le_of_sublist {s t : Text} (h : s.Sublist t) : byteLen s ≤ byteLen t := by
  induction h with
  | slnil => exact Nat.le_refl 0
  | cons c _ ih => exact Nat.le_trans ih (Nat.le_add_left _ _)
  | cons_cons c _ ih => exact Nat.add_le_add_left ih _

theorem count_le_byteLen (c : Char) (s : Text) : s.count c ≤ byteLen s :=
  Nat.le_trans List.count_le_length (length_le_byteLen s)

/-! ## Slicing between byte offsets -/

/-- Drop the first `n` bytes; `none` when `n` is past the end or inside a character. -/
def dropBytes : Nat → Text → Option Text
  | 0,   s      => some s
  | _+1, []     => none
  | n+1, c :: s => if c.utf8Size ≤ n + 1 then dropBytes (n + 1 - c.utf8Size) s else none

/-- Keep the first `n` bytes; `none` when `n` is past the end or inside a character. -/
def takeBytes : Nat → Text → Option Text
  | 0,   _      => some []
  | _+1, []     => none
  | n+1, c :: s =>
      if c.utf8Size ≤ n + 1 then (takeBytes (n + 1 - c.utf8Size) s).map (c :: ·) else none

/-- The slice `s[i..j]` of a string at byte offsets; `none` is the fault. -/
def slice (s : Text) (i j : Nat) : Option Text :=
  if i ≤ j then (dropBytes i s).bind (takeBytes (j - i)) else none

theorem dropBytes_append (pre post : Text) : dropBytes (byteLen pre) (pre ++ post) = some post := by
  induction pre with
  | nil => simp [dropBytes]
  | cons c pre ih =>
      obtain ⟨k, hk⟩ : ∃ k, byteLen (c :: pre) = k + 1 :=
        ⟨byteLen (c :: pre) - 1, by have := c.utf8Size_pos; simp only [byteLen_cons]; omega⟩
      have hle : c.utf8Size ≤ k + 1 := by rw [← hk]; simp
      have hsub : k + 1 - c.utf8Size = byteLen pre := by rw [← hk]; simp
      rw [hk, List.cons_append, dropBytes, if_pos hle, hsub, ih]

theorem takeBytes_append (pre post : Text) : takeBytes (byteLen pre) (pre ++ post) = some pre := by
  induction pre with
  | nil => simp [takeBytes]
  | cons c pre ih =>
      obtain ⟨k, hk⟩ : ∃ k, byteLen (c :: pre) = k + 1 :=
        ⟨byteLen (c :: pre) - 1, by have := c.utf8Size_pos; simp only [byteLen_cons]; omega⟩
      have hle : c.utf8Size ≤ k + 1 := by rw [← hk]; simp
      have hsub : k + 1 - c.utf8Size = byteLen pre := by rw [← hk]; simp
      rw [hk, List.cons_append, takeBytes, if_pos hle, hsub, ih]
      rfl

/-- **A slice between two boundaries** is the text that lies there. -/
theorem slice_append (pre m post : Text) :
    slice (pre ++ (m ++ post)) (byteLen pre) (byteLen pre + byteLen m) = some m := by
  simp [slice, dropBytes_append, takeBytes_append]

theorem takeBytes_length {n : Nat} {s t : Text} (h : takeBytes n s = some t) : n ≤ byteLen s := by
  induction s generalizing n t with
  | nil =>
      cases n with
      | zero => simp
      | succ n => simp [takeBytes] at h
  | cons c s ih =>
      cases n with
      | zero => simp
      | succ n =>
          rw [takeBytes] at h
          split at h
          · obtain ⟨u, hu, -⟩ := Option.map_eq_some_iff.mp h
            have := ih hu
            simp only [byteLen_cons]
            omega
          · simp at h

theorem dropBytes_length {n : Nat} {s t : Text} (h : dropBytes n s = some t) :
    n + byteLen t = byteLen s := by
  induction s generalizing n t with
  | nil =>
      cases n with
      | zero => simp only [dropBytes, Option.some.injEq] at h; subst h; simp
      | succ n => simp [dropBytes] at h
  | cons c s ih =>
      cases n with
      | zero => simp only [dropBytes, Option.some.injEq] at h; subst h; simp
      | succ n =>
          rw [dropBytes] at h
          split at h
          · have := ih h
            simp only [byteLen_cons]
            omega
          · simp at h

/-- A slice that does not fault ends inside the string. -/
theorem slice_le {s t : Text} {i j : Nat} (h : slice s i j = some t) : j ≤ byteLen s := by
  unfold slice at h
  split at h
  · obtain ⟨u, hu, ht⟩ := Option.bind_eq_some_iff.mp h
    have h1 := dropBytes_length hu
    have h2 := takeBytes_length ht
    omega
  · simp at h

/-! ## Cursors: reading a string at the offset of one of its characters -/

/-- The first byte of a character's encoding. -/
def lead (c : Char) : UInt8 := (String.utf8EncodeChar c).headD 0

theorem bytes_getElem?_cursor (pre : Text) (c : Char) (post : Text) :
    (bytes (pre ++ c :: post))[byteLen pre]? = some (lead c) := by
  rw [bytes_append, List.getElem?_append_right (by simp), length_bytes, Nat.sub_self, bytes_cons]
  cases h : String.utf8EncodeChar c with
  | nil => exact absurd h String.utf8EncodeChar_ne_nil
  | cons b bs => simp [lead, h]

theorem slice_cursor (pre : Text) (c : Char) (post : Text) :
    slice (pre ++ c :: post) (byteLen pre) (byteLen pre + c.utf8Size) = some [c] := by
  simpa using slice_append pre [c] post

/-- A character is encoded in one byte exactly when it is ASCII. -/
theorem utf8Size_eq_one_iff_toNat (c : Char) : c.utf8Size = 1 ↔ c.toNat < 128 := by
  rw [Char.utf8Size_eq_one_iff, UInt32.le_iff_toNat_le]
  show c.toNat ≤ 127 ↔ _
  omega

/-- Scalar values end at `U+10FFFF`. -/
theorem toNat_lt_max (c : Char) : c.toNat < 0x110000 := by
  rcases c.valid with h | ⟨-, h⟩
  · exact Nat.lt_trans h (by decide)
  · exact h

theorem lead_toNat (c : Char) :
    (lead c).toNat =
      if c.toNat < 0x80 then c.toNat
      else if c.toNat < 0x800 then c.toNat / 64 + 0xc0
      else if c.toNat < 0x10000 then c.toNat / 4096 + 0xe0
      else c.toNat / 262144 + 0xf0 := by
  have hmax := toNat_lt_max c
  have hv : c.val.toNat = c.toNat := rfl
  unfold lead String.utf8EncodeChar
  simp only [hv]
  repeat' split
  all_goals
    simp only [List.headD_cons, UInt8.toNat_ofNat']
    omega

theorem utf8Size_eq_ite (c : Char) :
    c.utf8Size = if c.toNat < 0x80 then 1 else if c.toNat < 0x800 then 2
      else if c.toNat < 0x10000 then 3 else 4 := by
  have h (n : UInt32) : c.val ≤ n ↔ c.toNat ≤ n.toNat := UInt32.le_iff_toNat_le
  unfold Char.utf8Size
  simp only [h]
  change (if c.toNat ≤ 127 then 1 else if c.toNat ≤ 2047 then 2 else if c.toNat ≤ 65535 then 3 else 4) = _
  repeat' split
  all_goals omega

/-- An ASCII lead byte is the character itself. -/
theorem lead_lt_iff (c : Char) : (lead c).toNat < 0x80 ↔ c.toNat < 0x80 := by
  rw [lead_toNat]
  repeat' split
  all_goals omega

theorem ofNat_lead {c : Char} (h : c.toNat < 0x80) : Char.ofNat (lead c).toNat = c := by
  rw [lead_toNat, if_pos h, Char.ofNat_toNat]

/-- An ASCII lead byte belongs to no other character. -/
theorem lead_eq_ofNat_iff {c : Char} {n : Nat} (hn : n < 0x80) : lead c = UInt8.ofNat n ↔ c = Char.ofNat n := by
  constructor
  · intro h
    have hlead : (lead c).toNat = n := by rw [h, UInt8.toNat_ofNat']; omega
    have hascii : c.toNat < 0x80 := (lead_lt_iff c).mp (by omega)
    rw [← ofNat_lead hascii, hlead]
  · intro h
    have hc : c.toNat = n := by
      have hvalid : n.isValidChar := Or.inl (by omega)
      rw [h, Char.ofNat, dif_pos hvalid]
      rfl
    apply UInt8.toNat_inj.mp
    rw [lead_toNat, if_pos (by omega), UInt8.toNat_ofNat', hc]
    omega

/-- Every byte of a character that is not ASCII has its high bit set. -/
theorem le_of_mem_utf8EncodeChar {c : Char} {b : UInt8} (h : ¬ c.toNat < 0x80)
    (hb : b ∈ String.utf8EncodeChar c) : 0x80 ≤ b.toNat := by
  have hv : c.val.toNat = c.toNat := rfl
  -- a marker `n` with room for the payload below it, as in all bytes of a longer encoding
  have hbyte {m k n : Nat} (hk : 0 < k) (hn : 0x80 ≤ n) (hroom : n + k ≤ 256) :
      0x80 ≤ (UInt8.ofNat (m % k + n)).toNat := by
    have hlt := Nat.mod_lt m hk
    rw [UInt8.toNat_ofNat']
    omega
  unfold String.utf8EncodeChar at hb
  simp only [hv] at hb
  split at hb
  · omega
  repeat' split at hb
  all_goals
    simp only [List.mem_cons, List.not_mem_nil, or_false] at hb
    casesm* _ ∨ _
    all_goals
      subst hb
      exact hbyte (by decide) (by decide) (by decide)

/-- An ASCII byte is in an encoding only as the character it encodes. -/
theorem mem_bytes_ofNat_iff {n : Nat} (hn : n < 0x80) {s : Text} : UInt8.ofNat n ∈ bytes s ↔ Char.ofNat n ∈ s := by
  have hchar (c : Char) : UInt8.ofNat n ∈ String.utf8EncodeChar c ↔ Char.ofNat n = c := by
    rw [eq_comm, ← lead_eq_ofNat_iff hn]
    by_cases hc : c.toNat < 0x80
    · obtain ⟨b, hb⟩ := List.length_eq_one_iff.mp
        ((String.length_utf8EncodeChar c).trans ((utf8Size_eq_one_iff_toNat c).mpr hc))
      rw [lead, hb, List.mem_singleton, List.headD_cons, eq_comm]
    · constructor
      · intro hmem
        have hge := le_of_mem_utf8EncodeChar hc hmem
        rw [UInt8.toNat_ofNat'] at hge
        omega
      · intro hlead
        have hge := mt (lead_lt_iff c).mp hc
        rw [hlead, UInt8.toNat_ofNat'] at hge
        omega
  simp only [bytes, List.mem_flatMap, hchar, exists_eq_right']

/-! ## Windows: the characters that begin in the next `n` bytes -/

/-- The characters that begin in the first `n` bytes. The last one may end outside them. -/
def window : Nat → Text → Text
  | 0,   _      => []
  | _+1, []     => []
  | n+1, c :: s => c :: window (n + 1 - c.utf8Size) s

/-- What follows the window. -/
def dropWindow : Nat → Text → Text
  | 0,   s      => s
  | _+1, []     => []
  | n+1, c :: s => dropWindow (n + 1 - c.utf8Size) s

@[simp] theorem window_zero (s : Text) : window 0 s = [] := by cases s <;> rfl
@[simp] theorem window_nil (n : Nat) : window n [] = [] := by cases n <;> rfl
@[simp] theorem dropWindow_zero (s : Text) : dropWindow 0 s = s := by cases s <;> rfl
@[simp] theorem dropWindow_nil (n : Nat) : dropWindow n [] = [] := by cases n <;> rfl

theorem window_append_dropWindow (n : Nat) (s : Text) : window n s ++ dropWindow n s = s := by
  induction s generalizing n with
  | nil => simp
  | cons c s ih =>
      cases n with
      | zero => simp
      | succ n => rw [window, dropWindow, List.cons_append, ih]

theorem byteLen_window_add (n : Nat) (s : Text) : byteLen (window n s) + byteLen (dropWindow n s) = byteLen s := by
  rw [← byteLen_append, window_append_dropWindow]

/-- A window takes at least its bytes, as long as there are any. -/
theorem le_byteLen_window {n : Nat} {s : Text} (h : n ≤ byteLen s) : n ≤ byteLen (window n s) := by
  induction s generalizing n with
  | nil => simpa using h
  | cons c s ih =>
      cases n with
      | zero => omega
      | succ n =>
          rw [byteLen_cons] at h
          have hrest := ih (n := n + 1 - c.utf8Size) (by omega)
          rw [window, byteLen_cons]
          omega

/-- A window that reaches the end of the string leaves nothing. -/
theorem dropWindow_eq_nil {n : Nat} {s : Text} (h : byteLen s ≤ n) : dropWindow n s = [] := by
  induction s generalizing n with
  | nil => simp
  | cons c s ih =>
      have hpos := c.utf8Size_pos
      rw [byteLen_cons] at h
      cases n with
      | zero => omega
      | succ n =>
          rw [dropWindow]
          exact ih (by omega)

theorem window_eq_self {n : Nat} {s : Text} (h : byteLen s ≤ n) : window n s = s := by
  have happ := window_append_dropWindow n s
  rwa [dropWindow_eq_nil h, List.append_nil] at happ

/-- A string of ASCII characters has one byte for each. -/
theorem byteLen_ascii {s : Text} (h : ∀ c ∈ s, c.toNat < 0x80) : byteLen s = s.length := by
  induction s with
  | nil => rfl
  | cons c s ih =>
      have hc := (utf8Size_eq_one_iff_toNat c).mpr (h c List.mem_cons_self)
      rw [byteLen_cons, List.length_cons, hc, ih fun d hd => h d (List.mem_cons_of_mem c hd), Nat.add_comm]

/-- ASCII text has one byte for each character. -/
theorem bytes_ascii {s : Text} (h : ∀ c ∈ s, c.toNat < 0x80) : bytes s = s.map lead := by
  induction s with
  | nil => rfl
  | cons c s ih =>
      have hc := (utf8Size_eq_one_iff_toNat c).mpr (h c List.mem_cons_self)
      have hs := ih fun d hd => h d (List.mem_cons_of_mem c hd)
      obtain ⟨b, hb⟩ := List.length_eq_one_iff.mp ((String.length_utf8EncodeChar c).trans hc)
      rw [bytes_cons, List.map_cons, hs, lead, hb]
      rfl

/-- The window over ASCII characters is these. -/
theorem dropWindow_ascii {s : Text} (h : ∀ c ∈ s, c.toNat < 0x80) (t : Text) :
    dropWindow s.length (s ++ t) = t := by
  induction s with
  | nil => simp
  | cons c s ih =>
      have hc := (utf8Size_eq_one_iff_toNat c).mpr (h c List.mem_cons_self)
      rw [List.length_cons, List.cons_append, dropWindow, hc, Nat.add_sub_cancel]
      exact ih fun d hd => h d (List.mem_cons_of_mem c hd)

/-- The byte at an index inside the encoding of an ASCII string. -/
theorem bytes_getElem?_ascii {s : Text} (h : ∀ c ∈ s, c.toNat < 0x80) (t : Text) {j : Nat} (hj : j < s.length) :
    (bytes (s ++ t))[j]? = some (lead s[j]) := by
  have hsplit : s ++ t = s.take j ++ s[j] :: (s.drop (j + 1) ++ t) := by
    rw [← List.cons_append, ← List.drop_eq_getElem_cons hj, ← List.append_assoc, List.take_append_drop]
  have hlen : byteLen (s.take j) = j := by
    rw [byteLen_ascii fun c hc => h c (List.mem_of_mem_take hc), List.length_take]
    omega
  have hcur := bytes_getElem?_cursor (s.take j) s[j] (s.drop (j + 1) ++ t)
  rw [hlen, ← hsplit] at hcur
  exact hcur

/-- A string whose first `n` bytes are ASCII starts with `n` ASCII characters. -/
theorem exists_ascii_prefix {n : Nat} {s : Text} (h : ∀ j < n, ∃ b, (bytes s)[j]? = some b ∧ b < 0x80) :
    ∃ p t, s = p ++ t ∧ p.length = n ∧ ∀ c ∈ p, c.toNat < 0x80 := by
  induction n generalizing s with
  | zero => exact ⟨[], s, rfl, rfl, by simp⟩
  | succ n ih =>
      cases s with
      | nil =>
          obtain ⟨b, hb, -⟩ := h 0 (by omega)
          simp at hb
      | cons c s =>
          obtain ⟨b, hb, hlt⟩ := h 0 (by omega)
          have hcur := bytes_getElem?_cursor [] c s
          rw [byteLen_nil, List.nil_append, hb] at hcur
          have hc : c.toNat < 0x80 := (lead_lt_iff c).mp (by rw [← Option.some.inj hcur]; exact hlt)
          have hone : (String.utf8EncodeChar c).length = 1 := by
            rw [String.length_utf8EncodeChar, utf8Size_eq_one_iff_toNat]
            exact hc
          obtain ⟨p, t, hs, hlen, hp⟩ := ih (s := s) fun j hj => by
            obtain ⟨b, hb, hlt⟩ := h (j + 1) (by omega)
            rw [bytes_cons, List.getElem?_append_right (by omega), hone, Nat.add_sub_cancel] at hb
            exact ⟨b, hb, hlt⟩
          refine ⟨c :: p, t, by rw [hs, List.cons_append], by rw [List.length_cons, hlen], ?_⟩
          rintro d (_ | ⟨_, hd⟩)
          · exact hc
          · exact hp d hd

/-! ## Decoding -/

/-- The character a byte sequence starts with, when it starts with a complete one. -/
def decodeChar? (l : List UInt8) : Option Char := l.toByteArray.utf8DecodeChar? 0

/-- Whether a byte is a continuation byte. -/
def isCont (b : UInt8) : Bool := 0x80 ≤ b && b ≤ 0xbf

/-- Whether `b₁` may follow the lead byte `b₀` of a three- or four-byte sequence (the ranges that rule
    out overlong forms, surrogates and values past `U+10FFFF`). -/
def isSecond (b₀ b₁ : UInt8) : Bool :=
  if b₀ = 0xe0 then 0xa0 ≤ b₁ && b₁ ≤ 0xbf
  else if b₀ = 0xed then 0x80 ≤ b₁ && b₁ ≤ 0x9f
  else if b₀ = 0xf0 then 0x90 ≤ b₁ && b₁ ≤ 0xbf
  else if b₀ = 0xf4 then 0x80 ≤ b₁ && b₁ ≤ 0x8f
  else isCont b₁

/-- The length of the maximal invalid part at the head of a sequence that does not start with a
    complete character: the lead byte and the bytes that could still have continued it. -/
def invalidLen : List UInt8 → Nat
  | b₀ :: b₁ :: b₂ :: _ =>
      if 0xe0 ≤ b₀ && b₀ ≤ 0xef && isSecond b₀ b₁ then 2
      else if 0xf0 ≤ b₀ && b₀ ≤ 0xf4 && isSecond b₀ b₁ then (if isCont b₂ then 3 else 2)
      else 1
  | [b₀, b₁] => if 0xe0 ≤ b₀ && b₀ ≤ 0xf4 && isSecond b₀ b₁ then 2 else 1
  | _ => 1

/-- Strict decoding, `fuel` bounding the number of characters. -/
def strictAux : Nat → List UInt8 → Option Text
  | _,   [] => some []
  | 0,   _  => none
  | n+1, b :: bs => do
      let c ← decodeChar? (b :: bs)
      let s ← strictAux n ((b :: bs).drop c.utf8Size)
      return c :: s

/-- Lossy decoding, `fuel` bounding the number of characters. -/
def lossyAux : Nat → List UInt8 → Text
  | _,   [] => []
  | 0,   _  => []
  | n+1, b :: bs =>
      match decodeChar? (b :: bs) with
      | some c => c :: lossyAux n ((b :: bs).drop c.utf8Size)
      | none   => '\uFFFD' :: lossyAux n ((b :: bs).drop (invalidLen (b :: bs)))

/-- `str::from_utf8`: the string a byte sequence encodes, if it is valid UTF-8. -/
def fromUtf8? (l : List UInt8) : Option Text := strictAux l.length l

/-- `String::from_utf8_lossy`: every maximal invalid part becomes one `U+FFFD`. -/
def fromUtf8Lossy (l : List UInt8) : Text := lossyAux l.length l

theorem lossyAux_eq_of_strictAux {n : Nat} {l : List UInt8} {s : Text}
    (h : strictAux n l = some s) : lossyAux n l = s := by
  induction n generalizing l s with
  | zero =>
      cases l with
      | nil => simpa [strictAux, lossyAux] using h
      | cons b bs => simp [strictAux] at h
  | succ n ih =>
      cases l with
      | nil => simpa [strictAux, lossyAux] using h
      | cons b bs =>
          simp only [strictAux, Option.bind_eq_bind, Option.bind_eq_some_iff] at h
          obtain ⟨c, hc, t, ht, hs⟩ := h
          rw [lossyAux, hc]
          simp only [ih ht]
          exact Option.some.inj hs

/-- **On valid UTF-8 the lossy decoder loses nothing.** -/
theorem fromUtf8Lossy_eq {l : List UInt8} {s : Text} (h : fromUtf8? l = some s) :
    fromUtf8Lossy l = s := lossyAux_eq_of_strictAux h

theorem decodeChar?_cursor (c : Char) (l : List UInt8) :
    decodeChar? (String.utf8EncodeChar c ++ l) = some c := by
  unfold decodeChar?
  rw [List.toByteArray_append]
  exact ByteArray.utf8DecodeChar?_utf8EncodeChar_append

theorem strictAux_bytes (s : Text) {n : Nat} (hn : s.length ≤ n) : strictAux n (bytes s) = some s := by
  induction s generalizing n with
  | nil => cases n <;> rfl
  | cons c s ih =>
      obtain ⟨k, rfl⟩ : ∃ k, n = k + 1 := ⟨n - 1, by simp only [List.length_cons] at hn; omega⟩
      have hdec := decodeChar?_cursor c (bytes s)
      have hdrop : (String.utf8EncodeChar c ++ bytes s).drop c.utf8Size = bytes s := by
        rw [← String.length_utf8EncodeChar, List.drop_left]
      rw [bytes_cons]
      cases hb : String.utf8EncodeChar c ++ bytes s with
      | nil => simp [String.utf8EncodeChar_ne_nil] at hb
      | cons b bs =>
          rw [hb] at hdec hdrop
          simp only [strictAux, hdec, hdrop, Option.bind_eq_bind, Option.bind_some]
          rw [ih (by simpa using hn)]
          rfl

/-- **Decoding inverts encoding.** -/
theorem fromUtf8?_bytes (s : Text) : fromUtf8? (bytes s) = some s :=
  strictAux_bytes s (by rw [length_bytes]; exact length_le_byteLen s)

/-- A decoded character is what the bytes begin with. -/
theorem eq_append_of_decodeChar? {l : List UInt8} {c : Char} (h : decodeChar? l = some c) :
    l = String.utf8EncodeChar c ++ l.drop c.utf8Size := by
  obtain ⟨rest, hrest⟩ := ByteArray.exists_of_utf8DecodeChar?_eq_some h
  have hl : l = String.utf8EncodeChar c ++ rest.data.toList := by
    have hdata := congrArg (fun b => b.data.toList) hrest
    simpa using hdata
  rw [hl, ← String.length_utf8EncodeChar, List.drop_left]

theorem bytes_of_strictAux {n : Nat} {l : List UInt8} {s : Text} (h : strictAux n l = some s) : bytes s = l := by
  induction n generalizing l s with
  | zero =>
      cases l with
      | nil =>
          obtain rfl := Option.some.inj h
          rfl
      | cons b bs => cases h
  | succ n ih =>
      cases l with
      | nil =>
          obtain rfl := Option.some.inj h
          rfl
      | cons b bs =>
          simp only [strictAux, Option.bind_eq_bind, Option.bind_eq_some_iff] at h
          obtain ⟨c, hc, t, ht, hs⟩ := h
          obtain rfl := Option.some.inj hs
          rw [bytes_cons, ih ht, ← eq_append_of_decodeChar? hc]

/-- **Strict decoding accepts the encodings of texts, and no other bytes.** -/
theorem fromUtf8?_eq_some_iff {l : List UInt8} {s : Text} : fromUtf8? l = some s ↔ l = bytes s := by
  constructor
  · intro h
    exact (bytes_of_strictAux h).symm
  · rintro rfl
    exact fromUtf8?_bytes s

theorem invalidLen_pos (l : List UInt8) : 0 < invalidLen l := by
  unfold invalidLen
  split
  · repeat' split
    all_goals decide
  · split
    all_goals decide
  · decide

theorem byteLen_lossyAux_le (n : Nat) (l : List UInt8) : byteLen (lossyAux n l) ≤ 3 * l.length := by
  induction n generalizing l with
  | zero => cases l <;> exact Nat.zero_le _
  | succ n ih =>
      cases l with
      | nil => exact Nat.zero_le _
      | cons b bs =>
          rw [lossyAux]
          split
          · rename_i c hc
            have hlength := congrArg List.length (eq_append_of_decodeChar? hc)
            rw [List.length_append, String.length_utf8EncodeChar] at hlength
            have hrest := ih ((b :: bs).drop c.utf8Size)
            rw [byteLen_cons]
            omega
          · have hpos := invalidLen_pos (b :: bs)
            have hrest := ih ((b :: bs).drop (invalidLen (b :: bs)))
            have hsize : '\uFFFD'.utf8Size = 3 := by decide
            rw [List.length_drop] at hrest
            rw [byteLen_cons, hsize, List.length_cons] at *
            omega

/-- **Lossy decoding at most triples the size**: a byte that is no part of a character becomes three. -/
theorem byteLen_fromUtf8Lossy_le (l : List UInt8) : byteLen (fromUtf8Lossy l) ≤ 3 * l.length := byteLen_lossyAux_le l.length l

/-- A text is known by its bytes. -/
theorem bytes_inj {s t : Text} : bytes s = bytes t ↔ s = t := by
  constructor
  · intro h
    have hdecode := congrArg fromUtf8? h
    rw [fromUtf8?_bytes, fromUtf8?_bytes] at hdecode
    exact Option.some.inj hdecode
  · intro h
    rw [h]

/-- The lossy decoder inverts encoding as well. -/
theorem fromUtf8Lossy_bytes (s : Text) : fromUtf8Lossy (bytes s) = s :=
  fromUtf8Lossy_eq (fromUtf8?_bytes s)

/-- A truncated three-byte sequence is one replacement character; two stray bytes are two. -/
example : fromUtf8Lossy [0x61, 0xe4, 0xb8, 0x62] = ['a', '\uFFFD', 'b'] := by decide
example : fromUtf8Lossy [0x80, 0xff, 0x62] = ['\uFFFD', '\uFFFD', 'b'] := by decide

end Utf8
