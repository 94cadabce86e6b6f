import Mathlib.Data.List.DropRight
import Mathlib.Data.List.Infix
import McpWebSearch.Lib.Utf8

/-!
# `Lib.Text` — the string operations of a standard library on `Text`

Unicode white space and trimming, prefixes and suffixes, decimal numerals. String literals coerce to `Text`, so a format
string with holes reads `"host '" ++ host ++ "' not found"`.
-/

namespace Utf8

instance : Coe String Text := ⟨String.toList⟩

/-- The Unicode property `White_Space`. -/
def isWhitespace (c : Char) : Bool :=
  let n := c.toNat
  (0x09 ≤ n && n ≤ 0x0D) || n == 0x20 || n == 0x85 || n == 0xA0 || n == 0x1680 ||
    (0x2000 ≤ n && n ≤ 0x200A) || n == 0x2028 || n == 0x2029 || n == 0x202F || n == 0x205F || n == 0x3000

/-- ASCII white space: space, tab, LF, FF, CR (and not the vertical tab). -/
def isAsciiWhitespace (c : Char) : Bool :=
  c == ' ' || c == '\t' || c == '\n' || c == '\x0c' || c == '\r'

/-- A string without its leading and trailing white space. -/
def trim (s : Text) : Text := (s.dropWhile isWhitespace).rdropWhile isWhitespace

/-- A string without its leading white space. -/
def trimStart (s : Text) : Text := s.dropWhile isWhitespace

/-- A string without its trailing white space. -/
def trimEnd (s : Text) : Text := s.rdropWhile isWhitespace

/-- The characters of a string that are not white space. -/
def solid (s : Text) : Text := s.filter (fun c => !isWhitespace c)

/-- The rest of a string after a prefix, if it starts with it. -/
def stripPrefix (p s : Text) : Option Text := if p.isPrefixOf s then some (s.drop p.length) else none

/-- Whether a string has the other one as a part. -/
def contains (s pat : Text) : Bool := decide (pat <:+: s)

/-- The decimal numeral of a natural number. -/
def decimal (n : Nat) : Text := Nat.toDigits 10 n

/-- The decimal numeral of an integer. -/
def decimalInt : Int → Text
  | .ofNat n => decimal n
  | .negSucc n => '-' :: decimal (n + 1)

/-- The parts of a string list, each two separated by `sep`. -/
def join (sep : Text) (ts : List Text) : Text := List.intercalate sep ts

@[simp] theorem trim_nil : trim [] = [] := rfl

/-- ASCII white space is white space. -/
theorem isWhitespace_of_isAsciiWhitespace {c : Char} (h : isAsciiWhitespace c = true) : isWhitespace c = true := by
  unfold isAsciiWhitespace at h
  simp only [Bool.or_eq_true, beq_iff_eq] at h
  rcases h with (((rfl | rfl) | rfl) | rfl) | rfl <;> decide

theorem isAsciiWhitespace_of_solid {c : Char} (h : isWhitespace c = false) : isAsciiWhitespace c = false := by
  cases hc : isAsciiWhitespace c with
  | false => rfl
  | true =>
      rw [isWhitespace_of_isAsciiWhitespace hc] at h
      cases h

/-- What is left by dropping does not begin with what is dropped. -/
theorem head_dropWhile {α : Type} {p : α → Bool} {l : List α} {x : α} (hx : x ∈ (l.dropWhile p).head?) : p x = false := by
  have hne : l.dropWhile p ≠ [] := by
    intro hnil
    rw [hnil] at hx
    cases hx
  have hnot := List.head_dropWhile_not p hne
  rw [List.head?_eq_some_head hne] at hx
  rw [← Option.some.inj hx]
  exact hnot

/-- Nothing is left of a string by trimming exactly if it is blank. -/
theorem trim_eq_nil_iff {s : Text} : trim s = [] ↔ ∀ c ∈ s, isWhitespace c = true := by
  rw [trim, List.rdropWhile_eq_nil_iff]
  constructor
  · intro h
    cases hd : s.dropWhile isWhitespace with
    | nil => exact List.dropWhile_eq_nil_iff.mp hd
    | cons c t =>
        -- the first character that survives the left trim is not white space
        have hfirst : c ∈ (s.dropWhile isWhitespace).head? := by rw [hd]; rfl
        have hnot : isWhitespace c = false := head_dropWhile hfirst
        exact absurd (h c (List.mem_of_mem_head? hfirst)) (by simp [hnot])
  · intro h c hc
    exact h c ((List.dropWhile_sublist _).mem hc)

/-- What does not begin or end with white space is its own trim. -/
theorem trim_eq_self {s : Text} (hhead : ∀ c ∈ s.head?, isWhitespace c = false)
    (hlast : ∀ c ∈ s.getLast?, isWhitespace c = false) : trim s = s := by
  have hdrop : s.dropWhile isWhitespace = s := by
    cases s with
    | nil => rfl
    | cons c t => exact List.dropWhile_cons_of_neg (by simp [hhead c rfl])
  rw [trim, hdrop, List.rdropWhile_eq_self_iff]
  intro hne
  rw [hlast _ (List.getLast?_eq_some_getLast hne)]
  exact Bool.false_ne_true

/-- A trimmed string does not begin with white space. -/
theorem head_trim {s : Text} {c : Char} (hc : c ∈ (trim s).head?) : isWhitespace c = false := by
  -- the right trim leaves a prefix, so the first character is one the left trim stopped at
  obtain ⟨rest, hrest⟩ := List.rdropWhile_prefix isWhitespace (s.dropWhile isWhitespace)
  apply head_dropWhile
  rw [← hrest]
  show (trim s ++ rest).head? = some c
  rw [List.head?_append, hc]
  rfl

/-- Nor does it end with white space. -/
theorem last_trim {s : Text} {c : Char} (hc : c ∈ (trim s).getLast?) : isWhitespace c = false := by
  have hne : trim s ≠ [] := by
    intro hnil
    rw [hnil] at hc
    cases hc
  have hnot := List.rdropWhile_last_not isWhitespace (s.dropWhile isWhitespace) hne
  rw [List.getLast?_eq_some_getLast hne] at hc
  rw [← Option.some.inj hc]
  exact Bool.eq_false_iff.mpr hnot

/-- Trimming twice is trimming once. -/
theorem trim_trim (s : Text) : trim (trim s) = trim s :=
  trim_eq_self (fun _ hc => head_trim hc) (fun _ hc => last_trim hc)

/-- Trimming leaves a part of the string. -/
theorem mem_of_mem_trim {c : Char} {s : Text} (h : c ∈ trim s) : c ∈ s :=
  (List.dropWhile_sublist _).mem ((List.rdropWhile_prefix _ _).mem h)

/-- A leading blank part does not change the trimmed string. -/
theorem trim_append_of_blank_left {b s : Text} (hb : trim b = []) : trim (b ++ s) = trim s := by
  have hdrop : (b ++ s).dropWhile isWhitespace = s.dropWhile isWhitespace :=
    List.dropWhile_append_of_pos (trim_eq_nil_iff.mp hb)
  rw [trim, trim, hdrop]

/-- A trailing blank part does not change the trimmed string. -/
theorem trim_append_of_blank_right {s b : Text} (hb : trim b = []) : trim (s ++ b) = trim s := by
  have hws := trim_eq_nil_iff.mp hb
  by_cases hs : trim s = []
  · rw [trim_append_of_blank_left hs, hs, hb]
  · have hne : s.dropWhile isWhitespace ≠ [] := by
      intro hnil
      apply hs
      rw [trim, hnil]
      rfl
    have hdrop : (s ++ b).dropWhile isWhitespace = s.dropWhile isWhitespace ++ b := by
      rw [List.dropWhile_append, if_neg (by simpa using hne)]
    rw [trim, trim, hdrop, List.rdropWhile, List.rdropWhile, List.reverse_append,
      List.dropWhile_append_of_pos (fun c hc => hws c (List.mem_reverse.mp hc))]

/-- A string is what trimming leaves of it, between two blank parts. -/
theorem exists_trim (s : Text) : ∃ pre post, s = pre ++ trim s ++ post ∧ trim pre = [] ∧ trim post = [] := by
  refine ⟨s.takeWhile isWhitespace, (s.dropWhile isWhitespace).rtakeWhile isWhitespace, ?_, ?_, ?_⟩
  · calc s = s.takeWhile isWhitespace ++ s.dropWhile isWhitespace := List.takeWhile_append_dropWhile.symm
      _ = s.takeWhile isWhitespace ++ (trim s ++ (s.dropWhile isWhitespace).rtakeWhile isWhitespace) :=
          congrArg _ List.rdropWhile_append_rtakeWhile.symm
      _ = s.takeWhile isWhitespace ++ trim s ++ (s.dropWhile isWhitespace).rtakeWhile isWhitespace :=
          (List.append_assoc _ _ _).symm
  · exact trim_eq_nil_iff.mpr fun c hc => List.mem_takeWhile_imp hc
  · exact trim_eq_nil_iff.mpr fun c hc => List.mem_rtakeWhile_imp hc

/-- Two parts are blank together when each is. -/
theorem trim_append_eq_nil_iff {s b : Text} : trim (s ++ b) = [] ↔ trim s = [] ∧ trim b = [] := by
  rw [trim_eq_nil_iff, trim_eq_nil_iff, trim_eq_nil_iff]
  exact List.forall_mem_append

/-- A part that is not blank is trimmed on the right only, after one that does not begin with white space. -/
theorem trim_append_of_solid {s t : Text} {c : Char} (hs : s.head? = some c) (hc : isWhitespace c = false)
    (ht : trim t ≠ []) : trim (s ++ t) = s ++ t.rdropWhile isWhitespace := by
  have hdrop : (s ++ t).dropWhile isWhitespace = s ++ t := by
    cases s with
    | nil => cases hs
    | cons d s =>
        obtain rfl := Option.some.inj hs
        exact List.dropWhile_cons_of_neg (by simp [hc])
  have hne : t.rdropWhile isWhitespace ≠ [] := fun hnil => ht (trim_eq_nil_iff.mpr (List.rdropWhile_eq_nil_iff.mp hnil))
  have hreverse : t.reverse.dropWhile isWhitespace ≠ [] := fun hnil => hne (by rw [List.rdropWhile, hnil, List.reverse_nil])
  rw [trim, hdrop, List.rdropWhile, List.rdropWhile, List.reverse_append, List.dropWhile_append,
    if_neg (by simpa using hreverse), List.reverse_append, List.reverse_reverse]

/-- Trimming the right first. -/
theorem trim_rdropWhile (t : Text) : trim (t.rdropWhile isWhitespace) = trim t := by
  have hblank : trim (t.rtakeWhile isWhitespace) = [] := trim_eq_nil_iff.mpr fun c hc => List.mem_rtakeWhile_imp hc
  have hsplit : trim (t.rdropWhile isWhitespace ++ t.rtakeWhile isWhitespace) = trim t := by
    rw [List.rdropWhile_append_rtakeWhile]
  rw [← hsplit, trim_append_of_blank_right hblank]

@[simp] theorem solid_nil : solid [] = [] := rfl

@[simp] theorem solid_append (s t : Text) : solid (s ++ t) = solid s ++ solid t := List.filter_append s t

theorem solid_cons_blank {c : Char} (hc : isWhitespace c = true) (t : Text) : solid (c :: t) = solid t :=
  List.filter_cons_of_neg (by simp [hc])

theorem solid_cons_solid {c : Char} (hc : isWhitespace c = false) (t : Text) : solid (c :: t) = c :: solid t :=
  List.filter_cons_of_pos (by simp [hc])

/-- A blank character adds nothing solid at the end. -/
theorem solid_concat_blank {c : Char} (hc : isWhitespace c = true) (t : Text) : solid (t ++ [c]) = solid t := by
  rw [solid_append, solid_cons_blank hc, solid_nil, List.append_nil]

/-- Trimming takes white space only. -/
theorem solid_trim (s : Text) : solid (trim s) = solid s := by
  have hleft (t : Text) : solid (t.dropWhile isWhitespace) = solid t := by
    induction t with
    | nil => rfl
    | cons c t ih =>
        cases hc : isWhitespace c with
        | true => rw [List.dropWhile_cons_of_pos hc, ih, solid_cons_blank hc]
        | false => rw [List.dropWhile_cons_of_neg (by simp [hc])]
  have hreverse (t : Text) : solid t.reverse = (solid t).reverse := List.filter_reverse
  rw [trim, List.rdropWhile, hreverse, hleft, hreverse, hleft, List.reverse_reverse]

/-- What is solid of a part is solid of the whole. -/
theorem solid_sublist {s t : Text} (h : s.Sublist t) : (solid s).Sublist (solid t) := h.filter _

end Utf8
