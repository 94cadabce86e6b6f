import McpWebSearch.Lib.Text

/-!
# `Lib.Casing` — texts in lower case

The conversion of a standard library: character by character, with the case data of the Unicode version at hand, but for two
characters that are mapped in a way of their own. `İ` becomes two characters, and `Σ` becomes `ς` at the end of a word. So what
a character becomes depends on where it stands, and lower case does not quite say whether one text occurs in another but for the
case of the letters (`foldCase`, which looks at each character by itself): if it does so in lower case it does
(`foldCase_infix_of_toLowercase`), and the converse fails at the ends of words only (`final_of_overlooked`).
-/

namespace Utf8

/-- The case data of a version of Unicode; all versions agree on ASCII. -/
structure CaseData where
  lower : Char → Char
  cased : Char → Bool
  caseIgnorable : Char → Bool
  lower_ascii : ∀ c : Char, c.toNat < 128 → lower c = c.toLower

namespace CaseData

variable (d : CaseData)

/-- The case data of ASCII. -/
def ascii : CaseData where
  lower := Char.toLower
  cased := Char.isAlpha
  caseIgnorable c := c == '\x27' || c == '.' || c == ':' || c == '^' || c == '\x60'
  lower_ascii _ _ := rfl

/-- Whether a cased character comes next, what is ignorable aside. -/
def caseIgnorableThenCased (cs : Text) : Bool := (cs.dropWhile d.caseIgnorable).head?.any d.cased

/-- `Σ` between what stands before it, from the right, and what stands after it. -/
def lowerSigma (before after : Text) : Char :=
  if d.caseIgnorableThenCased before && !d.caseIgnorableThenCased after then 'ς' else 'σ'

/-- One character in lower case. -/
def lowerChar (before : Text) (c : Char) (after : Text) : Text :=
  if c = 'Σ' then [d.lowerSigma before after] else if c = 'İ' then ['i', '\u0307'] else [d.lower c]

/-- The rest of a text, after `before` from the right. -/
def lowerRest : Text → Text → Text
  | _, [] => []
  | before, c :: cs => d.lowerChar before c cs ++ lowerRest (c :: before) cs

/-- A text in lower case. -/
def toLowercase (s : Text) : Text := d.lowerRest [] s

/-! ## But for the case -/

/-- `σ` is written `ς` at the end of a word. -/
def unfinal (c : Char) : Char := if c = 'ς' then 'σ' else c

/-- A character but for its case. -/
def foldChar (c : Char) : Text :=
  if c = 'Σ' then ['σ'] else if c = 'İ' then ['i', '\u0307'] else [unfinal (d.lower c)]

/-- A text but for the case of its letters. -/
def foldCase (s : Text) : Text := s.flatMap d.foldChar

variable {d}

theorem map_unfinal_lowerChar (before : Text) (c : Char) (after : Text) :
    (d.lowerChar before c after).map unfinal = d.foldChar c := by
  unfold lowerChar foldChar
  split
  · unfold lowerSigma
    split
    · rfl
    · rfl
  · split
    · rfl
    · rfl

theorem map_unfinal_lowerRest (before s : Text) : (d.lowerRest before s).map unfinal = d.foldCase s := by
  induction s generalizing before with
  | nil => rfl
  | cons c s ih =>
      rw [lowerRest, List.map_append, map_unfinal_lowerChar, ih]
      rfl

/-- Lower case is the text but for the case, up to the ends of words. -/
theorem map_unfinal_toLowercase (s : Text) : (d.toLowercase s).map unfinal = d.foldCase s := map_unfinal_lowerRest [] s

/-- Without a `ς` in lower case, it is the text but for the case. -/
theorem toLowercase_eq_foldCase {s : Text} (h : 'ς' ∉ d.toLowercase s) : d.toLowercase s = d.foldCase s := by
  have hkept : ∀ c ∈ d.toLowercase s, unfinal c = id c := by
    intro c hc
    refine if_neg ?_
    rintro rfl
    exact h hc
  rw [← map_unfinal_toLowercase, List.map_congr_left hkept, List.map_id]

/-- **What contains a text in lower case contains it but for the case.** -/
theorem foldCase_infix_of_toLowercase {s u : Text} (h : d.toLowercase s <:+: d.toLowercase u) :
    d.foldCase s <:+: d.foldCase u := by
  rw [← map_unfinal_toLowercase s, ← map_unfinal_toLowercase u]
  exact h.map unfinal

/-- What is contained but for the case, and not in lower case, has to do with the end of a word. -/
theorem final_of_overlooked {s u : Text} (hfold : d.foldCase s <:+: d.foldCase u)
    (hlower : ¬ d.toLowercase s <:+: d.toLowercase u) : 'ς' ∈ d.toLowercase s ∨ 'ς' ∈ d.toLowercase u := by
  by_contra hnone
  obtain ⟨hs, hu⟩ := not_or.mp hnone
  rw [toLowercase_eq_foldCase hs, toLowercase_eq_foldCase hu] at hlower
  exact hlower hfold

/-- The end of a word is another one in the text that contains it. -/
example : "aΣ".toList <:+: "aΣb".toList ∧ ¬ ascii.toLowercase "aΣ".toList <:+: ascii.toLowercase "aΣb".toList := by decide

end CaseData

end Utf8
