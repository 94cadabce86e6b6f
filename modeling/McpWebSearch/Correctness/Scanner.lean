import McpWebSearch.Lib.Seek
import McpWebSearch.Correctness.Layout

/-!
# `Correctness.Scanner` — reading an output without building it

A `Scanner` reads traced characters one after the other. It has a shortcut for a block quotation, of which it needs no
more than the state in which it ends on the text inside. If that is lawful, and a newline after another is not seen, the
scan of the operations of a page ends in the state of a reader of the buffer (`scanAll_eq_foldl`). If white space at the
ends is not seen either, that is the state of a reader of the output (`accept_output`): so what the scan of the operations
says of a page, which is a condition on the page, the output has as a property.
-/

namespace McpWebSearch
namespace Scrape

open Utf8 Dom Traced

/-- An operation may be shown to have a property from the operations inside it. -/
theorem Op.induct {P : Op → Prop} (put : ∀ w, P (.put w)) (endLine : P .endLine)
    (quote : ∀ body, (∀ op ∈ body, P op) → P (.quote body)) (op : Op) : P op := by
  refine @Op.rec P (fun ops => ∀ op ∈ ops, P op) put endLine quote ?_ ?_ op
  · simp
  · intro op ops hop hops op' hop'
    rcases List.mem_cons.mp hop' with rfl | h
    · exact hop
    · exact hops op' h

/-! ## Lines of a buffer -/

def isNewline (x : Char × Origin) : Bool := x.1 == '\n'

/-- What is on the last line. -/
def lastLine (b : Buffer) : Buffer := Seek.line isNewline b

theorem lastLine_concat (b : Buffer) (x : Char × Origin) :
    lastLine (b ++ [x]) = if x.1 = '\n' then [] else lastLine b ++ [x] := by
  rw [lastLine, Seek.line_concat, isNewline]
  simp only [beq_iff_eq]
  rfl

/-! ## What is written at all -/

/-- Whether an operation writes something to an empty buffer. -/
def Op.writes : Op → Bool
  | .put w => !w.traced.isEmpty
  | .endLine | .quote _ => true

/-- Operations only append. -/
theorem exists_append_run (op : Op) (b : Buffer) : ∃ t, op.run b = b ++ t := by
  cases op with
  | put w => exact ⟨w.traced, rfl⟩
  | endLine =>
      rw [Op.run, closeLine]
      split
      · exact ⟨[], (List.append_nil b).symm⟩
      · exact ⟨[newline], rfl⟩
  | quote body => exact ⟨_, rfl⟩

theorem exists_append_runAll (ops : List Op) (b : Buffer) : ∃ t, runAll ops b = b ++ t := by
  induction ops generalizing b with
  | nil => exact ⟨[], (List.append_nil b).symm⟩
  | cons op ops ih =>
      obtain ⟨t, ht⟩ := exists_append_run op b
      obtain ⟨u, hu⟩ := ih (b ++ t)
      refine ⟨t ++ u, ?_⟩
      rw [runAll, ht, hu, List.append_assoc]

theorem run_eq_nil_iff (op : Op) : op.run [] = [] ↔ op.writes = false := by
  cases op with
  | put w =>
      rw [Op.run, List.nil_append, Op.writes, Bool.not_eq_false', List.isEmpty_iff]
  | endLine => exact iff_of_false (List.cons_ne_nil _ _) (by simp [Op.writes])
  | quote body =>
      refine iff_of_false ?_ (by simp [Op.writes])
      rw [Op.run]
      simp

/-- A buffer stays empty as long as no operation writes. -/
theorem runAll_eq_nil_iff (ops : List Op) : runAll ops [] = [] ↔ ops.any Op.writes = false := by
  induction ops with
  | nil => exact iff_of_true rfl rfl
  | cons op ops ih =>
      rw [runAll, List.any_cons, Bool.or_eq_false_iff, ← run_eq_nil_iff, ← ih]
      constructor
      · intro h
        obtain ⟨t, ht⟩ := exists_append_runAll ops (op.run [])
        have hnil : op.run [] = [] := by
          rw [ht] at h
          exact (List.append_eq_nil_iff.mp h).1
        rw [hnil] at h
        exact ⟨hnil, h⟩
      · rintro ⟨hop, hops⟩
        rw [hop, hops]

/-! ## Scanners -/

/-- A reader of traced characters: with the state before a page, the state before the text of a quotation, and the
    shortcut for a quotation that is not empty, from the state at the end of its text. -/
structure Scanner (σ : Type) where
  step : σ → Char × Origin → σ
  start : σ
  inner : σ
  quote : σ → σ → σ

namespace Scanner

variable {σ : Type} (S : Scanner σ)

/-- The state after a buffer. -/
def read (b : Buffer) (s : σ) : σ := b.foldl S.step s

mutual

def scan : Op → σ → σ
  | .put w, s => S.read w.traced s
  | .endLine, s => S.step s newline
  | .quote body, s => if body.any Op.writes then S.quote s (scanAll body S.inner) else S.step s newline

def scanAll : List Op → σ → σ
  | [], s => s
  | op :: ops, s => scanAll ops (scan op s)

end

/-- The shortcut leads where the characters lead, and a newline after a newline or a return before one is not seen. -/
structure Lawful : Prop where
  newline_twice : ∀ s o o', S.step (S.step s ('\n', o)) ('\n', o') = S.step s ('\n', o)
  return_newline : ∀ s o o', S.step (S.step s ('\r', o)) ('\n', o') = S.step s ('\n', o')
  quote : ∀ s {b}, b ≠ [] → S.read (quoteFrom true true b ++ [newline]) s = S.quote s (S.read b S.inner)

variable {S}

theorem read_nil (s : σ) : S.read [] s = s := rfl
theorem read_cons (x : Char × Origin) (b : Buffer) (s : σ) : S.read (x :: b) s = S.read b (S.step s x) := rfl
theorem read_append (a b : Buffer) (s : σ) : S.read (a ++ b) s = S.read b (S.read a s) := List.foldl_append
theorem read_concat (b : Buffer) (x : Char × Origin) (s : σ) : S.read (b ++ [x]) s = S.step (S.read b s) x :=
  read_append b [x] s

/-- **The law for quotations** from a relation between the states outside and inside, for each state before. It holds
    after the first mark and character, is kept by each further character, with the mark before it at the start of a line,
    and tells where the last newline leads. -/
theorem Lawful.of_related {R : σ → Bool → σ → σ → Prop}
    (newline_twice : ∀ s o o', S.step (S.step s ('\n', o)) ('\n', o') = S.step s ('\n', o))
    (return_newline : ∀ s o o', S.step (S.step s ('\r', o)) ('\n', o') = S.step s ('\n', o'))
    (hfirst : ∀ s x, R s (x.1 == '\n') (S.step (S.read (quoteMark true) s) x) (S.step S.inner x))
    (hstep : ∀ s start outer inner x, R s start outer inner →
      R s (x.1 == '\n') (S.step (S.read (if start then quoteMark false else []) outer) x) (S.step inner x))
    (hend : ∀ s start outer inner, R s start outer inner → S.step outer newline = S.quote s inner) : S.Lawful := by
  have hfrom (s : σ) (b : Buffer) (start : Bool) (outer inner : σ) (hR : R s start outer inner) :
      S.read (quoteFrom false start b ++ [newline]) outer = S.quote s (S.read b inner) := by
    induction b generalizing start outer inner with
    | nil =>
        rw [quoteFrom, read_nil]
        cases start with
        | true => exact hend s true outer inner hR
        | false => exact (newline_twice outer _ _).trans (hend s false outer inner hR)
    | cons x b ih =>
        rw [quoteFrom, List.append_assoc, List.cons_append, read_append, read_cons, read_cons]
        exact ih _ _ _ (hstep s start outer inner x hR)
  refine ⟨newline_twice, return_newline, ?_⟩
  intro s b hb
  obtain ⟨x, b, rfl⟩ := List.exists_cons_of_ne_nil hb
  rw [quoteFrom, List.append_assoc, List.cons_append, read_append, read_cons, read_cons]
  exact hfrom s b _ _ _ (hfirst s x)

theorem read_stripReturns (h : S.Lawful) (b : Buffer) (s : σ) : S.read (stripReturns b) s = S.read b s := by
  induction b generalizing s with
  | nil => rfl
  | cons x b ih =>
      rw [stripReturns]
      split
      · rename_i hreturn
        obtain ⟨c, o⟩ := x
        obtain ⟨rfl, hnl⟩ := hreturn
        cases b with
        | nil => cases hnl
        | cons y b =>
            obtain ⟨d, o'⟩ := y
            obtain rfl : d = '\n' := Option.some.inj hnl
            rw [ih, read_cons, read_cons, read_cons, h.return_newline]
      · rw [read_cons, read_cons, ih]

theorem read_quoteBuffer (h : S.Lawful) {b : Buffer} (hb : b ≠ []) (s : σ) :
    S.read (quoteBuffer b ++ [newline]) s = S.quote s (S.read b S.inner) := by
  rw [quoteBuffer, h.quote s (stripReturns_ne_nil hb), read_stripReturns h]

theorem read_closeLine (h : S.Lawful) (b : Buffer) (s : σ) : S.read (closeLine b) s = S.step (S.read b s) newline := by
  rw [closeLine]
  split
  · rename_i hlast
    obtain ⟨x, hx, hnl⟩ := Option.map_eq_some_iff.mp hlast
    obtain ⟨init, rfl⟩ := List.getLast?_eq_some_iff.mp hx
    obtain ⟨c, o⟩ := x
    obtain rfl : c = '\n' := hnl
    rw [read_concat, newline, h.newline_twice]
  · exact read_concat b newline s

/-- **A lawful scanner ends where it would end on the buffer.** -/
theorem scanAll_eq_foldl (h : S.Lawful) (ops : List Op) (b : Buffer) (s₀ : σ) :
    S.scanAll ops (S.read b s₀) = S.read (runAll ops b) s₀ := by
  have hall {ops : List Op} (hops : ∀ op ∈ ops, ∀ b s₀, S.scan op (S.read b s₀) = S.read (op.run b) s₀) (b : Buffer)
      (s₀ : σ) : S.scanAll ops (S.read b s₀) = S.read (runAll ops b) s₀ := by
    induction ops generalizing b with
    | nil => rfl
    | cons op ops ih =>
        rw [scanAll, runAll, hops op List.mem_cons_self]
        exact ih (fun op' hop' => hops op' (List.mem_cons_of_mem op hop')) (op.run b)
  have hop (op : Op) (b : Buffer) (s₀ : σ) : S.scan op (S.read b s₀) = S.read (op.run b) s₀ := by
    induction op using Op.induct generalizing b s₀ with
    | put w => exact (read_append b w.traced s₀).symm
    | endLine => exact (read_closeLine h b s₀).symm
    | quote body ih =>
        have hbody := hall (fun op hop b s₀ => ih op hop b s₀) [] S.inner
        rw [read_nil] at hbody
        rw [scan, Op.run, read_append]
        by_cases hwrites : body.any Op.writes = true
        · have hne : runAll body [] ≠ [] := by
            rw [ne_eq, runAll_eq_nil_iff, hwrites]
            exact Bool.noConfusion
          rw [if_pos hwrites, hbody, read_quoteBuffer h hne]
        · rw [if_neg hwrites, (runAll_eq_nil_iff body).mpr (Bool.not_eq_true _ ▸ hwrites)]
          rfl
  exact hall (fun op _ b s₀ => hop op b s₀) b s₀

/-- The scan of a page. -/
theorem scanAll_pageLayout (h : S.Lawful) (doc : List Node) :
    S.scanAll (pageLayout doc) S.start = S.read (runAll (pageLayout doc) []) S.start :=
  scanAll_eq_foldl h (pageLayout doc) [] S.start

/-! ## The clean-up -/

theorem read_squeezeBuffer (h : S.Lawful) {n : Nat} {s : σ} (hn : 2 ≤ n → ∀ o, S.step s ('\n', o) = s) (b : Buffer) :
    S.read (squeezeBuffer n b) s = S.read b s := by
  induction b generalizing n s with
  | nil => rfl
  | cons x b ih =>
      obtain ⟨c, o⟩ := x
      rw [squeezeBuffer, read_cons]
      by_cases hc : c = '\n'
      · subst hc
        rw [if_pos rfl]
        by_cases hle : n + 1 ≤ 2
        · rw [if_pos hle, read_cons, ih fun _ o' => h.newline_twice s o o']
        · rw [if_neg hle, hn (by omega) o, ih fun _ o' => hn (by omega) o']
      · rw [if_neg hc, read_cons, ih fun hle => absurd hle (by omega)]

/-- **What the scan of a page accepts is what a reader accepts of its output**, if white space at the ends makes no
    difference to it. -/
theorem accept_output (h : S.Lawful) (accept : σ → Prop) (hstart : ∀ x, blank x = true → S.step S.start x = S.start)
    (hend : ∀ s x, blank x = true → (accept (S.step s x) ↔ accept s)) (doc : List Node) :
    accept (S.scanAll (pageLayout doc) S.start) ↔ accept (S.read (output doc) S.start) := by
  have hsqueeze := read_squeezeBuffer h (s := S.start) (n := 0) (fun hle => absurd hle (by omega))
    (runAll (pageLayout doc) [])
  rw [scanAll_pageLayout h, output, ← hsqueeze]
  exact (foldl_trim hstart hend _).symm

end Scanner

end Scrape
end McpWebSearch
