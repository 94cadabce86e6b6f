import McpWebSearch.Actions.Scrape.WebScrape

/-!
# `Correctness.WebScrape` — the sections of `web_scrape` are the naive ones

The naive rendering of a format parses the original body for itself (`naiveSection`). `web_scrape` parses at most once and
gives the body away at the last section that emits all of it (`lastRaw`). The invariant of its loop (`scrapeLoop_eq`):
either the body is still there, or no format that is left wants it.
-/

namespace McpWebSearch

open Utf8 Dom

namespace Scrape

/-! ## The naive rendering -/

/-- The formats that pass the validation. -/
inductive Format
  | markdown
  | extract
  | html
  | rawHtml
  | links
  deriving DecidableEq

def Format.name : Format → Text
  | .markdown => "markdown"
  | .extract => "extract"
  | .html => "html"
  | .rawHtml => "rawHtml"
  | .links => "links"

section Naive

variable (lib : ScrapeLib)

/-- `main_to_markdown`. -/
def mainToMarkdown (html : Text) : Except Panic Text := mainToMarkdownDoc lib.collapse (lib.parseDocument html)

/-- `extract_main`. -/
def extractMain (html : Text) : Text := extractMainDoc (lib.parseDocument html) html

/-- The rendering of one format from the original body. -/
def naiveSection (urls : UrlParser) (onlyMain : Bool) (body : Text) (finalUrl : Url) :
    Format → Except TaskPanic Text
  | .markdown | .extract =>
      (if onlyMain then mainToMarkdown lib body
        else domToMarkdownDoc lib.collapse (lib.parseDocument body).root).mapError TaskPanic.conversion
  | .html => .ok (if onlyMain then extractMain lib body else body)
  | .rawHtml => .ok body
  | .links => .ok (join "\n" (collectLinksDoc urls (lib.parseDocument body) finalUrl))

end Naive

/-! ## Validated formats -/

theorem checkFormat_eq_ok_iff {fmt : Text} : checkFormat fmt = .ok () ↔ ∃ f : Format, fmt = f.name := by
  unfold checkFormat
  split
  · rename_i h
    refine iff_of_true rfl ?_
    obtain ⟨n, hn, hname⟩ := List.any_eq_true.mp h
    obtain rfl := beq_iff_eq.mp hname
    simp only [List.mem_cons, List.not_mem_nil, or_false] at hn
    rcases hn with rfl | rfl | rfl | rfl | rfl
    · exact ⟨.markdown, rfl⟩
    · exact ⟨.extract, rfl⟩
    · exact ⟨.html, rfl⟩
    · exact ⟨.rawHtml, rfl⟩
    · exact ⟨.links, rfl⟩
  · rename_i h
    refine iff_of_false ?_ ?_
    · split
      · exact fun h => nomatch h
      · exact fun h => nomatch h
    · rintro ⟨f, rfl⟩
      cases f with
      | markdown => exact h rfl
      | extract => exact h rfl
      | html => exact h rfl
      | rawHtml => exact h rfl
      | links => exact h rfl

theorem checkFormats_eq_ok_iff {formats : List Text} :
    checkFormats formats = .ok () ↔ ∃ fmts : List Format, formats = fmts.map Format.name := by
  induction formats with
  | nil => exact iff_of_true rfl ⟨[], rfl⟩
  | cons fmt formats ih =>
      rw [checkFormats]
      cases hfmt : checkFormat fmt with
      | error e =>
          refine iff_of_false (fun h => nomatch h) ?_
          rintro ⟨fmts, hfmts⟩
          cases fmts with
          | nil => cases hfmts
          | cons f fmts =>
              obtain ⟨rfl, -⟩ := List.cons.inj hfmts
              rw [checkFormat_eq_ok_iff.mpr ⟨f, rfl⟩] at hfmt
              cases hfmt
      | ok u =>
          obtain ⟨f, rfl⟩ := checkFormat_eq_ok_iff.mp hfmt
          rw [ih]
          constructor
          · rintro ⟨fmts, rfl⟩
            exact ⟨f :: fmts, rfl⟩
          · rintro ⟨fmts, hfmts⟩
            cases fmts with
            | nil => cases hfmts
            | cons g fmts => exact ⟨fmts, (List.cons.inj hfmts).2⟩

/-! ## Who wants the body, and the document -/

/-- A format that reads the original body: as its section, or as what is left without a main element. -/
def Format.wantsBody : Format → Bool
  | .html | .rawHtml => true
  | .markdown | .extract | .links => false

/-- A format that reads the parsed document. -/
def Format.wantsDom (onlyMain : Bool) : Format → Bool
  | .markdown | .extract | .links => true
  | .html => onlyMain
  | .rawHtml => false

theorem rposition_eq_none {α : Type} {p : α → Bool} {xs : List α} (h : rposition p xs = none) :
    ∀ x ∈ xs, p x = false := by
  induction xs with
  | nil => simp
  | cons x xs ih =>
      rw [rposition] at h
      cases hxs : rposition p xs with
      | some i => simp [hxs] at h
      | none =>
          have hx : p x = false := by simpa [hxs] using h
          exact List.forall_mem_cons.mpr ⟨hx, ih hxs⟩

/-- After the last position nothing satisfies the predicate. -/
theorem rposition_last {α : Type} {p : α → Bool} {before after : List α} {x : α}
    (h : rposition p (before ++ x :: after) = some before.length) : ∀ y ∈ after, p y = false := by
  induction before with
  | nil =>
      rw [List.nil_append, rposition] at h
      cases hafter : rposition p after with
      | none => exact rposition_eq_none hafter
      | some i => simp [hafter] at h
  | cons b before ih =>
      apply ih
      rw [List.cons_append, rposition] at h
      cases hrest : rposition p (before ++ x :: after) with
      | some i => simpa [hrest] using h
      | none =>
          rw [hrest] at h
          dsimp only at h
          split at h
          · cases h
          · cases h

/-- After the section that takes the body, no format wants it. -/
theorem lastRaw_last {onlyMain : Bool} {before after : List Format} {f : Format}
    (h : lastRaw ((before ++ f :: after).map Format.name) onlyMain = some before.length) :
    ∀ g ∈ after, g.wantsBody = false := by
  unfold lastRaw at h
  dsimp only at h
  split at h
  · cases h
  · rename_i hborrow
    rw [List.map_append, List.map_cons, ← List.length_map (f := Format.name)] at h
    intro g hg
    have hraw := rposition_last h g.name (List.mem_map_of_mem hg)
    cases g with
    | markdown => rfl
    | extract => rfl
    | links => rfl
    | rawHtml => cases hraw
    | html =>
        -- without the body being borrowed, "html" is a raw format or it is not in the list
        cases onlyMain with
        | false => cases hraw
        | true =>
            exfalso
            apply hborrow
            rw [Bool.true_and, List.any_eq_true]
            exact ⟨Format.html.name, List.mem_map_of_mem (by simp [hg]), rfl⟩

section Loop

variable (lib : ScrapeLib) (urls : UrlParser) (onlyMain : Bool) (body : Text) (finalUrl : Url)

theorem bind_pair {ε α β : Type} (r : Except ε α) (b : β) : (r >>= fun a => pure (a, b)) = r.map (·, b) := by
  cases r with
  | ok a => rfl
  | error e => rfl

/-- **One round**: with the document and the body there if the format wants them, the section is the naive one, and the
    body stays, except at the position it is moved out at. -/
theorem scrapeSection_eq (last : Option Nat) (idx : Nat) {doc : Option Html} {f : Format} {bodyOpt : Option Text}
    (hdoc : f.wantsDom onlyMain = true → doc = some (lib.parseDocument body))
    (hbody : f.wantsBody = true → bodyOpt = some body) :
    ∃ bodyOpt', scrapeSection lib urls onlyMain finalUrl doc last idx f.name bodyOpt =
        (naiveSection lib urls onlyMain body finalUrl f).map (·, bodyOpt') ∧
      (bodyOpt' = bodyOpt ∨ some idx = last) := by
  have hraw {f : Format} (hf : f.wantsBody = true → bodyOpt = some body) (hwants : f.wantsBody = true) :
      ∃ bodyOpt', (if some idx = last then pure (bodyOpt.getD [], none) else pure (bodyOpt.getD [], bodyOpt)) =
          (Except.ok body : Except TaskPanic Text).map (·, bodyOpt') ∧ (bodyOpt' = bodyOpt ∨ some idx = last) := by
    rw [hf hwants]
    by_cases hlast : some idx = last
    · exact ⟨none, if_pos hlast, .inr hlast⟩
    · exact ⟨some body, if_neg hlast, .inl rfl⟩
  cases f with
  | markdown | extract =>
      refine ⟨bodyOpt, ?_, .inl rfl⟩
      rw [hdoc rfl]
      exact bind_pair _ bodyOpt
  | links =>
      refine ⟨bodyOpt, ?_, .inl rfl⟩
      rw [hdoc rfl]
      rfl
  | rawHtml => exact hraw hbody rfl
  | html =>
      cases onlyMain with
      | true =>
          refine ⟨bodyOpt, ?_, .inl rfl⟩
          rw [hdoc rfl, hbody rfl]
          rfl
      | false => exact hraw hbody rfl

/-- **The loop renders naively**, as long as the body is there or no format that is left wants it. -/
theorem scrapeLoop_eq {fmts before after : List Format} (hsplit : fmts = before ++ after) {doc : Option Html}
    (hdoc : ∀ f ∈ after, f.wantsDom onlyMain = true → doc = some (lib.parseDocument body)) {bodyOpt : Option Text}
    (hbody : bodyOpt = some body ∨ ∀ f ∈ after, f.wantsBody = false) (sections : List Text) :
    scrapeLoop lib urls onlyMain finalUrl doc (lastRaw (fmts.map Format.name) onlyMain) before.length
        (after.map Format.name) bodyOpt sections =
      (after.mapM (naiveSection lib urls onlyMain body finalUrl)).map (sections ++ ·) := by
  induction after generalizing before bodyOpt sections with
  | nil =>
      show Except.ok sections = Except.ok (sections ++ [])
      rw [List.append_nil]
  | cons f after ih =>
      have hwants (hf : f.wantsBody = true) : bodyOpt = some body := by
        rcases hbody with h | h
        · exact h
        · rw [h f List.mem_cons_self] at hf
          cases hf
      obtain ⟨bodyOpt', hround, hkept⟩ := scrapeSection_eq lib urls onlyMain body finalUrl
        (lastRaw (fmts.map Format.name) onlyMain) before.length (hdoc f List.mem_cons_self) hwants
      -- the body is there for the rest, or was moved out at the last format that wants it
      have hbody' : bodyOpt' = some body ∨ ∀ g ∈ after, g.wantsBody = false := by
        rcases hkept with rfl | hlast
        · exact hbody.imp_right fun h g hg => h g (List.mem_cons_of_mem f hg)
        · rw [hsplit] at hlast
          exact .inr (lastRaw_last hlast.symm)
      have hsplit' : fmts = (before ++ [f]) ++ after := by rw [hsplit, List.append_assoc, List.singleton_append]
      have hrest (s : Text) := ih hsplit' (fun g hg => hdoc g (List.mem_cons_of_mem f hg)) hbody' (sections ++ [s])
      rw [List.length_append] at hrest
      rw [List.map_cons, scrapeLoop, hround, List.mapM_cons]
      cases hf : naiveSection lib urls onlyMain body finalUrl f with
      | error p => rfl
      | ok s =>
          refine (hrest s).trans ?_
          cases after.mapM (naiveSection lib urls onlyMain body finalUrl) with
          | error p => rfl
          | ok ss =>
              show Except.ok (sections ++ [s] ++ ss) = Except.ok (sections ++ (s :: ss))
              rw [List.append_assoc, List.singleton_append]

/-- The document is parsed if some format reads it. -/
theorem needsDom_of_mem {fmts : List Format} {f : Format} (hf : f ∈ fmts) (hwants : f.wantsDom onlyMain = true) :
    needsDom (fmts.map Format.name) onlyMain = true := by
  rw [needsDom, List.any_eq_true]
  refine ⟨f.name, List.mem_map_of_mem hf, ?_⟩
  cases f with
  | markdown => rfl
  | extract => rfl
  | links => rfl
  | rawHtml => cases hwants
  | html =>
      obtain rfl : onlyMain = true := hwants
      rfl

/-- No rendering of a format gets to an `expect` or an `unreachable`. -/
theorem naiveSection_error {f : Format} {p : TaskPanic} (h : naiveSection lib urls onlyMain body finalUrl f = .error p) :
    ∃ q, p = .conversion q := by
  have hconversion {r : Except Panic Text} (hr : r.mapError TaskPanic.conversion = .error p) :
      ∃ q, p = .conversion q := by
    cases r with
    | ok t => cases hr
    | error q => exact ⟨q, (Except.error.inj hr).symm⟩
  cases f with
  | markdown => exact hconversion h
  | extract => exact hconversion h
  | html => cases h
  | rawHtml => cases h
  | links => cases h

theorem mapM_error {ε α β : Type} {g : α → Except ε β} {xs : List α} {e : ε} (h : xs.mapM g = .error e) :
    ∃ x ∈ xs, g x = .error e := by
  induction xs with
  | nil => cases h
  | cons x xs ih =>
      rw [List.mapM_cons] at h
      cases hx : g x with
      | error e' =>
          rw [hx] at h
          obtain rfl := Except.error.inj h
          exact ⟨x, List.mem_cons_self, hx⟩
      | ok b =>
          rw [hx] at h
          cases hxs : xs.mapM g with
          | error e' =>
              rw [hxs] at h
              obtain rfl := Except.error.inj h
              obtain ⟨y, hy, hgy⟩ := ih hxs
              exact ⟨y, List.mem_cons_of_mem x hy, hgy⟩
          | ok bs =>
              rw [hxs] at h
              cases h

/-- **The sections of `web_scrape` are the naive ones**: for every validated list of formats, one for each format, in
    order, rendered from the original body; and no `expect` or `unreachable` is reached. -/
theorem scrapeSections_eq_naive (formats : List Text) (hvalid : checkFormats formats = .ok ()) :
    ∃ fmts : List Format, formats = fmts.map Format.name ∧
      scrapeSections lib urls formats onlyMain body finalUrl =
        fmts.mapM (naiveSection lib urls onlyMain body finalUrl) ∧
      (∀ msg, scrapeSections lib urls formats onlyMain body finalUrl ≠ .error (.expect msg)) ∧
      scrapeSections lib urls formats onlyMain body finalUrl ≠ .error .unreachable := by
  obtain ⟨fmts, rfl⟩ := checkFormats_eq_ok_iff.mp hvalid
  have hdoc (f : Format) (hf : f ∈ fmts) (hwants : f.wantsDom onlyMain = true) :
      (if needsDom (fmts.map Format.name) onlyMain then some (lib.parseDocument body) else none) =
        some (lib.parseDocument body) := if_pos (needsDom_of_mem onlyMain hf hwants)
  have heq : scrapeSections lib urls (fmts.map Format.name) onlyMain body finalUrl =
      fmts.mapM (naiveSection lib urls onlyMain body finalUrl) := by
    have hloop := scrapeLoop_eq lib urls onlyMain body finalUrl (List.nil_append fmts).symm hdoc (.inl rfl) []
    refine hloop.trans ?_
    cases fmts.mapM (naiveSection lib urls onlyMain body finalUrl) with
    | error p => rfl
    | ok ss => rfl
  have hpanic {p : TaskPanic} (h : scrapeSections lib urls (fmts.map Format.name) onlyMain body finalUrl = .error p) :
      ∃ q, p = .conversion q := by
    obtain ⟨f, -, hf⟩ := mapM_error (heq.symm.trans h)
    exact naiveSection_error lib urls onlyMain body finalUrl hf
  refine ⟨fmts, rfl, heq, ?_, ?_⟩
  · intro msg h
    obtain ⟨q, hq⟩ := hpanic h
    cases hq
  · intro h
    obtain ⟨q, hq⟩ := hpanic h
    cases hq

end Loop

/-- A page without elements, its HTML asked for twice around its markdown. -/
theorem scrapeSections_twice :
    scrapeSections ⟨fun _ => ⟨[], none, []⟩, .ok, fun _ => []⟩ ⟨fun _ => .error [], fun _ _ => .error []⟩
        ["rawHtml", "markdown", "html"] false "<p>" ⟨"http://a/", "http", none, none⟩ ≠ .error .unreachable := by
  obtain ⟨fmts, -, -, -, hunreachable⟩ := scrapeSections_eq_naive ⟨fun _ => ⟨[], none, []⟩, .ok, fun _ => []⟩
    ⟨fun _ => .error [], fun _ _ => .error []⟩ false "<p>" ⟨"http://a/", "http", none, none⟩
    ["rawHtml", "markdown", "html"] rfl
  exact hunreachable

end Scrape
end McpWebSearch
