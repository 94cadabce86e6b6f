import McpWebSearch.Actions.Search

/-!
# `Correctness.Search` — whose content is printed under which result

The futures of `web_search_scrape` are drained in completion order, and the output loop reads the drained list by
result position. Under every schedule the list is a permutation of the contents (`sections_perm`), but it is
the right one exactly if each completion position holds the content of its result
(`webSearchScrape_attribution_iff`).
-/

namespace McpWebSearch
namespace Actions

open Utf8

variable {env : ScrapeEnv} {config : Config} {args : Option Value} {plan : Plan}
  {schedule : List Drain.Event} {s : Drain.State Text}

/-- The blocks a reader expects: `content i` under scraped result `i`, then the other results, unscraped, in
    provider order. -/
def Plan.attributed (plan : Plan) (content : Nat → Text) : List Block :=
  (plan.results.take plan.toScrape).mapIdx (fun i r => ⟨r, some (content i)⟩) ++
    (plan.results.drop plan.toScrape).map (fun r => ⟨r, none⟩)

/-- A plan scrapes at least one result and no more than there are. -/
theorem planScrape_bounds (h : planScrape env config args = .ok (.inr plan)) :
    0 < plan.toScrape ∧ plan.toScrape ≤ plan.results.length := by
  unfold planScrape at h
  cases hquery : getStrArg args "query" with
  | error e =>
      rw [hquery] at h
      cases h
  | ok query =>
      simp only [hquery] at h
      by_cases hblank : (trim query).isEmpty = true
      · rw [if_pos hblank] at h
        cases h
      · rw [if_neg hblank] at h
        cases hsearch : env.search config.provider _ with
        | error e =>
            rw [hsearch] at h
            cases h
        | ok results =>
            simp only [hsearch] at h
            by_cases hempty : results.isEmpty = true
            · rw [if_pos hempty] at h
              cases h
            · rw [if_neg hempty] at h
              cases h
              have hpos : 0 < results.length := by
                simpa [List.length_pos_iff] using hempty
              simp only [clamp]
              omega

/-- With the contents in result order the blocks are the attributed ones. -/
theorem blocks_in_order (content : Nat → Text) :
    plan.blocks ((List.range plan.toScrape).map content) = plan.attributed content := by
  unfold Plan.blocks Plan.attributed
  congr 1
  apply List.ext_getElem
  · simp
  · intro i h1 h2
    simp

/-- The contents printed in the blocks are the sections, those of the scraped results. -/
theorem blocks_contents (sections : List Text) (hlen : sections.length = plan.toScrape)
    (hle : plan.toScrape ≤ plan.results.length) :
    (plan.blocks sections).map Block.content =
      sections.map some ++ (plan.results.drop plan.toScrape).map (fun _ => none) := by
  have hzip : ((plan.results.take plan.toScrape).zip sections).map Prod.snd = sections :=
    List.map_snd_zip (by rw [List.length_take]; omega)
  rw [Plan.blocks, List.map_append, List.map_map, List.map_map]
  conv_rhs => rw [← hzip]
  rw [List.map_map]
  rfl

/-- The blocks are attributed exactly if the sections are the contents in result order. -/
theorem blocks_eq_attributed_iff (sections : List Text) (content : Nat → Text)
    (hlen : sections.length = plan.toScrape) (hle : plan.toScrape ≤ plan.results.length) :
    plan.blocks sections = plan.attributed content ↔
      sections = (List.range plan.toScrape).map content := by
  rw [← blocks_in_order content]
  constructor
  · intro h
    -- the blocks determine the contents printed in them
    have hcontents := congrArg (List.map Block.content) h
    rw [blocks_contents sections hlen hle, blocks_contents _ (by simp) hle] at hcontents
    have hsome := List.append_cancel_right hcontents
    exact List.map_injective_iff.mpr (fun _ _ h => Option.some.inj h) hsome
  · intro h
    rw [h]

/-- **Nothing is lost or duplicated** among the sections: they are the contents of the scraped results, in the
    order of completion. -/
theorem sections_perm (hrun : (plan.futures env).exec (plan.unstarted env) schedule = some s)
    (hfin : s.finished = true) :
    s.out.Perm ((List.range plan.toScrape).map (scrapedContent env plan.results)) :=
  Drain.out_perm hrun hfin

theorem Block.format_ne_nil (b : Block) : b.format ≠ [] := by
  obtain ⟨r, content⟩ := b
  cases content with
  | none => exact List.cons_ne_nil _ _
  | some content => exact List.cons_ne_nil _ _

/-- A planned call prints the blocks of its sections. -/
theorem output_eq_blocks (hplan : planScrape env config args = .ok (.inr plan))
    (hlen : s.out.length = plan.toScrape) :
    plan.output s.out = textContent ((plan.blocks s.out).flatMap Block.format) := by
  obtain ⟨hpos, hle⟩ := planScrape_bounds hplan
  have hlength : (plan.blocks s.out).length = plan.results.length := by
    simp only [Plan.blocks, List.length_append, List.length_map, List.length_zip, List.length_take,
      List.length_drop, hlen]
    omega
  have hne : ((plan.blocks s.out).flatMap Block.format).isEmpty = false := by
    cases hblocks : plan.blocks s.out with
    | nil =>
        rw [hblocks, List.length_nil] at hlength
        omega
    | cons b bs =>
        rw [List.flatMap_cons, List.isEmpty_eq_false_iff]
        exact List.append_ne_nil_of_left_ne_nil b.format_ne_nil _
  simp only [Plan.output, hne, Bool.false_eq_true, if_false]

/-- **Attribution.** Under every schedule that completes the futures, the call prints the blocks of its sections;
    they are the attributed ones exactly if, for every `k`, the `k`-th future to complete yields what the
    future of result `k` yields. -/
theorem webSearchScrape_attribution_iff (env : ScrapeEnv) (config : Config) (args : Option Value)
    (plan : Plan) (schedule : List Drain.Event) (s : Drain.State Text)
    (hplan : planScrape env config args = .ok (.inr plan))
    (hrun : (plan.futures env).exec (plan.unstarted env) schedule = some s)
    (hfin : s.finished = true) :
    webSearchScrape env config args schedule =
        some (.ok (textContent ((plan.blocks s.out).flatMap Block.format))) ∧
      (plan.blocks s.out = plan.attributed (scrapedContent env plan.results) ↔
        ∀ k i, (Drain.completions schedule)[k]? = some i →
          scrapedContent env plan.results i = scrapedContent env plan.results k) := by
  have hlen : s.out.length = plan.toScrape := by
    rw [(sections_perm hrun hfin).length_eq, List.length_map, List.length_range]
  constructor
  · simp only [webSearchScrape, hplan, hrun, hfin, if_true, output_eq_blocks hplan hlen]
  · rw [blocks_eq_attributed_iff s.out _ hlen (planScrape_bounds hplan).2]
    exact Drain.drained_eq_iff hrun hfin

/-- A provider with two results, whose pages have different texts. -/
def twoPages : ScrapeEnv where
  search _ _ := .ok [⟨"A", "http://a.example/", "first"⟩, ⟨"B", "http://b.example/", "second"⟩]
  fetchPage i url :=
    .ok { finalUrl := ⟨url, "http", none, some 80⟩, body := if i = 0 then "alpha" else "beta" }
  mainToMarkdown body := some body
  cpus := 1

/-- Two fetches that complete in provider order. -/
theorem webSearchScrape_attribution_in_order :
    Plan.blocks ⟨[⟨"A", "http://a.example/", "first"⟩, ⟨"B", "http://b.example/", "second"⟩], 2⟩
        ["alpha", "beta"] =
      Plan.attributed ⟨[⟨"A", "http://a.example/", "first"⟩, ⟨"B", "http://b.example/", "second"⟩], 2⟩
        (scrapedContent twoPages
          [⟨"A", "http://a.example/", "first"⟩, ⟨"B", "http://b.example/", "second"⟩]) :=
  (webSearchScrape_attribution_iff twoPages (Config.default ⟨1, fun _ => .error [], fun _ => []⟩)
    (some (.object [("query", .string "rust")])) _
    [.acquire 0, .acquire 1, .release 0, .finish 0, .release 1, .finish 1] _ rfl rfl rfl).2.mpr (by
      intro k i hk
      change [0, 1][k]? = some i at hk
      rcases k with _ | _ | k
      · cases hk
        rfl
      · cases hk
        rfl
      · exact absurd hk (by simp))

/-- **Contents are swapped** when the second fetch completes first. -/
theorem webSearchScrape_misattributes :
    ¬ ∀ (env : ScrapeEnv) (config : Config) (args : Option Value) (plan : Plan)
      (schedule : List Drain.Event) (s : Drain.State Text),
      planScrape env config args = .ok (.inr plan) →
      (plan.futures env).exec (plan.unstarted env) schedule = some s → s.finished = true →
      plan.blocks s.out = plan.attributed (scrapedContent env plan.results) := by
  intro h
  have hswap := h twoPages (Config.default ⟨1, fun _ => .error [], fun _ => []⟩)
    (some (.object [("query", .string "rust")])) _
    [.acquire 0, .acquire 1, .release 1, .finish 1, .release 0, .finish 0] _ rfl rfl rfl
  exact absurd hswap (by decide)

end Actions
end McpWebSearch
