import McpWebSearch.Correctness.Traffic

/-!
# `Correctness.InFlight` — how many futures a bulk call runs at once, and that it ends

Four tools run many futures: `web_check_links` and `web_search_scrape` behind a semaphore, `web_extract` and the validation pass
of `web_map` as a buffered stream. They bound what is in memory at once, and a bound must not keep a call from ending. `web_extract`
counts the conversion of a page in, so a body lives only in a future that counts; `web_search_scrape` gives its permit back before
it converts, and what bounds its conversions is the number of results it scrapes. `Orderly` says both of a call over a machine of
futures; the library has the argument for each machine, and the limits of the tools give the length of a call.
-/

namespace McpWebSearch
namespace Actions

open Utf8 Scrape Server

/-- **A bulk call whose futures take turns in good order.** -/
structure Orderly {S L β : Type} (M : Machine S L) (start : S) (inFlight : S → Nat) (limit events : Nat)
    (call : List L → Option β) : Prop where
  /-- At no moment of a run are more futures in flight. -/
  inFlight_le : ∀ es s, M.exec start es = some s → inFlight s ≤ limit
  /-- No run is longer. -/
  length_le : ∀ es s, M.exec start es = some s → es.length ≤ events
  /-- Whatever has happened, the call can still come to an end. -/
  completes : ∀ es s, M.exec start es = some s → ∃ rest result, call (es ++ rest) = some result
  /-- It does on nothing but a run. -/
  returns : ∀ es result, call es = some result → ∃ s, M.exec start es = some s

variable {cpus : Nat} {config : Config} {args : Option Value} {urls : List Text}

theorem length_of_bulkUrls (hurls : bulkUrls config args = .ok urls) : urls.length ≤ config.server.maxExtractUrls := by
  have hle := @length_bulkUrls config args
  rw [hurls] at hle
  exact hle

/-! ## Behind a semaphore -/

theorem orderly_webCheckLinks (nets : Nat → Net) (hcpus : 0 < cpus) (hurls : bulkUrls config args = .ok urls) :
    Orderly (Drain.drain (checkedLink nets config urls)) (Drain.start (cpus * 2) urls.length) Drain.State.holding (cpus * 2)
      (config.server.maxExtractUrls * 3) (webCheckLinks nets cpus config args) where
  inFlight_le _ _ hrun := Drain.holding_le hrun
  length_le _ _ hrun := Nat.le_trans (Drain.length_le hrun) (Nat.mul_le_mul_right 3 (length_of_bulkUrls hurls))
  completes es s hrun := by
    obtain ⟨rest, s', hrun', hfinished⟩ := Drain.completes (Nat.mul_pos hcpus (by decide)) hrun
    refine ⟨rest, .ok (textContent (join "\n" s'.out)), ?_⟩
    unfold webCheckLinks
    rw [hurls]
    dsimp only
    rw [hrun', Option.bind_some, if_pos hfinished]
  returns es result hcall := by
    unfold webCheckLinks at hcall
    rw [hurls] at hcall
    obtain ⟨s, hrun, -⟩ := Option.bind_eq_some_iff.mp hcall
    exact ⟨s, hrun⟩

theorem orderly_webSearchScrape (env : ScrapeEnv) (hcpus : 0 < env.cpus) {plan : Plan}
    (hplan : planScrape env config args = .ok (.inr plan)) :
    Orderly (plan.futures env) (plan.unstarted env) Drain.State.holding (env.cpus * 2) (10 * 3)
      (webSearchScrape env config args) where
  inFlight_le _ _ hrun := Drain.holding_le hrun
  length_le _ _ hrun := Nat.le_trans (Drain.length_le hrun) (Nat.mul_le_mul_right 3 (toScrape_le_ten hplan))
  completes es s hrun := by
    obtain ⟨rest, s', hrun', hfinished⟩ := Drain.completes (Nat.mul_pos hcpus (by decide)) hrun
    refine ⟨rest, .ok (plan.output s'.out), ?_⟩
    unfold webSearchScrape
    rw [hplan]
    have hexec : (plan.futures env).exec (plan.unstarted env) (es ++ rest) = some s' := hrun'
    dsimp only
    rw [hexec]
    exact if_pos hfinished
  returns es result hcall := by
    unfold webSearchScrape at hcall
    rw [hplan] at hcall
    dsimp only at hcall
    cases hrun : (plan.futures env).exec (plan.unstarted env) es with
    | none =>
        rw [hrun] at hcall
        cases hcall
    | some s => exact ⟨s, rfl⟩

/-! ## As a buffered stream -/

theorem orderly_webExtract (panic : PanicStrategy) (nets : Nat → Net) (lib : ScrapeLib) (cancelled : Nat → Bool) (cpus : Nat)
    (hurls : bulkUrls config args = .ok urls) :
    Orderly (Buffered.bufferUnordered (max (cpus * 2) 4) (extractedSection panic nets lib cancelled config) urls)
      Buffered.Pool.initial (fun s => s.running.length) (max (cpus * 2) 4) (config.server.maxExtractUrls * 2)
      (webExtract panic nets lib cancelled cpus config args) where
  inFlight_le _ _ hrun := (Buffered.Pool.counted hrun).running_le
  length_le _ _ hrun :=
    Nat.le_trans (Buffered.Pool.counted hrun).moves_le (Nat.mul_le_mul_right 2 (length_of_bulkUrls hurls))
  completes es s hrun := by
    obtain ⟨rest, s', hrun', hfinished⟩ := Buffered.Pool.completes (by omega) hrun
    -- all sections are there, unless a conversion has ended the process
    cases hout : sectionsOf s'.out with
    | aborted =>
        refine ⟨rest, .aborted, ?_⟩
        unfold webExtract
        rw [hurls]
        dsimp only
        rw [hrun', Option.bind_some, hout]
    | returned sections =>
        refine ⟨rest, .returned (.ok (textContent (join "\n\n---\n\n" sections))), ?_⟩
        unfold webExtract
        rw [hurls]
        dsimp only
        rw [hrun', Option.bind_some, hout]
        exact if_pos hfinished
  returns es result hcall := by
    unfold webExtract at hcall
    rw [hurls] at hcall
    obtain ⟨s, hrun, -⟩ := Option.bind_eq_some_iff.mp hcall
    exact ⟨s, hrun⟩

/-- What `web_map` returns from a point of a run, if it returns. -/
def mapReturn (net : Net) (docs : Documents) (config : Config) (cpus : Nat) (validated : Nat → Text → Bool)
    (args : Option Value) (w : World) (sched : List Buffered.Move) : Option Value :=
  (webMap net docs config cpus validated sched args w).1.toOption.bind id

theorem mapReturn_of_candidates {net : Net} {docs : Documents} {validated : Nat → Text → Bool} {w w' : World}
    {cs : List (Text × Bool)} (hcandidates : mapCandidates net docs config args w = (.ok cs, w')) (sched : List Buffered.Move) :
    mapReturn net docs config cpus validated args w sched = (validationPass cpus validated sched cs).map mapContent := by
  unfold mapReturn
  rw [webMap_eq, Prog.bind_ok hcandidates]
  rfl

theorem orderly_webMap (net : Net) (docs : Documents) (cpus : Nat) (validated : Nat → Text → Bool) {w w' : World}
    {cs : List (Text × Bool)} (hcandidates : mapCandidates net docs config args w = (.ok cs, w')) :
    Orderly (Buffered.buffered (max (cpus * 2) 8) (keepCandidate validated) cs) Buffered.State.initial
      (fun s => s.started - s.out.length) (max (cpus * 2) 8) (config.server.maxMapUrls * 3)
      (mapReturn net docs config cpus validated args w) where
  inFlight_le _ _ hrun := by
    have := (Buffered.counted hrun).inFlight_le
    omega
  length_le _ _ hrun := by
    obtain ⟨seen, hok⟩ := mapCandidates_ok hcandidates
    exact Nat.le_trans (Buffered.counted hrun).moves_le
      (Nat.mul_le_mul_right 3 (Nat.le_trans hok.length (Nat.min_le_right _ _)))
  completes es s hrun := by
    obtain ⟨rest, s', hrun', hdone⟩ := Buffered.completes (by omega) hrun
    refine ⟨rest, mapContent (s'.out.filterMap id), ?_⟩
    rw [mapReturn_of_candidates hcandidates]
    unfold validationPass
    dsimp only
    rw [hrun', Option.bind_some, if_pos hdone]
    rfl
  returns es result hcall := by
    rw [mapReturn_of_candidates hcandidates] at hcall
    obtain ⟨out, hpass, -⟩ := Option.map_eq_some_iff.mp hcall
    obtain ⟨s, hrun, -⟩ := Option.bind_eq_some_iff.mp hpass
    exact ⟨s, hrun⟩

/-! ## All four -/

/-- **Bulk calls are bounded and end.** On a machine with a CPU, whatever has happened in a call, in whatever order: no more
    fetches or checks are in flight than its limit, which depends on the CPUs only; the call can still come to an end; and it has
    had at most three events for each URL it may take. The limit of `web_extract` is for fetches and conversions together;
    `web_search_scrape` has at most ten of both. -/
theorem bulk_calls_orderly (hcpus : 0 < cpus) (config : Config) (args : Option Value) :
    (∀ nets urls, bulkUrls config args = .ok urls →
      Orderly (Drain.drain (checkedLink nets config urls)) (Drain.start (cpus * 2) urls.length) Drain.State.holding (cpus * 2)
          (config.server.maxExtractUrls * 3) (webCheckLinks nets cpus config args) ∧
        ∀ panic lib cancelled, Orderly
          (Buffered.bufferUnordered (max (cpus * 2) 4) (extractedSection panic nets lib cancelled config) urls)
          Buffered.Pool.initial (fun s => s.running.length) (max (cpus * 2) 4) (config.server.maxExtractUrls * 2)
          (webExtract panic nets lib cancelled cpus config args)) ∧
    (∀ env plan, env.cpus = cpus → planScrape env config args = .ok (.inr plan) →
      Orderly (plan.futures env) (plan.unstarted env) Drain.State.holding (cpus * 2) (10 * 3)
          (webSearchScrape env config args) ∧
        ∀ es s, (plan.futures env).exec (plan.unstarted env) es = some s → s.busy ≤ 10) ∧
    ∀ net docs validated w cs w', mapCandidates net docs config args w = (.ok cs, w') →
      Orderly (Buffered.buffered (max (cpus * 2) 8) (keepCandidate validated) cs) Buffered.State.initial
        (fun s => s.started - s.out.length) (max (cpus * 2) 8) (config.server.maxMapUrls * 3)
        (mapReturn net docs config cpus validated args w) := by
  refine ⟨fun nets urls hurls => ⟨orderly_webCheckLinks nets hcpus hurls, fun panic lib cancelled => ?_⟩, ?_, ?_⟩
  · exact orderly_webExtract panic nets lib cancelled cpus hurls
  · rintro env plan rfl hplan
    exact ⟨orderly_webSearchScrape env hcpus hplan, fun es s hrun =>
      Nat.le_trans (Drain.busy_le hrun) (toScrape_le_ten hplan)⟩
  · intro net docs validated w cs w' hcandidates
    exact orderly_webMap net docs cpus validated hcandidates

/-- Two links on one CPU, the first check under way: both permits are there, and the call can still return. -/
theorem bulk_calls_orderly_links :
    ∃ rest result, webCheckLinks (fun _ => redirectNet) 1 stalledConfig
        (some (.object [("urls", .array [.string "http://example.com/", .string "http://10.0.0.1/"])]))
        ([.acquire 0] ++ rest) = some result := by
  have hurls : bulkUrls stalledConfig
      (some (.object [("urls", .array [.string "http://example.com/", .string "http://10.0.0.1/"])])) =
      .ok ["http://example.com/", "http://10.0.0.1/"] := by decide
  have horderly := (@bulk_calls_orderly 1 (by decide) stalledConfig
    (some (.object [("urls", .array [.string "http://example.com/", .string "http://10.0.0.1/"])]))).1
    (fun _ => redirectNet) _ hurls
  exact horderly.1.completes [.acquire 0] _ rfl

end Actions
end McpWebSearch
