import Mathlib.Data.List.Basic
import McpWebSearch.Browser

/-!
# `Correctness.Browser` — permits and tabs of the page pool

The pool hands out `max_pages` permits and every call closes its own tab; the two are separate resources,
and only the permit is released by a drop. The accounts of both are kept by every step (`accounts_step`):
permits are exactly those available plus those held, and a tab is open for a call that holds a permit or was
abandoned. So as long as no step abandons a tab the tabs are bounded by the permits (`open_tabs_le_max_pages`).
`browser_screenshot`'s early return on a screenshot error abandons one (`screenshot_error_exceeds_max_pages`);
a cancellation while Chrome creates the tab does too, when Chrome opens it.
-/

namespace McpWebSearch
namespace Browser

open BrowserPool

variable {s s' : BrowserPool} {i : Nat} {c : Call} {maxPages leaked : Nat}

/-- The awaits at which Chrome can have something of the tab of a call. -/
def Call.Fits (c : Call) : Prop :=
  match c.tab with
  | .absent => True
  | .creating => c.pc = .newPage ∨ c.pc = .done
  | .opened => c.pc = .newPage ∨ c.pc = .goto ∨ c.pc = .extract ∨ c.pc = .close ∨ c.pc = .done
  | .closing => c.pc = .close ∨ c.pc = .done

/-- A call that has ended and whose tab is still open in Chrome. -/
def Call.orphaned (c : Call) : Bool := c.pc = .done && c.tab.isOpen

/-- A tab is open while its call holds a permit, or its call has ended. -/
theorem holdsPermit_or_orphaned (hfits : c.Fits) (h : c.tab.isOpen = true) :
    c.pc.holdsPermit = true ∨ c.orphaned = true := by
  cases hpc : c.pc with
  | done => exact .inr (by simp [Call.orphaned, hpc, h])
  | acquire =>
      cases htab : c.tab with
      | absent | creating =>
          rw [htab] at h
          cases h
      | opened | closing => simp [Call.Fits, htab, hpc] at hfits
  | lock | launch | newPage | goto | extract | close => exact .inl rfl

/-- What Chrome does keeps the awaits of the tab; it leaves the tab of a call that has ended open only by creating it. -/
theorem TabAction.fits {t : TabAction} {tab : Tab} (hfits : c.Fits) (h : t.apply c.tab = some tab) :
    Call.Fits { c with tab := tab } ∧
      (Call.orphaned { c with tab := tab }).toNat ≤ c.orphaned.toNat + (t = .created ∧ c.pc = .done : Bool).toNat := by
  obtain ⟨tool, pc, tab'⟩ := c
  cases t with
  | created =>
      cases tab' with
      | creating =>
          obtain rfl := Option.some.inj h
          refine ⟨hfits.elim .inl fun h => .inr (.inr (.inr (.inr h))), ?_⟩
          simp [Call.orphaned, Tab.isOpen]
      | absent | opened | closing => cases h
  | refused =>
      cases tab' with
      | creating =>
          obtain rfl := Option.some.inj h
          exact ⟨True.intro, by simp [Call.orphaned, Tab.isOpen]⟩
      | absent | opened | closing => cases h
  | closed =>
      cases tab' with
      | closing =>
          obtain rfl := Option.some.inj h
          exact ⟨True.intro, by simp [Call.orphaned, Tab.isOpen]⟩
      | absent | opened | creating => cases h
  | kept =>
      cases tab' with
      | closing =>
          obtain rfl := Option.some.inj h
          refine ⟨hfits.elim (fun h => .inr (.inr (.inr (.inl h)))) fun h => .inr (.inr (.inr (.inr h))), ?_⟩
          simp [Call.orphaned, Tab.isOpen]
      | absent | opened | creating => cases h

/-! ## What one action can do -/

/-- **Inversion of `act`.** A call either moves on, trading its permit for that of its next await, or it ends with its
    locals dropped; Chrome keeps what it has of the tab. -/
theorem act_cases {a : Action} (hfits : c.Fits) (h : s.act i c a = some s') :
    (∃ pc tab, c.ends a = false ∧ s'.calls = s.calls.set i { c with pc := pc, tab := tab } ∧
      s'.pageSem + pc.holdsPermit.toNat = s.pageSem + c.pc.holdsPermit.toNat ∧ pc ≠ .done ∧
      Call.Fits { c with pc := pc, tab := tab }) ∨
    (c.ends a = true ∧ c.pc ≠ .done ∧ s' = s.drop i c) := by
  -- the tab of a call that closes it: opened before, and closing now, or gone
  have hclose (hpc : c.pc = .goto ∨ c.pc = .extract) : Call.Fits { c with pc := .close, tab := c.tab.sendClose } := by
    cases htab : c.tab with
    | absent => exact True.intro
    | opened => exact .inl rfl
    | creating | closing => rcases hpc with hpc | hpc <;> simp [Call.Fits, htab, hpc] at hfits
  -- the tab of a call that keeps it for its next await
  have hkeep (pc : Pc) (hpc : c.tab = .absent ∨ (c.tab = .opened ∧ (pc = .goto ∨ pc = .extract))) :
      Call.Fits { c with pc := pc, tab := c.tab } := by
    rcases hpc with htab | ⟨htab, hpc | hpc⟩ <;> simp [Call.Fits, *]
  have habsent (hpc : c.pc = .acquire ∨ c.pc = .lock) : c.tab = .absent := by
    cases htab : c.tab with
    | absent => rfl
    | creating | opened | closing => rcases hpc with hpc | hpc <;> simp [Call.Fits, htab, hpc] at hfits
  cases a with
  | permit =>
      obtain ⟨⟨hpc, hsem⟩, rfl⟩ := by simpa [act] using h
      refine .inl ⟨.lock, c.tab, rfl, rfl, ?_, by decide, hkeep .lock (.inl (habsent (.inl hpc)))⟩
      show s.pageSem - 1 + 1 = s.pageSem + c.pc.holdsPermit.toNat
      rw [hpc]
      simp only [Pc.holdsPermit, Bool.toNat_false]
      omega
  | lock =>
      obtain ⟨⟨hpc, -⟩, rfl⟩ := by simpa [act] using h
      by_cases hst : s.resetCrashed = .notStarted
      · refine .inl ⟨.launch, c.tab, rfl, ?_, ?_, by decide, hkeep .launch (.inl (habsent (.inr hpc)))⟩
        · simp [hst, moveTo]
        · simp [hst, hpc, moveTo, Pc.holdsPermit]
      · refine .inl ⟨.newPage, .creating, rfl, ?_, ?_, by decide, .inl rfl⟩
        · simp [hst, moveTo]
        · simp [hst, hpc, moveTo, Pc.holdsPermit]
  | launch ok =>
      cases ok with
      | true =>
          obtain ⟨hpc, rfl⟩ := by simpa [act] using h
          exact .inl ⟨.newPage, .creating, rfl, rfl, by simp [hpc, moveTo, Pc.holdsPermit], by decide, .inl rfl⟩
      | false =>
          obtain ⟨hpc, rfl⟩ := by simpa [act] using h
          exact .inr ⟨rfl, by rw [hpc]; decide, rfl⟩
  | newPage ok =>
      cases ok with
      | true =>
          obtain ⟨⟨hpc, htab⟩, rfl⟩ := by simpa [act] using h
          exact .inl ⟨.goto, c.tab, rfl, rfl, by simp [hpc, moveTo, Pc.holdsPermit], by decide,
            hkeep .goto (.inr ⟨htab, .inl rfl⟩)⟩
      | false =>
          obtain ⟨hpc, rfl⟩ := by simpa [act] using h
          exact .inr ⟨rfl, by rw [hpc]; decide, rfl⟩
  | goto nav =>
      obtain ⟨hpc, rfl⟩ := by simpa [act] using h
      by_cases hnav : nav = .loaded
      · have hkept : c.tab = .absent ∨ c.tab = .opened := by
          cases htab : c.tab with
          | absent => exact .inl rfl
          | opened => exact .inr rfl
          | creating | closing => simp [Call.Fits, htab, hpc] at hfits
        refine .inl ⟨.extract, c.tab, rfl, by simp [hnav, moveTo], by simp [hnav, hpc, moveTo, Pc.holdsPermit], by decide,
          hkeep .extract (hkept.imp id fun htab => ⟨htab, .inr rfl⟩)⟩
      · exact .inl ⟨.close, c.tab.sendClose, rfl, by simp [hnav, moveTo], by simp [hnav, hpc, moveTo, Pc.holdsPermit],
          by decide, hclose (.inl hpc)⟩
  | extract ok =>
      by_cases hend : (!ok && c.tool = .browserScreenshot) = true
      · simp only [act, hend, if_true] at h
        obtain ⟨hpc, rfl⟩ := by simpa using h
        exact .inr ⟨hend, by rw [hpc]; decide, rfl⟩
      · simp only [act, hend] at h
        obtain ⟨hpc, rfl⟩ := by simpa using h
        exact .inl ⟨.close, c.tab.sendClose, Bool.eq_false_iff.mpr hend, rfl, by simp [hpc, moveTo, Pc.holdsPermit],
          by decide, hclose (.inr hpc)⟩
  | close =>
      obtain ⟨hpc, rfl⟩ := by simpa [act] using h
      exact .inr ⟨rfl, by rw [hpc]; decide, rfl⟩
  | cancel =>
      obtain ⟨hpc, rfl⟩ := by simpa [act] using h
      exact .inr ⟨rfl, hpc, rfl⟩

/-- Counting after one element of a list is replaced. -/
theorem countP_set_add {α : Type} {p : α → Bool} {xs : List α} {i : Nat} {x y : α}
    (hx : xs[i]? = some x) :
    (xs.set i y).countP p + (p x).toNat = xs.countP p + (p y).toNat := by
  induction xs generalizing i with
  | nil => exact absurd hx (by simp)
  | cons z zs ih =>
      cases i with
      | zero =>
          obtain rfl : z = x := by simpa using hx
          simp only [List.set_cons_zero, List.countP_cons]
          cases p z <;> cases p y <;> simp
      | succ i =>
          have hih := ih (i := i) (by simpa using hx)
          simp only [List.set_cons_succ, List.countP_cons]
          omega

/-- What is of one of two kinds is counted with one of them. -/
theorem countP_or_le {α : Type} (p q : α → Bool) (xs : List α) :
    xs.countP (fun x => p x || q x) ≤ xs.countP p + xs.countP q := by
  induction xs with
  | nil => exact Nat.le_refl 0
  | cons x xs ih =>
      simp only [List.countP_cons]
      cases hp : p x <;> cases hq : q x <;> simp only [Bool.or_true, Bool.or_false, if_true, if_false, Bool.false_eq_true] <;> omega

/-! ## The accounts -/

/-- **The accounts of the pool.** Permits are available or held; a tab is open for a live call, or was abandoned. -/
structure Accounts (maxPages leaked : Nat) (s : BrowserPool) : Prop where
  permits : s.pageSem + s.calls.countP (·.pc.holdsPermit) = maxPages
  fits : ∀ c ∈ s.calls, c.Fits
  orphans : s.calls.countP Call.orphaned ≤ leaked

theorem accounts_new (maxPages : Nat) : Accounts maxPages 0 (BrowserPool.new maxPages) where
  permits := by simp [BrowserPool.new]
  fits c hc := absurd hc List.not_mem_nil
  orphans := Nat.le_refl 0

/-- The awaits of the calls after one of them is replaced. -/
theorem fits_set {d : Call} (hs : Accounts maxPages leaked s) (hd : d.Fits) : ∀ c ∈ s.calls.set i d, c.Fits := by
  intro c hc
  rcases List.mem_or_eq_of_mem_set hc with hc | rfl
  · exact hs.fits c hc
  · exact hd

/-- A call that has ended holds nothing, and Chrome may have its tab as before. -/
theorem Call.fits_done (c : Call) : Call.Fits { c with pc := .done } := by
  cases htab : c.tab <;> simp [Call.Fits]

/-- One action of a call keeps the accounts; it adds an abandoned tab if it ends a call that has one open. -/
theorem accounts_act {a : Action} (hc : s.calls[i]? = some c) (hs : Accounts maxPages leaked s)
    (h : s.act i c a = some s') :
    Accounts maxPages (leaked + (c.tab.isOpen && c.ends a).toNat) s' := by
  have hpermits := hs.permits
  have horphans := hs.orphans
  have hfits := hs.fits c (List.mem_of_getElem? hc)
  rcases act_cases hfits h with ⟨pc, tab, hends, hcalls, hsem, hlive, hfits'⟩ | ⟨hends, hlive, rfl⟩
  · -- the call moves on: it trades its permit, and it has not ended
    have hp := countP_set_add (p := fun c : Call => c.pc.holdsPermit) (y := { c with pc := pc, tab := tab }) hc
    have ho := countP_set_add (p := Call.orphaned) (y := { c with pc := pc, tab := tab }) hc
    have hnot : Call.orphaned { c with pc := pc, tab := tab } = false := by simp [Call.orphaned, hlive]
    rw [hnot, Bool.toNat_false, ← hcalls] at ho
    rw [← hcalls] at hp
    rw [hends, Bool.and_false, Bool.toNat_false]
    refine ⟨?_, ?_, ?_⟩
    · simp only at hp
      omega
    · rw [hcalls]
      exact fits_set hs hfits'
    · omega
  · -- the drop returns the permit but not the tab, which is the leak
    have hp := countP_set_add (p := fun c : Call => c.pc.holdsPermit) (y := { c with pc := .done }) hc
    have ho := countP_set_add (p := Call.orphaned) (y := { c with pc := .done }) hc
    rw [hends, Bool.and_true]
    refine ⟨?_, fits_set hs c.fits_done, ?_⟩
    · show s.pageSem + c.pc.holdsPermit.toNat + (s.calls.set i _).countP _ = maxPages
      change _ = _ + 0 at hp
      omega
    · show (s.calls.set i _).countP _ ≤ _
      have hopen : Call.orphaned { c with pc := .done } = c.tab.isOpen := rfl
      rw [hopen] at ho
      omega

/-- What Chrome does keeps the accounts; it adds an abandoned tab if it opens one for a call that has ended. -/
theorem accounts_tab {t : TabAction} {tab : Tab} (hc : s.calls[i]? = some c) (hs : Accounts maxPages leaked s)
    (h : t.apply c.tab = some tab) :
    Accounts maxPages (leaked + (t = .created ∧ c.pc = .done : Bool).toNat) (s.moveTo i c c.pc tab) := by
  have hpermits := hs.permits
  have horphans := hs.orphans
  obtain ⟨hfits, horphaned⟩ := TabAction.fits (hs.fits c (List.mem_of_getElem? hc)) h
  have hp := countP_set_add (p := fun c : Call => c.pc.holdsPermit) (y := { c with tab := tab }) hc
  have ho := countP_set_add (p := Call.orphaned) (y := { c with tab := tab }) hc
  refine ⟨?_, fits_set hs hfits, ?_⟩
  · show s.pageSem + (s.calls.set i _).countP _ = maxPages
    simp only at hp
    omega
  · show (s.calls.set i _).countP _ ≤ _
    omega

/-- **Step lemma.** Every event keeps the accounts, and only `abandonsTab` events add to the leak. -/
theorem accounts_step {e : Event} (hs : Accounts maxPages leaked s) (h : s.step e = some s') :
    Accounts maxPages (leaked + (abandonsTab s e).toNat) s' := by
  cases e with
  | call tool =>
      obtain rfl := Option.some.inj h
      refine ⟨by simpa [Pc.holdsPermit] using hs.permits, fun c hc => ?_, ?_⟩
      · rcases List.mem_append.mp hc with hc | hc
        · exact hs.fits c hc
        · obtain rfl := List.mem_singleton.mp hc
          exact True.intro
      · simpa [Call.orphaned, abandonsTab] using hs.orphans
  | act i a =>
      cases hc : s.calls[i]? with
      | none =>
          rw [step, hc] at h
          exact absurd h (by simp)
      | some c =>
          rw [step, hc] at h
          rw [abandonsTab, hc]
          exact accounts_act hc hs h
  | tab i t =>
      cases hc : s.calls[i]? with
      | none =>
          rw [step, hc] at h
          exact absurd h (by simp)
      | some c =>
          rw [step, hc] at h
          obtain ⟨tab, htab, rfl⟩ := Option.map_eq_some_iff.mp h
          have haccounts := accounts_tab hc hs htab
          cases t with
          | created => simpa [abandonsTab, hc] using haccounts
          | refused | closed | kept => simpa [abandonsTab] using haccounts
  | crash =>
      cases hst : s.state with
      | notStarted =>
          rw [step, hst] at h
          exact absurd h (by simp)
      | running finished =>
          rw [step, hst] at h
          obtain rfl := Option.some.inj h
          refine ⟨?_, fun c hc => ?_, ?_⟩
          · show s.pageSem + (s.calls.map _).countP _ = maxPages
            rw [List.countP_map]
            exact hs.permits
          · obtain ⟨d, -, rfl⟩ := List.mem_map.mp hc
            exact True.intro
          · -- the tabs are gone with Chrome
            show (s.calls.map _).countP _ ≤ _
            rw [List.countP_map, List.countP_eq_zero.mpr fun c _ => by simp [Call.orphaned, Tab.isOpen]]
            exact Nat.zero_le _

/-- The tabs of live calls never outnumber the permits. -/
theorem Accounts.openTabs_le (hs : Accounts maxPages leaked s) : s.openTabs ≤ maxPages + leaked := by
  have hle : s.openTabs ≤ s.calls.countP (fun c => c.pc.holdsPermit || c.orphaned) :=
    List.countP_mono_left fun c hc h => Bool.or_eq_true_iff.mpr (holdsPermit_or_orphaned (hs.fits c hc) h)
  have := countP_or_le (·.pc.holdsPermit) Call.orphaned s.calls
  have := hs.permits
  have := hs.orphans
  omega

/-! ## Runs -/

/-- The steps of a run that abandon a tab. -/
def abandoned (s : BrowserPool) : List Event → Nat
  | []      => 0
  | e :: es => (abandonsTab s e).toNat + (s.step e).elim 0 (fun s' => abandoned s' es)

/-- **Run lemma.** Along every run the accounts hold with the tabs abandoned on the way. -/
theorem accounts_exec {es : List Event} (hs : Accounts maxPages leaked s)
    (h : pool.exec s es = some s') : Accounts maxPages (leaked + abandoned s es) s' := by
  induction es generalizing s leaked with
  | nil =>
      obtain rfl := Option.some.inj h
      exact hs
  | cons e es ih =>
      obtain ⟨m, hm, hes⟩ := Option.bind_eq_some_iff.mp h
      have hm' : s.step e = some m := hm
      have := ih (accounts_step hs hm') hes
      rwa [abandoned, hm', Option.elim_some, ← Nat.add_assoc]

/-- **Open tabs.** In every run they exceed `max_pages` by no more than the tabs abandoned on the way. -/
theorem open_tabs_le_max_pages_add_abandoned {es : List Event}
    (h : pool.exec (BrowserPool.new maxPages) es = some s) :
    s.openTabs ≤ maxPages + abandoned (BrowserPool.new maxPages) es := by
  have hs := accounts_exec (accounts_new maxPages) h
  rw [Nat.zero_add] at hs
  exact hs.openTabs_le

/-- **The page pool bounds open tabs.** In every run, of any number of interleaved calls, in which no step ends a call with
    its tab open in Chrome and Chrome opens no tab for a call that has ended, at most `max_pages` tabs are open. -/
theorem open_tabs_le_max_pages (maxPages : Nat) (es : List Event) (s : BrowserPool)
    (hok : pool.Along (fun s e => abandonsTab s e = false) (BrowserPool.new maxPages) es)
    (h : pool.exec (BrowserPool.new maxPages) es = some s) : s.openTabs ≤ maxPages := by
  have hs : Accounts maxPages 0 s := by
    refine Machine.exec_invariant_along (M := pool) ?_ (accounts_new maxPages) hok h
    intro s e s' hs hkeep hstep
    have := accounts_step hs hstep
    rwa [hkeep] at this
  exact hs.openTabs_le

/-- A scrape that closes its tab while a second call waits for the only permit. -/
theorem open_tabs_le_max_pages_scrape :
    ∃ s, pool.exec (BrowserPool.new 1)
        [.call .browserScrape, .call .browserScreenshot, .act 0 .permit, .act 0 .lock, .act 0 (.launch true),
          .tab 0 .created, .act 0 (.newPage true), .act 0 (.goto .timedOut), .tab 0 .closed, .act 0 .close,
          .act 1 .permit, .act 1 .lock, .tab 1 .created] = some s ∧
      s.openTabs ≤ 1 :=
  ⟨_, rfl, open_tabs_le_max_pages 1
    [.call .browserScrape, .call .browserScreenshot, .act 0 .permit, .act 0 .lock, .act 0 (.launch true),
      .tab 0 .created, .act 0 (.newPage true), .act 0 (.goto .timedOut), .tab 0 .closed, .act 0 .close,
      .act 1 .permit, .act 1 .lock, .tab 1 .created] _ (by decide) rfl⟩

/-- **A screenshot error leaks its tab.** `page.screenshot(..)` fails, `?` returns early, the permit goes
    back and the tab stays; the next call opens a second tab with `max_pages = 1`. -/
theorem screenshot_error_exceeds_max_pages :
    ¬ ∀ (maxPages : Nat) (es : List Event) (s : BrowserPool),
      pool.exec (BrowserPool.new maxPages) es = some s → s.openTabs ≤ maxPages := by
  intro h
  have := h 1
    [.call .browserScreenshot, .act 0 .permit, .act 0 .lock, .act 0 (.launch true), .tab 0 .created,
      .act 0 (.newPage true), .act 0 (.goto .loaded), .act 0 (.extract false),
      .call .browserScrape, .act 1 .permit, .act 1 .lock, .tab 1 .created] _ rfl
  exact absurd this (by decide)

/-- A cancellation while the command of `new_page` is out: Chrome opens the tab all the same, beside that of the next call. -/
example : (pool.exec (BrowserPool.new 1)
    [.call .browserScrape, .act 0 .permit, .act 0 .lock, .act 0 (.launch true), .act 0 .cancel,
      .call .browserScrape, .act 1 .permit, .act 1 .lock, .tab 0 .created, .tab 1 .created]).map (·.openTabs) = some 2 := by
  decide

end Browser
end McpWebSearch
