import Mathlib.Algebra.Order.BigOperators.Group.List
import McpWebSearch.Correctness.Browser
import McpWebSearch.Correctness.Http

/-!
# `Correctness.PagePool` — the lock of the page pool, and that the pool never gets stuck

A caller waits for a permit, and then for the state lock, which it holds while it launches Chrome and opens its tab.
`Disciplined` is the invariant of the lock: the calls that hold it are those between `lock` and the end of the block, so there
is at most one of them, and what it waits for is Chrome; Chrome has a tab of a call only as long as it runs. So a call that is not
done can move, or another one can that has what it waits for (`canMove`), and every move leaves a call nearer to its end
(`Call.left`).
-/

namespace McpWebSearch
namespace Browser

open BrowserPool

/-- `get_pool` on its first call; the later ones find the same pool. -/
def getPool (settings : BrowserSettings) : Option BrowserPool :=
  if settings.disabled then none else some (BrowserPool.new settings.maxPages)

/-- A call holds the state lock from `lock` to the end of the block. -/
def Pc.holdsLock : Pc → Bool
  | .launch | .newPage => true
  | _ => false

/-- What the state is while a call is at an await: no browser when one is launched, and a browser when a tab is opened. -/
def Pc.Fits : Pc → PoolState → Prop
  | .launch, st => st = .notStarted
  | .newPage, st => st ≠ .notStarted
  | _, _ => True

/-- What is left to a call at an await: its own awaits, and the commands it can still send. -/
def Pc.left : Pc → Nat
  | .acquire => 9
  | .lock => 8
  | .launch => 7
  | .newPage => 5
  | .goto => 4
  | .extract => 3
  | .close => 1
  | .done => 0

/-- A command that is out is acted on once. -/
def Tab.left : Tab → Nat
  | .creating | .closing => 1
  | .absent | .opened => 0

def Call.left (c : Call) : Nat := c.pc.left + c.tab.left

variable {s s' : BrowserPool} {i : Nat} {c : Call} {maxPages leaked : Nat}

/-! ## The lock -/

/-- **The discipline of the state lock.** The calls that hold it are those at its awaits, and its holder is a call; the state
    is what the awaits of the calls say, and Chrome runs while it has a tab of a call, or is asked for one. -/
structure Disciplined (s : BrowserPool) : Prop where
  lock : ∀ i c, s.calls[i]? = some c → (c.pc.holdsLock = true ↔ s.stateLock = some i)
  holder : ∀ i, s.stateLock = some i → i < s.calls.length
  fits : ∀ c ∈ s.calls, c.pc.Fits s.state
  tabs : ∀ c ∈ s.calls, c.tab ≠ .absent → s.state = .running false

theorem disciplined_new (maxPages : Nat) : Disciplined (BrowserPool.new maxPages) where
  lock i c hc := by cases hc
  holder i hi := by cases hi
  fits c hc := absurd hc List.not_mem_nil
  tabs c hc := absurd hc List.not_mem_nil

/-- Only a call that holds the lock says anything about the state. -/
theorem Pc.fits_of_not_holdsLock {pc : Pc} (h : pc.holdsLock = false) (st : PoolState) : pc.Fits st := by
  cases pc with
  | launch | newPage => cases h
  | acquire | lock | goto | extract | close | done => exact True.intro

/-- There is nothing to close where there is no tab, and a command more where there is one. -/
theorem Tab.left_sendClose (t : Tab) : t.sendClose.left ≤ t.left + 1 := by
  cases t with
  | opened => exact Nat.le_refl 1
  | absent | creating | closing => exact Nat.le_succ _

/-- A call gets nearer to its end where it keeps its tab as it is, and where it sends a command. -/
theorem Call.left_lt {pc : Pc} (pc' : Pc) (hpc : c.pc = pc) (hlt : pc'.left < pc.left) : pc'.left + c.tab.left < c.left := by
  rw [Call.left, hpc]
  exact Nat.add_lt_add_right hlt _

theorem Call.left_lt_of_send {pc : Pc} {tab : Tab} (pc' : Pc) (hpc : c.pc = pc) (htab : tab.left ≤ c.tab.left + 1)
    (hlt : pc'.left + 1 < pc.left) : pc'.left + tab.left < c.left := by
  rw [Call.left, hpc]
  omega

theorem Tab.sendClose_ne_absent {t : Tab} (h : t.sendClose ≠ .absent) : t ≠ .absent := by
  rintro rfl
  exact h rfl

/-- What one action does to the lock and to the state, when it leaves call `i` as `d`. -/
structure Effect (s : BrowserPool) (i : Nat) (c d : Call) (s' : BrowserPool) : Prop where
  calls : s'.calls = s.calls.set i d
  left : d.left < c.left
  stateLock : s'.stateLock = if d.pc.holdsLock then some i else if s.stateLock = some i then none else s.stateLock
  free : d.pc.holdsLock = true → s.stateLock = none ∨ s.stateLock = some i
  state : s'.state = s.state ∨ s.stateLock = none ∨ s.stateLock = some i
  fits : d.pc.Fits s'.state
  tab : d.tab ≠ .absent → s'.state = .running false
  runs : s.state = .running false → s'.state = .running false

/-- The drop of a call that is not done. -/
theorem effect_drop (hs : Disciplined s) (hc : c ∈ s.calls) (hpc : 0 < c.pc.left) :
    Effect s i c { c with pc := .done } (s.drop i c) where
  calls := rfl
  left := by
    show 0 + c.tab.left < c.pc.left + c.tab.left
    omega
  stateLock := rfl
  free h := by cases h
  state := .inl rfl
  fits := True.intro
  tab := hs.tabs c hc
  runs h := h

/-- The move of a call to an await where it holds the lock if it did before. -/
theorem effect_moveTo (pc : Pc) (tab : Tab) (hleft : pc.left + tab.left < c.left) (hholds : pc.holdsLock = c.pc.holdsLock)
    (hlock : c.pc.holdsLock = true ↔ s.stateLock = some i) (hfits : pc.Fits s.state)
    (htab : tab ≠ .absent → s.state = .running false) : Effect s i c { c with pc := pc, tab := tab } (s.moveTo i c pc tab) where
  calls := rfl
  left := hleft
  stateLock := by
    show s.stateLock = if pc.holdsLock then _ else _
    rw [hholds]
    by_cases hheld : c.pc.holdsLock = true
    · rw [if_pos hheld]
      exact hlock.mp hheld
    · rw [if_neg hheld, if_neg (mt hlock.mpr hheld)]
  free h := .inr (hlock.mp (hholds ▸ h))
  state := .inl rfl
  fits := hfits
  tab := htab
  runs h := h

/-- A browser that is kept at the top of the locked section is one that runs. -/
theorem resetCrashed_of_ne (h : s.resetCrashed ≠ .notStarted) : s.resetCrashed = .running false := by
  unfold resetCrashed at h ⊢
  cases hst : s.state with
  | notStarted =>
      rw [hst] at h
      exact absurd rfl h
  | running finished =>
      cases finished with
      | true =>
          rw [hst] at h
          exact absurd rfl h
      | false => rfl

theorem resetCrashed_of_running (h : s.state = .running false) : s.resetCrashed = .running false := by
  rw [resetCrashed, h]

/-- **Inversion of `act` for the lock.** -/
theorem act_effect {a : Action} (hs : Disciplined s) (hc : s.calls[i]? = some c) (h : s.act i c a = some s') :
    ∃ d, Effect s i c d s' := by
  have hmem := List.mem_of_getElem? hc
  have hlock := hs.lock i c hc
  have hfits := hs.fits c hmem
  have htab := hs.tabs c hmem
  have hclose := Tab.left_sendClose c.tab
  cases a with
  | permit =>
      obtain ⟨⟨hpc, -⟩, rfl⟩ := by simpa [act] using h
      obtain ⟨hcalls, hleft, hstate, hfree, hkept, hfit, htabs, hruns⟩ :=
        effect_moveTo (s := s) .lock c.tab (Call.left_lt .lock hpc (by decide)) (by rw [hpc]; rfl) hlock True.intro htab
      exact ⟨_, hcalls, hleft, hstate, hfree, hkept, hfit, htabs, hruns⟩
  | lock =>
      obtain ⟨⟨hpc, hnone⟩, rfl⟩ := by simpa [act] using h
      by_cases hst : s.resetCrashed = .notStarted
      · refine ⟨{ c with pc := .launch }, ?_, Call.left_lt .launch hpc (by decide), rfl, fun _ => .inl hnone,
          .inr (.inl hnone), hst, fun h => resetCrashed_of_running (htab h), resetCrashed_of_running⟩
        rw [if_pos hst]
        rfl
      · refine ⟨{ c with pc := .newPage, tab := .creating }, ?_,
          Call.left_lt_of_send .newPage hpc (Nat.le_add_left _ _) (by decide), rfl, fun _ => .inl hnone, .inr (.inl hnone), hst,
          fun _ => resetCrashed_of_ne hst, resetCrashed_of_running⟩
        rw [if_neg hst]
        rfl
  | launch ok =>
      cases ok with
      | true =>
          obtain ⟨hpc, rfl⟩ := by simpa [act] using h
          have hheld : s.stateLock = some i := hlock.mp (by rw [hpc]; rfl)
          exact ⟨{ c with pc := .newPage, tab := .creating }, rfl,
            Call.left_lt_of_send .newPage hpc (Nat.le_add_left _ _) (by decide), hheld, fun _ => .inr hheld,
            .inr (.inr hheld), fun h => (by cases h), fun _ => rfl, fun _ => rfl⟩
      | false =>
          obtain ⟨hpc, rfl⟩ := by simpa [act] using h
          exact ⟨_, effect_drop hs hmem (by rw [hpc]; decide)⟩
  | newPage ok =>
      cases ok with
      | true =>
          obtain ⟨⟨hpc, hopened⟩, rfl⟩ := by simpa [act] using h
          have hheld : s.stateLock = some i := hlock.mp (by rw [hpc]; rfl)
          refine ⟨{ c with pc := .goto }, rfl, Call.left_lt .goto hpc (by decide), ?_, fun h => (by cases h), .inl rfl,
            True.intro, htab, fun h => h⟩
          rw [hheld, if_pos rfl]
          rfl
      | false =>
          obtain ⟨hpc, rfl⟩ := by simpa [act] using h
          exact ⟨_, effect_drop hs hmem (by rw [hpc]; decide)⟩
  | goto nav =>
      obtain ⟨hpc, rfl⟩ := by simpa [act] using h
      by_cases hnav : nav = .loaded
      · rw [if_pos hnav]
        exact ⟨_, effect_moveTo .extract c.tab (Call.left_lt .extract hpc (by decide)) (by rw [hpc]; rfl) hlock True.intro htab⟩
      · rw [if_neg hnav]
        exact ⟨_, effect_moveTo .close c.tab.sendClose (Call.left_lt_of_send .close hpc hclose (by decide)) (by rw [hpc]; rfl) hlock
          True.intro fun h => htab (Tab.sendClose_ne_absent h)⟩
  | extract ok =>
      by_cases hend : (!ok && c.tool = .browserScreenshot) = true
      · simp only [act, hend, if_true] at h
        obtain ⟨hpc, rfl⟩ := by simpa using h
        exact ⟨_, effect_drop hs hmem (by rw [hpc]; decide)⟩
      · simp only [act, hend] at h
        obtain ⟨hpc, rfl⟩ := by simpa using h
        exact ⟨_, effect_moveTo .close c.tab.sendClose (Call.left_lt_of_send .close hpc hclose (by decide)) (by rw [hpc]; rfl) hlock
          True.intro fun h => htab (Tab.sendClose_ne_absent h)⟩
  | close =>
      obtain ⟨hpc, rfl⟩ := by simpa [act] using h
      exact ⟨_, effect_drop hs hmem (by rw [hpc]; decide)⟩
  | cancel =>
      obtain ⟨hpc, rfl⟩ := by simpa [act] using h
      refine ⟨_, effect_drop hs hmem ?_⟩
      cases hcase : c.pc with
      | done => exact absurd hcase hpc
      | acquire | lock | launch | newPage | goto | extract | close => decide

/-- What Chrome does about a command that is out is an action of its call too, which moves on nothing but the tab. -/
theorem tab_effect {t : TabAction} {tab : Tab} (hs : Disciplined s) (hc : s.calls[i]? = some c)
    (h : t.apply c.tab = some tab) : Effect s i c { c with tab := tab } (s.moveTo i c c.pc tab) := by
  have hmem := List.mem_of_getElem? hc
  have hout : c.tab ≠ .absent ∧ tab.left < c.tab.left := by
    generalize c.tab = tab₀ at h
    cases t with
    | created | refused =>
        cases tab₀ with
        | creating =>
            obtain rfl := Option.some.inj h
            exact ⟨by decide, by decide⟩
        | absent | opened | closing => cases h
    | closed | kept =>
        cases tab₀ with
        | closing =>
            obtain rfl := Option.some.inj h
            exact ⟨by decide, by decide⟩
        | absent | opened | creating => cases h
  exact effect_moveTo c.pc tab (Nat.add_lt_add_left hout.2 _) rfl (hs.lock i c hc) (hs.fits c hmem) fun _ =>
    hs.tabs c hmem hout.1

/-- The lock and the state after an action that has such an effect. -/
theorem Effect.disciplined {d : Call} (he : Effect s i c d s') (hs : Disciplined s) (hc : s.calls[i]? = some c) :
    Disciplined s' := by
  have hlt : i < s.calls.length := (List.getElem?_eq_some_iff.mp hc).1
  have hget (j : Nat) : s'.calls[j]? = if i = j then some d else s.calls[j]? := by
    rw [he.calls, List.getElem?_set]
    by_cases hij : i = j
    · rw [if_pos hij, if_pos hij, if_pos hlt]
    · rw [if_neg hij, if_neg hij]
  -- another call that holds the lock held it before, and so the action was not one that touches it
  have hother {j : Nat} (hij : i ≠ j) : s'.stateLock = some j ↔ s.stateLock = some j := by
    rw [he.stateLock]
    by_cases hholds : d.pc.holdsLock = true
    · rw [if_pos hholds]
      refine ⟨fun heq => absurd (Option.some.inj heq) hij, fun heq => ?_⟩
      rcases he.free hholds with hnone | hsome
      · rw [hnone] at heq
        cases heq
      · exact absurd (Option.some.inj (hsome.symm.trans heq)) hij
    · rw [if_neg hholds]
      by_cases hheld : s.stateLock = some i
      · rw [if_pos hheld, hheld]
        exact ⟨fun heq => (by cases heq), fun heq => absurd (Option.some.inj heq) hij⟩
      · rw [if_neg hheld]
  constructor
  · intro j e hj
    rw [hget] at hj
    by_cases hij : i = j
    · rw [if_pos hij] at hj
      obtain rfl := Option.some.inj hj
      subst hij
      rw [he.stateLock]
      by_cases hholds : d.pc.holdsLock = true
      · rw [if_pos hholds]
        exact ⟨fun _ => rfl, fun _ => hholds⟩
      · rw [if_neg hholds]
        refine ⟨fun h => absurd h hholds, fun h => ?_⟩
        by_cases hheld : s.stateLock = some i
        · rw [if_pos hheld] at h
          cases h
        · rw [if_neg hheld] at h
          exact absurd h hheld
    · rw [if_neg hij] at hj
      rw [hother hij]
      exact hs.lock j e hj
  · intro j hj
    rw [he.calls, List.length_set]
    by_cases hij : i = j
    · exact hij ▸ hlt
    · exact hs.holder j ((hother hij).mp hj)
  · intro e hmem
    obtain ⟨j, hj⟩ := List.getElem?_of_mem hmem
    rw [hget] at hj
    by_cases hij : i = j
    · rw [if_pos hij] at hj
      obtain rfl := Option.some.inj hj
      exact he.fits
    · rw [if_neg hij] at hj
      cases hholds : e.pc.holdsLock with
      | false => exact Pc.fits_of_not_holdsLock hholds s'.state
      | true =>
          have hheld : s.stateLock = some j := (hs.lock j e hj).mp hholds
          rcases he.state with hstate | hnone | hsome
          · rw [hstate]
            exact hs.fits e (List.mem_of_getElem? hj)
          · rw [hheld] at hnone
            cases hnone
          · exact absurd (Option.some.inj (hsome.symm.trans hheld)) hij
  · intro e hmem htab
    rw [he.calls] at hmem
    rcases List.mem_or_eq_of_mem_set hmem with hmem | rfl
    · exact he.runs (hs.tabs e hmem htab)
    · exact he.tab htab

/-- **Step lemma.** -/
theorem disciplined_step {e : Event} (hs : Disciplined s) (h : s.step e = some s') : Disciplined s' := by
  cases e with
  | call tool =>
      obtain rfl := Option.some.inj h
      refine ⟨fun i c hc => ?_, fun i hi => ?_, fun c hc => ?_, fun c hc htab => ?_⟩
      · rw [List.getElem?_append] at hc
        by_cases hi : i < s.calls.length
        · rw [if_pos hi] at hc
          exact hs.lock i c hc
        · rw [if_neg hi, List.getElem?_singleton] at hc
          split at hc
          · obtain rfl := Option.some.inj hc
            exact ⟨fun h => (by cases h), fun h => absurd (hs.holder i h) hi⟩
          · cases hc
      · rw [List.length_append]
        exact Nat.lt_add_right _ (hs.holder i hi)
      · rcases List.mem_append.mp hc with hc | hc
        · exact hs.fits c hc
        · obtain rfl := List.mem_singleton.mp hc
          exact True.intro
      · rcases List.mem_append.mp hc with hc | hc
        · exact hs.tabs c hc htab
        · obtain rfl := List.mem_singleton.mp hc
          exact absurd rfl htab
  | act i a =>
      cases hc : s.calls[i]? with
      | none =>
          rw [step, hc] at h
          cases h
      | some c =>
          rw [step, hc] at h
          obtain ⟨d, he⟩ := act_effect hs hc h
          exact he.disciplined hs hc
  | tab i t =>
      cases hc : s.calls[i]? with
      | none =>
          rw [step, hc] at h
          cases h
      | some c =>
          rw [step, hc] at h
          obtain ⟨tab, htab, rfl⟩ := Option.map_eq_some_iff.mp h
          exact (tab_effect hs hc htab).disciplined hs hc
  | crash =>
      cases hst : s.state with
      | notStarted =>
          rw [step, hst] at h
          cases h
      | running finished =>
          rw [step, hst] at h
          obtain rfl := Option.some.inj h
          refine ⟨fun i c hc => ?_, fun i hi => ?_, fun c hc => ?_, fun c hc htab => ?_⟩
          · rw [List.getElem?_map] at hc
            obtain ⟨d, hd, rfl⟩ := Option.map_eq_some_iff.mp hc
            exact hs.lock i d hd
          · rw [List.length_map]
            exact hs.holder i hi
          · -- a browser has crashed, so none is being launched; and a crashed one is still a browser
            obtain ⟨d, hd, rfl⟩ := List.mem_map.mp hc
            have hfits := hs.fits d hd
            rw [hst] at hfits
            show d.pc.Fits _
            cases hpc : d.pc with
            | launch =>
                rw [hpc] at hfits
                cases hfits
            | newPage =>
                intro h
                cases h
            | acquire | lock | goto | extract | close | done => exact True.intro
          · obtain ⟨d, -, rfl⟩ := List.mem_map.mp hc
            exact absurd rfl htab

/-- **Run lemma.** -/
theorem disciplined_exec {es : List Event} (h : pool.exec (BrowserPool.new maxPages) es = some s) : Disciplined s :=
  Machine.exec_invariant (M := pool) (I := Disciplined) (fun _ _ _ hs hstep => disciplined_step hs hstep)
    (disciplined_new maxPages) h

/-- At most one call is between `lock` and the end of the block. -/
theorem Disciplined.exclusive (hs : Disciplined s) {j : Nat} {d : Call} (hc : s.calls[i]? = some c) (hd : s.calls[j]? = some d)
    (hholds : c.pc.holdsLock = true) (hholds' : d.pc.holdsLock = true) : i = j :=
  Option.some.inj (((hs.lock i c hc).mp hholds).symm.trans ((hs.lock j d hd).mp hholds'))

/-! ## Progress -/

/-- Some call can go on by itself. -/
def CanMove (s : BrowserPool) : Prop := ∃ i a, a ≠ .cancel ∧ s.step (.act i a) ≠ none

theorem canMove_of_act {a : Action} (hc : s.calls[i]? = some c) (ha : a ≠ .cancel) (h : s.act i c a = some s') : CanMove s := by
  refine ⟨i, a, ha, ?_⟩
  rw [step, hc]
  show s.act i c a ≠ none
  rw [h]
  exact Option.some_ne_none s'

/-- A call that has the lock waits for Chrome alone. -/
theorem canMove_of_holdsLock (hc : s.calls[i]? = some c) (hholds : c.pc.holdsLock = true) : CanMove s := by
  cases hpc : c.pc with
  | launch => exact canMove_of_act (a := .launch false) hc (by decide) (if_pos hpc)
  | newPage => exact canMove_of_act (a := .newPage false) hc (by decide) (if_pos hpc)
  | acquire | lock | goto | extract | close | done =>
      rw [hpc] at hholds
      cases hholds

/-- A call that has a permit waits for Chrome, or for the lock, whose holder waits for Chrome. -/
theorem canMove_of_holdsPermit (hs : Disciplined s) (hc : s.calls[i]? = some c) (hholds : c.pc.holdsPermit = true) :
    CanMove s := by
  cases hpc : c.pc with
  | acquire | done =>
      rw [hpc] at hholds
      cases hholds
  | lock =>
      cases hlock : s.stateLock with
      | none => exact canMove_of_act (a := .lock) hc (by decide) (if_pos ⟨hpc, hlock⟩)
      | some j =>
          have hlt : j < s.calls.length := hs.holder j hlock
          have hj : s.calls[j]? = some s.calls[j] := List.getElem?_eq_getElem hlt
          exact canMove_of_holdsLock hj ((hs.lock j _ hj).mpr hlock)
  | launch | newPage => exact canMove_of_holdsLock hc (by rw [hpc]; rfl)
  | goto => exact canMove_of_act (a := .goto .failed) hc (by decide) (if_pos hpc)
  | extract => exact canMove_of_act (a := .extract true) hc (by decide) (by rw [act, if_pos hpc]; rfl)
  | close => exact canMove_of_act (a := .close) hc (by decide) (if_pos hpc)

/-- **Progress.** As long as a call is not done, a call can go on by itself. -/
theorem canMove (hs : Disciplined s) (haccounts : Accounts maxPages leaked s) (hpages : 0 < maxPages) (hc : s.calls[i]? = some c)
    (hpc : c.pc ≠ .done) : CanMove s := by
  by_cases hholds : c.pc.holdsPermit = true
  · exact canMove_of_holdsPermit hs hc hholds
  · -- it waits for a permit: one is free, or another call has it
    have hacquire : c.pc = .acquire := by
      cases hcase : c.pc with
      | acquire => rfl
      | done => exact absurd hcase hpc
      | lock | launch | newPage | goto | extract | close =>
          rw [hcase] at hholds
          exact absurd rfl hholds
    by_cases hfree : 0 < s.pageSem
    · exact canMove_of_act (a := .permit) hc (by decide) (if_pos ⟨hacquire, hfree⟩)
    · have hheld : 0 < s.calls.countP (·.pc.holdsPermit) := by
        have := haccounts.permits
        omega
      obtain ⟨d, hd, hholds'⟩ := List.countP_pos_iff.mp hheld
      obtain ⟨j, hj⟩ := List.getElem?_of_mem hd
      exact canMove_of_holdsPermit hs hj hholds'

/-! ## The length of a run -/

/-- The moves of calls in a run, with what Chrome does about their commands. -/
def moves (es : List Event) : Nat :=
  es.countP fun
    | .act _ _ | .tab _ _ => true
    | _ => false

/-- The calls of a run. -/
def started (es : List Event) : Nat :=
  es.countP fun
    | .call _ => true
    | _ => false

/-- What an action of a call takes from what is left. -/
theorem Effect.left_sum {d : Call} (he : Effect s i c d s') (hc : s.calls[i]? = some c) :
    1 + (s'.calls.map Call.left).sum ≤ (s.calls.map Call.left).sum + 9 * 0 := by
  have hlt := Machine.sum_map_set_lt (f := Call.left) hc he.left
  rw [← he.calls] at hlt
  omega

/-- **Step lemma.** A move takes from what is left to the calls, and only a new call adds to it. -/
theorem left_step {e : Event} (hs : Disciplined s) (h : s.step e = some s') :
    moves [e] + (s'.calls.map Call.left).sum ≤ (s.calls.map Call.left).sum + 9 * started [e] := by
  cases e with
  | call tool =>
      obtain rfl := Option.some.inj h
      show 0 + ((s.calls ++ [(⟨tool, .acquire, .absent⟩ : Call)]).map Call.left).sum ≤ _ + 9 * 1
      rw [List.map_append, List.sum_append]
      show 0 + (_ + (9 + 0)) ≤ _
      omega
  | act i a =>
      cases hc : s.calls[i]? with
      | none =>
          rw [step, hc] at h
          cases h
      | some c =>
          rw [step, hc] at h
          obtain ⟨d, he⟩ := act_effect hs hc h
          exact he.left_sum hc
  | tab i t =>
      cases hc : s.calls[i]? with
      | none =>
          rw [step, hc] at h
          cases h
      | some c =>
          rw [step, hc] at h
          obtain ⟨tab, htab, rfl⟩ := Option.map_eq_some_iff.mp h
          exact (tab_effect hs hc htab).left_sum hc
  | crash =>
      cases hst : s.state with
      | notStarted =>
          rw [step, hst] at h
          cases h
      | running finished =>
          rw [step, hst] at h
          obtain rfl := Option.some.inj h
          -- nothing is out in a Chrome that is gone
          show 0 + ((s.calls.map _).map Call.left).sum ≤ _ + 9 * 0
          rw [List.map_map]
          have hle : ((s.calls.map (Call.left ∘ ({ · with tab := .absent }))).sum ≤ (s.calls.map Call.left).sum) :=
            List.sum_le_sum fun c _ => Nat.le_add_right _ _
          omega

/-- **Run lemma.** -/
theorem left_exec {es : List Event} (h : pool.exec (BrowserPool.new maxPages) es = some s) :
    moves es + (s.calls.map Call.left).sum ≤ 9 * started es := by
  have hrun : Disciplined s ∧ moves es + (s.calls.map Call.left).sum ≤ 9 * started es := by
    refine Machine.exec_trace_invariant (M := pool)
      (I := fun es s => Disciplined s ∧ moves es + (s.calls.map Call.left).sum ≤ 9 * started es) ?_ ?_ h
    · exact ⟨disciplined_new maxPages, Nat.le_refl 0⟩
    · rintro es s e s' ⟨hs, hle⟩ hnext
      have hstep := left_step hs hnext
      refine ⟨disciplined_step hs hnext, ?_⟩
      have hmoves : moves (es ++ [e]) = moves es + moves [e] := List.countP_append
      have hstarted : started (es ++ [e]) = started es + started [e] := List.countP_append
      omega
  exact hrun.2

/-! ## The pool of a server -/

/-- What is left when no call can move: all calls are done, the permits and the lock are back, and Chrome has no tab but
    abandoned ones. -/
structure Drained (maxPages leaked : Nat) (s : BrowserPool) : Prop where
  calls : ∀ c ∈ s.calls, c.pc = .done
  permits : s.pageSem = maxPages
  lock : s.stateLock = none
  tabs : s.openTabs ≤ leaked

theorem drained (hs : Disciplined s) (haccounts : Accounts maxPages leaked s) (hpages : 0 < maxPages) (hstuck : ¬ CanMove s) :
    Drained maxPages leaked s := by
  have hdone : ∀ c ∈ s.calls, c.pc = .done := by
    intro c hc
    obtain ⟨i, hi⟩ := List.getElem?_of_mem hc
    by_contra hpc
    exact hstuck (canMove hs haccounts hpages hi hpc)
  have hnone (p : Pc → Bool) (hp : p .done = false) : s.calls.countP (fun c => p c.pc) = 0 := by
    refine List.countP_eq_zero.mpr fun c hc => ?_
    rw [hdone c hc, hp]
    exact Bool.false_ne_true
  refine ⟨hdone, ?_, ?_, ?_⟩
  · have := haccounts.permits
    rwa [hnone Pc.holdsPermit rfl] at this
  · cases hlock : s.stateLock with
    | none => rfl
    | some j =>
        have hlt : j < s.calls.length := hs.holder j hlock
        have hj : s.calls[j]? = some s.calls[j] := List.getElem?_eq_getElem hlt
        have hholds := (hs.lock j _ hj).mpr hlock
        rw [hdone _ (List.mem_of_getElem? hj)] at hholds
        cases hholds
  · have hle : s.openTabs ≤ s.calls.countP Call.orphaned := by
      refine List.countP_mono_left fun c hc h => ?_
      rw [Call.orphaned, hdone c hc]
      exact h
    exact Nat.le_trans hle haccounts.orphans

theorem getPool_fromArgs {env : Env} {args : Args} {config : Config} (hok : Config.fromArgs env args = .ok config)
    {start : BrowserPool} (hpool : getPool config.browser = some start) :
    ∃ maxPages, 0 < maxPages ∧ start = BrowserPool.new maxPages := by
  obtain ⟨-, -, -, token, -, rfl⟩ := Config.fromArgs_eq_ok_iff.mp hok
  unfold getPool at hpool
  split at hpool
  · cases hpool
  · refine ⟨_, ?_, (Option.some.inj hpool).symm⟩
    show 0 < if args.browserMaxPages > 0 then args.browserMaxPages else max (env.cpus * 2) 4
    split
    · assumption
    · omega

/-- **The page pool never gets stuck.** In every run of the pool of a server that has started, of any number of interleaved
    calls, with whatever failures, crashes and cancellations: at most one call launches Chrome or opens a tab at a time, Chrome
    is launched only if there is no browser, and a tab is asked for only if there is one, so that `browser failed to launch` is
    never returned; and Chrome has tabs only while it runs. There are at most nine moves for each call, those of Chrome about its
    tab among them; and when no call can move by itself all are done, the permits and the lock are back, and at most as many
    tabs are open as steps abandoned one. -/
theorem page_pool_never_stuck (env : Env) (args : Args) (config : Config) (hok : Config.fromArgs env args = .ok config)
    (start : BrowserPool) (hpool : getPool config.browser = some start) (es : List Event) (s : BrowserPool)
    (h : pool.exec start es = some s) :
    (∀ (i j : Nat) (c d : Call), s.calls[i]? = some c → s.calls[j]? = some d → c.pc.holdsLock = true → d.pc.holdsLock = true →
        i = j) ∧
      (∀ c ∈ s.calls, c.pc.Fits s.state ∧ (c.tab ≠ .absent → s.state = .running false)) ∧ moves es ≤ 9 * started es ∧
      (¬ CanMove s → Drained start.pageSem (abandoned start es) s) := by
  obtain ⟨maxPages, hpages, rfl⟩ := getPool_fromArgs hok hpool
  have hs := disciplined_exec h
  have haccounts := accounts_exec (accounts_new maxPages) h
  rw [Nat.zero_add] at haccounts
  refine ⟨fun i j c d hc hd => hs.exclusive hc hd, fun c hc => ⟨hs.fits c hc, hs.tabs c hc⟩, ?_,
    drained hs haccounts hpages⟩
  exact Nat.le_trans (Nat.le_add_right _ _) (left_exec h)

/-- A scrape for which Chrome is launched, and crashes before the tab is open. -/
theorem page_pool_never_stuck_crash :
    Drained 4 0 ⟨4, none, .running true, [⟨.browserScrape, .done, .absent⟩]⟩ := by
  refine (page_pool_never_stuck ⟨1, fun _ => .error [], fun _ => []⟩ (Http.baseArgs none none) _ rfl _ rfl
    [.call .browserScrape, .act 0 .permit, .act 0 .lock, .act 0 (.launch true), .crash, .act 0 (.newPage false)] _ rfl).2.2.2 ?_
  rintro ⟨i, a, ha, hmoves⟩
  cases i with
  | zero =>
      cases a with
      | newPage ok => cases ok <;> exact hmoves rfl
      | cancel => exact ha rfl
      | permit | lock | launch | goto | extract | close => exact hmoves rfl
  | succ i => exact hmoves rfl

end Browser
end McpWebSearch
