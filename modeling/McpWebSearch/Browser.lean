import McpWebSearch.Lib.Machine

/-!
# `Browser` — the headless-browser page pool and its callers

`src/browser.rs` and the two callers in `src/actions/browser.rs`, as one labelled machine over any number
of concurrent calls. A call is an `async` function: it moves only when the await it is suspended at
resolves, and its future may be dropped at any of them. `Pc` lists those awaits, from the moment a call
reaches `acquire_page`; what runs between two awaits is one step.

What Chrome has of a call's tab is a component of its own (`Tab`): `new_page` and `Page::close` send Chrome a
command, and Chrome acts on it when it does, whether or not the call still waits. A call that ends while its
command is out takes nothing back, and dropping the `Page` handle closes nothing. The tabs of a Chrome that
exits are gone with it.
-/

namespace McpWebSearch
namespace Browser

/-- The two tools that take a page from the pool. -/
inductive Tool
  | browserScrape
  | browserScreenshot
  deriving DecidableEq, Repr

/-- The await a call is suspended at. -/
inductive Pc
  | acquire      -- `page_sem.acquire_owned()`
  | lock         -- `state.lock()`
  | launch       -- `do_launch`, the state lock held
  | newPage      -- `browser.new_page`, the state lock held
  | goto         -- `timeout(nav_timeout, page.goto(..))`, a `PooledPage` held
  | extract      -- what follows a successful navigation
  | close        -- `page.close()`
  | done
  deriving DecidableEq, Repr

/-- A call owns a semaphore permit from `acquire_owned` to the drop of its `PooledPage`. -/
def Pc.holdsPermit : Pc → Bool
  | .acquire | .done => false
  | _ => true

/-- What Chrome has of the tab of a call. -/
inductive Tab
  | absent    -- not asked for, refused, closed, or gone with Chrome
  | creating  -- the command of `new_page` is out
  | opened
  | closing   -- the command of `Page::close` is out
  deriving DecidableEq, Repr

def Tab.isOpen : Tab → Bool
  | .opened | .closing => true
  | _ => false

/-- `Page::close` sends its command; there is nothing to close in a Chrome that is gone. -/
def Tab.sendClose : Tab → Tab
  | .opened => .closing
  | t => t

/-- A call of one of the tools. A call that has returned or was dropped stays, with what Chrome has of its tab. -/
structure Call where
  tool : Tool
  pc : Pc
  tab : Tab
  deriving DecidableEq, Repr

/-- `PoolState`: the browser is absent, or running with a CDP handler task that may have finished. -/
inductive PoolState
  | notStarted
  | running (handlerFinished : Bool)
  deriving DecidableEq, Repr

/-- The pool with all its callers. -/
structure BrowserPool where
  pageSem : Nat
  stateLock : Option Nat
  state : PoolState
  calls : List Call
  deriving DecidableEq, Repr

/-- `BrowserPool::new`. -/
def BrowserPool.new (maxPages : Nat) : BrowserPool :=
  { pageSem := maxPages, stateLock := none, state := .notStarted, calls := [] }

/-- The tabs opened by `acquire_page` and not yet closed. -/
def BrowserPool.openTabs (s : BrowserPool) : Nat := s.calls.countP (·.tab.isOpen)

/-- How `timeout(nav_timeout, page.goto(url))` resolves. -/
inductive Nav
  | loaded
  | failed
  | timedOut
  deriving DecidableEq, Repr

/-- What can happen to a suspended call. -/
inductive Action
  | permit
  | lock
  | launch (ok : Bool)
  | newPage (ok : Bool)
  | goto (nav : Nav)
  | extract (ok : Bool)
  | close
  | cancel
  deriving DecidableEq, Repr

/-- What Chrome does about a command that is out. -/
inductive TabAction
  | created
  | refused
  | closed
  | kept
  deriving DecidableEq, Repr

/-- `none` where no such command is out. -/
def TabAction.apply : TabAction → Tab → Option Tab
  | .created, .creating => some .opened
  | .refused, .creating => some .absent
  | .closed, .closing => some .absent
  | .kept, .closing => some .opened
  | _, _ => none

/-- What can happen to the pool: a new call, an action of call `i`, Chrome acting on a command of call `i`, or
    the exit of Chrome, with which the CDP handler task ends. -/
inductive Event
  | call (tool : Tool)
  | act (i : Nat) (a : Action)
  | tab (i : Nat) (t : TabAction)
  | crash
  deriving DecidableEq, Repr

namespace BrowserPool

variable (s : BrowserPool) (i : Nat) (c : Call)

/-- Call `i` runs on to its next await. -/
def moveTo (pc : Pc) (tab : Tab) : BrowserPool :=
  { s with calls := s.calls.set i { c with pc := pc, tab := tab } }

/-- Call `i` ends and its locals are dropped: the permit and the state lock go back, and Chrome keeps what it
    has of the tab. -/
def drop : BrowserPool :=
  { s.moveTo i c .done c.tab with
    pageSem := s.pageSem + c.pc.holdsPermit.toNat
    stateLock := if s.stateLock = some i then none else s.stateLock }

/-- The crash check at the top of the locked section. -/
def resetCrashed : PoolState :=
  match s.state with
  | .running true => .notStarted
  | st => st

/-- One step of call `i`. -/
def act : Action → Option BrowserPool
  | .permit =>
      if c.pc = .acquire ∧ 0 < s.pageSem then
        some { s.moveTo i c .lock c.tab with pageSem := s.pageSem - 1 }
      else none
  | .lock =>
      if c.pc = .lock ∧ s.stateLock = none then
        -- a browser whose handler has ended is dropped and launched again under the same lock
        let st := s.resetCrashed
        some { (if st = .notStarted then s.moveTo i c .launch c.tab else s.moveTo i c .newPage .creating) with
          stateLock := some i, state := st }
      else none
  | .launch ok =>
      if c.pc = .launch then
        if ok then some { s.moveTo i c .newPage .creating with state := .running false } else some (s.drop i c)
      else none
  | .newPage true =>
      -- the state lock is released at the end of the block, before `PooledPage` is built
      if c.pc = .newPage ∧ c.tab = .opened then some { s.moveTo i c .goto c.tab with stateLock := none } else none
  | .newPage false =>
      -- the error may come before Chrome has acted on the command, and after
      if c.pc = .newPage then some (s.drop i c) else none
  | .goto nav =>
      -- an error and a timeout both close the tab before they are returned
      if c.pc = .goto then
        some (if nav = .loaded then s.moveTo i c .extract c.tab else s.moveTo i c .close c.tab.sendClose)
      else none
  | .extract ok =>
      if c.pc = .extract then
        -- `browser_screenshot` returns a screenshot error with `?`; `browser_scrape` ignores its errors
        if !ok && c.tool = .browserScreenshot then some (s.drop i c)
        else some (s.moveTo i c .close c.tab.sendClose)
      else none
  | .close =>
      -- `let _ = self.page.close().await`: an error is swallowed, whatever Chrome does
      if c.pc = .close then some (s.drop i c) else none
  | .cancel => if c.pc = .done then none else some (s.drop i c)

/-- One step of the pool. -/
def step : Event → Option BrowserPool
  | .call tool => some { s with calls := s.calls ++ [⟨tool, .acquire, .absent⟩] }
  | .act i a =>
      match s.calls[i]? with
      | some c => s.act i c a
      | none => none
  | .tab i t =>
      match s.calls[i]? with
      | some c => (t.apply c.tab).map (s.moveTo i c c.pc)
      | none => none
  | .crash =>
      match s.state with
      | .running _ => some { s with state := .running true, calls := s.calls.map ({ · with tab := .absent }) }
      | .notStarted => none

end BrowserPool

/-- The pool and its callers as a machine. -/
def pool : Machine BrowserPool Event := ⟨BrowserPool.step⟩

/-- Action `a` makes the call return or drops its future. -/
def Call.ends (c : Call) : Action → Bool
  | .launch ok => !ok
  | .newPage ok => !ok
  | .extract ok => !ok && c.tool = .browserScreenshot
  | .close | .cancel => true
  | _ => false

/-- The event leaves a tab open that no call will close: it ends a call whose tab is open in Chrome, or Chrome
    opens the tab of a call that has ended. -/
def abandonsTab (s : BrowserPool) : Event → Bool
  | .act i a =>
      match s.calls[i]? with
      | some c => c.tab.isOpen && c.ends a
      | none => false
  | .tab i .created =>
      match s.calls[i]? with
      | some c => c.pc = .done
      | none => false
  | _ => false

end Browser
end McpWebSearch
