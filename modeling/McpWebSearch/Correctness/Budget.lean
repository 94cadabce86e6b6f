import McpWebSearch.Correctness.Client

/-!
# `Correctness.Budget` — how much a fetch sends, and that it only adds to the trace

Every program over the network adds to the trace what it would add to an empty one (`Commutes`, the frame), and what it
adds is `Frugal`: it keeps to so many lookups and so many requests, all by one method, and connects only for what was
requested. `emits_*` is the budget of each program, by the rules of `Prog.Emits`; that of the redirect loops is by induction on
the hops left.
-/

namespace McpWebSearch

open Utf8 Prog

variable {net : Net} {config : Config}

/-! ## The frame -/

/-- The world with more before its trace. -/
def World.after (t : List NetEvent) (w : World) : World := { w with trace := t ++ w.trace }

section Frame

variable {t : List NetEvent}

theorem commutes_record (e : NetEvent) : Commutes (World.after t) (record e) :=
  Commutes.change fun w => by simp [World.after]

theorem commutes_lookupHost (domain : Text) (port : UInt16) : Commutes (World.after t) (lookupHost net domain port) := by
  refine Commutes.bind (Commutes.observe fun w => rfl) fun n => ?_
  refine Commutes.bind (Commutes.change fun w => by simp [World.after]) fun _ => ?_
  exact Commutes.pure _

theorem commutes_sendRequest (client : Client) (method : Method) (url : Url) :
    Commutes (World.after t) (sendRequest net client method url) := by
  refine Commutes.bind (Commutes.observe fun w => rfl) fun n => ?_
  refine Commutes.bind (Commutes.change fun w => by simp [World.after]) fun _ => ?_
  exact Commutes.pure _

theorem commutes_checkHostAsync (url : Url) : Commutes (World.after t) (checkHostAsync net url) := by
  unfold checkHostAsync
  cases url.host with
  | none => exact Commutes.pure ()
  | some host =>
      cases host with
      | ipv4 ip => exact Commutes.ofExcept _
      | ipv6 ip => exact Commutes.ofExcept _
      | domain domain =>
          refine Commutes.bind (commutes_lookupHost domain 0) fun r => ?_
          cases r with
          | error e => exact Commutes.fail _
          | ok addrs => exact Commutes.ofExcept _

theorem commutes_validateUrl (raw : Text) (allowPrivate : Bool) : Commutes (World.after t) (validateUrl net raw allowPrivate) := by
  have hcheck : Commutes (World.after t) (checkUrl net raw allowPrivate) := by
    refine Commutes.bind (Commutes.ofExcept _) fun url => ?_
    split
    · exact Commutes.pure url
    · exact Commutes.bind (commutes_checkHostAsync url) fun _ => Commutes.pure url
  refine Commutes.bind (Commutes.attempt hcheck) fun r => ?_
  cases r with
  | ok url => exact Commutes.bind (commutes_record _) fun _ => Commutes.pure url
  | error e => exact Commutes.bind (commutes_record _) fun _ => Commutes.fail e

theorem commutes_clientFor (url : Url) : Commutes (World.after t) (clientFor net config url) := by
  have hpinned : Commutes (World.after t) (buildPinnedClient net config url) := by
    unfold buildPinnedClient
    split
    · refine Commutes.bind (commutes_lookupHost _ _) fun r => ?_
      cases r with
      | error e => exact Commutes.fail _
      | ok addrs => exact Commutes.bind (Commutes.ofExcept _) fun _ => Commutes.ofExcept _
    · exact Commutes.fail _
  unfold clientFor
  split
  · split
    · exact Commutes.bind hpinned fun c => Commutes.pure _
    · exact Commutes.pure _
  · exact Commutes.pure _

theorem commutes_fetchPage (start : Text) : Commutes (World.after t) (fetchPage net config start) := by
  have hloop (left hop : Nat) (current : Url) : Commutes (World.after t) (fetchLoop net config start left hop current) := by
    induction left generalizing hop current with
    | zero => exact Commutes.fail _
    | succ left ih =>
        refine Commutes.bind (commutes_clientFor current) fun client => ?_
        refine Commutes.bind (commutes_sendRequest _ _ _) fun sent => ?_
        refine Commutes.bind (Commutes.ofExcept _) fun resp => ?_
        split
        · split
          · exact Commutes.fail _
          · refine Commutes.bind (Commutes.ofExcept _) fun next => ?_
            exact Commutes.bind (commutes_validateUrl _ _) fun current => ih (hop + 1) current
        · split
          · exact Commutes.fail _
          · exact Commutes.bind (Commutes.ofExcept _) fun body => Commutes.pure _
  exact Commutes.bind (commutes_validateUrl start _) fun current => hloop _ 0 current

theorem commutes_webFetchHeaders (args : Option Value) :
    Commutes (World.after t) (Actions.webFetchHeaders net config args) := by
  have hloop (url : Text) (left hop : Nat) (current : Url) :
      Commutes (World.after t) (Actions.headLoop net config url left hop current) := by
    induction left generalizing hop current with
    | zero => exact Commutes.fail _
    | succ left ih =>
        refine Commutes.bind (commutes_clientFor current) fun client => ?_
        refine Commutes.bind (commutes_sendRequest _ _ _) fun sent => ?_
        refine Commutes.bind (Commutes.ofExcept _) fun resp => ?_
        split
        · refine Commutes.bind (Commutes.ofExcept _) fun next => ?_
          exact Commutes.bind (commutes_validateUrl _ _) fun current => ih (hop + 1) current
        · exact Commutes.pure _
  refine Commutes.bind (Commutes.ofExcept _) fun url => ?_
  exact Commutes.bind (commutes_validateUrl url _) fun current => hloop url _ 0 current

theorem commutes_checkOneLink (url : Text) : Commutes (World.after t) (Actions.checkOneLink net config url) := by
  refine Commutes.bind (Commutes.attempt (commutes_validateUrl url _)) fun r => ?_
  cases r with
  | error e => exact Commutes.pure _
  | ok current =>
      refine Commutes.bind (Commutes.attempt (commutes_clientFor current)) fun r => ?_
      cases r with
      | error e => exact Commutes.pure _
      | ok client => exact Commutes.bind (commutes_sendRequest _ _ _) fun sent => Commutes.pure _

end Frame

/-! ## Budgets -/

def NetEvent.isLookup : NetEvent → Bool
  | .lookup _ _ => true
  | _ => false

def NetEvent.isRequest : NetEvent → Bool
  | .request _ _ => true
  | _ => false

/-- The event is not a connection, or it is one for a URL requested before. -/
def Requested (method : Method) (before : List NetEvent) : NetEvent → Prop
  | .connect url _ => .request method url ∈ before
  | _ => True

/-- At most so many lookups and so many requests, all of them by the method, and connections only for what was requested. -/
structure Frugal (method : Method) (lookups requests : Nat) (t : List NetEvent) : Prop where
  lookups : t.countP NetEvent.isLookup ≤ lookups
  requests : t.countP NetEvent.isRequest ≤ requests
  byMethod : ∀ m url, .request m url ∈ t → m = method
  connects : History.AtEach (Requested method) t

namespace Frugal

variable {method : Method} {l r l' r' : Nat} {t u : List NetEvent}

theorem nil : Frugal method l r [] where
  lookups := Nat.zero_le l
  requests := Nat.zero_le r
  byMethod _ _ h := absurd h List.not_mem_nil
  connects := History.atEach_nil

theorem mono (h : Frugal method l r t) (hl : l ≤ l') (hr : r ≤ r') : Frugal method l' r' t where
  lookups := Nat.le_trans h.lookups hl
  requests := Nat.le_trans h.requests hr
  byMethod := h.byMethod
  connects := h.connects

theorem append (ht : Frugal method l r t) (hu : Frugal method l' r' u) : Frugal method (l + l') (r + r') (t ++ u) where
  lookups := by
    rw [List.countP_append]
    exact Nat.add_le_add ht.lookups hu.lookups
  requests := by
    rw [List.countP_append]
    exact Nat.add_le_add ht.requests hu.requests
  byMethod m url h := (List.mem_append.mp h).elim (ht.byMethod m url) (hu.byMethod m url)
  connects := by
    refine History.atEach_append (fun before e he => ?_) ht.connects hu.connects
    cases e with
    | connect url ip => exact List.mem_append_right t he
    | lookup domain port => trivial
    | accepted url => trivial
    | rejected raw => trivial
    | request m url => trivial

/-- An event that is neither a lookup nor a request nor a connection costs nothing. -/
theorem free {e : NetEvent} (hlookup : e.isLookup = false) (hrequest : e.isRequest = false)
    (hconnect : Requested method [] e) : Frugal method 0 0 [e] where
  lookups := by simp [hlookup]
  requests := by simp [hrequest]
  byMethod m url h := by
    obtain rfl := List.mem_singleton.mp h
    cases hrequest
  connects := (History.atEach_snoc (l := [])).mpr ⟨History.atEach_nil, hconnect⟩

end Frugal

/-- The program stays within a budget. -/
abbrev Spends (method : Method) (lookups requests : Nat) {α : Type} (m : NetM α) : Prop :=
  Emits World.trace (Frugal method lookups requests) m

section Programs

variable {method : Method} {α β : Type} {l r l' r' : Nat}

theorem Spends.mono {m : NetM α} (hm : Spends method l r m) (hl : l ≤ l') (hr : r ≤ r') : Spends method l' r' m :=
  Emits.mono hm fun _ ht => ht.mono hl hr

/-- Budgets add up. -/
theorem Spends.seq {m : NetM α} {k : α → NetM β} (hm : Spends method l r m) (hk : ∀ a, Spends method l' r' (k a)) :
    Spends method (l + l') (r + r') (m >>= k) :=
  Emits.bind hm hk (fun _ ht => ht.mono (Nat.le_add_right l l') (Nat.le_add_right r r')) fun _ _ => Frugal.append

theorem Spends.bind {m : NetM α} {k : α → NetM β} {l'' r'' : Nat} (hm : Spends method l r m)
    (hk : ∀ a, Spends method l' r' (k a)) (hl : l + l' ≤ l'') (hr : r + r' ≤ r'') : Spends method l'' r'' (m >>= k) :=
  (Spends.seq hm hk).mono hl hr

/-- What comes last may cost nothing. -/
theorem Spends.bind_free {m : NetM α} {k : α → NetM β} (hm : Spends method l r m) (hk : ∀ a, Spends method 0 0 (k a)) :
    Spends method l r (m >>= k) := Spends.seq hm hk

theorem Spends.pure (a : α) : Spends method l r (Pure.pure a : NetM α) := Emits.pure a Frugal.nil

theorem Spends.fail (e : WebSearchError) : Spends method l r (Prog.fail e : NetM α) := Emits.fail e Frugal.nil

theorem Spends.ofExcept (x : Result α) : Spends method l r (Prog.ofExcept x) := Emits.ofExcept x Frugal.nil

theorem Spends.ofExcept_bind {x : Result α} {k : α → NetM β} (hk : ∀ a, Spends method l r (k a)) :
    Spends method l r (Prog.ofExcept x >>= k) := Emits.ofExcept_bind Frugal.nil hk

theorem spends_record {e : NetEvent} (hlookup : e.isLookup = false) (hrequest : e.isRequest = false)
    (hconnect : Requested method [] e) : Spends method 0 0 (record e) :=
  fun _ => ⟨[e], rfl, Frugal.free hlookup hrequest hconnect⟩

theorem spends_lookupHost (domain : Text) (port : UInt16) : Spends method 1 0 (lookupHost net domain port) := by
  intro w
  refine ⟨[.lookup domain port], rfl, ?_⟩
  exact {
    lookups := Nat.le_refl 1
    requests := Nat.le_refl 0
    byMethod := fun m url h => by cases List.mem_singleton.mp h
    connects := (History.atEach_snoc (l := [])).mpr ⟨History.atEach_nil, trivial⟩ }

/-- A request, and the connections it opens. -/
theorem spends_sendRequest (client : Client) (url : Url) : Spends method 0 1 (sendRequest net client method url) := by
  intro w
  refine ⟨.request method url :: (net.connects w.requests client url).map (.connect url), rfl, ?_⟩
  generalize net.connects w.requests client url = ips
  induction ips using List.reverseRecOn with
  | nil =>
      exact {
        lookups := Nat.le_refl 0
        requests := Nat.le_refl 1
        byMethod := fun m url' h => (NetEvent.request.inj (List.mem_singleton.mp h)).1
        connects := (History.atEach_snoc (l := [])).mpr ⟨History.atEach_nil, trivial⟩ }
  | append_singleton ips ip ih =>
      rw [List.map_append, List.map_singleton, ← List.cons_append]
      exact {
        lookups := by
          rw [List.countP_append]
          exact ih.lookups
        requests := by
          rw [List.countP_append]
          exact ih.requests
        byMethod := fun m url' h => (List.mem_append.mp h).elim (ih.byMethod m url') fun h => by
          cases List.mem_singleton.mp h
        connects := History.atEach_snoc.mpr ⟨ih.connects, List.mem_cons_self⟩ }

theorem spends_validateUrl (raw : Text) (allowPrivate : Bool) : Spends method 1 0 (validateUrl net raw allowPrivate) := by
  have hhost (url : Url) : Spends method 1 0 (checkHostAsync net url) := by
    unfold checkHostAsync
    cases url.host with
    | none => exact Spends.pure ()
    | some host =>
        cases host with
        | ipv4 ip => exact Spends.ofExcept _
        | ipv6 ip => exact Spends.ofExcept _
        | domain domain =>
            refine Spends.bind_free (spends_lookupHost domain 0) fun r => ?_
            cases r with
            | error e => exact Spends.fail _
            | ok addrs => exact Spends.ofExcept _
  have hcheck : Spends method 1 0 (checkUrl net raw allowPrivate) := by
    refine Spends.ofExcept_bind fun url => ?_
    split
    · exact Spends.pure url
    · exact Spends.bind_free (hhost url) fun _ => Spends.pure url
  refine Spends.bind_free (Emits.attempt hcheck) fun r => ?_
  cases r with
  | ok url => exact Spends.bind_free (spends_record rfl rfl trivial) fun _ => Spends.pure url
  | error e => exact Spends.bind_free (spends_record rfl rfl trivial) fun _ => Spends.fail e

theorem spends_clientFor (url : Url) : Spends method 1 0 (clientFor net config url) := by
  have hpinned : Spends method 1 0 (buildPinnedClient net config url) := by
    unfold buildPinnedClient
    split
    · refine Spends.bind_free (spends_lookupHost _ _) fun r => ?_
      cases r with
      | error e => exact Spends.fail _
      | ok addrs => exact Spends.ofExcept_bind fun _ => Spends.ofExcept _
    · exact Spends.fail _
  unfold clientFor
  split
  · split
    · exact Spends.bind_free hpinned fun c => Spends.pure _
    · exact Spends.pure _
  · exact Spends.pure _

/-- One hop of a redirect loop, and what comes after its request. -/
theorem spends_hop {url : Url} {f : Sent → NetM α} (hf : ∀ sent, Spends method l r (f sent)) :
    Spends method (l + 1) (r + 1)
      (clientFor net config url >>= fun client => sendRequest net client.asRef method url >>= f) := by
  refine Spends.bind (spends_clientFor url) (fun client => ?_) (Nat.le_of_eq (Nat.add_comm 1 l))
    (Nat.le_of_eq (Nat.zero_add (r + 1)))
  exact Spends.bind (spends_sendRequest client.asRef url) hf (Nat.le_of_eq (Nat.zero_add l)) (Nat.le_of_eq (Nat.add_comm 1 r))

/-- **The loop of `fetch_page`**: a request for each hop, and two lookups but for the last. -/
theorem spends_fetchLoop (start : Text) {left hop : Nat} (hhops : hop + left = config.maxRedirects + 1) (current : Url) :
    Spends .get (2 * left - 1) left (fetchLoop net config start left hop current) := by
  induction left generalizing hop current with
  | zero => exact Spends.fail _
  | succ left ih =>
      refine Spends.mono (spends_hop fun sent => ?_) (Nat.le_of_eq (show 2 * left + 1 = 2 * (left + 1) - 1 by omega)) (Nat.le_refl _)
      refine Spends.ofExcept_bind fun resp => ?_
      split
      · split
        · exact Spends.fail _
        · refine Spends.ofExcept_bind fun next => ?_
          have hnext (current : Url) := ih (show hop + 1 + left = config.maxRedirects + 1 by omega) current
          exact Spends.bind (spends_validateUrl _ _) hnext (by omega) (by omega)
      · split
        · exact Spends.fail _
        · exact Spends.ofExcept_bind fun body => Spends.pure _

theorem spends_fetchPage (start : Text) :
    Spends .get (2 * (config.maxRedirects + 1)) (config.maxRedirects + 1) (fetchPage net config start) := by
  exact Spends.bind (spends_validateUrl start _) (spends_fetchLoop start (Nat.zero_add _)) (by omega) (by omega)

/-- **The loop of `web_fetch_headers`**: it looks up a target that it will not request, too. -/
theorem spends_headLoop (url : Text) (left hop : Nat) (current : Url) :
    Spends .head (2 * left) left (Actions.headLoop net config url left hop current) := by
  induction left generalizing hop current with
  | zero => exact Spends.fail _
  | succ left ih =>
      refine Spends.mono (spends_hop fun sent => ?_) (Nat.le_of_eq (show 2 * left + 1 + 1 = 2 * (left + 1) by omega)) (Nat.le_refl _)
      refine Spends.ofExcept_bind fun resp => ?_
      split
      · refine Spends.ofExcept_bind fun next => ?_
        exact Spends.bind (spends_validateUrl _ _) (ih (hop + 1)) (by omega) (by omega)
      · exact Spends.pure _

theorem spends_webFetchHeaders (args : Option Value) :
    Spends .head (2 * (config.maxRedirects + 1) + 1) (config.maxRedirects + 1) (Actions.webFetchHeaders net config args) := by
  refine Spends.ofExcept_bind fun url => ?_
  exact Spends.bind (spends_validateUrl url _) (spends_headLoop url _ 0) (by omega) (by omega)

theorem spends_checkOneLink (url : Text) : Spends .head 2 1 (Actions.checkOneLink net config url) := by
  show Spends .head (1 + 1) (0 + 1) _
  refine Spends.seq (Emits.attempt (spends_validateUrl url _)) fun r => ?_
  cases r with
  | error e => exact Spends.pure _
  | ok current =>
      show Spends .head (1 + 0) (0 + 1) _
      refine Spends.seq (Emits.attempt (spends_clientFor current)) fun r => ?_
      cases r with
      | error e => exact Spends.pure _
      | ok client => exact Spends.bind_free (spends_sendRequest _ _) fun sent => Spends.pure _

end Programs

end McpWebSearch
