import McpWebSearch.Actions.Extract
import McpWebSearch.Actions.Scrape.WebFetch
import McpWebSearch.Correctness.Budget
import McpWebSearch.Correctness.Pinning

/-!
# `Correctness.Pages` — what a fetch comes to

`read_capped` depends on the bytes that arrive before the first error, not on the chunks they arrive in
(`readCapped_eq`). So a fetched page is bounded by the configured size, and a fetch fails in four ways only
(`fetch_outcomes`). The tools that convert one page to markdown agree on it (`markdown_tools_agree`).
-/

namespace McpWebSearch

open Utf8 Prog

/-! ## Bodies -/

/-- The bytes of a body that arrive before an error. -/
def received : List (Except Text (List UInt8)) → List UInt8
  | [] => []
  | .error _ :: _ => []
  | .ok chunk :: chunks => chunk ++ received chunks

/-- The error that ends a body, if one does. -/
def streamError : List (Except Text (List UInt8)) → Option Text
  | [] => none
  | .error e :: _ => some e
  | .ok _ :: chunks => streamError chunks

/-- `String::from_utf8(buf).unwrap_or_else(..)`. -/
def decoded (buf : List UInt8) : Text := (fromUtf8? buf).getD (fromUtf8Lossy buf)

/-- What `read_capped` comes to on these bytes with this end. -/
def cappedBody (max : Nat) (buf : List UInt8) (e : Option Text) : Result Text :=
  if buf.length > max then .error (.responseTooLarge ("response body exceeds " ++ decimal max ++ " bytes"))
  else
    match e with
    | some e => .error (.httpError ("body stream error: " ++ e))
    | none => .ok (decoded buf)

/-- **The loop**, by induction on the chunks: what has been read before does not exceed the cap. -/
theorem readChunks_eq {max : Nat} {buf : List UInt8} (hbuf : buf.length ≤ max) (chunks : List (Except Text (List UInt8))) :
    (readChunks max buf buf.length chunks).map decoded = cappedBody max (buf ++ received chunks) (streamError chunks) := by
  induction chunks generalizing buf with
  | nil =>
      unfold cappedBody
      rw [received, List.append_nil, if_neg (Nat.not_lt.mpr hbuf)]
      rfl
  | cons chunk chunks ih =>
      cases chunk with
      | error e =>
          unfold cappedBody
          rw [received, List.append_nil, if_neg (Nat.not_lt.mpr hbuf)]
          rfl
      | ok chunk =>
          rw [readChunks, received, streamError, ← List.append_assoc]
          by_cases hmax : buf.length + chunk.length > max
          · -- what comes later does not make it shorter
            have hlong : (buf ++ chunk ++ received chunks).length > max := by
              rw [List.length_append, List.length_append]
              omega
            unfold cappedBody
            rw [if_pos hmax, if_pos hlong]
            rfl
          · have hfits : (buf ++ chunk).length ≤ max := by
              rw [List.length_append]
              omega
            rw [if_neg hmax, ← List.length_append]
            exact ih hfits

theorem byteLen_decoded_le (buf : List UInt8) : byteLen (decoded buf) ≤ 3 * buf.length := by
  unfold decoded
  cases h : fromUtf8? buf with
  | none => exact byteLen_fromUtf8Lossy_le buf
  | some s =>
      rw [fromUtf8?_eq_some_iff.mp h, length_bytes]
      show byteLen s ≤ 3 * byteLen s
      omega

theorem readCapped_eq (resp : HttpResponse) (max : Nat) :
    readCapped resp max = cappedBody max (received resp.body) (streamError resp.body) := by
  rw [← List.nil_append (received resp.body), ← readChunks_eq (Nat.zero_le max)]
  unfold readCapped decoded
  congr 1
  funext buf
  cases fromUtf8? buf with
  | none => rfl
  | some s => rfl

/-- A body that is read is within the cap, before it is decoded. -/
theorem of_readCapped {resp : HttpResponse} {max : Nat} {text : Text} (h : readCapped resp max = .ok text) :
    (received resp.body).length ≤ max ∧ text = decoded (received resp.body) := by
  rw [readCapped_eq] at h
  unfold cappedBody at h
  split at h
  · cases h
  · rename_i hfits
    split at h
    · cases h
    · exact ⟨Nat.not_lt.mp hfits, (Except.ok.inj h).symm⟩

theorem byteLen_of_readCapped {resp : HttpResponse} {max : Nat} {text : Text} (h : readCapped resp max = .ok text) :
    byteLen text ≤ 3 * max := by
  obtain ⟨hfits, rfl⟩ := of_readCapped h
  exact Nat.le_trans (byteLen_decoded_le _) (Nat.mul_le_mul_left 3 hfits)

/-- **`read_capped` sees bytes, not chunks.** For every response and every cap: if more than `max` bytes arrive before the
    first error, the body is too large, whatever comes after; if not, an error is reported as such; and otherwise the body is
    the decoding of all bytes. Two responses whose bytes and error are the same come to the same, however they are cut into
    chunks. A body that is read has at most `3 * max` bytes, and at most `max`, those received, if they are valid UTF-8. -/
theorem readCapped_sees_bytes (resp : HttpResponse) (max : Nat) :
    readCapped resp max = cappedBody max (received resp.body) (streamError resp.body) ∧
      (∀ resp' : HttpResponse, received resp'.body = received resp.body → streamError resp'.body = streamError resp.body →
        readCapped resp' max = readCapped resp max) ∧
      ∀ text, readCapped resp max = .ok text →
        byteLen text ≤ 3 * max ∧ ∀ s, received resp.body = bytes s → text = s ∧ byteLen text ≤ max := by
  refine ⟨readCapped_eq resp max, fun resp' hbytes herr => ?_, fun text htext => ⟨byteLen_of_readCapped htext, ?_⟩⟩
  · rw [readCapped_eq, readCapped_eq, hbytes, herr]
  · intro s hs
    obtain ⟨hfits, rfl⟩ := of_readCapped htext
    have hdecoded : decoded (received resp.body) = s := by
      unfold decoded
      rw [fromUtf8?_eq_some_iff.mpr hs, Option.getD_some]
    rw [hs, length_bytes] at hfits
    rw [hdecoded]
    exact ⟨rfl, hfits⟩

/-- A character cut in two. -/
theorem readCapped_sees_bytes_split :
    readCapped ⟨200, [], [.ok [0xe4, 0xb8], .ok [0xad]]⟩ 3 = readCapped ⟨200, [], [.ok [0xe4, 0xb8, 0xad]]⟩ 3 :=
  (readCapped_sees_bytes ⟨200, [], [.ok [0xe4, 0xb8, 0xad]]⟩ 3).2.1 _ rfl rfl

/-! ## Fetches -/

/-- How a fetch can fail. -/
def FetchError (e : WebSearchError) : Prop :=
  ∃ m, e = .urlNotAllowed m ∨ e = .httpError m ∨ e = .timeout m ∨ e = .responseTooLarge m

section Fetches

variable {net : Net} {config : Config} {P : World → Prop}

theorem FetchError.urlNotAllowed (m : Text) : FetchError (.urlNotAllowed m) := ⟨m, .inl rfl⟩
theorem FetchError.httpError (m : Text) : FetchError (.httpError m) := ⟨m, .inr (.inl rfl)⟩
theorem FetchError.timeout (m : Text) : FetchError (.timeout m) := ⟨m, .inr (.inr (.inl rfl))⟩
theorem FetchError.responseTooLarge (m : Text) : FetchError (.responseTooLarge m) := ⟨m, .inr (.inr (.inr rfl))⟩

theorem guardIpv4_error {ip : Ipv4Addr} {e : WebSearchError} (h : guardIpv4 ip = .error e) : FetchError e := by
  unfold guardIpv4 at h
  split at h
  · obtain rfl := Except.error.inj h
    exact .urlNotAllowed _
  · cases h

theorem guardIpv6_error {ip : Ipv6Addr} {e : WebSearchError} (h : guardIpv6 ip = .error e) : FetchError e := by
  unfold guardIpv6 at h
  split at h
  · obtain rfl := Except.error.inj h
    exact .urlNotAllowed _
  · split at h
    · exact guardIpv4_error h
    · cases h

theorem checkPinned_error {addrs : List SocketAddr} {domain : Text} {allowPrivate : Bool} {e : WebSearchError}
    (h : checkPinned domain allowPrivate addrs = .error e) : FetchError e := by
  induction addrs with
  | nil => cases h
  | cons addr addrs ih =>
      unfold checkPinned at h
      split at h
      · obtain rfl := Except.error.inj h
        exact .urlNotAllowed _
      · exact ih h

theorem checkAddrs_error {addrs : List SocketAddr} {domain : Text} {e : WebSearchError}
    (h : checkAddrs addrs domain = .error e) : FetchError e := by
  cases addrs with
  | nil =>
      obtain rfl := Except.error.inj h
      exact .urlNotAllowed _
  | cons addr addrs =>
      rw [checkAddrs, checkAddrsLoop_cons checkAddrsLoop_true] at h
      exact checkPinned_error h

theorem parseAndCheckSchemeHost_error {urls : UrlParser} {raw : Text} {e : WebSearchError}
    (h : parseAndCheckSchemeHost urls raw = .error e) : FetchError e := by
  unfold parseAndCheckSchemeHost at h
  split at h
  · obtain rfl := Except.error.inj h
    exact .urlNotAllowed _
  · split at h
    · split at h
      · obtain rfl := Except.error.inj h
        exact .urlNotAllowed _
      · cases h
    · obtain rfl := Except.error.inj h
      exact .urlNotAllowed _

theorem finishBuild_error {builder : Client} {e : WebSearchError} (h : finishBuild net builder = .error e) : FetchError e := by
  unfold finishBuild at h
  split at h
  · obtain rfl := Except.error.inj h
    exact .httpError _
  · cases h

theorem fetchResponse_error {current : Url} {sent : Sent} {e : WebSearchError} (h : fetchResponse current sent = .error e) :
    FetchError e := by
  unfold fetchResponse at h
  split at h
  · obtain rfl := Except.error.inj h
    exact .timeout _
  · split at h
    · obtain rfl := Except.error.inj h
      exact .timeout _
    · split at h
      · obtain rfl := Except.error.inj h
        exact .httpError _
      · obtain rfl := Except.error.inj h
        exact .httpError _
  · cases h

theorem headResponse_error {current : Url} {sent : Sent} {e : WebSearchError}
    (h : Actions.headResponse current sent = .error e) : FetchError e := by
  unfold Actions.headResponse at h
  split at h
  · obtain rfl := Except.error.inj h
    exact .timeout _
  · split at h
    · obtain rfl := Except.error.inj h
      exact .timeout _
    · split at h
      · obtain rfl := Except.error.inj h
        exact .httpError _
      · obtain rfl := Except.error.inj h
        exact .httpError _
  · cases h

theorem redirectTarget_error {urls : UrlParser} {hop : Nat} {current : Url} {resp : HttpResponse} {e : WebSearchError}
    (h : redirectTarget urls hop current resp = .error e) : FetchError e := by
  unfold redirectTarget at h
  split at h
  · obtain rfl := Except.error.inj h
    exact .httpError _
  · split at h
    · obtain rfl := Except.error.inj h
      exact .httpError _
    · cases h

theorem readCapped_error {resp : HttpResponse} {max : Nat} {e : WebSearchError} (h : readCapped resp max = .error e) :
    FetchError e := by
  rw [readCapped_eq] at h
  unfold cappedBody at h
  split at h
  · obtain rfl := Except.error.inj h
    exact .responseTooLarge _
  · split at h
    · obtain rfl := Except.error.inj h
      exact .httpError _
    · cases h

/-- A check that fails as a fetch may fail. -/
theorem triple_check {α : Type} {x : Result α} (hx : ∀ e, x = .error e → FetchError e) :
    Triple P (ofExcept x) (fun a w => P w ∧ x = .ok a) (fun e _ => FetchError e) :=
  Triple.ofExcept (fun _ _ hok hw => ⟨hw, hok⟩) fun e _ herr _ => hx e herr

/-- The URL is on record as accepted. -/
def OnRecord (url : Url) (w : World) : Prop := .accepted url ∈ w.trace ∧ HttpUrl url

theorem OnRecord.lookupStable (url : Url) : LookupStable (OnRecord url) :=
  fun _ _ _ h => ⟨List.mem_append_left _ h.1, h.2⟩

/-- `validate_url` leaves an http(s) URL on record as accepted, or fails with `UrlNotAllowed`. -/
theorem triple_validated (raw : Text) (allowPrivate : Bool) :
    Triple (fun _ => True) (validateUrl net raw allowPrivate) OnRecord
      (fun e _ => FetchError e) := by
  have hhost (url : Url) : Triple (fun _ => True) (checkHostAsync net url) (fun _ _ => True) (fun e _ => FetchError e) := by
    unfold checkHostAsync
    split
    · exact Triple.ofExcept (fun _ _ _ _ => True.intro) fun e _ herr _ => guardIpv4_error herr
    · exact Triple.ofExcept (fun _ _ _ _ => True.intro) fun e _ herr _ => guardIpv6_error herr
    · refine Triple.bind (Q := fun _ _ => True) (fun w _ => True.intro) fun r => ?_
      cases r with
      | error e => exact Triple.fail fun _ _ => .urlNotAllowed _
      | ok addrs => exact Triple.ofExcept (fun _ _ _ _ => True.intro) fun e _ herr _ => checkAddrs_error herr
    · exact Triple.pure fun _ _ => True.intro
  have hcheck : Triple (fun _ => True) (checkUrl net raw allowPrivate) (fun url _ => HttpUrl url) (fun e _ => FetchError e) := by
    refine Triple.bind (triple_check fun e => parseAndCheckSchemeHost_error) fun url => ?_
    refine Triple.of_pre fun hok => ?_
    have hhttp := (parseAndCheckSchemeHost_eq_ok_iff.mp hok).2.1
    split
    · exact Triple.pure fun _ _ => hhttp
    · exact Triple.bind (hhost url) fun _ => Triple.pure fun _ _ => hhttp
  refine Triple.bind (E := fun e _ => FetchError e) (Triple.attempt hcheck) fun r => ?_
  cases r with
  | ok url =>
      refine Triple.bind (Q := fun _ => OnRecord url) ?_ fun _ => Triple.pure fun _ hw => hw
      exact Triple.change fun w hhttp => ⟨List.mem_append_right _ List.mem_cons_self, hhttp⟩
  | error e =>
      refine Triple.bind (Q := fun _ _ => FetchError e) ?_ fun _ => Triple.fail fun _ he => he
      exact Triple.change fun w he => he

theorem triple_picked (hP : LookupStable P) (url : Url) :
    Triple P (clientFor net config url) (fun _ => P) (fun e _ => FetchError e) := by
  have hpinned : Triple P (buildPinnedClient net config url) (fun _ => P) (fun e _ => FetchError e) := by
    unfold buildPinnedClient
    split
    · refine Triple.bind (triple_lookupHost hP _ _) fun r => ?_
      cases r with
      | error e => exact Triple.fail fun _ _ => .urlNotAllowed _
      | ok addrs =>
          refine Triple.bind (Q := fun _ => P) ?_ fun _ => ?_
          · exact Triple.ofExcept (fun _ _ _ hw => hw.1) fun e _ herr _ => checkPinned_error herr
          · exact Triple.ofExcept (fun _ _ _ hw => hw) fun e _ herr _ => finishBuild_error herr
    · exact Triple.fail fun _ _ => .urlNotAllowed _
  unfold clientFor
  split
  · split
    · exact Triple.bind hpinned fun c => Triple.pure fun _ hw => hw
    · exact Triple.pure fun _ hw => hw
  · exact Triple.pure fun _ hw => hw

/-- Sending a request for a URL on record puts the request there, too. -/
theorem triple_requested {method : Method} {url : Url} {client : Client} {E : WebSearchError → World → Prop} :
    Triple (OnRecord url) (sendRequest net client method url)
      (fun _ w => OnRecord url w ∧ .request method url ∈ w.trace) E := by
  intro w hw
  refine ⟨⟨List.mem_append_left _ hw.1, hw.2⟩, ?_⟩
  exact List.mem_append_right _ List.mem_cons_self

/-- What a fetched page is: of a URL accepted and requested, and no longer than the cap allows. -/
structure Fetched (config : Config) (page : FetchedPage) (w : World) : Prop where
  onRecord : OnRecord page.finalUrl w
  requested : .request .get page.finalUrl ∈ w.trace
  length : byteLen page.body ≤ 3 * config.maxResponseBytes

/-- **The loop of `fetch_page`**, by induction on the hops left. -/
theorem triple_fetched_loop (start : Text) (left hop : Nat) (current : Url) :
    Triple (OnRecord current) (fetchLoop net config start left hop current) (Fetched config) (fun e _ => FetchError e) := by
  induction left generalizing hop current with
  | zero => exact Triple.fail fun _ _ => .httpError _
  | succ left ih =>
      refine Triple.bind (triple_picked (OnRecord.lookupStable current) current) fun client => ?_
      refine Triple.bind triple_requested fun sent => ?_
      refine Triple.bind (triple_check fun e => fetchResponse_error) fun resp => ?_
      split
      · split
        · exact Triple.fail fun _ _ => .httpError _
        · refine Triple.bind (triple_check fun e => redirectTarget_error) fun next => ?_
          refine Triple.bind ((triple_validated next.asStr _).imp (fun _ _ => True.intro) (fun _ _ h => h) (fun _ _ h => h))
            fun url => ?_
          exact ih (hop + 1) url
      · split
        · exact Triple.fail fun _ _ => .httpError _
        · refine Triple.bind (triple_check fun e => readCapped_error) fun body => ?_
          refine Triple.pure fun w hw => ?_
          obtain ⟨⟨⟨hrecord, hrequest⟩, -⟩, hbody⟩ := hw
          exact ⟨hrecord, hrequest, byteLen_of_readCapped hbody⟩

theorem triple_fetched (start : Text) :
    Triple (fun _ => True) (fetchPage net config start) (Fetched config) (fun e _ => FetchError e) :=
  Triple.bind (triple_validated start _) fun url => triple_fetched_loop start _ 0 url

/-- How a tool for one page can fail from a world: for its arguments, before anything has happened there, or as a fetch, or
    in the conversion. -/
def PageError (w : World) (e : WebSearchError) (w' : World) : Prop :=
  (w' = w ∧ ∃ m, e = .invalidParams m) ∨ FetchError e ∨ ∃ m, e = .providerError m

/-- The arguments come first. -/
theorem triple_argument {α : Type} {w : World} {x : Result α} (hx : ∀ e, x = .error e → ∃ m, e = .invalidParams m) :
    Triple (· = w) (ofExcept x) (fun _ w' => w' = w) (PageError w) :=
  Triple.ofExcept (fun _ _ _ hw => hw) fun e _ herr hw => .inl ⟨hw, hx e herr⟩

theorem getStrArg_error {args : Option Value} {key : Text} {e : WebSearchError} (h : getStrArg args key = .error e) :
    ∃ m, e = .invalidParams m := by
  unfold getStrArg at h
  split at h
  · cases h
  · exact ⟨_, (Except.error.inj h).symm⟩

theorem checkFormats_error {formats : List Text} {e : WebSearchError} (h : Scrape.checkFormats formats = .error e) :
    ∃ m, e = .invalidParams m := by
  induction formats with
  | nil => cases h
  | cons fmt fmts ih =>
      unfold Scrape.checkFormats at h
      split at h
      · rename_i e' herr
        obtain rfl := Except.error.inj h
        unfold Scrape.checkFormat at herr
        split at herr
        · cases herr
        · split at herr
          · exact ⟨_, (Except.error.inj herr).symm⟩
          · exact ⟨_, (Except.error.inj herr).symm⟩
      · exact ih h

/-- A fetch, and what comes after it. -/
theorem triple_fetch_then {α : Type} {w : World} {start : Text} {k : FetchedPage → NetM α}
    (hk : ∀ page, Triple (fun _ => True) (k page) (fun _ _ => True) (PageError w)) :
    Triple (· = w) (fetchPage net config start >>= k) (fun _ _ => True) (PageError w) := by
  refine Triple.bind (Q := fun _ _ => True) ?_ hk
  exact (triple_fetched start).imp (fun _ _ => True.intro) (fun _ _ _ => True.intro) fun _ _ he => .inr (.inl he)

theorem triple_webFetchHeaders_error (args : Option Value) (w : World) :
    Triple (· = w) (Actions.webFetchHeaders net config args) (fun _ _ => True) (PageError w) := by
  have hloop (url : Text) (left hop : Nat) (current : Url) :
      Triple (OnRecord current) (Actions.headLoop net config url left hop current) (fun _ _ => True)
        (fun e _ => FetchError e) := by
    induction left generalizing hop current with
    | zero => exact Triple.fail fun _ _ => .httpError _
    | succ left ih =>
        refine Triple.bind (triple_picked (OnRecord.lookupStable current) current) fun client => ?_
        refine Triple.bind triple_requested fun sent => ?_
        refine Triple.bind (triple_check fun e => headResponse_error) fun resp => ?_
        split
        · refine Triple.bind (triple_check fun e => redirectTarget_error) fun next => ?_
          refine Triple.bind ((triple_validated next.asStr _).imp (fun _ _ => True.intro) (fun _ _ h => h) (fun _ _ h => h))
            fun url => ih (hop + 1) url
        · exact Triple.pure fun _ _ => True.intro
  refine Triple.bind (triple_argument fun e => getStrArg_error) fun url => ?_
  have hrest : Triple (fun _ => True)
      (validateUrl net url config.allowPrivateHosts >>= Actions.headLoop net config url (config.maxRedirects + 1) 0)
      (fun _ _ => True) (fun e _ => FetchError e) := Triple.bind (triple_validated url _) fun current => hloop url _ 0 current
  exact hrest.imp (fun _ _ => True.intro) (fun _ _ h => h) fun _ _ he => .inr (.inl he)

theorem triple_webSitemap_error (docs : Documents) (args : Option Value) (w : World) :
    Triple (· = w) (Actions.webSitemap net docs config args) (fun _ _ => True) (PageError w) := by
  refine Triple.bind (triple_argument fun e => getStrArg_error) fun url => ?_
  refine Triple.bind (Q := fun _ _ => True) ?_ fun startUrl => ?_
  · exact (triple_validated url _).imp (fun _ _ => True.intro) (fun _ _ _ => True.intro) fun _ _ he => .inr (.inl he)
  · split
    · exact Triple.fail fun _ _ => .inr (.inl (.httpError _))
    · split
      · exact Triple.fail fun _ _ => .inr (.inl (.httpError _))
      · -- a failed fetch is an answer, not an error
        refine Triple.bind (Q := fun _ _ => True) (fun _ _ => True.intro) fun r => ?_
        cases r with
        | error e => exact Triple.pure fun _ _ => True.intro
        | ok page => exact Triple.pure fun _ _ => True.intro

theorem triple_webScrape_error (lib : Scrape.ScrapeLib) (args : Option Value) (w : World) :
    Triple (· = w) (Scrape.webScrape net lib config args) (fun _ _ => True) (PageError w) := by
  refine Triple.bind (triple_argument fun e => getStrArg_error) fun url => ?_
  refine Triple.bind (triple_argument fun e => checkFormats_error) fun _ => ?_
  refine triple_fetch_then fun page => ?_
  split
  · exact Triple.fail fun _ _ => .inr (.inr ⟨_, rfl⟩)
  · exact Triple.pure fun _ _ => True.intro

theorem triple_fetchAs_error (convert : Scrape.Html → Except Scrape.Panic Text) (lib : Scrape.ScrapeLib)
    (args : Option Value) (w : World) :
    Triple (· = w) (Scrape.fetchAs convert net lib config args) (fun _ _ => True) (PageError w) := by
  refine Triple.bind (triple_argument fun e => getStrArg_error) fun url => ?_
  refine triple_fetch_then fun page => ?_
  split
  · exact Triple.fail fun _ _ => .inr (.inr ⟨_, rfl⟩)
  · exact Triple.pure fun _ _ => True.intro

end Fetches

/-- **What a fetch comes to.** On any network and with any configuration, from any point of a run: `fetch_page` returns a page
    of an http(s) URL that `validate_url` accepted and that was requested, with a body within three times the cap, or fails
    with `UrlNotAllowed`, `HttpError`, `Timeout` or `ResponseTooLarge`. The tools for one page fail as it does, or in the
    conversion, or for their arguments; and for their arguments before they have done anything. -/
theorem fetch_outcomes (net : Net) (lib : Scrape.ScrapeLib) (docs : Documents) (config : Config) (args : Option Value)
    (w : World) :
    (∀ start page w', fetchPage net config start w = (.ok page, w') → Fetched config page w') ∧
      (∀ start e w', fetchPage net config start w = (.error e, w') → FetchError e) ∧
      ∀ tool ∈ [Scrape.webScrape net lib config args, Scrape.webFetch net lib config args,
          Scrape.webFetchText net lib config args, Actions.webFetchHeaders net config args,
          Actions.webSitemap net docs config args],
        ∀ e w', tool w = (.error e, w') → PageError w e w' := by
  have hfetch (start : Text) := @triple_fetched net config start w True.intro
  refine ⟨fun start page w' hrun => ?_, fun start e w' hrun => ?_, fun tool htool e w' hrun => ?_⟩
  · have h := hfetch start
    rw [hrun] at h
    exact h
  · have h := hfetch start
    rw [hrun] at h
    exact h
  · have h : Triple (· = w) tool (fun _ _ => True) (PageError w) := by
      simp only [List.mem_cons, List.not_mem_nil, or_false] at htool
      rcases htool with rfl | rfl | rfl | rfl | rfl
      · exact triple_webScrape_error lib args w
      · exact triple_fetchAs_error _ lib args w
      · exact triple_fetchAs_error _ lib args w
      · exact triple_webFetchHeaders_error args w
      · exact triple_webSitemap_error docs args w
    have herror := h w rfl
    rw [hrun] at herror
    exact herror

/-! ## One page as markdown -/

namespace Scrape

/-- The blocking task of `web_scrape` for markdown alone: one conversion of the parsed body. -/
theorem scrapeSections_markdown (lib : ScrapeLib) (urls : UrlParser) {fmt : Text} (onlyMain : Bool) (body : Text) (finalUrl : Url)
    (hfmt : fmt = "markdown" ∨ fmt = "extract") :
    scrapeSections lib urls [fmt] onlyMain body finalUrl =
      ((if onlyMain then mainToMarkdownDoc lib.collapse (lib.parseDocument body)
        else domToMarkdownDoc lib.collapse (lib.parseDocument body).root).mapError TaskPanic.conversion).map fun md => [md] := by
  have hmarkdown : oneOf fmt ["markdown", "extract"] = true := by
    rcases hfmt with rfl | rfl
    · decide
    · decide
  have hdom : needsDom [fmt] onlyMain = true := by
    rcases hfmt with rfl | rfl
    · cases onlyMain <;> decide
    · cases onlyMain <;> decide
  unfold scrapeSections
  rw [hdom, if_pos rfl]
  unfold scrapeLoop scrapeSection
  dsimp only
  rw [if_pos hmarkdown]
  generalize hmd : (if onlyMain then mainToMarkdownDoc lib.collapse (lib.parseDocument body)
    else domToMarkdownDoc lib.collapse (lib.parseDocument body).root) = md
  show (((if onlyMain then mainToMarkdownDoc lib.collapse (lib.parseDocument body)
    else domToMarkdownDoc lib.collapse (lib.parseDocument body).root).mapError TaskPanic.conversion >>= fun md =>
      pure (md, some body)) >>= _) = _
  rw [hmd]
  cases md with
  | error p => rfl
  | ok md => rfl

/-- **The tools that convert a page to markdown agree.** With markdown as the only format, `web_scrape` is `web_fetch`: the same
    requests, errors and result. With only the main content, what it returns is what `web_extract` puts under the heading of the
    URL, on the same network, if the conversion is not cancelled; where that is nothing, it says so. -/
theorem markdown_tools_agree (net : Net) (lib : ScrapeLib) (config : Config) (args : Option Value) (fmt : Text)
    (hfmt : fmt = "markdown" ∨ fmt = "extract") (hformats : (getStrArray args "formats").getD ["markdown"] = [fmt]) :
    ((getOptBool args "onlyMainContent").getD false = false → webScrape net lib config args = webFetch net lib config args) ∧
      ((getOptBool args "onlyMainContent").getD false = true → ∀ url value w', getStrArg args "url" = .ok url →
        webScrape net lib config args World.initial = (.ok value, w') →
          ∃ md, value = textContent (if md.isEmpty then "No content found" else md) ∧
            ∀ panic, Actions.extractSection panic net lib false config url =
              .returned ("## Content from " ++ url ++ "\n\n" ++ md)) := by
  have hcheck : checkFormats [fmt] = .ok () := by
    rcases hfmt with rfl | rfl
    · decide
    · decide
  have hjoin (md : Text) : join "\n\n" [md] = md := List.append_nil md
  constructor
  · intro honlyMain
    unfold webScrape webFetch fetchAs
    dsimp only
    rw [hformats, honlyMain, hcheck]
    apply Prog.bind_congr_of_run
    intro w url w' _
    show (Prog.ofExcept (.ok ()) >>= fun _ => _) w' = _
    rw [bind_ok (ofExcept_ok () w')]
    apply congrFun (Prog.bind_congr_of_run _) w'
    intro w page w'' _
    rw [scrapeSections_markdown lib net.urls false page.body page.finalUrl hfmt, if_neg Bool.false_ne_true]
    cases domToMarkdownDoc lib.collapse (lib.parseDocument page.body).root with
    | error p => rfl
    | ok md =>
        show (pure (textContent (if (join "\n\n" [md]).isEmpty then _ else join "\n\n" [md])) : NetM Value) w'' = _
        rw [hjoin]
  · intro honlyMain url value w' hurl hrun
    unfold webScrape at hrun
    dsimp only at hrun
    rw [hformats, honlyMain, hcheck, hurl, bind_ok (ofExcept_ok url World.initial)] at hrun
    change (Prog.ofExcept (.ok ()) >>= fun _ => _) World.initial = _ at hrun
    rw [bind_ok (ofExcept_ok () World.initial)] at hrun
    unfold Actions.extractSection
    rcases hfetch : fetchPage net config url World.initial with ⟨r, w''⟩
    cases r with
    | error e =>
        rw [bind_error hfetch] at hrun
        cases (Prod.mk.inj hrun).1
    | ok page =>
        rw [bind_ok hfetch, scrapeSections_markdown lib net.urls true page.body page.finalUrl hfmt, if_pos rfl] at hrun
        dsimp only
        unfold Actions.convertBlocking Actions.mainToMarkdown
        cases hmd : mainToMarkdownDoc lib.collapse (lib.parseDocument page.body) with
        | error p =>
            rw [hmd] at hrun
            cases (Prod.mk.inj hrun).1
        | ok md =>
            rw [hmd] at hrun
            refine ⟨md, ?_, fun panic => rfl⟩
            change (pure (textContent (if (join "\n\n" [md]).isEmpty then _ else join "\n\n" [md])) : NetM Value) w'' = _ at hrun
            rw [hjoin] at hrun
            exact (Except.ok.inj (Prod.mk.inj hrun).1).symm

/-- `web_scrape` of a page without formats, on a network that redirects it, beside `web_fetch` of the page. -/
theorem markdown_tools_agree_default :
    webScrape redirectNet ⟨fun _ => ⟨[], none, []⟩, .ok, fun _ => []⟩ (Config.default ⟨4, fun _ => .error [], fun _ => []⟩)
        (some (.object [("url", .string "http://example.com/")])) =
      webFetch redirectNet ⟨fun _ => ⟨[], none, []⟩, .ok, fun _ => []⟩ (Config.default ⟨4, fun _ => .error [], fun _ => []⟩)
        (some (.object [("url", .string "http://example.com/")])) :=
  (markdown_tools_agree redirectNet ⟨fun _ => ⟨[], none, []⟩, .ok, fun _ => []⟩
    (Config.default ⟨4, fun _ => .error [], fun _ => []⟩) (some (.object [("url", .string "http://example.com/")])) "markdown"
    (.inl rfl) rfl).1 rfl

end Scrape
end McpWebSearch
