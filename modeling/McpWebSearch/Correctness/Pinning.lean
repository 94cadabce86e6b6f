import McpWebSearch.Correctness.Validation
import McpWebSearch.Correctness.Client

/-!
# `Correctness.Pinning` — what a pinned client is pinned to

`build_pinned_client` resolves and checks a domain a second time, in a loop of its own, and installs one
override for each address. Two things set it apart from `check_addrs`: an empty answer passes its check
(`checkAddrs_eq_ok_iff`), and an override replaces the one before, so only the last address of the answer stays
(`pinAll_lookup_eq`). `pinsExactly_iff` says for which answers neither matters.
-/

namespace McpWebSearch

open Utf8 Prog

/-- The addresses a client may connect to for a domain: its override, or whatever the domain resolves to at
    connect time. -/
def Client.MayConnect (c : Client) (domain : Text) (addr : SocketAddr) : Prop :=
  match c.overrides.lookup domain with
  | some pinned => addr = pinned
  | none => True

/-! ## The two address checks -/

/-- A round of `check_addrs` is a round of the pinning check, and leaves `saw_any` set. -/
theorem checkAddrsLoop_cons {domain : Text} {sawAny : Bool} {addrs : List SocketAddr}
    (hrest : checkAddrsLoop domain true addrs = checkPinned domain false addrs) (addr : SocketAddr) :
    checkAddrsLoop domain sawAny (addr :: addrs) = checkPinned domain false (addr :: addrs) := by
  simp only [checkAddrsLoop, checkPinned, validateIp, Bool.false_eq_true, if_false]
  cases addr.ip with
  | v4 ip =>
      cases hguard : guardIpv4 ip with
      | error e => simp [hguard]
      | ok u => simpa [hguard] using hrest
  | v6 ip =>
      cases hguard : guardIpv6 ip with
      | error e => simp [hguard]
      | ok u => simpa [hguard] using hrest

/-- Past its first address `check_addrs` is the pinning check. -/
theorem checkAddrsLoop_true {domain : Text} {addrs : List SocketAddr} :
    checkAddrsLoop domain true addrs = checkPinned domain false addrs := by
  induction addrs with
  | nil => rfl
  | cons a addrs ih => exact checkAddrsLoop_cons ih a

/-- **The two checks differ on the empty list alone**, which `check_addrs` rejects. -/
theorem checkAddrs_eq_ok_iff {domain : Text} {addrs : List SocketAddr} :
    checkAddrs addrs domain = .ok () ↔ addrs ≠ [] ∧ checkPinned domain false addrs = .ok () := by
  cases addrs with
  | nil => simp [checkAddrs, checkAddrsLoop]
  | cons a addrs =>
      rw [checkAddrs, checkAddrsLoop_cons checkAddrsLoop_true]
      simp

/-! ## The addresses of the client -/

/-- A client built from a non-empty answer connects to its last address only. -/
theorem mayConnect_pinAll {domain : Text} {addrs : List SocketAddr} {last addr : SocketAddr}
    (hlast : addrs.getLast? = some last) :
    (pinAll domain Client.shared addrs).MayConnect domain addr ↔ addr = last := by
  unfold Client.MayConnect
  rw [pinAll_lookup_eq, hlast]
  rfl

/-! ## Exact pinning -/

/-- The steps of `build_pinned_client` for a domain whose lookup answers `addrs`. -/
theorem buildPinnedClient_eq {net : Net} {config : Config} {url : Url} {domain : Text} {w : World}
    {addrs : List SocketAddr} (hhost : url.host = some (.domain domain))
    (hlookup : net.lookupHost w.lookups domain (url.portOrKnownDefault.getD 0) = .ok addrs) :
    (buildPinnedClient net config url w).1 =
      (checkPinned domain config.allowPrivateHosts addrs).bind
        (fun _ => finishBuild net (pinAll domain Client.shared addrs)) := by
  unfold buildPinnedClient lookupHost
  simp only [hhost, bind, Prog.observe, Prog.change, pure, hlookup, Prog.ofExcept]
  cases checkPinned domain config.allowPrivateHosts addrs with
  | error e => rfl
  | ok u => rfl

/-- **Exact pinning** for an answer: whatever client is built from it, `check_addrs` accepts the answer and the
    client connects, for the domain, to the addresses of the answer and no others. -/
def PinsExactly (domain : Text) (addrs : List SocketAddr) : Prop :=
  ∀ (net : Net) (config : Config) (url : Url) (w : World) (c : Client),
    config.allowPrivateHosts = false → url.host = some (.domain domain) →
    net.lookupHost w.lookups domain (url.portOrKnownDefault.getD 0) = .ok addrs →
    (buildPinnedClient net config url w).1 = .ok c →
      checkAddrs addrs domain = .ok () ∧ ∀ addr, c.MayConnect domain addr ↔ addr ∈ addrs

/-- A network whose lookups all have the answer `addrs`. -/
def answerNet (addrs : List SocketAddr) : Net where
  urls := ⟨fun _ => .error [], fun _ _ => .error []⟩
  lookupHost _ _ _ := .ok addrs
  build _ := .ok ()
  connects _ _ _ := []
  send _ _ _ _ := .elapsed
  canonicalReason _ := none

/-- For an answer that passes the check, exact pinning is about the one client there is to build. -/
theorem pinsExactly_iff_of_checkPinned {domain : Text} {addrs : List SocketAddr}
    (hcheck : checkPinned domain false addrs = .ok ()) :
    PinsExactly domain addrs ↔
      addrs ≠ [] ∧ ∀ addr, (pinAll domain Client.shared addrs).MayConnect domain addr ↔ addr ∈ addrs := by
  constructor
  · intro h
    have hbuilt : (buildPinnedClient (answerNet addrs)
        (Config.default ⟨4, fun _ => .error [], fun _ => []⟩)
        ⟨[], [], some (.domain domain), none⟩ World.initial).1 =
          .ok (pinAll domain Client.shared addrs) := by
      rw [buildPinnedClient_eq rfl rfl]
      show (checkPinned domain false addrs).bind _ = _
      rw [hcheck]
      rfl
    have hexact := h _ _ _ _ _ rfl rfl rfl hbuilt
    exact ⟨(checkAddrs_eq_ok_iff.mp hexact.1).1, hexact.2⟩
  · rintro ⟨hne, hmay⟩ net config url w c hpriv hhost hlookup hbuilt
    rw [buildPinnedClient_eq hhost hlookup, hpriv, hcheck] at hbuilt
    obtain rfl := finishBuild_ok hbuilt
    exact ⟨checkAddrs_eq_ok_iff.mpr ⟨hne, hcheck⟩, hmay⟩

/-- No client is built from an answer with a blocked address. -/
theorem pinsExactly_of_rejects {domain : Text} {addrs : List SocketAddr}
    (hblocked : ∃ addr ∈ addrs, Rejects (validateIp addr.ip false)) : PinsExactly domain addrs := by
  obtain ⟨addr, hmem, e, hrejects⟩ := hblocked
  intro net config url w c hpriv hhost hlookup hbuilt
  rw [buildPinnedClient_eq hhost hlookup, hpriv] at hbuilt
  cases hcheck : checkPinned domain false addrs with
  | error e =>
      rw [hcheck] at hbuilt
      cases hbuilt
  | ok u =>
      rw [checkPinned_eq_ok_iff.mp hcheck addr hmem] at hrejects
      cases hrejects

/-- A list is its last element and no other when all its elements are equal. -/
theorem mem_iff_eq_last {addrs : List SocketAddr} {last : SocketAddr} (hlast : addrs.getLast? = some last) :
    (∀ addr, addr = last ↔ addr ∈ addrs) ↔ ∀ a ∈ addrs, ∀ b ∈ addrs, a = b := by
  have hmem := List.mem_of_getLast? hlast
  constructor
  · intro h a ha b hb
    rw [(h a).mpr ha, (h b).mpr hb]
  · intro h addr
    constructor
    · rintro rfl
      exact hmem
    · intro haddr
      exact h addr haddr last hmem

/-- **When pinning is exact**: for the answers with a blocked address, for which no client is built, and for
    those that list one address and no other. -/
theorem pinsExactly_iff (domain : Text) (addrs : List SocketAddr) :
    PinsExactly domain addrs ↔
      (∃ addr ∈ addrs, Rejects (validateIp addr.ip false)) ∨
        addrs ≠ [] ∧ ∀ a ∈ addrs, ∀ b ∈ addrs, a = b := by
  by_cases hblocked : ∃ addr ∈ addrs, Rejects (validateIp addr.ip false)
  · exact ⟨fun _ => .inl hblocked, fun _ => pinsExactly_of_rejects hblocked⟩
  have hcheck : checkPinned domain false addrs = .ok () := by
    apply checkPinned_eq_ok_iff.mpr
    intro addr hmem
    cases hip : validateIp addr.ip false with
    | error e => exact absurd ⟨addr, hmem, e, hip⟩ hblocked
    | ok u => rfl
  rw [pinsExactly_iff_of_checkPinned hcheck, or_iff_right hblocked]
  apply and_congr_right
  intro hne
  have hlast := List.getLast?_eq_some_getLast hne
  rw [← mem_iff_eq_last hlast]
  simp only [mayConnect_pinAll hlast]

/-- **Two addresses**: the override of the first is replaced by that of the second. -/
theorem pinsExactly_two_addresses :
    ¬ PinsExactly "example.com" [⟨.v4 ⟨93, 184, 216, 34⟩, 443⟩, ⟨.v4 ⟨93, 184, 216, 35⟩, 443⟩] := by
  rw [pinsExactly_iff_of_checkPinned rfl]
  rintro ⟨-, hmay⟩
  have hfirst := (hmay ⟨.v4 ⟨93, 184, 216, 34⟩, 443⟩).mpr List.mem_cons_self
  rw [mayConnect_pinAll rfl] at hfirst
  exact absurd hfirst (by decide)

end McpWebSearch
