import McpWebSearch.Correctness.Client

/-!
# `Correctness.Verdict` — which URLs `validate_url` accepts

A verdict depends on the URL string and on the answer of the DNS at that moment. `isOk_validateUrl_iff` separates
the two; with a steady DNS the second is the same at every moment, and one verdict speaks for all
(`accepts_iff`).
-/

namespace McpWebSearch

open Utf8

/-- The DNS does not change its answers. -/
def Net.Steady (net : Net) : Prop :=
  ∀ m n domain port, net.lookupHost m domain port = net.lookupHost n domain port

/-- `validate_url` accepts the URL, whenever it is called. -/
def Accepts (net : Net) (allowPrivate : Bool) (raw : Text) : Prop :=
  ∀ w, (validateUrl net raw allowPrivate w).1.isOk = true

/-- The URL has scheme http or https. -/
def HttpText (urls : UrlParser) (raw : Text) : Prop := ∃ url, urls.parse raw = .ok url ∧ HttpUrl url

/-- The verdict of `validate_url` is that of its body. -/
theorem validateUrl_fst (net : Net) (raw : Text) (allowPrivate : Bool) (w : World) :
    (validateUrl net raw allowPrivate w).1 = (checkUrl net raw allowPrivate w).1 := by
  rcases hcheck : checkUrl net raw allowPrivate w with ⟨r, w'⟩
  unfold validateUrl
  rw [Prog.bind_ok (Prog.attempt_of_run hcheck)]
  cases r with
  | ok url => rfl
  | error e => rfl

/-- **When `validate_url` accepts**: the scheme and host check passes, and the addresses do if they matter. -/
theorem isOk_validateUrl_iff {net : Net} {raw : Text} {allowPrivate : Bool} {w : World} :
    (validateUrl net raw allowPrivate w).1.isOk = true ↔
      ∃ url, parseAndCheckSchemeHost net.urls raw = .ok url ∧
        (allowPrivate = true ∨ (checkHostAsync net url w).1.isOk = true) := by
  rw [validateUrl_fst]
  unfold checkUrl
  cases hscheme : parseAndCheckSchemeHost net.urls raw with
  | error e =>
      rw [Prog.bind_error (Prog.ofExcept_error e w)]
      simp [Except.isOk, Except.toBool]
  | ok url =>
      rw [Prog.bind_ok (Prog.ofExcept_ok url w)]
      cases allowPrivate with
      | true => simp [pure, Except.isOk, Except.toBool]
      | false =>
          rw [if_neg Bool.false_ne_true]
          rcases hhost : checkHostAsync net url w with ⟨r, w'⟩
          cases r with
          | error e =>
              rw [Prog.bind_error hhost]
              simp [hhost, Except.isOk, Except.toBool]
          | ok u =>
              rw [Prog.bind_ok hhost]
              simp [hhost, pure, Except.isOk, Except.toBool]

/-- An accepted URL is returned as it was parsed. -/
theorem validateUrl_eq_ok {net : Net} {raw : Text} {allowPrivate : Bool} {w : World} {url url' : Url}
    (h : (validateUrl net raw allowPrivate w).1 = .ok url)
    (hscheme : parseAndCheckSchemeHost net.urls raw = .ok url') : url' = url := by
  rw [validateUrl_fst] at h
  unfold checkUrl at h
  rw [hscheme, Prog.bind_ok (Prog.ofExcept_ok url' w)] at h
  cases allowPrivate with
  | true => exact Except.ok.inj h
  | false =>
      rw [if_neg Bool.false_ne_true] at h
      rcases hhost : checkHostAsync net url' w with ⟨r, w'⟩
      cases r with
      | error e =>
          rw [Prog.bind_error hhost] at h
          cases h
      | ok u =>
          rw [Prog.bind_ok hhost] at h
          exact Except.ok.inj h

/-- With a steady DNS the address check depends on the host alone. -/
theorem checkHostAsync_steady {net : Net} (hsteady : net.Steady) {url url' : Url} (hhost : url.host = url'.host)
    (w w' : World) : (checkHostAsync net url w).1 = (checkHostAsync net url' w').1 := by
  unfold checkHostAsync
  rw [hhost]
  cases url'.host with
  | none => rfl
  | some host =>
      cases host with
      | ipv4 ip => rfl
      | ipv6 ip => rfl
      | domain domain =>
          have hlookup : ∀ w : World, lookupHost net domain 0 w =
              (.ok (net.lookupHost 0 domain 0), (lookupHost net domain 0 w).2) := by
            intro w
            rw [hsteady 0 w.lookups domain 0]
            rfl
          dsimp only
          rw [Prog.bind_ok (hlookup w), Prog.bind_ok (hlookup w')]
          cases net.lookupHost 0 domain 0 with
          | error e => rfl
          | ok addrs => rfl

/-- With a steady DNS one verdict is as good as another. -/
theorem accepts_iff {net : Net} (hsteady : net.Steady) {allowPrivate : Bool} {raw : Text} (w : World) :
    Accepts net allowPrivate raw ↔ (validateUrl net raw allowPrivate w).1.isOk = true := by
  constructor
  · exact fun h => h w
  · intro h w'
    obtain ⟨url, hscheme, haddrs⟩ := isOk_validateUrl_iff.mp h
    apply isOk_validateUrl_iff.mpr
    refine ⟨url, hscheme, ?_⟩
    rw [checkHostAsync_steady hsteady rfl w' w]
    exact haddrs

theorem httpText_of_accepts {net : Net} {allowPrivate : Bool} {raw : Text} (h : Accepts net allowPrivate raw) :
    HttpText net.urls raw := by
  obtain ⟨url, hscheme, -⟩ := isOk_validateUrl_iff.mp (h World.initial)
  obtain ⟨hparse, hhttp, -⟩ := parseAndCheckSchemeHost_eq_ok_iff.mp hscheme
  exact ⟨url, hparse, hhttp⟩

end McpWebSearch
