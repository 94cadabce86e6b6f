import McpWebSearch.Correctness.Http

/-!
# `Correctness.Token` — which configured tokens a client can present

A token comes from the command line as it is, or from a file, trimmed and checked for being empty. `token_matches` trims
the presented credential, takes `Bearer ` off it and trims again, and compares the rest with the token: a token with
white space at an end, or without a character, matches nothing (`tokenMatches_bearer`). `bearer_accepted_iff` puts
loading and checking together.
-/

namespace McpWebSearch

open Utf8

/-- A printable ASCII character, the space included. -/
def Printable (c : Char) : Prop := 0x20 ≤ c.toNat ∧ c.toNat ≤ 0x7E

instance (c : Char) : Decidable (Printable c) := inferInstanceAs (Decidable (_ ∧ _))

theorem printable_of_all {s : Text} (h : s.all (fun c => decide (Printable c)) = true) : ∀ c ∈ s, Printable c := by
  intro c hc
  exact of_decide_eq_true (List.all_eq_true.mp h c hc)

/-- Printable text is read back from a header value as it is. -/
theorem HeaderMap.toStr_bytes {s : Text} (h : ∀ c ∈ s, Printable c) : HeaderMap.toStr (bytes s) = some s := by
  have hascii (c : Char) (hc : c ∈ s) : c.toNat < 0x80 := by
    have := (h c hc).2
    omega
  have hlead (c : Char) (hc : c ∈ s) : (lead c).toNat = c.toNat := by rw [lead_toNat, if_pos (hascii c hc)]
  have hall : (s.map lead).all (fun b => (32 ≤ b.toNat && b.toNat < 127) || b.toNat = 9) = true := by
    rw [List.all_map, List.all_eq_true]
    intro c hc
    obtain ⟨hlow, hhigh⟩ := h c hc
    have hlt : c.toNat < 127 := by omega
    simp [hlead c hc, hlow, hlt]
  have hback : (s.map lead).map (fun b => Char.ofNat b.toNat) = s := by
    rw [List.map_map]
    exact (List.map_congr_left fun c hc => ofNat_lead (hascii c hc)).trans (List.map_id' s)
  rw [HeaderMap.toStr, bytes_ascii hascii, if_pos hall, hback]

/-! ## The check -/

namespace Server

/-- **Which tokens pass as their own bearer credential**: those that trimming leaves as they are, unless empty. -/
theorem tokenMatches_bearer (t : Text) : tokenMatches ("Bearer " ++ t) t = true ↔ t ≠ [] ∧ trim t = t := by
  rw [tokenMatches]
  by_cases hblank : trim t = []
  · -- all that is left is the word `Bearer`, without the blank that `strip_prefix` looks for
    have hspace : trim ((" " : Text) ++ t) = [] := trim_append_eq_nil_iff.mpr ⟨by decide, hblank⟩
    have htrim : trim ("Bearer " ++ t) = "Bearer" := trim_append_of_blank_right (s := "Bearer") hspace
    have hbearer : trim ((stripPrefix "Bearer " "Bearer").getD "Bearer") = "Bearer" := by decide
    rw [htrim, hbearer, beq_iff_eq, bytes_inj]
    constructor
    · intro ht
      rw [← ht] at hblank
      exact absurd hblank (by decide)
    · rintro ⟨hne, hself⟩
      exact absurd (hself.symm.trans hblank) hne
  · have htrim : trim ("Bearer " ++ t) = "Bearer " ++ t.rdropWhile isWhitespace :=
      trim_append_of_solid (c := 'B') rfl (by decide) hblank
    have hstrip : stripPrefix "Bearer " ("Bearer " ++ t.rdropWhile isWhitespace) = some (t.rdropWhile isWhitespace) := rfl
    rw [htrim, hstrip, Option.getD_some, trim_rdropWhile, beq_iff_eq, bytes_inj]
    constructor
    · intro hself
      refine ⟨?_, hself⟩
      rintro rfl
      exact hblank rfl
    · intro h
      exact h.2

end Server

/-! ## From the arguments to the check -/

namespace Http

/-- The token as it was supplied: on the command line, or as the trimmed content of the token file. -/
def Supplied (env : Env) (args : Args) (s : Text) : Prop :=
  args.authToken = some s ∨
    args.authToken = none ∧ ∃ path contents, args.authTokenFile = some path ∧
      env.readToString path = .ok contents ∧ s = trim contents

/-- The inline token, if there is one, is not empty and has no white space at its ends. -/
def TrimmedInline (args : Args) : Prop := ∀ s, args.authToken = some s → s ≠ [] ∧ trim s = s

/-- A request with this value in its `Authorization` header. -/
def Presents (headers : HeaderMap) (credential : Text) : Prop := headers.get "authorization" = some (bytes credential)

/-- Where a loaded token comes from. -/
theorem loadAuthToken_eq_some_iff {env : Env} {args : Args} {t : Text} :
    Config.loadAuthToken env args = .ok (some t) ↔
      args.authToken = some t ∨
        args.authToken = none ∧ ∃ path contents, args.authTokenFile = some path ∧
          env.readToString path = .ok contents ∧ t = trim contents ∧ t ≠ [] := by
  rw [Config.loadAuthToken]
  cases hinline : args.authToken with
  | some t' => simp
  | none =>
      cases hfile : args.authTokenFile with
      | none => simp
      | some path =>
          cases hread : env.readToString path with
          | error e => simp [hread]
          | ok contents =>
              simp only [hread, List.isEmpty_iff]
              by_cases hempty : trim contents = []
              · rw [if_pos hempty]
                refine iff_of_false (by rintro ⟨⟩) ?_
                rintro (h | ⟨-, path', contents', hpath, hcontents, ht, hne⟩)
                · cases h
                · obtain rfl := Option.some.inj hpath
                  rw [← Except.ok.inj (hread.symm.trans hcontents), hempty] at ht
                  exact hne ht
              · rw [if_neg hempty]
                constructor
                · intro h
                  obtain rfl := Option.some.inj (Except.ok.inj h)
                  exact .inr ⟨trivial, path, contents, rfl, hread, rfl, hempty⟩
                · rintro (h | ⟨-, path', contents', hpath, hcontents, ht, -⟩)
                  · cases h
                  · obtain rfl := Option.some.inj hpath
                    rw [ht, Except.ok.inj (hread.symm.trans hcontents)]

/-- What was supplied is what was loaded. -/
theorem supplied_iff {env : Env} {args : Args} {t : Text} (hload : Config.loadAuthToken env args = .ok (some t))
    (s : Text) : Supplied env args s ↔ s = t := by
  unfold Supplied
  rcases loadAuthToken_eq_some_iff.mp hload with hinline | ⟨hinline, path, contents, hfile, hread, ht, -⟩
  · simp [hinline, eq_comm]
  · simp [hinline, hfile, hread, ht]

/-- A loaded token is trimmed and not empty exactly if an inline token is. -/
theorem trimmedInline_iff {env : Env} {args : Args} {t : Text} (hload : Config.loadAuthToken env args = .ok (some t)) :
    TrimmedInline args ↔ t ≠ [] ∧ trim t = t := by
  unfold TrimmedInline
  rcases loadAuthToken_eq_some_iff.mp hload with hinline | ⟨hinline, path, contents, -, -, ht, hne⟩
  · simp [hinline]
  · have hself : trim t = t := by rw [ht, trim_trim]
    simp [hinline, hne, hself]

/-- **A configured token can be presented exactly if it is not an inline token that is empty or has blank ends.** -/
theorem bearer_accepted_iff (env : Env) (args : Args) (config : Config) (t : Text)
    (hok : Config.fromArgs env args = .ok config) (htoken : config.server.authToken = some t)
    (hprint : ∀ c ∈ t, Printable c) :
    (∀ s headers, Supplied env args s → Presents headers ("Bearer " ++ s) → authorized config headers = true) ↔
      TrimmedInline args := by
  have hauthorized (headers : HeaderMap) (hheaders : Presents headers ("Bearer " ++ t)) :
      authorized config headers = true ↔ t ≠ [] ∧ trim t = t := by
    have hbearer : ∀ c ∈ ("Bearer " ++ t : Text), Printable c :=
      List.forall_mem_append.mpr ⟨printable_of_all (by decide), hprint⟩
    have hcredential : presentedCredential headers = "Bearer " ++ t := by
      rw [presentedCredential, hheaders, Option.bind_some, HeaderMap.toStr_bytes hbearer, Option.getD_some]
    rw [authorized, htoken, hcredential]
    exact Server.tokenMatches_bearer t
  obtain ⟨-, -, -, token, hload, hconfig⟩ := Config.fromArgs_eq_ok_iff.mp hok
  obtain rfl : token = some t := by
    rw [hconfig] at htoken
    exact htoken
  rw [trimmedInline_iff hload]
  constructor
  · intro hall
    have hpresents : Presents [("authorization", bytes ("Bearer " ++ t))] ("Bearer " ++ t) := rfl
    exact (hauthorized _ hpresents).mp (hall t _ ((supplied_iff hload t).mpr rfl) hpresents)
  · intro ht s headers hs hheaders
    obtain rfl := (supplied_iff hload s).mp hs
    exact (hauthorized headers hheaders).mpr ht

/-- A token file with surrounding white space. -/
theorem bearer_accepted_file :
    authorized (Config.ofArgs ⟨4, fun _ => .ok "  s3cret token\n", fun _ => []⟩
      (baseArgs none (some "/etc/token")) (some "s3cret token"))
      [("authorization", bytes ("Bearer s3cret token" : Text))] = true :=
  (bearer_accepted_iff ⟨4, fun _ => .ok "  s3cret token\n", fun _ => []⟩ (baseArgs none (some "/etc/token")) _
    "s3cret token" rfl rfl (printable_of_all (by decide))).mpr (fun _ h => nomatch h) "s3cret token" _
    (.inr ⟨rfl, _, _, rfl, rfl, rfl⟩) rfl

/-- **`--auth-token "secret "`** is accepted at start-up, and the credential `Bearer secret ` is not. -/
theorem padded_inline_token_rejected :
    ¬ ∀ (env : Env) (args : Args) (config : Config) (t : Text), Config.fromArgs env args = .ok config →
      config.server.authToken = some t → (∀ c ∈ t, Printable c) →
      ∀ s headers, Supplied env args s → Presents headers ("Bearer " ++ s) → authorized config headers = true := by
  intro h
  have haccepted := h ⟨4, fun _ => .error [], fun _ => []⟩ (baseArgs (some "secret ") none) _ "secret " rfl rfl
    (printable_of_all (by decide)) "secret " [("authorization", bytes ("Bearer secret " : Text))] (.inl rfl) rfl
  exact absurd haccepted (by decide)

end Http

end McpWebSearch
