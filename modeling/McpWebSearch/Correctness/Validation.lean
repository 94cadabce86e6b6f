import McpWebSearch.Client

/-!
# `Correctness.Validation` — the IPv6 guard on embedded IPv4 addresses

Four standard formats put an IPv4 address inside an IPv6 address (`Transition`). The IPv6 guard looks for one
of them, the IPv4-mapped one; in the other three it sees an ordinary global address, but for the two
IPv4-compatible addresses that are `::` and `::1`. `guardIpv6_embedded_iff` is the exact account.
-/

namespace McpWebSearch

open Utf8

/-! ## Octets and segments -/

theorem toNat_segment (hi lo : UInt8) : (segment hi lo).toNat = 256 * hi.toNat + lo.toNat := by
  have h1 := hi.toNat_lt
  have h2 := lo.toNat_lt
  rw [segment, UInt16.toNat_ofNat']
  omega

/-- The octets of a segment are those it was made of. -/
theorem octets_segment (hi lo : UInt8) : octets (segment hi lo) = (hi, lo) := by
  have h1 := hi.toNat_lt
  have h2 := lo.toNat_lt
  rw [octets, toNat_segment]
  refine Prod.ext ?_ ?_
  · apply UInt8.toNat_inj.mp
    show (UInt8.ofNat ((256 * hi.toNat + lo.toNat) / 256)).toNat = hi.toNat
    rw [UInt8.toNat_ofNat']
    omega
  · apply UInt8.toNat_inj.mp
    show (UInt8.ofNat ((256 * hi.toNat + lo.toNat) % 256)).toNat = lo.toNat
    rw [UInt8.toNat_ofNat']
    omega

theorem ofSegments_segment (v : Ipv4Addr) :
    Ipv4Addr.ofSegments (segment v.a v.b) (segment v.c v.d) = v := by
  rw [Ipv4Addr.ofSegments, octets_segment, octets_segment]

/-- A segment determines its octets. -/
theorem segment_eq_iff {hi lo : UInt8} {n : Nat} (hn : n < 256) :
    segment hi lo = UInt16.ofNat n ↔ hi = 0 ∧ lo = UInt8.ofNat n := by
  have h1 := hi.toNat_lt
  have h2 := lo.toNat_lt
  rw [← UInt16.toNat_inj, toNat_segment, UInt16.toNat_ofNat', ← UInt8.toNat_inj, ← UInt8.toNat_inj,
    UInt8.toNat_ofNat']
  show _ ↔ hi.toNat = 0 ∧ _
  omega

/-! ## Embedded addresses -/

/-- The standard formats that embed an IPv4 address in an IPv6 address. -/
inductive Transition
  | mapped      -- `::ffff:0:0/96`
  | compatible  -- `::/96`
  | nat64       -- `64:ff9b::/96`
  | sixToFour   -- `2002::/16`, the low 80 bits free
  deriving DecidableEq

/-- `ip` embeds `v` by the format. -/
def Transition.Embeds : Transition → Ipv6Addr → Ipv4Addr → Prop
  | .mapped, ip, v => ip = ⟨0, 0, 0, 0, 0, 0xFFFF, segment v.a v.b, segment v.c v.d⟩
  | .compatible, ip, v => ip = ⟨0, 0, 0, 0, 0, 0, segment v.a v.b, segment v.c v.d⟩
  | .nat64, ip, v => ip = ⟨0x64, 0xFF9B, 0, 0, 0, 0, segment v.a v.b, segment v.c v.d⟩
  | .sixToFour, ip, v => ip.s0 = 0x2002 ∧ ip.s1 = segment v.a v.b ∧ ip.s2 = segment v.c v.d

/-- A check rejects. -/
def Rejects (r : Result Unit) : Prop := ∃ e, r = .error e

theorem not_rejects_ok : ¬ Rejects (.ok ()) := by
  rintro ⟨e, h⟩
  cases h

theorem rejects_error (e : WebSearchError) : Rejects (.error e) := ⟨e, rfl⟩

/-- The guard rejects exactly the blocked ranges and the mapped addresses the IPv4 guard rejects. -/
theorem rejects_guardIpv6_iff (ip : Ipv6Addr) :
    Rejects (guardIpv6 ip) ↔
      blockedIpv6 ip = true ∨ ∃ v, ip.toIpv4Mapped = some v ∧ Rejects (guardIpv4 v) := by
  unfold guardIpv6
  by_cases hb : blockedIpv6 ip = true
  · rw [if_pos hb]
    exact ⟨fun _ => .inl hb, fun _ => rejects_error _⟩
  · rw [if_neg hb]
    cases hm : ip.toIpv4Mapped with
    | none =>
        refine ⟨fun h => absurd h not_rejects_ok, ?_⟩
        rintro (h | ⟨v, hv, -⟩)
        · exact absurd h hb
        · cases hv
    | some v =>
        refine ⟨fun h => .inr ⟨v, rfl, h⟩, ?_⟩
        rintro (h | ⟨v', hv', h⟩)
        · exact absurd h hb
        · cases hv'
          exact h

/-- A first segment outside `fc00::/7` and `fe80::/10`, and not zero, gets past the IPv6 guard. -/
theorem not_rejects_guardIpv6 {ip : Ipv6Addr} (h0 : ip.s0 ≠ 0) (hula : ip.s0 &&& 0xFE00 ≠ 0xFC00)
    (hlink : ip.s0 &&& 0xFFC0 ≠ 0xFE80) : ¬ Rejects (guardIpv6 ip) := by
  obtain ⟨s0, s1, s2, s3, s4, s5, s6, s7⟩ := ip
  simp only at h0 hula hlink
  rw [rejects_guardIpv6_iff]
  rintro (h | ⟨v, hv, -⟩)
  · simp [blockedIpv6, Ipv6Addr.isLoopback, Ipv6Addr.isUnspecified, h0, hula, hlink] at h
  · simp [Ipv6Addr.toIpv4Mapped, Ipv6Addr.segments, h0] at hv

/-- Of the IPv4-compatible addresses the guard rejects `::` and `::1`. -/
theorem rejects_guardIpv6_compatible_iff (hi lo : UInt16) :
    Rejects (guardIpv6 ⟨0, 0, 0, 0, 0, 0, hi, lo⟩) ↔ hi = 0 ∧ (lo = 0 ∨ lo = 1) := by
  have hmapped : Ipv6Addr.toIpv4Mapped ⟨0, 0, 0, 0, 0, 0, hi, lo⟩ = none := by
    simp [Ipv6Addr.toIpv4Mapped, Ipv6Addr.segments]
  have hblocked : blockedIpv6 ⟨0, 0, 0, 0, 0, 0, hi, lo⟩ = true ↔ hi = 0 ∧ (lo = 0 ∨ lo = 1) := by
    simp [blockedIpv6, Ipv6Addr.isLoopback, Ipv6Addr.isUnspecified]
    grind
  rw [rejects_guardIpv6_iff, hmapped, hblocked]
  simp

/-- What the IPv6 guard makes of an embedded address the IPv4 guard rejects. -/
theorem rejects_guardIpv6_embedded_iff {f : Transition} {ip : Ipv6Addr} {v : Ipv4Addr}
    (hv : Rejects (guardIpv4 v)) (hip : f.Embeds ip v) :
    Rejects (guardIpv6 ip) ↔
      f = .mapped ∨ f = .compatible ∧ (v = ⟨0, 0, 0, 0⟩ ∨ v = ⟨0, 0, 0, 1⟩) := by
  cases f with
  | mapped =>
      obtain rfl := hip
      have hm : Ipv6Addr.toIpv4Mapped ⟨0, 0, 0, 0, 0, 0xFFFF, segment v.a v.b, segment v.c v.d⟩
          = some v := by
        simp [Ipv6Addr.toIpv4Mapped, Ipv6Addr.segments, ofSegments_segment]
      exact ⟨fun _ => .inl rfl, fun _ => (rejects_guardIpv6_iff _).mpr (.inr ⟨v, hm, hv⟩)⟩
  | compatible =>
      obtain rfl := hip
      -- `::` and `::1`, read back as octets
      have hzero (hi lo : UInt8) : segment hi lo = 0 ↔ hi = 0 ∧ lo = 0 :=
        segment_eq_iff (by decide : 0 < 256)
      have hone (hi lo : UInt8) : segment hi lo = 1 ↔ hi = 0 ∧ lo = 1 :=
        segment_eq_iff (by decide : 1 < 256)
      obtain ⟨a, b, c, d⟩ := v
      rw [rejects_guardIpv6_compatible_iff, hzero, hzero, hone]
      simp only [reduceCtorEq, false_or, true_and, Ipv4Addr.mk.injEq]
      simp only [and_assoc, ← and_or_left]
  | nat64 =>
      obtain rfl := hip
      refine ⟨fun h => absurd h (not_rejects_guardIpv6 ?_ ?_ ?_), fun h => absurd h (by simp)⟩
      · exact (by decide : (0x64 : UInt16) ≠ 0)
      · exact (by decide : (0x64 : UInt16) &&& 0xFE00 ≠ 0xFC00)
      · exact (by decide : (0x64 : UInt16) &&& 0xFFC0 ≠ 0xFE80)
  | sixToFour =>
      -- only the first segment is looked at
      obtain ⟨h0, -, -⟩ := hip
      refine ⟨fun h => absurd h (not_rejects_guardIpv6 ?_ ?_ ?_), fun h => absurd h (by simp)⟩
      all_goals
        rw [h0]
        decide

/-! ## Every use of the guard -/

theorem rejects_validateIp_v6 (ip : Ipv6Addr) :
    Rejects (validateIp (.v6 ip) false) ↔ Rejects (guardIpv6 ip) := Iff.rfl

theorem rejects_checkAddrs_v6 (ip : Ipv6Addr) (port : UInt16) (domain : Text) :
    Rejects (checkAddrs [⟨.v6 ip, port⟩] domain) ↔ Rejects (guardIpv6 ip) := by
  unfold checkAddrs checkAddrsLoop
  dsimp only
  cases guardIpv6 ip with
  | error e => exact ⟨fun _ => rejects_error e, fun _ => rejects_error _⟩
  | ok u => exact Iff.rfl

theorem rejects_checkPinned_v6 (ip : Ipv6Addr) (port : UInt16) (domain : Text) :
    Rejects (checkPinned domain false [⟨.v6 ip, port⟩]) ↔ Rejects (guardIpv6 ip) := by
  have hguard : validateIp (.v6 ip) false = guardIpv6 ip := rfl
  unfold checkPinned
  rw [hguard]
  cases guardIpv6 ip with
  | error e => exact ⟨fun _ => rejects_error e, fun _ => rejects_error _⟩
  | ok u => exact Iff.rfl

/-- The formats, and for the compatible one the addresses, whose IPv6 form the guard recognises. -/
def Recognised (f : Transition) (v : Ipv4Addr) : Prop :=
  f = .mapped ∨ f = .compatible ∧ (v = ⟨0, 0, 0, 0⟩ ∨ v = ⟨0, 0, 0, 1⟩)

/-- **Re-encoding a blocked IPv4 address as IPv6.** The guard, and with it `validate_ip`, `check_addrs` and the
    pinning of `client_for`, rejects the IPv6 form exactly for the mapped format and for the compatible
    forms of `0.0.0.0` and `0.0.0.1`. -/
theorem guardIpv6_embedded_iff (f : Transition) (ip : Ipv6Addr) (v : Ipv4Addr)
    (hv : Rejects (guardIpv4 v)) (hip : f.Embeds ip v) :
    (Rejects (guardIpv6 ip) ↔ Recognised f v) ∧
    (Rejects (validateIp (.v6 ip) false) ↔ Recognised f v) ∧
    (∀ port domain, Rejects (checkAddrs [⟨.v6 ip, port⟩] domain) ↔ Recognised f v) ∧
    (∀ port domain, Rejects (checkPinned domain false [⟨.v6 ip, port⟩]) ↔ Recognised f v) := by
  have hguard : Rejects (guardIpv6 ip) ↔ Recognised f v := rejects_guardIpv6_embedded_iff hv hip
  refine ⟨hguard, ?_, ?_, ?_⟩
  · exact (rejects_validateIp_v6 ip).trans hguard
  · intro port domain
    exact (rejects_checkAddrs_v6 ip port domain).trans hguard
  · intro port domain
    exact (rejects_checkPinned_v6 ip port domain).trans hguard

/-- `::ffff:127.0.0.1`. -/
theorem guardIpv6_embedded_loopback :
    Rejects (guardIpv6 ⟨0, 0, 0, 0, 0, 0xFFFF, 0x7F00, 1⟩) :=
  (guardIpv6_embedded_iff .mapped ⟨0, 0, 0, 0, 0, 0xFFFF, 0x7F00, 1⟩ ⟨127, 0, 0, 1⟩
    (rejects_error _) rfl).1.mpr (.inl rfl)

/-- **The metadata address behind NAT64** (`64:ff9b::a9fe:a9fe`) gets past the guard. -/
theorem nat64_metadata_accepted :
    ¬ ∀ (f : Transition) (ip : Ipv6Addr) (v : Ipv4Addr),
      Rejects (guardIpv4 v) → f.Embeds ip v → Rejects (guardIpv6 ip) := by
  intro h
  exact not_rejects_ok (h .nat64 ⟨0x64, 0xFF9B, 0, 0, 0, 0, 0xA9FE, 0xA9FE⟩ ⟨169, 254, 169, 254⟩
    (rejects_error _) rfl)

end McpWebSearch
