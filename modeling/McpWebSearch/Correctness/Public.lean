import McpWebSearch.Correctness.Validation
import McpWebSearch.Lib.Cidr

/-!
# `Correctness.Public` — what the address guard takes for public

`validate_ip` documents that it returns `Ok` for public addresses. The address blocks below are taken from the special-purpose
registries: those the guard rejects (`guardedIpv4`, `guardedIpv6`) and those it lets pass (`overlookedIpv4`,
`overlookedIpv6`). Each test of the guard, on octets, segments or masked bits, is one block (`blockedIpv4_iff`,
`blockedIpv6_iff`), and `validateIp_public_iff` says for which addresses the documented contract holds.
-/

namespace McpWebSearch

open Utf8 Cidr

/-! ## Addresses as numbers -/

/-- Four octets as a number. -/
def quad (a b c d : Nat) : Nat := ((a * 256 + b) * 256 + c) * 256 + d

def Ipv4Addr.bits (ip : Ipv4Addr) : Nat := quad ip.a.toNat ip.b.toNat ip.c.toNat ip.d.toNat

/-- Segments as a number, most significant first. -/
def ofSegments (ss : List UInt16) : Nat := ss.foldl (fun n s => n * 65536 + s.toNat) 0

def Ipv6Addr.bits (ip : Ipv6Addr) : Nat := ofSegments ip.segments

/-- The block `a.b.c.d/len`. -/
def cidr4 (a b c d len : Nat) (aligned : quad a b c d % 2 ^ (32 - len) = 0 := by decide) : Block 32 :=
  ⟨quad a b c d, len, aligned⟩

/-- The block `s0:s1::/len`. -/
def cidr6 (s0 s1 len : Nat) (aligned : (s0 * 65536 + s1) * 2 ^ 96 % 2 ^ (128 - len) = 0 := by decide) : Block 128 :=
  ⟨(s0 * 65536 + s1) * 2 ^ 96, len, aligned⟩

/-- The block of one address. -/
def only6 (n : Nat) : Block 128 := ⟨n, 128, Nat.mod_one n⟩

/-! ## Blocks -/

/-- The IPv4 blocks that are not public, multicast and reserved ones included. -/
def nonPublicIpv4 : List (Block 32) :=
  [cidr4 0 0 0 0 8, cidr4 10 0 0 0 8, cidr4 100 64 0 0 10, cidr4 127 0 0 0 8, cidr4 169 254 0 0 16, cidr4 172 16 0 0 12,
    cidr4 192 0 0 0 24, cidr4 192 0 2 0 24, cidr4 192 168 0 0 16, cidr4 198 18 0 0 15, cidr4 198 51 100 0 24,
    cidr4 203 0 113 0 24, cidr4 224 0 0 0 4, cidr4 240 0 0 0 4]

/-- Those that `guard_ipv4` tests for, apart from the broadcast address. -/
def guardedIpv4 : List (Block 32) :=
  [cidr4 0 0 0 0 8, cidr4 10 0 0 0 8, cidr4 100 64 0 0 10, cidr4 127 0 0 0 8, cidr4 169 254 0 0 16, cidr4 172 16 0 0 12,
    cidr4 192 0 2 0 24, cidr4 192 168 0 0 16, cidr4 198 18 0 0 15, cidr4 198 51 100 0 24, cidr4 203 0 113 0 24]

/-- Those it does not: protocol assignments, multicast, reserved. -/
def overlookedIpv4 : List (Block 32) := [cidr4 192 0 0 0 24, cidr4 224 0 0 0 4, cidr4 240 0 0 0 4]

/-- The IPv6 blocks that are not public. -/
def nonPublicIpv6 : List (Block 128) :=
  [only6 0, only6 1, cidr6 0xFC00 0 7, cidr6 0xFE80 0 10, cidr6 0xFEC0 0 10, cidr6 0xFF00 0 8, cidr6 0x2001 0xDB8 32]

/-- Those that `guard_ipv6` tests for. -/
def guardedIpv6 : List (Block 128) := [only6 0, only6 1, cidr6 0xFC00 0 7, cidr6 0xFE80 0 10]

/-- Those it does not: site-local, multicast, documentation. -/
def overlookedIpv6 : List (Block 128) := [cidr6 0xFEC0 0 10, cidr6 0xFF00 0 8, cidr6 0x2001 0xDB8 32]

/-- A public unicast address. -/
def Public : IpAddr → Prop
  | .v4 ip => ¬ Within nonPublicIpv4 ip.bits
  | .v6 ip => ¬ Within nonPublicIpv6 ip.bits

/-- An address in a block that the guard misses. -/
def Overlooked : IpAddr → Prop
  | .v4 ip => Within overlookedIpv4 ip.bits ∧ ip ≠ ⟨255, 255, 255, 255⟩
  | .v6 ip => Within overlookedIpv6 ip.bits

/-! ## IPv4 -/

section Octets

variable {a b c d A B C len : Nat}

/-- A block of at most eight bits looks at the first octet. -/
theorem contains_one (hb : b < 256) (hc : c < 256) (hd : d < 256) (hlen : len ≤ 8)
    (hA : quad A 0 0 0 % 2 ^ (32 - len) = 0) :
    (cidr4 A 0 0 0 len hA).Contains (quad a b c d) ↔ a / 2 ^ (8 - len) = A / 2 ^ (8 - len) := by
  have hsplit : 2 ^ (32 - len) = 2 ^ 24 * 2 ^ (8 - len) := by rw [← Nat.pow_add]; congr 1; omega
  have haddr : quad a b c d / 2 ^ 24 = a := by unfold quad; omega
  have hbase : quad A 0 0 0 / 2 ^ 24 = A := by unfold quad; omega
  show quad a b c d / 2 ^ (32 - len) = quad A 0 0 0 / 2 ^ (32 - len) ↔ _
  rw [hsplit, ← Nat.div_div_eq_div_mul, ← Nat.div_div_eq_div_mul, haddr, hbase]

/-- A block of at most sixteen bits looks at the first two octets. -/
theorem contains_two (hc : c < 256) (hd : d < 256) (hlen : len ≤ 16) (hA : quad A B 0 0 % 2 ^ (32 - len) = 0) :
    (cidr4 A B 0 0 len hA).Contains (quad a b c d) ↔
      (a * 256 + b) / 2 ^ (16 - len) = (A * 256 + B) / 2 ^ (16 - len) := by
  have hsplit : 2 ^ (32 - len) = 2 ^ 16 * 2 ^ (16 - len) := by rw [← Nat.pow_add]; congr 1; omega
  have haddr : quad a b c d / 2 ^ 16 = a * 256 + b := by unfold quad; omega
  have hbase : quad A B 0 0 / 2 ^ 16 = A * 256 + B := by unfold quad; omega
  show quad a b c d / 2 ^ (32 - len) = quad A B 0 0 / 2 ^ (32 - len) ↔ _
  rw [hsplit, ← Nat.div_div_eq_div_mul, ← Nat.div_div_eq_div_mul, haddr, hbase]

/-- A block of twenty-four bits looks at the first three octets. -/
theorem contains_three (hb : b < 256) (hc : c < 256) (hd : d < 256) (hB : B < 256) (hC : C < 256)
    (hA : quad A B C 0 % 2 ^ (32 - 24) = 0) :
    (cidr4 A B C 0 24 hA).Contains (quad a b c d) ↔ a = A ∧ b = B ∧ c = C := by
  have haddr : quad a b c d / 2 ^ 8 = (a * 256 + b) * 256 + c := by unfold quad; omega
  have hbase : quad A B C 0 / 2 ^ 8 = (A * 256 + B) * 256 + C := by unfold quad; omega
  show quad a b c d / 2 ^ 8 = quad A B C 0 / 2 ^ 8 ↔ _
  rw [haddr, hbase]
  omega

end Octets

/-- The octet blocks, as conditions on the octets. -/
theorem within_guardedIpv4_iff {a b c d : Nat} (hb : b < 256) (hc : c < 256) (hd : d < 256) :
    Within guardedIpv4 (quad a b c d) ↔
      a = 0 ∨ a = 10 ∨ a = 100 ∧ b / 64 = 1 ∨ a = 127 ∨ a = 169 ∧ b = 254 ∨ a = 172 ∧ b / 16 = 1 ∨
        a = 192 ∧ b = 0 ∧ c = 2 ∨ a = 192 ∧ b = 168 ∨ a = 198 ∧ b / 2 = 9 ∨ a = 198 ∧ b = 51 ∧ c = 100 ∨
        a = 203 ∧ b = 0 ∧ c = 113 := by
  have hcgnat : (a * 256 + b) / 2 ^ 6 = (100 * 256 + 64) / 2 ^ 6 ↔ a = 100 ∧ b / 64 = 1 := by omega
  have hlocal : (a * 256 + b) / 2 ^ 0 = (169 * 256 + 254) / 2 ^ 0 ↔ a = 169 ∧ b = 254 := by omega
  have hprivate12 : (a * 256 + b) / 2 ^ 4 = (172 * 256 + 16) / 2 ^ 4 ↔ a = 172 ∧ b / 16 = 1 := by omega
  have hprivate16 : (a * 256 + b) / 2 ^ 0 = (192 * 256 + 168) / 2 ^ 0 ↔ a = 192 ∧ b = 168 := by omega
  have hbench : (a * 256 + b) / 2 ^ 1 = (198 * 256 + 18) / 2 ^ 1 ↔ a = 198 ∧ b / 2 = 9 := by omega
  have hfirst (A : Nat) : a / 2 ^ (8 - 8) = A / 2 ^ (8 - 8) ↔ a = A := by omega
  simp only [guardedIpv4, within_cons, within_nil, or_false]
  rw [contains_one hb hc hd (by decide), contains_one hb hc hd (by decide), contains_two hc hd (by decide),
    contains_one hb hc hd (by decide), contains_two hc hd (by decide), contains_two hc hd (by decide),
    contains_three hb hc hd (by decide) (by decide), contains_two hc hd (by decide), contains_two hc hd (by decide),
    contains_three hb hc hd (by decide) (by decide), contains_three hb hc hd (by decide) (by decide),
    hfirst, hfirst, hfirst, hcgnat, hlocal, hprivate12, hprivate16, hbench]

theorem and_leading8 {x m : UInt8} {k : Nat} (hk : k ≤ 8) (hm : m.toNat = 2 ^ k * (2 ^ (8 - k) - 1)) :
    (x &&& m).toNat = 2 ^ k * (x.toNat / 2 ^ k) := by
  rw [UInt8.toNat_and, hm]
  exact land_leading x.toNat_lt hk

/-- **The tests of `guard_ipv4`, as blocks.** -/
theorem blockedIpv4_iff (ip : Ipv4Addr) :
    blockedIpv4 ip = true ↔ Within guardedIpv4 ip.bits ∨ ip = ⟨255, 255, 255, 255⟩ := by
  obtain ⟨a, b, c, d⟩ := ip
  have hcgnat : (b &&& 0xC0).toNat = 0x40 ↔ b.toNat / 64 = 1 := by
    rw [and_leading8 (k := 6) (by decide) rfl]
    omega
  have hprivate : 16 ≤ b.toNat ∧ b.toNat ≤ 31 ↔ b.toNat / 16 = 1 := by omega
  have hbench : (b &&& 0xFE).toNat = 0x12 ↔ b.toNat / 2 = 9 := by
    rw [and_leading8 (k := 1) (by decide) rfl]
    omega
  rw [Ipv4Addr.bits, within_guardedIpv4_iff b.toNat_lt c.toNat_lt d.toNat_lt]
  simp only [blockedIpv4, Ipv4Addr.isLoopback, Ipv4Addr.isPrivate, Ipv4Addr.isLinkLocal, Ipv4Addr.isBroadcast,
    Ipv4Addr.isDocumentation, Ipv4Addr.isUnspecified, Bool.or_eq_true, Bool.and_eq_true, beq_iff_eq, decide_eq_true_eq,
    Ipv4Addr.mk.injEq, ← UInt8.toNat_inj, UInt8.le_iff_toNat_le]
  simp only [UInt8.reduceToNat, and_assoc, or_assoc, hcgnat, hprivate, hbench]
  constructor
  · rintro (h | h | h | h | h | h | h | h | h | h | h | h | h | h | h) <;> simp [h]
  · rintro (h | h | h | h | h | h | h | h | h | h | h | h) <;> simp [h]

theorem guardIpv4_eq_ok_iff (ip : Ipv4Addr) :
    guardIpv4 ip = .ok () ↔ ¬ (Within guardedIpv4 ip.bits ∨ ip = ⟨255, 255, 255, 255⟩) := by
  rw [← blockedIpv4_iff, guardIpv4]
  split
  · rename_i h
    exact iff_of_false (fun hok => nomatch hok) (not_not_intro h)
  · rename_i h
    exact iff_of_true rfl h

theorem within_nonPublicIpv4 (n : Nat) : Within nonPublicIpv4 n ↔ Within guardedIpv4 n ∨ Within overlookedIpv4 n := by
  simp only [nonPublicIpv4, guardedIpv4, overlookedIpv4, within_cons, within_nil, or_false]
  exact Iff.of_eq (by ac_rfl)

/-- No guarded address is overlooked. -/
theorem not_guardedIpv4 {ip : Ipv4Addr} (h : Within overlookedIpv4 ip.bits) : ¬ Within guardedIpv4 ip.bits := by
  have hb := ip.b.toNat_lt
  have hc := ip.c.toNat_lt
  have hd := ip.d.toNat_lt
  rw [Ipv4Addr.bits] at h ⊢
  simp only [overlookedIpv4, within_cons, within_nil, or_false] at h
  rw [contains_three hb hc hd (by decide) (by decide), contains_one hb hc hd (by decide),
    contains_one hb hc hd (by decide)] at h
  rw [within_guardedIpv4_iff hb hc hd]
  omega

/-! ## IPv6 -/

section Segments

variable {ip : Ipv6Addr} {s0 s1 len : Nat}

theorem bits_div_112 (ip : Ipv6Addr) : ip.bits / 2 ^ 112 = ip.s0.toNat := by
  have h1 := ip.s1.toNat_lt
  have h2 := ip.s2.toNat_lt
  have h3 := ip.s3.toNat_lt
  have h4 := ip.s4.toNat_lt
  have h5 := ip.s5.toNat_lt
  have h6 := ip.s6.toNat_lt
  have h7 := ip.s7.toNat_lt
  simp only [Ipv6Addr.bits, ofSegments, Ipv6Addr.segments, List.foldl_cons, List.foldl_nil]
  omega

/-- A block of at most sixteen bits looks at the first segment. -/
theorem contains_segment (hlen : len ≤ 16) (hs : (s0 * 65536 + 0) * 2 ^ 96 % 2 ^ (128 - len) = 0) :
    (cidr6 s0 0 len hs).Contains ip.bits ↔ ip.s0.toNat / 2 ^ (16 - len) = s0 / 2 ^ (16 - len) := by
  have hsplit : 2 ^ (128 - len) = 2 ^ 112 * 2 ^ (16 - len) := by rw [← Nat.pow_add]; congr 1; omega
  have hbase : (s0 * 65536 + 0) * 2 ^ 96 / 2 ^ 112 = s0 := by omega
  show ip.bits / 2 ^ (128 - len) = (s0 * 65536 + 0) * 2 ^ 96 / 2 ^ (128 - len) ↔ _
  rw [hsplit, ← Nat.div_div_eq_div_mul, ← Nat.div_div_eq_div_mul, bits_div_112, hbase]

end Segments

theorem contains_only6 (n addr : Nat) : (only6 n).Contains addr ↔ addr = n := by
  show addr / 2 ^ 0 = n / 2 ^ 0 ↔ _
  rw [Nat.pow_zero, Nat.div_one, Nat.div_one]

/-- Eight segments of which the last alone may be other than zero. -/
theorem bits_eq_iff (ip : Ipv6Addr) (n : UInt16) : ip.bits = n.toNat ↔ ip = ⟨0, 0, 0, 0, 0, 0, 0, n⟩ := by
  obtain ⟨s0, s1, s2, s3, s4, s5, s6, s7⟩ := ip
  have h7 := s7.toNat_lt
  have hn := n.toNat_lt
  simp only [Ipv6Addr.bits, ofSegments, Ipv6Addr.segments, List.foldl_cons, List.foldl_nil, Ipv6Addr.mk.injEq,
    ← UInt16.toNat_inj]
  simp only [UInt16.reduceToNat]
  omega

theorem and_leading16 {x m : UInt16} {k : Nat} (hk : k ≤ 16) (hm : m.toNat = 2 ^ k * (2 ^ (16 - k) - 1)) :
    (x &&& m).toNat = 2 ^ k * (x.toNat / 2 ^ k) := by
  rw [UInt16.toNat_and, hm]
  exact land_leading x.toNat_lt hk

/-- **The tests of `guard_ipv6`, as blocks.** -/
theorem blockedIpv6_iff (ip : Ipv6Addr) : blockedIpv6 ip = true ↔ Within guardedIpv6 ip.bits := by
  have hula : (ip.s0 &&& 0xFE00).toNat = 0xFC00 ↔ ip.s0.toNat / 2 ^ 9 = 0xFC00 / 2 ^ 9 := by
    rw [and_leading16 (k := 9) (by decide) rfl]
    omega
  have hlink : (ip.s0 &&& 0xFFC0).toNat = 0xFE80 ↔ ip.s0.toNat / 2 ^ 6 = 0xFE80 / 2 ^ 6 := by
    rw [and_leading16 (k := 6) (by decide) rfl]
    omega
  have hzero : ip.bits = 0 ↔ ip = ⟨0, 0, 0, 0, 0, 0, 0, 0⟩ := bits_eq_iff ip 0
  have hone : ip.bits = 1 ↔ ip = ⟨0, 0, 0, 0, 0, 0, 0, 1⟩ := bits_eq_iff ip 1
  simp only [guardedIpv6, within_cons, within_nil, or_false, contains_only6]
  rw [contains_segment (by decide), contains_segment (by decide), ← hula, ← hlink, hzero, hone]
  simp only [blockedIpv6, Ipv6Addr.isLoopback, Ipv6Addr.isUnspecified, Bool.or_eq_true, beq_iff_eq, ← UInt16.toNat_inj]
  simp only [UInt16.reduceToNat]
  tauto

theorem within_nonPublicIpv6 (n : Nat) : Within nonPublicIpv6 n ↔ Within guardedIpv6 n ∨ Within overlookedIpv6 n := by
  rw [← within_append]
  rfl

/-- The first segment of an overlooked address. -/
theorem segment_of_overlookedIpv6 {ip : Ipv6Addr} (h : Within overlookedIpv6 ip.bits) :
    ip.s0.toNat = 0x2001 ∨ ip.s0.toNat / 2 ^ 6 = 0xFEC0 / 2 ^ 6 ∨ ip.s0.toNat / 2 ^ 8 = 0xFF00 / 2 ^ 8 := by
  simp only [overlookedIpv6, within_cons, within_nil, or_false] at h
  rw [contains_segment (by decide), contains_segment (by decide)] at h
  rcases h with h | h | h
  · exact .inr (.inl h)
  · exact .inr (.inr h)
  · have htwo : ip.bits / 2 ^ 96 = (0x2001 * 65536 + 0xDB8) * 2 ^ 96 / 2 ^ 96 := h
    have hone : ip.bits / 2 ^ 96 / 2 ^ 16 = ip.s0.toNat := by
      rw [Nat.div_div_eq_div_mul, ← Nat.pow_add, ← bits_div_112]
    exact .inl (by omega)

/-- An overlooked address gets past the guard. -/
theorem not_rejects_of_overlookedIpv6 {ip : Ipv6Addr} (h : Within overlookedIpv6 ip.bits) : ¬ Rejects (guardIpv6 ip) := by
  have hsegment := segment_of_overlookedIpv6 h
  apply not_rejects_guardIpv6
  · intro h0
    rw [h0] at hsegment
    exact absurd hsegment (by decide)
  · intro hula
    have hbits : (ip.s0 &&& 0xFE00).toNat = 2 ^ 9 * (ip.s0.toNat / 2 ^ 9) := and_leading16 (by decide) rfl
    rw [hula] at hbits
    have hvalue : (0xFC00 : UInt16).toNat = 0xFC00 := rfl
    omega
  · intro hlink
    have hbits : (ip.s0 &&& 0xFFC0).toNat = 2 ^ 6 * (ip.s0.toNat / 2 ^ 6) := and_leading16 (by decide) rfl
    rw [hlink] at hbits
    have hvalue : (0xFE80 : UInt16).toNat = 0xFE80 := rfl
    omega

theorem eq_ok_of_not_rejects {r : Result Unit} (h : ¬ Rejects r) : r = .ok () := by
  cases r with
  | error e => exact absurd (rejects_error e) h
  | ok u => rfl

/-- A guarded address is rejected, whether or not it is mapped. -/
theorem not_guardedIpv6_of_ok {ip : Ipv6Addr} (h : guardIpv6 ip = .ok ()) : ¬ Within guardedIpv6 ip.bits := by
  intro hguarded
  have hrejects : Rejects (guardIpv6 ip) := (rejects_guardIpv6_iff ip).mpr (.inl ((blockedIpv6_iff ip).mpr hguarded))
  rw [h] at hrejects
  exact not_rejects_ok hrejects

/-! ## The contract -/

/-- **What `validate_ip` accepts is public, exactly for the addresses that are not overlooked.** -/
theorem validateIp_public_iff (ip : IpAddr) : (validateIp ip false = .ok () → Public ip) ↔ ¬ Overlooked ip := by
  cases ip with
  | v4 ip =>
      show (guardIpv4 ip = .ok () → ¬ Within nonPublicIpv4 ip.bits) ↔ _
      rw [guardIpv4_eq_ok_iff, within_nonPublicIpv4]
      constructor
      · rintro hpublic ⟨hover, hbroadcast⟩
        have haccepted : ¬ (Within guardedIpv4 ip.bits ∨ ip = ⟨255, 255, 255, 255⟩) :=
          not_or.mpr ⟨not_guardedIpv4 hover, hbroadcast⟩
        exact hpublic haccepted (.inr hover)
      · intro hover haccepted hnonpublic
        rw [not_or] at haccepted
        rcases hnonpublic with hguarded | hoverlooked
        · exact haccepted.1 hguarded
        · exact hover ⟨hoverlooked, haccepted.2⟩
  | v6 ip =>
      show (guardIpv6 ip = .ok () → ¬ Within nonPublicIpv6 ip.bits) ↔ ¬ Within overlookedIpv6 ip.bits
      rw [within_nonPublicIpv6]
      constructor
      · intro hpublic hover
        exact hpublic (eq_ok_of_not_rejects (not_rejects_of_overlookedIpv6 hover)) (.inr hover)
      · rintro hover haccepted (hguarded | hoverlooked)
        · exact not_guardedIpv6_of_ok haccepted hguarded
        · exact hover hoverlooked

/-- **The all-hosts multicast group** (`224.0.0.1`) is accepted. -/
theorem multicast_accepted :
    ¬ ∀ ip, validateIp ip false = .ok () → Public ip := by
  intro h
  exact h (.v4 ⟨224, 0, 0, 1⟩) rfl (by decide)

end McpWebSearch
