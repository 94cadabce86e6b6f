import McpWebSearch.Protocol

/-!
# `Validation` — the SSRF guard on addresses and URLs (`src/validation.rs`)

The pure part of URL validation: the IPv4 and IPv6 guards, the check of a resolved address list, and the
scheme and host check. What needs a DNS lookup (`validate_url`) is in `Client`, with the network it runs on.

An address is its octets or its segments, most significant first, with the classification of
`std::net`. A URL is what the code reads of a parsed `url::Url`; parsing itself is the `url` crate's.
-/

namespace McpWebSearch

open Utf8

/-! ## Addresses (`std::net`) -/

structure Ipv4Addr where
  a : UInt8
  b : UInt8
  c : UInt8
  d : UInt8
  deriving DecidableEq

namespace Ipv4Addr

variable (ip : Ipv4Addr)

def isLoopback : Bool := ip.a == 127

def isPrivate : Bool :=
  ip.a == 10 || (ip.a == 172 && 16 ≤ ip.b && ip.b ≤ 31) || (ip.a == 192 && ip.b == 168)

def isLinkLocal : Bool := ip.a == 169 && ip.b == 254

def isBroadcast : Bool := ip == ⟨255, 255, 255, 255⟩

def isDocumentation : Bool :=
  (ip.a == 192 && ip.b == 0 && ip.c == 2) || (ip.a == 198 && ip.b == 51 && ip.c == 100) ||
    (ip.a == 203 && ip.b == 0 && ip.c == 113)

def isUnspecified : Bool := ip == ⟨0, 0, 0, 0⟩

/-- `Display`: dotted decimal. -/
def display : Text :=
  decimal ip.a.toNat ++ "." ++ decimal ip.b.toNat ++ "." ++ decimal ip.c.toNat ++ "." ++
    decimal ip.d.toNat

end Ipv4Addr

structure Ipv6Addr where
  s0 : UInt16
  s1 : UInt16
  s2 : UInt16
  s3 : UInt16
  s4 : UInt16
  s5 : UInt16
  s6 : UInt16
  s7 : UInt16
  deriving DecidableEq

/-- The two octets of a segment, big-endian. -/
def octets (s : UInt16) : UInt8 × UInt8 := (UInt8.ofNat (s.toNat / 256), UInt8.ofNat (s.toNat % 256))

/-- The segment made of two octets, big-endian. -/
def segment (hi lo : UInt8) : UInt16 := UInt16.ofNat (256 * hi.toNat + lo.toNat)

/-- The IPv4 address in two segments. -/
def Ipv4Addr.ofSegments (hi lo : UInt16) : Ipv4Addr :=
  ⟨(octets hi).1, (octets hi).2, (octets lo).1, (octets lo).2⟩

namespace Ipv6Addr

variable (ip : Ipv6Addr)

def segments : List UInt16 := [ip.s0, ip.s1, ip.s2, ip.s3, ip.s4, ip.s5, ip.s6, ip.s7]

def isLoopback : Bool := ip == ⟨0, 0, 0, 0, 0, 0, 0, 1⟩

def isUnspecified : Bool := ip == ⟨0, 0, 0, 0, 0, 0, 0, 0⟩

/-- `to_ipv4_mapped`: the address in `::ffff:0:0/96`, if the prefix is that. -/
def toIpv4Mapped : Option Ipv4Addr :=
  if ip.segments.take 6 = [0, 0, 0, 0, 0, 0xFFFF] then some (Ipv4Addr.ofSegments ip.s6 ip.s7) else none

/-- The longest run of zero segments as start and length, the first of several. -/
def longestZeroRun : List UInt16 → Nat → Nat × Nat → Nat × Nat → Nat × Nat
  | [], _, _, best => best
  | s :: ss, i, current, best =>
      if s = 0 then
        let current := if current.2 = 0 then (i, 1) else (current.1, current.2 + 1)
        longestZeroRun ss (i + 1) current (if current.2 > best.2 then current else best)
      else longestZeroRun ss (i + 1) (0, 0) best

def displaySegments (ss : List UInt16) : Text := join ":" (ss.map (fun s => Nat.toDigits 16 s.toNat))

/-- `Display`: mapped addresses with a dotted tail, others with the longest zero run (of two or more)
    compressed. -/
def display : Text :=
  match ip.toIpv4Mapped with
  | some v4 => "::ffff:" ++ v4.display
  | none =>
      let (start, len) := longestZeroRun ip.segments 0 (0, 0) (0, 0)
      if len > 1 then
        displaySegments (ip.segments.take start) ++ "::" ++ displaySegments (ip.segments.drop (start + len))
      else displaySegments ip.segments

end Ipv6Addr

inductive IpAddr
  | v4 (ip : Ipv4Addr)
  | v6 (ip : Ipv6Addr)
  deriving DecidableEq

structure SocketAddr where
  ip : IpAddr
  port : UInt16
  deriving DecidableEq

/-! ## URLs (`url`) -/

/-- `url::Host`. -/
inductive Host
  | domain (d : Text)
  | ipv4 (ip : Ipv4Addr)
  | ipv6 (ip : Ipv6Addr)
  deriving DecidableEq

/-- A parsed URL, as far as the code reads it. -/
structure Url where
  asStr : Text
  scheme : Text
  host : Option Host
  portOrKnownDefault : Option UInt16
  deriving DecidableEq

/-- `Url::parse` and `Url::join`; an error is its text. -/
structure UrlParser where
  parse : Text → Except Text Url
  join : Url → Text → Except Text Url

/-! ## The guard -/

/-- The error of a blocked address. -/
def blockedAddress (ip : Text) : WebSearchError :=
  .urlNotAllowed ("address " ++ ip ++
    " is in a blocked (private/internal) range; pass --allow-private-hosts to override")

/-- The ranges `guard_ipv4` blocks. -/
def blockedIpv4 (ip : Ipv4Addr) : Bool :=
  ip.isLoopback || ip.isPrivate || ip.isLinkLocal || ip.isBroadcast || ip.isDocumentation ||
    ip.isUnspecified || ip.a == 0
    -- carrier-grade NAT 100.64.0.0/10
    || (ip.a == 100 && (ip.b &&& 0xC0) == 0x40)
    -- benchmarking 198.18.0.0/15
    || (ip.a == 198 && (ip.b &&& 0xFE) == 0x12)
    -- TEST-NET 198.51.100.0/24, 203.0.113.0/24
    || (ip.a == 198 && ip.b == 51 && ip.c == 100) || (ip.a == 203 && ip.b == 0 && ip.c == 113)

def guardIpv4 (ip : Ipv4Addr) : Result Unit :=
  if blockedIpv4 ip then .error (blockedAddress ip.display) else .ok ()

/-- The ranges `guard_ipv6` blocks before it looks for an embedded address. -/
def blockedIpv6 (ip : Ipv6Addr) : Bool :=
  let isUla := (ip.s0 &&& 0xFE00) == 0xFC00
  let isLinkLocal := (ip.s0 &&& 0xFFC0) == 0xFE80
  ip.isLoopback || ip.isUnspecified || isUla || isLinkLocal

def guardIpv6 (ip : Ipv6Addr) : Result Unit :=
  if blockedIpv6 ip then .error (blockedAddress ip.display)
  else
    -- of the formats that embed an IPv4 address only this one is looked into
    match ip.toIpv4Mapped with
    | some v4 => guardIpv4 v4
    | none => .ok ()

def validateIp (ip : IpAddr) (allowPrivate : Bool) : Result Unit :=
  if allowPrivate then .ok ()
  else
    match ip with
    | .v4 v4 => guardIpv4 v4
    | .v6 v6 => guardIpv6 v6

/-- The error of a domain with a blocked address; it names the domain only. -/
def nonPublicDomain (domain : Text) : WebSearchError :=
  .urlNotAllowed ("host '" ++ domain ++ "' resolves to a non-public address")

/-- The loop of `check_addrs`, with its `saw_any` flag. -/
def checkAddrsLoop (domain : Text) : Bool → List SocketAddr → Result Unit
  | sawAny, [] =>
      if !sawAny then .error (.urlNotAllowed ("host '" ++ domain ++ "' resolved to no addresses"))
      else .ok ()
  | _, addr :: addrs =>
      let guarded := match addr.ip with
        | .v4 ip => guardIpv4 ip
        | .v6 ip => guardIpv6 ip
      match guarded with
      -- the guard's own error names the address and is dropped
      | .error _ => .error (nonPublicDomain domain)
      | .ok () => checkAddrsLoop domain true addrs

def checkAddrs (addrs : List SocketAddr) (domain : Text) : Result Unit :=
  checkAddrsLoop domain false addrs

/-- `parse_and_check_scheme_host`. -/
def parseAndCheckSchemeHost (urls : UrlParser) (raw : Text) : Result Url :=
  match urls.parse raw with
  | .error e => .error (.urlNotAllowed ("invalid URL '" ++ raw ++ "': " ++ e))
  | .ok url =>
      if url.scheme = "http" ∨ url.scheme = "https" then
        match url.host with
        | none => .error (.urlNotAllowed ("URL '" ++ raw ++ "' has no host"))
        | some _ => .ok url
      else
        .error (.urlNotAllowed
          ("scheme '" ++ url.scheme ++ "' is not allowed (only http/https)"))

end McpWebSearch
