import McpWebSearch.Lib.Text
import McpWebSearch.Lib.Simd

/-!
# `Actions.Scrape.Collapse` — white-space collapsing (`src/actions/scrape.rs`)

`collapse_whitespace` in its `x86_64` form: sixteen-byte chunks, a move mask for the white space of an all-ASCII
chunk, a bit walk over that mask, and the byte loop `scalar_ws` for every other chunk and for the tail. What the
program can fail by is explicit: indexing, slicing, and the shift of the mask, which is checked in a debug build and
takes its amount modulo the width in a release build. On `aarch64` a chunk with white space goes to the byte loop, and
the targets without SIMD have the byte loop alone.
-/

namespace McpWebSearch
namespace Scrape

open Utf8 Simd

/-- The build profile: whether arithmetic is checked for overflow. -/
inductive Profile
  | debug
  | release
  deriving DecidableEq

/-- How a run goes wrong. `outOfFuel` is the model's own bound on loops; no run meets it. -/
inductive Panic
  | index
  | slice
  | shiftOverflow
  | addOverflow
  | subOverflow
  | outOfFuel
  deriving DecidableEq

/-- `out` and `prev_was_space`. -/
structure Collapsed where
  out : Text
  prevWasSpace : Bool
  deriving DecidableEq

namespace Collapsed

def empty : Collapsed := ⟨[], false⟩

/-- One space for a run of white space. -/
def space (o : Collapsed) : Collapsed := if o.prevWasSpace then o else ⟨o.out ++ [' '], true⟩

def push (o : Collapsed) (t : Text) : Collapsed := ⟨o.out ++ t, false⟩

end Collapsed

/-- `u8::is_ascii_whitespace`. -/
def isAsciiWhitespaceByte (b : UInt8) : Bool := b == 0x20 || b == 0x09 || b == 0x0A || b == 0x0C || b == 0x0D

/-- `utf8_seq_len`. -/
def utf8SeqLen (b : UInt8) : Nat :=
  if b ≤ 0x7F then 1
  else if 0xC0 ≤ b ∧ b ≤ 0xDF then 2
  else if 0xE0 ≤ b ∧ b ≤ 0xEF then 3
  else if 0xF0 ≤ b ∧ b ≤ 0xF7 then 4
  else 1

/-- `out.push_str(&s[i..j])`. -/
def pushSlice (s : Text) (i j : Nat) (o : Collapsed) : Except Panic Collapsed :=
  match slice s i j with
  | some t => .ok (o.push t)
  | none => .error .slice

/-- `scalar_ws` from `i` up to `fin`. -/
def scalarWs (bytes : List UInt8) (s : Text) (fin : Nat) : Nat → Nat → Collapsed → Except Panic (Nat × Collapsed)
  | 0, i, o => if i < fin then .error .outOfFuel else .ok (i, o)
  | fuel + 1, i, o =>
      if i < fin then
        match bytes[i]? with
        | none => .error .index
        | some b =>
            if isAsciiWhitespaceByte b then scalarWs bytes s fin fuel (i + 1) o.space
            else if b < 0x80 then scalarWs bytes s fin fuel (i + 1) (o.push [Char.ofNat b.toNat])
            else
              -- may pass `fin`: a character is never cut by the end of its chunk
              let seqEnd := min (i + utf8SeqLen b) bytes.length
              match pushSlice s i seqEnd o with
              | .error e => .error e
              | .ok o => scalarWs bytes s fin fuel seqEnd o
      else .ok (i, o)

/-- The lanes of a chunk that hold ASCII white space, by the range check. -/
def wsLanes (chunk : M128) : M128 :=
  let ones := set1Epi8 0xff
  let sign := set1Epi8 0x80
  let eqSpace := cmpeqEpi8 chunk (set1Epi8 0x20)
  let sub9 := addEpi8 chunk (set1Epi8 (-9))
  let biased := xorSi128 sub9 sign
  let gt4 := cmpgtEpi8 biased (set1Epi8 0x84)
  let inRange := xorSi128 gt4 ones
  -- the range 0x09..0x0D holds the vertical tab, which is no ASCII white space
  let eqVt := cmpeqEpi8 chunk (set1Epi8 0x0B)
  let wsRaw := orSi128 eqSpace inRange
  andnotSi128 eqVt wsRaw

/-- `bits >>= k` on a `u16`. -/
def shrAssign (profile : Profile) (bits : BitVec 16) (k : Nat) : Except Panic (BitVec 16) :=
  match profile with
  | .debug => if k < 16 then .ok (bits >>> k) else .error .shiftOverflow
  | .release => .ok (bits >>> (k % 16))

/-- Copy the `trailingWs` bytes before the next white space, if there are any. -/
def copyRun (s : Text) (i trailingWs : Nat) (o : Collapsed) : Except Panic Collapsed :=
  if 0 < trailingWs then pushSlice s i (i + trailingWs) o else .ok o

/-- The walk over a non-zero white-space mask. -/
def walkMask (profile : Profile) (s : Text) : Nat → Nat → BitVec 16 → Collapsed → Except Panic (Nat × Collapsed)
  | 0, _, _, _ => .error .outOfFuel
  | fuel + 1, i, bits, o => do
      let trailingWs := bits.ctz.toNat
      let o ← copyRun s i trailingWs o
      -- by the whole width if only the highest bit is set
      let bits ← shrAssign profile bits (trailingWs + 1)
      if bits = 0 then pure (i + trailingWs + 1, o.space)
      else walkMask profile s fuel (i + trailingWs + 1) bits o.space

/-- An all-ASCII chunk at `i` with the white-space mask `wsMask`. -/
def asciiChunk (profile : Profile) (s : Text) (i : Nat) (wsMask : BitVec 16) (o : Collapsed) :
    Except Panic (Nat × Collapsed) :=
  if wsMask = 0 then do
    let o ← pushSlice s i (i + 16) o
    pure (i + 16, o)
  else do
    let (j, o) ← walkMask profile s (byteLen s + 1) i wsMask o
    -- what follows the last white space of the chunk
    if 0 < i + 16 - j then
      let o ← pushSlice s j (i + 16) o
      pure (i + 16, o)
    else pure (j, o)

/-- One round of the chunk loop. -/
def chunkStep (profile : Profile) (bytes : List UInt8) (s : Text) (i : Nat) (o : Collapsed) :
    Except Panic (Nat × Collapsed) :=
  let chunk := loaduSi128 bytes i
  if movemaskEpi8 chunk ≠ 0 then scalarWs bytes s (i + 16) 16 i o
  else asciiChunk profile s i ((movemaskEpi8 (wsLanes chunk)).setWidth 16) o

/-- The chunk loop: while sixteen bytes are left. -/
def chunkLoop (profile : Profile) (bytes : List UInt8) (s : Text) :
    Nat → Nat → Collapsed → Except Panic (Nat × Collapsed)
  | 0, i, o => if i + 16 ≤ bytes.length then .error .outOfFuel else .ok (i, o)
  | fuel + 1, i, o =>
      if i + 16 ≤ bytes.length then do
        let (i, o) ← chunkStep profile bytes s i o
        chunkLoop profile bytes s fuel i o
      else .ok (i, o)

/-- `collapse_whitespace` on `x86_64`. -/
def collapseWhitespace (profile : Profile) (s : Text) : Except Panic Text := do
  let bytes := Utf8.bytes s
  let len := bytes.length
  if len < 16 then
    let (_, o) ← scalarWs bytes s len len 0 Collapsed.empty
    pure o.out
  else
    let (i, o) ← chunkLoop profile bytes s (len + 1) 0 Collapsed.empty
    let (_, o) ← scalarWs bytes s len len i o
    pure o.out

/-! ## The other targets -/

/-- The lanes of a chunk that hold ASCII white space, by the range check of NEON. -/
def wsLanesNeon (chunk : Uint8x16) : Uint8x16 :=
  let eqSpace := vceqqU8 chunk (vdupqNU8 0x20)
  let sub9 := vsubqU8 chunk (vdupqNU8 9)
  let le4 := vcleqU8 sub9 (vdupqNU8 4)
  let eqVt := vceqqU8 chunk (vdupqNU8 0x0B)
  let wsRaw := vorrqU8 eqSpace le4
  vbicqU8 wsRaw eqVt

/-- One round of the NEON loop: a chunk with neither white space nor other than ASCII is copied whole. -/
def neonStep (bytes : List UInt8) (s : Text) (i : Nat) (o : Collapsed) : Except Panic (Nat × Collapsed) :=
  match vld1qU8 bytes i with
  | none => .error .index
  | some chunk =>
      if 0x80 ≤ vmaxvqU8 chunk then scalarWs bytes s (i + 16) 16 i o
      else if vmaxvqU8 (wsLanesNeon chunk) = 0 then do
        let o ← pushSlice s i (i + 16) o
        pure (i + 16, o)
      else scalarWs bytes s (i + 16) 16 i o

/-- The NEON loop: while sixteen bytes are left. -/
def neonLoop (bytes : List UInt8) (s : Text) : Nat → Nat → Collapsed → Except Panic (Nat × Collapsed)
  | 0, i, o => if i + 16 ≤ bytes.length then .error .outOfFuel else .ok (i, o)
  | fuel + 1, i, o =>
      if i + 16 ≤ bytes.length then do
        let (i, o) ← neonStep bytes s i o
        neonLoop bytes s fuel i o
      else .ok (i, o)

/-- `collapse_whitespace` on `aarch64`. -/
def collapseWhitespaceNeon (s : Text) : Except Panic Text := do
  let bytes := Utf8.bytes s
  let len := bytes.length
  if len < 16 then
    let (_, o) ← scalarWs bytes s len len 0 Collapsed.empty
    pure o.out
  else
    let (i, o) ← neonLoop bytes s (len + 1) 0 Collapsed.empty
    let (_, o) ← scalarWs bytes s len len i o
    pure o.out

/-- `collapse_whitespace` on every other target; its loop is the one of `scalar_ws`, over the whole string. -/
def collapseWhitespaceGeneric (s : Text) : Except Panic Text := do
  let bytes := Utf8.bytes s
  let len := bytes.length
  let (_, o) ← scalarWs bytes s len len 0 Collapsed.empty
  pure o.out

/-- What the code is compiled for. -/
inductive Target
  | x86_64 (profile : Profile)
  | aarch64
  | other

/-- The `collapse_whitespace` of a target. -/
def Target.collapse : Target → Text → Except Panic Text
  | .x86_64 profile => collapseWhitespace profile
  | .aarch64 => collapseWhitespaceNeon
  | .other => collapseWhitespaceGeneric

/-! ## What it is meant to compute -/

/-- `reference_collapse` on one character. -/
def referenceStep (o : Collapsed) (c : Char) : Collapsed :=
  if isAsciiWhitespace c then o.space else o.push [c]

/-- `reference_collapse`, the plain definition of the repository's tests. -/
def referenceCollapse (s : Text) : Text := (s.foldl referenceStep Collapsed.empty).out

example : collapseWhitespace .debug "a \t b" = .ok "a b".toList := by decide
example : referenceCollapse ("a \u000b\n b" : Text) = "a \u000b b".toList := by decide

end Scrape
end McpWebSearch
