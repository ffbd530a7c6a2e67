import SimpleSatOps.Proto.Golay24
import SimpleSatOps.Proto.Rs

/-!
# The AX100 framer (`ax100.c`)

`frame` wraps a packet as preamble, sync word, Golay length and scrambled block (packet, HMAC trailer, Reed-Solomon
parity); `unframe` takes the bytes from the sync word on.

* `Opts` : `ax100_opts_t`;
* `tryLength`, `bruteForce` : one length hypothesis, and the search over all of them;
* `Unframed` : the return value and every out-parameter of `ax100_unframe`.

SHA-1 is a parameter.
-/

namespace SimpleSatOps.Ax100
open Rs Golay24

/-- `AX100_ASM_0..3`. -/
def asm : List UInt8 := [0x93, 0x0B, 0x51, 0xDE]

/-- `CCSDS_SCRAMBLER_TABLE`. -/
def ccsdsScramblerTable : List UInt8 :=
  [0xFF, 0x48, 0x0E, 0xC0, 0x9A, 0x0D, 0x70, 0xBC, 0x8E, 0x2C, 0x93, 0xAD, 0xA7, 0xB7, 0x46, 0xCE, 0x5A, 0x97,
    0x7D, 0xCC, 0x32, 0xA2, 0xBF, 0x3E, 0x0A, 0x10, 0xF1, 0x88, 0x94, 0xCD, 0xEA, 0xB1, 0xFE, 0x90, 0x1D, 0x81,
    0x34, 0x1A, 0xE1, 0x79, 0x1C, 0x59, 0x27, 0x5B, 0x4F, 0x6E, 0x8D, 0x9C, 0xB5, 0x2E, 0xFB, 0x98, 0x65, 0x45,
    0x7E, 0x7C, 0x14, 0x21, 0xE3, 0x11, 0x29, 0x9B, 0xD5, 0x63, 0xFD, 0x20, 0x3B, 0x02, 0x68, 0x35, 0xC2, 0xF2,
    0x38, 0xB2, 0x4E, 0xB6, 0x9E, 0xDD, 0x1B, 0x39, 0x6A, 0x5D, 0xF7, 0x30, 0xCA, 0x8A, 0xFC, 0xF8, 0x28, 0x43,
    0xC6, 0x22, 0x53, 0x37, 0xAA, 0xC7, 0xFA, 0x40, 0x76, 0x04, 0xD0, 0x6B, 0x85, 0xE4, 0x71, 0x64, 0x9D, 0x6D,
    0x3D, 0xBA, 0x36, 0x72, 0xD4, 0xBB, 0xEE, 0x61, 0x95, 0x15, 0xF9, 0xF0, 0x50, 0x87, 0x8C, 0x44, 0xA6, 0x6F,
    0x55, 0x8F, 0xF4, 0x80, 0xEC, 0x09, 0xA0, 0xD7, 0x0B, 0xC8, 0xE2, 0xC9, 0x3A, 0xDA, 0x7B, 0x74, 0x6C, 0xE5,
    0xA9, 0x77, 0xDC, 0xC3, 0x2A, 0x2B, 0xF3, 0xE0, 0xA1, 0x0F, 0x18, 0x89, 0x4C, 0xDE, 0xAB, 0x1F, 0xE9, 0x01,
    0xD8, 0x13, 0x41, 0xAE, 0x17, 0x91, 0xC5, 0x92, 0x75, 0xB4, 0xF6, 0xE8, 0xD9, 0xCB, 0x52, 0xEF, 0xB9, 0x86,
    0x54, 0x57, 0xE7, 0xC1, 0x42, 0x1E, 0x31, 0x12, 0x99, 0xBD, 0x56, 0x3F, 0xD2, 0x03, 0xB0, 0x26, 0x83, 0x5C,
    0x2F, 0x23, 0x8B, 0x24, 0xEB, 0x69, 0xED, 0xD1, 0xB3, 0x96, 0xA5, 0xDF, 0x73, 0x0C, 0xA8, 0xAF, 0xCF, 0x82,
    0x84, 0x3C, 0x62, 0x25, 0x33, 0x7A, 0xAC, 0x7F, 0xA4, 0x07, 0x60, 0x4D, 0x06, 0xB8, 0x5E, 0x47, 0x16, 0x49,
    0xD6, 0xD3, 0xDB, 0xA3, 0x67, 0x2D, 0x4B, 0xBE, 0xE6, 0x19, 0x51, 0x5F, 0x9F, 0x05, 0x08, 0x78, 0xC4, 0x4A,
    0x66, 0xF5, 0x58]

/-- `ax100_opts_t`; a null `hmac_key` is `none`. -/
structure Opts where
  hmacKey : Option (List UInt8)
  randomize : Bool
  reedSolomon : Bool
  lenField : Bool
  syncword : Bool
  prefill : ℤ
  tailfill : ℤ

/-- `ax100_opts_defaults`. -/
def Opts.defaults : Opts where
  hmacKey := none
  randomize := true
  reedSolomon := false
  lenField := true
  syncword := true
  prefill := 32
  tailfill := 1

/-- The size of the scratch buffer `inner`. -/
abbrev innerCap : ℕ := 4100

def scramble (bytes : List UInt8) : List UInt8 :=
  bytes.mapIdx fun i b => b ^^^ ccsdsScramblerTable.getD (i % 255) 0

/-- The scrambler step, taken when `randomize` is set. -/
def onWire (opts : Opts) (inner : List UInt8) : List UInt8 := if opts.randomize then scramble inner else inner

section Framer
variable (sha1 : List UInt8 → Bytes 20)

/-- `ax100_hmac`: the key is hashed, cut to 16 bytes and padded to 64; the trailer is the first four bytes. -/
def hmac (key data : List UInt8) : List UInt8 :=
  let rkey := (sha1 key).1.take 16 ++ List.replicate 48 0
  let ipad := rkey.map (· ^^^ 0x36)
  let opad := rkey.map (· ^^^ 0x5C)
  let inner := sha1 (ipad ++ data)
  let outer := sha1 (opad ++ inner.1)
  outer.1.take 4

/-- The packet with its trailer. -/
def withHmac (opts : Opts) (packet : List UInt8) : List UInt8 :=
  match opts.hmacKey with
  | none => packet
  | some key => packet ++ hmac sha1 key packet

def golayHeader (innerLen : ℕ) : List UInt8 :=
  let g := golay24Encode innerLen
  [UInt8.ofNat (g >>> 16 &&& 0xFF), UInt8.ofNat (g >>> 8 &&& 0xFF), UInt8.ofNat (g &&& 0xFF)]

/-- The 24-bit word of a header. -/
def headerWord (header : List UInt8) : ℕ :=
  (header.getD 0 0).toNat <<< 16 ||| (header.getD 1 0).toNat <<< 8 ||| (header.getD 2 0).toNat

/-- The size checks and `inner` after the Reed-Solomon step. -/
def frameInner (opts : Opts) (packet : List UInt8) : Option (List UInt8) :=
  let needed := packet.length + if opts.hmacKey.isSome then 4 else 0
  if opts.reedSolomon then
    if needed > kk then none
    else if needed + nroots > innerCap then none
    else rsPycspEncode (withHmac sha1 opts packet) nn
  else if needed > innerCap ∨ needed > 0x0FFF then none
  else some (withHmac sha1 opts packet)

/-- `ax100_frame`: the bytes written, `none` for `-1`. -/
def frame (packet : List UInt8) (opts : Opts) (outBufSize : ℕ) : Option (List UInt8) :=
  if opts.prefill < 0 ∨ opts.tailfill < 0 then none
  else
    match frameInner sha1 opts packet with
    | none => none
    | some inner =>
      let inner := onWire opts inner
      let wrapPrefix := (if opts.syncword then 4 else 0) + if opts.lenField then 3 else 0
      let total := opts.prefill.toNat + wrapPrefix + inner.length + opts.tailfill.toNat
      if total > outBufSize then none
      else if opts.lenField ∧ inner.length > 0x0FFF then none
      else
        some (List.replicate opts.prefill.toNat 0xAA ++ (if opts.syncword then asm else []) ++
          (if opts.lenField then golayHeader inner.length else []) ++ inner ++
          List.replicate opts.tailfill.toNat 0xAA)

/-! ## Receiving -/

/-- The outcome of one length hypothesis; `hmacOk` and `rsErrors` are the temporaries of the caller, `-1` until
written. -/
structure Tried where
  packet : Option (List UInt8)
  hmacOk : ℤ
  rsErrors : ℤ
  rsLocs : Option (List ℤ)

/-- The HMAC check and the copy to `out_packet`. -/
def checkHmac (opts : Opts) (outPacketCap : ℕ) (inner : List UInt8) (rsErrors : ℤ) (rsLocs : Option (List ℤ)) :
    Tried :=
  match opts.hmacKey with
  | none => ⟨if inner.length > outPacketCap then none else some inner, -1, rsErrors, rsLocs⟩
  | some key =>
    if inner.length < 4 then ⟨none, -1, rsErrors, rsLocs⟩
    else
      let packet := inner.take (inner.length - 4)
      if hmac sha1 key packet ≠ inner.drop (inner.length - 4) then ⟨none, 0, rsErrors, rsLocs⟩
      else ⟨if packet.length > outPacketCap then none else some packet, 1, rsErrors, rsLocs⟩

/-- `ax100_try_length`. -/
def tryLength (scrambled : List UInt8) (onWireLen : ℕ) (opts : Opts) (outPacketCap : ℕ)
    (rsLocs : Option (List ℤ)) : Tried :=
  if onWireLen > innerCap then ⟨none, -1, -1, rsLocs⟩
  else
    let inner := onWire opts (scrambled.take onWireLen)
    if opts.reedSolomon then
      if onWireLen ≤ nroots ∨ onWireLen > nn then ⟨none, -1, -1, rsLocs⟩
      else
        let decoded := rsPycspDecode inner kk rsLocs
        match decoded.result with
        | none => ⟨none, -1, -1, decoded.outLocs⟩
        | some (data, errs) => checkHmac sha1 opts outPacketCap data errs decoded.outLocs
    else checkHmac sha1 opts outPacketCap inner (-1) rsLocs

/-- The length search over `L = hi - fuel + 1..hi`, except the length already tried: the first acceptance. -/
def bruteForce (scrambled : List UInt8) (opts : Opts) (outPacketCap : ℕ) (tried : Option ℕ) :
    ℕ → ℕ → Option (List ℤ) → Tried
  | 0, _, rsLocs => ⟨none, -1, -1, rsLocs⟩
  | fuel + 1, len, rsLocs =>
    if tried = some len then bruteForce scrambled opts outPacketCap tried fuel (len + 1) rsLocs
    else
      let r := tryLength sha1 scrambled len opts outPacketCap rsLocs
      match r.packet with
      | some _ => r
      | none => bruteForce scrambled opts outPacketCap tried fuel (len + 1) r.rsLocs

/-- What `ax100_unframe` leaves behind: the return value (`none` for `-1`), the caller's packet buffer and the other
out-parameters. -/
structure Unframed where
  ret : Option ℕ
  outPacket : List UInt8
  golayErrors : ℤ
  hmacOk : ℤ
  rsErrors : ℤ
  usedGolayLen : ℤ
  rsLocs : Option (List ℤ)

/-- A packet accepted, copied into the cleared buffer. -/
def Unframed.accept (outPacketCap : ℕ) (packet : List UInt8) (golayErrors usedGolayLen : ℤ) (r : Tried) :
    Unframed where
  ret := some packet.length
  outPacket := overlay packet (List.replicate outPacketCap 0)
  golayErrors
  hmacOk := r.hmacOk
  rsErrors := r.rsErrors
  usedGolayLen
  rsLocs := r.rsLocs

def Unframed.reject (outPacketCap : ℕ) (golayErrors hmacOk rsErrors : ℤ) (rsLocs : Option (List ℤ)) :
    Unframed where
  ret := none
  outPacket := List.replicate outPacketCap 0
  golayErrors
  hmacOk
  rsErrors
  usedGolayLen := -1
  rsLocs

/-- The attempt at the decoded length, if it is sensible. -/
def firstTry (scrambled : List UInt8) (golayLen : Option ℕ) (opts : Opts) (outPacketCap : ℕ)
    (rsLocs : Option (List ℤ)) : Tried :=
  match golayLen with
  | some len =>
    if 0 < len ∧ len ≤ scrambled.length then tryLength sha1 scrambled len opts outPacketCap rsLocs
    else ⟨none, -1, -1, rsLocs⟩
  | none => ⟨none, -1, -1, rsLocs⟩

/-- The fallback over the on-wire lengths `RS_NROOTS + 1..min(RS_N, avail)`. -/
def retryLengths (scrambled : List UInt8) (golayLen : Option ℕ) (opts : Opts) (outPacketCap : ℕ)
    (rsLocs : Option (List ℤ)) : Tried :=
  let lo := nroots + 1
  let hi := min scrambled.length nn
  bruteForce sha1 scrambled opts outPacketCap golayLen (hi + 1 - lo) lo rsLocs

/-- The attempts once the length field is decoded: the decoded length, then every other one. -/
def unframeBlock (scrambled : List UInt8) (golayLen : Option ℕ) (golayErrors : ℤ) (opts : Opts) (outPacketCap : ℕ)
    (rsLocs : Option (List ℤ)) : Unframed :=
  let first := firstTry sha1 scrambled golayLen opts outPacketCap rsLocs
  match first.packet with
  | some packet => .accept outPacketCap packet golayErrors 1 first
  | none =>
    if opts.reedSolomon ∧ opts.hmacKey.isSome then
      let r := retryLengths sha1 scrambled golayLen opts outPacketCap first.rsLocs
      match r.packet with
      | some packet => .accept outPacketCap packet golayErrors 0 r
      | none => .reject outPacketCap golayErrors first.hmacOk first.rsErrors r.rsLocs
    else .reject outPacketCap golayErrors first.hmacOk first.rsErrors first.rsLocs

/-- `ax100_unframe`. -/
def unframe (bytes : List UInt8) (opts : Opts) (outPacketCap : ℕ) (rsLocs : Option (List ℤ)) : Unframed :=
  if opts.syncword ∧ bytes.take 4 ≠ asm then .reject outPacketCap 0 (-1) (-1) rsLocs
  else
    let bytes := if opts.syncword then bytes.drop 4 else bytes
    if opts.lenField then
      if bytes.length < 3 then .reject outPacketCap 0 (-1) (-1) rsLocs
      else
        let decoded := golay24Decode (headerWord bytes)
        unframeBlock sha1 (bytes.drop 3) decoded.1 decoded.2 opts outPacketCap rsLocs
    else unframeBlock sha1 bytes (some bytes.length) 0 opts outPacketCap rsLocs

end Framer

end SimpleSatOps.Ax100
