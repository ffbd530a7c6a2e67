import SimpleSatOps.Lib.Bits
import SimpleSatOps.Lib.CText
import SimpleSatOps.Lib.Run

/-!
# Base64 (`sso_base64.c`)

The codec with its buffers: a run stops where the code would leave one.

* `ssoBase64Encode`, `ssoBase64Decode` : the functions; `out` stands for the `out_cap` bytes of the output;
* `encoded`, `decoded` : the text of some bytes, the bytes of a text;
* `encode_run`, `decode_run` : what the functions leave in the buffers;
* `decoded_encoded` : the text of some bytes decodes to them;
* `Canonical` : the texts that have bytes, `decoded_isSome`;
* `base64_codec` : the round trip, exact acceptance and that no write leaves the buffer.
-/

namespace SimpleSatOps.Base64

/-! ## The functions -/

/-- `ENC`. -/
def enc : List UInt8 := text "ABCDEFGHIJKLMNOPQRSTUVWXYZabcdefghijklmnopqrstuvwxyz0123456789+/"

/-- `sso_base64_encoded_len`. -/
def ssoBase64EncodedLen (n : ℕ) : ℕ := (n + 2) / 3 * 4

/-- `ENC[(v >> s) & 0x3F]`. -/
def encAt (v s : ℕ) : UInt8 := enc.getD (v >>> s &&& 0x3F) 0

/-- The loop of `sso_base64_encode` over what is left of the input, and the one or two bytes behind it. -/
def encodeLoop : List UInt8 → List UInt8 → ℕ → Run (List UInt8 × ℕ)
  | a :: b :: c :: rest, out, oi => do
    let v := a.toNat <<< 16 ||| b.toNat <<< 8 ||| c.toNat
    let out ← putEach out oi [encAt v 18, encAt v 12, encAt v 6, encAt v 0]
    encodeLoop rest out (oi + 4)
  | [a, b], out, oi => do
    let v := a.toNat <<< 16 ||| b.toNat <<< 8
    let out ← putEach out oi [encAt v 18, encAt v 12, encAt v 6, byte '=']
    pure (out, oi + 4)
  | [a], out, oi => do
    let v := a.toNat <<< 16
    let out ← putEach out oi [encAt v 18, encAt v 12, byte '=', byte '=']
    pure (out, oi + 4)
  | [], out, oi => pure (out, oi)

/-- `sso_base64_encode`: the buffer afterwards and the length, `none` for `-1`. -/
def ssoBase64Encode (input out : List UInt8) : Run (List UInt8 × Option ℕ) :=
  if out.length < ssoBase64EncodedLen input.length + 1 then pure (out, none)
  else do
    let (out, oi) ← encodeLoop input out 0
    let out ← put out oi 0
    pure (out, some oi)

/-- `b64val`: `none` for `-1`. -/
def b64val (c : UInt8) : Option ℕ :=
  if byte 'A' ≤ c ∧ c ≤ byte 'Z' then some (c.toNat - (byte 'A').toNat)
  else if byte 'a' ≤ c ∧ c ≤ byte 'z' then some (c.toNat - (byte 'a').toNat + 26)
  else if byte '0' ≤ c ∧ c ≤ byte '9' then some (c.toNat - (byte '0').toNat + 52)
  else if c = byte '+' then some 62
  else if c = byte '/' then some 63
  else none

/-- One quartet up to the capacity check: `v` and `outb`, `none` where `-1` is returned. -/
def quartet (c0 c1 c2 c3 : UInt8) (final : Bool) : Option (ℕ × ℕ) := do
  let v0 ← b64val c0
  let v1 ← b64val c1
  let npad := (if c2 = byte '=' then 1 else 0) + if c3 = byte '=' then 1 else 0
  -- padding only in the final quartet, and never `X=X`
  if npad ≠ 0 ∧ final = false then none
  else if c2 = byte '=' ∧ c3 ≠ byte '=' then none
  else
    let v2 ← if c2 ≠ byte '=' then b64val c2 else some 0
    let v3 ← if c3 ≠ byte '=' then b64val c3 else some 0
    some (v0 <<< 18 ||| v1 <<< 12 ||| v2 <<< 6 ||| v3, 3 - npad)

/-- The first `outb` bytes of `v`, highest first. -/
def valueBytes (v outb : ℕ) : List UInt8 :=
  [UInt8.ofNat (v >>> 16 &&& 0xFF), UInt8.ofNat (v >>> 8 &&& 0xFF), UInt8.ofNat (v &&& 0xFF)].take outb

/-- The loop of `sso_base64_decode` over what is left of the text. -/
def decodeLoop : List UInt8 → List UInt8 → ℕ → Run (List UInt8 × Option ℕ)
  | c0 :: c1 :: c2 :: c3 :: rest, out, oi =>
    match quartet c0 c1 c2 c3 rest.isEmpty with
    | none => pure (out, none)
    | some (v, outb) =>
      if out.length < oi + outb then pure (out, none)
      else do
        let out ← putEach out oi (valueBytes v outb)
        decodeLoop rest out (oi + outb)
  | _, out, oi => pure (out, some oi)

/-- `sso_base64_decode` on the string in `mem`: the buffer afterwards and the length, `none` for `-1`. -/
def ssoBase64Decode (mem out : List UInt8) : Run (List UInt8 × Option ℕ) :=
  let input := cstr mem
  if input.length % 4 ≠ 0 then pure (out, none) else decodeLoop input out 0

/-! ## Texts and bytes -/

/-- The four characters of a value of which `outb` bytes count. -/
def chars (v outb : ℕ) : List UInt8 :=
  [encAt v 18, encAt v 12, if 2 ≤ outb then encAt v 6 else byte '=', if 3 ≤ outb then encAt v 0 else byte '=']

/-- The text of some bytes. -/
def encoded : List UInt8 → List UInt8
  | a :: b :: c :: rest => chars (a.toNat <<< 16 ||| b.toNat <<< 8 ||| c.toNat) 3 ++ encoded rest
  | [a, b] => chars (a.toNat <<< 16 ||| b.toNat <<< 8) 2
  | [a] => chars (a.toNat <<< 16) 1
  | [] => []

theorem length_encoded (input : List UInt8) : (encoded input).length = ssoBase64EncodedLen input.length := by
  induction input using encoded.induct with
  | case1 a b c rest ih =>
    rw [encoded, List.length_append, ih]
    simp only [ssoBase64EncodedLen, chars, List.length_cons, List.length_nil]
    omega
  | case2 a b => simp [encoded, chars, ssoBase64EncodedLen]
  | case3 a => simp [encoded, chars, ssoBase64EncodedLen]
  | case4 => simp [encoded, ssoBase64EncodedLen]

/-- The encoder's loop leaves the text of its input. -/
theorem encodeLoop_run (input : List UInt8) : ∀ {out : List UInt8} {oi : ℕ},
    oi + (encoded input).length ≤ out.length →
      encodeLoop input out oi = .ok (patch out oi (encoded input), oi + (encoded input).length) := by
  induction input using encoded.induct with
  | case1 a b c rest ih =>
    intro out oi h
    rw [encoded, List.length_append] at h ⊢
    rw [encodeLoop]
    generalize a.toNat <<< 16 ||| b.toNat <<< 8 ||| c.toNat = v at h ⊢
    have hlen : (chars v 3).length = 4 := rfl
    have hfour : oi + (chars v 3).length ≤ out.length := by omega
    have hroom : oi + (chars v 3).length + (encoded rest).length ≤ (patch out oi (chars v 3)).length := by
      rw [length_patch hfour]
      omega
    refine (congrArg (· >>= _) (putEach_of_le hfour)).trans ((ih hroom).trans ?_)
    rw [patch_patch hfour, Nat.add_assoc]
  | case2 a b =>
    intro out oi h
    rw [encoded] at h ⊢
    rw [encodeLoop]
    exact congrArg (· >>= _) (putEach_of_le h)
  | case3 a =>
    intro out oi h
    rw [encoded] at h ⊢
    rw [encodeLoop]
    exact congrArg (· >>= _) (putEach_of_le h)
  | case4 =>
    intro out oi _
    rw [encoded, encodeLoop, patch, List.append_nil, List.length_nil, Nat.add_zero, List.take_append_drop]
    rfl

/-- With room the buffer holds the text and its NUL, all other bytes are as they were. -/
theorem encode_run {input out : List UInt8} (h : ssoBase64EncodedLen input.length < out.length) :
    ssoBase64Encode input out = .ok (patch out 0 (encoded input ++ [0]), some (ssoBase64EncodedLen input.length)) := by
  have hlen := length_encoded input
  have hroom : 0 + (encoded input).length ≤ out.length := by omega
  have hnul : 0 + (encoded input).length < (patch out 0 (encoded input)).length := by
    rw [length_patch hroom]
    omega
  rw [ssoBase64Encode, if_neg (by omega), encodeLoop_run input hroom]
  show (do let out ← put _ _ _; pure (out, _)) = _
  rw [put_of_lt hnul, patch_singleton hnul, patch_patch hroom, Nat.zero_add, hlen]
  rfl

/-! ## The decoder -/

/-- The bytes of a text of whole quartets. -/
def decoded : List UInt8 → Option (List UInt8)
  | c0 :: c1 :: c2 :: c3 :: rest =>
    match quartet c0 c1 c2 c3 rest.isEmpty with
    | none => none
    | some (v, outb) => (decoded rest).map (valueBytes v outb ++ ·)
  | _ => some []

theorem quartet_outb {c0 c1 c2 c3 : UInt8} {final : Bool} {v outb : ℕ}
    (h : quartet c0 c1 c2 c3 final = some (v, outb)) : outb ≤ 3 := by
  unfold quartet at h
  obtain ⟨v0, -, h⟩ := Option.bind_eq_some_iff.mp h
  obtain ⟨v1, -, h⟩ := Option.bind_eq_some_iff.mp h
  dsimp only at h
  split_ifs at h
  all_goals
    obtain ⟨v2, -, h⟩ := Option.bind_eq_some_iff.mp h
    obtain ⟨v3, -, h⟩ := Option.bind_eq_some_iff.mp h
    injection h with h
    injection h with _ h
    omega

theorem length_valueBytes (v : ℕ) {outb : ℕ} (h : outb ≤ 3) : (valueBytes v outb).length = outb := by
  unfold valueBytes
  rw [List.length_take]
  exact min_eq_left h

/-- The decoder's loop with room for the bytes of the text. -/
theorem decodeLoop_run (input : List UInt8) : ∀ {out bytes : List UInt8} {oi : ℕ}, decoded input = some bytes →
    oi + bytes.length ≤ out.length → decodeLoop input out oi = .ok (patch out oi bytes, some (oi + bytes.length)) := by
  induction input using decoded.induct with
  | case1 c0 c1 c2 c3 rest hq =>
    intro out bytes oi h
    rw [decoded, hq] at h
    cases h
  | case2 c0 c1 c2 c3 rest v outb hq ih =>
    intro out bytes oi h hroom
    have hlen := length_valueBytes v (quartet_outb hq)
    rw [decoded, hq] at h
    obtain ⟨more, hmore, rfl⟩ := Option.map_eq_some_iff.mp h
    rw [List.length_append] at hroom
    have hput : oi + (valueBytes v outb).length ≤ out.length := by omega
    rw [decodeLoop, hq]
    dsimp only
    rw [if_neg (by omega), putEach_of_le hput]
    have hrest : oi + outb + more.length ≤ (patch out oi (valueBytes v outb)).length := by
      rw [length_patch hput]
      omega
    refine (ih hmore hrest).trans ?_
    rw [List.length_append, ← patch_patch hput, hlen, Nat.add_assoc]
  | case3 input hshort =>
    intro out bytes oi h _
    rw [decoded] at h
    · cases h
      rw [decodeLoop, patch, List.append_nil, List.length_nil, Nat.add_zero, List.take_append_drop]
      · rfl
      · exact hshort
    · exact hshort

/-- Without the room, or with a text that has no bytes, it fails and has left the buffer's length alone. -/
theorem decodeLoop_fails (input : List UInt8) : ∀ {out : List UInt8} {oi : ℕ}, oi ≤ out.length →
    (∀ bytes, decoded input = some bytes → out.length < oi + bytes.length) →
      Runs (decodeLoop input out oi) fun r => r.1.length = out.length ∧ r.2 = none := by
  induction input using decoded.induct with
  | case1 c0 c1 c2 c3 rest hq =>
    intro out oi _ _
    rw [decodeLoop, hq]
    exact Runs.pure ⟨rfl, rfl⟩
  | case2 c0 c1 c2 c3 rest v outb hq ih =>
    intro out oi _ h
    have hlen := length_valueBytes v (quartet_outb hq)
    rw [decodeLoop, hq]
    dsimp only
    split_ifs with hroom
    · exact Runs.pure ⟨rfl, rfl⟩
    have hput : oi + (valueBytes v outb).length ≤ out.length := by omega
    rw [putEach_of_le hput, ← length_patch hput]
    refine ih (by rw [length_patch hput]; omega) fun more hmore => ?_
    have hshort := h (valueBytes v outb ++ more) (by rw [decoded, hq, hmore]; rfl)
    rw [List.length_append] at hshort
    rw [length_patch hput]
    omega
  | case3 input hshort =>
    intro out oi hoi h
    have hnone := h [] (by rw [decoded]; exact hshort)
    rw [List.length_nil] at hnone
    omega

/-! ## The alphabet -/

theorem enc_b64val {d : ℕ} (h : d < 64) : b64val (enc.getD d 0) = some d := by
  have hall : ∀ d : Fin 64, b64val (enc.getD d.1 0) = some d.1 := by decide +kernel
  exact hall ⟨d, h⟩

theorem enc_ne_pad {d : ℕ} (h : d < 64) : enc.getD d 0 ≠ byte '=' := by
  have hall : ∀ d : Fin 64, enc.getD d.1 0 ≠ byte '=' := by decide +kernel
  exact hall ⟨d, h⟩

theorem b64val_isSome (c : UInt8) : (b64val c).isSome = true ↔ c ∈ enc := by
  have hall : ∀ n : Fin 256, (b64val (UInt8.ofFin n)).isSome = true ↔ UInt8.ofFin n ∈ enc := by decide +kernel
  exact hall c.toFin

theorem pad_not_mem_enc : byte '=' ∉ enc := by decide

theorem encAt_eq (v s : ℕ) : encAt v s = enc.getD (v / 2 ^ s % 64) 0 := by
  rw [encAt, and_mask 6 rfl, Nat.shiftRight_eq_div_pow]
  rfl

theorem sextet_lt (v s : ℕ) : v / 2 ^ s % 64 < 64 := Nat.mod_lt _ (by decide)

theorem b64val_encAt (v s : ℕ) : b64val (encAt v s) = some (v / 2 ^ s % 64) := by
  rw [encAt_eq]
  exact enc_b64val (sextet_lt v s)

theorem encAt_ne_pad (v s : ℕ) : encAt v s ≠ byte '=' := by
  rw [encAt_eq]
  exact enc_ne_pad (sextet_lt v s)

/-! ## The round trip -/

/-- Four sextets make a value of 24 bits. -/
theorem sextets_eq (a b : ℕ) {c d : ℕ} (hb : b < 64) (hc : c < 64) (hd : d < 64) :
    a <<< 18 ||| b <<< 12 ||| c <<< 6 ||| d = a * 2 ^ 18 + b * 2 ^ 12 + c * 2 ^ 6 + d := by
  have h2 : a * 2 ^ 18 ||| b * 2 ^ 12 = a * 2 ^ 18 + b * 2 ^ 12 := or_eq_add_of_dvd 18 (by omega) (by omega)
  have h3 : a * 2 ^ 18 + b * 2 ^ 12 ||| c * 2 ^ 6 = a * 2 ^ 18 + b * 2 ^ 12 + c * 2 ^ 6 :=
    or_eq_add_of_dvd 12 (by omega) (by omega)
  have h4 : a * 2 ^ 18 + b * 2 ^ 12 + c * 2 ^ 6 ||| d = a * 2 ^ 18 + b * 2 ^ 12 + c * 2 ^ 6 + d :=
    or_eq_add_of_dvd 6 (by omega) hd
  rw [Nat.shiftLeft_eq, Nat.shiftLeft_eq, Nat.shiftLeft_eq, h2, h3, h4]

/-- The quartet of a value's characters: the value back, without the bits that `=` stands for. -/
theorem quartet_chars {v outb : ℕ} (hv : v < 2 ^ 24) (hpos : 1 ≤ outb) (hle : outb ≤ 3)
    (hlow : v % 2 ^ (8 * (3 - outb)) = 0) {final : Bool} (hfinal : outb < 3 → final = true) :
    quartet (encAt v 18) (encAt v 12) (if 2 ≤ outb then encAt v 6 else byte '=')
      (if 3 ≤ outb then encAt v 0 else byte '=') final = some (v, outb) := by
  have h18 := sextet_lt v 18
  have h12 := sextet_lt v 12
  have h6 := sextet_lt v 6
  have h0 := sextet_lt v 0
  have hsum : (v / 2 ^ 18 % 64) <<< 18 ||| (v / 2 ^ 12 % 64) <<< 12 ||| (v / 2 ^ 6 % 64) <<< 6 |||
      (v / 2 ^ 0 % 64) = v := by
    rw [sextets_eq _ _ h12 h6 h0]
    omega
  unfold quartet
  rw [b64val_encAt, b64val_encAt]
  obtain rfl | rfl | rfl : outb = 1 ∨ outb = 2 ∨ outb = 3 := by omega
  · have hz6 : v / 2 ^ 6 % 64 = 0 := by omega
    have hz0 : v / 2 ^ 0 % 64 = 0 := by omega
    rw [hz6, hz0] at hsum
    simpa [hfinal] using hsum
  · have hz0 : v / 2 ^ 0 % 64 = 0 := by omega
    rw [hz0] at hsum
    simpa [hfinal, encAt_ne_pad, b64val_encAt] using hsum
  · simpa [encAt_ne_pad, b64val_encAt] using hsum

theorem valueBytes_eq {v : ℕ} {a b c : UInt8} (hv : v = a.toNat * 2 ^ 16 + b.toNat * 2 ^ 8 + c.toNat) (outb : ℕ) :
    valueBytes v outb = [a, b, c].take outb := by
  have ha := a.toNat_lt
  have hb := b.toNat_lt
  have hc := c.toNat_lt
  have hmask : ∀ x : ℕ, x &&& 0xFF = x % 2 ^ 8 := and_mask 8 rfl
  have h16 : v / 2 ^ 16 % 2 ^ 8 = a.toNat := by omega
  have h8 : v / 2 ^ 8 % 2 ^ 8 = b.toNat := by omega
  have h0 : v % 2 ^ 8 = c.toNat := by omega
  rw [valueBytes, hmask, hmask, hmask, Nat.shiftRight_eq_div_pow, Nat.shiftRight_eq_div_pow, h16, h8, h0,
    UInt8.ofNat_toNat, UInt8.ofNat_toNat, UInt8.ofNat_toNat]

/-- The bytes of a group, as the encoder gathers them. -/
theorem group_eq (a : UInt8) {b c : ℕ} (hb : b < 2 ^ 8) (hc : c < 2 ^ 8) :
    a.toNat <<< 16 ||| b <<< 8 ||| c = a.toNat * 2 ^ 16 + b * 2 ^ 8 + c := by
  have h2 : a.toNat * 2 ^ 16 ||| b * 2 ^ 8 = a.toNat * 2 ^ 16 + b * 2 ^ 8 := or_eq_add_of_dvd 16 (by omega) (by omega)
  have h3 : a.toNat * 2 ^ 16 + b * 2 ^ 8 ||| c = a.toNat * 2 ^ 16 + b * 2 ^ 8 + c := or_eq_add_of_dvd 8 (by omega) hc
  rw [Nat.shiftLeft_eq, Nat.shiftLeft_eq, h2, h3]

/-- The characters of one group in front of a text. -/
theorem decoded_chars {v outb : ℕ} {bytes : List UInt8} (hv : v < 2 ^ 24) (hpos : 1 ≤ outb) (hle : outb ≤ 3)
    (hlow : v % 2 ^ (8 * (3 - outb)) = 0) {rest : List UInt8} (hfinal : outb < 3 → rest = [])
    (hrest : decoded rest = some bytes) : decoded (chars v outb ++ rest) = some (valueBytes v outb ++ bytes) := by
  have hquartet := quartet_chars hv hpos hle hlow fun h => List.isEmpty_iff.mpr (hfinal h)
  unfold chars
  rw [List.cons_append, List.cons_append, List.cons_append, List.cons_append, List.nil_append, decoded, hquartet]
  dsimp only
  rw [hrest]
  rfl

/-- The text of some bytes decodes to them. -/
theorem decoded_encoded (input : List UInt8) : decoded (encoded input) = some input := by
  have hbyte : ∀ a : UInt8, a.toNat < 2 ^ 8 := UInt8.toNat_lt
  induction input using encoded.induct with
  | case1 a b c rest ih =>
    have ha := hbyte a
    have hv := group_eq a (hbyte b) (hbyte c)
    rw [encoded, decoded_chars (by rw [hv]; have := hbyte b; have := hbyte c; omega) (by decide) le_rfl
      (Nat.mod_one _) (fun h => absurd h (by decide)) ih, valueBytes_eq hv]
    rfl
  | case2 a b =>
    have ha := hbyte a
    have hb := hbyte b
    have hv := group_eq a hb (by decide : 0 < 2 ^ 8)
    rw [Nat.or_zero] at hv
    have h := @decoded_chars (a.toNat <<< 16 ||| b.toNat <<< 8) 2 [] (by omega) (by decide) (by decide) (by omega) []
      (fun _ => rfl) rfl
    rw [List.append_nil, List.append_nil, valueBytes_eq (c := 0) hv] at h
    rw [encoded, h]
    rfl
  | case3 a =>
    have ha := hbyte a
    have hv := group_eq a (by decide : 0 < 2 ^ 8) (by decide : 0 < 2 ^ 8)
    rw [Nat.or_zero, Nat.zero_shiftLeft, Nat.or_zero] at hv
    have h := @decoded_chars (a.toNat <<< 16) 1 [] (by omega) (by decide) (by decide) (by omega) []
      (fun _ => rfl) rfl
    rw [List.append_nil, List.append_nil, valueBytes_eq (b := 0) (c := 0) hv] at h
    rw [encoded, h]
    rfl
  | case4 => rfl

/-- A text is made of the alphabet and the padding. -/
theorem mem_of_mem_encoded {c : UInt8} (input : List UInt8) : c ∈ encoded input → c ∈ byte '=' :: enc := by
  have henc : ∀ v s, encAt v s ∈ byte '=' :: enc := fun v s => by
    apply List.mem_cons_of_mem
    apply (b64val_isSome _).mp
    rw [b64val_encAt]
    rfl
  have hchars : ∀ v outb, c ∈ chars v outb → c ∈ byte '=' :: enc := by
    intro v outb hmem
    simp only [chars, List.mem_cons, List.not_mem_nil, or_false] at hmem
    rcases hmem with rfl | rfl | rfl | rfl
    · exact henc v 18
    · exact henc v 12
    · split_ifs
      · exact henc v 6
      · exact List.mem_cons_self
    · split_ifs
      · exact henc v 0
      · exact List.mem_cons_self
  induction input using encoded.induct with
  | case1 a b c' rest ih =>
    rw [encoded, List.mem_append]
    rintro (h | h)
    · exact hchars _ 3 h
    · exact ih h
  | case2 a b =>
    rw [encoded]
    exact hchars _ 2
  | case3 a =>
    rw [encoded]
    exact hchars _ 1
  | case4 =>
    intro h
    exact absurd h List.not_mem_nil

theorem not_mem_encoded (input : List UInt8) : (0 : UInt8) ∉ encoded input := by
  intro h
  exact absurd (mem_of_mem_encoded input h) (by decide)

/-! ## The texts that have bytes -/

/-- Characters of the alphabet and behind them at most two `=`. -/
def Padded (s : List UInt8) : Prop :=
  ∃ body pads, s = body ++ List.replicate pads (byte '=') ∧ pads ≤ 2 ∧ ∀ c ∈ body, c ∈ enc

/-- The texts of the format: whole quartets, padded. -/
def Canonical (s : List UInt8) : Prop := s.length % 4 = 0 ∧ Padded s

/-- How many bytes a text stands for. -/
def decodedSize (s : List UInt8) : ℕ := s.length / 4 * 3 - s.count (byte '=')

theorem padded_cons {c : UInt8} {s : List UInt8} (h : 2 ≤ s.length) : Padded (c :: s) ↔ c ∈ enc ∧ Padded s := by
  constructor
  · rintro ⟨body, pads, hs, hpads, hbody⟩
    cases body with
    | nil =>
      have hlen := congrArg List.length hs
      rw [List.nil_append, List.length_replicate, List.length_cons] at hlen
      omega
    | cons d body =>
      injection hs with hd hs
      subst hd
      exact ⟨hbody c List.mem_cons_self, body, pads, hs, hpads, fun x hx => hbody x (List.mem_cons_of_mem _ hx)⟩
  · rintro ⟨hc, body, pads, rfl, hpads, hbody⟩
    refine ⟨c :: body, pads, rfl, hpads, fun x hx => ?_⟩
    rcases List.mem_cons.mp hx with rfl | hx
    · exact hc
    · exact hbody x hx

/-- The last two characters. -/
theorem padded_pair {c d : UInt8} : Padded [c, d] ↔
    c ∈ enc ∧ d ∈ enc ∨ c ∈ enc ∧ d = byte '=' ∨ c = byte '=' ∧ d = byte '=' := by
  constructor
  · rintro ⟨body, pads, hs, hpads, hbody⟩
    obtain rfl | rfl | rfl : pads = 0 ∨ pads = 1 ∨ pads = 2 := by omega
    · rw [List.replicate_zero, List.append_nil] at hs
      subst hs
      exact Or.inl ⟨hbody c (by simp), hbody d (by simp)⟩
    · obtain ⟨rfl, hd⟩ := List.append_inj' (show [c] ++ [d] = body ++ List.replicate 1 (byte '=') from hs) rfl
      injection hd with hd
      exact Or.inr (Or.inl ⟨hbody c (by simp), hd⟩)
    · obtain ⟨-, hcd⟩ := List.append_inj' (show [] ++ [c, d] = body ++ List.replicate 2 (byte '=') from hs) rfl
      injection hcd with hc hd
      injection hd with hd
      exact Or.inr (Or.inr ⟨hc, hd⟩)
  · rintro (⟨hc, hd⟩ | ⟨hc, rfl⟩ | ⟨rfl, rfl⟩)
    · exact ⟨[c, d], 0, rfl, by decide, by simp [hc, hd]⟩
    · exact ⟨[c], 1, rfl, by decide, by simp [hc]⟩
    · exact ⟨[], 2, rfl, le_rfl, fun x hx => absurd hx List.not_mem_nil⟩

theorem ne_pad_of_mem {c : UInt8} (h : c ∈ enc) : c ≠ byte '=' := by
  rintro rfl
  exact pad_not_mem_enc h

/-- The quartets that have a value. -/
theorem quartet_isSome {c0 c1 c2 c3 : UInt8} {final : Bool} : (quartet c0 c1 c2 c3 final).isSome = true ↔
    c0 ∈ enc ∧ c1 ∈ enc ∧ (c2 ∈ enc ∧ c3 ∈ enc ∨
      final = true ∧ (c2 ∈ enc ∧ c3 = byte '=' ∨ c2 = byte '=' ∧ c3 = byte '=')) := by
  have hpad : (b64val (byte '=')).isSome = false := by decide
  rw [← b64val_isSome c0, ← b64val_isSome c1, ← b64val_isSome c2, ← b64val_isSome c3]
  unfold quartet
  cases b64val c0 with
  | none => simp
  | some v0 =>
    cases b64val c1 with
    | none => simp
    | some v1 =>
      by_cases h2 : c2 = byte '='
      · subst h2
        by_cases h3 : c3 = byte '=' <;> cases final <;> simp [h3, hpad]
      · by_cases h3 : c3 = byte '='
        · subst h3
          cases final <;> cases b64val c2 <;> simp [h2, hpad]
        · cases b64val c2 <;> cases b64val c3 <;> simp [h2, h3]

/-- `outb` is what the padding leaves of three bytes. -/
theorem quartet_size {c0 c1 c2 c3 : UInt8} {final : Bool} {v outb : ℕ}
    (h : quartet c0 c1 c2 c3 final = some (v, outb)) : outb + [c0, c1, c2, c3].count (byte '=') = 3 := by
  have hsome := quartet_isSome.mp (Option.isSome_iff_exists.mpr ⟨_, h⟩)
  have h0 := ne_pad_of_mem hsome.1
  have h1 := ne_pad_of_mem hsome.2.1
  have hpads : [c0, c1, c2, c3].count (byte '=') =
      (if c2 = byte '=' then 1 else 0) + if c3 = byte '=' then 1 else 0 := by
    simp [List.count_cons, h0, h1, Nat.add_comm]
  rw [hpads]
  unfold quartet at h
  obtain ⟨v0, -, h⟩ := Option.bind_eq_some_iff.mp h
  obtain ⟨v1, -, h⟩ := Option.bind_eq_some_iff.mp h
  dsimp only at h
  generalize hn : ((if c2 = byte '=' then 1 else 0) + if c3 = byte '=' then 1 else 0) = npad at h ⊢
  have hle : npad ≤ 2 := by
    rw [← hn]
    split_ifs <;> decide
  split_ifs at h
  all_goals
    obtain ⟨v2, -, h⟩ := Option.bind_eq_some_iff.mp h
    obtain ⟨v3, -, h⟩ := Option.bind_eq_some_iff.mp h
    injection h with h
    injection h with _ h
    omega

/-- Whole quartets, but not one of them. -/
theorem eq_nil_of_short {s : List UInt8} (hshort : ∀ c0 c1 c2 c3 rest, s = c0 :: c1 :: c2 :: c3 :: rest → False)
    (hlen : s.length % 4 = 0) : s = [] := by
  rcases s with _ | ⟨c0, _ | ⟨c1, _ | ⟨c2, _ | ⟨c3, rest⟩⟩⟩⟩
  · rfl
  · simp at hlen
  · simp at hlen
  · simp at hlen
  · exact absurd rfl (hshort c0 c1 c2 c3 rest)

/-- The first quartet of a padded text. -/
theorem padded_quartet {c0 c1 c2 c3 : UInt8} {rest : List UInt8} (hlen : rest.length % 4 = 0) :
    Padded (c0 :: c1 :: c2 :: c3 :: rest) ↔
      (quartet c0 c1 c2 c3 rest.isEmpty).isSome = true ∧ Padded rest := by
  rw [quartet_isSome, List.isEmpty_iff]
  by_cases hrest : rest = []
  · subst hrest
    have hnil : Padded [] := ⟨[], 0, rfl, by decide, fun x hx => absurd hx List.not_mem_nil⟩
    rw [padded_cons (by simp), padded_cons (by simp), padded_pair]
    simp only [hnil, and_true, true_and]
  · have hpos := List.length_pos_iff.mpr hrest
    have hlong : 2 ≤ rest.length := by omega
    rw [padded_cons (by simp), padded_cons (by simp), padded_cons (by simp; omega), padded_cons hlong]
    simp only [hrest, false_and, or_false, and_assoc]

/-- The texts of whole quartets that have bytes. -/
theorem decoded_isSome (s : List UInt8) : s.length % 4 = 0 → ((decoded s).isSome = true ↔ Padded s) := by
  induction s using decoded.induct with
  | case1 c0 c1 c2 c3 rest hq =>
    intro hlen
    rw [padded_quartet (by simp only [List.length_cons] at hlen; omega), decoded, hq]
    simp
  | case2 c0 c1 c2 c3 rest v outb hq ih =>
    intro hlen
    have hrest : rest.length % 4 = 0 := by
      simp only [List.length_cons] at hlen
      omega
    rw [padded_quartet hrest, decoded, hq, ← ih hrest]
    simp
  | case3 s hshort =>
    intro hlen
    rw [eq_nil_of_short hshort hlen]
    exact iff_of_true rfl ⟨[], 0, rfl, by decide, fun x hx => absurd hx List.not_mem_nil⟩

theorem length_decoded (s : List UInt8) : ∀ bytes, decoded s = some bytes → s.length % 4 = 0 →
    bytes.length + s.count (byte '=') = s.length / 4 * 3 := by
  induction s using decoded.induct with
  | case1 c0 c1 c2 c3 rest hq =>
    intro bytes h
    rw [decoded, hq] at h
    cases h
  | case2 c0 c1 c2 c3 rest v outb hq ih =>
    intro bytes h hlen
    rw [decoded, hq] at h
    obtain ⟨more, hmore, rfl⟩ := Option.map_eq_some_iff.mp h
    have hsize := quartet_size hq
    have hcount : ([c0, c1, c2, c3] ++ rest).count (byte '=') =
        [c0, c1, c2, c3].count (byte '=') + rest.count (byte '=') := List.count_append
    simp only [List.length_cons] at hlen ⊢
    have hrest := ih more hmore (by omega)
    change _ + ([c0, c1, c2, c3] ++ rest).count (byte '=') = _
    rw [List.length_append, length_valueBytes v (quartet_outb hq), hcount]
    omega
  | case3 s hshort =>
    intro bytes h hlen
    rw [eq_nil_of_short hshort hlen] at h ⊢
    cases h
    rfl

/-! ## The codec -/

/-- What `sso_base64_decode` does with any string and any buffer. -/
theorem decode_run (mem out : List UInt8) : Runs (ssoBase64Decode mem out) fun r => r.1.length = out.length ∧
    ((Canonical (cstr mem) ∧ decodedSize (cstr mem) ≤ out.length ∧ r.2 = some (decodedSize (cstr mem)) ∧
        ∃ bytes, decoded (cstr mem) = some bytes ∧ r.1 = patch out 0 bytes) ∨
      ¬ (Canonical (cstr mem) ∧ decodedSize (cstr mem) ≤ out.length) ∧ r.2 = none) := by
  unfold ssoBase64Decode
  dsimp only
  by_cases hlen : (cstr mem).length % 4 = 0
  · rw [if_neg (not_not.mpr hlen)]
    have hiff := decoded_isSome (cstr mem) hlen
    have hsize := fun bytes h => length_decoded (cstr mem) bytes h hlen
    by_cases hroom : ∃ bytes, decoded (cstr mem) = some bytes ∧ bytes.length ≤ out.length
    · obtain ⟨bytes, hbytes, hfit⟩ := hroom
      have hfit' : 0 + bytes.length ≤ out.length := by omega
      have hsame : bytes.length = decodedSize (cstr mem) := by
        unfold decodedSize
        rw [← hsize bytes hbytes, Nat.add_sub_cancel]
      rw [decodeLoop_run (cstr mem) hbytes hfit', Nat.zero_add]
      refine Runs.pure ⟨length_patch hfit', Or.inl ⟨⟨hlen, hiff.mp (by rw [hbytes]; rfl)⟩, hsame ▸ hfit, ?_, bytes,
        hbytes, rfl⟩⟩
      rw [hsame]
    · refine (decodeLoop_fails (cstr mem) (Nat.zero_le _) fun bytes hbytes => ?_).mono fun r hr =>
        ⟨hr.1, Or.inr ⟨?_, hr.2⟩⟩
      · by_contra hle
        exact hroom ⟨bytes, hbytes, by omega⟩
      · rintro ⟨⟨-, hpadded⟩, hfit⟩
        obtain ⟨bytes, hbytes⟩ := Option.isSome_iff_exists.mp (hiff.mpr hpadded)
        refine hroom ⟨bytes, hbytes, ?_⟩
        have h := hsize bytes hbytes
        unfold decodedSize at hfit
        omega
  · rw [if_pos hlen]
    exact Runs.pure ⟨rfl, Or.inr ⟨fun h => hlen h.1.1, rfl⟩⟩

/-- **The codec**: the encoder writes exactly where there is room for the text and its NUL, and then the decoder gets
the bytes back from it in any buffer they fit; the decoder succeeds on exactly the canonical texts whose bytes fit;
neither ever writes outside its buffer. -/
theorem base64_codec :
    (∀ input out : List UInt8, Runs (ssoBase64Encode input out) fun r => r.1.length = out.length ∧
      (out.length < ssoBase64EncodedLen input.length + 1 → r = (out, none)) ∧
      (ssoBase64EncodedLen input.length + 1 ≤ out.length →
        r.2 = some (ssoBase64EncodedLen input.length) ∧ (cstr r.1).length = ssoBase64EncodedLen input.length ∧
        ∀ back : List UInt8, input.length ≤ back.length →
          ssoBase64Decode r.1 back = .ok (input ++ back.drop input.length, some input.length))) ∧
    (∀ mem out : List UInt8, Runs (ssoBase64Decode mem out) fun r => r.1.length = out.length ∧
      (r.2.isSome = true ↔ Canonical (cstr mem) ∧ decodedSize (cstr mem) ≤ out.length)) := by
  refine ⟨fun input out => ?_, fun mem out => (decode_run mem out).mono fun r hr => ⟨hr.1, ?_⟩⟩
  · by_cases hroom : ssoBase64EncodedLen input.length < out.length
    · have hlen : (encoded input ++ [0]).length = ssoBase64EncodedLen input.length + 1 := by
        rw [List.length_append, length_encoded, List.length_singleton]
      have hcstr : cstr (patch out 0 (encoded input ++ [0])) = encoded input := by
        rw [patch, List.take_zero, List.nil_append, List.append_assoc]
        exact cstr_append_nul (not_mem_encoded input) _
      rw [encode_run hroom]
      refine Runs.pure ⟨length_patch (by omega), fun h => by omega, fun _ => ⟨rfl, ?_, fun back hback => ?_⟩⟩
      · rw [hcstr, length_encoded]
      · have hfour : (encoded input).length % 4 = 0 := by
          rw [length_encoded, ssoBase64EncodedLen, Nat.mul_mod_left]
        rw [ssoBase64Decode, hcstr, if_neg (not_not.mpr hfour),
          decodeLoop_run _ (decoded_encoded input) (by omega), Nat.zero_add, patch, Nat.zero_add, List.take_zero,
          List.nil_append]
    · rw [ssoBase64Encode, if_pos (by omega)]
      exact Runs.pure ⟨rfl, fun _ => rfl, fun h => by omega⟩
  · rcases hr.2 with ⟨hcanon, hfit, hsome, -⟩ | ⟨hnot, hnone⟩
    · rw [hsome]
      exact iff_of_true rfl ⟨hcanon, hfit⟩
    · rw [hnone]
      exact iff_of_false Bool.false_ne_true hnot

end SimpleSatOps.Base64
