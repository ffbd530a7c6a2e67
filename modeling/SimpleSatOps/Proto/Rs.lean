import SimpleSatOps.Basic
import SimpleSatOps.Proto.GF256

/-!
# The Reed-Solomon (255, 223) codec (`rs.c`)

The conventional-basis codec as the code computes it: tables in index form, arrays as lists, every loop under its
own name. `rsEncode` and `rsDecode` work on whole blocks; `rsPycspEncode` and `rsPycspDecode` are the shortened
code of the AX100 framer (left zero padding).

* `rsSyndromes`, `berlekampMassey`, `chien`, `forney` : the four phases of `rs_decode`;
* `RsDecoded` : what `rs_decode` leaves behind (return value, block, `out_locs`).
-/

namespace SimpleSatOps.Rs

/-- `KK` (`RS_K`). -/
abbrev kk : ℕ := 223

/-- `NROOTS` (`RS_NROOTS`). -/
abbrev nroots : ℕ := 32

abbrev fcr : ℕ := 112
abbrev prim : ℕ := 11
abbrev iprim : ℕ := 116

/-- `GEN_POLY`: the generator polynomial in index form. -/
def genPolyTable : List ℕ :=
  [0x00, 0xf9, 0x3b, 0x42, 0x04, 0x2b, 0x7e, 0xfb, 0x61, 0x1e, 0x03, 0xd5, 0x32, 0x42, 0xaa, 0x05,
   0x18, 0x05, 0xaa, 0x42, 0x32, 0xd5, 0x03, 0x1e, 0x61, 0xfb, 0x7e, 0x2b, 0x04, 0x42, 0x3b, 0xf9,
   0x00]

def genPoly (j : ℕ) : ℕ := genPolyTable.getD j 0

/-! ## Encoder -/

/-- One data byte through the parity register: feed back, shift (`memmove`), append. -/
def encodeStep (parity : List UInt8) (byte : UInt8) : List UInt8 :=
  let feedback := indexOf (byte ^^^ parity.getD 0 0)
  if feedback ≠ a0 then
    let parity := tab nroots fun j =>
      if j = 0 then parity.getD 0 0
      else parity.getD j 0 ^^^ alphaTo (modnn (feedback + genPoly (nroots - j)))
    parity.tail ++ [alphaTo (modnn (feedback + genPoly 0))]
  else parity.tail ++ [0]

def rsParity (data : List UInt8) : List UInt8 := data.foldl encodeStep (List.replicate nroots 0)

theorem length_encodeStep {parity : List UInt8} (h : parity.length = nroots) (byte : UInt8) :
    (encodeStep parity byte).length = nroots := by
  simp only [encodeStep]
  split_ifs <;> simp [h]

theorem length_foldl_encodeStep (data : List UInt8) :
    ∀ {parity : List UInt8}, parity.length = nroots → (data.foldl encodeStep parity).length = nroots := by
  induction data with
  | nil => exact fun h => h
  | cons byte data ih => exact fun h => ih (length_encodeStep h byte)

theorem length_rsParity (data : List UInt8) : (rsParity data).length = nroots :=
  length_foldl_encodeStep data (by simp)

def rsEncode (dataIn : Bytes kk) : Bytes nn :=
  ⟨dataIn.1 ++ rsParity dataIn.1, by
    rw [List.length_append, dataIn.2, length_rsParity]
    rfl⟩

/-! ## Decoder -/

/-- The Horner step of syndrome `i`. -/
def syndromeStep (byte : UInt8) (i : ℕ) (s : UInt8) : UInt8 :=
  if s = 0 then byte else byte ^^^ alphaTo (modnn (indexOf s + (fcr + i) * prim))

def rsSyndromes (block : List UInt8) : List UInt8 :=
  block.tail.foldl (fun syndromes byte => syndromes.mapIdx (syndromeStep byte))
    (List.replicate nroots (block.headD 0))

/-- The loop state of Berlekamp-Massey: `lambda` holds bytes, `b` indices. -/
structure BmState where
  r : ℕ
  el : ℕ
  lambda : List UInt8
  b : List ℕ

def BmState.init : BmState where
  r := 0
  el := 0
  lambda := tab (nroots + 1) fun i => if i = 0 then 1 else 0
  b := tab (nroots + 1) fun i => indexOf (if i = 0 then 1 else 0)

def discrepancy (syn : List ℕ) (lambda : List UInt8) (r : ℕ) : UInt8 :=
  xorSum (List.range r) fun i =>
    if lambda.getD i 0 ≠ 0 ∧ syn.getD (r - i - 1) a0 ≠ a0 then
      alphaTo (modnn (indexOf (lambda.getD i 0) + syn.getD (r - i - 1) a0))
    else 0

/-- `for (i = NROOTS; i > 0; --i) b[i] = b[i - 1]; b[0] = A0`. -/
def shiftB (b : List ℕ) : List ℕ := tab (nroots + 1) fun i => if i = 0 then a0 else b.getD (i - 1) a0

/-- The corrected polynomial `t`. -/
def correctLambda (lambda : List UInt8) (b : List ℕ) (disc : ℕ) : List UInt8 :=
  tab (nroots + 1) fun i =>
    if i = 0 then lambda.getD 0 0
    else if b.getD (i - 1) a0 ≠ a0 then
      lambda.getD i 0 ^^^ alphaTo (modnn (disc + b.getD (i - 1) a0))
    else lambda.getD i 0

/-- `b` after a length change; entry `NROOTS` keeps its old value, which no later step reads. -/
def scaleLambda (lambda : List UInt8) (b : List ℕ) (disc : ℕ) : List ℕ :=
  tab (nroots + 1) fun i =>
    if i = nroots then b.getD i a0
    else if lambda.getD i 0 = 0 then a0
    else modnn (indexOf (lambda.getD i 0) + nn - disc)

def bmStep (syn : List ℕ) (s : BmState) : BmState :=
  let r := s.r + 1
  let disc := indexOf (discrepancy syn s.lambda r)
  if disc = a0 then { s with r, b := shiftB s.b }
  else
    let t := correctLambda s.lambda s.b disc
    if 2 * s.el ≤ r - 1 then { r, el := r - s.el, lambda := t, b := scaleLambda s.lambda s.b disc }
    else { s with r, lambda := t, b := shiftB s.b }

/-- The locator polynomial `lambda` after the `NROOTS` rounds. -/
def berlekampMassey (syn : List ℕ) : List UInt8 := ((bmStep syn)^[nroots] BmState.init).lambda

/-- The last index below `n` that satisfies `p`, as the degree scans compute it. -/
def lastIdx (n : ℕ) (p : ℕ → Bool) : ℕ := (List.range n).foldl (fun deg i => if p i then i else deg) 0

def degLambda (lambdaIdx : List ℕ) : ℕ := lastIdx (nroots + 1) fun i => lambdaIdx.getD i a0 ≠ a0

/-- `reg[j] = modnn(reg[j] + j)` for every `j` in `1..deg_lambda` that is not the sentinel. -/
def regStep (degLambda : ℕ) (reg : List ℕ) : List ℕ :=
  tab (nroots + 1) fun j =>
    if 1 ≤ j ∧ j ≤ degLambda ∧ reg.getD j a0 ≠ a0 then modnn (reg.getD j a0 + j) else reg.getD j a0

/-- `q` of the Chien search: one plus the terms `reg[j]`, `j = deg_lambda..1`. -/
def chienValue (degLambda : ℕ) (reg : List ℕ) : UInt8 :=
  1 ^^^ xorSum ((List.range degLambda).reverse.map (· + 1)) fun j =>
    if reg.getD j a0 ≠ a0 then alphaTo (reg.getD j a0) else 0

/-- The search over `ii = NN - fuel + 1..NN`: the roots found (`root`) with their block positions (`loc`). -/
def chien (degLambda : ℕ) : ℕ → ℕ → ℕ → List ℕ → List (ℕ × ℕ) → List (ℕ × ℕ)
  | 0, _, _, _, found => found
  | fuel + 1, ii, k, reg, found =>
    let reg := regStep degLambda reg
    if chienValue degLambda reg ≠ 0 then chien degLambda fuel (ii + 1) (modnn (k + iprim)) reg found
    else
      let found := found ++ [(ii, k)]
      if found.length = degLambda then found
      else chien degLambda fuel (ii + 1) (modnn (k + iprim)) reg found

def chienSearch (lambdaIdx : List ℕ) : List (ℕ × ℕ) :=
  chien (degLambda lambdaIdx) nn 1 (iprim - 1) lambdaIdx []

/-- Coefficient `i` of `S(x) Λ(x)`. -/
def omegaCoeff (syn lambdaIdx : List ℕ) (i : ℕ) : UInt8 :=
  xorSum (List.range (min (degLambda lambdaIdx) i + 1)).reverse fun j =>
    if syn.getD (i - j) a0 ≠ a0 ∧ lambdaIdx.getD j a0 ≠ a0 then
      alphaTo (modnn (syn.getD (i - j) a0 + lambdaIdx.getD j a0))
    else 0

def omega (syn lambdaIdx : List ℕ) : List ℕ :=
  tab (nroots + 1) fun i => if i < nroots then indexOf (omegaCoeff syn lambdaIdx i) else a0

def degOmega (syn lambdaIdx : List ℕ) : ℕ := lastIdx nroots fun i => omegaCoeff syn lambdaIdx i ≠ 0

/-- `num1`: the evaluator at the root. -/
def forneyNum1 (omega : List ℕ) (degOmega root : ℕ) : UInt8 :=
  xorSum (List.range (degOmega + 1)).reverse fun i =>
    if omega.getD i a0 ≠ a0 then alphaTo (modnn (omega.getD i a0 + i * root)) else 0

def forneyNum2 (root : ℕ) : UInt8 := alphaTo (modnn (root * (fcr - 1) + nn))

/-- `den`: the odd coefficients of `lambda` at the root, from index `min(deg_lambda, NROOTS - 1) & ~1` down. -/
def forneyDen (lambdaIdx : List ℕ) (root : ℕ) : UInt8 :=
  let start := min (degLambda lambdaIdx) (nroots - 1) / 2
  xorSum ((List.range (start + 1)).reverse.map (2 * ·)) fun i =>
    if lambdaIdx.getD (i + 1) a0 ≠ a0 then alphaTo (modnn (lambdaIdx.getD (i + 1) a0 + i * root)) else 0

def xorAt (block : Bytes nn) (loc : ℕ) (v : UInt8) : Bytes nn :=
  ⟨block.1.modify loc (· ^^^ v), by simp [block.2]⟩

/-- The magnitude loop over the roots, last found first. It stops at a zero denominator with the corrections made so
far left in the block. -/
def forney (syn lambdaIdx : List ℕ) : List (ℕ × ℕ) → Bytes nn → Bool × Bytes nn
  | [], block => (true, block)
  | (root, loc) :: rest, block =>
    let num1 := forneyNum1 (omega syn lambdaIdx) (degOmega syn lambdaIdx) root
    let num2 := forneyNum2 root
    let den := forneyDen lambdaIdx root
    if den = 0 then (false, block)
    else if num1 ≠ 0 then
      forney syn lambdaIdx rest
        (xorAt block loc (alphaTo (modnn (indexOf num1 + indexOf num2 + nn - indexOf den))))
    else forney syn lambdaIdx rest block

/-- The outcome of `rs_decode`: `ret` is the corrected count, `none` for `-1`; `outLocs` is the caller's array,
`none` for a null pointer. -/
structure RsDecoded where
  ret : Option ℕ
  block : Bytes nn
  outLocs : Option (List ℤ)

def rsDecode (block : Bytes nn) (outLocs : Option (List ℤ)) : RsDecoded :=
  let syndromes := rsSyndromes block.1
  if syndromes.all (· = 0) then ⟨some 0, block, outLocs⟩
  else
    let syn := syndromes.map indexOf
    let lambdaIdx := (berlekampMassey syn).map indexOf
    let found := chienSearch lambdaIdx
    if degLambda lambdaIdx ≠ found.length then ⟨none, block, outLocs⟩
    else
      match forney syn lambdaIdx found.reverse block with
      | (false, block) => ⟨none, block, outLocs⟩
      | (true, block) =>
        ⟨some found.length, block, outLocs.map (overlay (found.map fun p => (p.2 : ℤ)))⟩

/-! ## The shortened code -/

/-- `rs_pycsp_encode`: the bytes written to `out`, `none` for `-1`. -/
def rsPycspEncode (input : List UInt8) (outCap : ℕ) : Option (List UInt8) :=
  if h : kk < input.length then none
  else if outCap < input.length + nroots then none
  else
    let padding := kk - input.length
    let buf : Bytes kk := ⟨List.replicate padding 0 ++ input, by simp [padding]; omega⟩
    some (slice (rsEncode buf).1 padding (input.length + nroots))

/-- The outcome of `rs_pycsp_decode`: the data bytes with `*out_errors` (`none` for `-1`), and `out_locs`. -/
structure PycspDecoded where
  result : Option (List UInt8 × ℕ)
  outLocs : Option (List ℤ)

theorem length_zeros_append {input : List UInt8} (h : ¬ (input.length ≤ nroots ∨ nn < input.length)) :
    (List.replicate (nn - input.length) 0 ++ input).length = nn := by
  rw [List.length_append, List.length_replicate]
  omega

def rsPycspDecode (input : List UInt8) (outCap : ℕ) (outLocs : Option (List ℤ)) : PycspDecoded :=
  if h : input.length ≤ nroots ∨ nn < input.length then ⟨none, outLocs⟩
  else if outCap < input.length - nroots then ⟨none, outLocs⟩
  else
    let dataLen := input.length - nroots
    let padding := nn - input.length
    let buf : Bytes nn := ⟨List.replicate padding 0 ++ input, length_zeros_append h⟩
    let decoded := rsDecode buf outLocs
    match decoded.ret with
    | none => ⟨none, decoded.outLocs⟩
    | some errs =>
      ⟨some (slice decoded.block.1 padding dataLen, errs),
        decoded.outLocs.map fun locs => overlay ((locs.take errs).map (· - (padding : ℤ))) locs⟩

end SimpleSatOps.Rs
