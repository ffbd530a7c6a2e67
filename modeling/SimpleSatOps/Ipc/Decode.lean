import SimpleSatOps.Ipc.Event
import SimpleSatOps.Ipc.JsonGet

/-!
# Decoding an event

* `decodeSlot` : what `sso_event_decode` does for one key;
* `ssoEventDecode` : the decoder on a C string, which stops where it reads or writes outside an array;
* `step`, `decode` : the same from the values that were found;
* `ssoEventDecode_eq` : the decoder never stops, and gives `decode`.
-/

namespace SimpleSatOps.Ipc
open JsonText JsonReader

/-! ## Model -/

/-- `strlen(buf)`: the NUL has to stand in the array. -/
def strlen (buf : List UInt8) : Run ℕ := if 0 ∈ buf then .ok (cstr buf).length else .error .overread

/-- An array that was written keeps its size. -/
def asArray (n : ℕ) (buf : List UInt8) : Run (Bytes n) := if h : buf.length = n then .ok ⟨buf, h⟩ else .error .overwrite

def hexNibble (c : UInt8) : ℕ :=
  if byte '0' ≤ c ∧ c ≤ byte '9' then c.toNat - 0x30
  else if byte 'A' ≤ c ∧ c ≤ byte 'F' then c.toNat - 0x41 + 10
  else if byte 'a' ≤ c ∧ c ≤ byte 'f' then c.toNat - 0x61 + 10
  else 0

/-- `for (b = ...; b < bytes; ++b)`: two digits for each byte, `n` bytes to go. -/
def hexLoop (hex : List UInt8) : (n b : ℕ) → (out : List UInt8) → Run (List UInt8)
  | 0, _, out => pure out
  | n + 1, b, out => do
      let hi ← rd hex (b * 2)
      let lo ← rd hex (b * 2 + 1)
      let out ← put out b (UInt8.ofNat (hexNibble hi * 16 + hexNibble lo))
      hexLoop hex n (b + 1) out

/-- A hexadecimal string into an array of `max` bytes. -/
def decodeHex {max : ℕ} (hex : List UInt8) (out : Bytes max) : Run (Bytes max) := do
  let hl ← strlen hex
  let buf ← hexLoop hex (min (hl / 2) max) 0 out.1
  asArray max buf

/-- The value of a C type a `long` is converted to. -/
def IntKind.wrap : IntKind → ℤ → ℤ
  | .long, z => (z + 2 ^ 63) % 2 ^ 64 - 2 ^ 63
  | .int, z => (z + 2 ^ 31) % 2 ^ 32 - 2 ^ 31
  | .uint8, z => z % 2 ^ 8

theorem IntKind.wrap_mem (k : IntKind) (z : ℤ) : k.min ≤ k.wrap z ∧ k.wrap z ≤ k.max := by
  cases k <;> simp only [IntKind.min, IntKind.max, IntKind.wrap] <;> omega

def IntKind.narrow (k : IntKind) (z : ℤ) : k.Val := ⟨k.wrap z, k.wrap_mem z⟩

/-- The keys that set `has_state` when they are found. -/
def marksState : Slot → Bool
  | .str .satellite | .str .source | .str .rxStatus | .str .txStatus | .str .tlePath | .str .idesg => true
  | .dbl .az | .dbl .el | .dbl .dopplerHz | .dbl .targetAz | .dbl .targetEl | .dbl .julUtc | .dbl .epochMin
  | .dbl .minVisible | .dbl .minAbove0 | .dbl .minAbove30 | .dbl .maxEl | .dbl .predAz | .dbl .predEl | .dbl .altKm
  | .dbl .latDeg | .dbl .lonDeg | .dbl .speedKms | .dbl .rangeKm | .dbl .rangeRateKms => true
  | .int .freqHz | .roster => true
  | _ => false

namespace Event
variable (e : Event)

/-- `if (... > 0) evt->has_state = 1`, where the source has it. -/
def mark (s : Slot) (r : ℤ) : Event := if 0 < r ∧ marksState s then { e with hasState := true } else e

def setStr (f : StrField) (buf : Bytes f.size) : Event := { e with str := Function.update e.str f buf }

def setDbl (f : DblField) (x : Double) : Event := { e with dbl := Function.update e.dbl f x }

def setInt (f : IntField) (z : f.kind.Val) : Event := { e with int := Function.update e.int f z }

def setFlag (f : FlagField) (b : Bool) : Event := { e with flag := Function.update e.flag f b }

def setPayload (s : Fin ptSlots) (buf : Bytes payloadMax) : Event :=
  { e with rxPtPayload := Function.update e.rxPtPayload s buf }

end Event

/-- `if (n > SSO_RIBBON_MAX) n = SSO_RIBBON_MAX`. -/
def ribbonLen (n : ℕ) : IntKind.int.Val := ⟨min n ribbonMax, by simp only [IntKind.min, IntKind.max, ribbonMax]; omega⟩

/-- What `sso_event_decode` does for one key of the line `s`. -/
def decodeSlot (s : List UInt8) (e : Event) : Slot → Run Event
  | .type => pure e
  | .str f => do
      let r ← jsonGetString s (Slot.str f).key (e.str f).1 f.size
      let buf ← asArray f.size r.2
      let e := (e.setStr f buf).mark (.str f) r.1
      if 0 < r.1 ∧ f = .rxRibbon then do
        let n ← strlen r.2
        pure { e with rxRibbonN := ribbonLen n }
      else pure e
  | .dbl f => do
      let r ← jsonGetDouble s (Slot.dbl f).key (e.dbl f)
      let x := if r.1 ≤ 0 ∧ f = .rxAgeS then Double.minusOne else r.2
      pure ((e.setDbl f x).mark (.dbl f) r.1)
  | .int f => do
      let r ← jsonGetInt s (Slot.int f).key 0
      pure ((if 0 < r.1 then e.setInt f (f.kind.narrow r.2) else e).mark (.int f) r.1)
  | .flag f => do
      let r ← jsonGetBool s (Slot.flag f).key false
      pure (if 0 < r.1 then e.setFlag f r.2 else e)
  | .roster => do
      let r ← jsonGetRaw s Slot.roster.key e.rosterJson.1 rosterMax
      let buf ← asArray rosterMax r.2
      pure ({ e with rosterJson := buf }.mark .roster r.1)
  | .payload i => do
      let r ← jsonGetString s (Slot.payload i).key (zeros (payloadMax * 2 + 1)).1 (payloadMax * 2 + 1)
      if 0 < r.1 then do
        let buf ← decodeHex r.2 (e.rxPtPayload i)
        pure (e.setPayload i buf)
      else pure e
  | .ribbonPeak => do
      let r ← jsonGetString s Slot.ribbonPeak.key (zeros (ribbonMax * 2 + 1)).1 (ribbonMax * 2 + 1)
      if 0 < r.1 then do
        let buf ← decodeHex r.2 e.rxRibbonPeak
        pure { e with rxRibbonPeak := buf }
      else pure e

/-- The size of `char t[32]`. -/
def typeMax : ℕ := 32

/-- `sso_event_decode` on the string in `line`; `none` for -1. -/
def ssoEventDecode (line : List UInt8) : Run (Option Event) := do
  let s := cstr line
  -- `t` is not initialised; it is read only when a string was written into it
  let r ← jsonGetString s Slot.type.key (zeros typeMax).1 typeMax
  if r.1 ≤ 0 then pure none
  else do
    let e ← slots.foldlM (decodeSlot s) { Event.zero with type := ssoEventTypeFromName (cstr r.2) }
    pure (some e)

/-! ## The same from the values -/

/-- `n` bytes from the digits of `hex`. -/
def hexBytes (n : ℕ) (hex : List UInt8) : List UInt8 :=
  tab n fun b => UInt8.ofNat (hexNibble (hex.getD (b * 2) 0) * 16 + hexNibble (hex.getD (b * 2 + 1) 0))

def hexInto {max : ℕ} (hex : List UInt8) (out : Bytes max) : Bytes max :=
  ⟨overlay (hexBytes (min ((cstr hex).length / 2) max) hex) out.1, by
    rw [length_overlay] <;> rw [out.2]
    rw [hexBytes, length_tab]
    exact min_le_right _ _⟩

theorem length_unescapeInto (v : List UInt8) {out : List UInt8} {n : ℕ} (h : out.length = n) :
    (unescapeInto v out n).2.length = n := by
  unfold unescapeInto
  split_ifs with hfit
  · rw [length_overlay, h]
    rw [List.length_append, List.length_singleton]
    omega
  · rw [length_overlay, h]
    rw [List.length_take]
    omega

theorem length_getString {out : List UInt8} {n : ℕ} (h : out.length = n) (f : Found) :
    (getString out n f).2.length = n := by
  cases f with
  | absent => exact h
  | bad => exact h
  | found isStr v =>
      cases isStr with
      | false => exact h
      | true => exact length_unescapeInto v h

theorem length_getRaw {out : List UInt8} {n : ℕ} (h : out.length = n) (f : Found) : (getRaw out n f).2.length = n := by
  cases f with
  | absent => exact h
  | bad => exact h
  | found isStr v =>
      unfold getRaw
      simp only
      generalize (if isStr then Json.quoted v else v) = raw
      split_ifs with hfit
      · exact h
      · rw [length_overlay, h]
        rw [List.length_append, List.length_singleton]
        omega

/-- `decodeSlot` from what was found. -/
def step (v : Found) (e : Event) : Slot → Event
  | .type => e
  | .str f =>
      let r := getString (e.str f).1 f.size v
      let e := (e.setStr f ⟨r.2, length_getString (e.str f).2 v⟩).mark (.str f) r.1
      if 0 < r.1 ∧ f = .rxRibbon then { e with rxRibbonN := ribbonLen (cstr r.2).length } else e
  | .dbl f =>
      let r := getDouble (e.dbl f) v
      (e.setDbl f (if r.1 ≤ 0 ∧ f = .rxAgeS then Double.minusOne else r.2)).mark (.dbl f) r.1
  | .int f =>
      let r := getInt 0 v
      (if 0 < r.1 then e.setInt f (f.kind.narrow r.2) else e).mark (.int f) r.1
  | .flag f =>
      let r := getBool false v
      if 0 < r.1 then e.setFlag f r.2 else e
  | .roster =>
      let r := getRaw e.rosterJson.1 rosterMax v
      { e with rosterJson := ⟨r.2, length_getRaw e.rosterJson.2 v⟩ }.mark .roster r.1
  | .payload i =>
      let r := getString (zeros (payloadMax * 2 + 1)).1 (payloadMax * 2 + 1) v
      if 0 < r.1 then e.setPayload i (hexInto r.2 (e.rxPtPayload i)) else e
  | .ribbonPeak =>
      let r := getString (zeros (ribbonMax * 2 + 1)).1 (ribbonMax * 2 + 1) v
      if 0 < r.1 then { e with rxRibbonPeak := hexInto r.2 e.rxRibbonPeak } else e

/-- The event from the value of every key. -/
def decode (get : List UInt8 → Found) : Option Event :=
  let r := getString (zeros typeMax).1 typeMax (get Slot.type.key)
  if r.1 ≤ 0 then none
  else some (slots.foldl (fun e s => step (get s.key) e s)
    { Event.zero with type := ssoEventTypeFromName (cstr r.2) })

/-! ## The decoder never stops -/

theorem asArray_of_length {n : ℕ} {buf : List UInt8} (h : buf.length = n) : asArray n buf = .ok ⟨buf, h⟩ := dif_pos h

theorem strlen_of_mem {buf : List UInt8} (h : 0 ∈ buf) : strlen buf = .ok (cstr buf).length := if_pos h

theorem rd_of_lt {s : List UInt8} {p : ℕ} (h : p < s.length) : rd s p = .ok (s.getD p 0) := by
  rw [rd, List.getElem?_eq_getElem h, List.getD_eq_getElem?_getD, List.getElem?_eq_getElem h]
  rfl

theorem hexLoop_eq {hex out : List UInt8} {n b : ℕ} (hhex : (b + n) * 2 ≤ hex.length) (hout : b + n ≤ out.length)
    {pre : List UInt8} (hpre : pre.length = b) :
    hexLoop hex n b (overlay pre out) =
      .ok (overlay (pre ++ tab n fun i => UInt8.ofNat (hexNibble (hex.getD ((b + i) * 2) 0) * 16 +
        hexNibble (hex.getD ((b + i) * 2 + 1) 0))) out) := by
  induction n generalizing b pre with
  | zero =>
      rw [hexLoop, show (tab 0 _ : List UInt8) = [] from rfl, List.append_nil]
      rfl
  | succ n ih =>
      rw [hexLoop, rd_of_lt (by omega), rd_of_lt (by omega)]
      show (put (overlay pre out) b _ >>= _) = _
      rw [put_overlay hpre (by omega)]
      show hexLoop hex n (b + 1) _ = _
      rw [ih (by omega) (by omega) (by rw [List.length_append, hpre]; rfl), tab_succ, List.append_assoc,
        List.singleton_append]
      simp only [Nat.add_zero, Nat.add_right_comm b _ 1, ← Nat.add_assoc]

theorem decodeHex_eq {max : ℕ} {hex : List UInt8} (h : 0 ∈ hex) (out : Bytes max) :
    decodeHex hex out = .ok (hexInto hex out) := by
  have hlen : (cstr hex).length ≤ hex.length := (List.takeWhile_sublist _).length_le
  have hmax := out.2
  have hmin := Nat.min_le_left ((cstr hex).length / 2) max
  have hmin' := Nat.min_le_right ((cstr hex).length / 2) max
  have hread : (0 + min ((cstr hex).length / 2) max) * 2 ≤ hex.length := by omega
  have hwrite : 0 + min ((cstr hex).length / 2) max ≤ out.1.length := by omega
  unfold decodeHex
  rw [strlen_of_mem h]
  show (hexLoop hex _ 0 (overlay [] out.1) >>= _) = _
  rw [hexLoop_eq hread hwrite List.length_nil]
  simp only [Nat.zero_add, List.nil_append]
  exact asArray_of_length (hexInto hex out).2

/-- What the getter leaves in an array of zeros is a C string. -/
theorem nul_mem_getString {n : ℕ} (hn : 0 < n) (f : Found) : 0 ∈ (getString (zeros n).1 n f).2 := by
  have hzero : (0 : UInt8) ∈ (zeros n).1 := List.mem_replicate.mpr ⟨hn.ne', rfl⟩
  cases f with
  | absent => exact hzero
  | bad => exact hzero
  | found isStr v =>
      cases isStr with
      | false => exact hzero
      | true =>
          show 0 ∈ (unescapeInto v (zeros n).1 n).2
          unfold unescapeInto overlay
          split_ifs with hfit
          · exact List.mem_append_left _ (List.mem_append_right _ List.mem_cons_self)
          · -- the last byte is not reached
            apply List.mem_append_right
            have hlen : (List.take (n - 1) (unescape v)).length < n := by
              rw [List.length_take]
              omega
            show 0 ∈ (List.replicate n 0).drop _
            rw [List.drop_replicate]
            exact List.mem_replicate.mpr ⟨by omega, rfl⟩

/-- A string that was found is terminated, whatever the array held. -/
theorem nul_mem_of_found {out : List UInt8} {n : ℕ} {f : Found} (h : 0 < (getString out n f).1) :
    0 ∈ (getString out n f).2 := by
  cases f with
  | absent => exact absurd h (lt_irrefl 0)
  | bad => exact absurd h (by show ¬ (0 : ℤ) < -1; decide)
  | found isStr v =>
      cases isStr with
      | false => exact absurd h (by show ¬ (0 : ℤ) < -1; decide)
      | true =>
          by_cases hfit : (unescape v).length < n
          · have hok : unescapeInto v out n = (true, overlay (unescape v ++ [0]) out) := if_pos hfit
            rw [getString, hok]
            exact List.mem_append_left _ (List.mem_append_right _ List.mem_cons_self)
          · have hfail : unescapeInto v out n = (false, overlay ((unescape v).take (n - 1)) out) := if_neg hfit
            rw [getString, hfail] at h
            exact absurd h (by show ¬ (0 : ℤ) < -1; decide)

/-- One key. -/
theorem decodeSlot_eq (s : List UInt8) (e : Event) (slot : Slot) :
    decodeSlot s e slot = .ok (step (getField s slot.key) e slot) := by
  cases slot with
  | type => rfl
  | str f =>
      rw [decodeSlot, jsonGetString_eq s _ (e.str f).2 (size_pos f)]
      show (asArray f.size _ >>= _) = _
      rw [asArray_of_length (length_getString (e.str f).2 _)]
      show ite _ _ _ = Except.ok (ite _ _ _)
      split_ifs with hfound
      · rw [strlen_of_mem (nul_mem_of_found hfound.1)]
        rfl
      · rfl
  | dbl f =>
      rw [decodeSlot, jsonGetDouble, jsonGetNumber_eq]
      rfl
  | int f =>
      rw [decodeSlot, jsonGetInt, jsonGetNumber_eq]
      rfl
  | flag f =>
      rw [decodeSlot, jsonGetBool_eq]
      rfl
  | roster =>
      rw [decodeSlot, jsonGetRaw_eq s _ e.rosterJson.2]
      show (asArray rosterMax _ >>= _) = _
      rw [asArray_of_length (length_getRaw e.rosterJson.2 _)]
      rfl
  | payload i =>
      rw [decodeSlot, jsonGetString_eq s _ (zeros _).2 (by decide)]
      show ite _ _ _ = Except.ok (ite _ _ _)
      split_ifs with hfound
      · rw [decodeHex_eq (nul_mem_of_found hfound)]
        rfl
      · rfl
  | ribbonPeak =>
      rw [decodeSlot, jsonGetString_eq s _ (zeros _).2 (by decide)]
      show ite _ _ _ = Except.ok (ite _ _ _)
      split_ifs with hfound
      · rw [decodeHex_eq (nul_mem_of_found hfound)]
        rfl
      · rfl

theorem foldlM_decodeSlot (s : List UInt8) (l : List Slot) (e : Event) :
    l.foldlM (decodeSlot s) e = .ok (l.foldl (fun e slot => step (getField s slot.key) e slot) e) := by
  induction l generalizing e with
  | nil => rfl
  | cons slot l ih =>
      rw [List.foldlM_cons, decodeSlot_eq]
      exact ih _

/-- The decoder never stops, and what it gives depends on the values of the keys only. -/
theorem ssoEventDecode_eq (line : List UInt8) : ssoEventDecode line = .ok (decode (getField (cstr line))) := by
  unfold ssoEventDecode
  simp only
  rw [jsonGetString_eq (cstr line) _ (zeros typeMax).2 (by decide)]
  show ite _ _ _ = Except.ok (ite _ _ _)
  split_ifs with hr
  · rfl
  · rw [foldlM_decodeSlot]
    rfl

end SimpleSatOps.Ipc
