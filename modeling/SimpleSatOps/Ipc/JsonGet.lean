import SimpleSatOps.Ipc.JsonReader
import SimpleSatOps.Lib.Double

/-!
# The values of a line

* `jsonGetString`, `jsonGetInt`, `jsonGetDouble`, `jsonGetBool`, `jsonGetRaw` : the result code, and what the output
  variable holds afterwards;
* `getString`, `getInt`, `getDouble`, `getBool`, `getRaw` : the same from the value that was found;
* `jsonGetString_eq` and its siblings : the two agree, and the first one never stops.
-/

namespace SimpleSatOps.JsonReader
open Json JsonText

/-! ## Model -/

def jsonGetString (s key out : List UInt8) (outSize : ℕ) : Run (ℤ × List UInt8) := do
  match ← jsonGetField s key with
  | .absent => pure (0, out)
  | .bad => pure (-1, out)
  | .found isStr vs ve =>
      if !isStr then pure (-1, out)
      else do
        let n ← psub ve vs
        let r ← jsonUnescapeInto s vs n out outSize
        pure (if r.1 then 1 else -1, r.2)

/-- The value in `char tmp[40]`; `none` when it does not fit. -/
def readTmp (s : List UInt8) (vs ve : ℕ) : Run (Option (List UInt8)) := do
  let n ← psub ve vs
  if 40 ≤ n then pure none
  else do
    let tmp ← rdRange s vs n
    pure (some (cstr tmp))

/-- `json_get_int` and `json_get_double`, which differ in what reads `tmp`. -/
def jsonGetNumber {α : Type} (parse : List UInt8 → Option α) (s key : List UInt8) (out : α) : Run (ℤ × α) := do
  match ← jsonGetField s key with
  | .absent => pure (0, out)
  | .bad => pure (-1, out)
  | .found _ vs ve => do
      match ← readTmp s vs ve with
      | none => pure (-1, out)
      | some tmp =>
          match parse tmp with
          | none => pure (-1, out)
          | some v => pure (1, v)

def jsonGetInt : List UInt8 → List UInt8 → ℤ → Run (ℤ × ℤ) := jsonGetNumber strtol

def jsonGetDouble : List UInt8 → List UInt8 → Double → Run (ℤ × Double) := jsonGetNumber strtod

/-- `memcmp` of the `n` bytes from `vs` with a word of `n` bytes. -/
def valueIs (s : List UInt8) (vs n : ℕ) (word : List UInt8) : Run Bool :=
  if n = word.length then do
    let v ← rdRange s vs n
    pure (v == word)
  else pure false

def jsonGetBool (s key : List UInt8) (out : Bool) : Run (ℤ × Bool) := do
  match ← jsonGetField s key with
  | .absent => pure (0, out)
  | .bad => pure (-1, out)
  | .found _ vs ve => do
      let n ← psub ve vs
      if ← valueIs s vs n (text "true") then pure (1, true)
      else if ← valueIs s vs n (text "false") then pure (1, false)
      else pure (-1, out)

def jsonGetRaw (s key out : List UInt8) (outSize : ℕ) : Run (ℤ × List UInt8) := do
  match ← jsonGetField s key with
  | .absent => pure (0, out)
  | .bad => pure (-1, out)
  | .found isStr vs ve => do
      let n ← psub ve vs
      if isStr then
        if outSize ≤ n + 2 then pure (-1, out)
        else do
          let v ← rdRange s vs n
          let out ← copyInto out (quoted v ++ [0]) (n + 3)
          pure (1, out)
      else
        if outSize ≤ n then pure (-1, out)
        else do
          let v ← rdRange s vs n
          let out ← copyInto out (v ++ [0]) (n + 1)
          pure (1, out)

/-! ## The same from the value -/

/-- `json_unescape_into` on the value: a value that is too long leaves what fits. -/
def unescapeInto (v out : List UInt8) (outSize : ℕ) : Bool × List UInt8 :=
  if (unescape v).length < outSize then (true, overlay (unescape v ++ [0]) out)
  else (false, overlay ((unescape v).take (outSize - 1)) out)

def getString (out : List UInt8) (outSize : ℕ) : Found → ℤ × List UInt8
  | .absent => (0, out)
  | .bad => (-1, out)
  | .found false _ => (-1, out)
  | .found true v => (if (unescapeInto v out outSize).1 then 1 else -1, (unescapeInto v out outSize).2)

def getNumber {α : Type} (parse : List UInt8 → Option α) (out : α) : Found → ℤ × α
  | .absent => (0, out)
  | .bad => (-1, out)
  | .found _ v => if 40 ≤ v.length then (-1, out) else (parse (cstr v)).elim (-1, out) fun x => (1, x)

def getInt : ℤ → Found → ℤ × ℤ := getNumber strtol

def getDouble : Double → Found → ℤ × Double := getNumber strtod

def getBool (out : Bool) : Found → ℤ × Bool
  | .absent => (0, out)
  | .bad => (-1, out)
  | .found _ v => if v = text "true" then (1, true) else if v = text "false" then (1, false) else (-1, out)

def getRaw (out : List UInt8) (outSize : ℕ) : Found → ℤ × List UInt8
  | .absent => (0, out)
  | .bad => (-1, out)
  | .found isStr v =>
      let raw := if isStr then quoted v else v
      if outSize ≤ raw.length then (-1, out) else (1, overlay (raw ++ [0]) out)

/-! ## The copy -/

theorem unescapeFrom_skip (k : ℕ) (s : List UInt8) : unescapeFrom k false s = unescape (s.drop k) := by
  unfold unescape
  induction k generalizing s with
  | zero => rfl
  | succ k ih =>
      cases s with
      | nil => rfl
      | cons c s => exact ih s

theorem overlay_set {pre buf : List UInt8} {i : ℕ} (hi : pre.length = i) (h : i < buf.length) (c : UInt8) :
    (overlay pre buf).set i c = overlay (pre ++ [c]) buf := by
  subst hi
  unfold overlay
  rw [List.set_append_right _ _ le_rfl, Nat.sub_self, List.drop_eq_getElem_cons h, List.set_cons_zero,
    List.length_append, List.append_assoc]
  rfl

theorem put_overlay {pre buf : List UInt8} {i : ℕ} (hi : pre.length = i) (h : i < buf.length) (c : UInt8) :
    put (overlay pre buf) i c = .ok (overlay (pre ++ [c]) buf) := by
  have hlen : (overlay pre buf).length = buf.length := length_overlay (by omega)
  rw [put_of_lt (by omega), overlay_set hi h]

/-- What the copy leaves when `x` is all it has to write. -/
def copied (x out : List UInt8) (outSize : ℕ) : Bool × List UInt8 :=
  if x.length < outSize then (true, overlay (x ++ [0]) out) else (false, overlay (x.take (outSize - 1)) out)

theorem copied_of_full {pre x out : List UInt8} {outSize : ℕ} (hpre : pre.length < outSize)
    (hfull : outSize ≤ pre.length + 1) (hx : x ≠ []) : copied (pre ++ x) out outSize = (false, overlay pre out) := by
  have hpos := List.length_pos_iff.mpr hx
  rw [copied, if_neg (by rw [List.length_append]; omega), List.take_append_of_le_length (by omega),
    List.take_of_length_le (by omega)]

/-- The copy of what is left of the value, with `pre` written. -/
theorem unescapeLoop_at {s w t pre out : List UInt8} {vs n outSize i : ℕ} (h : At s (vs + i) (w ++ t))
    (hn : i + w.length = n) (hout : out.length = outSize) (hpre : pre.length < outSize) {fuel : ℕ}
    (hf : w.length < fuel) :
    unescapeLoop s vs n outSize fuel i pre.length (overlay pre out) =
      .ok (copied (pre ++ unescape w) out outSize) := by
  induction fuel generalizing w pre i with
  | zero => exact absurd hf (Nat.not_lt_zero _)
  | succ fuel ih =>
      -- one more byte is written, and `w'` is left
      have hstep : ∀ {w' : List UInt8} {i' : ℕ} (c : UInt8), At s (vs + i') (w' ++ t) → i' + w'.length = n →
          w'.length < fuel → unescape w = c :: unescape w' → ¬ outSize ≤ pre.length + 1 →
          unescapeLoop s vs n outSize fuel i' (pre.length + 1) (overlay (pre ++ [c]) out) =
            .ok (copied (pre ++ unescape w) out outSize) := by
        intro w' i' c hat hn' hlt heq hroom
        have hlen : (pre ++ [c]).length = pre.length + 1 := by simp
        have hrec : unescapeLoop s vs n outSize fuel i' (pre ++ [c]).length (overlay (pre ++ [c]) out) =
            .ok (copied (pre ++ [c] ++ unescape w') out outSize) := ih hat hn' (by omega) hlt
        rw [hlen] at hrec
        rw [hrec, heq, List.append_assoc, List.singleton_append]
      cases w with
      | nil =>
          rw [List.length_nil, Nat.add_zero] at hn
          rw [unescapeLoop, if_neg (by omega), put_overlay rfl (by omega)]
          show Except.ok _ = _
          rw [show unescape [] = [] from rfl, List.append_nil, copied, if_pos hpre]
      | cons c w =>
          rw [List.length_cons] at hn hf
          rw [unescapeLoop, if_pos (by omega), h.rd]
          show ite _ _ _ = _
          have hnext : At s (vs + (i + 1)) (w ++ t) := h.next
          by_cases hesc : c = byte '\\' ∧ i + 1 < n
          · rw [if_pos hesc]
            obtain ⟨rfl, hlt⟩ := hesc
            cases w with
            | nil =>
                rw [List.length_nil] at hn
                omega
            | cons e w =>
                rw [List.length_cons] at hn hf
                have hcond : byte '\\' = byte '\\' ∧ e :: w ≠ [] := ⟨rfl, List.cons_ne_nil _ _⟩
                have hnext₂ : At s (vs + (i + 2)) (w ++ t) := hnext.next
                rw [hnext.rd]
                show ite _ _ _ = _
                by_cases hroom : outSize ≤ pre.length + 1
                · have hne : unescape (byte '\\' :: e :: w) ≠ [] := by
                    unfold unescape
                    rw [unescapeFrom, if_pos hcond, unescapeFrom]
                    split_ifs <;> exact List.cons_ne_nil _ _
                  rw [if_pos hroom, copied_of_full hpre hroom hne]
                  rfl
                · rw [if_neg hroom]
                  by_cases hu : e = byte 'u'
                  · subst hu
                    rw [if_pos rfl, put_overlay rfl (by omega)]
                    show unescapeLoop _ _ _ _ _ _ _ _ = _
                    by_cases hdigits : i + 5 < n
                    · have hfour : At s (vs + (i + 6)) (w.drop 4 ++ t) := by
                        have hlen := hnext₂.length_eq
                        rw [List.length_append] at hlen
                        refine ⟨by omega, ?_⟩
                        rw [show vs + (i + 6) = vs + (i + 2) + 4 by omega, ← List.drop_drop, hnext₂.2,
                          List.drop_append_of_le_length (by omega)]
                      rw [if_pos hdigits]
                      apply hstep (byte '?') hfour (by rw [List.length_drop]; omega)
                        (by rw [List.length_drop]; omega) ?_ hroom
                      unfold unescape
                      rw [unescapeFrom, if_pos hcond, unescapeFrom, if_pos rfl, if_pos (by omega),
                        unescapeFrom_skip]
                      rfl
                    · rw [if_neg hdigits]
                      apply hstep (byte '?') hnext₂ (by omega) (by omega) ?_ hroom
                      unfold unescape
                      rw [unescapeFrom, if_pos hcond, unescapeFrom, if_pos rfl, if_neg (by omega)]
                  · rw [if_neg hu, put_overlay rfl (by omega)]
                    apply hstep (unescapeChar e) hnext₂ (by omega) (by omega) ?_ hroom
                    unfold unescape
                    rw [unescapeFrom, if_pos hcond, unescapeFrom, if_neg hu]
          · have heq : unescape (c :: w) = c :: unescape w := by
              unfold unescape
              rw [unescapeFrom, if_neg]
              rintro ⟨hc, hw⟩
              have := List.length_pos_iff.mpr hw
              exact hesc ⟨hc, by omega⟩
            rw [if_neg hesc]
            by_cases hroom : outSize ≤ pre.length + 1
            · rw [if_pos hroom, heq, copied_of_full hpre hroom (List.cons_ne_nil _ _)]
              rfl
            · rw [if_neg hroom, put_overlay rfl (by omega)]
              exact hstep c hnext (by omega) (by omega) heq hroom

theorem jsonUnescapeInto_eq {s v out : List UInt8} {vs n outSize : ℕ} (hlen : v.length = n) (hle : vs + n ≤ s.length)
    (hv : slice s vs n = v) (hout : out.length = outSize) (hpos : 0 < outSize) :
    jsonUnescapeInto s vs n out outSize = .ok (unescapeInto v out outSize) := by
  have hat : At s (vs + 0) (v ++ s.drop (vs + n)) := by
    refine ⟨by omega, ?_⟩
    rw [← hv, slice, Nat.add_zero, ← List.drop_drop, List.take_append_drop]
  unfold jsonUnescapeInto
  rw [if_neg (by omega)]
  show unescapeLoop s vs n outSize (n + 1) 0 ([] : List UInt8).length (overlay [] out) =
    .ok (copied ([] ++ unescape v) out outSize)
  have hnil : ([] : List UInt8).length < outSize := hpos
  exact unescapeLoop_at hat (by omega) hout hnil (by omega)

/-! ## The getters -/

theorem jsonGetString_eq (s key : List UInt8) {out : List UInt8} {outSize : ℕ} (hout : out.length = outSize)
    (hpos : 0 < outSize) : jsonGetString s key out outSize = .ok (getString out outSize (getField s key)) := by
  obtain ⟨l, hl, hat⟩ := jsonGetField_at s key
  unfold jsonGetString
  rw [hl]
  generalize getField s key = f at hat
  cases hat with
  | absent => rfl
  | bad => rfl
  | @found isStr vs ve v hve hle hv =>
      subst hve
      cases isStr with
      | false => rfl
      | true =>
          show (do let n ← psub (vs + v.length) vs; _) = _
          rw [psub_of_le (Nat.le_add_right _ _), Nat.add_sub_cancel_left]
          show (do let r ← jsonUnescapeInto s vs v.length out outSize; _) = _
          rw [jsonUnescapeInto_eq rfl hle hv hout hpos]
          rfl

theorem readTmp_eq {s v : List UInt8} {vs : ℕ} (hle : vs + v.length ≤ s.length) (hv : slice s vs v.length = v) :
    readTmp s vs (vs + v.length) = .ok (if 40 ≤ v.length then none else some (cstr v)) := by
  unfold readTmp
  rw [psub_of_le (Nat.le_add_right _ _), Nat.add_sub_cancel_left]
  show ite _ _ _ = _
  split_ifs with h
  · rfl
  · rw [rdRange_of_le hle, hv]
    rfl

theorem jsonGetNumber_eq {α : Type} (parse : List UInt8 → Option α) (s key : List UInt8) (out : α) :
    jsonGetNumber parse s key out = .ok (getNumber parse out (getField s key)) := by
  obtain ⟨l, hl, hat⟩ := jsonGetField_at s key
  unfold jsonGetNumber
  rw [hl]
  generalize getField s key = f at hat
  cases hat with
  | absent => rfl
  | bad => rfl
  | @found isStr vs ve v hve hle hv =>
      subst hve
      show (do let t ← readTmp s vs (vs + v.length); _) = _
      rw [readTmp_eq hle hv, getNumber]
      split_ifs with h
      · rfl
      · show (match parse (cstr v) with | none => _ | some v => _) = _
        cases parse (cstr v) <;> rfl

theorem valueIs_eq {s v : List UInt8} {vs : ℕ} (hle : vs + v.length ≤ s.length) (hv : slice s vs v.length = v)
    (word : List UInt8) : valueIs s vs v.length word = .ok (v == word) := by
  unfold valueIs
  split_ifs with h
  · rw [rdRange_of_le hle, hv]
    rfl
  · have hne : v ≠ word := by
      rintro rfl
      exact h rfl
    rw [beq_eq_false_iff_ne.mpr hne]
    rfl

theorem jsonGetBool_eq (s key : List UInt8) (out : Bool) :
    jsonGetBool s key out = .ok (getBool out (getField s key)) := by
  obtain ⟨l, hl, hat⟩ := jsonGetField_at s key
  unfold jsonGetBool
  rw [hl]
  generalize getField s key = f at hat
  cases hat with
  | absent => rfl
  | bad => rfl
  | @found isStr vs ve v hve hle hv =>
      subst hve
      show (do let n ← psub (vs + v.length) vs; _) = _
      rw [psub_of_le (Nat.le_add_right _ _), Nat.add_sub_cancel_left]
      show (do let b ← valueIs s vs v.length (text "true"); _) = _
      rw [valueIs_eq hle hv, valueIs_eq hle hv, getBool]
      by_cases ht : v = text "true"
      · rw [if_pos ht, beq_iff_eq.mpr ht]
        rfl
      · rw [if_neg ht, beq_eq_false_iff_ne.mpr ht]
        by_cases hf : v = text "false"
        · rw [if_pos hf, beq_iff_eq.mpr hf]
          rfl
        · rw [if_neg hf, beq_eq_false_iff_ne.mpr hf]
          rfl

theorem jsonGetRaw_eq (s key : List UInt8) {out : List UInt8} {outSize : ℕ} (hout : out.length = outSize) :
    jsonGetRaw s key out outSize = .ok (getRaw out outSize (getField s key)) := by
  obtain ⟨l, hl, hat⟩ := jsonGetField_at s key
  unfold jsonGetRaw
  rw [hl]
  generalize getField s key = f at hat
  cases hat with
  | absent => rfl
  | bad => rfl
  | @found isStr vs ve v hve hle hv =>
      subst hve
      show (do let n ← psub (vs + v.length) vs; _) = _
      rw [psub_of_le (Nat.le_add_right _ _), Nat.add_sub_cancel_left]
      have hquoted : (quoted v).length = v.length + 2 := by simp [quoted]
      cases isStr with
      | true =>
          show ite _ _ _ = Except.ok (ite _ _ _)
          rw [if_pos rfl, hquoted]
          split_ifs with h
          · rfl
          · rw [rdRange_of_le hle, hv]
            show (do let o ← copyInto out (quoted v ++ [0]) (v.length + 3); _) = _
            rw [copyInto_of_le (by omega) (by simp [hquoted]), List.take_of_length_le (by simp [hquoted])]
            rfl
      | false =>
          show ite _ _ _ = Except.ok (ite _ _ _)
          rw [if_neg Bool.false_ne_true]
          split_ifs with h
          · rfl
          · rw [rdRange_of_le hle, hv]
            show (do let o ← copyInto out (v ++ [0]) (v.length + 1); _) = _
            rw [copyInto_of_le (by omega) (by simp), List.take_of_length_le (by simp)]
            rfl

end SimpleSatOps.JsonReader
