import Mathlib.Data.List.DropRight
import SimpleSatOps.Ipc.JsonText
import SimpleSatOps.Lib.Run

/-!
# Reading a line of JSON: positions in the line

The reader of `sso_ipc_codec.c` with its positions; `s` is the line as `strlen` measures it, and a read at or behind its
end stops the run.

* `jsonSkipWs`, `jsonSkipString`, `jsonSkipValue` : the new position, `none` for -1;
* `jsonGetField` : where the value of a key stands;
* `jsonUnescapeInto` : the copy into a buffer;
* `jsonGetField_eq` : the reader agrees with the one on the text that is left, and never stops.
-/

namespace SimpleSatOps.JsonReader
open Json JsonText

/-! ## Model -/

def jsonSkipWs (s : List UInt8) : (fuel : ℕ) → (p : ℕ) → Run ℕ
  | 0, _ => .error .fuel
  | fuel + 1, p =>
      if p < s.length then do
        let c ← rd s p
        if isWs c then jsonSkipWs s fuel (p + 1) else pure p
      else pure p

/-- The loop of `json_skip_string`, behind the opening quote. -/
def skipStringLoop (s : List UInt8) : (fuel : ℕ) → (p : ℕ) → Run (Option ℕ)
  | 0, _ => .error .fuel
  | fuel + 1, p =>
      if p < s.length then do
        let c ← rd s p
        if c = byte '\\' then skipStringLoop s fuel (if p + 1 < s.length then p + 2 else p + 1)
        else if c = byte '"' then pure (some (p + 1))
        else skipStringLoop s fuel (p + 1)
      else pure none

def jsonSkipString (s : List UInt8) (p : ℕ) : Run (Option ℕ) :=
  if p < s.length then do
    let c ← rd s p
    if c = byte '"' then skipStringLoop s (s.length + 1) (p + 1) else pure none
  else pure none

/-- The loop of `json_skip_value` over an array or an object. -/
def skipBracketLoop (s : List UInt8) (op cl : UInt8) : (fuel depth p : ℕ) → Run (Option ℕ)
  | 0, _, _ => .error .fuel
  | fuel + 1, depth, p =>
      if p < s.length then do
        let c ← rd s p
        if c = byte '"' then do
          match ← jsonSkipString s p with
          | none => pure none
          | some p => skipBracketLoop s op cl fuel depth p
        else if c = op then skipBracketLoop s op cl fuel (depth + 1) (p + 1)
        else if c = cl then
          -- the first byte was `op`, so `depth` is not 0 before the decrement
          if depth = 1 then pure (some (p + 1)) else skipBracketLoop s op cl fuel (depth - 1) (p + 1)
        else skipBracketLoop s op cl fuel depth (p + 1)
      else pure none

/-- The loop of `json_skip_value` over a number or a word. -/
def skipWordLoop (s : List UInt8) : (fuel p : ℕ) → Run (Option ℕ)
  | 0, _ => .error .fuel
  | fuel + 1, p =>
      if p < s.length then do
        let c ← rd s p
        if isDelim c then pure (some p) else skipWordLoop s fuel (p + 1)
      else pure (some p)

def jsonSkipValue (s : List UInt8) (p : ℕ) : Run (Option ℕ) := do
  let p ← jsonSkipWs s (s.length + 1) p
  if p < s.length then do
    let c ← rd s p
    if c = byte '"' then jsonSkipString s p
    else if c = byte '{' ∨ c = byte '[' then skipBracketLoop s c (closing c) (s.length + 1) 0 p
    else skipWordLoop s (s.length + 1) p
  else pure none

/-- What a look for a key gives: where the value stands, without the quotes of a string. -/
inductive Lookup
  | absent
  | bad
  | found (isStr : Bool) (valStart valEnd : ℕ)
deriving DecidableEq

/-- One turn of the loop of `json_get_field`: a key and the value behind it. -/
inductive Turn
  | stop (r : Lookup)
  | member (kstart klen : ℕ) (isStr : Bool) (vstart vend : ℕ)

/-- Whether the next byte is `c`. -/
def nextIs (s : List UInt8) (p : ℕ) (c : UInt8) : Run Bool :=
  if p < s.length then do
    let b ← rd s p
    pure (b == c)
  else pure false

/-- The part of a turn behind the key that starts at `kstart` and ends with the quote before `kp`. -/
def readValue (s : List UInt8) (kstart kp : ℕ) : Run Turn := do
  let klen ← psub (kp - 1) kstart
  let kp ← jsonSkipWs s (s.length + 1) kp
  if ← nextIs s kp (byte ':') then do
    let vstart ← jsonSkipWs s (s.length + 1) (kp + 1)
    let isStr ← nextIs s vstart (byte '"')
    match ← jsonSkipValue s vstart with
    | none => pure (.stop .bad)
    | some vend => pure (.member kstart klen isStr vstart vend)
  else pure (.stop .bad)

def readMember (s : List UInt8) (p : ℕ) : Run Turn := do
  let p ← jsonSkipWs s (s.length + 1) p
  if p < s.length then do
    let c ← rd s p
    if c = byte '}' then pure (.stop .absent)
    else if c ≠ byte '"' then pure (.stop .bad)
    else
      match ← jsonSkipString s p with
      | none => pure (.stop .bad)
      | some kp => readValue s (p + 1) kp
  else pure (.stop .absent)

/-- `strlen(key) == klen && memcmp(key, kstart, klen) == 0`. -/
def keyMatches (s key : List UInt8) (kstart klen : ℕ) : Run Bool :=
  if key.length = klen then do
    let k ← rdRange s kstart klen
    pure (k == key)
  else pure false

def getFieldLoop (s key : List UInt8) : (fuel p : ℕ) → Run Lookup
  | 0, _ => .error .fuel
  | fuel + 1, p =>
      if p < s.length then do
        match ← readMember s p with
        | .stop r => pure r
        | .member kstart klen isStr vstart vend => do
            if ← keyMatches s key kstart klen then
              pure (if isStr then .found true (vstart + 1) (vend - 1) else .found false vstart vend)
            else do
              let p ← jsonSkipWs s (s.length + 1) vend
              let comma ← nextIs s p (byte ',')
              getFieldLoop s key fuel (if comma then p + 1 else p)
      else pure .absent

def jsonGetField (s key : List UInt8) : Run Lookup := do
  let p ← jsonSkipWs s (s.length + 1) 0
  if ← nextIs s p (byte '{') then getFieldLoop s key (s.length + 1) (p + 1) else pure .absent

/-- The loop of `json_unescape_into`: `oi` bytes of `out` are written, `i` of the `n` from `vs` are read. -/
def unescapeLoop (s : List UInt8) (vs n outSize : ℕ) : (fuel i oi : ℕ) → (out : List UInt8) → Run (Bool × List UInt8)
  | 0, _, _, _ => .error .fuel
  | fuel + 1, i, oi, out =>
      if i < n then do
        let c ← rd s (vs + i)
        if c = byte '\\' ∧ i + 1 < n then do
          let e ← rd s (vs + (i + 1))
          if outSize ≤ oi + 1 then pure (false, out)
          else if e = byte 'u' then do
            -- four digits, when they are all there
            let out ← put out oi (byte '?')
            unescapeLoop s vs n outSize fuel (if i + 5 < n then i + 6 else i + 2) (oi + 1) out
          else do
            let out ← put out oi (unescapeChar e)
            unescapeLoop s vs n outSize fuel (i + 2) (oi + 1) out
        else
          if outSize ≤ oi + 1 then pure (false, out)
          else do
            let out ← put out oi c
            unescapeLoop s vs n outSize fuel (i + 1) (oi + 1) out
      else do
        let out ← put out oi 0
        pure (true, out)

/-- `json_unescape_into`: whether the value fitted, and the buffer. -/
def jsonUnescapeInto (s : List UInt8) (vs n : ℕ) (out : List UInt8) (outSize : ℕ) : Run (Bool × List UInt8) :=
  if outSize = 0 then pure (false, out) else unescapeLoop s vs n outSize (n + 1) 0 0 out

/-! ## Every loop follows the text that is left -/

theorem jsonSkipWs_at {s r : List UInt8} {p : ℕ} (h : At s p r) {fuel : ℕ} (hf : r.length < fuel) :
    Runs (jsonSkipWs s fuel p) (At s · (skipWs r)) := by
  induction fuel generalizing r p with
  | zero => exact absurd hf (Nat.not_lt_zero _)
  | succ fuel ih =>
      cases r with
      | nil =>
          rw [jsonSkipWs, if_neg h.not_lt]
          exact .pure h
      | cons c r =>
          rw [jsonSkipWs, if_pos h.lt, h.rd]
          show Runs (ite _ _ _) _
          split_ifs with hc
          · rw [skipWs, List.dropWhile_cons_of_pos hc]
            exact ih h.next (Nat.lt_of_succ_lt_succ hf)
          · rw [skipWs_cons (by simpa using hc)]
            exact .pure h

theorem skipStringLoop_at {s r : List UInt8} {p : ℕ} (h : At s p r) {fuel : ℕ} (hf : r.length < fuel) :
    Runs (skipStringLoop s fuel p) (Option.Rel (At s) · (skipBody false r)) := by
  induction fuel generalizing r p with
  | zero => exact absurd hf (Nat.not_lt_zero _)
  | succ fuel ih =>
      cases r with
      | nil =>
          rw [skipStringLoop, if_neg h.not_lt]
          exact .pure .none
      | cons c r =>
          have hr : r.length < fuel := Nat.lt_of_succ_lt_succ hf
          rw [skipStringLoop, if_pos h.lt, h.rd, skipBody]
          show Runs (ite _ _ _) _
          split_ifs with hback hmore hquote
          · -- the byte behind the backslash is passed over
            cases r with
            | nil => exact absurd hmore h.next.not_lt
            | cons e r => exact ih h.next.next ((Nat.lt_succ_self _).trans hr)
          · cases r with
            | nil => exact ih h.next hr
            | cons e r => exact absurd h.next.lt hmore
          · exact .pure (.some h.next)
          · exact ih h.next hr

theorem jsonSkipString_at {s r : List UInt8} {p : ℕ} (h : At s p r) :
    Runs (jsonSkipString s p) (Option.Rel (At s) · (skipString r)) := by
  have hlen := h.length_eq
  cases r with
  | nil =>
      rw [jsonSkipString, if_neg h.not_lt]
      exact .pure .none
  | cons c r =>
      rw [jsonSkipString, if_pos h.lt, h.rd]
      show Runs (ite _ _ _) (Option.Rel (At s) · (ite _ _ _))
      rw [List.length_cons] at hlen
      split_ifs
      · exact skipStringLoop_at h.next (by omega)
      · exact .pure .none

theorem skipBracketLoop_at {s r : List UInt8} (op cl : UInt8) {d p : ℕ} (h : At s p r) {fuel : ℕ}
    (hf : r.length < fuel) :
    Runs (skipBracketLoop s op cl fuel d p) (Option.Rel (At s) · (scan op cl .out d r)) := by
  induction fuel generalizing r p d with
  | zero => exact absurd hf (Nat.not_lt_zero _)
  | succ fuel ih =>
      cases r with
      | nil =>
          rw [skipBracketLoop, if_neg h.not_lt]
          exact .pure .none
      | cons c r =>
          have hr : r.length < fuel := Nat.lt_of_succ_lt_succ hf
          rw [skipBracketLoop, if_pos h.lt, h.rd]
          show Runs (ite _ _ _) _
          by_cases hq : c = byte '"'
          · subst hq
            rw [if_pos rfl, scan_quote]
            refine (jsonSkipString_at h).bind fun q hq => ?_
            rw [skipString, if_pos rfl] at hq
            cases hbody : skipBody false r with
            | none =>
                rw [hbody] at hq
                cases hq
                exact .pure .none
            | some r' =>
                rw [hbody] at hq
                cases hq with
                | some hq => exact ih hq ((length_lt_of_skipBody hbody).trans hr)
          · rw [if_neg hq, scan, if_neg hq]
            split_ifs
            · exact ih h.next hr
            · exact .pure (.some h.next)
            · exact ih h.next hr
            · exact ih h.next hr

theorem skipWordLoop_at {s r : List UInt8} {p : ℕ} (h : At s p r) {fuel : ℕ} (hf : r.length < fuel) :
    Runs (skipWordLoop s fuel p) (Option.Rel (At s) · (some (r.dropWhile fun b => !isDelim b))) := by
  induction fuel generalizing r p with
  | zero => exact absurd hf (Nat.not_lt_zero _)
  | succ fuel ih =>
      cases r with
      | nil =>
          rw [skipWordLoop, if_neg h.not_lt]
          exact .pure (.some h)
      | cons c r =>
          rw [skipWordLoop, if_pos h.lt, h.rd]
          show Runs (ite _ _ _) _
          split_ifs with hc
          · rw [List.dropWhile_cons_of_neg (by simp [hc])]
            exact .pure (.some h)
          · rw [List.dropWhile_cons_of_pos (by simp [hc])]
            exact ih h.next (Nat.lt_of_succ_lt_succ hf)

theorem jsonSkipValue_at {s r : List UInt8} {p : ℕ} (h : At s p r) :
    Runs (jsonSkipValue s p) (Option.Rel (At s) · (skipValue r)) := by
  have hlen := h.length_eq
  unfold jsonSkipValue skipValue
  refine (jsonSkipWs_at h (by omega)).bind fun q hq => ?_
  have hqlen := hq.length_eq
  cases hr : skipWs r with
  | nil =>
      rw [hr] at hq
      rw [if_neg hq.not_lt]
      exact .pure .none
  | cons c t =>
      rw [hr] at hq hqlen
      rw [if_pos hq.lt, hq.rd]
      show Runs (ite _ _ _) (Option.Rel (At s) · (ite _ _ _))
      split_ifs with hquote
      · have hstr := jsonSkipString_at hq
        rw [skipString, if_pos hquote] at hstr
        exact hstr
      · exact skipBracketLoop_at c (closing c) hq (by omega)
      · exact skipWordLoop_at hq (by omega)

/-! ## The members -/

/-- The positions `[vs, ve)` hold the value. -/
inductive LookupAt (s : List UInt8) : Lookup → Found → Prop
  | absent : LookupAt s .absent .absent
  | bad : LookupAt s .bad .bad
  | found {isStr : Bool} {vs ve : ℕ} {v : List UInt8} (hve : vs + v.length = ve) (hle : ve ≤ s.length)
      (hv : slice s vs v.length = v) : LookupAt s (.found isStr vs ve) (.found isStr v)

/-- What `json_get_field` reports when the key is the one it looks for. -/
def report (isStr : Bool) (vstart vend : ℕ) : Lookup :=
  if isStr then .found true (vstart + 1) (vend - 1) else .found false vstart vend

inductive TurnAt (s : List UInt8) : Turn → Next → Prop
  | stop {l : Lookup} {f : Found} (h : LookupAt s l f) : TurnAt s (.stop l) (.stop f)
  | member {ks kl vs ve : ℕ} {isStr : Bool} {k v r : List UInt8} (hkl : kl = k.length) (hks : ks + kl ≤ s.length)
      (hk : slice s ks kl = k) (hve : At s ve r) (hv : LookupAt s (report isStr vs ve) (.found isStr v)) :
      TurnAt s (.member ks kl isStr vs ve) (.member k isStr v (skipComma (skipWs r)))

theorem nextIs_at {s r : List UInt8} {p : ℕ} (h : At s p r) (c : UInt8) :
    nextIs s p c = .ok (r.head? == some c) := by
  unfold nextIs
  cases r with
  | nil =>
      rw [if_neg h.not_lt]
      rfl
  | cons b r =>
      rw [if_pos h.lt, h.rd]
      rfl

theorem slice_eq_upTo {s t u : List UInt8} {p q : ℕ} (hp : At s p t) (hq : At s q u) :
    slice s p (q - p) = upTo t u := by
  have h₁ := hp.length_eq
  have h₂ := hq.length_eq
  unfold slice upTo
  rw [hp.2, show q - p = t.length - u.length by omega]

/-- The key between its quotes. -/
theorem slice_key {s t u : List UInt8} {p q : ℕ} (hp : At s p t) (hq : At s q u) (hlt : u.length < t.length) :
    q - 1 - p = ((upTo t u).dropLast).length ∧ p + (q - 1 - p) ≤ s.length ∧
      slice s p (q - 1 - p) = (upTo t u).dropLast := by
  have h₁ := hp.length_eq
  have h₂ := hq.length_eq
  have hlen : (upTo t u).length = q - p := by
    unfold upTo
    rw [List.length_take]
    omega
  refine ⟨by rw [List.length_dropLast, hlen]; omega, by omega, ?_⟩
  rw [List.dropLast_eq_take, hlen, ← slice_eq_upTo hp hq, slice, slice, List.take_take]
  congr 1
  omega

theorem report_at {s t r : List UInt8} {vs ve : ℕ} (ht : At s vs t) (hr : skipValue t = some r) (hve : At s ve r)
    (hws : skipWs t = t) : LookupAt s (report (isQuoted t) vs ve) (.found (isQuoted t) (bare (upTo t r))) := by
  have h₁ := ht.length_eq
  have h₂ := hve.length_eq
  have hle := length_le_of_skipValue hr
  have hslice := slice_eq_upTo ht hve
  have hlen : (upTo t r).length = ve - vs := by
    unfold upTo
    rw [List.length_take]
    omega
  cases hq : isQuoted t with
  | false =>
      have hbare : bare (upTo t r) = upTo t r := by
        apply if_neg
        intro hquoted
        have hhead : t.head? = some (byte '"') := by
          have := beq_iff_eq.mp hquoted
          unfold upTo at this
          rw [List.head?_take] at this
          split_ifs at this
          exact this
        exact Bool.false_ne_true (hq.symm.trans (beq_iff_eq.mpr hhead))
      rw [hbare]
      exact .found (by omega) hve.1 (by rw [hlen, hslice])
  | true =>
      -- a string takes two bytes at least
      obtain ⟨u, rfl⟩ : ∃ u, t = byte '"' :: u := by
        cases t with
        | nil => exact absurd hq Bool.false_ne_true
        | cons c u => exact ⟨u, by rw [Option.some.inj (beq_iff_eq.mp hq)]⟩
      have hlt : r.length < u.length := by
        unfold skipValue at hr
        rw [hws] at hr
        exact length_lt_of_skipBody hr
      rw [List.length_cons] at h₁
      have hbare : bare (upTo (byte '"' :: u) r) = (upTo u r).dropLast := by
        have hup : upTo (byte '"' :: u) r = byte '"' :: upTo u r := by
          unfold upTo
          rw [List.length_cons, show u.length + 1 - r.length = u.length - r.length + 1 by omega]
          rfl
        rw [hup]
        rfl
      obtain ⟨hkl, hks, hk⟩ := slice_key ht.next hve hlt
      rw [hbare]
      refine .found ?_ ?_ ?_
      · rw [← hkl]
        omega
      · omega
      · rw [← hkl]
        exact hk

theorem readValue_at {s t u : List UInt8} {p q : ℕ} (ht : At s p t) (hu : At s q u) (hlt : u.length < t.length) :
    Runs (readValue s p q) (TurnAt s · (nextValue (upTo t u).dropLast u)) := by
  have h₁ := ht.length_eq
  have h₂ := hu.length_eq
  obtain ⟨hkl, hks, hk⟩ := slice_key ht hu hlt
  unfold readValue nextValue
  rw [psub_of_le (by omega)]
  show Runs (Bind.bind (jsonSkipWs s (s.length + 1) q) _) _
  refine (jsonSkipWs_at hu (by omega)).bind fun a ha => ?_
  rw [nextIs_at ha]
  cases hws : skipWs u with
  | nil => exact .pure (.stop .bad)
  | cons c v =>
      rw [hws] at ha
      show Runs (ite ((some c == some (byte ':')) = true) _ _) (TurnAt s · (ite _ _ _))
      by_cases hc : c = byte ':'
      · subst hc
        rw [if_pos (beq_self_eq_true _), if_neg (not_not_intro rfl)]
        have hv := ha.next
        have hvlen := hv.length_eq
        refine (jsonSkipWs_at hv (by omega)).bind fun b hb => ?_
        rw [nextIs_at hb]
        show Runs (Bind.bind (jsonSkipValue s b) _) _
        refine (jsonSkipValue_at hb).bind fun e he => ?_
        cases hval : skipValue (skipWs v) with
        | none =>
            rw [hval] at he
            cases he
            exact .pure (.stop .bad)
        | some r =>
            rw [hval] at he
            cases he with
            | some he =>
                have hidem : skipWs (skipWs v) = skipWs v := List.dropWhile_idempotent _ v
                exact .pure (.member hkl hks hk he (report_at hb hval he hidem))
      · rw [if_neg (by simpa using hc), if_pos hc]
        exact .pure (.stop .bad)

theorem readMember_at {s r : List UInt8} {p : ℕ} (h : At s p r) :
    Runs (readMember s p) (TurnAt s · (nextMember r)) := by
  have hlen := h.length_eq
  unfold readMember nextMember
  refine (jsonSkipWs_at h (by omega)).bind fun q hq => ?_
  cases hws : skipWs r with
  | nil =>
      rw [hws] at hq
      rw [if_neg hq.not_lt]
      exact .pure (.stop .absent)
  | cons c t =>
      rw [hws] at hq
      rw [if_pos hq.lt, hq.rd]
      show Runs (ite _ _ _) (TurnAt s · (ite _ _ _))
      split_ifs with hclose hquote
      · exact .pure (.stop .absent)
      · exact .pure (.stop .bad)
      · refine (jsonSkipString_at hq).bind fun e he => ?_
        rw [skipString, if_pos (not_not.mp hquote)] at he
        cases hbody : skipBody false t with
        | none =>
            rw [hbody] at he
            cases he
            exact .pure (.stop .bad)
        | some u =>
            rw [hbody] at he
            cases he with
            | some he => exact readValue_at hq.next he (length_lt_of_skipBody hbody)

theorem keyMatches_eq {s key k : List UInt8} {ks kl : ℕ} (hkl : kl = k.length) (hks : ks + kl ≤ s.length)
    (hk : slice s ks kl = k) : keyMatches s key ks kl = .ok (k == key) := by
  unfold keyMatches
  split_ifs with hlen
  · rw [rdRange_of_le hks, hk]
    rfl
  · have hne : k ≠ key := by
      rintro rfl
      exact hlen hkl.symm
    rw [beq_eq_false_iff_ne.mpr hne]
    rfl

/-- The position behind an optional comma. -/
theorem comma_at {s r : List UInt8} {p : ℕ} (h : At s p r) :
    At s (if (r.head? == some (byte ',')) = true then p + 1 else p) (skipComma r) := by
  unfold skipComma
  simp only [beq_iff_eq]
  split_ifs with hc
  · cases r with
    | nil => cases hc
    | cons c r => exact h.next
  · exact h

theorem getFieldLoop_at {s r : List UInt8} (key : List UInt8) {p : ℕ} (h : At s p r) {fuel : ℕ}
    (hf : r.length < fuel) : Runs (getFieldLoop s key fuel p) (LookupAt s · (findWithin key fuel r)) := by
  induction fuel generalizing r p with
  | zero => exact absurd hf (Nat.not_lt_zero _)
  | succ fuel ih =>
      cases r with
      | nil =>
          rw [getFieldLoop, if_neg h.not_lt]
          exact .pure .absent
      | cons c r =>
          rw [getFieldLoop, if_pos h.lt, findWithin]
          refine (readMember_at h).bind fun turn hturn => ?_
          cases hnext : nextMember (c :: r) with
          | stop f =>
              rw [hnext] at hturn
              cases hturn with
              | stop hl => exact .pure hl
          | member k isStr v rest =>
              have hlt := length_lt_of_nextMember hnext
              rw [hnext] at hturn
              cases hturn with
              | member hkl hks hk hve hv =>
                  show Runs (Bind.bind (keyMatches s key _ _) _) (LookupAt s · (ite _ _ _))
                  rw [keyMatches_eq hkl hks hk]
                  show Runs (ite ((k == key) = true) _ _) _
                  have hlen := hve.length_eq
                  by_cases hkey : k = key
                  · rw [if_pos (beq_iff_eq.mpr hkey), if_pos hkey]
                    exact .pure hv
                  · rw [if_neg (by simpa using hkey), if_neg hkey]
                    refine (jsonSkipWs_at hve (by omega)).bind fun q hq => ?_
                    rw [nextIs_at hq]
                    exact ih (comma_at hq) (by omega)

/-- The reader agrees with the one on the text that is left. -/
theorem jsonGetField_at (s key : List UInt8) : Runs (jsonGetField s key) (LookupAt s · (getField s key)) := by
  unfold jsonGetField getField
  refine (jsonSkipWs_at (At.start s) (Nat.lt_succ_self _)).bind fun q hq => ?_
  have hlen := hq.length_eq
  rw [nextIs_at hq]
  cases hws : skipWs s with
  | nil => exact .pure .absent
  | cons c t =>
      rw [hws] at hq hlen
      rw [List.length_cons] at hlen
      show Runs (ite ((some c == some (byte '{')) = true) _ _) (LookupAt s · (ite _ _ _))
      by_cases hc : c = byte '{'
      · subst hc
        rw [if_pos (beq_self_eq_true _), if_pos rfl, find, findWithin_of_lt key (Nat.lt_succ_self _)
          (show t.length < s.length + 1 by omega)]
        exact getFieldLoop_at key hq.next (by omega)
      · rw [if_neg (by simpa using hc), if_neg hc]
        exact .pure .absent

end SimpleSatOps.JsonReader
