import SimpleSatOps.Basic

/-!
# Runs that may leave an array

* `Run` : a computation that stops when it reads or writes outside an array, or runs out of fuel;
* `rd`, `rdRange`, `put`, `putEach`, `copyInto` : the accesses;
* `patch` : a buffer in which some bytes have been written; `putEach_of_le`, `patch_patch`;
* `Runs` : it does not stop, and what it gives has a property; `Runs.bind` chains two;
* `At` : a position in a text, by what is left of the text there.
-/

namespace SimpleSatOps

/-- Why a run stops. -/
inductive Stop
  | overread | overwrite | underflow | fuel
deriving DecidableEq

abbrev Run (α : Type) := Except Stop α

/-- `s[p]`. -/
def rd (s : List UInt8) (p : ℕ) : Run UInt8 := (s[p]?).elim (.error .overread) .ok

/-- The `n` bytes from `s + off`. -/
def rdRange (s : List UInt8) (off n : ℕ) : Run (List UInt8) :=
  if off + n ≤ s.length then .ok (slice s off n) else .error .overread

/-- `buf[i] = v`. -/
def put (buf : List UInt8) (i : ℕ) (v : UInt8) : Run (List UInt8) := (store buf i v).elim (.error .overwrite) .ok

/-- `buf[i++] = v` for each `v` in turn. -/
def putEach (buf : List UInt8) (i : ℕ) : List UInt8 → Run (List UInt8)
  | [] => .ok buf
  | v :: vs => do
    let buf ← put buf i v
    putEach buf (i + 1) vs

/-- The buffer with `vs` in it from `i` on. -/
def patch (buf : List UInt8) (i : ℕ) (vs : List UInt8) : List UInt8 := buf.take i ++ vs ++ buf.drop (i + vs.length)

/-- `memcpy(dst, src, n)`. -/
def copyInto (dst src : List UInt8) (n : ℕ) : Run (List UInt8) := do
  let xs ← rdRange src 0 n
  if n ≤ dst.length then pure (overlay xs dst) else .error .overwrite

/-- `p - q` of two positions. -/
def psub (p q : ℕ) : Run ℕ := if q ≤ p then .ok (p - q) else .error .underflow

/-- The run does not stop, and what it gives has the property. -/
def Runs {α : Type} (x : Run α) (P : α → Prop) : Prop := ∃ a, x = .ok a ∧ P a

section
variable {α β : Type}

theorem ok_bind (a : α) (f : α → Run β) : (Except.ok a >>= f) = f a := rfl

theorem Runs.pure {a : α} {P : α → Prop} (h : P a) : Runs (.ok a) P := ⟨a, rfl, h⟩

theorem Runs.bind {x : Run α} {f : α → Run β} {P : α → Prop} {Q : β → Prop} (hx : Runs x P)
    (hf : ∀ a, P a → Runs (f a) Q) : Runs (x >>= f) Q := by
  obtain ⟨a, rfl, ha⟩ := hx
  exact hf a ha

theorem Runs.mono {x : Run α} {P Q : α → Prop} (hx : Runs x P) (h : ∀ a, P a → Q a) : Runs x Q := by
  obtain ⟨a, rfl, ha⟩ := hx
  exact ⟨a, rfl, h a ha⟩

theorem Runs.map {x : Run α} {f : α → β} {P : α → Prop} {Q : β → Prop} (hx : Runs x P) (hf : ∀ a, P a → Q (f a)) :
    Runs (f <$> x) Q := by
  obtain ⟨a, rfl, ha⟩ := hx
  exact ⟨f a, rfl, hf a ha⟩

/-- What every round keeps holds after a loop. -/
theorem Runs.foldlM {f : β → α → Run β} {P : β → Prop} {l : List α} (hf : ∀ b, P b → ∀ a ∈ l, Runs (f b a) P)
    {b : β} (hb : P b) : Runs (l.foldlM f b) P := by
  induction l generalizing b with
  | nil => exact .pure hb
  | cons a l ih =>
      rw [List.foldlM_cons]
      refine (hf b hb a List.mem_cons_self).bind fun c hc => ?_
      exact ih (fun b hb a ha => hf b hb a (List.mem_cons_of_mem _ ha)) hc

theorem Runs.of_eq {x : Run α} {a : α} (hx : x = .ok a) : Runs x (· = a) := ⟨a, hx, rfl⟩

end

/-! ## Positions -/

/-- At position `p` the text `r` is left. -/
def At (s : List UInt8) (p : ℕ) (r : List UInt8) : Prop := p ≤ s.length ∧ s.drop p = r

theorem At.start (s : List UInt8) : At s 0 s := ⟨Nat.zero_le _, rfl⟩

theorem At.length_eq {s r : List UInt8} {p : ℕ} (h : At s p r) : p + r.length = s.length := by
  rw [← h.2, List.length_drop]
  exact Nat.add_sub_of_le h.1

theorem At.lt_iff {s r : List UInt8} {p : ℕ} (h : At s p r) : p < s.length ↔ r ≠ [] := by
  rw [← h.length_eq, ← List.length_pos_iff]
  omega

theorem At.lt {s r : List UInt8} {p : ℕ} {c : UInt8} (h : At s p (c :: r)) : p < s.length :=
  h.lt_iff.mpr (List.cons_ne_nil _ _)

theorem At.not_lt {s : List UInt8} {p : ℕ} (h : At s p []) : ¬ p < s.length := fun hlt => h.lt_iff.mp hlt rfl

theorem At.next {s r : List UInt8} {p : ℕ} {c : UInt8} (h : At s p (c :: r)) : At s (p + 1) r := by
  refine ⟨h.lt, ?_⟩
  rw [← List.drop_drop, h.2]
  rfl

theorem At.rd {s r : List UInt8} {p : ℕ} {c : UInt8} (h : At s p (c :: r)) : rd s p = .ok c := by
  have hget : s[p]? = some c := by
    rw [← List.head?_drop, h.2]
    rfl
  rw [SimpleSatOps.rd, hget]
  rfl

/-- Two positions, the second one at the end of a part of the first one's text. -/
theorem At.slice {s v r : List UInt8} {p q : ℕ} (hp : At s p (v ++ r)) (hq : At s q r) :
    q = p + v.length ∧ slice s p v.length = v := by
  have h₁ := hp.length_eq
  have h₂ := hq.length_eq
  rw [List.length_append] at h₁
  refine ⟨by omega, ?_⟩
  rw [SimpleSatOps.slice, hp.2, List.take_left]

theorem rdRange_of_le {s : List UInt8} {off n : ℕ} (h : off + n ≤ s.length) : rdRange s off n = .ok (slice s off n) :=
  if_pos h

theorem put_of_lt {buf : List UInt8} {i : ℕ} (h : i < buf.length) (v : UInt8) : put buf i v = .ok (buf.set i v) := by
  rw [put, store_of_lt h]
  rfl

theorem length_patch {buf vs : List UInt8} {i : ℕ} (h : i + vs.length ≤ buf.length) :
    (patch buf i vs).length = buf.length := by
  unfold patch
  rw [List.length_append, List.length_append, List.length_take_of_le (by omega), List.length_drop]
  omega

/-- One stretch of bytes behind another. -/
theorem patch_patch {buf vs ws : List UInt8} {i : ℕ} (h : i + vs.length ≤ buf.length) :
    patch (patch buf i vs) (i + vs.length) ws = patch buf i (vs ++ ws) := by
  have hfront : (buf.take i ++ vs).length = i + vs.length := by
    rw [List.length_append, List.length_take_of_le (by omega)]
  have hback : (patch buf i vs).drop (i + vs.length + ws.length) = buf.drop (i + (vs ++ ws).length) := by
    unfold patch
    rw [List.drop_append, hfront, List.drop_of_length_le (by omega), List.nil_append, List.drop_drop,
      List.length_append]
    congr 1
    omega
  have htake : (patch buf i vs).take (i + vs.length) = buf.take i ++ vs := List.take_left' hfront
  rw [patch, htake, hback, List.append_assoc (buf.take i)]
  rfl

theorem patch_singleton {buf : List UInt8} {i : ℕ} (h : i < buf.length) (v : UInt8) :
    buf.set i v = patch buf i [v] := by
  conv_lhs => rw [← List.take_append_drop i buf]
  rw [List.set_append_right _ _ (List.length_take_le _ _), List.length_take_of_le h.le, Nat.sub_self,
    List.drop_eq_getElem_cons h, List.set_cons_zero, patch, List.append_assoc]
  rfl

theorem putEach_of_le {vs : List UInt8} : ∀ {buf : List UInt8} {i : ℕ}, i + vs.length ≤ buf.length →
    putEach buf i vs = .ok (patch buf i vs) := by
  induction vs with
  | nil =>
    intro buf i _
    rw [patch, List.append_nil, List.length_nil, Nat.add_zero, List.take_append_drop]
    rfl
  | cons v vs ih =>
    intro buf i h
    rw [List.length_cons] at h
    rw [putEach, put_of_lt (by omega), patch_singleton (by omega)]
    have hone : i + [v].length ≤ buf.length := by
      rw [List.length_singleton]
      omega
    have hroom : i + 1 + vs.length ≤ (patch buf i [v]).length := by
      rw [length_patch hone]
      omega
    refine (ih hroom).trans ?_
    exact congrArg Except.ok (patch_patch hone)

theorem psub_of_le {p q : ℕ} (h : q ≤ p) : psub p q = .ok (p - q) := if_pos h

theorem copyInto_of_le {dst src : List UInt8} {n : ℕ} (hdst : n ≤ dst.length) (hsrc : n ≤ src.length) :
    copyInto dst src n = .ok (overlay (src.take n) dst) := by
  rw [copyInto, rdRange_of_le (by omega)]
  show ite _ _ _ = _
  rw [if_pos hdst, slice, List.drop_zero]
  rfl

end SimpleSatOps
