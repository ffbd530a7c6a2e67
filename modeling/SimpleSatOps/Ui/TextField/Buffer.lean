import Mathlib.Data.List.DropRight
import SimpleSatOps.Lib.CText
import SimpleSatOps.Lib.Run
import SimpleSatOps.Ui.TextField

/-!
# The buffer of a text field (`ui_textfield.c`)

* `FieldBuffer`, `uiTfInsert`, …, `uiTfClampCursor` : the edits in place, byte by byte;
* `Key`, `Key.run`, `typed` : the edits as keys, and a sequence of them;
* `Split`, `Key.edit` : the list model, the text in front of the cursor and behind it;
* `onField_field` : the fields of the screens do what the list model says;
* `Editing` : the buffer holds what the list model says, key by key;
* `editing_iff` : so it does for every capacity an `int` holds, and for no other one.
-/

namespace SimpleSatOps

/-- `char *buf` and `int *cursor`. -/
structure FieldBuffer where
  buf : List UInt8
  cursor : ℤ
deriving DecidableEq

namespace FieldBuffer

/-! ## The source -/

/-- `(int) n` -/
def cInt (n : ℕ) : ℤ := (n : ℤ).bmod (2 ^ 32)

/-- `(size_t) n` -/
def sizeT (n : ℤ) : ℕ := (n % 2 ^ 64).toNat

/-- `(char) ch` -/
def char (ch : ℤ) : UInt8 := UInt8.ofNat (ch % 2 ^ 8).toNat

def strlen (buf : List UInt8) : Run ℕ := if 0 ∈ buf then .ok (cstr buf).length else .error .overread

/-- `memmove(buf + dst, buf + src, (size_t) n)` -/
def memmove (buf : List UInt8) (dst src n : ℤ) : Run (List UInt8) := do
  let moved ← if 0 ≤ src then rdRange buf src.toNat (sizeT n) else .error .overread
  if 0 ≤ dst ∧ dst.toNat + moved.length ≤ buf.length then pure (patch buf dst.toNat moved) else .error .overwrite

/-- `buf[i] = c` -/
def putAt (buf : List UInt8) (i : ℤ) (c : UInt8) : Run (List UInt8) :=
  if 0 ≤ i then put buf i.toNat c else .error .overwrite

/-- `while (cur > 0 && p(buf[cur - 1])) cur--` -/
def skipBack (p : UInt8 → Bool) (buf : List UInt8) : ℕ → Run ℕ
  | 0 => .ok 0
  | cur + 1 => do
    let c ← rd buf cur
    if p c then skipBack p buf cur else pure (cur + 1)

def uiTfInsert (cap : ℕ) (ch : ℤ) (t : FieldBuffer) : Run (FieldBuffer × Bool) := do
  let n := cInt (← strlen t.buf)
  if cInt cap ≤ n + 1 then pure (t, false)
  else
    let cur := if t.cursor < 0 then 0 else t.cursor
    let cur := if n < cur then n else cur
    let buf ← memmove t.buf (cur + 1) cur (n - cur + 1)
    let buf ← putAt buf cur (char ch)
    pure (⟨buf, cur + 1⟩, true)

def uiTfBackspace (t : FieldBuffer) : Run (FieldBuffer × Bool) := do
  let n := cInt (← strlen t.buf)
  let cur := t.cursor
  if cur ≤ 0 ∨ n = 0 then pure (t, false)
  else
    let buf ← memmove t.buf (cur - 1) cur (n - cur + 1)
    pure (⟨buf, cur - 1⟩, true)

def uiTfDelete (t : FieldBuffer) : Run (FieldBuffer × Bool) := do
  let n := cInt (← strlen t.buf)
  let cur := t.cursor
  if n ≤ cur then pure (t, false)
  else
    let buf ← memmove t.buf cur (cur + 1) (n - cur)
    pure (⟨buf, cur⟩, true)

def uiTfKillToEnd (t : FieldBuffer) : Run (FieldBuffer × Bool) := do
  let n := cInt (← strlen t.buf)
  let cur := t.cursor
  if n ≤ cur then pure (t, false)
  else
    let buf ← putAt t.buf cur 0
    pure (⟨buf, cur⟩, true)

def uiTfLeft (t : FieldBuffer) : Run FieldBuffer :=
  pure (if 0 < t.cursor then { t with cursor := t.cursor - 1 } else t)

def uiTfRight (t : FieldBuffer) : Run FieldBuffer := do
  let n := cInt (← strlen t.buf)
  pure (if t.cursor < n then { t with cursor := t.cursor + 1 } else t)

def uiTfHome (t : FieldBuffer) : Run FieldBuffer := pure { t with cursor := 0 }

def uiTfEnd (t : FieldBuffer) : Run FieldBuffer := do
  let n := cInt (← strlen t.buf)
  pure { t with cursor := n }

def uiTfKillWordBack (t : FieldBuffer) : Run (FieldBuffer × Bool) := do
  let stop := t.cursor
  if stop ≤ 0 then pure (t, false)
  else
    let cur ← skipBack (· == byte ' ') t.buf stop.toNat
    let cur ← skipBack (· != byte ' ') t.buf cur
    if (cur : ℤ) = stop then pure (t, false)
    else
      let n := cInt (← strlen t.buf)
      let buf ← memmove t.buf cur stop (n - stop + 1)
      pure (⟨buf, cur⟩, true)

def uiTfClampCursor (t : FieldBuffer) : Run FieldBuffer := do
  let n := cInt (← strlen t.buf)
  let cur := if t.cursor < 0 then 0 else t.cursor
  let cur := if n < cur then n else cur
  pure { t with cursor := cur }

/-! ## Keys -/

/-- The operations, as the keys that call them. -/
inductive Key
  | insert (ch : ℤ)
  | backspace | delete | killToEnd | left | right | home | toEnd | killWordBack | clampCursor

namespace Key

/-- The caller of an insertion has vetted its character: it is none that ends the text. -/
def Vetted : Key → Prop
  | insert ch => char ch ≠ 0
  | _ => True

/-- What a key does to the buffer, and what it reports of it. -/
def run (cap : ℕ) (t : FieldBuffer) : Key → Run (FieldBuffer × Option Bool)
  | insert ch => (fun r => (r.1, some r.2)) <$> uiTfInsert cap ch t
  | backspace => (fun r => (r.1, some r.2)) <$> uiTfBackspace t
  | delete => (fun r => (r.1, some r.2)) <$> uiTfDelete t
  | killToEnd => (fun r => (r.1, some r.2)) <$> uiTfKillToEnd t
  | left => (fun r => (r, none)) <$> uiTfLeft t
  | right => (fun r => (r, none)) <$> uiTfRight t
  | home => (fun r => (r, none)) <$> uiTfHome t
  | toEnd => (fun r => (r, none)) <$> uiTfEnd t
  | killWordBack => (fun r => (r.1, some r.2)) <$> uiTfKillWordBack t
  | clampCursor => (fun r => (r, none)) <$> uiTfClampCursor t

end Key

/-- A sequence of keys. -/
def typed (cap : ℕ) (t : FieldBuffer) (keys : List Key) : Run FieldBuffer :=
  keys.foldlM (fun t k => Prod.fst <$> k.run cap t) t

/-! ## The list model -/

/-- The text in front of the cursor, and behind it. -/
structure Split where
  before : List UInt8
  behind : List UInt8
deriving DecidableEq

/-- The text without its last word, and the spaces behind it. -/
def beforeWord (s : List UInt8) : List UInt8 := (s.rdropWhile (· == byte ' ')).rdropWhile (· != byte ' ')

/-- What a key does to the text, and whether it changed it. -/
def Key.edit (cap : ℕ) : Split → Key → Split × Option Bool
  | ⟨s, r⟩, insert ch =>
    if (s ++ r).length + 1 < cap then (⟨s ++ [char ch], r⟩, some true) else (⟨s, r⟩, some false)
  | ⟨s, r⟩, backspace => if s = [] then (⟨s, r⟩, some false) else (⟨s.dropLast, r⟩, some true)
  | ⟨s, r⟩, delete => if r = [] then (⟨s, r⟩, some false) else (⟨s, r.tail⟩, some true)
  | ⟨s, r⟩, killToEnd => if r = [] then (⟨s, r⟩, some false) else (⟨s, []⟩, some true)
  | ⟨s, r⟩, left => (⟨s.dropLast, s.getLast?.toList ++ r⟩, none)
  | ⟨s, r⟩, right => (⟨s ++ r.head?.toList, r.tail⟩, none)
  | ⟨s, r⟩, home => (⟨[], s ++ r⟩, none)
  | ⟨s, r⟩, toEnd => (⟨s ++ r, []⟩, none)
  | ⟨s, r⟩, killWordBack => if s = [] then (⟨s, r⟩, some false) else (⟨beforeWord s, r⟩, some true)
  | ⟨s, r⟩, clampCursor => (⟨s, r⟩, none)

/-- A sequence of keys on the text. -/
def edited (cap : ℕ) (x : Split) (keys : List Key) : Split := keys.foldl (fun x k => (k.edit cap x).1) x

/-- The field of a screen that holds the text. -/
def Split.field (x : Split) : TextField := ⟨x.before ++ x.behind, x.before.length⟩

/-- What a key does to the field of a screen. -/
def Key.onField (cap : ℕ) (f : TextField) : Key → TextField × Option Bool
  | insert ch => ((f.uiTfInsert cap (char ch)).1, some (f.uiTfInsert cap (char ch)).2)
  | backspace => (f.uiTfBackspace.1, some f.uiTfBackspace.2)
  | delete => (f.uiTfDelete.1, some f.uiTfDelete.2)
  | killToEnd => (f.uiTfKillToEnd.1, some f.uiTfKillToEnd.2)
  | left => (f.uiTfLeft, none)
  | right => (f.uiTfRight, none)
  | home => (f.uiTfHome, none)
  | toEnd => (f.uiTfEnd, none)
  | killWordBack => (f.uiTfKillWordBack.1, some f.uiTfKillWordBack.2)
  | clampCursor => (f.uiTfClampCursor, none)

/-! ## The statement -/

/-- The buffer has `cap` bytes, a NUL among them, and the cursor is on the text or at its end. -/
structure Valid (cap : ℕ) (t : FieldBuffer) : Prop where
  length : t.buf.length = cap
  nul : 0 ∈ t.buf
  cursor_nonneg : 0 ≤ t.cursor
  cursor_le : t.cursor ≤ (cstr t.buf).length

/-- The text of the buffer at its cursor. -/
def split (t : FieldBuffer) : Split := ⟨(cstr t.buf).take t.cursor.toNat, (cstr t.buf).drop t.cursor.toNat⟩

/-- Every key does to a buffer of `cap` bytes what it does to its text, and so does every sequence of keys. -/
structure Editing (cap : ℕ) : Prop where
  key : ∀ (t : FieldBuffer) (k : Key), Valid cap t → k.Vetted → Runs (k.run cap t) fun r =>
    Valid cap r.1 ∧ (r.1.split, r.2) = k.edit cap t.split
  keys : ∀ (t : FieldBuffer) (ks : List Key), Valid cap t → (∀ k ∈ ks, k.Vetted) → Runs (typed cap t ks) fun t' =>
    Valid cap t' ∧ t'.split = edited cap t.split ks

/-! ## Casts and copies -/

theorem cInt_of_lt {n : ℕ} (h : n < 2 ^ 31) : cInt n = n := Int.bmod_eq_of_le (by omega) (by omega)

theorem sizeT_natCast {n : ℕ} (h : n < 2 ^ 31) : sizeT (n : ℤ) = n := by
  unfold sizeT
  rw [Int.emod_eq_of_lt (by omega) (by omega)]
  exact Int.toNat_natCast n

theorem strlen_text {s : List UInt8} (h : 0 ∉ s) (rest : List UInt8) : strlen (s ++ 0 :: rest) = .ok s.length := by
  have hmem : (0 : UInt8) ∈ s ++ 0 :: rest := List.mem_append_right _ List.mem_cons_self
  rw [strlen, if_pos hmem, cstr_append_nul h]

/-- The bytes `s` from the end of `p` are copied to `d`. -/
theorem memmove_mid {p s u : List UInt8} {d : ℕ} (hs : s.length < 2 ^ 31)
    (hd : d + s.length ≤ (p ++ s ++ u).length) :
    memmove (p ++ s ++ u) d p.length s.length = .ok (patch (p ++ s ++ u) d s) := by
  have hread : rdRange (p ++ s ++ u) p.length s.length = .ok s := by
    rw [rdRange_of_le (by rw [List.length_append, List.length_append]; omega), slice_append_left]
  rw [memmove, if_pos (by omega), Int.toNat_natCast, sizeT_natCast hs, hread, ok_bind, Int.toNat_natCast]
  exact if_pos ⟨by omega, hd⟩

theorem putAt_natCast {buf : List UInt8} {i : ℕ} (h : i < buf.length) (c : UInt8) :
    putAt buf i c = .ok (buf.set i c) := by
  rw [putAt, if_pos (by omega), Int.toNat_natCast]
  exact put_of_lt h c

theorem skipBack_append (p : UInt8 → Bool) (s rest : List UInt8) :
    skipBack p (s ++ rest) s.length = .ok (s.rdropWhile p).length := by
  induction s using List.reverseRecOn generalizing rest with
  | nil => rfl
  | append_singleton s c ih =>
      have hread : rd (s ++ [c] ++ rest) s.length = .ok c := by
        rw [rd, List.append_assoc, List.getElem?_append_right le_rfl, Nat.sub_self]
        rfl
      rw [List.length_append, List.length_singleton, skipBack, hread, ok_bind]
      by_cases hp : p c = true
      · rw [if_pos hp, List.rdropWhile_concat_pos _ _ _ hp, List.append_assoc]
        exact ih _
      · rw [if_neg hp, List.rdropWhile_concat_neg _ _ _ hp, List.length_append, List.length_singleton]
        rfl

/-! ## A text in a buffer -/

/-- The buffer shows the text, with the cursor at its place. -/
structure Shows (cap : ℕ) (t : FieldBuffer) (x : Split) : Prop where
  length : t.buf.length = cap
  buf : ∃ rest, t.buf = x.before ++ x.behind ++ 0 :: rest
  cursor : t.cursor = x.before.length
  clean : 0 ∉ x.before ++ x.behind

theorem exists_eq_cstr_append {buf : List UInt8} (h : 0 ∈ buf) : ∃ rest, buf = cstr buf ++ 0 :: rest := by
  obtain ⟨s, rest, rfl, hs⟩ := List.eq_append_cons_of_mem h
  exact ⟨rest, by rw [cstr_append_nul hs]⟩

theorem Valid.shows {cap : ℕ} {t : FieldBuffer} (h : Valid cap t) : Shows cap t t.split := by
  have htext : t.split.before ++ t.split.behind = cstr t.buf := List.take_append_drop _ _
  refine ⟨h.length, ?_, ?_, ?_⟩
  · rw [htext]
    exact exists_eq_cstr_append h.nul
  · show t.cursor = ((cstr t.buf).take _).length
    rw [List.length_take_of_le (by have := h.cursor_le; omega), Int.toNat_of_nonneg h.cursor_nonneg]
  · rw [htext]
    exact nul_not_mem_cstr t.buf

theorem Shows.valid {cap : ℕ} {t : FieldBuffer} {x : Split} (h : Shows cap t x) : Valid cap t ∧ t.split = x := by
  obtain ⟨rest, hbuf⟩ := h.buf
  have hstr : cstr t.buf = x.before ++ x.behind := by rw [hbuf, cstr_append_nul h.clean]
  refine ⟨⟨h.length, ?_, ?_, ?_⟩, ?_⟩
  · rw [hbuf]
    exact List.mem_append_right _ List.mem_cons_self
  · rw [h.cursor]
    exact Int.natCast_nonneg _
  · rw [h.cursor, hstr, List.length_append]
    omega
  · rw [split, hstr, h.cursor, Int.toNat_natCast, List.take_left, List.drop_left]

section
variable {cap : ℕ} {t : FieldBuffer} {s r : List UInt8}

theorem Shows.exists_rest (h : Shows cap t ⟨s, r⟩) : ∃ rest, t = ⟨s ++ r ++ 0 :: rest, s.length⟩ := by
  obtain ⟨rest, hbuf⟩ := h.buf
  obtain ⟨buf, cursor⟩ := t
  obtain rfl : buf = s ++ r ++ 0 :: rest := hbuf
  obtain rfl : cursor = s.length := h.cursor
  exact ⟨rest, rfl⟩

theorem Shows.length_lt (h : Shows cap t ⟨s, r⟩) : s.length + r.length < cap := by
  obtain ⟨rest, rfl⟩ := h.exists_rest
  rw [← h.length, List.length_append, List.length_append, List.length_cons]
  omega

theorem Shows.strlen_eq (h : Shows cap t ⟨s, r⟩) : strlen t.buf = .ok (s.length + r.length) := by
  obtain ⟨rest, rfl⟩ := h.exists_rest
  rw [strlen_text h.clean, List.length_append]

/-- The cursor elsewhere on the same text. -/
theorem Shows.moved (h : Shows cap t ⟨s, r⟩) {s' r' : List UInt8} {cursor : ℤ} (hcursor : cursor = s'.length)
    (htext : s' ++ r' = s ++ r) : Shows cap { t with cursor := cursor } ⟨s', r'⟩ := by
  refine ⟨h.length, ?_, hcursor, ?_⟩
  · rw [htext]
    exact h.buf
  · rw [htext]
    exact h.clean

/-- Another text in the buffer. -/
theorem Shows.replace (h : Shows cap t ⟨s, r⟩) {s' r' rest' : List UInt8} {cursor : ℤ} (hcursor : cursor = s'.length)
    (hlen : (s' ++ r' ++ 0 :: rest').length = t.buf.length) (hclean : 0 ∉ s' ++ r') :
    Shows cap ⟨s' ++ r' ++ 0 :: rest', cursor⟩ ⟨s', r'⟩ :=
  ⟨hlen.trans h.length, ⟨rest', rfl⟩, hcursor, hclean⟩

end

/-- The text behind `p` moves down to the end of a front part of `p`. -/
theorem memmove_down {p o q u : List UInt8} (hp : o <+: p) (h : q.length + 1 < 2 ^ 31) :
    ∃ rest', memmove (p ++ q ++ 0 :: u) o.length p.length (q.length + 1) = .ok (o ++ q ++ 0 :: rest') ∧
      (o ++ q ++ 0 :: rest').length = (p ++ q ++ 0 :: u).length := by
  have hsplit : p ++ q ++ 0 :: u = p ++ (q ++ [0]) ++ u := by simp only [List.append_assoc, List.singleton_append]
  have hle := hp.length_le
  have hlen : (q ++ [0]).length = q.length + 1 := by rw [List.length_append, List.length_singleton]
  have hroom : o.length + (q ++ [0]).length ≤ (p ++ (q ++ [0]) ++ u).length := by
    simp only [List.length_append] at hle ⊢
    omega
  have hfront : (p ++ (q ++ [0]) ++ u).take o.length = o := by
    rw [List.append_assoc, List.take_append_of_le_length hle]
    exact (List.prefix_iff_eq_take.mp hp).symm
  have hpatch : patch (p ++ (q ++ [0]) ++ u) o.length (q ++ [0]) =
      o ++ q ++ 0 :: (p ++ (q ++ [0]) ++ u).drop (o.length + (q ++ [0]).length) := by
    rw [patch, hfront]
    simp only [List.append_assoc, List.singleton_append]
  have hmove := memmove_mid (p := p) (s := q ++ [0]) (u := u) (by omega) hroom
  rw [hlen, Nat.cast_add, Nat.cast_one] at hmove
  have hsame := length_patch hroom
  rw [hpatch] at hmove hsame
  rw [hsplit]
  exact ⟨_, hmove, hsame⟩

/-- The text behind `p` moves up by one, and `c` comes in front of it. -/
theorem memmove_up {p q rest : List UInt8} (h : q.length + 1 < 2 ^ 31) (hrest : rest ≠ []) (c : UInt8) :
    ∃ rest' buf, memmove (p ++ q ++ 0 :: rest) (p.length + 1) p.length (q.length + 1) = .ok buf ∧
      putAt buf p.length c = .ok (p ++ [c] ++ q ++ 0 :: rest') ∧
      (p ++ [c] ++ q ++ 0 :: rest').length = (p ++ q ++ 0 :: rest).length := by
  have hsplit : p ++ q ++ 0 :: rest = p ++ (q ++ [0]) ++ rest := by simp only [List.append_assoc, List.singleton_append]
  have hlen : (q ++ [0]).length = q.length + 1 := by rw [List.length_append, List.length_singleton]
  have hroom : p.length + 1 + (q ++ [0]).length ≤ (p ++ (q ++ [0]) ++ rest).length := by
    have hpos := List.length_pos_iff.mpr hrest
    simp only [List.length_append]
    omega
  have hmove := memmove_mid (p := p) (s := q ++ [0]) (u := rest) (by omega) hroom
  rw [hlen, Nat.cast_add, Nat.cast_add, Nat.cast_one] at hmove
  -- the byte that was at the end of `p` is still there, and is overwritten
  obtain ⟨z, u, hz⟩ : ∃ z u, q ++ [0] ++ rest = z :: u := List.exists_cons_of_ne_nil (by simp)
  have hfront : (p ++ (q ++ [0]) ++ rest).take (p.length + 1) = p ++ [z] := by
    rw [List.append_assoc, hz, List.take_length_add_append]
    rfl
  obtain ⟨rest', hpatch⟩ : ∃ rest', patch (p ++ (q ++ [0]) ++ rest) (p.length + 1) (q ++ [0]) =
      p ++ z :: (q ++ 0 :: rest') := by
    refine ⟨(p ++ (q ++ [0]) ++ rest).drop (p.length + 1 + (q ++ [0]).length), ?_⟩
    rw [patch, hfront]
    simp only [List.append_assoc, List.cons_append, List.nil_append]
  have hsame := length_patch hroom
  have hput : ∀ w : List UInt8, putAt (p ++ z :: w) p.length c = .ok (p ++ c :: w) := by
    intro w
    rw [putAt_natCast (by rw [List.length_append, List.length_cons]; omega), List.set_append_right _ _ le_rfl,
      Nat.sub_self, List.set_cons_zero]
  rw [hpatch] at hmove hsame
  rw [hsplit]
  refine ⟨rest', _, hmove, (hput _).trans (congrArg Except.ok ?_), ?_⟩
  · rw [List.append_assoc p, List.append_assoc p]
    rfl
  · rw [← hsame]
    simp only [List.length_append, List.length_cons, List.length_nil]
    omega

/-! ## One key -/

/-- The key does to the buffer what it does to the text. -/
def Key.Does (cap : ℕ) (t : FieldBuffer) (x : Split) (k : Key) : Prop :=
  Runs (k.run cap t) fun q => Shows cap q.1 (k.edit cap x).1 ∧ q.2 = (k.edit cap x).2

section
variable {cap : ℕ} {t : FieldBuffer} {s r : List UInt8}

theorem Shows.cInt_eq (h : Shows cap t ⟨s, r⟩) (hcap : cap < 2 ^ 31) :
    cInt (s.length + r.length) = s.length + r.length := by
  have hlt := h.length_lt
  rw [cInt_of_lt (by omega)]
  exact Nat.cast_add _ _

theorem insert_does (h : Shows cap t ⟨s, r⟩) (hcap : cap < 2 ^ 31) {ch : ℤ} (hch : char ch ≠ 0) :
    (Key.insert ch).Does cap t ⟨s, r⟩ := by
  have hlt := h.length_lt
  have hlen : (s ++ r).length = s.length + r.length := List.length_append
  refine Runs.map (P := fun q => Shows cap q.1 ((Key.insert ch).edit cap ⟨s, r⟩).1 ∧
    some q.2 = ((Key.insert ch).edit cap ⟨s, r⟩).2) ?_ fun _ => id
  rw [uiTfInsert, h.strlen_eq, ok_bind, h.cInt_eq hcap, cInt_of_lt hcap, Key.edit, hlen]
  by_cases hfull : s.length + r.length + 1 < cap
  · obtain ⟨rest, rfl⟩ := h.exists_rest
    have hrest : rest ≠ [] := by
      rintro rfl
      have hsame := h.length
      simp only [List.length_append, List.length_cons, List.length_nil] at hsame
      omega
    obtain ⟨rest', buf, hmove, hput, hsame⟩ := memmove_up (p := s) (q := r) (by omega) hrest (char ch)
    have hn : (s.length : ℤ) + r.length - s.length + 1 = r.length + 1 := by omega
    rw [if_neg (by omega), if_pos hfull]
    dsimp only
    rw [if_neg (by omega), if_neg (by omega), hn, hmove, ok_bind, hput, ok_bind]
    refine .pure ⟨h.replace ?_ hsame ?_, rfl⟩
    · simp
    · have hclean := h.clean
      simp only [List.mem_append, not_or] at hclean ⊢
      exact ⟨⟨hclean.1, by simpa using hch.symm⟩, hclean.2⟩
  · rw [if_pos (by omega), if_neg hfull]
    exact .pure ⟨h, rfl⟩

theorem backspace_does (h : Shows cap t ⟨s, r⟩) (hcap : cap < 2 ^ 31) : Key.backspace.Does cap t ⟨s, r⟩ := by
  have hlt := h.length_lt
  refine Runs.map (P := fun q => Shows cap q.1 (Key.backspace.edit cap ⟨s, r⟩).1 ∧
    some q.2 = (Key.backspace.edit cap ⟨s, r⟩).2) ?_ fun _ => id
  rw [uiTfBackspace, h.strlen_eq, ok_bind, h.cInt_eq hcap, Key.edit]
  obtain ⟨rest, rfl⟩ := h.exists_rest
  by_cases hs : s = []
  · subst hs
    rw [if_pos (.inl (by simp)), if_pos rfl]
    exact .pure ⟨h, rfl⟩
  · have hpos := List.length_pos_iff.mpr hs
    obtain ⟨rest', hmove, hsame⟩ := memmove_down (p := s) (q := r) (u := rest) s.dropLast_prefix (by omega)
    have hn : (s.length : ℤ) + r.length - s.length + 1 = r.length + 1 := by omega
    have hd : (s.length : ℤ) - 1 = (s.dropLast.length : ℕ) := by
      rw [List.length_dropLast]
      omega
    dsimp only
    rw [if_neg (by omega), if_neg hs, hn, hd, hmove, ok_bind]
    refine .pure ⟨h.replace rfl hsame ?_, rfl⟩
    have hclean := h.clean
    simp only [List.mem_append, not_or] at hclean ⊢
    exact ⟨fun hm => hclean.1 (s.dropLast_subset hm), hclean.2⟩

theorem delete_does (h : Shows cap t ⟨s, r⟩) (hcap : cap < 2 ^ 31) : Key.delete.Does cap t ⟨s, r⟩ := by
  have hlt := h.length_lt
  refine Runs.map (P := fun q => Shows cap q.1 (Key.delete.edit cap ⟨s, r⟩).1 ∧
    some q.2 = (Key.delete.edit cap ⟨s, r⟩).2) ?_ fun _ => id
  rw [uiTfDelete, h.strlen_eq, ok_bind, h.cInt_eq hcap, Key.edit]
  obtain ⟨rest, rfl⟩ := h.exists_rest
  cases r with
  | nil =>
      dsimp only
      rw [if_pos (by simp), if_pos rfl]
      exact .pure ⟨h, rfl⟩
  | cons c r =>
      rw [List.length_cons] at hlt ⊢
      have hsplit : s ++ c :: r ++ 0 :: rest = s ++ [c] ++ r ++ 0 :: rest := by
        simp only [List.append_assoc, List.cons_append, List.nil_append]
      have hsrc : (s.length : ℤ) + 1 = ((s ++ [c]).length : ℕ) := by
        rw [List.length_append, List.length_singleton]
        omega
      obtain ⟨rest', hmove, hsame⟩ := memmove_down (p := s ++ [c]) (o := s) (q := r) (u := rest)
        (List.prefix_append _ _) (by omega)
      have hn : (s.length : ℤ) + (r.length + 1 : ℕ) - s.length = r.length + 1 := by omega
      dsimp only
      rw [if_neg (by omega), if_neg (List.cons_ne_nil _ _), hn, hsrc, hsplit, hmove, ok_bind]
      refine .pure ⟨h.replace rfl ?_ ?_, rfl⟩
      · rw [hsplit]
        exact hsame
      · have hclean := h.clean
        simp only [List.mem_append, List.mem_cons, not_or] at hclean ⊢
        exact ⟨hclean.1, hclean.2.2⟩

theorem killToEnd_does (h : Shows cap t ⟨s, r⟩) (hcap : cap < 2 ^ 31) : Key.killToEnd.Does cap t ⟨s, r⟩ := by
  have hlt := h.length_lt
  refine Runs.map (P := fun q => Shows cap q.1 (Key.killToEnd.edit cap ⟨s, r⟩).1 ∧
    some q.2 = (Key.killToEnd.edit cap ⟨s, r⟩).2) ?_ fun _ => id
  rw [uiTfKillToEnd, h.strlen_eq, ok_bind, h.cInt_eq hcap, Key.edit]
  obtain ⟨rest, rfl⟩ := h.exists_rest
  cases r with
  | nil =>
      dsimp only
      rw [if_pos (by simp), if_pos rfl]
      exact .pure ⟨h, rfl⟩
  | cons c r =>
      have hput : putAt (s ++ c :: r ++ 0 :: rest) s.length 0 = .ok (s ++ [] ++ 0 :: (r ++ 0 :: rest)) := by
        rw [putAt_natCast (by simp only [List.length_append, List.length_cons]; omega), List.append_assoc,
          List.set_append_right _ _ le_rfl, Nat.sub_self, List.cons_append, List.set_cons_zero, List.append_nil]
      dsimp only
      rw [if_neg (by rw [List.length_cons]; omega), if_neg (List.cons_ne_nil _ _), hput, ok_bind]
      refine .pure ⟨h.replace rfl ?_ ?_, rfl⟩
      · simp only [List.length_append, List.length_cons, List.length_nil]
        omega
      · have hclean := h.clean
        simp only [List.mem_append, not_or] at hclean ⊢
        exact ⟨hclean.1, List.not_mem_nil⟩

theorem left_does (h : Shows cap t ⟨s, r⟩) : Key.left.Does cap t ⟨s, r⟩ := by
  refine Runs.map (P := (Shows cap · (Key.left.edit cap ⟨s, r⟩).1)) ?_ fun _ hq => ⟨hq, rfl⟩
  have hcursor := h.cursor
  dsimp only at hcursor
  refine .pure ?_
  rcases List.eq_nil_or_concat s with rfl | ⟨s, c, rfl⟩
  · rw [if_neg (by rw [hcursor]; simp)]
    exact h
  · rw [List.concat_eq_append] at h hcursor ⊢
    rw [List.length_append, List.length_singleton] at hcursor
    rw [if_pos (by omega), Key.edit, List.dropLast_concat, List.getLast?_concat]
    refine h.moved (by omega) ?_
    simp only [Option.toList_some, List.append_assoc]

theorem right_does (h : Shows cap t ⟨s, r⟩) (hcap : cap < 2 ^ 31) : Key.right.Does cap t ⟨s, r⟩ := by
  refine Runs.map (P := (Shows cap · (Key.right.edit cap ⟨s, r⟩).1)) ?_ fun _ hq => ⟨hq, rfl⟩
  have hcursor := h.cursor
  dsimp only at hcursor
  rw [uiTfRight, h.strlen_eq, ok_bind, h.cInt_eq hcap, Key.edit]
  refine .pure ?_
  cases r with
  | nil =>
      rw [if_neg (by rw [hcursor]; simp), List.head?_nil, Option.toList_none, List.append_nil]
      exact h
  | cons c r =>
      rw [if_pos (by rw [hcursor, List.length_cons]; omega)]
      refine h.moved ?_ ?_
      · rw [hcursor, List.length_append]
        rfl
      · simp only [List.head?_cons, Option.toList_some, List.append_assoc, List.tail_cons, List.cons_append,
          List.nil_append]

theorem home_does (h : Shows cap t ⟨s, r⟩) : Key.home.Does cap t ⟨s, r⟩ :=
  Runs.map (P := (Shows cap · (Key.home.edit cap ⟨s, r⟩).1)) (.pure (h.moved rfl rfl)) fun _ hq => ⟨hq, rfl⟩

theorem toEnd_does (h : Shows cap t ⟨s, r⟩) (hcap : cap < 2 ^ 31) : Key.toEnd.Does cap t ⟨s, r⟩ := by
  refine Runs.map (P := (Shows cap · (Key.toEnd.edit cap ⟨s, r⟩).1)) ?_ fun _ hq => ⟨hq, rfl⟩
  rw [uiTfEnd, h.strlen_eq, ok_bind, h.cInt_eq hcap]
  refine .pure (h.moved ?_ (List.append_nil _))
  rw [List.length_append, Nat.cast_add]

theorem clampCursor_does (h : Shows cap t ⟨s, r⟩) (hcap : cap < 2 ^ 31) : Key.clampCursor.Does cap t ⟨s, r⟩ := by
  refine Runs.map (P := (Shows cap · (Key.clampCursor.edit cap ⟨s, r⟩).1)) ?_ fun _ hq => ⟨hq, rfl⟩
  have hcursor := h.cursor
  dsimp only at hcursor
  rw [uiTfClampCursor, h.strlen_eq, ok_bind, h.cInt_eq hcap]
  dsimp only
  rw [if_neg (by omega), if_neg (by omega)]
  exact .pure (h.moved hcursor rfl)

theorem beforeWord_prefix (s : List UInt8) : beforeWord s <+: s :=
  (List.rdropWhile_prefix _ _).trans (List.rdropWhile_prefix _ _)

/-- A kill takes at least one byte. -/
theorem length_beforeWord_lt (hs : s ≠ []) : (beforeWord s).length < s.length := by
  obtain ⟨u, c, rfl⟩ := List.eq_nil_or_concat s |>.resolve_left hs
  rw [beforeWord, List.concat_eq_append, List.length_append, List.length_singleton]
  refine Nat.lt_succ_of_le ?_
  by_cases hc : (c == byte ' ') = true
  · rw [List.rdropWhile_concat_pos (· == byte ' ') _ _ hc]
    exact ((List.rdropWhile_prefix _ _).trans (List.rdropWhile_prefix _ _)).length_le
  · rw [List.rdropWhile_concat_neg (· == byte ' ') _ _ hc,
      List.rdropWhile_concat_pos (· != byte ' ') _ _ (by simpa using hc)]
    exact (List.rdropWhile_prefix _ _).length_le

theorem killWordBack_does (h : Shows cap t ⟨s, r⟩) (hcap : cap < 2 ^ 31) : Key.killWordBack.Does cap t ⟨s, r⟩ := by
  have hlt := h.length_lt
  refine Runs.map (P := fun q => Shows cap q.1 (Key.killWordBack.edit cap ⟨s, r⟩).1 ∧
    some q.2 = (Key.killWordBack.edit cap ⟨s, r⟩).2) ?_ fun _ => id
  have hn := h.strlen_eq
  have hcast := h.cInt_eq hcap
  obtain ⟨rest, rfl⟩ := h.exists_rest
  rw [uiTfKillWordBack, Key.edit]
  by_cases hs : s = []
  · subst hs
    dsimp only
    rw [if_pos (by simp), if_pos rfl]
    exact .pure ⟨h, rfl⟩
  · have hpos := List.length_pos_iff.mpr hs
    have hword := beforeWord_prefix s
    have hshort := length_beforeWord_lt hs
    -- the second loop starts where the first one stopped
    have hspaces : skipBack (· == byte ' ') (s ++ r ++ 0 :: rest) s.length =
        .ok (s.rdropWhile (· == byte ' ')).length := by
      rw [List.append_assoc]
      exact skipBack_append _ _ _
    have hletters : skipBack (· != byte ' ') (s ++ r ++ 0 :: rest) (s.rdropWhile (· == byte ' ')).length =
        .ok (beforeWord s).length := by
      obtain ⟨spaces, hspaces⟩ := List.rdropWhile_prefix (· == byte ' ') s
      have hsplit : s ++ r ++ 0 :: rest = s.rdropWhile (· == byte ' ') ++ (spaces ++ r ++ 0 :: rest) := by
        conv_lhs => rw [← hspaces]
        simp only [List.append_assoc]
      rw [hsplit]
      exact skipBack_append _ _ _
    obtain ⟨rest', hmove, hsame⟩ := memmove_down (q := r) (u := rest) hword (by omega)
    have hrest : (s.length : ℤ) + r.length - s.length + 1 = r.length + 1 := by omega
    dsimp only at hn ⊢
    rw [if_neg (by omega), if_neg hs, Int.toNat_natCast, hspaces, ok_bind, hletters, ok_bind, if_neg (by omega), hn,
      ok_bind, hcast, hrest, hmove, ok_bind]
    refine .pure ⟨h.replace rfl hsame ?_, rfl⟩
    have hclean := h.clean
    simp only [List.mem_append, not_or] at hclean ⊢
    exact ⟨fun hm => hclean.1 (hword.subset hm), hclean.2⟩

theorem Shows.does (h : Shows cap t ⟨s, r⟩) (hcap : cap < 2 ^ 31) {k : Key} (hk : k.Vetted) : k.Does cap t ⟨s, r⟩ := by
  cases k with
  | insert ch => exact insert_does h hcap hk
  | backspace => exact backspace_does h hcap
  | delete => exact delete_does h hcap
  | killToEnd => exact killToEnd_does h hcap
  | left => exact left_does h
  | right => exact right_does h hcap
  | home => exact home_does h
  | toEnd => exact toEnd_does h hcap
  | killWordBack => exact killWordBack_does h hcap
  | clampCursor => exact clampCursor_does h hcap

end

/-! ## The fields of the screens -/

theorem eraseIdx_length_sub_one {s : List UInt8} (hs : s ≠ []) (r : List UInt8) :
    (s ++ r).eraseIdx (s.length - 1) = s.dropLast ++ r := by
  obtain ⟨u, c, rfl⟩ := (List.eq_nil_or_concat s).resolve_left hs
  rw [List.concat_eq_append, List.dropLast_concat, List.length_append, List.length_singleton, Nat.add_sub_cancel,
    List.append_assoc, List.eraseIdx_append_of_length_le le_rfl, Nat.sub_self]
  rfl

/-- A key does to the field of a screen what it does to the text. -/
theorem onField_field (cap : ℕ) (x : Split) (k : Key) :
    k.onField cap x.field = ((k.edit cap x).1.field, (k.edit cap x).2) := by
  obtain ⟨s, r⟩ := x
  change k.onField cap ⟨s ++ r, s.length⟩ = _
  have hlen : (s ++ r).length = s.length + r.length := List.length_append
  cases k with
  | insert ch =>
      rw [Key.onField, TextField.uiTfInsert, Key.edit]
      dsimp only
      by_cases hfull : cap ≤ (s ++ r).length + 1
      · rw [if_pos hfull, if_neg (by omega)]
        rfl
      · rw [if_neg hfull, if_pos (by omega), Nat.min_eq_left (by omega), List.take_left, List.drop_left, Split.field]
        simp only [List.append_assoc, List.singleton_append, List.length_append, List.length_singleton]
  | backspace =>
      rw [Key.onField, TextField.uiTfBackspace, Key.edit]
      dsimp only
      by_cases hs : s = []
      · rw [if_pos (.inl (List.length_eq_zero_iff.mpr hs)), if_pos hs]
        rfl
      · have hne : s ++ r ≠ [] := List.append_ne_nil_of_left_ne_nil hs _
        have hpos := List.length_pos_iff.mpr hs
        rw [if_neg (not_or.mpr ⟨hpos.ne', hne⟩), if_neg hs, eraseIdx_length_sub_one hs, Split.field,
          List.length_dropLast]
  | delete =>
      rw [Key.onField, TextField.uiTfDelete, Key.edit]
      dsimp only
      cases r with
      | nil =>
          rw [if_pos (by simp), if_pos rfl]
          rfl
      | cons c r =>
          rw [if_neg (by rw [hlen, List.length_cons]; omega), if_neg (List.cons_ne_nil _ _),
            List.eraseIdx_append_of_length_le le_rfl, Nat.sub_self]
          rfl
  | killToEnd =>
      rw [Key.onField, TextField.uiTfKillToEnd, Key.edit]
      dsimp only
      cases r with
      | nil =>
          rw [if_pos (by simp), if_pos rfl]
          rfl
      | cons c r =>
          rw [if_neg (by rw [hlen, List.length_cons]; omega), if_neg (List.cons_ne_nil _ _), List.take_left,
            Split.field, List.append_nil]
  | left =>
      rw [Key.onField, TextField.uiTfLeft, Key.edit, Split.field]
      rcases List.eq_nil_or_concat s with rfl | ⟨s, c, rfl⟩
      · rfl
      · simp only [List.concat_eq_append, List.dropLast_concat, List.getLast?_concat, Option.toList_some,
          List.append_assoc, List.length_append, List.length_singleton, Nat.add_sub_cancel]
  | right =>
      rw [Key.onField, TextField.uiTfRight, Key.edit, Split.field]
      cases r with
      | nil =>
          rw [if_neg (by dsimp only; rw [List.append_nil]; omega), List.head?_nil, Option.toList_none, List.tail_nil]
          simp only [List.append_nil]
      | cons c r =>
          rw [if_pos (by dsimp only; rw [hlen, List.length_cons]; omega), List.head?_cons, Option.toList_some,
            List.tail_cons]
          simp only [List.append_assoc, List.singleton_append, List.length_append, List.length_singleton]
  | home => rfl
  | toEnd =>
      rw [Key.onField, TextField.uiTfEnd, Key.edit, Split.field]
      simp only [List.append_nil]
  | killWordBack =>
      rw [Key.onField, TextField.uiTfKillWordBack, Key.edit]
      dsimp only
      rw [List.take_left, List.drop_left, ← beforeWord]
      by_cases hs : s = []
      · rw [if_pos (.inl (List.length_eq_zero_iff.mpr hs)), if_pos hs]
        rfl
      · have hshort := length_beforeWord_lt hs
        have hword := beforeWord_prefix s
        have htake : (s ++ r).take (beforeWord s).length = beforeWord s := by
          rw [List.take_append_of_le_length hword.length_le]
          exact (List.prefix_iff_eq_take.mp hword).symm
        rw [if_neg (not_or.mpr ⟨(Nat.zero_lt_of_lt hshort).ne', hshort.ne⟩), if_neg hs, htake]
        rfl
  | clampCursor =>
      rw [Key.onField, TextField.uiTfClampCursor, Key.edit]
      dsimp only
      rw [Nat.min_eq_left (by omega)]
      rfl

/-! ## Sequences of keys -/

/-- A sequence of keys does to the buffer what it does to the text. -/
theorem Shows.typed {cap : ℕ} (hcap : cap < 2 ^ 31) {ks : List Key} (hks : ∀ k ∈ ks, k.Vetted) {t : FieldBuffer}
    {x : Split} (h : Shows cap t x) : Runs (typed cap t ks) (Shows cap · (edited cap x ks)) := by
  induction ks generalizing t x with
  | nil => exact .pure h
  | cons k ks ih =>
      have hkey := h.does hcap (hks k List.mem_cons_self)
      rw [FieldBuffer.typed, List.foldlM_cons]
      refine (hkey.map (Q := (Shows cap · (k.edit cap x).1)) fun _ hq => hq.1).bind fun t' ht' => ?_
      exact ih (fun k hk => hks k (List.mem_cons_of_mem _ hk)) ht'

theorem editing_of_lt {cap : ℕ} (hcap : cap < 2 ^ 31) : Editing cap where
  key t k h hk := by
    refine (h.shows.does hcap hk).mono fun q hq => ?_
    obtain ⟨hvalid, hsplit⟩ := hq.1.valid
    exact ⟨hvalid, Prod.ext hsplit hq.2⟩
  keys t ks h hks := (h.shows.typed hcap hks).mono fun t' h' => h'.valid

/-- For a capacity that an `int` does not hold an insertion into a text for which there is room does nothing. -/
theorem not_editing {cap : ℕ} (hcap : 2 ^ 31 ≤ cap) : ¬ Editing cap := by
  intro h
  -- as many bytes as the capacity seems to have room for
  obtain ⟨n, hn⟩ : ∃ n, n = (cInt cap - 1).toNat := ⟨_, rfl⟩
  have hle : cInt cap < 2 ^ 31 := (Int.bmod_lt (x := cap) (Nat.two_pow_pos 32)).trans_le (by norm_num)
  have hclean : (0 : UInt8) ∉ List.replicate n (byte 'a') := by
    intro hmem
    exact absurd (List.eq_of_mem_replicate hmem) (by decide)
  obtain ⟨t, ht⟩ : ∃ t : FieldBuffer, t = ⟨List.replicate n (byte 'a') ++ 0 :: List.replicate (cap - n - 1) 0, n⟩ :=
    ⟨_, rfl⟩
  have hshows : Shows cap t ⟨List.replicate n (byte 'a'), []⟩ := by
    rw [ht]
    refine ⟨?_, ⟨_, by rw [List.append_nil]⟩, by rw [List.length_replicate], by rwa [List.append_nil]⟩
    rw [List.length_append, List.length_cons, List.length_replicate, List.length_replicate]
    omega
  obtain ⟨q, hq, -, heq⟩ := h.key t (.insert 97) hshows.valid.1 (show char 97 ≠ 0 by decide)
  have hrefused : (Key.insert 97).run cap t = .ok (t, some false) := by
    have hfull : cInt cap ≤ cInt n + 1 := by
      rw [cInt_of_lt (n := n) (by omega)]
      omega
    rw [Key.run, uiTfInsert, hshows.strlen_eq, ok_bind, List.length_replicate, List.length_nil, Nat.add_zero,
      if_pos hfull]
    rfl
  obtain rfl := Except.ok.inj (hq.symm.trans hrefused)
  rw [hshows.valid.2, Key.edit, List.append_nil, List.length_replicate, if_pos (by omega)] at heq
  have hfalse : some false = some true := congrArg Prod.snd heq
  exact absurd hfalse (by decide)

end FieldBuffer

end SimpleSatOps
