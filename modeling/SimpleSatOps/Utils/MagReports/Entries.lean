import SimpleSatOps.Utils.MagReports

/-!
# Entries with holes

* `Body`, `Fields`, `Entry` : an entry as the satellite writes it, and when it is well formed;
* `Fields.reading` : the reading it stands for;
* `Damaged`, `Framed`, `Timed`, `Marked` : an entry with holes, and where they are;
* `occurs_entry`, `entry_unique` : a key in an entry with holes stands at its place;
* `genericReading_framed`, `namedReading_framed` : the vector of an entry is its own;
* `findI64Back_entry` : so is its time;
* `readAt_framed`, `readAt_timed`, `readAt_marked` : what is read of an entry with holes.
-/

namespace SimpleSatOps.MagReports
open AdcsMag Search

/-! ## Entries -/

/-- A response: the bytes of a frame, or an object without objects in it. -/
inductive Body
  | dump (lead : List UInt8) (toks : List Token)
  | object (lead inner trail : List UInt8)

namespace Body

/-- The part of a response that is read: the first six bytes, or what there is up to the end marker; an object up to
its brace. -/
def core : Body → List UInt8
  | .dump lead toks =>
      if toks.length < 6 then lead ++ toks.flatMap Token.text ++ endMarker else lead ++ (toks.take 6).flatMap Token.text
  | .object lead inner _ => lead ++ byte '{' :: (inner ++ [byte '}'])

/-- The rest, with the end marker. -/
def tail : Body → List UInt8
  | .dump _ toks => if toks.length < 6 then [] else (toks.drop 6).flatMap Token.text ++ endMarker
  | .object _ _ trail => trail ++ endMarker

def text : Body → List UInt8
  | .dump lead toks => lead ++ toks.flatMap Token.text
  | .object lead inner trail => lead ++ byte '{' :: (inner ++ byte '}' :: trail)

/-- White space is as the firmware writes it, and the first six bytes fit the buffer they are copied to. -/
def Ok : Body → Prop
  | .dump lead toks =>
      (∀ c ∈ lead, isGap c = true) ∧ (∀ t ∈ toks.dropLast, t.gap ≠ []) ∧
        (lead ++ (toks.take 6).flatMap Token.text).length < 2048
  | .object lead inner trail =>
      (∀ c ∈ lead, isGap c = true) ∧ byte '{' ∉ inner ∧ byte '}' ∉ inner ∧ ∀ c ∈ trail, isGap c = true

theorem core_append_tail (b : Body) : b.core ++ b.tail = b.text ++ endMarker := by
  cases b with
  | dump lead toks =>
      by_cases hlt : toks.length < 6
      · simp only [core, tail, text, if_pos hlt, List.append_nil]
      · simp only [core, tail, text, if_neg hlt]
        rw [← List.append_assoc, List.append_assoc lead, ← List.flatMap_append, List.take_append_drop]
  | object lead inner trail =>
      simp only [core, tail, text, List.append_assoc, List.cons_append, List.nil_append]

end Body

/-- The parts of an entry: `mid` and `rest` are the fields of the header around its arguments, `gap` the white space
behind the entry. -/
structure Fields where
  tsSent : ℤ
  tsDone : ℤ
  tcmd : List UInt8
  mid : List UInt8
  args : List UInt8
  rest : List UInt8
  body : Body
  gap : List UInt8

/-- The parts of an entry that may have holes. -/
structure Parts where
  front : List UInt8
  mid : List UInt8
  rest : List UInt8
  tail : List UInt8

namespace Fields

/-- The header up to the time the command was done at. -/
def head (e : Fields) : List UInt8 := byte '{' :: (sentKey ++ (decimalInt e.tsSent ++ [byte ',']))

/-- That time. -/
def done (e : Fields) : List UInt8 := doneKey ++ (decimalInt e.tsDone ++ [byte ','])

/-- What stands behind the name of the command. -/
def back (e : Fields) (p : Parts) : List UInt8 :=
  byte '"' :: (p.mid ++ (argsKey ++ (e.args ++ byte '"' :: (p.rest ++ byte '}' :: (e.body.core ++ p.tail)))))

def render (e : Fields) (p : Parts) : List UInt8 := p.front ++ (tcmdKey ++ (e.tcmd ++ e.back p))

def parts (e : Fields) : Parts :=
  { front := e.head ++ e.done, mid := e.mid, rest := e.rest, tail := e.body.tail ++ e.gap }

def text (e : Fields) : List UInt8 := e.render e.parts

/-- The kind of the vector in the response, the vector, and the frame. -/
def found (e : Fields) : Option (RecKind × Vec × ℤ) :=
  match e.body with
  | .dump _ toks =>
      if isGeneric e.tcmd = true ∧ (atoi e.args = 151 ∨ atoi e.args = 159) then
        (vecOfBytes 10 ((toks.take 6).map Token.value)).map fun v =>
          (if atoi e.args = 159 then .igrf else .measured, v, atoi e.args)
      else none
  | .object _ inner _ =>
      if isNamedMag e.tcmd = true ∧ inner.length + 2 < 2048 then
        (adcsMagParse (byte '{' :: (inner ++ [byte '}']))).map fun v => (classify e.tcmd v, v, 0)
      else none

/-- The reading an entry stands for: its vector, its kind, its time. -/
def reading (e : Fields) : Option Reading :=
  if 0 < e.tcmd.length ∧ e.tcmd.length < 64 then e.found.bind (timed e.tcmd e.tsDone e.tsSent) else none

end Fields

/-- The keys that are looked for. -/
def keys : List (List UInt8) := [tcmdKey, argsKey, doneKey, sentKey]

/-- A well-formed entry. A frame request is answered with bytes, a magnetometer command with an object. -/
structure Entry extends Fields where
  sent_range : -2 ^ 63 ≤ tsSent ∧ tsSent ≤ 2 ^ 63 - 1
  done_range : -2 ^ 63 ≤ tsDone ∧ tsDone ≤ 2 ^ 63 - 1
  tcmd_quote : byte '"' ∉ tcmd
  header_brace : byte '}' ∉ mid ∧ byte '}' ∉ args ∧ byte '}' ∉ rest
  body_ok : body.Ok
  gap_blank : ∀ c ∈ gap, isGap c = true
  dump_of_generic : isGeneric tcmd = true → ∃ lead toks, body = .dump lead toks
  object_of_named : isNamedMag tcmd = true → ∃ lead inner trail, body = .object lead inner trail
  once : ∀ key ∈ keys, occurrences key toFields.text ≤ 1

/-! ## Holes -/

/-- Some bytes are blanks. -/
def Damaged (s u : List UInt8) : Prop := List.Forall₂ (fun c d => d = c ∨ d = byte ' ') s u

namespace Fields

/-- The command, its arguments, the end of the header and the response were received. -/
def Framed (e : Fields) (p : Parts) : Prop :=
  Damaged e.parts.mid p.mid ∧ Damaged e.parts.rest p.rest ∧ Damaged e.parts.tail p.tail

/-- The time the reading is of was received. -/
def Timed (e : Fields) (p : Parts) : Prop :=
  p.front = e.head ++ e.done ∨ 0 < e.tsDone ∧ ∃ head, Damaged e.head head ∧ p.front = head ++ e.done

/-- The end marker was received. -/
def Marked (e : Fields) (p : Parts) : Prop := ∃ gap, p.tail = e.body.tail ++ gap

end Fields

theorem Damaged.length_eq {s u : List UInt8} (h : Damaged s u) : s.length = u.length := List.Forall₂.length_eq h

theorem Damaged.not_mem {s u : List UInt8} (h : Damaged s u) {c : UInt8} (hc : c ≠ byte ' ') (hs : c ∉ s) : c ∉ u := by
  induction h with
  | nil => exact hs
  | cons hd _ ih =>
      rw [List.mem_cons, not_or] at hs ⊢
      refine ⟨?_, ih hs.2⟩
      rcases hd with rfl | rfl
      · exact hs.1
      · exact hc

/-! ## The keys of an entry -/

theorem keys_ne : ∀ key ∈ keys, key ≠ [] := by decide

theorem blank_not_mem_keys : ∀ key ∈ keys, byte ' ' ∉ key := by decide

/-- No key has the last byte of an entry in it. -/
theorem exists_last (e : Entry) {u : List UInt8} (h : Damaged e.text u) :
    ∃ c, u[u.length - 1]? = some c ∧ ∀ key ∈ keys, c ∉ key := by
  have hgap : ∀ c, isGap c = true → ∀ key ∈ keys, c ∉ key := by
    intro c hc
    simp only [isGap, Bool.or_eq_true, beq_iff_eq] at hc
    rcases hc with ((rfl | rfl) | rfl) | rfl <;> decide
  have htext : ∃ s c, e.text = s ++ [c] ∧ ∀ key ∈ keys, c ∉ key := by
    have hsplit : ∃ s, e.text = s ++ (endMarker ++ e.gap) := by
      use e.head ++ (e.done ++ (tcmdKey ++ (e.tcmd ++ byte '"' :: (e.mid ++ (argsKey ++ (e.args ++ byte '"' ::
        (e.rest ++ byte '}' :: e.body.text)))))))
      have hbody := e.body.core_append_tail
      simp only [Fields.text, Fields.render, Fields.parts, Fields.back, List.append_assoc, List.cons_append]
      rw [← List.append_assoc e.body.core, hbody, List.append_assoc]
    obtain ⟨s, hs⟩ := hsplit
    rcases List.eq_nil_or_concat e.gap with hnil | ⟨gap, c, hgap'⟩
    · refine ⟨s ++ endMarker.dropLast, byte ']', ?_, by decide⟩
      rw [hs, hnil, List.append_nil, List.append_assoc]
      rfl
    · refine ⟨s ++ (endMarker ++ gap), c, ?_, hgap c (e.gap_blank c (by rw [hgap']; simp))⟩
      rw [hs, hgap', List.concat_eq_append]
      simp only [List.append_assoc]
  obtain ⟨s, c, hs, hc⟩ := htext
  rw [hs] at h
  have hlen := h.length_eq
  have hlast := List.forall₂_drop s.length h
  rw [List.drop_left] at hlast
  rw [List.length_append, List.length_singleton] at hlen
  obtain ⟨d, v, hd, hv, hu⟩ := List.forall₂_cons_left_iff.mp hlast
  refine ⟨d, ?_, ?_⟩
  · have hget : (u.drop s.length)[0]? = some d := by rw [hu]; rfl
    rw [List.getElem?_drop, Nat.add_zero] at hget
    rwa [← hlen, Nat.add_sub_cancel]
  · rcases hd with rfl | rfl
    · exact hc
    · exact blank_not_mem_keys

/-- A key that starts in an entry with holes stands in the entry. -/
theorem occurs_entry (e : Entry) {u : List UInt8} (h : Damaged e.text u) {key : List UInt8} (hkey : key ∈ keys)
    {t : List UInt8} {i : ℕ} (hi : i < u.length) (hocc : Occurs key (u ++ t) i) :
    i + key.length ≤ u.length ∧ Occurs key e.text i := by
  have hin : i + key.length ≤ u.length := by
    by_contra hlt
    obtain ⟨c, hc, hno⟩ := exists_last e h
    refine hno key hkey (hocc.mem (j := u.length - 1) (by omega) (by omega) ?_)
    rw [List.getElem?_append_left (by omega), hc]
  refine ⟨hin, ((occurs_append_iff hin t).mp hocc).of_forall₂ h fun c hc d hd => ?_⟩
  rcases hd with rfl | rfl
  · rfl
  · exact absurd hc (blank_not_mem_keys key hkey)

/-- A key stands in an entry once at most. -/
theorem entry_unique (e : Entry) {u : List UInt8} (h : Damaged e.text u) {key : List UInt8} (hkey : key ∈ keys)
    {t : List UInt8} {i j : ℕ} (hi : i < u.length) (hj : j < u.length) (hocc : Occurs key (u ++ t) i)
    (hocc' : Occurs key (u ++ t) j) : i = j :=
  occurs_unique (keys_ne key hkey) (e.once key hkey) (occurs_entry e h hkey hi hocc).2
    (occurs_entry e h hkey hj hocc').2

/-! ## Times -/

theorem time_border : ∀ key ∈ [doneKey, sentKey], ∀ d < key.length, 0 < d → ¬ key.drop d <+: key := by decide

theorem time_keys : ∀ key ∈ [doneKey, sentKey], key ∈ keys := by decide

theorem strtol_comma {z : ℤ} (h : -2 ^ 63 ≤ z ∧ z ≤ 2 ^ 63 - 1) (s : List UInt8) :
    strtol ((decimalInt z ++ byte ',' :: s).dropWhile fun c => c == byte ' ' || c == byte '\t') = some z := by
  have hdigit : ∀ c, isDigit c = true → (c == byte ' ' || c == byte '\t') = false := by
    intro c hc
    rw [Bool.or_eq_false_iff, beq_eq_false_iff_ne, beq_eq_false_iff_ne]
    constructor
    all_goals
      rintro rfl
      exact absurd hc (by decide)
  have hdecimal : ∀ (n : ℕ) (s : List UInt8),
      (decimal n ++ s).dropWhile (fun c => c == byte ' ' || c == byte '\t') = decimal n ++ s := by
    intro n s
    obtain ⟨c, ds, hds⟩ := List.exists_cons_of_ne_nil (decimal_ne_nil n)
    have hc := hdigit c (isDigit_of_mem_decimal (hds ▸ List.mem_cons_self))
    rw [hds, List.cons_append, List.dropWhile_cons_of_neg (by rw [hc]; exact Bool.false_ne_true)]
  have hhead : (decimalInt z ++ byte ',' :: s).dropWhile (fun c => c == byte ' ' || c == byte '\t') =
      decimalInt z ++ byte ',' :: s := by
    unfold decimalInt
    split_ifs
    · exact List.dropWhile_cons_of_neg (by decide)
    · exact hdecimal _ _
  rw [hhead, strtol_append (by decide) (by decide) (by decide), strtol_decimalInt h.1 h.2]

/-- A time in front of a place is the one of the entry. -/
theorem findI64Back_entry (e : Entry) {u x v t nend pre key : List UInt8} (h : Damaged e.text u)
    (hkey : key ∈ [doneKey, sentKey]) {z : ℤ} (hz : -2 ^ 63 ≤ z ∧ z ≤ 2 ^ 63 - 1)
    (hu : u = x ++ (key ++ (decimalInt z ++ byte ',' :: v))) (hlo : t.length < nend.length)
    (hhi : nend.length ≤ (v ++ t).length) : findI64Back (pre ++ (u ++ t)) nend key = z := by
  have hmem := time_keys key hkey
  have hsplit : u ++ t = x ++ (key ++ (decimalInt z ++ byte ',' :: v) ++ t) := by rw [hu, List.append_assoc]
  have hown : Occurs key (u ++ t) x.length := by
    rw [hsplit, List.append_assoc]
    exact occurs_length x key _
  have hpos := List.length_pos_of_ne_nil (keys_ne key hmem)
  have hlenu : u.length = x.length + (key.length + ((decimalInt z).length + (v.length + 1))) := by
    rw [hu]
    simp only [List.length_append, List.length_cons]
  have hlast : lastBefore key nend.length 0 none (pre ++ (u ++ t)) =
      some (key ++ (decimalInt z ++ byte ',' :: v) ++ t) := by
    rw [hsplit, ← List.append_assoc]
    rw [List.length_append] at hhi
    refine lastBefore_append (time_border key hkey) ?_ ?_ ?_ (Nat.zero_le _) none
    · rw [List.append_assoc]
      exact List.prefix_append key _
    · simp only [List.length_append, List.length_cons]
      omega
    · intro i hi hlt hocc
      simp only [List.length_append, List.length_cons] at hlt
      have hocc' : Occurs key (u ++ t) (x.length + i) := by
        unfold Occurs
        rw [hsplit, List.drop_append, List.drop_of_length_le (Nat.le_add_right _ _), Nat.add_sub_cancel_left]
        exact hocc
      have heq := entry_unique e h hmem (by omega) (by omega) hocc' hown
      omega
  unfold findI64Back
  rw [hlast]
  dsimp only
  rw [List.append_assoc, List.drop_left, List.append_assoc, List.cons_append, strtol_comma hz]
  rfl

/-! ## Vectors -/

/-- Nothing of the end marker and of the next command is in the bytes of a dump. -/
theorem not_mem_toks {c : UInt8} (h : ∀ d < 16, hexDigit d ≠ c) (hgap : isGap c = false) (toks : List Token) :
    c ∉ toks.flatMap Token.text := by
  intro hmem
  obtain ⟨t, -, ht⟩ := List.mem_flatMap.mp hmem
  rw [Token.text, List.mem_append] at ht
  rcases ht with ht | ht
  · unfold Token.digits at ht
    split_ifs at ht with hshort
    · exact h _ (t.short_lt hshort) (List.mem_singleton.mp ht).symm
    · have hbyte := UInt8.toNat_lt t.value
      rw [hexByte, List.mem_cons, List.mem_singleton] at ht
      rcases ht with ht | ht
      · exact h _ (by omega) ht.symm
      · exact h _ (Nat.mod_lt _ (by decide)) ht.symm
  · rw [t.gap_blank c ht] at hgap
    exact Bool.noConfusion hgap

theorem not_mem_lead {c : UInt8} (hgap : isGap c = false) {lead : List UInt8} (h : ∀ c ∈ lead, isGap c = true) :
    c ∉ lead := by
  intro hmem
  rw [h c hmem] at hgap
  exact Bool.noConfusion hgap

theorem endMarker_eq : endMarker = byte '[' :: text "END_RESPONSE]" := by decide

theorem tcmdKey_eq : tcmdKey = byte '"' :: text "tcmd\":\"" := by decide

theorem mark_not_digit : ∀ c ∈ [byte '[', byte '"'], ∀ d < 16, hexDigit d ≠ c := by decide

theorem mark_not_gap : ∀ c ∈ [byte '[', byte '"'], isGap c = false := by decide

theorem mark_not_mem {c : UInt8} (hc : c ∈ [byte '[', byte '"']) {lead : List UInt8} (h : ∀ c ∈ lead, isGap c = true)
    (toks : List Token) : c ∉ lead ++ toks.flatMap Token.text := by
  rw [List.mem_append, not_or]
  exact ⟨not_mem_lead (mark_not_gap c hc) h, not_mem_toks (mark_not_digit c hc) (mark_not_gap c hc) toks⟩

/-- The key of an entry with holes is the first one behind a place in front of it. -/
theorem strstr_entry (e : Entry) {u a x v key : List UInt8} (h : Damaged e.text u) (hkey : key ∈ keys)
    (hu : u = a ++ (x ++ (key ++ v))) (t : List UInt8) :
    strstr key (x ++ (key ++ (v ++ t))) = some (key ++ (v ++ t)) := by
  have hpos := List.length_pos_of_ne_nil (keys_ne key hkey)
  have hsplit : u ++ t = a ++ (x ++ (key ++ (v ++ t))) := by rw [hu]; simp only [List.append_assoc]
  have hlen : u.length = a.length + (x.length + (key.length + v.length)) := by
    rw [hu]
    simp only [List.length_append]
  have hown : Occurs key (u ++ t) (a.length + x.length) := by
    rw [hsplit, ← List.append_assoc, ← List.length_append]
    exact occurs_length (a ++ x) key _
  rw [strstr_skip, strstr_of_isPrefix (keys_ne key hkey) (List.prefix_append key _)]
  intro i hi hocc
  have hocc' : Occurs key (u ++ t) (a.length + i) := by
    unfold Occurs
    rw [hsplit, List.drop_append, List.drop_of_length_le (Nat.le_add_right _ _), Nat.add_sub_cancel_left]
    exact hocc
  have heq := entry_unique e h hkey (by omega) (by omega) hocc' hown
  omega

/-- The frame of an entry. -/
theorem frame_entry (e : Entry) {p : Parts} (h : Damaged e.text (e.render p)) (t : List UInt8) :
    strstr argsKey (e.back p ++ t) =
      some (argsKey ++ (e.args ++ byte '"' :: (p.rest ++ byte '}' :: (e.body.core ++ (p.tail ++ t))))) := by
  have hkey : argsKey ∈ keys := by decide
  have hu : e.render p = (p.front ++ (tcmdKey ++ e.tcmd)) ++ ((byte '"' :: p.mid) ++ (argsKey ++
      (e.args ++ byte '"' :: (p.rest ++ byte '}' :: (e.body.core ++ p.tail))))) := by
    simp only [Fields.render, Fields.back, List.append_assoc, List.cons_append]
  have hfound := strstr_entry e h hkey hu t
  simp only [List.append_assoc, List.cons_append] at hfound
  simp only [Fields.back, List.append_assoc, List.cons_append]
  exact hfound

/-- The six bytes run into nothing, in a text with holes or cut off. -/
theorem parted_six {toks : List Token} (hparted : ∀ t ∈ toks.dropLast, t.gap ≠ []) (hsix : 6 ≤ toks.length)
    {gap tail : List UInt8} (htail : Damaged ((toks.drop 6).flatMap Token.text ++ endMarker ++ gap) tail)
    (t : List UInt8) (k : ℕ) : Parted ((tail ++ t).take k) (toks.take 6) := by
  rcases Nat.lt_or_eq_of_le hsix with hlt | heq
  · have htake : toks.take 6 = toks.dropLast.take 6 := by
      rw [List.dropLast_eq_take, List.take_take, Nat.min_eq_left (by omega)]
    rw [htake]
    exact parted_of_gaps (fun t ht => hparted t (List.mem_of_mem_take ht)) _
  · rw [List.take_of_length_le heq.ge]
    refine parted_of_dropLast hparted (digit_take ?_ k)
    rw [List.drop_eq_nil_of_le heq.ge, List.flatMap_nil, List.nil_append, endMarker_eq, List.cons_append] at htail
    obtain ⟨d, v, hd, -, rfl⟩ := List.forall₂_cons_left_iff.mp htail
    have hnone : hexval (byte '[') = none ∧ hexval (byte ' ') = none := by decide
    rcases hd with rfl | rfl
    · exact hnone.1
    · exact hnone.2

theorem frameBound_skip {x : List UInt8} (hx : byte '[' ∉ x ∧ byte '"' ∉ x) (y : List UInt8) :
    frameBound (x ++ y) = frameBound y := by
  unfold frameBound
  rw [endMarker_eq, tcmdKey_eq, strstr_skip_of_not_mem hx.1, strstr_skip_of_not_mem hx.2]

theorem frameBound_length_le {y bound : List UInt8} (h : frameBound y = some bound) : bound.length ≤ y.length := by
  rcases Option.or_eq_some_iff.mp h with h | ⟨-, h⟩ <;> exact strstr_length_le h

theorem text_ne_nil {toks : List Token} (h : toks ≠ []) : 0 < (toks.flatMap Token.text).length := by
  obtain ⟨t, toks, rfl⟩ := List.exists_cons_of_ne_nil h
  rw [List.flatMap_cons, List.length_append, Token.text, List.length_append]
  have hdigits : 0 < t.digits.length := by
    unfold Token.digits
    split_ifs <;> exact Nat.succ_pos _
  omega

/-- A response of too few bytes has no vector. -/
theorem frameVec_short {lead : List UInt8} {toks : List Token} (hlead : ∀ c ∈ lead, isGap c = true)
    (hparted : ∀ t ∈ toks.dropLast, t.gap ≠ []) (hshort : toks.length < 6)
    (hfit : (lead ++ toks.flatMap Token.text).length < 2048) (w : List UInt8) :
    frameVec (lead ++ toks.flatMap Token.text ++ endMarker ++ w) = none := by
  have hmark : frameBound (endMarker ++ w) = some (endMarker ++ w) := by
    unfold frameBound
    rw [strstr_of_isPrefix (by decide) (List.prefix_append endMarker w)]
    rfl
  have hskip := frameBound_skip ⟨mark_not_mem (by decide) hlead toks, mark_not_mem (by decide) hlead toks⟩
    (endMarker ++ w)
  have htl : (lead ++ toks.flatMap Token.text ++ (endMarker ++ w)).length - (endMarker ++ w).length =
      (lead ++ toks.flatMap Token.text).length := by
    rw [List.length_append, Nat.add_sub_cancel]
  have hnone : adcsMagParseTelemHex (lead ++ toks.flatMap Token.text) 10 = none := by
    unfold adcsMagParseTelemHex
    rw [telemBytes_short (parted_of_dropLast hparted rfl) hlead hshort]
    rfl
  unfold frameVec
  rw [List.append_assoc (lead ++ _), hskip, hmark]
  simp only [Option.bind_eq_bind, Option.bind_some, htl]
  rw [if_neg (Nat.not_le.mpr hfit), List.take_left, hnone]
  exact Option.bind_fun_none _

/-- Six bytes are read, wherever the response ends. -/
theorem frameVec_six {lead : List UInt8} {toks : List Token} (hlead : ∀ c ∈ lead, isGap c = true)
    (hsix : toks.length = 6) {w : List UInt8} (hparted : ∀ k, Parted (w.take k) toks)
    (hfit : (lead ++ toks.flatMap Token.text).length < 2048) :
    frameVec (lead ++ toks.flatMap Token.text ++ w) =
      (frameBound (lead ++ toks.flatMap Token.text ++ w)).bind fun _ => vecOfBytes 10 (toks.map Token.value) := by
  have hskip := frameBound_skip ⟨mark_not_mem (by decide) hlead toks, mark_not_mem (by decide) hlead toks⟩ w
  have hpos : 0 < (toks.flatMap Token.text).length := text_ne_nil (List.ne_nil_of_length_pos (by omega))
  unfold frameVec
  rw [hskip]
  cases hbound : frameBound w with
  | none => rfl
  | some bound =>
      have hle := frameBound_length_le hbound
      have hparse : ∀ n, (lead ++ toks.flatMap Token.text).length ≤ n →
          adcsMagParseTelemHex ((lead ++ toks.flatMap Token.text ++ w).take n) 10 =
            vecOfBytes 10 (toks.map Token.value) := by
        intro n hn
        have hbytes := telemBytes_tokens (hparted (n - (lead ++ toks.flatMap Token.text).length)) hlead
        rw [hsix] at hbytes
        unfold adcsMagParseTelemHex
        rw [List.take_append, List.take_of_length_le hn, List.append_assoc, hbytes]
        rfl
      simp only [Option.bind_eq_bind, Option.bind_some, List.length_append] at hfit hparse ⊢
      rw [guard, if_pos (by omega), hparse _ (by split_ifs <;> omega)]
      rfl

/-- The vector in the response to a frame request is its own, where an end of the response is found. -/
theorem frameVec_core {lead : List UInt8} {toks : List Token} (hok : (Body.dump lead toks).Ok) {gap tail : List UInt8}
    (htail : Damaged ((Body.dump lead toks).tail ++ gap) tail) (t : List UInt8) :
    frameVec ((Body.dump lead toks).core ++ (tail ++ t)) = (frameBound ((Body.dump lead toks).core ++ (tail ++ t))).bind
      fun _ => vecOfBytes 10 ((toks.take 6).map Token.value) := by
  obtain ⟨hlead, hparted, hfit⟩ := hok
  by_cases hlt : toks.length < 6
  · have hall : toks.take 6 = toks := List.take_of_length_le hlt.le
    have hshort : vecOfBytes 10 (toks.map Token.value) = none := by
      unfold vecOfBytes
      split
      · rename_i heq
        have hlen := congrArg List.length heq
        rw [List.length_map] at hlen
        exact absurd hlt (by rw [hlen]; exact Nat.lt_irrefl 6)
      · rfl
    rw [hall] at hfit
    simp only [Body.core, if_pos hlt]
    rw [frameVec_short hlead hparted hlt hfit, hall, hshort]
    exact (Option.bind_fun_none _).symm
  · have hsix := Nat.not_lt.mp hlt
    simp only [Body.core, Body.tail, if_neg hlt] at htail ⊢
    exact frameVec_six hlead (by rw [List.length_take, Nat.min_eq_left hsix]) (parted_six hparted hsix htail t) hfit

/-- The vector of a frame request is its own, where an end of the response is found. -/
theorem genericReading_framed (e : Entry) {p : Parts} (h : Damaged e.text (e.render p)) (hp : e.Framed p)
    (hgen : isGeneric e.tcmd = true) (t : List UInt8) :
    genericReading (e.back p ++ t) (byte '}' :: (e.body.core ++ (p.tail ++ t))) =
      (frameBound (e.body.core ++ (p.tail ++ t))).bind fun _ => e.found := by
  obtain ⟨lead, toks, hbody⟩ := e.dump_of_generic hgen
  have hok := e.body_ok
  have htail := hp.2.2
  simp only [Fields.parts, hbody] at hok htail
  have hatoi : ∀ y, atoi ((argsKey ++ (e.args ++ byte '"' :: y)).drop argsKey.length) = atoi e.args := by
    intro y
    rw [List.drop_left]
    unfold atoi
    rw [strtol_append (by decide) (by decide) (by decide)]
  have hroom : ∀ y : List UInt8, y.length < (argsKey ++ (e.args ++ byte '"' :: (p.rest ++ y))).length := by
    intro y
    simp only [List.length_append, List.length_cons]
    omega
  unfold genericReading Fields.found
  rw [frame_entry e h t]
  simp only [if_pos (hroom _), hatoi, Option.bind_eq_bind, List.drop_one, List.tail_cons, hbody,
    frameVec_core hok htail t, hgen, true_and]
  by_cases hframe : atoi e.args = 151 ∨ atoi e.args = 159
  · rw [guard, if_pos hframe, if_pos hframe]
    cases frameBound ((Body.dump lead toks).core ++ (p.tail ++ t)) <;>
      cases vecOfBytes 10 ((toks.take 6).map Token.value) <;> rfl
  · rw [guard, if_neg hframe, if_neg hframe]
    exact (Option.bind_fun_none _).symm

/-- The vector in the object behind a header is its own. -/
theorem objectVec_core {lead inner trail : List UInt8} (hok : (Body.object lead inner trail).Ok) (w : List UInt8) :
    objectVec ((Body.object lead inner trail).core ++ w) =
      if inner.length + 2 < 2048 then adcsMagParse (byte '{' :: (inner ++ [byte '}'])) else none := by
  obtain ⟨hlead, -, hbrace, -⟩ := hok
  have hcore : (Body.object lead inner trail).core ++ w = lead ++ byte '{' :: (inner ++ byte '}' :: w) := by
    simp only [Body.core, List.append_assoc, List.cons_append, List.nil_append]
  have hopen : strchr (byte '{') (lead ++ byte '{' :: (inner ++ byte '}' :: w)) =
      some (byte '{' :: (inner ++ byte '}' :: w)) := strchr_append (not_mem_lead (by decide) hlead) _
  have hclose : strchr (byte '}') (byte '{' :: (inner ++ byte '}' :: w)) = some (byte '}' :: w) := by
    refine strchr_append (x := byte '{' :: inner) ?_ w
    rw [List.mem_cons, not_or]
    exact ⟨by decide, hbrace⟩
  have htl : (byte '{' :: (inner ++ byte '}' :: w)).length - w.length = inner.length + 2 := by
    simp only [List.length_append, List.length_cons]
    omega
  have htake : (byte '{' :: (inner ++ byte '}' :: w)).take (inner.length + 2) = byte '{' :: (inner ++ [byte '}']) := by
    rw [List.take_succ_cons, List.take_append, List.take_of_length_le (Nat.le_succ _), Nat.add_sub_cancel_left]
    rfl
  have hroom : w.length < (byte '{' :: (inner ++ byte '}' :: w)).length := by
    simp only [List.length_append, List.length_cons]
    omega
  unfold objectVec
  rw [hcore, hopen]
  simp only [Option.bind_eq_bind, Option.bind_some, hclose, Option.map_some, List.drop_one, List.tail_cons,
    Option.some_or, htl, htake]
  rw [guard, if_pos hroom]
  by_cases hfit : inner.length + 2 < 2048
  · rw [guard, if_pos hfit, if_pos hfit]
    rfl
  · rw [guard, if_neg hfit, if_neg hfit]
    rfl

/-! ## What is read of an entry -/

theorem frameBound_marked {lead : List UInt8} {toks : List Token} (gap t : List UInt8) :
    (frameBound ((Body.dump lead toks).core ++ ((Body.dump lead toks).tail ++ gap ++ t))).isSome := by
  have htext := (Body.dump lead toks).core_append_tail
  have hin : endMarker <:+: (Body.dump lead toks).core ++ ((Body.dump lead toks).tail ++ gap ++ t) := by
    refine ⟨(Body.dump lead toks).text, gap ++ t, ?_⟩
    rw [← htext]
    simp only [List.append_assoc]
  have hsome := strstr_isSome (by decide) hin
  unfold frameBound
  rw [Option.isSome_or, hsome]
  rfl

theorem hdrEnd_entry (e : Entry) {p : Parts} (hp : e.Framed p) (t : List UInt8) :
    strchr (byte '}') (e.back p ++ t) = some (byte '}' :: (e.body.core ++ (p.tail ++ t))) := by
  obtain ⟨hmid, hrest, -⟩ := hp
  obtain ⟨hmid', hargs, hrest'⟩ := e.header_brace
  have hsplit : e.back p ++ t = (byte '"' :: (p.mid ++ (argsKey ++ (e.args ++ byte '"' :: p.rest)))) ++
      byte '}' :: (e.body.core ++ (p.tail ++ t)) := by
    simp only [Fields.back, List.append_assoc, List.cons_append]
  rw [hsplit]
  refine strchr_append ?_ _
  have hkey : byte '}' ∉ argsKey := by decide
  have hne : byte '}' ≠ byte '"' := by decide
  have hblank : byte '}' ≠ byte ' ' := by decide
  simp only [List.mem_cons, List.mem_append, not_or]
  exact ⟨hne, hmid.not_mem hblank hmid', hkey, hargs, hne, hrest.not_mem hblank hrest'⟩

/-- The vector is the one of the entry, where the end of the response is seen; the times are what stands in front of
it. -/
theorem readAt_framed (e : Entry) {p : Parts} (h : Damaged e.text (e.render p)) (hp : e.Framed p)
    (buf t : List UInt8) : ∃ seen : Option (List UInt8), (e.Marked p → seen.isSome = true) ∧
      readAt buf (e.tcmd ++ (e.back p ++ t)) (e.back p ++ t) = seen.bind fun _ =>
        if 0 < e.tcmd.length ∧ e.tcmd.length < 64 then
          e.found.bind
            (timed e.tcmd (findI64Back buf (e.back p ++ t) doneKey) (findI64Back buf (e.back p ++ t) sentKey))
        else none := by
  have hnl : (e.tcmd ++ (e.back p ++ t)).length - (e.back p ++ t).length = e.tcmd.length := by
    rw [List.length_append, Nat.add_sub_cancel]
  have hread : ∀ found, (if isGeneric e.tcmd = true then
        genericReading (e.back p ++ t) (byte '}' :: (e.body.core ++ (p.tail ++ t)))
      else namedReading e.tcmd (byte '}' :: (e.body.core ++ (p.tail ++ t)))) = found →
      readAt buf (e.tcmd ++ (e.back p ++ t)) (e.back p ++ t) =
        if 0 < e.tcmd.length ∧ e.tcmd.length < 64 then
          if isGeneric e.tcmd = true ∨ isNamedMag e.tcmd = true then
            found.bind
              (timed e.tcmd (findI64Back buf (e.back p ++ t) doneKey) (findI64Back buf (e.back p ++ t) sentKey))
          else none
        else none := by
    rintro found rfl
    unfold readAt
    simp only [hnl, List.take_left, hdrEnd_entry e hp t, Option.bind_eq_bind, Option.bind_some]
    by_cases hlen : 0 < e.tcmd.length ∧ e.tcmd.length < 64
    · by_cases hname : isGeneric e.tcmd = true ∨ isNamedMag e.tcmd = true
      · simp only [guard, if_pos hlen, if_pos hname, Option.pure_def, Option.bind_some]
        split_ifs <;> rfl
      · simp only [guard, if_pos hlen, if_neg hname, Option.pure_def, Option.bind_some]
        rfl
    · rw [guard, if_neg hlen, if_neg hlen]
      rfl
  by_cases hgen : isGeneric e.tcmd = true
  · obtain ⟨lead, toks, hbody⟩ := e.dump_of_generic hgen
    refine ⟨frameBound (e.body.core ++ (p.tail ++ t)), ?_, ?_⟩
    · rintro ⟨gap, hgap⟩
      rw [hgap, hbody]
      exact frameBound_marked gap t
    · rw [hread _ (by rw [if_pos hgen, genericReading_framed e h hp hgen t]), if_pos (Or.inl hgen)]
      cases frameBound (e.body.core ++ (p.tail ++ t)) with
      | none => exact ite_self none
      | some _ => rfl
  · refine ⟨some [], fun _ => rfl, ?_⟩
    rw [hread _ (by rw [if_neg hgen])]
    by_cases hnamed : isNamedMag e.tcmd = true
    · obtain ⟨lead, inner, trail, hbody⟩ := e.object_of_named hnamed
      have hok := e.body_ok
      have hfound : namedReading e.tcmd (byte '}' :: (e.body.core ++ (p.tail ++ t))) = e.found := by
        unfold namedReading Fields.found
        rw [hbody] at hok ⊢
        simp only [List.drop_one, List.tail_cons, objectVec_core hok, hnamed, true_and]
        split_ifs <;> rfl
      rw [if_pos (Or.inr hnamed), hfound]
      rfl
    · have hfound : e.found = none := by
        unfold Fields.found
        cases e.body with
        | dump lead toks => exact if_neg fun hboth => hgen hboth.1
        | object lead inner trail => exact if_neg fun hboth => hnamed hboth.1
      have hneither : ¬ (isGeneric e.tcmd = true ∨ isNamedMag e.tcmd = true) := not_or.mpr ⟨hgen, hnamed⟩
      rw [if_neg hneither, hfound]
      rfl

/-- The command of a reading, its kind, its vector and its time. -/
def Reading.what (r : Reading) : List UInt8 × RecKind × Vec × ℤ := (r.command, r.kind, r.v, r.measMs)

/-- The kind and the vector are what was found. -/
theorem timed_found {command : List UInt8} {tsdone tssent : ℤ} {found : RecKind × Vec × ℤ} {r : Reading}
    (h : timed command tsdone tssent found = some r) : r.command = command ∧ (r.kind, r.v, r.telemFrame) = found := by
  unfold timed at h
  dsimp only at h
  split_ifs at h
  all_goals
    obtain rfl := (Option.some.inj h).symm
    exact ⟨rfl, rfl⟩

/-- A positive `ts_done` is the time, whatever `ts_sent` is. -/
theorem timed_what {tsdone tssent tssent' : ℤ} (h : 0 < tsdone ∨ tssent = tssent') (command : List UInt8)
    (found : RecKind × Vec × ℤ) :
    (timed command tsdone tssent found).map Reading.what = (timed command tsdone tssent' found).map Reading.what := by
  rcases h with hpos | rfl
  · unfold timed
    simp only [if_pos hpos, if_neg (Int.not_le.mpr hpos)]
    rfl
  · rfl

/-- The command, the kind, the vector and the time are the ones of the entry. -/
theorem readAt_timed (e : Entry) {p : Parts} (h : Damaged e.text (e.render p)) (hp : e.Framed p) (htime : e.Timed p)
    (pre t : List UInt8) : ∃ seen : Option (List UInt8), (e.Marked p → seen.isSome = true) ∧
      (readAt (pre ++ (e.render p ++ t)) (e.tcmd ++ (e.back p ++ t)) (e.back p ++ t)).map Reading.what =
        seen.bind fun _ => e.reading.map Reading.what := by
  obtain ⟨seen, hseen, hread⟩ := readAt_framed e h hp (pre ++ (e.render p ++ t)) t
  have hlo : t.length < (e.back p ++ t).length := by
    rw [List.length_append, Fields.back, List.length_cons]
    omega
  have hdone : findI64Back (pre ++ (e.render p ++ t)) (e.back p ++ t) doneKey = e.tsDone := by
    have hfront : ∃ head, p.front = head ++ e.done := by
      rcases htime with hall | ⟨-, head, -, hhead⟩
      · exact ⟨_, hall⟩
      · exact ⟨head, hhead⟩
    obtain ⟨head, hhead⟩ := hfront
    refine findI64Back_entry e (x := head) (v := tcmdKey ++ (e.tcmd ++ e.back p)) h (by decide) e.done_range ?_ hlo ?_
    · rw [Fields.render, hhead, Fields.done]
      simp only [List.append_assoc, List.cons_append, List.nil_append]
    · simp only [List.length_append]
      omega
  have hsent : 0 < e.tsDone ∨ findI64Back (pre ++ (e.render p ++ t)) (e.back p ++ t) sentKey = e.tsSent := by
    rcases htime with hall | ⟨hpos, -⟩
    · right
      refine findI64Back_entry e (x := [byte '{']) (v := e.done ++ (tcmdKey ++ (e.tcmd ++ e.back p))) h (by decide)
        e.sent_range ?_ hlo ?_
      · rw [Fields.render, hall, Fields.head]
        simp only [List.append_assoc, List.cons_append, List.nil_append]
      · simp only [List.length_append]
        omega
    · exact Or.inl hpos
  refine ⟨seen, hseen, ?_⟩
  rw [hread, hdone, Fields.reading]
  cases seen with
  | none => rfl
  | some _ =>
      simp only [Option.bind_some]
      split_ifs
      · cases e.found with
        | none => rfl
        | some found => exact timed_what hsent e.tcmd found
      · rfl

end SimpleSatOps.MagReports
