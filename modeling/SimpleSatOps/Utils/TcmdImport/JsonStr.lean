import SimpleSatOps.Ipc.WireText
import SimpleSatOps.Lib.Search
import SimpleSatOps.Proto.AgendaLine

/-!
# The string fields of a logged event (`json_str`)

* `unescapeInto`, `jsonStr` : the copying loop, and the value behind the first place where the quoted key stands;
* `respell` : what the loop makes of the escape that `json_append_escaped` writes for a byte;
* `unescapeInto_escape` : what it makes of an escaped string;
* `strstr_escape` : a quoted key is found inside an escaped string only at its end;
* `jsonStr_of_strstr` : the value of a string field.
-/

namespace SimpleSatOps.TcmdImport
open Ipc Json Search AgendaLine

/-! ## The reader -/

/-- The byte that stands for an escape. -/
def unescaped (c : UInt8) : UInt8 :=
  if c = byte 'n' then byte '\n' else if c = byte 't' then byte '\t' else c

/-- The loop of `json_str`, with room for some bytes. -/
def unescapeInto : ℕ → List UInt8 → List UInt8
  | 0, _ => []
  | _ + 1, [] => []
  | room + 1, c :: s =>
      if c = byte '"' then []
      else if c = byte '\\' then
        match s with
        | [] => c :: unescapeInto room []
        | e :: s => unescaped e :: unescapeInto room s
      else c :: unescapeInto room s

/-- `json_str`. -/
def jsonStr (line key : List UInt8) (outn : ℕ) : Option (List UInt8) :=
  if outn = 0 ∨ 32 ≤ (quoted key).length then none
  else
    (strstr (quoted key) line).bind fun p =>
      match (p.drop (quoted key).length).dropWhile isBlank with
      | [] => none
      | c :: p =>
          if c ≠ byte ':' then none
          else
            match p.dropWhile isBlank with
            | [] => none
            | c :: p => if c ≠ byte '"' then none else some (unescapeInto (outn - 1) p)

/-! ## The loop on an escaped string -/

/-- A byte as it comes out of the loop: the escapes `\r` and `\u00xx` only lose their backslash. -/
def respell (c : UInt8) : List UInt8 :=
  if c = byte '\r' then [byte 'r']
  else if c < 0x20 ∧ c ≠ byte '\n' ∧ c ≠ byte '\t' then text "u00" ++ hexByte c
  else [c]

def respelled (s : List UInt8) : List UInt8 := s.flatMap respell

/-- The bytes that come out as they went in. -/
def Plain (c : UInt8) : Prop := 0x20 ≤ c ∨ c = byte '\n' ∨ c = byte '\t'

instance : DecidablePred Plain := fun _ => inferInstanceAs (Decidable (_ ∨ _))

theorem respelled_cons (c : UInt8) (s : List UInt8) : respelled (c :: s) = respell c ++ respelled s := rfl

theorem respell_plain {c : UInt8} (h : Plain c) : respell c = [c] := by
  have hr : c ≠ byte '\r' := by
    rintro rfl
    exact absurd h (by decide)
  have hcontrol : ¬ (c < 0x20 ∧ c ≠ byte '\n' ∧ c ≠ byte '\t') := by
    rintro ⟨hlt, hn, ht⟩
    rcases h with h | h | h
    · exact absurd hlt (UInt8.not_lt.mpr h)
    · exact hn h
    · exact ht h
  rw [respell, if_neg hr, if_neg hcontrol]

theorem control_of_not_plain {c : UInt8} (h : ¬ Plain c) : c < 0x20 ∧ c ≠ byte '\n' ∧ c ≠ byte '\t' := by
  unfold Plain at h
  rw [not_or, not_or] at h
  exact ⟨UInt8.not_le.mp h.1, h.2⟩

/-- A control byte comes out as a letter, and digits. -/
theorem respell_control {c : UInt8} (h : ¬ Plain c) :
    ∃ b t, respell c = b :: t ∧ b ∈ text "ru" ∧ ∀ d ∈ t, isXdigit d = true := by
  have hcontrol := control_of_not_plain h
  unfold respell
  split_ifs with hr
  · exact ⟨byte 'r', [], rfl, by decide, fun d hd => absurd hd List.not_mem_nil⟩
  · have hu : text "u00" = [byte 'u', byte '0', byte '0'] := by decide
    rw [hu]
    exact ⟨byte 'u', byte '0' :: byte '0' :: hexByte c, rfl, by decide, isXdigit_hexByte hcontrol.1⟩

theorem length_respell_pos (c : UInt8) : 0 < (respell c).length := by
  by_cases h : Plain c
  · rw [respell_plain h]
    exact Nat.one_pos
  · obtain ⟨b, t, heq, -⟩ := respell_control h
    rw [heq]
    exact Nat.succ_pos _

theorem unescapeInto_succ (room : ℕ) (c : UInt8) (s : List UInt8) :
    unescapeInto (room + 1) (c :: s) =
      if c = byte '"' then []
      else if c = byte '\\' then
        match s with
        | [] => c :: unescapeInto room []
        | e :: s => unescaped e :: unescapeInto room s
      else c :: unescapeInto room s := by
  rw [unescapeInto.eq_def]

/-- A smaller room cuts the text. -/
theorem take_unescapeInto (m k : ℕ) (s : List UInt8) : (unescapeInto (m + k) s).take m = unescapeInto m s := by
  induction m generalizing s with
  | zero =>
      rw [List.take_zero]
      unfold unescapeInto
      rfl
  | succ m ih =>
      rw [Nat.add_right_comm]
      cases s with
      | nil => rfl
      | cons c s =>
          rw [unescapeInto_succ, unescapeInto_succ]
          split_ifs
          · rfl
          · cases s with
            | nil => exact congrArg (c :: ·) (ih [])
            | cons e s => exact congrArg (unescaped e :: ·) (ih s)
          · exact congrArg (c :: ·) (ih s)

theorem unescapeInto_plain {c : UInt8} (hquote : c ≠ byte '"') (hback : c ≠ byte '\\') (room : ℕ) (s : List UInt8) :
    unescapeInto (room + 1) (c :: s) = c :: unescapeInto room s := by
  rw [unescapeInto_succ, if_neg hquote, if_neg hback]

theorem unescapeInto_escaped (room : ℕ) (e : UInt8) (s : List UInt8) :
    unescapeInto (room + 1) (byte '\\' :: e :: s) = unescaped e :: unescapeInto room s := by
  have hne : byte '\\' ≠ byte '"' := by decide
  rw [unescapeInto_succ, if_neg hne, if_pos rfl]

/-- Digits and letters are copied. -/
theorem unescapeInto_append {x : List UInt8} (hx : ∀ c ∈ x, isXdigit c = true) (room : ℕ) (s : List UInt8) :
    unescapeInto (x.length + room) (x ++ s) = x ++ unescapeInto room s := by
  induction x with
  | nil => rw [List.length_nil, Nat.zero_add, List.nil_append, List.nil_append]
  | cons c x ih =>
      have hc := hx c List.mem_cons_self
      have hquote : c ≠ byte '"' := by
        rintro rfl
        exact absurd hc (by decide)
      have hback : c ≠ byte '\\' := by
        rintro rfl
        exact absurd hc (by decide)
      rw [List.length_cons, Nat.add_right_comm, List.cons_append, unescapeInto_plain hquote hback,
        ih fun d hd => hx d (List.mem_cons_of_mem c hd)]
      rfl

/-- An escaped byte comes out respelled. -/
theorem unescapeInto_escapeByte (c : UInt8) (room : ℕ) (s : List UInt8) :
    unescapeInto ((respell c).length + room) (escapeByte c ++ s) = respell c ++ unescapeInto room s := by
  rcases escapeByte_cases c with ⟨e, he, heq, hchar, -⟩ | ⟨hlt, hmem, heq⟩ | ⟨hge, hquote, hback, heq⟩
  · have hall : ∀ e ∈ text "\"\\nrt", respell (JsonText.unescapeChar e) = [unescaped e] := by decide
    have hrespell : respell c = [unescaped e] := by
      rw [← hchar]
      exact hall e he
    rw [hrespell, heq, List.length_singleton, Nat.add_comm 1 room]
    exact unescapeInto_escaped room e s
  · have htext : text "\n\r\t" = [byte '\n', byte '\r', byte '\t'] := by decide
    simp only [htext, List.mem_cons, List.not_mem_nil, or_false, not_or] at hmem
    have hrespell : respell c = byte 'u' :: (byte '0' :: byte '0' :: hexByte c) := by
      have hu : text "u00" = [byte 'u', byte '0', byte '0'] := by decide
      rw [respell, if_neg hmem.2.1, if_pos ⟨hlt, hmem.1, hmem.2.2⟩, hu]
      rfl
    rw [hrespell, heq, text_u00, List.length_cons, Nat.add_right_comm]
    show unescapeInto _ (byte '\\' :: byte 'u' :: (byte '0' :: byte '0' :: hexByte c ++ s)) = _
    rw [unescapeInto_escaped, unescapeInto_append (isXdigit_hexByte hlt)]
    rfl
  · rw [respell_plain (.inl hge), heq, List.length_singleton, Nat.add_comm 1 room]
    exact unescapeInto_plain hquote hback room s

/-- **An escaped string is read back**, respelled and as far as there is room. -/
theorem unescapeInto_escape (room : ℕ) (s rest : List UInt8) :
    unescapeInto room (escape s ++ byte '"' :: rest) = (respelled s).take room := by
  have hall : ∀ k, unescapeInto ((respelled s).length + k) (escape s ++ byte '"' :: rest) = respelled s := by
    intro k
    induction s with
    | nil =>
        cases k with
        | zero =>
            show unescapeInto 0 _ = []
            unfold unescapeInto
            rfl
        | succ k =>
            show unescapeInto (0 + (k + 1)) (byte '"' :: rest) = []
            rw [Nat.zero_add, unescapeInto_succ, if_pos rfl]
    | cons c s ih =>
        rw [respelled_cons, escape_cons, List.length_append, Nat.add_assoc, List.append_assoc,
          unescapeInto_escapeByte, ih]
  rw [← take_unescapeInto room (respelled s).length, Nat.add_comm, hall]

/-! ## The search -/

/-- A byte that needs no escape. -/
def Unescaped (c : UInt8) : Prop := 0x20 ≤ c ∧ c ≠ byte '"' ∧ c ≠ byte '\\'

theorem escapeByte_head (c : UInt8) :
    escapeByte c = [c] ∧ Unescaped c ∨ ¬ Unescaped c ∧ ∃ t, escapeByte c = byte '\\' :: t ∧
      (byte '"' ∈ t → c = byte '"' ∧ t = [byte '"']) := by
  rcases escapeByte_cases c with ⟨e, -, heq, hchar, -⟩ | ⟨hlt, hmem, heq⟩ | ⟨hge, hquote, hback, heq⟩
  · refine .inr ⟨fun h => ?_, [e], heq, fun hmem => ?_⟩
    · have hplain : escape [c] = [c] := escape_plain fun b hb => by rwa [List.mem_singleton.mp hb]
      have hlen := congrArg List.length (hplain.symm.trans (List.append_nil (escapeByte c)))
      rw [heq] at hlen
      exact absurd hlen (Nat.succ_ne_self 1).symm
    · rw [← List.mem_singleton.mp hmem] at heq hchar ⊢
      exact ⟨hchar.symm, rfl⟩
  · refine .inr ⟨fun h => absurd hlt (UInt8.not_lt.mpr h.1), byte 'u' :: (byte '0' :: byte '0' :: hexByte c), ?_, ?_⟩
    · rw [heq, text_u00]
      rfl
    · intro hquote
      rcases List.mem_cons.mp hquote with h | h
      · exact absurd h (by decide)
      · exact absurd (isXdigit_hexByte hlt _ h) (by decide)
  · exact .inl ⟨heq, hge, hquote, hback⟩

/-- A string is followed by a quote where the key is: it is the key. -/
theorem isPrefix_escape_iff {key : List UInt8} (hkey : ∀ c ∈ key, Unescaped c) (s z : List UInt8) :
    key ++ [byte '"'] <+: escape s ++ byte '"' :: z ↔ s = key := by
  induction key generalizing s with
  | nil =>
      cases s with
      | nil => exact ⟨fun _ => rfl, fun _ => List.prefix_append [byte '"'] z⟩
      | cons c s =>
          refine ⟨fun h => ?_, fun h => absurd h (List.cons_ne_nil c s)⟩
          rw [escape_cons, List.append_assoc] at h
          rcases escapeByte_head c with ⟨heq, hc⟩ | ⟨-, t, heq, -⟩ <;> rw [heq] at h
          · exact absurd (List.cons_prefix_cons.mp h).1.symm hc.2.1
          · exact absurd (List.cons_prefix_cons.mp h).1 (by decide)
  | cons a key ih =>
      have ha := hkey a List.mem_cons_self
      cases s with
      | nil =>
          refine ⟨fun h => ?_, fun h => absurd h.symm (List.cons_ne_nil a key)⟩
          exact absurd (List.cons_prefix_cons.mp h).1 ha.2.1
      | cons c s =>
          have hcons : (c :: s = a :: key) ↔ a = c ∧ s = key := by rw [List.cons.injEq, eq_comm (a := c)]
          rw [escape_cons, List.append_assoc, List.cons_append, hcons]
          rcases escapeByte_head c with ⟨heq, -⟩ | ⟨hc, t, heq, -⟩ <;> rw [heq, List.cons_append, List.cons_prefix_cons]
          · rw [List.nil_append, ih fun b hb => hkey b (List.mem_cons_of_mem a hb)]
          · constructor
            · rintro ⟨rfl, -⟩
              exact absurd rfl ha.2.2
            · rintro ⟨rfl, -⟩
              exact absurd ha hc

/-- **Where a key is found in a string.** A quoted key is found in front of the end of an escaped string exactly when
the string ends in a quote and the key. -/
theorem strstr_escape {key : List UInt8} (hkey : ∀ c ∈ key, Unescaped c) (s z : List UInt8) :
    strstr (quoted key) (escape s ++ byte '"' :: z) =
      if byte '"' :: key <:+ s then some (quoted key ++ z) else strstr (quoted key) (byte '"' :: z) := by
  induction s with
  | nil => rw [if_neg fun h => absurd (List.suffix_nil.mp h) (List.cons_ne_nil _ _)]; rfl
  | cons c s ih =>
      have hquoted : quoted key = byte '"' :: (key ++ [byte '"']) := rfl
      rw [escape_cons, List.append_assoc]
      by_cases hc : c = byte '"'
      · subst hc
        have hesc : escapeByte (byte '"') = [byte '\\', byte '"'] := by decide
        have hback : ¬ quoted key <+: byte '\\' :: byte '"' :: (escape s ++ byte '"' :: z) := fun h =>
          absurd (List.cons_prefix_cons.mp h).1 (by decide)
        have hhere : quoted key <+: byte '"' :: (escape s ++ byte '"' :: z) ↔ s = key := by
          rw [hquoted, List.cons_prefix_cons, isPrefix_escape_iff hkey]
          exact and_iff_right rfl
        rw [hesc]
        show strstr (quoted key) (byte '\\' :: byte '"' :: (escape s ++ byte '"' :: z)) = _
        rw [strstr, if_neg hback, strstr]
        by_cases hs : s = key
        · subst hs
          rw [if_pos (hhere.mpr rfl), if_pos (List.suffix_refl _), escape_plain hkey, hquoted]
          simp
        · rw [if_neg (mt hhere.mp hs), ih]
          refine if_congr ?_ rfl rfl
          rw [List.suffix_cons_iff, List.cons.injEq, eq_comm (a := key)]
          exact (or_iff_right fun h => hs h.2).symm
      · have hmem : byte '"' ∉ escapeByte c := by
          rcases escapeByte_head c with ⟨heq, -⟩ | ⟨-, t, heq, ht⟩ <;> rw [heq]
          · rw [List.mem_singleton]
            exact Ne.symm hc
          · rw [List.mem_cons, not_or]
            exact ⟨by decide, fun h => hc (ht h).1⟩
        rw [hquoted, strstr_skip_of_not_mem hmem, ← hquoted, ih]
        refine if_congr ?_ rfl rfl
        rw [List.suffix_cons_iff, List.cons.injEq]
        exact (or_iff_right fun h => hc h.1.symm).symm

/-- The opening quote is searched like an escaped one. -/
theorem strstr_quoted (key s z : List UInt8) :
    strstr (quoted key) (quoted (escape s) ++ z) = strstr (quoted key) (escape (byte '"' :: s) ++ byte '"' :: z) := by
  have hquoted : quoted key = byte '"' :: (key ++ [byte '"']) := rfl
  have hback : byte '"' ∉ [byte '\\'] := by decide
  have hesc : escape (byte '"' :: s) ++ byte '"' :: z = [byte '\\'] ++ (quoted (escape s) ++ z) := by
    have hone : escapeByte (byte '"') = [byte '\\', byte '"'] := by decide
    rw [escape_cons, hone]
    simp [quoted]
  rw [hesc, hquoted, strstr_skip_of_not_mem hback]

/-- The search goes on behind a string that does not end in the key. -/
theorem strstr_string {key : List UInt8} (hkey : ∀ c ∈ key, Unescaped c) {s : List UInt8}
    (h : ¬ byte '"' :: key <:+ byte '"' :: s) {d : UInt8} (hd : d ∉ key) (hquote : d ≠ byte '"') (z : List UInt8) :
    strstr (quoted key) (quoted (escape s) ++ d :: z) = strstr (quoted key) z := by
  have hquoted : quoted key = byte '"' :: (key ++ [byte '"']) := rfl
  have hclose : ¬ quoted key <+: byte '"' :: d :: z := by
    rw [hquoted, List.cons_prefix_cons]
    rintro ⟨-, hpre⟩
    cases key with
    | nil => exact hquote (List.cons_prefix_cons.mp hpre).1.symm
    | cons a key => exact hd ((List.cons_prefix_cons.mp hpre).1 ▸ List.mem_cons_self)
  have hskip : byte '"' ∉ [d] := fun hmem => hquote (List.mem_singleton.mp hmem).symm
  rw [strstr_quoted, strstr_escape hkey, if_neg h, strstr, if_neg hclose, hquoted]
  exact strstr_skip_of_not_mem hskip _ z

/-- And ends at one that does. -/
theorem strstr_string_found {key : List UInt8} (hkey : ∀ c ∈ key, Unescaped c) {s : List UInt8}
    (h : byte '"' :: key <:+ byte '"' :: s) (z : List UInt8) :
    strstr (quoted key) (quoted (escape s) ++ z) = some (quoted key ++ z) := by
  rw [strstr_quoted, strstr_escape hkey, if_pos h]

/-! ## The value -/

/-- The value of the field whose key is found. -/
theorem jsonStr_of_strstr {line key rest s : List UInt8} {n : ℕ} (hkey : (quoted key).length < 32)
    (h : strstr (quoted key) line = some (quoted key ++ byte ':' :: byte '"' :: (escape s ++ byte '"' :: rest))) :
    jsonStr line key (n + 1) = some ((respelled s).take n) := by
  have hroom : ¬ (n + 1 = 0 ∨ 32 ≤ (quoted key).length) := by omega
  have hcolon : isBlank (byte ':') = false := by decide
  have hquote : isBlank (byte '"') = false := by decide
  rw [jsonStr, if_neg hroom, h, Option.bind_some, List.drop_left, List.dropWhile_cons_of_neg (by rw [hcolon]; decide)]
  dsimp only
  rw [if_neg (not_not.mpr rfl), List.dropWhile_cons_of_neg (by rw [hquote]; decide)]
  dsimp only
  rw [if_neg (not_not.mpr rfl), Nat.add_sub_cancel, unescapeInto_escape]

/-- There is none where no colon follows. -/
theorem jsonStr_none {line key rest : List UInt8} {c : UInt8} (hc : isBlank c = false) (hne : c ≠ byte ':')
    (h : strstr (quoted key) line = some (quoted key ++ c :: rest)) (n : ℕ) : jsonStr line key n = none := by
  rw [jsonStr, h]
  split_ifs
  · rfl
  · rw [Option.bind_some, List.drop_left, List.dropWhile_cons_of_neg (by rw [hc]; decide)]
    exact if_pos hne

end SimpleSatOps.TcmdImport
