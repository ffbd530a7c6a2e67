import SimpleSatOps.Lib.Json

/-!
# Reading a line of JSON: the text that is left

The reader on the text in front of it, in place of a pointer into the line.

* `skipWs`, `skipString`, `skipValue` : what is left behind white space, a string, a value;
* `unescape` : the characters a string stands for;
* `nextMember`, `find` : the members of an object one by one, the first one with a key;
* `scan_text` : the bracket counter passes over the grammar;
* `Token` : a text the value skipper takes whole, whatever follows;
* `find_member_comma`, `find_member_close` : a member is found, or passed over.
-/

namespace SimpleSatOps.JsonText
open Json

/-! ## Model -/

def skipWs (s : List UInt8) : List UInt8 := s.dropWhile isWs

/-- Behind the closing quote; `escaped` right behind a backslash. -/
def skipBody : (escaped : Bool) → List UInt8 → Option (List UInt8)
  | _, [] => none
  | true, _ :: s => skipBody false s
  | false, c :: s => if c = byte '\\' then skipBody true s else if c = byte '"' then some s else skipBody false s

def skipString : List UInt8 → Option (List UInt8)
  | [] => none
  | c :: s => if c = byte '"' then skipBody false s else none

/-- Where the bracket counter stands. -/
inductive Mode
  | out | str | esc

/-- Behind the bracket that closes the outermost of `d` open ones; only this kind of bracket counts. -/
def scan (op cl : UInt8) : Mode → (d : ℕ) → List UInt8 → Option (List UInt8)
  | _, _, [] => none
  | .esc, d, _ :: s => scan op cl .str d s
  | .str, d, c :: s =>
      if c = byte '\\' then scan op cl .esc d s
      else if c = byte '"' then scan op cl .out d s
      else scan op cl .str d s
  | .out, d, c :: s =>
      if c = byte '"' then scan op cl .str d s
      else if c = op then scan op cl .out (d + 1) s
      else if c = cl then if d = 1 then some s else scan op cl .out (d - 1) s
      else scan op cl .out d s

/-- What ends a number or a word. -/
def isDelim (c : UInt8) : Bool := c == byte ',' || c == byte '}' || c == byte ']' || isWs c

def closing (op : UInt8) : UInt8 := if op = byte '{' then byte '}' else byte ']'

def skipValue (s : List UInt8) : Option (List UInt8) :=
  match skipWs s with
  | [] => none
  | c :: t =>
      if c = byte '"' then skipBody false t
      else if c = byte '{' ∨ c = byte '[' then scan c (closing c) .out 0 (c :: t)
      else some ((c :: t).dropWhile fun b => !isDelim b)

def unescapeChar (e : UInt8) : UInt8 :=
  if e = byte 'n' then byte '\n' else if e = byte 'r' then byte '\r' else if e = byte 't' then byte '\t' else e

/-- `skip` hexadecimal digits are still to be passed over; `escaped` right behind a backslash. -/
def unescapeFrom : (skip : ℕ) → (escaped : Bool) → List UInt8 → List UInt8
  | _, _, [] => []
  | k + 1, _, _ :: s => unescapeFrom k false s
  | 0, true, e :: s =>
      if e = byte 'u' then byte '?' :: unescapeFrom (if 4 ≤ s.length then 4 else 0) false s
      else unescapeChar e :: unescapeFrom 0 false s
  | 0, false, c :: s =>
      if c = byte '\\' ∧ s ≠ [] then unescapeFrom 0 true s else c :: unescapeFrom 0 false s

def unescape (s : List UInt8) : List UInt8 := unescapeFrom 0 false s

/-- What a look for a key gives: the value with its quotes cut off, if it had any. -/
inductive Found
  | absent
  | bad
  | found (isStr : Bool) (val : List UInt8)
deriving DecidableEq

/-- One turn of the loop over the members. -/
inductive Next
  | stop (r : Found)
  | member (key : List UInt8) (isStr : Bool) (val rest : List UInt8)

/-- The part of `s` in front of its end `r`. -/
def upTo (s r : List UInt8) : List UInt8 := s.take (s.length - r.length)

def isQuoted (v : List UInt8) : Bool := v.head? == some (byte '"')

/-- A value without its quotes, if it has any. -/
def bare (v : List UInt8) : List UInt8 := if isQuoted v then v.tail.dropLast else v

def skipComma (s : List UInt8) : List UInt8 := if s.head? = some (byte ',') then s.tail else s

/-- The value behind a key. -/
def nextValue (key u : List UInt8) : Next :=
  match skipWs u with
  | [] => .stop .bad
  | c :: v =>
      if c ≠ byte ':' then .stop .bad
      else
        match skipValue (skipWs v) with
        | none => .stop .bad
        | some r =>
            .member key (isQuoted (skipWs v)) (bare (upTo (skipWs v) r)) (skipComma (skipWs r))

def nextMember (s : List UInt8) : Next :=
  match skipWs s with
  | [] => .stop .absent
  | c :: t =>
      if c = byte '}' then .stop .absent
      else if c ≠ byte '"' then .stop .bad
      else
        match skipBody false t with
        | none => .stop .bad
        | some u => nextValue (upTo t u).dropLast u

def findWithin (key : List UInt8) : (fuel : ℕ) → List UInt8 → Found
  | 0, _ => .absent
  | fuel + 1, s =>
      match nextMember s with
      | .stop r => r
      | .member k isStr v rest => if k = key then .found isStr v else findWithin key fuel rest

/-- The value of the first member with the key; every member takes a byte at least. -/
def find (key s : List UInt8) : Found := findWithin key (s.length + 1) s

def getField (line key : List UInt8) : Found :=
  match skipWs line with
  | [] => .absent
  | c :: s => if c = byte '{' then find key s else .absent

/-! ## White space -/

theorem skipWs_cons {c : UInt8} (hc : isWs c = false) (s : List UInt8) : skipWs (c :: s) = c :: s :=
  List.dropWhile_cons_of_neg (by simp [hc])

theorem skipWs_blank_append {w : List UInt8} (hw : Blank w) (s : List UInt8) : skipWs (w ++ s) = skipWs s :=
  List.dropWhile_append_of_pos hw

theorem skipWs_blank_cons {w : List UInt8} (hw : Blank w) {c : UInt8} (hc : isWs c = false) (s : List UInt8) :
    skipWs (w ++ c :: s) = c :: s := by
  rw [skipWs_blank_append hw, skipWs_cons hc]

/-! ## Strings -/

/-- A byte that is itself in a string. -/
def Literal (c : UInt8) : Prop := c ≠ byte '"' ∧ c ≠ byte '\\'

theorem skipBody_literal {c : UInt8} (hc : Literal c) (s : List UInt8) :
    skipBody false (c :: s) = skipBody false s := by
  rw [skipBody, if_neg hc.2, if_neg hc.1]

theorem skipBody_escape (c : UInt8) (s : List UInt8) :
    skipBody false (byte '\\' :: c :: s) = skipBody false s := by
  rw [skipBody, if_pos rfl, skipBody]

theorem skipBody_literals {x : List UInt8} (hx : ∀ c ∈ x, Literal c) (s : List UInt8) :
    skipBody false (x ++ s) = skipBody false s := by
  induction x with
  | nil => rfl
  | cons c x ih =>
      rw [List.cons_append, skipBody_literal (hx c List.mem_cons_self)]
      exact ih fun b hb => hx b (List.mem_cons_of_mem c hb)

theorem Literal.of_isXdigit {c : UInt8} (h : isXdigit c = true) : Literal c := by
  constructor <;> rintro rfl <;> exact absurd h (by decide)

/-- The quote behind the characters of a string closes it. -/
theorem skipBody_chars {k : List UInt8} (h : Chars k) (r : List UInt8) :
    skipBody false (k ++ byte '"' :: r) = some r := by
  induction h with
  | nil => rfl
  | plain hc hquote hback _ ih =>
      rw [List.cons_append, skipBody_literal ⟨hquote, hback⟩]
      exact ih
  | escape hc _ ih =>
      rw [List.cons_append, List.cons_append, skipBody_escape]
      exact ih
  | unicode hlen hx _ ih =>
      rw [List.cons_append, List.cons_append, skipBody_escape, List.append_assoc,
        skipBody_literals fun c hc => Literal.of_isXdigit (hx c hc)]
      exact ih

/-! ## The bracket counter -/

theorem scan_strings (op cl : UInt8) (d : ℕ) (s : List UInt8) :
    scan op cl .str d s = (skipBody false s).bind (scan op cl .out d) ∧
      scan op cl .esc d s = (skipBody true s).bind (scan op cl .out d) := by
  induction s with
  | nil => exact ⟨rfl, rfl⟩
  | cons c s ih =>
      constructor
      · rw [scan, skipBody]
        split_ifs
        · exact ih.2
        · rfl
        · exact ih.1
      · exact ih.1

theorem scan_quote (op cl : UInt8) (d : ℕ) (s : List UInt8) :
    scan op cl .out d (byte '"' :: s) = (skipBody false s).bind (scan op cl .out d) := by
  rw [scan, if_pos rfl]
  exact (scan_strings op cl d s).1

/-- The two kinds of brackets. -/
def Bracket (op cl : UInt8) : Prop := op = byte '{' ∧ cl = byte '}' ∨ op = byte '[' ∧ cl = byte ']'

/-- A byte the bracket counter passes over. -/
def Inert (op cl c : UInt8) : Prop := c ≠ byte '"' ∧ c ≠ op ∧ c ≠ cl

theorem scan_inert {op cl c : UInt8} (hc : Inert op cl c) (d : ℕ) (s : List UInt8) :
    scan op cl .out d (c :: s) = scan op cl .out d s := by
  rw [scan, if_neg hc.1, if_neg hc.2.1, if_neg hc.2.2]

theorem scan_inerts {op cl : UInt8} {x : List UInt8} (hx : ∀ c ∈ x, Inert op cl c) (d : ℕ) (s : List UInt8) :
    scan op cl .out d (x ++ s) = scan op cl .out d s := by
  induction x with
  | nil => rfl
  | cons c x ih =>
      rw [List.cons_append, scan_inert (hx c List.mem_cons_self)]
      exact ih fun b hb => hx b (List.mem_cons_of_mem c hb)

theorem scan_quoted {op cl : UInt8} {k : List UInt8} (hk : Chars k) (d : ℕ) (s : List UInt8) :
    scan op cl .out d (quoted k ++ s) = scan op cl .out d s := by
  rw [quoted, List.cons_append, List.append_assoc, scan_quote]
  exact congrArg (Option.bind · (scan op cl .out d)) (skipBody_chars hk s)

/-- A byte no kind of bracket counter looks at. -/
def Plain (c : UInt8) : Prop := c ∉ text "\"{}[]"

instance (c : UInt8) : Decidable (Plain c) := inferInstanceAs (Decidable (c ∉ _))

theorem Plain.inert {op cl c : UInt8} (hb : Bracket op cl) (hc : Plain c) : Inert op cl c := by
  rcases hb with ⟨rfl, rfl⟩ | ⟨rfl, rfl⟩ <;>
  · refine ⟨?_, ?_, ?_⟩ <;> rintro rfl <;> exact absurd hc (by decide)

theorem scan_plains {op cl : UInt8} (hb : Bracket op cl) {x : List UInt8} (hx : ∀ c ∈ x, Plain c) (d : ℕ)
    (s : List UInt8) : scan op cl .out d (x ++ s) = scan op cl .out d s :=
  scan_inerts (fun c hc => (hx c hc).inert hb) d s

theorem scan_plain {op cl c : UInt8} (hb : Bracket op cl) (hc : Plain c) (d : ℕ) (s : List UInt8) :
    scan op cl .out d (c :: s) = scan op cl .out d s :=
  scan_inert (hc.inert hb) d s

theorem Plain.of_isWs {c : UInt8} (h : isWs c = true) : Plain c := by
  simp only [isWs, Bool.or_eq_true, beq_iff_eq] at h
  rcases h with ((rfl | rfl) | rfl) | rfl <;> decide

theorem Plain.of_isDigit {c : UInt8} (h : isDigit c = true) : Plain c := by
  intro hmem
  have htext : text "\"{}[]" = [0x22, 0x7b, 0x7d, 0x5b, 0x5d] := by decide
  simp only [htext, List.mem_cons, List.not_mem_nil, or_false] at hmem
  rcases hmem with rfl | rfl | rfl | rfl | rfl <;> exact absurd h (by decide)

/-! ## Words -/

/-- A byte of a number, of `true`, `false` or `null`. -/
def IsWord (c : UInt8) : Prop := Plain c ∧ isDelim c = false

instance (c : UInt8) : Decidable (IsWord c) := inferInstanceAs (Decidable (_ ∧ _))

/-- A text of such bytes. -/
def Word (s : List UInt8) : Prop := s ≠ [] ∧ ∀ c ∈ s, IsWord c

theorem IsWord.of_isDigit {c : UInt8} (h : isDigit c = true) : IsWord c := by
  refine ⟨.of_isDigit h, ?_⟩
  by_contra hd
  simp only [isDelim, isWs, Bool.not_eq_false, Bool.or_eq_true, beq_iff_eq] at hd
  rcases hd with ((rfl | rfl) | rfl) | ((rfl | rfl) | rfl) | rfl <;> exact absurd h (by decide)

theorem isWord_of_digits {s : List UInt8} (h : Digits s) : ∀ c ∈ s, IsWord c :=
  fun c hc => .of_isDigit (h.2 c hc)

theorem isWord_of_sign {s : List UInt8} (h : s ∈ [[], [byte '+'], [byte '-']]) : ∀ c ∈ s, IsWord c := by
  simp only [List.mem_cons, List.not_mem_nil, or_false] at h
  rcases h with rfl | rfl | rfl <;> decide

theorem isWord_of_whole {s : List UInt8} (h : Whole s) : ∀ c ∈ s, IsWord c := by
  rcases h with rfl | h
  · decide
  · exact isWord_of_digits h.1

theorem isWord_of_fraction {s : List UInt8} (h : Fraction s) : ∀ c ∈ s, IsWord c := by
  rcases h with rfl | ⟨ds, hds, rfl⟩
  · exact nofun
  · rw [List.forall_mem_cons]
    exact ⟨by decide, isWord_of_digits hds⟩

theorem isWord_of_exponent {s : List UInt8} (h : Exponent s) : ∀ c ∈ s, IsWord c := by
  rcases h with rfl | ⟨e, sign, ds, he, hsign, hds, rfl⟩
  · exact nofun
  · rw [List.forall_mem_cons]
    refine ⟨?_, List.forall_mem_append.mpr ⟨isWord_of_sign hsign, isWord_of_digits hds⟩⟩
    rcases he with rfl | rfl <;> decide

theorem Whole.ne_nil {s : List UInt8} (h : Whole s) : s ≠ [] := by
  rcases h with rfl | h
  · exact List.cons_ne_nil _ _
  · exact h.1.1

theorem Word.of_number {s : List UInt8} (h : Number s) : Word s := by
  cases h with
  | mk hsign hwhole hfrac hexp =>
      constructor
      · intro hnil
        rw [List.append_eq_nil_iff, List.append_eq_nil_iff] at hnil
        exact Whole.ne_nil hwhole hnil.2.1
      · simp only [List.forall_mem_append]
        refine ⟨isWord_of_sign ?_, isWord_of_whole hwhole, isWord_of_fraction hfrac, isWord_of_exponent hexp⟩
        simp only [List.mem_cons, List.not_mem_nil, or_false] at hsign ⊢
        exact hsign.imp_right Or.inr

theorem Word.of_literal {s : List UInt8} (h : s ∈ [text "true", text "false", text "null"]) : Word s := by
  simp only [List.mem_cons, List.not_mem_nil, or_false] at h
  unfold Word
  rcases h with rfl | rfl | rfl <;> decide

/-! ## The counter over the grammar -/

theorem scan_word {op cl : UInt8} (hb : Bracket op cl) {s : List UInt8} (h : Word s) (d : ℕ) (r : List UInt8) :
    scan op cl .out d (s ++ r) = scan op cl .out d r :=
  scan_plains hb (fun c hc => (h.2 c hc).1) d r

theorem scan_blank {op cl : UInt8} (hb : Bracket op cl) {w : List UInt8} (h : Blank w) (d : ℕ) (r : List UInt8) :
    scan op cl .out d (w ++ r) = scan op cl .out d r :=
  scan_plains hb (fun c hc => .of_isWs (h c hc)) d r

/-- A bracketed text: of the kind that counts, or of the other. -/
theorem scan_brackets {op cl : UInt8} (hb : Bracket op cl) {o c : UInt8} (hoc : Bracket o c) {s : List UInt8}
    (h : ∀ d r, 1 ≤ d → scan op cl .out d (s ++ r) = scan op cl .out d r) {d : ℕ} (hd : 1 ≤ d) (r : List UInt8) :
    scan op cl .out d (o :: (s ++ [c]) ++ r) = scan op cl .out d r := by
  rw [List.cons_append, List.append_assoc, List.singleton_append]
  have hsame : o = op ∧ c = cl ∨ Inert op cl o ∧ Inert op cl c := by
    rcases hb with ⟨rfl, rfl⟩ | ⟨rfl, rfl⟩ <;> rcases hoc with ⟨rfl, rfl⟩ | ⟨rfl, rfl⟩
    · exact .inl ⟨rfl, rfl⟩
    · exact .inr ⟨⟨by decide, by decide, by decide⟩, by decide, by decide, by decide⟩
    · exact .inr ⟨⟨by decide, by decide, by decide⟩, by decide, by decide, by decide⟩
    · exact .inl ⟨rfl, rfl⟩
  rcases hsame with ⟨rfl, rfl⟩ | ⟨ho, hc⟩
  · have hoq : o ≠ byte '"' := by rcases hb with ⟨rfl, -⟩ | ⟨rfl, -⟩ <;> decide
    have hcq : c ≠ byte '"' := by rcases hb with ⟨-, rfl⟩ | ⟨-, rfl⟩ <;> decide
    have hco : c ≠ o := by rcases hb with ⟨rfl, rfl⟩ | ⟨rfl, rfl⟩ <;> decide
    rw [scan, if_neg hoq, if_pos rfl, h (d + 1) (c :: r) (by omega), scan, if_neg hcq, if_neg hco, if_pos rfl,
      if_neg (by omega), Nat.add_sub_cancel]
  · rw [scan_inert ho, h d (c :: r) hd, scan_inert hc]

theorem scan_member {op cl : UInt8} (hb : Bracket op cl) {w₀ k w₁ w₂ v w₃ : List UInt8} (h₀ : Blank w₀)
    (hk : Chars k) (h₁ : Blank w₁) (h₂ : Blank w₂) (h₃ : Blank w₃) {d : ℕ}
    (hv : ∀ r, scan op cl .out d (v ++ r) = scan op cl .out d r) (r : List UInt8) :
    scan op cl .out d (member w₀ k w₁ w₂ v w₃ ++ r) = scan op cl .out d r := by
  unfold member
  simp only [List.append_assoc, List.cons_append]
  rw [scan_blank hb h₀, scan_quoted hk, scan_blank hb h₁, scan_plain hb (by decide), scan_blank hb h₂, hv,
    scan_blank hb h₃]

/-- Inside a bracket the counter comes out of any JSON text as it went in. -/
theorem scan_text {op cl : UInt8} (hb : Bracket op cl) {part : Part} {s : List UInt8} (h : Text part s) :
    ∀ (d : ℕ) (r : List UInt8), 1 ≤ d → scan op cl .out d (s ++ r) = scan op cl .out d r := by
  induction h with
  | string h => exact fun d r _ => scan_quoted h d r
  | number h => exact fun d r _ => scan_word hb (.of_number h) d r
  | literal h => exact fun d r _ => scan_word hb (.of_literal h) d r
  | emptyArray hw => exact fun d r hd => scan_brackets hb (.inr ⟨rfl, rfl⟩) (fun d r _ => scan_blank hb hw d r) hd r
  | array _ ih => exact fun d r hd => scan_brackets hb (.inr ⟨rfl, rfl⟩) ih hd r
  | emptyObject hw => exact fun d r hd => scan_brackets hb (.inl ⟨rfl, rfl⟩) (fun d r _ => scan_blank hb hw d r) hd r
  | object _ ih => exact fun d r hd => scan_brackets hb (.inl ⟨rfl, rfl⟩) ih hd r
  | element hw _ hw' ih =>
      intro d r hd
      simp only [List.append_assoc]
      rw [scan_blank hb hw, ih d _ hd, scan_blank hb hw']
  | elements hw _ hw' _ ih ihs =>
      intro d r hd
      simp only [List.append_assoc, List.cons_append]
      rw [scan_blank hb hw, ih d _ hd, scan_blank hb hw', scan_plain hb (by decide), ihs d r hd]
  | member h₀ hk h₁ h₂ _ h₃ ih => exact fun d r hd => scan_member hb h₀ hk h₁ h₂ h₃ (fun r => ih d r hd) r
  | members h₀ hk h₁ h₂ _ h₃ _ ih ihs =>
      intro d r hd
      rw [List.append_assoc, List.cons_append, scan_member hb h₀ hk h₁ h₂ h₃ (fun r => ih d r hd),
        scan_plain hb (by decide), ihs d r hd]

/-- What closes a bracket closes it in a longer text too. -/
theorem scan_append {op cl : UInt8} {m : Mode} {d : ℕ} {s r : List UInt8} (h : scan op cl m d s = some r)
    (t : List UInt8) : scan op cl m d (s ++ t) = some (r ++ t) := by
  induction s generalizing m d with
  | nil => cases m <;> cases h
  | cons c s ih =>
      rw [List.cons_append]
      cases m with
      | esc => exact ih h
      | str =>
          rw [scan] at h ⊢
          split_ifs at h ⊢ <;> exact ih h
      | out =>
          rw [scan] at h ⊢
          split_ifs at h ⊢
          · exact ih h
          · exact ih h
          · rw [Option.some.inj h]
          · exact ih h
          · exact ih h

/-! ## Values -/

/-- A text in front of which a word ends. -/
def Stops (r : List UInt8) : Prop := ∀ c ∈ r.head?, isDelim c = true

/-- A text the value skipper takes whole. -/
structure Token (v : List UInt8) : Prop where
  head : ∃ c t, v = c :: t ∧ isWs c = false
  skip : ∀ r, Stops r → skipValue (v ++ r) = some r

theorem isWs_of_isDelim {c : UInt8} (h : isDelim c = false) : isWs c = false := by
  simp only [isDelim, Bool.or_eq_false_iff] at h
  exact h.2

theorem Stops.cons {c : UInt8} (hc : isDelim c = true) (r : List UInt8) : Stops (c :: r) := by
  rintro b ⟨⟩
  exact hc

theorem Stops.blank_cons {w : List UInt8} (hw : Blank w) {c : UInt8} (hc : isDelim c = true) (r : List UInt8) :
    Stops (w ++ c :: r) := by
  cases w with
  | nil => exact .cons hc r
  | cons b w =>
      apply Stops.cons
      simp [isDelim, hw b List.mem_cons_self]

theorem Token.of_word {v : List UInt8} (h : Word v) : Token v := by
  obtain ⟨hne, hw⟩ := h
  cases v with
  | nil => exact absurd rfl hne
  | cons c t =>
      obtain ⟨hplain, hdelim⟩ := hw c List.mem_cons_self
      have hquote : c ≠ byte '"' := by rintro rfl; exact absurd hplain (by decide)
      have hopen : ¬ (c = byte '{' ∨ c = byte '[') := by
        rintro (rfl | rfl) <;> exact absurd hplain (by decide)
      refine ⟨⟨c, t, rfl, isWs_of_isDelim hdelim⟩, fun r hr => ?_⟩
      rw [List.cons_append, skipValue, skipWs_cons (isWs_of_isDelim hdelim)]
      simp only [if_neg hquote, if_neg hopen]
      rw [← List.cons_append, List.dropWhile_append_of_pos fun b hb => by simp [(hw b hb).2]]
      cases r with
      | nil => rfl
      | cons b r => rw [List.dropWhile_cons_of_neg (by simp [hr b rfl])]

theorem Token.of_quoted {k : List UInt8} (h : ∀ r, skipBody false (k ++ byte '"' :: r) = some r) :
    Token (quoted k) := by
  refine ⟨⟨_, _, rfl, by decide⟩, fun r _ => ?_⟩
  rw [quoted, List.cons_append, skipValue, skipWs_cons (by decide)]
  simp only [if_pos]
  rw [List.append_assoc]
  exact h r

theorem Token.of_brackets {op cl : UInt8} (hb : Bracket op cl) {s : List UInt8}
    (h : ∀ r, scan op cl .out 1 (s ++ r) = scan op cl .out 1 r) : Token (op :: (s ++ [cl])) := by
  have hclosing : closing op = cl := by rcases hb with ⟨rfl, rfl⟩ | ⟨rfl, rfl⟩ <;> rfl
  have hopen : op = byte '{' ∨ op = byte '[' := hb.imp And.left And.left
  have hws : isWs op = false := by rcases hopen with rfl | rfl <;> decide
  have hq : op ≠ byte '"' := by rcases hopen with rfl | rfl <;> decide
  have hcq : cl ≠ byte '"' := by rcases hb with ⟨-, rfl⟩ | ⟨-, rfl⟩ <;> decide
  have hco : cl ≠ op := by rcases hb with ⟨rfl, rfl⟩ | ⟨rfl, rfl⟩ <;> decide
  refine ⟨⟨op, _, rfl, hws⟩, fun r _ => ?_⟩
  rw [List.cons_append, skipValue, skipWs_cons hws]
  simp only [if_neg hq, if_pos hopen]
  rw [hclosing, List.append_assoc, List.singleton_append, scan, if_neg hq, if_pos rfl, h, scan, if_neg hcq,
    if_neg hco, if_pos rfl, if_pos rfl]

/-- The value skipper takes every JSON value, whatever it is nested of. -/
theorem Token.of_value {v : List UInt8} (h : Value v) : Token v := by
  cases h with
  | string h => exact .of_quoted (skipBody_chars h)
  | number h => exact .of_word (.of_number h)
  | literal h => exact .of_word (.of_literal h)
  | emptyArray hw => exact .of_brackets (.inr ⟨rfl, rfl⟩) fun r => scan_blank (.inr ⟨rfl, rfl⟩) hw 1 r
  | array h => exact .of_brackets (.inr ⟨rfl, rfl⟩) fun r => scan_text (.inr ⟨rfl, rfl⟩) h 1 r le_rfl
  | emptyObject hw => exact .of_brackets (.inl ⟨rfl, rfl⟩) fun r => scan_blank (.inl ⟨rfl, rfl⟩) hw 1 r
  | object h => exact .of_brackets (.inl ⟨rfl, rfl⟩) fun r => scan_text (.inl ⟨rfl, rfl⟩) h 1 r le_rfl

/-! ## Members -/

/-- A member of a line: its key can be read, and its value is taken whole. -/
structure Member (w₀ k w₁ w₂ v w₃ : List UInt8) : Prop where
  blank₀ : Blank w₀
  key : ∀ r, skipBody false (k ++ byte '"' :: r) = some r
  blank₁ : Blank w₁
  blank₂ : Blank w₂
  token : Token v
  blank₃ : Blank w₃

theorem upTo_append (s r : List UInt8) : upTo (s ++ r) r = s := by
  unfold upTo
  rw [List.length_append, Nat.add_sub_cancel, List.take_left]

theorem nextValue_of {w₁ w₂ v w₃ r : List UInt8} (k : List UInt8) (h₁ : Blank w₁) (h₂ : Blank w₂) (hv : Token v)
    (hr : Stops (w₃ ++ r)) :
    nextValue k (w₁ ++ byte ':' :: (w₂ ++ (v ++ (w₃ ++ r)))) =
      .member k (isQuoted v) (bare v) (skipComma (skipWs (w₃ ++ r))) := by
  obtain ⟨c, t, rfl, hc⟩ := hv.head
  have hws : skipWs (w₂ ++ (c :: t ++ (w₃ ++ r))) = c :: t ++ (w₃ ++ r) := by
    rw [List.cons_append, skipWs_blank_cons h₂ hc]
  rw [nextValue, skipWs_blank_cons h₁ (by decide)]
  simp only [ne_eq, not_true_eq_false, if_false]
  rw [hws, hv.skip _ hr]
  simp only [upTo_append]
  rfl

theorem nextMember_of {w₀ k w₁ w₂ v w₃ : List UInt8} (h : Member w₀ k w₁ w₂ v w₃) {r : List UInt8}
    (hr : Stops (w₃ ++ r)) :
    nextMember (member w₀ k w₁ w₂ v w₃ ++ r) =
      .member k (isQuoted v) (bare v) (skipComma (skipWs (w₃ ++ r))) := by
  unfold member quoted
  simp only [List.append_assoc, List.cons_append, List.nil_append]
  rw [nextMember, skipWs_blank_cons h.blank₀ (by decide)]
  simp only [ne_eq, not_true_eq_false, if_false, if_neg (show byte '"' ≠ byte '}' by decide), h.key]
  rw [show k ++ byte '"' :: (w₁ ++ byte ':' :: (w₂ ++ (v ++ (w₃ ++ r)))) =
      (k ++ [byte '"']) ++ (w₁ ++ byte ':' :: (w₂ ++ (v ++ (w₃ ++ r)))) by simp, upTo_append,
    List.dropLast_concat]
  exact nextValue_of k h.blank₁ h.blank₂ h.token hr

/-! ## Every member takes a byte -/

theorem length_skipWs_le (s : List UInt8) : (skipWs s).length ≤ s.length := (List.dropWhile_suffix _).length_le

theorem length_skipComma_le (s : List UInt8) : (skipComma s).length ≤ s.length := by
  unfold skipComma
  split_ifs
  · rw [List.length_tail]
    omega
  · exact le_rfl

theorem length_lt_of_skipBody {e : Bool} {s r : List UInt8} (h : skipBody e s = some r) : r.length < s.length := by
  induction s generalizing e with
  | nil => cases e <;> cases h
  | cons c s ih =>
      rw [List.length_cons]
      cases e with
      | true => exact (ih h).trans (Nat.lt_succ_self _)
      | false =>
          rw [skipBody] at h
          split_ifs at h
          · exact (ih h).trans (Nat.lt_succ_self _)
          · cases h
            exact Nat.lt_succ_self _
          · exact (ih h).trans (Nat.lt_succ_self _)

theorem length_lt_of_scan {op cl : UInt8} {m : Mode} {d : ℕ} {s r : List UInt8} (h : scan op cl m d s = some r) :
    r.length < s.length := by
  induction s generalizing m d with
  | nil => cases m <;> cases h
  | cons c s ih =>
      rw [List.length_cons]
      have hrec : ∀ {m d}, scan op cl m d s = some r → r.length < s.length + 1 :=
        fun h => (ih h).trans (Nat.lt_succ_self _)
      cases m with
      | esc => exact hrec h
      | str =>
          rw [scan] at h
          split_ifs at h <;> exact hrec h
      | out =>
          rw [scan] at h
          split_ifs at h
          · exact hrec h
          · exact hrec h
          · cases h
            exact Nat.lt_succ_self _
          · exact hrec h
          · exact hrec h

theorem length_le_of_skipValue {s r : List UInt8} (h : skipValue s = some r) : r.length ≤ s.length := by
  have hws := length_skipWs_le s
  unfold skipValue at h
  split at h
  · cases h
  · rename_i c t hs
    rw [hs] at hws
    refine le_trans ?_ hws
    split_ifs at h
    · exact (length_lt_of_skipBody h).le.trans (Nat.le_succ _)
    · exact (length_lt_of_scan h).le
    · cases h
      exact (List.dropWhile_suffix _).length_le

theorem length_lt_of_nextValue {key u k v rest : List UInt8} {i : Bool}
    (h : nextValue key u = .member k i v rest) : rest.length < u.length := by
  have hws := length_skipWs_le u
  unfold nextValue at h
  split at h
  · cases h
  · rename_i c t hs
    rw [hs, List.length_cons] at hws
    split_ifs at h
    split at h
    · cases h
    · rename_i r hr
      cases h
      have h₁ := length_le_of_skipValue hr
      have h₂ := length_skipWs_le t
      have h₃ := (length_skipComma_le (skipWs r)).trans (length_skipWs_le r)
      omega

theorem length_lt_of_nextMember {s k v rest : List UInt8} {i : Bool} (h : nextMember s = .member k i v rest) :
    rest.length < s.length := by
  have hws := length_skipWs_le s
  unfold nextMember at h
  split at h
  · cases h
  · rename_i c t hs
    rw [hs, List.length_cons] at hws
    split_ifs at h
    split at h
    · cases h
    · rename_i u hu
      have h₁ := length_lt_of_skipBody hu
      have h₂ := length_lt_of_nextValue h
      omega

theorem findWithin_of_lt (key : List UInt8) {n m : ℕ} {s : List UInt8} (hn : s.length < n) (hm : s.length < m) :
    findWithin key n s = findWithin key m s := by
  induction n generalizing m s with
  | zero => exact absurd hn (Nat.not_lt_zero _)
  | succ n ih =>
      cases m with
      | zero => exact absurd hm (Nat.not_lt_zero _)
      | succ m =>
          rw [findWithin, findWithin]
          cases hs : nextMember s with
          | stop r => rfl
          | member k i v rest =>
              have hlt := length_lt_of_nextMember hs
              show ite _ _ _ = ite _ _ _
              rw [ih (by omega) (show rest.length < m by omega)]

/-- One turn of the loop. -/
theorem find_eq (key s : List UInt8) :
    find key s = match nextMember s with
      | .stop r => r
      | .member k i v rest => if k = key then .found i v else find key rest := by
  rw [find, findWithin]
  cases hs : nextMember s with
  | stop r => rfl
  | member k i v rest =>
      show ite _ _ _ = ite _ _ _
      rw [find, findWithin_of_lt key (length_lt_of_nextMember hs) (Nat.lt_succ_self _)]

/-! ## Looking for a key -/

theorem skipComma_comma (s : List UInt8) : skipComma (byte ',' :: s) = s := if_pos rfl

theorem skipComma_close (s : List UInt8) : skipComma (byte '}' :: s) = byte '}' :: s := by
  apply if_neg
  show ¬ some (byte '}') = some (byte ',')
  decide

/-- A member that another one follows. -/
theorem find_member_comma {w₀ k w₁ w₂ v w₃ : List UInt8} (h : Member w₀ k w₁ w₂ v w₃) (key s : List UInt8) :
    find key (member w₀ k w₁ w₂ v w₃ ++ byte ',' :: s) =
      if k = key then .found (isQuoted v) (bare v) else find key s := by
  rw [find_eq, nextMember_of h (.blank_cons h.blank₃ (by decide) s)]
  show ite _ _ _ = ite _ _ _
  rw [skipWs_blank_cons h.blank₃ (by decide), skipComma_comma]

theorem find_close (key s : List UInt8) : find key (byte '}' :: s) = .absent := by
  rw [find_eq, nextMember, skipWs_cons (by decide)]
  rfl

/-- The last member. -/
theorem find_member_close {w₀ k w₁ w₂ v w₃ : List UInt8} (h : Member w₀ k w₁ w₂ v w₃) (key s : List UInt8) :
    find key (member w₀ k w₁ w₂ v w₃ ++ byte '}' :: s) =
      if k = key then .found (isQuoted v) (bare v) else .absent := by
  rw [find_eq, nextMember_of h (.blank_cons h.blank₃ (by decide) s)]
  show ite _ _ _ = ite _ _ _
  rw [skipWs_blank_cons h.blank₃ (by decide), skipComma_close, find_close]

end SimpleSatOps.JsonText
