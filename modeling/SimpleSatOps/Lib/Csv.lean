import Mathlib.Data.List.GetD
import Mathlib.Tactic
import SimpleSatOps.Lib.CText

/-!
# Comma-separated values (RFC 4180)

Records of fields; a field with a comma, a quote or a line break in it stands between quotes, each quote of it written
twice. A line ends with a line feed, with or without a carriage return; any other byte is text.

* `isSpecial`, `doubled` : the bytes that need quotes, a text with its quotes written twice;
* `Reader`, `step`, `read` : the reader, byte by byte;
* `Field` : what is written for a value;
* `joined`, `foldlM_line`, `read_lines` : lines of fields are read back as their values;
* `owed`, `even_quotes_of_read` : a text that is read has an even number of quotes.
-/

namespace SimpleSatOps.Csv

/-- A byte that a field without quotes cannot hold. -/
def isSpecial (c : UInt8) : Bool := c == byte ',' || c == byte '"' || c == byte '\n' || c == byte '\r'

/-- One byte between quotes. -/
def piece (c : UInt8) : List UInt8 := if c = byte '"' then [c, c] else [c]

def doubled (s : List UInt8) : List UInt8 := s.flatMap piece

theorem doubled_cons (c : UInt8) (s : List UInt8) : doubled (c :: s) = piece c ++ doubled s := rfl

theorem length_piece_le (c : UInt8) : (piece c).length ≤ 2 := by
  unfold piece
  split_ifs <;> simp

theorem length_doubled_le (s : List UInt8) : (doubled s).length ≤ 2 * s.length := by
  induction s with
  | nil => rfl
  | cons c s ih =>
      have hle := length_piece_le c
      rw [doubled_cons, List.length_append, List.length_cons]
      omega

theorem even_quotes_doubled (s : List UInt8) : Even ((doubled s).count (byte '"')) := by
  induction s with
  | nil => exact Even.zero
  | cons c s ih =>
      rw [doubled_cons, List.count_append]
      refine Even.add ?_ ih
      unfold piece
      split_ifs with hc
      · rw [hc]
        decide
      · rw [List.count_singleton, beq_eq_false_iff_ne.mpr hc]
        exact Even.zero

/-! ## The reader -/

/-- Where the reader stands: in front of a field, in one without quotes, between quotes, behind a quote that closes the
field unless another one follows, between the two bytes of a line break. -/
inductive Place
  | start | plain | quoted | closed | cr
deriving DecidableEq

/-- `field` and `record` are what was read of the field and of the record the reader stands in. -/
structure Reader where
  place : Place
  field : List UInt8
  record : List (List UInt8)
  records : List (List (List UInt8))
deriving DecidableEq

/-- In front of a record. -/
def Reader.fresh (records : List (List (List UInt8))) : Reader := ⟨.start, [], [], records⟩

def Reader.endField (r : Reader) : Reader := ⟨.start, [], r.record ++ [r.field], r.records⟩

def Reader.endRecord (r : Reader) : Reader := .fresh (r.records ++ [r.record ++ [r.field]])

/-- A byte that is not between quotes. -/
def Reader.outside (r : Reader) (c : UInt8) : Option Reader :=
  if c = byte ',' then some r.endField
  else if c = byte '\n' then some r.endRecord
  else if c = byte '\r' then some { r with place := .cr }
  else
    match r.place with
    | .start => some (if c = byte '"' then { r with place := .quoted } else { r with place := .plain, field := [c] })
    | .plain => if c = byte '"' then none else some { r with field := r.field ++ [c] }
    | .closed => if c = byte '"' then some { r with place := .quoted, field := r.field ++ [c] } else none
    | _ => none

def step (r : Reader) (c : UInt8) : Option Reader :=
  match r.place with
  | .quoted => some (if c = byte '"' then { r with place := .closed } else { r with field := r.field ++ [c] })
  | .cr => if c = byte '\n' then some r.endRecord else none
  | _ => r.outside c

/-- The records of a text; the last line may go without a line break. -/
def read (s : List UInt8) : Option (List (List (List UInt8))) := do
  let r ← s.foldlM step (.fresh [])
  if r = .fresh r.records then some r.records
  else if r.place = .quoted ∨ r.place = .cr then none
  else some r.endRecord.records

/-! ## One field -/

/-- The texts that are read as the value `v`. -/
def Field (v s : List UInt8) : Prop :=
  (∀ c ∈ v, isSpecial c = false) ∧ s = v ∨ s = byte '"' :: (doubled v ++ [byte '"'])

variable {v s : List UInt8} {rec : List (List UInt8)} {recs : List (List (List UInt8))}

theorem not_special {c : UInt8} (h : isSpecial c = false) :
    c ≠ byte ',' ∧ c ≠ byte '"' ∧ c ≠ byte '\n' ∧ c ≠ byte '\r' := by
  simpa [isSpecial, and_assoc] using h

theorem foldlM_plain (hv : ∀ c ∈ v, isSpecial c = false) (pre : List UInt8) :
    v.foldlM step ⟨.plain, pre, rec, recs⟩ = some ⟨.plain, pre ++ v, rec, recs⟩ := by
  induction v generalizing pre with
  | nil => simp
  | cons c v ih =>
      obtain ⟨⟨hcomma, hquote, hlf, hcr⟩, hv⟩ := (List.forall_mem_cons.mp hv).imp_left not_special
      have hstep : step ⟨.plain, pre, rec, recs⟩ c = some ⟨.plain, pre ++ [c], rec, recs⟩ := by
        simp [step, Reader.outside, hcomma, hquote, hlf, hcr]
      rw [List.foldlM_cons, hstep, Option.bind_eq_bind, Option.bind_some, ih hv, List.append_assoc]
      rfl

/-- Where a field without quotes leaves the reader. -/
theorem foldlM_unquoted (hv : ∀ c ∈ v, isSpecial c = false) :
    v.foldlM step ⟨.start, [], rec, recs⟩ = some ⟨if v = [] then .start else .plain, v, rec, recs⟩ := by
  cases v with
  | nil => rfl
  | cons c v =>
      obtain ⟨⟨hcomma, hquote, hlf, hcr⟩, hv⟩ := (List.forall_mem_cons.mp hv).imp_left not_special
      have hstep : step ⟨.start, [], rec, recs⟩ c = some ⟨.plain, [c], rec, recs⟩ := by
        simp [step, Reader.outside, hcomma, hquote, hlf, hcr]
      rw [List.foldlM_cons, hstep, Option.bind_eq_bind, Option.bind_some, foldlM_plain hv]
      rfl

theorem foldlM_doubled (v pre : List UInt8) :
    (doubled v).foldlM step ⟨.quoted, pre, rec, recs⟩ = some ⟨.quoted, pre ++ v, rec, recs⟩ := by
  induction v generalizing pre with
  | nil => simp [doubled]
  | cons c v ih =>
      have hpiece : (piece c).foldlM step ⟨.quoted, pre, rec, recs⟩ = some ⟨.quoted, pre ++ [c], rec, recs⟩ := by
        unfold piece
        split_ifs with hc
        · subst hc
          rfl
        · simp [step, hc]
      rw [doubled_cons, List.foldlM_append, hpiece, Option.bind_eq_bind, Option.bind_some, ih, List.append_assoc]
      rfl

/-- Behind a field the reader holds its value, and is not between quotes. -/
theorem Field.foldlM (h : Field v s) (rec : List (List UInt8)) (recs : List (List (List UInt8))) :
    ∃ p, (p = .start ∨ p = .plain ∨ p = .closed) ∧
      s.foldlM step ⟨.start, [], rec, recs⟩ = some ⟨p, v, rec, recs⟩ := by
  rcases h with ⟨hv, rfl⟩ | rfl
  · refine ⟨if s = [] then .start else .plain, ?_, foldlM_unquoted hv⟩
    split_ifs <;> simp
  · refine ⟨.closed, .inr (.inr rfl), ?_⟩
    have hopen : step ⟨.start, [], rec, recs⟩ (byte '"') = some ⟨.quoted, [], rec, recs⟩ := rfl
    have hclose : step ⟨.quoted, v, rec, recs⟩ (byte '"') = some ⟨.closed, v, rec, recs⟩ := rfl
    rw [List.foldlM_cons, hopen, Option.bind_eq_bind, Option.bind_some, List.foldlM_append, foldlM_doubled,
      Option.bind_eq_bind, Option.bind_some, List.nil_append, List.foldlM_cons, hclose]
    rfl

theorem Field.comma (h : Field v s) :
    (s ++ [byte ',']).foldlM step ⟨.start, [], rec, recs⟩ = some ⟨.start, [], rec ++ [v], recs⟩ := by
  obtain ⟨p, hp, heq⟩ := h.foldlM rec recs
  rw [List.foldlM_append, heq]
  rcases hp with rfl | rfl | rfl <;> rfl

theorem Field.line (h : Field v s) :
    (s ++ [byte '\n']).foldlM step ⟨.start, [], rec, recs⟩ = some (.fresh (recs ++ [rec ++ [v]])) := by
  obtain ⟨p, hp, heq⟩ := h.foldlM rec recs
  rw [List.foldlM_append, heq]
  rcases hp with rfl | rfl | rfl <;> rfl

/-! ## Lines of fields -/

/-- Fields with commas between them. -/
def joined (fs : List (List UInt8)) : List UInt8 := List.intercalate [byte ','] fs

theorem joined_singleton (f : List UInt8) : joined [f] = f := List.append_nil f

theorem joined_cons_cons (f g : List UInt8) (fs : List (List UInt8)) :
    joined (f :: g :: fs) = f ++ [byte ','] ++ joined (g :: fs) := by
  simp [joined, List.intercalate, List.intersperse]

/-- The fields of a line are the last ones of its record. -/
theorem foldlM_line {vs fs : List (List UInt8)} (h : List.Forall₂ Field vs fs) (hne : vs ≠ []) :
    (joined fs ++ [byte '\n']).foldlM step ⟨.start, [], rec, recs⟩ = some (.fresh (recs ++ [rec ++ vs])) := by
  induction h generalizing rec with
  | nil => exact absurd rfl hne
  | @cons v f vs fs hf hrest ih =>
      cases hrest with
      | nil =>
          rw [joined_singleton]
          exact hf.line
      | @cons w g ws gs hg hgs =>
          rw [joined_cons_cons, List.append_assoc, List.foldlM_append, hf.comma, Option.bind_eq_bind, Option.bind_some,
            ih (List.cons_ne_nil _ _), List.append_assoc]
          rfl

/-- The text of some records. -/
def lines (fss : List (List (List UInt8))) : List UInt8 := fss.flatMap fun fs => joined fs ++ [byte '\n']

theorem foldlM_lines {vss fss : List (List (List UInt8))}
    (h : List.Forall₂ (fun vs fs => vs ≠ [] ∧ List.Forall₂ Field vs fs) vss fss) :
    (lines fss).foldlM step (.fresh recs) = some (.fresh (recs ++ vss)) := by
  induction h generalizing recs with
  | nil => rw [List.append_nil]; rfl
  | @cons vs fs vss fss hline _ ih =>
      have hcons : lines (fs :: fss) = joined fs ++ [byte '\n'] ++ lines fss := rfl
      rw [hcons, List.foldlM_append, Reader.fresh, foldlM_line hline.2 hline.1, Option.bind_eq_bind, Option.bind_some,
        ih, List.append_assoc]
      rfl

/-- **Lines of fields are read back.** -/
theorem read_lines {vss fss : List (List (List UInt8))}
    (h : List.Forall₂ (fun vs fs => vs ≠ [] ∧ List.Forall₂ Field vs fs) vss fss) : read (lines fss) = some vss := by
  unfold read
  rw [foldlM_lines h]
  exact if_pos rfl

/-! ## Quotes come in pairs -/

/-- One quote in front of a byte that is between quotes, none elsewhere. -/
def owed (r : Reader) : ℕ := if r.place = .quoted then 1 else 0

/-- A quote goes in between quotes or out of them; any other byte leaves the reader on its side. -/
theorem owed_of_step {r r' : Reader} {c : UInt8} (h : step r c = some r') :
    (owed r + if c = byte '"' then 1 else 0) % 2 = owed r' % 2 := by
  obtain ⟨place, field, record, records⟩ := r
  by_cases hquote : c = byte '"'
  · subst hquote
    have hcomma : byte '"' ≠ byte ',' := by decide
    have hlf : byte '"' ≠ byte '\n' := by decide
    have hcr : byte '"' ≠ byte '\r' := by decide
    cases place <;> simp [step, Reader.outside, hcomma, hlf, hcr] at h <;> simp [owed, ← h]
  · have hside : r'.place = .quoted ↔ place = .quoted := by
      cases place
      case quoted =>
          simp only [step, if_neg hquote, Option.some.injEq] at h
          simp [← h]
      case cr =>
          simp only [step] at h
          split_ifs at h
          simp [← Option.some.inj h, Reader.endRecord, Reader.fresh]
      all_goals
        simp only [step, Reader.outside, if_neg hquote] at h
        split_ifs at h <;> simp [← Option.some.inj h, Reader.endField, Reader.endRecord, Reader.fresh]
    rw [if_neg hquote, Nat.add_zero]
    unfold owed
    simp only [hside]

/-- Quotes so far, modulo two, and where the reader stands. -/
theorem owed_of_foldlM : ∀ {s : List UInt8} {r r' : Reader}, s.foldlM step r = some r' →
    (owed r + s.count (byte '"')) % 2 = owed r' % 2 := by
  intro s
  induction s with
  | nil =>
      rintro r r' h
      obtain rfl : r = r' := Option.some.inj h
      rw [List.count_nil, Nat.add_zero]
  | cons c s ih =>
      intro r r' h
      rw [List.foldlM_cons, Option.bind_eq_bind, Option.bind_eq_some_iff] at h
      obtain ⟨m, hstep, hrest⟩ := h
      have hstep := owed_of_step hstep
      rw [← ih hrest, List.count_cons]
      simp only [beq_iff_eq]
      omega

/-- **A text that is read has an even number of quotes.** -/
theorem even_quotes_of_read {s : List UInt8} {recs : List (List (List UInt8))} (h : read s = some recs) :
    Even (s.count (byte '"')) := by
  unfold read at h
  rw [Option.bind_eq_bind, Option.bind_eq_some_iff] at h
  obtain ⟨r, hfold, hend⟩ := h
  have hout : r.place ≠ .quoted := by
    split_ifs at hend with hfresh hplace
    · rw [hfresh]
      exact Place.noConfusion
    · exact fun hq => hplace (.inl hq)
  have hcount := owed_of_foldlM hfold
  have hstart : owed (.fresh []) = 0 := rfl
  have hfinal : owed r = 0 := if_neg hout
  rw [hstart, hfinal, Nat.zero_add] at hcount
  exact Nat.even_iff.mpr hcount

end SimpleSatOps.Csv
