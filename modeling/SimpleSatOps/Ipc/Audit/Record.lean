import SimpleSatOps.Ipc.Audit
import SimpleSatOps.Lib.Decimal
import SimpleSatOps.Lib.Framing
import SimpleSatOps.Lib.Utc

/-!
# The text of an audit record (`append_line_at`)

One call formats a record of six fields into a buffer of 512 bytes and appends the buffer to the log.

* `isoUtc`, `fields`, `appendLineAt` : the record, and what a call leaves in the log;
* `IsRecord` : one line with five tabs;
* `Call.Fits` : the record fits the buffer with its newline, and the system takes it;
* `appended_cases` : a call appends a record, or bytes without a newline;
* `appendLineAt_framed_iff` : the log splits back into one line per event exactly when every record fits;
* `fields_storedEvent` : the ring an event passes through changes nothing.
-/

namespace SimpleSatOps.AuditLog
open Framing

abbrev tab : UInt8 := 0x09

abbrev nl : UInt8 := 0x0a

def SSO_AUDIT_BUF : ℕ := 512

/-! ## Timestamps -/

/-- `struct timespec`. -/
structure Timespec where
  tvSec : ℤ
  tvNsec : ℤ

/-- `sso_iso_utc_from_ts`. -/
def ssoIsoUtcFromTs (ts : Timespec) (outSize : ℕ) : List UInt8 :=
  let tm := gmtimeR ts.tvSec
  snprintf outSize
    (zeroPadInt 4 (tm.tmYear + 1900) ++ text "-" ++ zeroPadInt 2 (tm.tmMon + 1) ++ text "-" ++ zeroPadInt 2 tm.tmMday ++
      text "T" ++ zeroPadInt 2 tm.tmHour ++ text ":" ++ zeroPadInt 2 tm.tmMin ++ text ":" ++ zeroPadInt 2 tm.tmSec ++
      text "." ++ zeroPadInt 3 (ts.tvNsec.tdiv 1000000) ++ text "Z")

/-! ## Records -/

/-- `sanitize`. -/
def sanitize (s : List UInt8) : List UInt8 :=
  s.map fun c => if c = tab ∨ c = nl ∨ c = 0x0d then byte ' ' else c

/-- A field in its buffer: `snprintf(buf, size, "%s", s)` and `sanitize(buf)`. -/
def field (size : ℕ) (s : List UInt8) : List UInt8 := sanitize (snprintf size s)

/-- `s[0] ? s : fallback`. -/
def orElse (s : List UInt8) (fallback : String) : List UInt8 := if s = [] then text fallback else s

/-- What a record says of the process: `sso_unix_user()`, `g_tool`, `getpid()`. -/
structure Process where
  unixUser : List UInt8
  tool : List UInt8
  pid : ℤ

/-- How the system calls of one call end: whether `open` gives a descriptor, and how many bytes `write` takes. -/
structure Sys where
  opened : Bool
  takes : ℕ

/-- A call of `append_line_at`, with its surroundings. -/
structure Call where
  process : Process
  event : List UInt8
  detail : List UInt8
  ts : Timespec
  sys : Sys

namespace Call
variable (c : Call)

/-- The fields of the record; an empty string stands for `NULL` also. -/
def fields : List (List UInt8) :=
  [ssoIsoUtcFromTs c.ts 64, field 64 (cstr c.process.unixUser), field 64 (orElse (cstr c.process.tool) "?"),
    decimalInt c.process.pid, field 64 (orElse (cstr c.event) "-"), field 480 (cstr c.detail)]

/-- The record without its newline. -/
def body : List UInt8 := [tab].intercalate c.fields

/-- `append_line_at`: the log afterwards and what is returned. -/
def appendLineAt (log : List UInt8) : List UInt8 × ℤ :=
  if c.sys.opened = false then (log, -1)
  else
    let record := c.body ++ [nl]
    let line := snprintf SSO_AUDIT_BUF record
    if record.length = 0 then (log, -1)
    else
      let n := if SSO_AUDIT_BUF ≤ record.length then SSO_AUDIT_BUF - 1 else record.length
      let w := min c.sys.takes n
      (log ++ line.take w, if w = n then 0 else -1)

/-- The bytes a call adds to the log. -/
def appended : List UInt8 :=
  if c.sys.opened = false then [] else (snprintf SSO_AUDIT_BUF (c.body ++ [nl])).take c.sys.takes

/-- How long the record is with its newline. -/
def recordLength : ℕ := (c.fields.map List.length).sum + 6

/-- The log can be opened and `write` takes the whole buffer. -/
def Performed : Prop := c.sys.opened = true ∧ min c.recordLength (SSO_AUDIT_BUF - 1) ≤ c.sys.takes

/-- And the record has at most 511 bytes. -/
def Fits : Prop := c.Performed ∧ c.recordLength < SSO_AUDIT_BUF

end Call

/-- One line with exactly five tabs. -/
def IsRecord (bs : List UInt8) : Prop := ∃ line, bs = line ++ [nl] ∧ nl ∉ line ∧ line.count tab = 5

/-- The log after some calls. -/
def appendAll (log : List UInt8) (calls : List Call) : List UInt8 :=
  calls.foldl (fun log c => (c.appendLineAt log).1) log

/-! ## Fields -/

/-- No separator of the format. -/
def Clean (s : List UInt8) : Prop := ∀ x ∈ s, x ≠ tab ∧ x ≠ nl

theorem clean_append {s t : List UInt8} : Clean (s ++ t) ↔ Clean s ∧ Clean t := List.forall_mem_append

theorem Clean.take {s : List UInt8} (h : Clean s) (n : ℕ) : Clean (s.take n) := fun x hx =>
  h x (List.mem_of_mem_take hx)

theorem clean_of_isDigit {s : List UInt8} (h : ∀ x ∈ s, isDigit x = true) : Clean s := by
  intro x hx
  constructor <;> rintro rfl <;> exact absurd (h _ hx) (by decide)

theorem clean_cons {x : UInt8} {s : List UInt8} (hx : x ≠ tab ∧ x ≠ nl) (hs : Clean s) : Clean (x :: s) := by
  intro y hy
  rcases List.mem_cons.mp hy with rfl | hy
  · exact hx
  · exact hs y hy

theorem clean_zeroPadInt (w : ℕ) (z : ℤ) : Clean (zeroPadInt w z) := by
  unfold zeroPadInt
  split_ifs
  · exact clean_cons (by decide) (clean_of_isDigit fun x hx => isDigit_of_mem_zeroPad hx)
  · exact clean_of_isDigit fun x hx => isDigit_of_mem_zeroPad hx

theorem clean_decimalInt (z : ℤ) : Clean (decimalInt z) := by
  unfold decimalInt
  split_ifs
  · exact clean_cons (by decide) (clean_of_isDigit fun x hx => isDigit_of_mem_decimal hx)
  · exact clean_of_isDigit fun x hx => isDigit_of_mem_decimal hx

theorem clean_ssoIsoUtcFromTs (ts : Timespec) (outSize : ℕ) : Clean (ssoIsoUtcFromTs ts outSize) := by
  have hdash : Clean (text "-") := by unfold Clean; decide
  have ht : Clean (text "T") := by unfold Clean; decide
  have hcolon : Clean (text ":") := by unfold Clean; decide
  have hpoint : Clean (text ".") := by unfold Clean; decide
  have hz : Clean (text "Z") := by unfold Clean; decide
  refine Clean.take ?_ _
  simp only [clean_append, clean_zeroPadInt, hdash, ht, hcolon, hpoint, hz, and_self]

theorem clean_field (size : ℕ) (s : List UInt8) : Clean (field size s) := by
  intro x hx
  obtain ⟨y, -, rfl⟩ := List.mem_map.mp hx
  split_ifs with h
  · decide
  · rw [not_or, not_or] at h
    exact ⟨h.1, h.2.1⟩

namespace Call
variable (c : Call)

theorem clean_of_mem_fields {f : List UInt8} (hf : f ∈ c.fields) : Clean f := by
  simp only [fields, List.mem_cons, List.not_mem_nil, or_false] at hf
  rcases hf with rfl | rfl | rfl | rfl | rfl | rfl
  · exact clean_ssoIsoUtcFromTs c.ts 64
  · exact clean_field 64 _
  · exact clean_field 64 _
  · exact clean_decimalInt _
  · exact clean_field 64 _
  · exact clean_field 480 _

/-- The tabs give the fields back. -/
theorem splitOn_body : c.body.splitOn tab = c.fields :=
  List.splitOn_intercalate tab (fun _ hf hmem => (c.clean_of_mem_fields hf tab hmem).1 rfl) (List.cons_ne_nil _ _)

theorem length_body : c.body.length + 1 = c.recordLength := by
  simp only [body, recordLength, fields, List.intercalate_cons_cons, List.intercalate_singleton, List.length_append,
    List.length_singleton, List.map_cons, List.map_nil, List.sum_cons, List.sum_nil]
  omega

theorem nl_not_mem_body : nl ∉ c.body := by
  intro hmem
  rcases mem_intercalate hmem with h | ⟨f, hf, hnl⟩
  · exact absurd h (by decide)
  · exact (c.clean_of_mem_fields hf nl hnl).2 rfl

theorem count_tab_body : c.body.count tab = 5 := by
  have h := count_intercalate (List.cons_ne_nil _ _) fun f hf htab => (c.clean_of_mem_fields hf tab htab).1 rfl
  exact Nat.succ_injective h

/-! ## One call -/

theorem appendLineAt_eq (log : List UInt8) : (c.appendLineAt log).1 = log ++ c.appended := by
  have hlen : (c.body ++ [nl]).length ≠ 0 := by simp
  unfold appendLineAt appended
  split_ifs with hopen
  · rw [List.append_nil]
  · dsimp only
    rw [if_neg hlen]
    have hn : (if SSO_AUDIT_BUF ≤ (c.body ++ [nl]).length then SSO_AUDIT_BUF - 1 else (c.body ++ [nl]).length) =
        (snprintf SSO_AUDIT_BUF (c.body ++ [nl])).length := by
      rw [snprintf, List.length_take]
      unfold SSO_AUDIT_BUF
      split_ifs <;> omega
    rw [hn, ← List.take_take, List.take_length]

/-- A call whose record fits appends the record, any other one bytes without a newline. -/
theorem appended_cases : c.Fits ∧ c.appended = c.body ++ [nl] ∨ ¬ c.Fits ∧ nl ∉ c.appended := by
  have hlen := c.length_body
  have hrecord : (c.body ++ [nl]).length = c.recordLength := by rw [List.length_append, ← hlen]; rfl
  unfold appended
  by_cases hopen : c.sys.opened = false
  · rw [if_pos hopen]
    refine Or.inr ⟨fun h => ?_, List.not_mem_nil⟩
    rw [h.1.1] at hopen
    cases hopen
  rw [if_neg hopen, snprintf, List.take_take]
  have hopened : c.sys.opened = true := Bool.eq_true_of_not_eq_false hopen
  by_cases hcut : min c.sys.takes (SSO_AUDIT_BUF - 1) < c.recordLength
  · have hfits : ¬ c.Fits := by
      rintro ⟨⟨-, htakes⟩, hlt⟩
      omega
    refine Or.inr ⟨hfits, fun hmem => ?_⟩
    -- the newline is the last byte, and the last byte is cut off
    rw [List.take_append_of_le_length (by omega)] at hmem
    exact c.nl_not_mem_body (List.mem_of_mem_take hmem)
  · have hfits : c.Fits := ⟨⟨hopened, by omega⟩, by omega⟩
    refine Or.inl ⟨hfits, List.take_of_length_le ?_⟩
    rw [hrecord]
    omega

/-- One call appends a record exactly when its record fits. -/
theorem isRecord_appended_iff : IsRecord c.appended ↔ c.Fits := by
  rcases c.appended_cases with ⟨hfits, happ⟩ | ⟨hfits, hfree⟩
  · exact iff_of_true ⟨c.body, happ, c.nl_not_mem_body, c.count_tab_body⟩ hfits
  · refine iff_of_false ?_ hfits
    rintro ⟨line, hline, -⟩
    exact hfree (hline ▸ List.mem_append_right line (List.mem_singleton_self nl))

end Call

/-! ## Runs -/

theorem appendAll_eq (log : List UInt8) (calls : List Call) :
    appendAll log calls = log ++ (calls.map Call.appended).flatten := by
  unfold appendAll
  induction calls generalizing log with
  | nil => rw [List.foldl_nil, List.map_nil, List.flatten_nil, List.append_nil]
  | cons c calls ih => rw [List.foldl_cons, ih, c.appendLineAt_eq, List.map_cons, List.flatten_cons, List.append_assoc]

/-- Records that all fit split back. -/
theorem lines_of_fits {calls : List Call} (h : ∀ c ∈ calls, c.Fits) :
    lines nl (calls.map Call.appended).flatten = calls.map Call.body ∧
      rest nl (calls.map Call.appended).flatten = [] := by
  induction calls with
  | nil => exact ⟨rfl, rfl⟩
  | cons c calls ih =>
    obtain ⟨hlines, hrest⟩ := ih fun d hd => h d (List.mem_cons_of_mem c hd)
    rcases c.appended_cases with ⟨-, happ⟩ | ⟨hnot, -⟩
    · rw [List.map_cons, List.flatten_cons, happ, lines_append_terminator c.nl_not_mem_body, rest_append_terminator,
        hlines, hrest]
      exact ⟨rfl, rfl⟩
    · exact absurd (h c List.mem_cons_self) hnot

/-- There are as many newlines as records that fit. -/
theorem count_nl_le (calls : List Call) : (calls.map Call.appended).flatten.count nl ≤ calls.length ∧
    ((calls.map Call.appended).flatten.count nl = calls.length → ∀ c ∈ calls, c.Fits) := by
  induction calls with
  | nil => exact ⟨le_rfl, fun _ c hc => absurd hc List.not_mem_nil⟩
  | cons c calls ih =>
    rw [List.map_cons, List.flatten_cons, List.count_append, List.length_cons]
    rcases c.appended_cases with ⟨hfits, happ⟩ | ⟨-, hfree⟩
    · have hone : c.appended.count nl = 1 := by
        rw [happ, List.count_append, List.count_eq_zero_of_not_mem c.nl_not_mem_body, List.count_singleton_self]
      refine ⟨by omega, fun h d hd => ?_⟩
      rcases List.mem_cons.mp hd with rfl | hd
      · exact hfits
      · exact ih.2 (by omega) d hd
    · rw [List.count_eq_zero_of_not_mem hfree]
      exact ⟨by omega, fun h => by omega⟩

/-- **Record framing**: whatever the log held, each call appends exactly one record, and the bytes added split back into
one line per event, exactly when every record fits the buffer with its newline and is taken by the system. -/
theorem appendLineAt_framed_iff (log : List UInt8) (calls : List Call) : ∃ added, appendAll log calls = log ++ added ∧
    ((∀ c ∈ calls, IsRecord c.appended) ↔ ∀ c ∈ calls, c.Fits) ∧
    (lines nl added = calls.map Call.body ∧ rest nl added = [] ↔ ∀ c ∈ calls, c.Fits) := by
  refine ⟨_, appendAll_eq log calls, forall₂_congr fun c _ => c.isRecord_appended_iff, fun h => ?_, lines_of_fits⟩
  have hcount : (lines nl _).length = _ := length_lines (calls.map Call.appended).flatten
  rw [h.1, List.length_map] at hcount
  exact (count_nl_le calls).2 hcount.symm

/-! ## Events from the ring -/

theorem cstr_snprintf {s : List UInt8} (size : ℕ) (h : 0 ∉ s) : cstr (snprintf size s) = snprintf size s :=
  cstr_of_not_mem fun hmem => h (List.mem_of_mem_take hmem)

theorem field_snprintf (size : ℕ) (s : List UInt8) : field size (snprintf size s) = field size s := by
  rw [field, field, snprintf, snprintf, List.take_take, min_self]

/-- An event that was stored in the ring gives the record it would have given at once. -/
theorem fields_storedEvent (c : Call) (ts num : ℕ) :
    { c with
      event := (storedEvent ts num (cstr c.event) (cstr c.detail)).event
      detail := (storedEvent ts num (cstr c.event) (cstr c.detail)).detail }.fields = c.fields := by
  set name := orElse (cstr c.event) "-" with hname
  have hne : name ≠ [] := by
    rw [hname, orElse]
    split_ifs with h
    · decide
    · exact h
  have hfree : 0 ∉ name := by
    rw [hname, orElse]
    split_ifs
    · decide
    · exact nul_not_mem_cstr _
  have hcut : snprintf 64 name ≠ [] := fun h => hne ((List.take_eq_nil_iff.mp h).resolve_left (by decide))
  have hevent : cstr (storedEvent ts num (cstr c.event) (cstr c.detail)).event = snprintf 64 name :=
    cstr_snprintf 64 hfree
  have hdetail : cstr (storedEvent ts num (cstr c.event) (cstr c.detail)).detail = snprintf 480 (cstr c.detail) :=
    cstr_snprintf 480 (nul_not_mem_cstr _)
  have hkeep : orElse (snprintf 64 name) "-" = snprintf 64 name := if_neg hcut
  simp only [Call.fields, hevent, hdetail]
  rw [hkeep, field_snprintf, field_snprintf]

/-! ## Records that fuse -/

/-- A call by an operator's session that the system takes whole. -/
def sessionCall (detail : List UInt8) : Call where
  process := ⟨text "operator", text "simple_sat_ops", 4242⟩
  event := text "telecommand"
  detail := detail
  ts := ⟨1709251199, 0⟩
  sys := ⟨true, 511⟩

/-- A detail that fills its buffer, then a short one. -/
def fused : List Call := [sessionCall (List.replicate 479 (byte 'x')), sessionCall (text "accepted")]

theorem performed_sessionCall (detail : List UInt8) : (sessionCall detail).Performed := ⟨rfl, min_le_right _ _⟩

/-- Two events, one line: the first record has lost its newline. -/
theorem fused_not_framed : (∀ c ∈ fused, c.Performed) ∧ (lines nl (appendAll [] fused)).length = 1 ∧
    ¬ ((∀ c ∈ fused, IsRecord c.appended) ∧ lines nl (appendAll [] fused) = fused.map Call.body) := by
  have hperformed : ∀ c ∈ fused, c.Performed := by
    intro c hc
    rcases List.mem_pair.mp hc with rfl | rfl
    · exact performed_sessionCall _
    · exact performed_sessionCall _
  have hlong : ¬ (sessionCall (List.replicate 479 (byte 'x'))).Fits := by
    rintro ⟨-, hlt⟩
    exact absurd hlt (by decide +kernel)
  have hshort : (sessionCall (text "accepted")).Fits := ⟨performed_sessionCall _, by decide +kernel⟩
  have hcount : (lines nl (appendAll [] fused)).length = 1 := by
    rw [length_lines, appendAll_eq, List.nil_append]
    rcases (sessionCall (List.replicate 479 (byte 'x'))).appended_cases with ⟨h, -⟩ | ⟨-, hfree⟩
    · exact absurd h hlong
    rcases (sessionCall (text "accepted")).appended_cases with ⟨-, happ⟩ | ⟨h, -⟩
    · rw [fused, List.map_cons, List.map_singleton, List.flatten_cons, List.flatten_singleton, List.count_append,
        List.count_eq_zero_of_not_mem hfree, happ, List.count_append, List.count_singleton_self,
        List.count_eq_zero_of_not_mem (Call.nl_not_mem_body _)]
    · exact absurd hshort h
  refine ⟨hperformed, hcount, fun ⟨_, hlines⟩ => ?_⟩
  rw [hlines] at hcount
  exact absurd hcount (by decide)

end SimpleSatOps.AuditLog
