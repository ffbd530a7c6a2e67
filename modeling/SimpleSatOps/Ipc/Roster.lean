import SimpleSatOps.Ipc.Lookup

/-!
# The roster

* `RosterEntry`, `rosterEntries` : who is connected, the operator first;
* `ssoEventSetRoster` : the array written into `roster_json`; what was written stays there on failure;
* `Pieces` : a writer as the pieces it writes one by one;
* `rosterText` : the whole array, and `value_rosterText` : it is a JSON value;
* `setRoster_of_le`, `setRoster_of_lt` : an array that fits, and one that does not;
* `Truncated` : the text that is left of one that does not, which is no JSON value.
-/

namespace SimpleSatOps.Ipc
open Json JsonText

/-! ## Model -/

/-- `sso_roster_entry_t`, by the strings in its arrays. -/
structure RosterEntry where
  user : List UInt8
  role : List UInt8
  since : List UInt8

/-- A live slot of the server, by the strings in its arrays. -/
structure Client where
  user : List UInt8
  role : List UInt8
  since : List UInt8

/-- `SSO_IPC_MAX_CLIENTS_FOR_ROSTER`. -/
def maxRoster : ℕ := 16

/-- The entries of `ipc_broadcast_state`: a client that has not said its name is passed over. -/
def rosterEntries (operatorUser : List UInt8) (clients : List Client) : List RosterEntry :=
  ⟨snprintf 64 operatorUser, text "operator", []⟩ ::
    ((clients.filter fun c => c.user != []).take (maxRoster - 1)).map fun c =>
      ⟨snprintf 64 c.user, snprintf 16 (if c.role = [] then text "viewer" else c.role), snprintf 40 c.since⟩

/-- `json_append` with what stays in the array on failure. -/
def appendOr (lim : ℕ) (out s : List UInt8) : Except (List UInt8) (List UInt8) :=
  (jsonAppend lim out s).elim (.error out) .ok

def appendEscapedOr (lim : ℕ) (s out : List UInt8) : Except (List UInt8) (List UInt8) := do
  let out ← appendOr lim out [byte '"']
  let out ← s.foldlM (fun out c => appendOr lim out (escapeByte c)) out
  appendOr lim out [byte '"']

def appendSince (lim : ℕ) (x : RosterEntry) (out : List UInt8) : Except (List UInt8) (List UInt8) :=
  if x.since = [] then pure out
  else do
    let out ← appendOr lim out (text ",\"since\":")
    appendEscapedOr lim x.since out

def appendEntry (lim : ℕ) (x : RosterEntry) (out : List UInt8) : Except (List UInt8) (List UInt8) := do
  let out ← appendOr lim out (text "\x7b\"user\":")
  let out ← appendEscapedOr lim x.user out
  let out ← appendOr lim out (text ",\"role\":")
  let out ← appendEscapedOr lim x.role out
  let out ← appendSince lim x out
  appendOr lim out (text "\x7d")

/-- `i > 0` for every entry but the first. -/
def appendSeparator (lim : ℕ) (first : Bool) (out : List UInt8) : Except (List UInt8) (List UInt8) :=
  if first then pure out else appendOr lim out (text ",")

def appendEntries (lim : ℕ) : (first : Bool) → List RosterEntry → List UInt8 → Except (List UInt8) (List UInt8)
  | _, [], out => pure out
  | first, x :: xs, out => do
      let out ← appendSeparator lim first out
      let out ← appendEntry lim x out
      appendEntries lim false xs out

/-- The array, into `lim` bytes. -/
def appendRoster (lim : ℕ) (entries : List RosterEntry) : Except (List UInt8) (List UInt8) := do
  let out ← appendOr lim [] (text "[")
  let out ← appendEntries lim true entries out
  appendOr lim out (text "]")

theorem length_overlay_take {n : ℕ} (xs : List UInt8) (buf : Bytes n) : ((overlay xs buf.1).take n).length = n := by
  have hbuf := buf.2
  rw [overlay, List.length_take, List.length_append, List.length_drop]
  omega

/-- `sso_event_set_roster` into an array: whether it returned 0, and the array. The last byte is kept for the NUL, so
what is written is never longer than the array. -/
def ssoEventSetRoster (entries : List RosterEntry) (buf : Bytes rosterMax) : Bool × Bytes rosterMax :=
  match appendRoster (rosterMax - 1) entries with
  | .ok out => (true, ⟨(overlay (out ++ [0]) buf.1).take rosterMax, length_overlay_take _ _⟩)
  | .error out => (false, ⟨(overlay out buf.1).take rosterMax, length_overlay_take _ _⟩)

/-! ## Pieces -/

/-- The writer writes the pieces `ps`, each of them whole or not at all. -/
def Pieces (lim : ℕ) (f : List UInt8 → Except (List UInt8) (List UInt8)) (ps : List (List UInt8)) : Prop :=
  ∀ out, f out = ps.foldlM (appendOr lim) out

theorem Pieces.one (lim : ℕ) (s : List UInt8) : Pieces lim (fun out => appendOr lim out s) [s] := by
  intro out
  show appendOr lim out s = _
  rw [List.foldlM_cons]
  cases appendOr lim out s <;> rfl

theorem Pieces.bind {lim : ℕ} {f g : List UInt8 → Except (List UInt8) (List UInt8)} {ps qs : List (List UInt8)}
    (hf : Pieces lim f ps) (hg : Pieces lim g qs) : Pieces lim (fun out => f out >>= g) (ps ++ qs) := by
  intro out
  show f out >>= g = _
  rw [List.foldlM_append, ← hf out]
  cases f out with
  | error out' => rfl
  | ok out' => exact hg out'

def escapedPieces (s : List UInt8) : List (List UInt8) := [byte '"'] :: (s.map escapeByte ++ [[byte '"']])

theorem pieces_escaped (lim : ℕ) (s : List UInt8) : Pieces lim (appendEscapedOr lim s) (escapedPieces s) := by
  have hbody : Pieces lim (fun out => s.foldlM (fun out c => appendOr lim out (escapeByte c)) out)
      (s.map escapeByte) := by
    intro out
    rw [List.foldlM_map]
  have h := (Pieces.one lim [byte '"']).bind (hbody.bind (.one lim [byte '"']))
  exact h

def sincePieces (x : RosterEntry) : List (List UInt8) :=
  if x.since = [] then [] else text ",\"since\":" :: escapedPieces x.since

theorem pieces_since (lim : ℕ) (x : RosterEntry) : Pieces lim (appendSince lim x) (sincePieces x) := by
  unfold appendSince sincePieces
  by_cases h : x.since = []
  · simp only [if_pos h]
    exact fun out => rfl
  · simp only [if_neg h]
    exact (Pieces.one lim _).bind (pieces_escaped lim x.since)

def entryPieces (x : RosterEntry) : List (List UInt8) :=
  text "\x7b\"user\":" :: (escapedPieces x.user ++
    (text ",\"role\":" :: (escapedPieces x.role ++ (sincePieces x ++ [text "\x7d"]))))

theorem pieces_entry (lim : ℕ) (x : RosterEntry) : Pieces lim (appendEntry lim x) (entryPieces x) := by
  have h := (Pieces.one lim (text "\x7b\"user\":")).bind ((pieces_escaped lim x.user).bind
    ((Pieces.one lim (text ",\"role\":")).bind ((pieces_escaped lim x.role).bind
      ((pieces_since lim x).bind (.one lim (text "\x7d"))))))
  exact h

def entriesPieces : (first : Bool) → List RosterEntry → List (List UInt8)
  | _, [] => []
  | first, x :: xs => (if first then [] else [text ","]) ++ (entryPieces x ++ entriesPieces false xs)

theorem pieces_entries (lim : ℕ) (first : Bool) (xs : List RosterEntry) :
    Pieces lim (appendEntries lim first xs) (entriesPieces first xs) := by
  induction xs generalizing first with
  | nil => exact fun out => rfl
  | cons x xs ih =>
      have hcomma : Pieces lim (appendSeparator lim first) (if first then [] else [text ","]) := by
        cases first with
        | true => exact fun out => rfl
        | false => exact .one lim _
      have h := hcomma.bind ((pieces_entry lim x).bind (ih false))
      exact h

/-- Everything but the closing bracket. -/
def openPieces (entries : List RosterEntry) : List (List UInt8) := text "[" :: entriesPieces true entries

def rosterPieces (entries : List RosterEntry) : List (List UInt8) := openPieces entries ++ [text "]"]

theorem appendRoster_eq (lim : ℕ) (entries : List RosterEntry) :
    appendRoster lim entries = (rosterPieces entries).foldlM (appendOr lim) [] := by
  have h := (Pieces.one lim (text "[")).bind ((pieces_entries lim true entries).bind (.one lim (text "]")))
  exact h []

theorem foldlM_appendOr_of_le {lim : ℕ} {out : List UInt8} {ps : List (List UInt8)}
    (h : out.length + ps.flatten.length ≤ lim) : ps.foldlM (appendOr lim) out = .ok (out ++ ps.flatten) := by
  induction ps generalizing out with
  | nil => rw [List.flatten_nil, List.append_nil]; rfl
  | cons p ps ih =>
      rw [List.flatten_cons, List.length_append] at h
      have hput : appendOr lim out p = .ok (out ++ p) := by
        rw [appendOr, jsonAppend, if_neg (by omega)]
        rfl
      rw [List.foldlM_cons, hput, List.flatten_cons, ← List.append_assoc]
      exact ih (by rw [List.length_append]; omega)

/-- Where the text does not fit, the pieces in front of the first one that does not are left. -/
theorem foldlM_appendOr_of_lt {lim : ℕ} {out : List UInt8} {ps : List (List UInt8)} (hout : out.length ≤ lim)
    (h : lim < out.length + ps.flatten.length) :
    ∃ ps₁ p ps₂, ps = ps₁ ++ p :: ps₂ ∧ out.length + ps₁.flatten.length ≤ lim ∧
      lim < out.length + ps₁.flatten.length + p.length ∧
      ps.foldlM (appendOr lim) out = .error (out ++ ps₁.flatten) := by
  induction ps generalizing out with
  | nil =>
      rw [List.flatten_nil, List.length_nil] at h
      omega
  | cons p ps ih =>
      rw [List.flatten_cons, List.length_append] at h
      rw [List.foldlM_cons]
      by_cases hp : lim < out.length + p.length
      · refine ⟨[], p, ps, rfl, by rw [List.flatten_nil, List.length_nil]; omega, hp, ?_⟩
        rw [appendOr, jsonAppend, if_pos hp, List.flatten_nil, List.append_nil]
        rfl
      · have hput : appendOr lim out p = .ok (out ++ p) := by
          rw [appendOr, jsonAppend, if_neg hp]
          rfl
        have hlen : (out ++ p).length = out.length + p.length := List.length_append
        obtain ⟨ps₁, q, ps₂, hps, hle, hlt, heq⟩ := @ih (out ++ p) (by omega) (by omega)
        refine ⟨p :: ps₁, q, ps₂, by rw [hps, List.cons_append], ?_, ?_, ?_⟩
        · rw [List.flatten_cons, List.length_append]
          omega
        · rw [List.flatten_cons, List.length_append]
          omega
        · rw [hput, List.flatten_cons, ← List.append_assoc]
          exact heq

/-! ## The text -/

/-- The array of the entries. -/
def rosterText (entries : List RosterEntry) : List UInt8 := (rosterPieces entries).flatten

theorem flatten_escapedPieces (s : List UInt8) : (escapedPieces s).flatten = quoted (escape s) := by
  rw [escapedPieces, List.flatten_cons, List.flatten_append, ← List.flatMap_def]
  rfl

/-- The members of an entry. -/
def entryMembers (x : RosterEntry) : List Pair :=
  (text "user", quoted (escape x.user)) :: (text "role", quoted (escape x.role)) ::
    (if x.since = [] then [] else [(text "since", quoted (escape x.since))])

theorem flatten_entryPieces (x : RosterEntry) : (entryPieces x).flatten =
    byte '{' :: (joined ((entryMembers x).map fun m => memberText m.1 m.2) ++ [byte '}']) := by
  have huser : text "\x7b\"user\":" = byte '{' :: (quoted (text "user") ++ [byte ':']) := by decide
  have hrole : text ",\"role\":" = byte ',' :: (quoted (text "role") ++ [byte ':']) := by decide
  have hsince : text ",\"since\":" = byte ',' :: (quoted (text "since") ++ [byte ':']) := by decide
  have hclose : text "\x7d" = [byte '}'] := by decide
  have hmember : ∀ k v : List UInt8, memberText k v = quoted k ++ byte ':' :: v := by
    intro k v
    rw [memberText, member, List.append_nil]
    rfl
  rw [entryPieces, List.flatten_cons, List.flatten_append, List.flatten_cons, List.flatten_append, List.flatten_append,
    flatten_escapedPieces, flatten_escapedPieces, huser, hrole]
  unfold sincePieces entryMembers
  by_cases h : x.since = []
  · simp [if_pos h, hclose, joined, hmember]
  · rw [if_neg h, if_neg h, List.flatten_cons, flatten_escapedPieces, hsince]
    simp [hclose, joined, hmember]

/-- An entry is an object. -/
theorem value_entry (x : RosterEntry) : Value (entryPieces x).flatten := by
  have hkey : ∀ k ∈ [text "user", text "role", text "since"], Chars k := by
    intro k hk
    apply chars_of_plain
    revert k
    decide
  have hmembers : ∀ m ∈ entryMembers x, Chars m.1 ∧ Value m.2 := by
    intro m hm
    have hcases : m.1 ∈ [text "user", text "role", text "since"] ∧ ∃ s, m.2 = quoted (escape s) := by
      unfold entryMembers at hm
      split_ifs at hm <;> simp only [List.mem_cons, List.not_mem_nil, or_false] at hm
      · rcases hm with rfl | rfl <;> exact ⟨by simp, _, rfl⟩
      · rcases hm with rfl | rfl | rfl <;> exact ⟨by simp, _, rfl⟩
    obtain ⟨hk, s, hs⟩ := hcases
    exact ⟨hkey _ hk, hs ▸ .string (chars_escape s)⟩
  rw [flatten_entryPieces]
  rcases (members_joined (entryMembers x)).text hmembers with hblank | htext
  · exact .emptyObject hblank
  · exact .object htext

/-- The entries are the elements of an array. -/
theorem elements_entries (x : RosterEntry) (xs : List RosterEntry) :
    Text .elements (entriesPieces true (x :: xs)).flatten := by
  have hcomma : text "," = [byte ','] := by decide
  induction xs generalizing x with
  | nil =>
      have h := Text.element .nil (value_entry x) .nil
      rw [List.nil_append, List.append_nil] at h
      simpa [entriesPieces] using h
  | cons y ys ih =>
      have h := Text.elements .nil (value_entry x) .nil (ih y)
      rw [List.nil_append, List.append_nil] at h
      simpa [entriesPieces, hcomma] using h

theorem flatten_rosterPieces (entries : List RosterEntry) :
    rosterText entries = byte '[' :: ((entriesPieces true entries).flatten ++ [byte ']']) := by
  have hopen : text "[" = [byte '['] := by decide
  have hclose : text "]" = [byte ']'] := by decide
  rw [rosterText, rosterPieces, openPieces, List.flatten_append, List.flatten_cons, hopen, hclose,
    List.flatten_singleton]
  rfl

theorem value_rosterText (entries : List RosterEntry) : Value (rosterText entries) := by
  rw [flatten_rosterPieces]
  cases entries with
  | nil => exact .emptyArray .nil
  | cons x xs => exact .array (elements_entries x xs)

/-! ## What is in the array -/

theorem cstr_overlay_nul {s : List UInt8} (h : 0 ∉ s) (buf : List UInt8) : cstr (overlay (s ++ [0]) buf) = s := by
  rw [overlay, List.append_assoc]
  exact cstr_append_nul h _

theorem nul_not_mem_rosterText (entries : List RosterEntry) : 0 ∉ rosterText entries :=
  nul_not_mem_text (value_rosterText entries)

/-- An array that fits is written whole. -/
theorem setRoster_of_le {entries : List RosterEntry} (h : (rosterText entries).length ≤ rosterMax - 1)
    (buf : Bytes rosterMax) :
    (ssoEventSetRoster entries buf).1 = true ∧
      (ssoEventSetRoster entries buf).2.1 = overlay (rosterText entries ++ [0]) buf.1 := by
  have hok : appendRoster (rosterMax - 1) entries = .ok (rosterText entries) := by
    rw [appendRoster_eq, foldlM_appendOr_of_le (by rw [List.length_nil, Nat.zero_add]; exact h)]
    rfl
  unfold ssoEventSetRoster
  rw [hok]
  refine ⟨rfl, ?_⟩
  show (overlay _ _).take rosterMax = _
  apply List.take_of_length_le
  rw [length_overlay]
  · exact buf.2.le
  · rw [buf.2, List.length_append, List.length_singleton]
    exact Nat.add_le_of_le_sub (by decide) h

/-- What is left of an array that does not fit: some of its pieces, but not the closing bracket. -/
def Truncated (entries : List RosterEntry) (t : List UInt8) : Prop :=
  ∃ ps ps', openPieces entries = ps ++ ps' ∧ ps ≠ [] ∧ t = ps.flatten ∧ t.length ≤ rosterMax - 1

theorem setRoster_of_lt {entries : List RosterEntry} (h : rosterMax - 1 < (rosterText entries).length)
    (buf : Bytes rosterMax) :
    (ssoEventSetRoster entries buf).1 = false ∧
      ∃ t, Truncated entries t ∧ (ssoEventSetRoster entries buf).2.1 = overlay t buf.1 := by
  obtain ⟨ps, p, ps', hps, hle, hlt, heq⟩ := @foldlM_appendOr_of_lt (rosterMax - 1) [] (rosterPieces entries)
    (Nat.zero_le _) (by rw [List.length_nil, Nat.zero_add]; exact h)
  rw [List.length_nil, Nat.zero_add] at hle hlt
  have hfail : appendRoster (rosterMax - 1) entries = .error ps.flatten := by
    rw [appendRoster_eq]
    exact heq
  have hopen : openPieces entries = ps ++ (p :: ps').dropLast := by
    rw [← List.dropLast_append_of_ne_nil (List.cons_ne_nil p ps'), ← hps, rosterPieces, List.dropLast_concat]
  have hne : ps ≠ [] := by
    rintro rfl
    -- the opening bracket fits
    have hp : p = text "[" := by
      rw [rosterPieces, openPieces] at hps
      exact (List.cons.inj hps).1.symm
    rw [hp] at hlt
    exact absurd hlt (by decide)
  unfold ssoEventSetRoster
  rw [hfail]
  refine ⟨rfl, ps.flatten, ⟨ps, _, hopen, hne, rfl, hle⟩, ?_⟩
  show (overlay _ _).take rosterMax = _
  apply List.take_of_length_le
  rw [length_overlay]
  · exact buf.2.le
  · rw [buf.2]
    exact hle.trans (Nat.sub_le _ _)

/-- The open bracket is never closed. -/
theorem skipValue_truncated {entries : List RosterEntry} {t : List UInt8} (h : Truncated entries t) :
    skipValue t = none := by
  obtain ⟨ps, ps', hopen, hne, rfl, -⟩ := h
  obtain ⟨q, ps₁, rfl⟩ := List.exists_cons_of_ne_nil hne
  rw [openPieces] at hopen
  obtain ⟨rfl, hcons⟩ := List.cons.inj hopen
  have htail : entriesPieces true entries = ps₁ ++ ps' := hcons
  have hbracket : text "[" = [byte '['] := by decide
  have hb : Bracket (byte '[') (byte ']') := .inr ⟨rfl, rfl⟩
  have hall : scan (byte '[') (byte ']') .out 1 (entriesPieces true entries).flatten = none := by
    cases entries with
    | nil => rfl
    | cons x xs =>
        have hscan := scan_text hb (elements_entries x xs) 1 [] le_rfl
        rw [List.append_nil] at hscan
        exact hscan
  rw [htail, List.flatten_append] at hall
  rw [List.flatten_cons, hbracket, List.singleton_append]
  show scan (byte '[') (byte ']') .out 1 ps₁.flatten = none
  cases hps : scan (byte '[') (byte ']') .out 1 ps₁.flatten with
  | none => rfl
  | some r =>
      rw [scan_append hps] at hall
      cases hall

/-- A truncated roster is no JSON value. -/
theorem Truncated.not_value {entries : List RosterEntry} {t : List UInt8} (h : Truncated entries t) : ¬ Value t := by
  intro hv
  have hskip := (Token.of_value hv).skip [] nofun
  rw [List.append_nil, skipValue_truncated h] at hskip
  cases hskip

theorem Truncated.ne_nil {entries : List RosterEntry} {t : List UInt8} (h : Truncated entries t) : t ≠ [] := by
  rintro rfl
  obtain ⟨ps, ps', hopen, hne, ht, -⟩ := h
  obtain ⟨q, ps₁, rfl⟩ := List.exists_cons_of_ne_nil hne
  rw [openPieces] at hopen
  obtain ⟨rfl, -⟩ := List.cons.inj hopen
  exact absurd ht (List.cons_ne_nil _ _).symm

/-! ## Control bytes -/

theorem le_of_mem_escapedPieces (s : List UInt8) : ∀ c ∈ (escapedPieces s).flatten, 0x20 ≤ c := by
  rw [flatten_escapedPieces]
  exact le_of_mem_quoted_escape s

theorem le_of_mem_entryPieces (x : RosterEntry) : ∀ c ∈ (entryPieces x).flatten, 0x20 ≤ c := by
  have hsince : ∀ c ∈ (sincePieces x).flatten, 0x20 ≤ c := by
    unfold sincePieces
    split_ifs
    · exact nofun
    · rw [List.flatten_cons, List.forall_mem_append]
      exact ⟨by decide, le_of_mem_escapedPieces x.since⟩
  unfold entryPieces
  simp only [List.flatten_cons, List.flatten_append, List.flatten_nil, List.append_nil, List.forall_mem_append]
  exact ⟨by decide, le_of_mem_escapedPieces _, by decide, le_of_mem_escapedPieces _, hsince, by decide⟩

theorem le_of_mem_entriesPieces (first : Bool) (xs : List RosterEntry) :
    ∀ c ∈ (entriesPieces first xs).flatten, 0x20 ≤ c := by
  induction xs generalizing first with
  | nil => exact nofun
  | cons x xs ih =>
      have hcomma : ∀ c ∈ (if first then [] else [text ","]).flatten, 0x20 ≤ c := by
        revert first
        decide
      unfold entriesPieces
      simp only [List.flatten_append, List.forall_mem_append]
      exact ⟨hcomma, le_of_mem_entryPieces x, ih false⟩

theorem le_of_mem_rosterText (entries : List RosterEntry) : ∀ c ∈ rosterText entries, 0x20 ≤ c := by
  unfold rosterText rosterPieces openPieces
  simp only [List.flatten_cons, List.flatten_append, List.flatten_nil, List.append_nil, List.forall_mem_append]
  exact ⟨⟨by decide, le_of_mem_entriesPieces true entries⟩, by decide⟩

theorem le_of_mem_truncated {entries : List RosterEntry} {t : List UInt8} (h : Truncated entries t) :
    ∀ c ∈ t, 0x20 ≤ c := by
  obtain ⟨ps, ps', hopen, -, rfl, -⟩ := h
  intro c hc
  apply le_of_mem_rosterText entries
  rw [rosterText, rosterPieces, hopen]
  simp only [List.flatten_append, List.mem_append]
  exact .inl (.inl hc)

/-- An array that was cleared once and that `sso_event_set_roster` wrote into any number of times, whatever it
returned. -/
inductive FromSetRoster : Bytes rosterMax → Prop
  | cleared : FromSetRoster (zeros rosterMax)
  | set {buf : Bytes rosterMax} (entries : List RosterEntry) (h : FromSetRoster buf) :
      FromSetRoster (ssoEventSetRoster entries buf).2

/-- It holds no control byte but NULs. -/
theorem FromSetRoster.le_of_mem {buf : Bytes rosterMax} (h : FromSetRoster buf) : ∀ c ∈ buf.1, c = 0 ∨ 0x20 ≤ c := by
  induction h with
  | cleared => exact fun c hc => .inl (List.mem_replicate.mp hc).2
  | @set buf entries _ ih =>
      have hover : ∀ {t : List UInt8}, (∀ c ∈ t, c = 0 ∨ 0x20 ≤ c) → ∀ c ∈ overlay t buf.1, c = 0 ∨ 0x20 ≤ c := by
        intro t ht c hc
        rcases List.mem_append.mp hc with hc | hc
        · exact ht c hc
        · exact ih c (List.mem_of_mem_drop hc)
      by_cases hfit : (rosterText entries).length ≤ rosterMax - 1
      · rw [(setRoster_of_le hfit buf).2]
        apply hover
        rw [List.forall_mem_append]
        exact ⟨fun c hc => .inr (le_of_mem_rosterText entries c hc), fun c hc => .inl (List.mem_singleton.mp hc)⟩
      · obtain ⟨-, t, ht, heq⟩ := setRoster_of_lt (Nat.lt_of_not_le hfit) buf
        rw [heq]
        exact hover fun c hc => .inr (le_of_mem_truncated ht c hc)

end SimpleSatOps.Ipc
