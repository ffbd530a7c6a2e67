import SimpleSatOps.Proto.TcmdLint
import SimpleSatOps.Ui.AutoTcmd

/-!
# What is sent against what was linted

The loader reads 511 bytes at a time, the linter 4095, and the two trim a line in different orders.

* `LineAgrees` : the lines both readers take the same way;
* `command_eq_iff` : the two commands of one line, seen to different lengths;
* `lineAgrees_of_short` : only long lines and carriage returns divide the readers;
* `loaded_eq_linted` : the files that are sent as they were linted.
-/

namespace SimpleSatOps.AgendaGate
open Lines AgendaLine TcmdLint AutoTcmd

/-- No carriage return stands before the white space at the end. -/
def CleanEnd (s : List UInt8) : Prop := ∀ c ∈ (s.rdropWhile isBlank).getLast?, isSpace c = false

instance (s : List UInt8) : Decidable (CleanEnd s) := Option.decidableForallMem (o := (s.rdropWhile isBlank).getLast?)

/-- The command that starts at offset `a` of a line, where the loader reads `511 - a % 511` more bytes and the linter
`4095 - a`: what only one of them sees before the comment is white space, and a comment the loader sees has no
carriage return before it. -/
def CommandFits (line : List UInt8) (a : ℕ) : Prop :=
  let np := 511 - a % 511
  let nq := 4095 - a
  let s := (line.drop a).take (max np nq)
  let i := commentScan true s
  (∀ c ∈ (s.take i).drop (min np nq), isSpace c = true) ∧ (i < np → i < s.length → CleanEnd (s.take i))

instance (line : List UInt8) (a : ℕ) : Decidable (CommandFits line a) := by
  unfold CommandFits
  infer_instance

/-- The offset of the first byte of a line that is no blank, as far as the linter reads. -/
def commandStart (line : List UInt8) : ℕ := ((line.take 4095).takeWhile isBlank).length

/-- A line the linter skips is silent in every piece the loader reads. In another one the loader's later pieces
are silent and the command fits. What the linter reads of it behind 4095 bytes is skipped. -/
def LineAgrees (line : List UInt8) : Prop :=
  (∀ q ∈ fgets 4096 (line.drop 4095), skipped q = true) ∧
    if skipped (line.take 4095) = true then ∀ p ∈ fgets 512 line, silent p = true
    else (∀ p ∈ fgets 512 (line.drop (511 * (commandStart line / 511 + 1))), silent p = true) ∧
      CommandFits line (commandStart line)

instance (line : List UInt8) : Decidable (LineAgrees line) := by
  unfold LineAgrees
  infer_instance

/-! ## One command, seen to two lengths -/

section Command

variable {s : List UInt8} {m n : ℕ}

theorem cleanEnd_iff (s : List UInt8) : CleanEnd s ↔ s.rdropWhile isBlank = s.rdropWhile isSpace :=
  (trimEnd_eq_trimEnd_iff (fun _ => isSpace_of_isBlank) s).symm

/-- Two readings of a string, one of which reaches its end. -/
theorem trimEnd_take_eq_iff (h : s.length ≤ max m n) :
    (s.take m).rdropWhile isSpace = (s.take n).rdropWhile isSpace ↔
      ∀ c ∈ s.drop (min m n), isSpace c = true := by
  rcases le_total m n with hle | hle
  · rw [max_eq_right hle] at h
    rw [min_eq_left hle, List.take_of_length_le h, eq_comm]
    exact trimEnd_eq_trimEnd_take_iff s m
  · rw [max_eq_left hle] at h
    rw [min_eq_right hle, List.take_of_length_le h]
    exact trimEnd_eq_trimEnd_take_iff s n

/-- The loader cuts the comment off: the linter has the same command when it sees all of it and it ends well. -/
theorem trimBlank_eq_iff (h : s.length ≤ m) :
    s.rdropWhile isBlank = (s.take n).rdropWhile isSpace ↔
      (∀ c ∈ s.drop (min m n), isSpace c = true) ∧ CleanEnd s := by
  have hfull := trimEnd_take_eq_iff (m := m) (n := n) (h.trans (le_max_left _ _))
  rw [List.take_of_length_le h] at hfull
  rw [cleanEnd_iff, ← hfull]
  refine ⟨fun heq => ?_, fun heq => heq.2.trans heq.1⟩
  have hall : s.rdropWhile isSpace = (s.take n).rdropWhile isSpace := by
    rw [← trimEnd_trimEnd (fun _ => isSpace_of_isBlank) s, heq, List.rdropWhile_idempotent]
  exact ⟨hall, heq.trans hall.symm⟩

/-- What the loader stores of the first `m` bytes is what the linter is handed of the first `n`. -/
theorem command_eq_iff (h : s.length ≤ max m n) :
    ((if commentScan true (s.take m) < (s.take m).length
        then ((s.take m).take (commentScan true (s.take m))).rdropWhile isBlank
        else (s.take m).rdropWhile isSpace) =
      ((s.take n).take (commentScan true (s.take n))).rdropWhile isSpace) ↔
    (∀ c ∈ (s.take (commentScan true s)).drop (min m n), isSpace c = true) ∧
      (commentScan true s < m → commentScan true s < s.length → CleanEnd (s.take (commentScan true s))) := by
  have hi := commentScan_le true s
  have hlint : (s.take n).take (commentScan true (s.take n)) = (s.take (commentScan true s)).take n := by
    rw [commentScan_take, List.take_take, List.take_take]
    congr 1
    omega
  rw [hlint, commentScan_take, List.length_take]
  generalize commentScan true s = i at hi ⊢
  have hlen : (s.take i).length = i := by rw [List.length_take]; omega
  by_cases hseen : i < m ∧ i < s.length
  · rw [if_pos (by omega), List.take_take, min_eq_left (by omega), min_eq_left hseen.1.le]
    have hiff := trimBlank_eq_iff (s := s.take i) (m := m) (n := n) (by omega)
    rw [hiff]
    simp [hseen]
  · have hload : s.take m = (s.take i).take m := by
      rcases Nat.lt_or_ge i m with hlt | hge
      · rw [List.take_of_length_le (l := s) (i := i) (by omega)]
      · rw [List.take_take, min_eq_left hge]
    rw [if_neg (by omega), hload]
    have hiff := trimEnd_take_eq_iff (s := s.take i) (m := m) (n := n) (by omega)
    rw [hiff]
    exact ⟨fun hall => ⟨hall, fun h1 h2 => absurd ⟨h1, h2⟩ hseen⟩, fun hall => hall.1⟩

end Command

/-! ## One line -/

section Line

variable {line content : List UInt8}

theorem loaded_eq_nil_iff (content : List UInt8) :
    loaded content = [] ↔ ∀ p ∈ fgets 512 content, silent p = true := by
  unfold loaded
  rw [List.filterMap_eq_nil_iff]
  exact forall₂_congr fun p _ => loadLine_eq_none_iff p

theorem linted_eq_nil (h : ∀ q ∈ fgets 4096 content, skipped q = true) : linted content = [] := by
  unfold linted
  rw [List.filterMap_eq_nil_iff]
  exact fun q hq => lintLine_eq_none (h q hq)

/-- A line comes to a reader in pieces. -/
theorem filterMap_fgets_of_line (hl : IsLine (· == newline) line) (h0 : (0 : UInt8) ∉ line) {size : ℕ}
    (hsize : 1 < size) (f : List UInt8 → Option (List UInt8)) (hf : f [] = none) :
    (fgets size line).filterMap f =
      (f (line.take (size - 1))).toList ++ (fgets size (line.drop (size - 1))).filterMap f := by
  rcases eq_or_ne line [] with rfl | hne
  · simp [fgets, hf]
  · have h0' : (0 : UInt8) ∉ line.drop (size - 1) := fun h => h0 (List.mem_of_mem_drop h)
    rw [fgets_of_not_mem hsize h0, fgets_of_not_mem hsize h0', readLines_of_line (by omega) hl hne]
    cases hp : f (line.take (size - 1)) with
    | none => exact List.filterMap_cons_none hp
    | some t => exact List.filterMap_cons_some hp

theorem loaded_of_line (hl : IsLine (· == newline) line) (h0 : (0 : UInt8) ∉ line) :
    loaded line = (loadLine (line.take 511)).toList ++ loaded (line.drop 511) :=
  filterMap_fgets_of_line hl h0 (by decide) loadLine rfl

theorem linted_of_line (hl : IsLine (· == newline) line) (h0 : (0 : UInt8) ∉ line) :
    linted line = (lintLine (line.take 4095)).toList ++ linted (line.drop 4095) :=
  filterMap_fgets_of_line hl h0 (by decide) lintLine rfl

/-- Blank pieces at the front of a line are dropped. -/
theorem loaded_drop_blank (hl : IsLine (· == newline) line) (h0 : (0 : UInt8) ∉ line) {k : ℕ}
    (hb : ∀ c ∈ line.take (511 * k), isBlank c = true) : loaded line = loaded (line.drop (511 * k)) := by
  induction k generalizing line with
  | zero => rfl
  | succ k ih =>
      have hsilent : loadLine (line.take 511) = none := by
        rw [loadLine_eq_none_iff]
        unfold silent
        rw [List.dropWhile_eq_nil_iff.mpr]
        exact fun c hc => isSpace_of_isBlank (hb c (List.take_subset_take_left line (by omega) hc))
      have htail : ∀ c ∈ (line.drop 511).take (511 * k), isBlank c = true := fun c hc => by
        rw [List.take_drop] at hc
        have hmem := List.mem_of_mem_drop hc
        exact hb c (by rwa [Nat.mul_succ, Nat.add_comm] )
      rw [loaded_of_line hl h0, hsilent, ih (hl.drop 511) (fun h => h0 (List.mem_of_mem_drop h)) htail, List.drop_drop,
        Nat.mul_succ, Nat.add_comm]
      rfl

/-- Where the command of a line starts that the linter does not skip. -/
theorem commandStart_spec (h : skipped (line.take 4095) = false) :
    ∃ c, isSpace c = false ∧ c ≠ hash ∧ commandStart line < 4095 ∧ (line.drop (commandStart line)).head? = some c ∧
      ∀ d ∈ line.take (commandStart line), isBlank d = true := by
  obtain ⟨c, u, hq, hc, hh⟩ := exists_of_not_skipped h
  have hlt : commandStart line < (line.take 4095).length := by
    rw [hq, List.length_append, List.length_cons]
    unfold commandStart
    omega
  have h4095 : commandStart line < 4095 := hlt.trans_le (List.length_take_le 4095 line)
  refine ⟨c, hc, hh, h4095, ?_, ?_⟩
  · have hget : (line.take 4095)[commandStart line]? = some c := by
      conv_lhs => rw [hq]
      unfold commandStart
      rw [List.getElem?_append_right le_rfl, Nat.sub_self]
      rfl
    rw [List.head?_drop, ← hget, List.getElem?_take_of_lt h4095]
  · have htake : line.take (commandStart line) = (line.take 4095).takeWhile isBlank := by
      have hpre := List.prefix_iff_eq_take.mp (List.takeWhile_prefix isBlank (l := line.take 4095))
      rw [hpre, List.take_take]
      exact congrArg (line.take ·) (min_eq_left h4095.le).symm
    intro d hd
    rw [htake] at hd
    exact List.mem_takeWhile_imp hd

private theorem take_take_seen (s : List UInt8) {n m : ℕ} (h : n ≤ m) : (s.take m).take n = s.take n := by
  rw [List.take_take, min_eq_left h]

/-- A line with a command, read by the linter in one piece. -/
theorem loaded_eq_linted_of_command (hl : IsLine (· == newline) line) (h0 : (0 : UInt8) ∉ line)
    (hskip : skipped (line.take 4095) = false) (htail : linted (line.drop 4095) = []) :
    (linted line).length ≤ (loaded line).length ∧
      (loaded line = linted line ↔
        loaded (line.drop (511 * (commandStart line / 511 + 1))) = [] ∧ CommandFits line (commandStart line)) := by
  obtain ⟨c, hc, hh, ha, hhead, hblank⟩ := commandStart_spec hskip
  generalize commandStart line = a at *
  unfold CommandFits
  dsimp only
  have hdiv := Nat.div_add_mod a 511
  have hstart : ∀ n, 0 < n → ((line.drop a).take n).head? = some c := fun n hn => by
    rw [List.head?_take, if_neg (by omega), hhead]
  -- what the linter sees
  have hlint : line.take 4095 = line.take a ++ (line.drop a).take (4095 - a) := by
    rw [← List.take_add, Nat.add_sub_of_le ha.le]
  have hlinted := linted_of_line hl h0
  rw [htail, hlint, lintLine_eq hblank (hstart _ (by omega)) hc hh
    (by rw [← hlint, List.length_take]; unfold TcmdLint.lineSize; omega)] at hlinted
  -- what the loader sees of the piece with the command
  have hload : (line.drop (511 * (a / 511))).take 511 =
      (line.drop (511 * (a / 511))).take (a % 511) ++ (line.drop a).take (511 - a % 511) := by
    conv_rhs => rhs; rhs; rw [← hdiv, ← List.drop_drop]
    rw [← List.take_add, Nat.add_sub_of_le (by omega)]
  have hfront : ∀ d ∈ (line.drop (511 * (a / 511))).take (a % 511), isSpace d = true := fun d hd => by
    rw [List.take_drop, hdiv] at hd
    exact isSpace_of_isBlank (hblank d (List.mem_of_mem_drop hd))
  have hloaded : loaded line = loaded (line.drop (511 * (a / 511))) :=
    loaded_drop_blank hl h0 fun d hd => hblank d (List.take_subset_take_left line (by omega) hd)
  rw [loaded_of_line (hl.drop _) fun h => h0 (List.mem_of_mem_drop h), hload,
    loadLine_eq hfront (hstart _ (by omega)) hc hh, List.drop_drop, ← Nat.mul_succ] at hloaded
  have hiff := command_eq_iff (s := (line.drop a).take (max (511 - a % 511) (4095 - a))) (List.length_take_le _ _)
  rw [take_take_seen _ (le_max_left _ _), take_take_seen _ (le_max_right _ _)] at hiff
  rw [← hiff, hloaded, hlinted]
  simp only [Option.toList_some, List.singleton_append, List.append_nil, List.cons.injEq]
  exact ⟨Nat.le_add_left 1 _, and_comm⟩

/-- A line the linter reads in one piece, or skips from the second piece on. -/
theorem loaded_eq_linted_line (hl : IsLine (· == newline) line) (h0 : (0 : UInt8) ∉ line)
    (htail : ∀ q ∈ fgets 4096 (line.drop 4095), skipped q = true) :
    (linted line).length ≤ (loaded line).length ∧ (loaded line = linted line ↔ LineAgrees line) := by
  unfold LineAgrees
  rw [and_iff_right htail]
  cases hskip : skipped (line.take 4095) with
  | true =>
      have hnil : linted line = [] := by
        rw [linted_of_line hl h0, lintLine_eq_none hskip, linted_eq_nil htail]
        rfl
      rw [if_pos rfl, hnil]
      exact ⟨Nat.zero_le _, loaded_eq_nil_iff line⟩
  | false =>
      rw [if_neg Bool.false_ne_true, ← loaded_eq_nil_iff]
      exact loaded_eq_linted_of_command hl h0 hskip (linted_eq_nil htail)

/-- In a line, a byte before the last one is no newline. -/
theorem ne_newline_of_mem_take (hl : IsLine (· == newline) line) {i : ℕ} (hi : i < line.length) {c : UInt8}
    (hc : c ∈ line.take i) : c ≠ newline := by
  have hmem : c ∈ line.dropLast := by
    rw [List.dropLast_eq_take]
    exact List.take_subset_take_left line (by omega) hc
  simpa using hl c hmem

theorem isSpace_eq_false {c : UInt8} (hb : isBlank c = false) (hcr : c ≠ 0x0d) (hnl : c ≠ newline) :
    isSpace c = false := by
  unfold isBlank at hb
  unfold isSpace
  simp [hb, hcr, hnl]

theorem silent_of_skipped (hl : IsLine (· == newline) line) (hcr : (0x0d : UInt8) ∉ line)
    (hskip : skipped line = true) : silent line = true := by
  have hline := List.takeWhile_append_dropWhile (p := isBlank) (l := line)
  have hfront : ∀ d ∈ line.takeWhile isBlank, isSpace d = true := fun d hd =>
    isSpace_of_isBlank (List.mem_takeWhile_imp hd)
  unfold skipped at hskip
  unfold silent
  cases hd : line.dropWhile isBlank with
  | nil =>
      rw [hd, List.append_nil] at hline
      rw [List.dropWhile_eq_nil_iff.mpr fun d hmem => hfront d (hline.symm ▸ hmem)]
  | cons c u =>
      rw [hd] at hskip hline
      have hmem : c ∈ line := hline ▸ List.mem_append_right _ List.mem_cons_self
      simp only [Bool.or_eq_true, beq_iff_eq] at hskip
      rcases hskip with (rfl | rfl) | rfl
      · -- the newline ends the line
        rcases eq_or_ne u [] with rfl | hu
        · rw [List.dropWhile_eq_nil_iff.mpr]
          intro d hmem'
          rw [← hline, List.mem_append, List.mem_singleton] at hmem'
          rcases hmem' with hmem' | rfl
          · exact hfront d hmem'
          · rfl
        · generalize line.takeWhile isBlank = b at hline
          subst hline
          have hmem' : newline ∈ (b ++ newline :: u).dropLast := by
            rw [List.dropLast_append_of_ne_nil (List.cons_ne_nil _ _), List.dropLast_cons_of_ne_nil hu]
            exact List.mem_append_right _ List.mem_cons_self
          exact absurd (hl newline hmem') (by decide)
      · exact absurd hmem hcr
      · rw [← hline, List.dropWhile_append_of_pos hfront, List.dropWhile_cons_of_neg (by decide)]
        rfl

/-- A short line without carriage returns leaves nothing behind the command but its newline. -/
theorem commandFits_of_short (hl : IsLine (· == newline) line) (hlen : line.length ≤ 511) (hcr : (0x0d : UInt8) ∉ line)
    {a : ℕ} (ha : a < line.length) : CommandFits line a := by
  have hs : (line.drop a).take (max (511 - a % 511) (4095 - a)) = line.drop a :=
    List.take_of_length_le (by rw [List.length_drop]; omega)
  unfold CommandFits
  dsimp only
  rw [hs]
  refine ⟨fun c hc => ?_, fun _ hi c hc => ?_⟩
  · rw [List.drop_eq_nil_of_le (by rw [List.length_take, List.length_drop]; omega)] at hc
    exact absurd hc List.not_mem_nil
  · obtain ⟨hne, hlast⟩ := List.mem_getLast?_eq_getLast hc
    have hblank := List.rdropWhile_last_not isBlank _ hne
    rw [← hlast] at hblank
    have hmem := (List.rdropWhile_prefix isBlank _).mem (List.mem_of_mem_getLast? hc)
    refine isSpace_eq_false (Bool.eq_false_of_not_eq_true hblank) (fun h => hcr ?_)
      (ne_newline_of_mem_take (hl.drop a) hi hmem)
    exact h ▸ List.mem_of_mem_drop (List.mem_of_mem_take hmem)

/-- Only long lines and carriage returns divide the readers. -/
theorem lineAgrees_of_short (hl : IsLine (· == newline) line) (h0 : (0 : UInt8) ∉ line) (hlen : line.length ≤ 511)
    (hcr : (0x0d : UInt8) ∉ line) : LineAgrees line := by
  have hnil : ∀ size n, 511 ≤ n → fgets size (line.drop n) = [] := fun size n hn => by
    rw [List.drop_eq_nil_of_le (by omega)]
    rfl
  have hall : line.take 4095 = line := List.take_of_length_le (by omega)
  unfold LineAgrees
  rw [hnil _ _ (by omega), hnil _ _ (by omega)]
  refine ⟨fun q hq => absurd hq List.not_mem_nil, ?_⟩
  cases hskip : skipped (line.take 4095) with
  | true =>
      rw [if_pos rfl]
      intro p hp
      rcases eq_or_ne line [] with rfl | hne
      · exact absurd hp List.not_mem_nil
      · rw [fgets_of_not_mem (by decide) h0, readLines_short (by decide) hl hne hlen, List.mem_singleton] at hp
        rw [hall] at hskip
        exact hp ▸ silent_of_skipped hl hcr hskip
  | false =>
      rw [if_neg Bool.false_ne_true]
      obtain ⟨c, -, -, -, hhead, -⟩ := commandStart_spec hskip
      refine ⟨fun p hp => absurd hp List.not_mem_nil, commandFits_of_short hl hlen hcr ?_⟩
      rw [List.head?_drop] at hhead
      exact (List.getElem?_eq_some_iff.mp hhead).1

end Line

/-! ## Whole files -/

section File

variable {content : List UInt8}

theorem loaded_eq_flatMap (content : List UInt8) : loaded content = (fileLines content).flatMap loaded :=
  filterMap_fgets (by decide) loadLine content

theorem linted_eq_flatMap (content : List UInt8) : linted content = (fileLines content).flatMap linted :=
  filterMap_fgets (by decide) lintLine content

theorem loaded_eq_linted_of_agrees (h0 : (0 : UInt8) ∉ content) (h : ∀ line ∈ fileLines content, LineAgrees line) :
    loaded content = linted content := by
  rw [loaded_eq_flatMap, linted_eq_flatMap]
  refine List.flatMap_congr fun line hmem => ?_
  have hline := loaded_eq_linted_line (mem_splitLines hmem).1 (not_mem_of_mem_fileLines h0 hmem) (h line hmem).1
  exact hline.2.mpr (h line hmem)

/-- Lines of at most 511 bytes without carriage returns are sent as they were linted. -/
theorem loaded_eq_linted_of_short (h0 : (0 : UInt8) ∉ content) (hcr : (0x0d : UInt8) ∉ content)
    (hshort : ∀ line ∈ fileLines content, line.length ≤ 511) : loaded content = linted content := by
  apply loaded_eq_linted_of_agrees h0
  intro line hmem
  apply lineAgrees_of_short (mem_splitLines hmem).1 _ (hshort line hmem)
  · exact not_mem_of_mem_fileLines hcr hmem
  · exact not_mem_of_mem_fileLines h0 hmem

/-- A file whose lines both readers take the same way is sent as it was linted. When no line of it exceeds the
linter's buffer, that is the only way. -/
theorem loaded_eq_linted (h0 : (0 : UInt8) ∉ content) :
    ((∀ line ∈ fileLines content, LineAgrees line) → loaded content = linted content) ∧
      ((∀ line ∈ fileLines content, line.length ≤ 4095) →
        (loaded content = linted content ↔ ∀ line ∈ fileLines content, LineAgrees line)) := by
  refine ⟨loaded_eq_linted_of_agrees h0, fun hshort => ?_⟩
  have hline : ∀ line ∈ fileLines content,
      (linted line).length ≤ (loaded line).length ∧ (loaded line = linted line ↔ LineAgrees line) := by
    intro line hmem
    apply loaded_eq_linted_line (mem_splitLines hmem).1 (not_mem_of_mem_fileLines h0 hmem)
    rw [List.drop_eq_nil_of_le (hshort line hmem)]
    exact fun q hq => absurd hq List.not_mem_nil
  rw [loaded_eq_flatMap, linted_eq_flatMap, flatMap_eq_flatMap_iff fun line hmem => (hline line hmem).1]
  exact forall₂_congr fun line hmem => (hline line hmem).2

/-- `CTS1+a()!`, a newline. -/
def ping : List UInt8 := [0x43, 0x54, 0x53, 0x31, 0x2b, 0x61, 0x28, 0x29, 0x21, newline]

theorem loaded_eq_linted_ping : loaded (0x20 :: ping) = linted (0x20 :: ping) :=
  (loaded_eq_linted (by decide)).1 (by decide +kernel)

/-- A whole-line comment whose text reaches a command at column 512: the command is stored, and never linted. -/
theorem comment_loaded :
    (0 : UInt8) ∉ hash :: List.replicate 510 0x20 ++ ping ∧
      loaded (hash :: List.replicate 510 0x20 ++ ping) = [ping.dropLast] ∧
        linted (hash :: List.replicate 510 0x20 ++ ping) = [] := by
  decide +kernel

end File

end SimpleSatOps.AgendaGate
