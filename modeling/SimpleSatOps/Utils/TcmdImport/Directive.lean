import SimpleSatOps.Utils.TcmdImport.JsonStr

/-!
# Directives in a respelled command

* `Spelling` : what a control byte is spelt with, or a part of it;
* `fitting`, `take_respelled` : the bytes of a command whose spelling has room;
* `directiveNumber_respelled`, `isPrefix_respelled` : numbers and keys are read as they were written;
* `agendaParseDirectiveMs_respelled` : the directives of a command outlive the log.
-/

namespace SimpleSatOps.TcmdImport
open Ipc AgendaLine

/-- The spelling of a control byte, or nothing of it. -/
def Spelling (t : List UInt8) : Prop := t = [] ∨ ∃ b u, t = b :: u ∧ b ∈ text "ru" ∧ ∀ d ∈ u, isXdigit d = true

theorem spelling_respell {c : UInt8} (h : ¬ Plain c) : Spelling (respell c) := .inr (respell_control h)

theorem Spelling.take {t : List UInt8} (h : Spelling t) (n : ℕ) : Spelling (t.take n) := by
  rcases h with rfl | ⟨b, u, rfl, hb, hu⟩
  · exact .inl (List.take_nil)
  · cases n with
    | zero => exact .inl rfl
    | succ n => exact .inr ⟨b, u.take n, rfl, hb, fun d hd => hu d (List.mem_of_mem_take hd)⟩

theorem Spelling.not_mem {t : List UInt8} (h : Spelling t) : byte '@' ∉ t := by
  rcases h with rfl | ⟨b, u, rfl, hb, hu⟩
  · exact List.not_mem_nil
  · rw [List.mem_cons, not_or]
    constructor
    · rintro rfl
      exact absurd hb (by decide)
    · exact fun h => absurd (hu _ h) (by decide)

/-- The bytes of a command whose spelling has room in some bytes. -/
def fitting : ℕ → List UInt8 → List UInt8
  | _, [] => []
  | room, c :: s => if (respell c).length ≤ room then c :: fitting (room - (respell c).length) s else []

/-- A respelled text that is cut: bytes that have room, and a part of a spelling. -/
theorem take_respelled (room : ℕ) (s : List UInt8) :
    ∃ tail, Spelling tail ∧ (respelled s).take room = respelled (fitting room s) ++ tail := by
  induction s generalizing room with
  | nil => exact ⟨[], .inl rfl, by rw [fitting]; exact List.take_nil⟩
  | cons c s ih =>
      rw [respelled_cons, fitting]
      split_ifs with hroom
      · obtain ⟨tail, htail, heq⟩ := ih (room - (respell c).length)
        refine ⟨tail, htail, ?_⟩
        rw [List.take_append, List.take_of_length_le hroom, heq, respelled_cons, List.append_assoc]
      · refine ⟨(respell c).take room, ?_, ?_⟩
        · by_cases hc : Plain c
          · have hzero : room = 0 := by
              rw [respell_plain hc, List.length_singleton] at hroom
              omega
            rw [hzero]
            exact .inl List.take_zero
          · exact (spelling_respell hc).take room
        · rw [List.take_append_of_le_length (by omega)]
          rfl

theorem plain_of_isDigit {c : UInt8} (h : isDigit c = true) : Plain c := by
  simp only [isDigit, Bool.and_eq_true, decide_eq_true_eq] at h
  have hzero : 0x20 ≤ byte '0' := by decide
  exact .inl (UInt8.le_trans hzero h.1)

/-- A number starts with a sign or a digit. -/
theorem directiveNumber_none {c : UInt8} (hdigit : isDigit c = false) (hsign : c ≠ byte '+' ∧ c ≠ byte '-')
    (s : List UInt8) : directiveNumber (c :: s) = none := by
  have hfilter : [c].filter (fun c => c == byte '+' || c == byte '-') = [] := by simp [hsign.1, hsign.2]
  unfold directiveNumber
  rw [List.take_succ_cons, List.take_zero, hfilter]
  exact if_pos (.inl (List.takeWhile_cons_of_neg (by rw [hdigit]; decide)))

theorem directiveNumber_ru {b : UInt8} (hb : b ∈ text "ru") (s : List UInt8) : directiveNumber (b :: s) = none := by
  have hall : ∀ b ∈ text "ru", isDigit b = false ∧ b ≠ byte '+' ∧ b ≠ byte '-' := by decide
  exact directiveNumber_none (hall b hb).1 (hall b hb).2 s

section
variable {tail : List UInt8} (htail : Spelling tail)
include htail

theorem takeWhile_respelled (s : List UInt8) : (respelled s ++ tail).takeWhile isDigit = s.takeWhile isDigit := by
  have hru : ∀ b ∈ text "ru", ¬ isDigit b = true := by decide
  induction s with
  | nil =>
      rcases htail with rfl | ⟨b, u, rfl, hb, -⟩
      · rfl
      · exact List.takeWhile_cons_of_neg (hru b hb)
  | cons c s ih =>
      by_cases hc : Plain c
      · rw [respelled_cons, respell_plain hc, List.singleton_append, List.cons_append, List.takeWhile_cons,
          List.takeWhile_cons, ih]
      · obtain ⟨b, u, heq, hb, -⟩ := respell_control hc
        rw [respelled_cons, heq, List.cons_append, List.cons_append, List.takeWhile_cons_of_neg (hru b hb),
          List.takeWhile_cons_of_neg (mt plain_of_isDigit hc)]

theorem directiveNumber_respelled (s : List UInt8) : directiveNumber (respelled s ++ tail) = directiveNumber s := by
  cases s with
  | nil =>
      rcases htail with rfl | ⟨b, u, rfl, hb, -⟩
      · rfl
      · exact directiveNumber_ru hb u
  | cons c s =>
      by_cases hc : Plain c
      · have hrest := takeWhile_respelled htail s
        have hall := takeWhile_respelled htail (c :: s)
        rw [respelled_cons, respell_plain hc, List.singleton_append, List.cons_append] at hall ⊢
        unfold directiveNumber
        rw [List.take_succ_cons, List.take_succ_cons, List.take_zero, List.take_zero]
        by_cases hsign : (c == byte '+' || c == byte '-') = true
        · have hfilter : [c].filter (fun c => c == byte '+' || c == byte '-') = [c] :=
            List.filter_cons_of_pos hsign
          rw [hfilter]
          dsimp only
          rw [List.length_singleton, List.drop_one, List.drop_one, List.tail_cons, List.tail_cons, hrest]
        · have hfilter : [c].filter (fun c => c == byte '+' || c == byte '-') = [] :=
            List.filter_cons_of_neg hsign
          rw [hfilter]
          dsimp only
          rw [List.length_nil, List.drop_zero, List.drop_zero, hall]
      · obtain ⟨b, u, heq, hb, -⟩ := respell_control hc
        have hlt := (control_of_not_plain hc).1
        have hctl : ∀ d : UInt8, 0x20 ≤ d → c ≠ d := by
          rintro d hd rfl
          exact absurd hlt (UInt8.not_lt.mpr hd)
        have hdigit : isDigit c = false := Bool.eq_false_of_not_eq_true (mt plain_of_isDigit hc)
        rw [respelled_cons, heq, List.cons_append, List.cons_append, directiveNumber_ru hb,
          directiveNumber_none hdigit ⟨hctl _ (by decide), hctl _ (by decide)⟩]

/-- A key is read from the bytes of the command. -/
theorem isPrefix_respelled {key : List UInt8} (hkey : ∀ c ∈ key, Plain c ∧ c ∉ text "ru") (s : List UInt8) :
    key <+: respelled s ++ tail ↔ key <+: s := by
  induction key generalizing s with
  | nil => exact iff_of_true (List.nil_prefix) (List.nil_prefix)
  | cons a key ih =>
      have ha := hkey a List.mem_cons_self
      cases s with
      | nil =>
          refine iff_of_false (fun h => ?_) (fun h => absurd (List.prefix_nil.mp h) (List.cons_ne_nil a key))
          rcases htail with rfl | ⟨b, u, rfl, hb, -⟩
          · exact absurd (List.prefix_nil.mp h) (List.cons_ne_nil a key)
          · exact ha.2 ((List.cons_prefix_cons.mp h).1 ▸ hb)
      | cons c s =>
          by_cases hc : Plain c
          · rw [respelled_cons, respell_plain hc, List.singleton_append, List.cons_append, List.cons_prefix_cons,
              List.cons_prefix_cons, ih fun b hb => hkey b (List.mem_cons_of_mem a hb)]
          · obtain ⟨b, u, heq, hb, -⟩ := respell_control hc
            rw [respelled_cons, heq, List.cons_append, List.cons_append, List.cons_prefix_cons, List.cons_prefix_cons]
            refine iff_of_false (fun h => ha.2 (h.1 ▸ hb)) (fun h => hc (h.1 ▸ ha.1))

end

theorem respelled_append (s t : List UInt8) : respelled (s ++ t) = respelled s ++ respelled t :=
  List.flatMap_append

theorem respelled_plain {s : List UInt8} (h : ∀ c ∈ s, Plain c) : respelled s = s := by
  rw [respelled, List.flatMap_congr fun c hc => respell_plain (h c hc), List.flatMap_singleton']

/-- A directive is not found in front of its first byte. -/
theorem agendaParseDirectiveMs_skip {c : UInt8} {x : List UInt8} (hc : c ∉ x) (k y : List UInt8) :
    agendaParseDirectiveMs (c :: k) (x ++ y) = agendaParseDirectiveMs (c :: k) y := by
  induction x with
  | nil => rfl
  | cons d x ih =>
      rw [List.mem_cons, not_or] at hc
      have hhead : ¬ List.isPrefixOf (c :: k) (d :: (x ++ y)) = true := fun h =>
        hc.1 (List.cons_prefix_cons.mp (List.isPrefixOf_iff_prefix.mp h)).1
      rw [List.cons_append, agendaParseDirectiveMs, if_neg hhead]
      exact ih hc.2

/-- **The directives outlive the log.** In a respelled command, cut somewhere behind it in the spelling of a byte, a
directive stands where it stood in the command. -/
theorem agendaParseDirectiveMs_respelled {key : List UInt8} (hkey : ∀ c ∈ key, Plain c ∧ c ∉ text "ru")
    (hhead : key.head? = some (byte '@')) {tail : List UInt8} (htail : Spelling tail) (s : List UInt8) :
    agendaParseDirectiveMs key (respelled s ++ tail) = agendaParseDirectiveMs key s := by
  obtain ⟨k, rfl⟩ : ∃ k, key = byte '@' :: k := by
    cases key with
    | nil => exact absurd hhead.symm (Option.some_ne_none _)
    | cons c k => exact ⟨k, congrArg (· :: k) (Option.some.inj hhead)⟩
  induction s with
  | nil =>
      have hskip := agendaParseDirectiveMs_skip htail.not_mem k []
      rw [List.append_nil] at hskip
      exact hskip
  | cons c s ih =>
      by_cases hc : Plain c
      · have hpre := isPrefix_respelled htail hkey (c :: s)
        have hcons : respelled (c :: s) ++ tail = c :: (respelled s ++ tail) := by
          rw [respelled_cons, respell_plain hc, List.singleton_append, List.cons_append]
        rw [hcons, agendaParseDirectiveMs, agendaParseDirectiveMs, ih]
        rw [hcons] at hpre
        by_cases hk : byte '@' :: k <+: c :: s
        · obtain ⟨w, hw⟩ := hk
          have hdrop : (c :: (respelled s ++ tail)).drop (byte '@' :: k).length = respelled w ++ tail := by
            rw [← hcons, ← hw, respelled_append, respelled_plain fun b hb => (hkey b hb).1, List.append_assoc,
              List.drop_left]
          rw [if_pos (List.isPrefixOf_iff_prefix.mpr (hpre.mpr ⟨w, hw⟩)),
            if_pos (List.isPrefixOf_iff_prefix.mpr ⟨w, hw⟩), hdrop, directiveNumber_respelled htail, ← hw,
            List.drop_left]
        · rw [if_neg (mt List.isPrefixOf_iff_prefix.mp (mt hpre.mp hk)), if_neg (mt List.isPrefixOf_iff_prefix.mp hk)]
      · have hne : byte '@' ∉ [c] := by
          rw [List.mem_singleton]
          rintro rfl
          exact hc (by decide)
        rw [respelled_cons, List.append_assoc, agendaParseDirectiveMs_skip (spelling_respell hc).not_mem, ih]
        exact (agendaParseDirectiveMs_skip hne k s).symm

end SimpleSatOps.TcmdImport
