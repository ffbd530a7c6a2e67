import Mathlib.Tactic

/-!
# Groups between separators

* `Grouped` : texts of separators and whole groups of `k` symbols;
* `groupScan` : the reader that counts the symbols of the group it is in;
* `groupScan_iff` : the reader accepts exactly these texts.
-/

namespace SimpleSatOps

variable {α : Type*} (sep ok : α → Bool) (k : ℕ)

/-- Separators and groups of `k` symbols, in any order. -/
inductive Grouped : List α → Prop
  | nil : Grouped []
  | separator {c : α} {s : List α} : sep c = true → Grouped s → Grouped (c :: s)
  | group {g s : List α} : g.length = k → (∀ c ∈ g, ok c = true) → Grouped s → Grouped (g ++ s)

/-- `q` symbols of the group have been read. -/
def groupScan (q : ℕ) : List α → Bool
  | [] => q == 0
  | c :: s =>
    if sep c then q == 0 && groupScan q s
    else ok c && groupScan (if q + 1 = k then 0 else q + 1) s

variable {sep ok k}

/-- The text is what is left of a group of which `q` symbols have been read, and `Grouped` behind it. -/
def Pending (sep ok : α → Bool) (k q : ℕ) (s : List α) : Prop :=
  (q = 0 ∧ Grouped sep ok k s) ∨
    ∃ g t, s = g ++ t ∧ g.length + q = k ∧ (∀ c ∈ g, ok c = true) ∧ Grouped sep ok k t

theorem pending_zero {s : List α} : Pending sep ok k 0 s ↔ Grouped sep ok k s := by
  constructor
  · rintro (⟨-, h⟩ | ⟨g, t, rfl, hlen, hok, h⟩)
    · exact h
    · exact .group hlen hok h
  · exact fun h => .inl ⟨rfl, h⟩

theorem pending_nil {q : ℕ} (hq : q < k) : Pending sep ok k q [] ↔ q = 0 := by
  constructor
  · rintro (⟨h, -⟩ | ⟨g, t, h, hlen, -⟩)
    · exact h
    · rw [List.nil_eq_append_iff] at h
      rw [h.1, List.length_nil] at hlen
      omega
  · rintro rfl
    exact .inl ⟨rfl, .nil⟩

/-- The first symbol of a grouped text. -/
theorem Grouped.cases_cons (hk : 0 < k) {c : α} {s : List α} (h : Grouped sep ok k (c :: s)) :
    (sep c = true ∧ Grouped sep ok k s) ∨ (ok c = true ∧ Pending sep ok k 1 s) := by
  generalize hl : c :: s = l at h
  cases h with
  | nil => cases hl
  | separator hc hs =>
    cases hl
    exact .inl ⟨hc, hs⟩
  | @group g t hlen hok ht =>
    match g, hlen with
    | [], hlen => exact absurd hlen hk.ne
    | d :: g, hlen =>
      rw [List.cons_append, List.cons.injEq] at hl
      obtain ⟨rfl, rfl⟩ := hl
      exact .inr ⟨hok _ List.mem_cons_self, .inr ⟨g, t, rfl, hlen, fun e he => hok e (List.mem_cons_of_mem _ he), ht⟩⟩

theorem pending_separator (hk : 0 < k) (hdisj : ∀ c, sep c = true → ok c = false) {q : ℕ} {c : α} {s : List α}
    (hc : sep c = true) (hq : q < k) : Pending sep ok k q (c :: s) ↔ q = 0 ∧ Grouped sep ok k s := by
  constructor
  · rintro (⟨rfl, h⟩ | ⟨g, t, hs, hlen, hok, -⟩)
    · rcases h.cases_cons hk with ⟨-, h⟩ | ⟨hokc, -⟩
      · exact ⟨rfl, h⟩
      · rw [hdisj c hc] at hokc
        cases hokc
    · match g with
      | [] =>
        rw [List.length_nil] at hlen
        omega
      | d :: g =>
        obtain ⟨rfl, -⟩ := List.cons.inj hs
        have := hok _ List.mem_cons_self
        rw [hdisj c hc] at this
        cases this
  · rintro ⟨rfl, h⟩
    exact .inl ⟨rfl, .separator hc h⟩

theorem pending_symbol (hk : 0 < k) {q : ℕ} {c : α} {s : List α} (hc : sep c = false) (hq : q < k) :
    Pending sep ok k q (c :: s) ↔ ok c = true ∧ Pending sep ok k (if q + 1 = k then 0 else q + 1) s := by
  have hnext : ∀ {g t : List α}, g.length + 1 + q = k → (∀ e ∈ g, ok e = true) → Grouped sep ok k t →
      Pending sep ok k (if q + 1 = k then 0 else q + 1) (g ++ t) := by
    intro g t hlen hok ht
    split_ifs with hlast
    · have hnil : g = [] := List.eq_nil_of_length_eq_zero (by omega)
      exact .inl ⟨rfl, by rwa [hnil, List.nil_append]⟩
    · exact .inr ⟨g, t, rfl, by omega, hok, ht⟩
  constructor
  · rintro (⟨rfl, h⟩ | ⟨g, t, hs, hlen, hok, ht⟩)
    · rcases h.cases_cons hk with ⟨hsep, -⟩ | ⟨hokc, ⟨h1, -⟩ | ⟨g, t, rfl, hlen, hok, ht⟩⟩
      · rw [hc] at hsep
        cases hsep
      · exact absurd h1 one_ne_zero
      · exact ⟨hokc, hnext (by omega) hok ht⟩
    · match g with
      | [] =>
        rw [List.length_nil] at hlen
        omega
      | d :: g =>
        obtain ⟨rfl, rfl⟩ := List.cons.inj hs
        rw [List.length_cons] at hlen
        exact ⟨hok _ List.mem_cons_self, hnext hlen (fun e he => hok e (List.mem_cons_of_mem _ he)) ht⟩
  · rintro ⟨hokc, h⟩
    split_ifs at h with hlast
    · exact .inr ⟨[c], s, rfl, by rw [List.length_singleton]; omega, by simpa using hokc, pending_zero.1 h⟩
    · obtain ⟨h0, -⟩ | ⟨g, t, rfl, hlen, hok, ht⟩ := h
      · exact absurd h0 (Nat.succ_ne_zero q)
      · refine .inr ⟨c :: g, t, rfl, by rw [List.length_cons]; omega, ?_, ht⟩
        exact List.forall_mem_cons.2 ⟨hokc, hok⟩

/-- The reader accepts what is left of its group and whole groups behind it. -/
theorem groupScan_iff_pending (hk : 0 < k) (hdisj : ∀ c, sep c = true → ok c = false) (s : List α) :
    ∀ q < k, groupScan sep ok k q s = true ↔ Pending sep ok k q s := by
  induction s with
  | nil =>
    intro q hq
    rw [pending_nil hq]
    exact beq_iff_eq
  | cons c s ih =>
    intro q hq
    cases hc : sep c with
    | false =>
      have hlt : (if q + 1 = k then 0 else q + 1) < k := by split_ifs <;> omega
      rw [pending_symbol hk hc hq, ← ih _ hlt, groupScan, if_neg (by rw [hc]; nofun), Bool.and_eq_true]
    | true =>
      rw [pending_separator hk hdisj hc hq, groupScan, if_pos hc, Bool.and_eq_true, beq_iff_eq, ih q hq]
      refine and_congr_right fun h => ?_
      rw [h, pending_zero]

theorem groupScan_iff (hk : 0 < k) (hdisj : ∀ c, sep c = true → ok c = false) (s : List α) :
    groupScan sep ok k 0 s = true ↔ Grouped sep ok k s :=
  (groupScan_iff_pending hk hdisj s 0 hk).trans pending_zero

end SimpleSatOps
