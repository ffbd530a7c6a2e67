import SimpleSatOps.Ipc.Audit

/-!
# Calls and their events

* `Named` : each call that is over has one event, and each that is not has its thread;
* `Named.call`, `Named.finish` : a call begins, and its event is put into the ring or written;
* `named_step` : every step keeps this.
-/

namespace SimpleSatOps.AuditLog

/-- The events `done` are those of the calls that are over. -/
structure Named (threads : ℕ → Thread) (calls : List (List UInt8 × List UInt8)) (done : List Event) : Prop where
  held : ∀ i n event detail, (threads i).held = some (n, event, detail) →
    calls[n]? = some (event, detail) ∧ n ∉ done.map Event.num
  apart : ∀ i j n x y, (threads i).held = some (n, x) → (threads j).held = some (n, y) → i = j
  texts : ∀ e ∈ done, Says calls e
  nodup : (done.map Event.num).Nodup
  cover : ∀ n < calls.length, n ∈ done.map Event.num ∨ ∃ i x, (threads i).held = some (n, x)

namespace Named
variable {threads : ℕ → Thread} {calls : List (List UInt8 × List UInt8)} {done done' : List Event}

theorem perm (h : Named threads calls done) (hperm : done.Perm done') : Named threads calls done' where
  held i n event detail hi := by
    obtain ⟨hcall, hnew⟩ := h.held i n event detail hi
    exact ⟨hcall, fun hmem => hnew ((hperm.map _).mem_iff.mpr hmem)⟩
  apart := h.apart
  texts e he := h.texts e (hperm.mem_iff.mpr he)
  nodup := (hperm.map _).nodup_iff.mp h.nodup
  cover n hn := (h.cover n hn).imp_left (hperm.map _).mem_iff.mp

theorem lt_of_texts {e : Event} (h : Says calls e) : e.num < calls.length := by
  obtain ⟨event, detail, hcall, -⟩ := h
  exact (List.getElem?_eq_some_iff.mp hcall).1

/-- A thread begins a call. -/
theorem call (h : Named threads calls done) {i : ℕ} (hi : threads i = .idle) {t : Thread} {event detail : List UInt8}
    (ht : t.held = some (calls.length, event, detail)) :
    Named (Function.update threads i t) (calls ++ [(event, detail)]) done := by
  have hold : ∀ j n x, (threads j).held = some (n, x) → n < calls.length := fun j n x hj =>
    (List.getElem?_eq_some_iff.mp (h.held j n x.1 x.2 hj).1).1
  -- A thread that is at a call is the new one with the new call, or an old one.
  have hcases : ∀ j n x, (Function.update threads i t j).held = some (n, x) →
      (j = i ∧ n = calls.length ∧ x = (event, detail)) ∨ (threads j).held = some (n, x) := by
    intro j n x hj
    rcases eq_or_ne j i with rfl | hne
    · rw [Function.update_self, ht] at hj
      obtain ⟨hn, hx⟩ := Prod.mk.inj (Option.some.inj hj)
      exact .inl ⟨rfl, hn.symm, hx.symm⟩
    · rw [Function.update_of_ne hne] at hj
      exact .inr hj
  refine ⟨?_, ?_, ?_, h.nodup, ?_⟩
  · intro j n ev det hj
    rcases hcases j n _ hj with ⟨-, rfl, hx⟩ | hj
    · rw [← hx]
      refine ⟨List.getElem?_concat_length, fun hmem => ?_⟩
      obtain ⟨e, he, hnum⟩ := List.mem_map.mp hmem
      exact (lt_of_texts (h.texts e he)).ne hnum
    · obtain ⟨hcall, hnew⟩ := h.held j n ev det hj
      exact ⟨List.getElem?_append_left (hold j n _ hj) ▸ hcall, hnew⟩
  · intro j k n x y hj hk
    rcases hcases j n x hj with ⟨hji, hn, -⟩ | hj
    · rcases hcases k n y hk with ⟨hki, -, -⟩ | hk
      · rw [hji, hki]
      · exact absurd (hold k n y hk) (hn ▸ lt_irrefl _)
    · rcases hcases k n y hk with ⟨-, hn, -⟩ | hk
      · exact absurd (hold j n x hj) (hn ▸ lt_irrefl _)
      · exact h.apart j k n x y hj hk
  · intro e he
    obtain ⟨ev, det, hcall, htexts⟩ := h.texts e he
    exact ⟨ev, det, List.getElem?_append_left (lt_of_texts (h.texts e he)) ▸ hcall, htexts⟩
  · intro n hn
    rw [List.length_append, List.length_singleton] at hn
    rcases Nat.lt_succ_iff_lt_or_eq.mp hn with hlt | rfl
    · refine (h.cover n hlt).imp_right ?_
      rintro ⟨j, x, hj⟩
      have hne : j ≠ i := by
        rintro rfl
        rw [hi] at hj
        cases hj
      exact ⟨j, x, by rwa [Function.update_of_ne hne]⟩
    · exact .inr ⟨i, _, by rwa [Function.update_self]⟩

/-- The event of a call is put into the ring, or written. -/
theorem finish (h : Named threads calls done) {i n : ℕ} {event detail : List UInt8}
    (hi : (threads i).held = some (n, event, detail)) (ts : ℕ) :
    Named (Function.update threads i .idle) calls (done ++ [storedEvent ts n event detail]) := by
  obtain ⟨hcall, hnew⟩ := h.held i n event detail hi
  have hcases : ∀ j m x, (Function.update threads i .idle j).held = some (m, x) →
      j ≠ i ∧ (threads j).held = some (m, x) := by
    intro j m x hj
    rcases eq_or_ne j i with rfl | hne
    · rw [Function.update_self] at hj
      cases hj
    · rw [Function.update_of_ne hne] at hj
      exact ⟨hne, hj⟩
  have hmap : (done ++ [storedEvent ts n event detail]).map Event.num = done.map Event.num ++ [n] := by
    rw [List.map_append, List.map_singleton]
    rfl
  refine ⟨?_, ?_, ?_, ?_, ?_⟩
  · intro j m ev det hj
    obtain ⟨hne, hj⟩ := hcases j m _ hj
    obtain ⟨hcall, hnew⟩ := h.held j m ev det hj
    refine ⟨hcall, fun hmem => ?_⟩
    rw [hmap] at hmem
    rcases List.mem_append.mp hmem with hmem | hmem
    · exact hnew hmem
    · rw [List.mem_singleton.mp hmem] at hj
      exact hne (h.apart j i n _ _ hj hi)
  · intro j k m x y hj hk
    exact h.apart j k m x y (hcases j m x hj).2 (hcases k m y hk).2
  · intro e he
    rcases List.mem_append.mp he with he | he
    · exact h.texts e he
    · rw [List.mem_singleton.mp he]
      exact ⟨event, detail, hcall, rfl⟩
  · rw [hmap]
    exact List.nodup_append.mpr ⟨h.nodup, List.nodup_singleton n, fun a ha b hb hab => by
      rw [hab, List.mem_singleton.mp hb] at ha
      exact hnew ha⟩
  · intro m hm
    rw [hmap]
    rcases h.cover m hm with hdone | ⟨j, x, hj⟩
    · exact .inl (List.mem_append_left _ hdone)
    · rcases eq_or_ne j i with rfl | hne
      · rw [hi] at hj
        obtain ⟨rfl, -⟩ := Prod.mk.inj (Option.some.inj hj)
        exact .inl (List.mem_append_right _ (List.mem_singleton_self n))
      · exact .inr ⟨j, x, by rwa [Function.update_of_ne hne]⟩

end Named

namespace Audit
variable {s s' : Audit}

theorem directOf_queued (log : List Line) (e : Event) : directOf (log ++ [.queued e]) = directOf log := by
  unfold directOf
  rw [List.filterMap_append]
  exact List.append_nil _

theorem directOf_overflow (log : List Line) (n : ℕ) : directOf (log ++ [.overflow n]) = directOf log := by
  unfold directOf
  rw [List.filterMap_append]
  exact List.append_nil _

theorem directOf_direct (log : List Line) (e : Event) : directOf (log ++ [.direct e]) = directOf log ++ [e] := by
  unfold directOf
  rw [List.filterMap_append]
  rfl

theorem named_call {i : ℕ} {event detail : List UInt8} (up : Bool)
    (h : Named s.threads s.calls (s.accepted ++ directOf s.log)) (hi : s.threads i = .idle) :
    Named (s.call i event detail up).threads (s.call i event detail up).calls (s.accepted ++ directOf s.log) := by
  refine h.call hi ?_
  cases up <;> rfl

theorem named_step {a : Action} (h : Named s.threads s.calls (s.accepted ++ directOf s.log))
    (hs : s.step a = some s') : Named s'.threads s'.calls (s'.accepted ++ directOf s'.log) := by
  cases stepped hs with
  | event i event detail hi => exact named_call s.started h hi
  | start i created detail hi hstarted => exact named_call true h hi
  | created i detail hi hstarted => exact named_call (s := s.created) true h hi
  | notCreated i detail hi hstarted => exact named_call false h hi
  | enqueue i ts num event detail hi =>
      refine (h.finish (i := i) (by rw [hi]; rfl) ts).perm ?_
      show (s.accepted ++ directOf s.log ++ [_]).Perm (s.accepted ++ [_] ++ directOf s.log)
      rw [List.append_assoc, List.append_assoc]
      exact List.perm_append_comm.append_left _
  | append i ts num event detail hi =>
      have hfinish := h.finish (i := i) (by rw [hi]; rfl) ts
      rw [List.append_assoc, ← directOf_direct] at hfinish
      exact hfinish
  | drain hw hcount => exact h
  | exit hw hcount hstop => exact h
  | write todo dropped hw =>
      cases todo with
      | cons e todo =>
          show Named s.threads s.calls (s.accepted ++ directOf (s.log ++ [.queued e]))
          rwa [directOf_queued]
      | nil =>
          show Named s.threads s.calls (s.accepted ++ directOf (if 0 < dropped then _ else _))
          split
          · rwa [directOf_overflow]
          · exact h
  | close hexit => split <;> exact h
  | join hexit hw => exact h
  | closed hexit => exact h

end Audit

end SimpleSatOps.AuditLog
