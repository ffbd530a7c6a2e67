import SimpleSatOps.Ipc.Audit.Calls

/-!
# From the ring to the log

* `Flowing` : what was put into the ring is written, to be written by a writer that is there, or counted as dropped;
* `Flowing.step` : every step keeps this, if no event is put into the ring behind the writer's back;
* `audit_complete` : what holds of the log in runs of such steps.
-/

namespace SimpleSatOps.AuditLog

def Worker.todo : Worker → List Event
  | .writing todo _ => todo
  | _ => []

def Worker.dropped : Worker → ℕ
  | .writing _ dropped => dropped
  | _ => 0

namespace Audit
variable {s s' : Audit}

/-- The events that are still to be written by the writer. -/
def pending (s : Audit) : List Event := s.worker.todo ++ s.ring.toList

/-- Accepted events are written, pending or counted as dropped, and nothing is pending without a writer. -/
structure Flowing (s : Audit) : Prop where
  order : (queuedOf s.log ++ s.pending).Sublist s.accepted
  count : s.accepted.length =
    (queuedOf s.log ++ s.pending).length + overflowOf s.log + (s.worker.dropped + s.dropped)
  full : 0 < s.dropped → 0 < s.ring.count
  quiet : s.worker = .none ∨ s.worker = .exited → s.ring.count = 0
  up : ∀ i num event detail, s.threads i = .enqueuing num event detail → s.worker ≠ .none
  started : s.started = true → s.worker ≠ .none
  unstarted : s.started = false → s.worker = .none ∨ s.worker = .exited
  running : s.exit = .running → s.stop = false ∧ (s.started = false → s.worker = .none)
  closing : s.exit = .joining ∨ s.exit = .joined → s.started = true
  joined : s.exit = .joined → s.worker = .exited
  returned : s.exit = .returned → s.pending = [] ∧ s.worker.dropped + s.dropped = 0

theorem flowing_initial : initial.Flowing where
  order := List.Sublist.refl []
  count := rfl
  full := nofun
  quiet _ := rfl
  up := nofun
  started := nofun
  unstarted _ := .inl rfl
  running _ := ⟨rfl, fun _ => rfl⟩
  closing h := by rcases h with h | h <;> cases h
  joined := nofun
  returned := nofun

namespace Flowing

/-- What is empty when there is no writer. -/
theorem idle (h : s.Flowing) (hw : s.worker = .none ∨ s.worker = .exited) :
    s.pending = [] ∧ s.worker.dropped + s.dropped = 0 := by
  have hcount := h.quiet hw
  have hdropped : s.dropped = 0 := Nat.eq_zero_of_not_pos fun hpos => absurd (h.full hpos) (by omega)
  unfold pending
  rw [Fifo.toList_eq_nil hcount, hdropped]
  rcases hw with hw | hw <;> rw [hw] <;> exact ⟨rfl, rfl⟩

/-- A thread begins a call; one that saw the writer started will put its event into the ring. -/
theorem call (h : s.Flowing) (i : ℕ) (event detail : List UInt8) {up : Bool} (hup : up = true → s.started = true) :
    (s.call i event detail up).Flowing where
  order := h.order
  count := h.count
  full := h.full
  quiet := h.quiet
  up j num ev det hj := by
    have hj : Function.update s.threads i _ j = .enqueuing num ev det := hj
    rcases eq_or_ne j i with rfl | hne
    · rw [Function.update_self] at hj
      cases up with
      | true => exact h.started (hup rfl)
      | false => cases hj
    · rw [Function.update_of_ne hne] at hj
      exact h.up j num ev det hj
  started := h.started
  unstarted := h.unstarted
  running := h.running
  closing := h.closing
  joined := h.joined
  returned := h.returned

/-- A writer is started when there is none. -/
theorem created (h : s.Flowing) (hs : s.started = false) : s.created.Flowing := by
  have hidle := h.idle (h.unstarted hs)
  have hpending : s.created.pending = s.pending := by
    unfold pending
    rcases h.unstarted hs with hw | hw <;> rw [hw] <;> rfl
  have hdropped : s.created.worker.dropped = s.worker.dropped := by
    rcases h.unstarted hs with hw | hw <;> rw [hw] <;> rfl
  refine ⟨?_, ?_, h.full, ?_, ?_, nofun, nofun, ?_, fun _ => rfl, ?_, ?_⟩
  · rw [hpending]
    exact h.order
  · rw [hpending, hdropped]
    exact h.count
  · intro hw
    rcases hw with hw | hw <;> cases hw
  · exact fun _ _ _ _ _ => nofun
  · exact fun hexit => ⟨(h.running hexit).1, nofun⟩
  · intro hexit
    have hstarted := h.closing (.inr hexit)
    rw [hs] at hstarted
    cases hstarted
  · intro _
    rw [hpending, hdropped]
    exact hidle

/-- The oldest event may go, and is counted. -/
theorem enqueue (h : s.Flowing) (i : ℕ) (e : Event) (hnone : s.worker ≠ .none) (hexited : s.worker ≠ .exited)
    (hexit : s.exit ≠ .returned) : (s.enqueue i e).Flowing := by
  have horder := h.order
  have hcount := h.count
  unfold pending at horder hcount
  have hpending : (s.enqueue i e).pending = s.worker.todo ++ (s.ring.putLatest e).toList := rfl
  have hring := Fifo.length_toList (s.ring.putLatest e)
  refine ⟨?_, ?_, ?_, ?_, ?_, h.started, h.unstarted, h.running, h.closing, h.joined, fun hr => absurd hr hexit⟩
  · rw [hpending]
    show (queuedOf s.log ++ _).Sublist (s.accepted ++ [e])
    rcases s.ring.toList_putLatest e with ⟨-, hput⟩ | ⟨-, x, xs, hold, hput⟩
    · rw [hput, ← List.append_assoc, ← List.append_assoc, List.append_assoc (queuedOf s.log)]
      exact horder.append (List.Sublist.refl [e])
    · rw [hold] at horder
      rw [hput, ← List.append_assoc, ← List.append_assoc]
      refine List.Sublist.append (List.Sublist.trans ?_ horder) (List.Sublist.refl [e])
      rw [← List.append_assoc]
      exact (List.Sublist.refl _).append (List.sublist_cons_self x xs)
  · rw [hpending]
    show (s.accepted ++ [e]).length = (queuedOf s.log ++ _).length + overflowOf s.log +
      (s.worker.dropped + if s.ring.count = SSO_AUDIT_RING_SIZE then s.dropped + 1 else s.dropped)
    simp only [List.length_append, List.length_singleton] at hcount ⊢
    rcases s.ring.toList_putLatest e with ⟨hne, hput⟩ | ⟨heq, x, xs, hold, hput⟩
    · rw [if_neg hne, hput, List.length_append, List.length_singleton]
      omega
    · rw [hold, List.length_cons] at hcount
      rw [if_pos heq, hput, List.length_append, List.length_singleton]
      omega
  · intro _
    show 0 < (s.ring.putLatest e).count
    rw [← hring]
    rcases s.ring.toList_putLatest e with ⟨-, hput⟩ | ⟨-, x, xs, -, hput⟩ <;>
      rw [hput, List.length_append, List.length_singleton] <;> exact Nat.succ_pos _
  · intro hw
    rcases hw with hw | hw
    · exact absurd hw hnone
    · exact absurd hw hexited
  · exact fun _ _ _ _ _ => hnone

/-- A thread writes its event itself. -/
theorem append (h : s.Flowing) (i : ℕ) (e : Event) : (s.append i e).Flowing := by
  have hqueued : queuedOf (s.log ++ [.direct e]) = queuedOf s.log := by
    unfold queuedOf
    rw [List.filterMap_append]
    exact List.append_nil _
  have hoverflow : overflowOf (s.log ++ [.direct e]) = overflowOf s.log := by
    unfold overflowOf
    rw [List.map_append, List.sum_append]
    rfl
  refine ⟨?_, ?_, h.full, h.quiet, ?_, h.started, h.unstarted, h.running, h.closing, h.joined, h.returned⟩
  · show (queuedOf (s.log ++ [.direct e]) ++ s.pending).Sublist s.accepted
    rw [hqueued]
    exact h.order
  · show s.accepted.length = (queuedOf (s.log ++ [.direct e]) ++ s.pending).length +
      overflowOf (s.log ++ [.direct e]) + _
    rw [hqueued, hoverflow]
    exact h.count
  · intro j num event detail hj
    have hj : Function.update s.threads i .idle j = .enqueuing num event detail := hj
    rcases eq_or_ne j i with rfl | hne
    · rw [Function.update_self] at hj
      cases hj
    · rw [Function.update_of_ne hne] at hj
      exact h.up j num event detail hj

/-- The writer takes what is in the ring, with the dropped count. -/
theorem drain (h : s.Flowing) (hw : s.worker = .waiting) : s.drain.Flowing := by
  have hpending : s.drain.pending = s.pending := by
    unfold pending
    rw [hw]
    exact List.append_nil _
  have hdropped : s.drain.worker.dropped + s.drain.dropped = s.worker.dropped + s.dropped := by
    rw [hw]
    exact Nat.add_comm _ _
  refine ⟨?_, ?_, nofun, fun _ => rfl, fun _ _ _ _ _ => nofun, fun _ => nofun, ?_, ?_, h.closing, ?_, ?_⟩
  · rw [hpending]
    exact h.order
  · rw [hpending, hdropped]
    exact h.count
  · intro hs
    rcases h.unstarted hs with hnone | hexited
    · rw [hw] at hnone
      cases hnone
    · rw [hw] at hexited
      cases hexited
  · intro hexit
    obtain ⟨hstop, hnone⟩ := h.running hexit
    refine ⟨hstop, fun hs => ?_⟩
    rw [hw] at hnone
    cases hnone hs
  · intro hexit
    have hexited := h.joined hexit
    rw [hw] at hexited
    cases hexited
  · intro hexit
    rw [hpending, hdropped]
    exact h.returned hexit

/-- The writer, which is at its lines, goes on to `worker` with the log `log`. -/
theorem atWork (h : s.Flowing) {todo : List Event} {dropped : ℕ} (hw : s.worker = .writing todo dropped)
    (worker : Worker) {log : List Line} (hnone : worker ≠ .none) (hexited : worker ≠ .exited)
    (hlog : queuedOf log ++ worker.todo = queuedOf s.log ++ todo)
    (hcount : overflowOf log + worker.dropped = overflowOf s.log + dropped)
    (hfinished : todo = [] → dropped = 0 → worker.todo = [] ∧ worker.dropped = 0) :
    Flowing { s with worker, log } := by
  have hall : queuedOf log ++ (worker.todo ++ s.ring.toList) = queuedOf s.log ++ s.pending := by
    unfold pending
    rw [hw, ← List.append_assoc, hlog, List.append_assoc]
    rfl
  have hsame : ∀ {w : Worker}, w = .none ∨ w = .exited → s.worker ≠ w := by
    rintro _ (rfl | rfl) hsame <;> rw [hw] at hsame <;> cases hsame
  refine ⟨?_, ?_, h.full, ?_, fun _ _ _ _ _ => hnone, fun _ => hnone, ?_, ?_, h.closing, ?_, ?_⟩
  · show (queuedOf log ++ (worker.todo ++ s.ring.toList)).Sublist s.accepted
    rw [hall]
    exact h.order
  · show s.accepted.length = (queuedOf log ++ (worker.todo ++ s.ring.toList)).length + overflowOf log +
      (worker.dropped + s.dropped)
    have hold := h.count
    rw [hw] at hold
    have hold : s.accepted.length = (queuedOf s.log ++ s.pending).length + overflowOf s.log + (dropped + s.dropped) :=
      hold
    rw [hall]
    omega
  · rintro (hw' | hw')
    · exact absurd hw' hnone
    · exact absurd hw' hexited
  · intro hs
    rcases h.unstarted hs with hw' | hw'
    · exact absurd hw' (hsame (.inl rfl))
    · exact absurd hw' (hsame (.inr rfl))
  · intro hexit
    obtain ⟨hstop, hrunning⟩ := h.running hexit
    exact ⟨hstop, fun hs => absurd (hrunning hs) (hsame (.inl rfl))⟩
  · exact fun hexit => absurd (h.joined hexit) (hsame (.inr rfl))
  · intro hexit
    obtain ⟨hpending, hdropped⟩ := h.returned hexit
    unfold pending at hpending
    rw [hw] at hpending hdropped
    obtain ⟨htodo, hring⟩ := List.append_eq_nil_iff.mp hpending
    obtain ⟨hleft, hs⟩ := Nat.add_eq_zero_iff.mp hdropped
    obtain ⟨htodo', hdropped'⟩ := hfinished htodo hleft
    refine ⟨?_, ?_⟩
    · show worker.todo ++ s.ring.toList = []
      rw [htodo', hring]
      rfl
    · show worker.dropped + s.dropped = 0
      rw [hdropped', hs]

theorem write (h : s.Flowing) {todo : List Event} {dropped : ℕ} (hw : s.worker = .writing todo dropped) :
    (s.write todo dropped).Flowing := by
  cases todo with
  | cons e todo =>
      refine h.atWork hw (.writing todo dropped) nofun nofun ?_ ?_ nofun
      · unfold queuedOf
        rw [List.filterMap_append, List.append_assoc]
        rfl
      · unfold overflowOf
        rw [List.map_append, List.sum_append]
        rfl
  | nil =>
      refine h.atWork hw .waiting nofun nofun ?_ ?_ fun _ _ => ⟨rfl, rfl⟩
      · split
        · unfold queuedOf
          rw [List.filterMap_append, List.append_assoc]
          rfl
        · rfl
      · split
        · unfold overflowOf
          rw [List.map_append, List.sum_append]
          rfl
        · next hnot =>
            rw [Nat.eq_zero_of_not_pos hnot]
            rfl

/-- The writer ends with an empty ring. -/
theorem exited (h : s.Flowing) (hw : s.worker = .waiting) (hcount : ¬ 0 < s.ring.count) :
    Flowing { s with worker := .exited } := by
  have hpending : pending { s with worker := .exited } = s.pending := by
    unfold pending
    rw [hw]
    rfl
  have hdropped : s.worker.dropped = Worker.exited.dropped := by rw [hw]; rfl
  refine ⟨?_, ?_, h.full, fun _ => Nat.eq_zero_of_not_pos hcount, fun _ _ _ _ _ => nofun, fun _ => nofun,
    fun _ => .inr rfl, ?_, h.closing, fun _ => rfl, ?_⟩
  · rw [hpending]
    exact h.order
  · rw [hpending]
    exact hdropped ▸ h.count
  · intro hexit
    obtain ⟨hstop, hnone⟩ := h.running hexit
    refine ⟨hstop, fun hs => ?_⟩
    rw [hw] at hnone
    cases hnone hs
  · intro hexit
    rw [hpending]
    exact hdropped ▸ h.returned hexit

/-- `audit_worker_close` begins: the writer is to be joined, or was never there. -/
theorem close (h : s.Flowing) (hexit : s.exit = .running) : Flowing
    (if s.started && !s.stop then { s with stop := true, exit := .joining } else { s with exit := .returned }) := by
  obtain ⟨hstop, hnone⟩ := h.running hexit
  rw [hstop, Bool.not_false, Bool.and_true]
  split
  · next hstarted =>
      exact ⟨h.order, h.count, h.full, h.quiet, h.up, h.started, h.unstarted, nofun, fun _ => hstarted, nofun, nofun⟩
  · next hstarted =>
      have hidle := h.idle (.inl (hnone (Bool.eq_false_iff.mpr hstarted)))
      refine ⟨h.order, h.count, h.full, h.quiet, h.up, h.started, h.unstarted, nofun, ?_, nofun, fun _ => hidle⟩
      rintro (hjoin | hjoin) <;> cases hjoin

theorem join (h : s.Flowing) (hexit : s.exit = .joining) (hw : s.worker = .exited) :
    Flowing { s with exit := .joined } :=
  ⟨h.order, h.count, h.full, h.quiet, h.up, h.started, h.unstarted, nofun, fun _ => h.closing (.inl hexit),
    fun _ => hw, nofun⟩

/-- `audit_worker_close` ends. -/
theorem closed (h : s.Flowing) (hexit : s.exit = .joined) :
    Flowing { s with started := false, exit := .returned } := by
  have hw := h.joined hexit
  have hidle := h.idle (.inr hw)
  refine ⟨h.order, h.count, h.full, h.quiet, h.up, nofun, fun _ => .inr hw, nofun, ?_, nofun, fun _ => hidle⟩
  rintro (hjoin | hjoin) <;> cases hjoin

theorem step {a : Action} (h : s.Flowing) (hok : s.Alive a) (hs : s.step a = some s') : s'.Flowing := by
  cases stepped hs with
  | event i event detail hi => exact h.call i event detail id
  | start i created detail hi hstarted => exact h.call i _ detail fun _ => hstarted
  | created i detail hi hstarted => exact (h.created hstarted).call i _ detail fun _ => rfl
  | notCreated i detail hi hstarted => exact h.call i _ detail nofun
  | enqueue i ts num event detail hi => exact h.enqueue i _ (h.up i num event detail hi) hok.1 hok.2
  | append i ts num event detail hi => exact h.append i _
  | drain hw hcount => exact h.drain hw
  | exit hw hcount hstop => exact h.exited hw hcount
  | write todo dropped hw => exact h.write hw
  | close hexit => exact h.close hexit
  | join hexit hw => exact h.join hexit hw
  | closed hexit => exact h.closed hexit

end Flowing

end Audit
open Audit

/-- No event is lost, written twice or out of order, and when `audit_worker_close` has returned every event in the ring
was written or counted, if none was put there after the writer had ended. -/
theorem audit_complete {s : Audit} (h : Reaches Audit.step Audit.Alive .initial s) : s.Audited := by
  have hflow : s.Flowing := h.invariant flowing_initial fun _ _ _ ht hok hs => ht.step hok hs
  have hnamed : Named s.threads s.calls (s.accepted ++ directOf s.log) :=
    h.invariant (P := fun s => Named s.threads s.calls (s.accepted ++ directOf s.log))
      ⟨nofun, nofun, nofun, .nil, nofun⟩ fun _ _ _ ht _ hs => named_step ht hs
  refine ⟨hnamed.nodup, hnamed.cover, hnamed.texts, (List.sublist_append_left _ _).trans hflow.order, fun hexit => ?_⟩
  obtain ⟨hpending, hdropped⟩ := hflow.returned hexit
  rw [hflow.count, hpending, hdropped, List.append_nil, Nat.add_zero]

/-- Two events, written at exit. -/
theorem audit_complete_exit : ∃ s : Audit, s.exit = .returned ∧ s.accepted.length = 2 ∧ s.Audited := by
  have hrun : Reaches Audit.step Audit.Alive .initial _ := .of_run
    [.start 0 true [], .enqueue 0 1, .event 0 (text "end") (text "exit=0"), .enqueue 0 2, .close, .drain, .write,
      .write, .write, .drain, .join, .closed] (by decide +kernel)
  exact ⟨_, by decide +kernel, by decide +kernel, audit_complete hrun⟩

/-- A thread has seen the writer started, the writer ends, and the event of the thread stays in the ring. -/
theorem audit_complete_late : ¬ ∀ s, Reaches Audit.step Free .initial s → s.Audited := by
  intro h
  have hrun : Reaches Audit.step Free .initial _ := .of_run
    [.start 0 true [], .enqueue 0 1, .event 1 (text "tx-timing") [], .close, .drain, .write, .write, .drain,
      .enqueue 1 2, .join, .closed] (by decide +kernel)
  have hcount := (h _ hrun).2.2.2.2 (by decide +kernel)
  exact absurd hcount (by decide +kernel)

end SimpleSatOps.AuditLog
