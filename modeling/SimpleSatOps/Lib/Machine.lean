import Mathlib.Tactic

/-!
# Machines

* `Reaches` : what a machine reaches by steps that all meet a condition;
* `Reaches.invariant` : what the first state has and every step keeps holds of every state reached;
* `guarded`, `Reaches.of_foldlM`, `Reaches.of_run` : the state a list of actions leads to is reached;
* `split_concat` : a history that has grown by one entry.
-/

namespace SimpleSatOps

variable {σ α : Type*}

/-- From `s` by steps whose action meets `ok` in the state before it. -/
inductive Reaches (step : σ → α → Option σ) (ok : σ → α → Prop) (s : σ) : σ → Prop
  | refl : Reaches step ok s s
  | tail {t u : σ} {a : α} (h : Reaches step ok s t) (hok : ok t a) (hstep : step t a = some u) : Reaches step ok s u

/-- Every step is allowed. -/
def Free : σ → α → Prop := fun _ _ => True

instance (s : σ) (a : α) : Decidable (Free s a) := .isTrue trivial

/-- The step where the condition allows it. -/
def guarded (step : σ → α → Option σ) (ok : σ → α → Prop) [∀ s a, Decidable (ok s a)] (s : σ) (a : α) : Option σ :=
  if ok s a then step s a else none

namespace Reaches
variable {step : σ → α → Option σ} {ok ok' : σ → α → Prop} {s t u : σ}

theorem invariant {P : σ → Prop} (h : Reaches step ok s t) (hs : P s)
    (hstep : ∀ t a u, P t → ok t a → step t a = some u → P u) : P t := by
  induction h with
  | refl => exact hs
  | tail _ hok hst ih => exact hstep _ _ _ ih hok hst

theorem mono (h : Reaches step ok s t) (hle : ∀ t a, ok t a → ok' t a) : Reaches step ok' s t := by
  induction h with
  | refl => exact refl
  | tail _ hok hst ih => exact ih.tail (hle _ _ hok) hst

theorem free (h : Reaches step ok s t) : Reaches step Free s t := h.mono fun _ _ _ => trivial

theorem trans (h : Reaches step ok s t) (h' : Reaches step ok t u) : Reaches step ok s u := by
  induction h' with
  | refl => exact h
  | tail _ hok hst ih => exact ih.tail hok hst

/-- The state a list of actions leads to. -/
theorem of_foldlM (acts : List α) (h : acts.foldlM step s = some t) : Reaches step Free s t := by
  induction acts generalizing s with
  | nil =>
      obtain rfl := Option.some.inj h
      exact refl
  | cons a acts ih =>
      rw [List.foldlM_cons] at h
      obtain ⟨m, hm, hrest⟩ := Option.bind_eq_some_iff.mp h
      exact (refl.tail trivial hm).trans (ih hrest)

theorem of_guarded [∀ s a, Decidable (ok s a)] (h : Reaches (guarded step ok) Free s t) : Reaches step ok s t := by
  induction h with
  | refl => exact refl
  | tail _ _ hst ih =>
      rw [guarded, Option.ite_none_right_eq_some] at hst
      exact ih.tail hst.1 hst.2

/-- The state a list of actions leads to that the condition allows, without writing it out. -/
theorem of_run [∀ s a, Decidable (ok s a)] (acts : List α) (h : (acts.foldlM (guarded step ok) s).isSome = true) :
    Reaches step ok s ((acts.foldlM (guarded step ok) s).get h) :=
  of_guarded (of_foldlM acts (Option.some_get h).symm)

end Reaches

/-- An entry of a history that grows by one is old, or the new one. -/
theorem split_concat {es pre post : List α} {x e : α} (h : es ++ [x] = pre ++ e :: post) :
    (∃ post', es = pre ++ e :: post' ∧ post = post' ++ [x]) ∨ es = pre ∧ e = x ∧ post = [] := by
  rcases List.eq_nil_or_concat post with rfl | ⟨post', y, rfl⟩
  · obtain ⟨rfl, hx⟩ := List.append_inj' h rfl
    exact .inr ⟨rfl, (List.cons.inj hx).1.symm, rfl⟩
  · rw [List.concat_eq_append, ← List.cons_append, ← List.append_assoc] at h
    obtain ⟨rfl, hx⟩ := List.append_inj' h rfl
    rw [(List.cons.inj hx).1, List.concat_eq_append]
    exact .inl ⟨post', rfl, rfl⟩

end SimpleSatOps
