import Mathlib.Logic.Function.Basic
import SimpleSatOps.Lib.CText

/-!
# Blocks of memory

* `Heap`, `Kept` : the blocks there are by their addresses, and that none of them has changed;
* `Mem.malloc`, `Mem.dup` : a new block, and a new block with a copy; NULL when memory is exhausted;
* `Copy` : `q` is NULL or the address of a new block with a copy of what is at `p`.
-/

namespace SimpleSatOps

/-- The blocks that are allocated. -/
abbrev Heap := ℕ → Option (List UInt8)

namespace Heap

def read (h : Heap) (a : ℕ) : List UInt8 := (h a).getD []

/-- `free` -/
def free (h : Heap) : Option ℕ → Heap
  | none => h
  | some a => Function.update h a none

/-- What was allocated has not changed. -/
def Kept (h h' : Heap) : Prop := ∀ a, h a ≠ none → h' a = h a

theorem Kept.refl (h : Heap) : Kept h h := fun _ _ => rfl

theorem Kept.trans {h h' h'' : Heap} (k : Kept h h') (k' : Kept h' h'') : Kept h h'' := by
  intro a ha
  have ha' : h' a ≠ none := by rwa [k a ha]
  rw [k' a ha', k a ha]

theorem Kept.read {h h' : Heap} (k : Kept h h') {a : ℕ} (ha : h a ≠ none) : h'.read a = h.read a := by
  unfold Heap.read
  rw [k a ha]

theorem foldl_free {ps : List (Option ℕ)} {a : ℕ} (h : Heap) (ha : some a ∉ ps) : ps.foldl free h a = h a := by
  induction ps generalizing h with
  | nil => rfl
  | cons p ps ih =>
      rw [List.mem_cons, not_or] at ha
      rw [List.foldl_cons, ih _ ha.2]
      cases p with
      | none => rfl
      | some b => exact Function.update_of_ne (fun hab => ha.1 (congrArg some hab)) _ _

end Heap
open Heap

/-- A heap, and what `malloc` will answer: NULL or a new address. -/
structure Mem where
  heap : Heap
  answers : List (Option ℕ)
  exhausted : Bool

namespace Mem

/-- A block with these contents. An address that is taken is no answer of `malloc`. -/
def malloc (m : Mem) (block : List UInt8) : Mem × Option ℕ :=
  match m.answers with
  | some a :: answers =>
      if m.heap a = none then ({ m with heap := Function.update m.heap a (some block), answers }, some a)
      else ({ m with answers, exhausted := true }, none)
  | _ => ({ m with answers := m.answers.tail, exhausted := true }, none)

/-- `realloc` of an array: only whether there was memory for it. -/
def realloc (m : Mem) : Mem × Bool :=
  match m.answers with
  | some _ :: answers => ({ m with answers }, true)
  | _ => ({ m with answers := m.answers.tail, exhausted := true }, false)

/-- NULL is copied to NULL. -/
def dup (m : Mem) (f : List UInt8 → List UInt8) : Option ℕ → Mem × Option ℕ
  | none => (m, none)
  | some p => m.malloc (f (m.heap.read p))

end Mem

/-- `q` is NULL, or points to a block that was free in `h` and has in `h'` the copy of what `p` points to in `h`. -/
def Copy (f : List UInt8 → List UInt8) (h : Heap) (p : Option ℕ) (h' : Heap) (q : Option ℕ) : Prop :=
  ∀ a, q = some a → h a = none ∧ ∃ b, p = some b ∧ h' a = some (f (h.read b))

/-- What a copy does: earlier blocks stay, and it is missing only when memory is exhausted. -/
structure Dup (f : List UInt8 → List UInt8) (m : Mem) (p : Option ℕ) (m' : Mem) (q : Option ℕ) : Prop where
  kept : Kept m.heap m'.heap
  copy : Copy f m.heap p m'.heap q
  exhausted : m.exhausted = true → m'.exhausted = true
  missing : p.isSome = true → q = none → m'.exhausted = true

theorem kept_update {h : Heap} {a : ℕ} (ha : h a = none) (block : Option (List UInt8)) :
    Kept h (Function.update h a block) := by
  intro b hb
  refine Function.update_of_ne ?_ _ _
  rintro rfl
  exact hb ha

theorem dup_spec (f : List UInt8 → List UInt8) (m : Mem) (p : Option ℕ) : Dup f m p (m.dup f p).1 (m.dup f p).2 := by
  cases p with
  | none => exact ⟨.refl _, nofun, id, nofun⟩
  | some b =>
      show Dup f m (some b) (m.malloc (f (m.heap.read b))).1 (m.malloc (f (m.heap.read b))).2
      unfold Mem.malloc
      split
      · split
        · next a answers hanswers hfree =>
            refine ⟨kept_update hfree _, ?_, id, nofun⟩
            rintro _ ⟨⟩
            exact ⟨hfree, b, rfl, Function.update_self ..⟩
        · exact ⟨.refl _, nofun, fun _ => rfl, fun _ _ => rfl⟩
      · exact ⟨.refl _, nofun, fun _ => rfl, fun _ _ => rfl⟩

theorem Copy.fresh {f : List UInt8 → List UInt8} {h h' : Heap} {p q : Option ℕ} (c : Copy f h p h' q) {a : ℕ}
    (ha : q = some a) : h a = none ∧ h' a ≠ none := by
  obtain ⟨hfree, b, -, hblock⟩ := c a ha
  exact ⟨hfree, by rw [hblock]; exact Option.some_ne_none _⟩

/-- With memory left in the end there is a copy of what was there. -/
theorem Dup.isSome {f : List UInt8 → List UInt8} {m m' : Mem} {p q : Option ℕ} (d : Dup f m p m' q)
    (hleft : m'.exhausted = false) (hp : p.isSome = true) : q.isSome = true := by
  cases q with
  | none => exact absurd (d.missing hp rfl) (Bool.eq_false_iff.mp hleft)
  | some a => rfl

/-- Memory that is left in the end was left before. -/
theorem Dup.left {f : List UInt8 → List UInt8} {m m' : Mem} {p q : Option ℕ} (d : Dup f m p m' q)
    (hleft : m'.exhausted = false) : m.exhausted = false :=
  Bool.eq_false_iff.mpr fun h => Bool.eq_false_iff.mp hleft (d.exhausted h)

/-- A copy that was made along the way, seen from its beginning and its end. -/
theorem Copy.widen {f : List UInt8 → List UInt8} {h₀ h h' h'' : Heap} {p q : Option ℕ} (c : Copy f h p h' q)
    (k : Kept h₀ h) (hp : ∀ b, p = some b → h₀ b ≠ none) (k' : Kept h' h'') : Copy f h₀ p h'' q := by
  intro a ha
  obtain ⟨hfree, b, hb, hblock⟩ := c a ha
  refine ⟨?_, b, hb, ?_⟩
  · by_contra hne
    exact hne ((k a hne).symm.trans hfree)
  · have hsome : h' a ≠ none := by
      rw [hblock]
      exact Option.some_ne_none _
    rw [k' a hsome, hblock, k.read (hp b hb)]

end SimpleSatOps
