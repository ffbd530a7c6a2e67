import SimpleSatOps.Db.Opening

/-!
# No packet twice

* `Deduplicated` : no two rows with the same payload, tool and origin, where no origin is one value;
* `Marked` : a record without an origin does not come to a row without an origin, unless an index rejects it;
* `deduplicated` : in runs of such inserts the table is deduplicated.
-/

namespace SimpleSatOps.PacketDb

/-- The same packet, by the same tool, from the same source or both from none. -/
def Row.Same (x y : Row) : Prop :=
  x.payloadSha1 = y.payloadSha1 ∧ x.sourceTool = y.sourceTool ∧ x.captureOrigin = y.captureOrigin

instance (x y : Row) : Decidable (x.Same y) := inferInstanceAs (Decidable (_ ∧ _))

def Deduplicated (t : Table Row) : Prop := t.rows.Pairwise fun x y => ¬ x.2.Same y.2

instance (t : Table Row) : Decidable (Deduplicated t) := inferInstanceAs (Decidable (List.Pairwise _ _))

/-- A record without an origin is rejected by an index, or no row without an origin has its payload and tool. -/
def Marked (sha1 : List UInt8 → List UInt8) (s : State) : Action → Prop
  | .insert r => ∀ row ∈ r.row sha1, row.captureOrigin = none →
      s.store.table.Rejects s.store.indexes row ∨ ∀ x ∈ s.store.table.rows, ¬ x.2.Same row
  | _ => True

instance (sha1 : List UInt8 → List UInt8) (s : State) (a : Action) : Decidable (Marked sha1 s a) :=
  match a with
  | .insert r => Option.decidableForallMem (r.row sha1)
  | .start _ | .run _ _ | .ret _ | .stop _ => .isTrue trivial

/-- With an origin the index of version 4 sees that two rows are the same. -/
theorem clash_of_same {x y : Row} (h : x.Same y) (horigin : x.captureOrigin ≠ none) : Clash sha1ToolOrigin x y := by
  obtain ⟨hsha1, htool, hsame⟩ := h
  unfold Clash sha1ToolOrigin
  refine ⟨by rw [hsha1, htool, hsame], ?_⟩
  intro hmem
  simp only [List.mem_cons, List.not_mem_nil, or_false, reduceCtorEq, false_or] at hmem
  exact horigin hmem.symm

theorem deduplicated_of_unique {t : Table Row} (h : t.Unique sha1ToolOrigin)
    (horigin : ∀ x ∈ t.rows, x.2.captureOrigin ≠ none) : Deduplicated t :=
  List.Pairwise.imp_of_mem (fun hx _ hxy hsame => hxy (clash_of_same hsame (horigin _ hx))) h

/-- There are rows only with the index of version 4. -/
structure Clean (s : State) : Prop extends Founded s where
  rows : s.store.hasSha1ToolOrigin = false → s.store.table.rows = []
  dedup : Deduplicated s.store.table

theorem clean_initial : Clean .initial where
  toFounded := founded_initial
  rows _ := rfl
  dedup := .nil

namespace Clean
variable {s s' : State}

/-- The file is left alone. -/
theorem same (h : Clean s) (hf : Founded s') (hstore : s'.store = s.store) : Clean s' where
  toFounded := hf
  rows := hstore ▸ h.rows
  dedup := hstore ▸ h.dedup

theorem run (h : Clean s) {i : ℕ} {st : Statement} {rest : List Statement} {stamped : Bool} {store : Store}
    (hf : Founded (s.ran i store rest)) (hs : s.store.exec stamped st = some store) : Clean (s.ran i store rest) := by
  have hcases : store.table.rows.Sublist s.store.table.rows ∨ store.table = s.store.table.update Row.backfill ∧
      store.hasSha1ToolOrigin = s.store.hasSha1ToolOrigin ∧
        (s.store.hasSha1ToolOrigin = true → store.table.Unique sha1ToolOrigin) := by
    rcases exec_table hs with htable | ⟨-, htable⟩ | ⟨-, hbackfill⟩
    · exact .inl (htable ▸ List.Sublist.refl _)
    · exact .inl (htable ▸ List.filter_sublist)
    · exact .inr hbackfill
  rcases hcases with hsub | ⟨htable, hindex, hunique⟩
  · refine ⟨hf, fun hno => ?_, h.dedup.sublist hsub⟩
    have hno : s.store.hasSha1ToolOrigin = false :=
      Bool.eq_false_iff.mpr fun hyes => absurd (exec_hasSha1ToolOrigin hs hyes) (Bool.eq_false_iff.mp hno)
    have hrows := h.rows hno
    rw [hrows] at hsub
    exact List.sublist_nil.mp hsub
  · have hrows : s.store.hasSha1ToolOrigin = false → store.table.rows = [] := by
      intro hno
      rw [htable]
      show s.store.table.rows.map _ = []
      rw [h.rows hno, List.map_nil]
    refine ⟨hf, fun hno => hrows (hindex ▸ hno), ?_⟩
    show Deduplicated store.table
    cases hhas : s.store.hasSha1ToolOrigin with
    | false =>
        unfold Deduplicated
        rw [hrows hhas]
        exact .nil
    | true =>
        refine deduplicated_of_unique (hunique hhas) ?_
        rw [htable]
        intro x hx
        obtain ⟨y, -, rfl⟩ := List.mem_map.mp hx
        exact Option.some_ne_none _

theorem insert (h : Clean s) {sha1 : List UInt8 → List UInt8} {r : Record (List UInt8)} (hc : s.connected = true)
    (hok : Marked sha1 s (.insert r)) : Clean { s with store := (packetDbInsert sha1 s.store r .done).1 } := by
  have hindex := h.connected hc
  refine ⟨h.toFounded.insert hc sha1 r, ?_, ?_⟩
  · obtain ⟨table, hstore⟩ := packetDbInsert_store sha1 s.store r .done
    rw [hstore]
    exact fun hno => absurd hindex (Bool.eq_false_iff.mp hno)
  · show Deduplicated (packetDbInsert sha1 s.store r .done).1.table
    unfold packetDbInsert
    split
    · show Deduplicated (s.store.insertRow (r.row sha1)).table
      cases hrow : r.row sha1 with
      | none => exact h.dedup
      | some row =>
          show Deduplicated (s.store.table.insertOrIgnore s.store.indexes row)
          unfold Table.insertOrIgnore
          split
          · exact h.dedup
          · next hnot =>
            have hother : ∀ x ∈ s.store.table.rows, ¬ x.2.Same row := by
              intro x hx hsame
              cases horigin : row.captureOrigin with
              | none => exact (hok row hrow horigin).resolve_left hnot x hx hsame
              | some origin =>
                  have hsome : x.2.captureOrigin ≠ none := by
                    rw [hsame.2.2, horigin]
                    exact Option.some_ne_none _
                  exact hnot ⟨_, sha1ToolOrigin_mem_indexes hindex, x, hx, clash_of_same hsame hsome⟩
            refine List.pairwise_append.mpr ⟨h.dedup, List.pairwise_singleton _ _, fun x hx y hy => ?_⟩
            rw [List.mem_singleton.mp hy]
            exact hother x hx
    · exact h.dedup

theorem step {sha1 : List UInt8 → List UInt8} {a : Action} (h : Clean s) (hok : Marked sha1 s a)
    (hs : s.step sha1 a = some s') : Clean s' := by
  have hf := h.toFounded.step hs
  cases State.stepped hs with
  | run hi hst hexec => exact h.run hf hexec
  | insert hc => exact h.insert hc hok
  | start | readVersion | fail | ret | stop => exact h.same hf rfl

end Clean

/-- However many processes open the store and insert, no packet is twice in it, if no record without an origin comes to
a row without an origin unnoticed. -/
theorem deduplicated (sha1 : List UInt8 → List UInt8) {s : State}
    (h : Reaches (State.step sha1) (Marked sha1) .initial s) : Deduplicated s.store.table := by
  have hclean : Clean s := h.invariant clean_initial fun _ _ _ ht hok hs => ht.step hok hs
  exact hclean.dedup

/-! ## A capture that is decoded twice -/

/-- A new store, and one record without an origin. -/
theorem deduplicated_once : ∃ s : State, s.store.table.rows.length = 1 ∧ Deduplicated s.store.table := by
  have hrun : Reaches (State.step sha1One) (Marked sha1One) .initial _ := .of_run
    (opening 0 ++ [.insert (frame (text "a"))]) (by decide +kernel)
  exact ⟨_, by decide +kernel, deduplicated sha1One hrun⟩

/-- The same capture is decoded in two runs: both rows are stored. -/
theorem deduplicated_rerun : ¬ ∀ s, Reaches (State.step sha1One) Free .initial s → Deduplicated s.store.table := by
  intro h
  have hrun : Reaches (State.step sha1One) Free .initial _ := .of_run
    (opening 0 ++ [.insert (frame (text "a")), .insert (frame (text "b"))]) (by decide +kernel)
  exact absurd (h _ hrun) (by decide +kernel)

end SimpleSatOps.PacketDb
