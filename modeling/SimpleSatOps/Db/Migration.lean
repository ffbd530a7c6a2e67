import SimpleSatOps.Db.Opening

/-!
# Opening old stores

* `Stored` : a store as each version of the schema left it, its version stamped or not;
* `Row.packet`, `Keeps` : the packet a row is about, and that no packet is lost;
* `Orderly` : no rung of the ladder meets rows that later rungs made possible, and no process leaves the store
  unfinished;
* `Laid` : what each `packet_db_open` under way can rely on;
* `migration_safe` : in runs of such steps nothing is lost, no `packet_db_open` fails, and the schema is that of
  version 4
  once all have returned.
-/

namespace SimpleSatOps.PacketDb

/-- The payload, the tool and the source; no source counts as `cts_ground`. -/
def Row.packet (r : Row) : List UInt8 × List UInt8 × List UInt8 :=
  (r.payloadSha1, r.sourceTool, r.captureOrigin.getD ctsGround)

/-- Each packet of the one table is in the other. -/
def Keeps (t t' : Table Row) : Prop := ∀ x ∈ t.rows, ∃ y ∈ t'.rows, y.2.packet = x.2.packet

/-- The columns later versions had added to the table by version `v`. -/
def columnsOf (v : ℕ) : List Column := (if 2 ≤ v then v2Columns else []) ++ if v = 4 then [.captureOrigin] else []

/-- A store of schema version `v`, version 0 when there is none, and no `packet_db_open` yet. -/
structure Stored (v : ℕ) (s : State) : Prop where
  le : v ≤ 4
  openers : ∀ i, s.openers i = none
  returned : s.returned = false
  failed : s.failed = false
  created : s.store.created = decide (0 < v)
  rows : v = 0 → s.store.table.rows = []
  columns : s.store.columns = columnsOf v
  index3 : s.store.hasSha1Tool = decide (v = 3)
  index4 : s.store.hasSha1ToolOrigin = decide (v = 4)
  version_le : s.store.userVersion ≤ v
  unique : ∀ i ∈ s.store.indexes, s.store.table.Unique i
  origin : v < 4 → ∀ x ∈ s.store.table.rows, x.2.captureOrigin = none
  connected : s.connected = true → v = 4

namespace State

/-- Process `j` has this statement still to run. -/
def Due (s : State) (j : ℕ) (st : Statement) : Prop := ∃ t, s.openers j = some t ∧ st ∈ t

/-- Version 4 is stamped, or some process will stamp it, or none has come yet. -/
def VersionDue (s : State) : Prop :=
  s.store.userVersion = 4 ∨ (∃ j, s.Due j (.stamp 4) ∨ s.Due j .readVersion) ∨
    (s.returned = false ∧ ∀ j, s.openers j = none)

/-- The index of version 3 is gone, or some process will drop it, or whoever comes next will. -/
def IndexDue (s : State) : Prop :=
  s.store.hasSha1Tool = true → (∃ j, s.Due j .dropSha1Tool) ∨
    (s.store.userVersion < 4 ∧ (∀ j t, s.openers j = some t → .readVersion ∈ t) ∧
      (s.returned = true → ∃ j t, s.openers j = some t))

/-- The rows let a statement be run. -/
def Harmless (s : State) : Statement → Prop
  | .deleteDuplicates => ∀ x ∈ s.store.table.rows, ∀ y ∈ s.store.table.rows,
      x.2.payloadSha1 = y.2.payloadSha1 → x.2.sourceTool = y.2.sourceTool → x.2.packet = y.2.packet
  | .createSha1Tool => s.store.hasSha1Tool = true ∨ s.store.table.Unique sha1Tool
  | .backfillOrigin => s.store.hasSha1ToolOrigin = true → s.store.table.rows.Pairwise fun x y =>
      x.2.captureOrigin = none ∨ y.2.captureOrigin = none → x.2.packet ≠ y.2.packet
  | _ => True

/-- The next statement of process `i`. -/
def next (s : State) (i : ℕ) : Option Statement := (s.openers i).bind List.head?

/-- The condition on a step: the statement is harmless, and when the stamp of version 4 fails or a process stops, what
it leaves is due to others. -/
def Orderly (s : State) : Action → Prop
  | .run i stamped => ∀ st ∈ s.next i, s.Harmless st ∧ (st = .stamp 4 → stamped = false →
      s.store.userVersion = 4 ∨ ∃ j, j ≠ i ∧ (s.Due j (.stamp 4) ∨ s.Due j .readVersion))
  | .stop i => (s.without i).VersionDue ∧ (s.without i).IndexDue
  | _ => True

end State
open State

/-! ## Rows -/

theorem Keeps.refl (t : Table Row) : Keeps t t := fun x hx => ⟨x, hx, rfl⟩

theorem Keeps.trans {t t' t'' : Table Row} (h : Keeps t t') (h' : Keeps t' t'') : Keeps t t'' := by
  intro x hx
  obtain ⟨y, hy, hxy⟩ := h x hx
  obtain ⟨z, hz, hyz⟩ := h' y hy
  exact ⟨z, hz, hyz.trans hxy⟩

theorem backfill_packet (r : Row) : r.backfill.packet = r.packet := rfl

theorem backfill_origin (r : Row) : r.backfill.captureOrigin = some (r.captureOrigin.getD ctsGround) := rfl

theorem keeps_update (t : Table Row) : Keeps t (t.update Row.backfill) := fun x hx =>
  ⟨_, List.mem_map_of_mem hx, backfill_packet x.2⟩

/-- Rows of the same payload and tool are of the same packet, so one of them is enough. -/
theorem keeps_keepFirst {t : Table Row}
    (h : ∀ x ∈ t.rows, ∀ y ∈ t.rows,
      x.2.payloadSha1 = y.2.payloadSha1 → x.2.sourceTool = y.2.sourceTool → x.2.packet = y.2.packet) :
    Keeps t (t.keepFirst fun r => (r.payloadSha1, r.sourceTool)) := by
  intro x hx
  obtain ⟨y, hy, hkey⟩ := Table.exists_mem_keepFirst (fun r : Row => (r.payloadSha1, r.sourceTool)) hx
  obtain ⟨hsha1, htool⟩ := Prod.mk.inj hkey
  exact ⟨y, hy, h y (List.mem_of_mem_filter hy) x hx hsha1 htool⟩

theorem keeps_insert (sha1 : List UInt8 → List UInt8) (s : Store) (r : Record (List UInt8)) (rc : Rc) :
    Keeps s.table (packetDbInsert sha1 s r rc).1.table := by
  unfold packetDbInsert
  split
  · cases rc with
    | done =>
        show Keeps s.table (s.insertRow (r.row sha1)).table
        cases r.row sha1 with
        | none => exact .refl _
        | some row => exact fun x hx => ⟨x, (s.table.insertOrIgnore_rows s.indexes row).subset hx, rfl⟩
    | busy | error => exact .refl _
  · exact .refl _

theorem unique_origin {t : Table Row} (h : t.Unique sha1Tool) : t.Unique sha1ToolOrigin := by
  refine h.mono fun x y hclash => ?_
  unfold Clash sha1ToolOrigin at hclash
  unfold Clash sha1Tool
  simp only [List.cons.injEq, Option.some.injEq] at hclash ⊢
  exact ⟨⟨hclash.1.1, hclash.1.2.1, trivial⟩, by simp⟩

/-- The backfill leaves the index of version 4 in force when no row without an origin meets another of its packet. -/
theorem unique_backfill {t : Table Row} (h : t.Unique sha1ToolOrigin)
    (hnone : t.rows.Pairwise fun x y =>
      x.2.captureOrigin = none ∨ y.2.captureOrigin = none → x.2.packet ≠ y.2.packet) :
    (t.update Row.backfill).Unique sha1ToolOrigin := by
  refine List.pairwise_map.mpr ((h.and hnone).imp ?_)
  rintro x y ⟨hxy, hnone⟩ hclash
  unfold Clash sha1ToolOrigin at hxy hclash
  simp only [Prod.map_snd, backfill_origin, List.cons.injEq, Option.some.injEq, and_true] at hclash
  obtain ⟨⟨hsha1, htool, horigin⟩, -⟩ := hclash
  have hsha1 : x.2.payloadSha1 = y.2.payloadSha1 := hsha1
  have htool : x.2.sourceTool = y.2.sourceTool := htool
  by_cases hsome : x.2.captureOrigin = none ∨ y.2.captureOrigin = none
  · exact hnone hsome (Prod.ext hsha1 (Prod.ext htool horigin))
  · rw [not_or] at hsome
    obtain ⟨a, ha⟩ := Option.ne_none_iff_exists'.mp hsome.1
    obtain ⟨b, hb⟩ := Option.ne_none_iff_exists'.mp hsome.2
    rw [ha, hb, Option.getD_some, Option.getD_some] at horigin
    refine hxy ⟨by rw [hsha1, htool, ha, hb, horigin], ?_⟩
    rw [ha]
    simp

/-! ## The order of the ladder -/

/-- What comes behind the first statement, and what does not come any more. -/
def InOrder (t : List Statement) : Prop :=
  (t.head? = some .backfillOrigin → .alter .captureOrigin ∉ t) ∧
    (t.head? = some .createSha1ToolOrigin → .alter .captureOrigin ∉ t ∧ .createSha1Tool ∉ t) ∧
    (t.head? = some .prepare → ∀ c ∈ v2Columns ++ [.captureOrigin], .alter c ∉ t) ∧
    (t.head? = some .createSha1Tool → .dropSha1Tool ∈ t)

theorem inOrder {t : List Statement} (ht : t <:+ ladder 0) : InOrder t :=
  of_suffix (P := InOrder) (by unfold InOrder; decide) ht

theorem stamp_order {t : List Statement} (ht : t <:+ ladder 0) {k : ℕ} (hhead : t.head? = some (.stamp k)) :
    (k = 2 ∨ k = 3 ∨ k = 4) ∧ (∀ c ∈ v2Columns, .alter c ∉ t) ∧ (k = 4 → .alter .captureOrigin ∉ t) ∧
      (3 ≤ k → .createSha1Tool ∉ t) ∧ (k ≠ 4 → .stamp 4 ∈ t) ∧ (k = 4 → .dropSha1Tool ∉ t) := by
  have hk : k = 2 ∨ k = 3 ∨ k = 4 := by
    have hmem : .stamp k ∈ ladder 0 := ht.subset (List.mem_of_mem_head? hhead)
    simpa [ladder, MIGRATION_V2_ALTERS, MIGRATION_V3_STEPS, MIGRATION_V4_STEPS] using hmem
  refine ⟨hk, ?_⟩
  have hall := of_suffix (P := fun t => ∀ k ∈ [2, 3, 4], t.head? = some (.stamp k) →
    (∀ c ∈ v2Columns, .alter c ∉ t) ∧ (k = 4 → .alter .captureOrigin ∉ t) ∧ (3 ≤ k → .createSha1Tool ∉ t) ∧
      (k ≠ 4 → .stamp 4 ∈ t) ∧ (k = 4 → .dropSha1Tool ∉ t)) (by decide) ht
  exact hall k (by simpa using hk) hhead

/-- What a version below 4 leaves to run. -/
theorem mem_ladder {v : ℕ} (hv : v < 4) :
    .stamp 4 ∈ ladder v ∧ .dropSha1Tool ∈ ladder v ∧ .alter .captureOrigin ∈ ladder v ∧
      (v < 3 → .createSha1Tool ∈ ladder v) ∧ (v < 2 → ∀ c ∈ v2Columns, .alter c ∈ ladder v) := by
  interval_cases v <;> decide

section Due
variable {s : State} {i j : ℕ} {st st' : Statement} {rest t : List Statement}

theorem due_ran_self (store : Store) (h : st ∈ rest) : (s.ran i store rest).Due i st :=
  ⟨rest, Function.update_self .., h⟩

theorem due_ran_of_ne (store : Store) (hne : j ≠ i) (h : s.Due j st) : (s.ran i store rest).Due j st := by
  obtain ⟨t, hj, hmem⟩ := h
  exact ⟨t, (Function.update_of_ne hne _ _).trans hj, hmem⟩

/-- What is not run now is still due. -/
theorem Due.ran (h : s.Due j st') (hi : s.openers i = some (st :: rest)) (hne : st' ≠ st) (store : Store) :
    (s.ran i store rest).Due j st' := by
  rcases eq_or_ne j i with rfl | hji
  · obtain ⟨t, hj, hmem⟩ := h
    obtain rfl := Option.some.inj (hi.symm.trans hj)
    exact due_ran_self store ((List.mem_cons.mp hmem).resolve_left hne)
  · exact due_ran_of_ne store hji h

theorem Due.without (h : s.Due j st) (hi : s.openers i = some t) (hst : st ∉ t) : (s.without i).Due j st := by
  obtain ⟨t', hj, hmem⟩ := h
  have hne : j ≠ i := by
    rintro rfl
    obtain rfl := Option.some.inj (hi.symm.trans hj)
    exact hst hmem
  exact ⟨t', (Function.update_of_ne hne _ _).trans hj, hmem⟩

end Due

/-! ## What can be relied on -/

/-- Nothing has failed, what is not there yet is still to come, and what is due to be undone will be. -/
structure Laid (s : State) : Prop extends Founded s where
  failed : s.failed = false
  versionDue : s.VersionDue
  indexDue : s.IndexDue
  index3 : s.store.hasSha1Tool = true → s.store.table.Unique sha1Tool
  version3 : 3 ≤ s.store.userVersion → s.store.hasSha1ToolOrigin = true ∨ s.store.table.Unique sha1Tool
  collapsed : ∀ i t, s.openers i = some t → (s.store.hasSha1ToolOrigin = true ∨ s.store.table.Unique sha1Tool) ∨
    .createSha1Tool ∈ t ∨ .readVersion ∈ t
  version2 : 2 ≤ s.store.userVersion → ∀ c ∈ v2Columns, c ∈ s.store.columns
  version4 : s.store.userVersion = 4 → .captureOrigin ∈ s.store.columns
  column : ∀ i t, s.openers i = some t → ∀ c, c ∈ s.store.columns ∨ .alter c ∈ t ∨ .readVersion ∈ t

theorem laid_of_stored {v : ℕ} {s : State} (h : Stored v s) : Laid s := by
  have hnone : ∀ i t, s.openers i ≠ some t := fun i t hi => by
    rw [h.openers i] at hi
    cases hi
  have hle := h.version_le
  have horigin : v = 4 → s.store.hasSha1ToolOrigin = true := fun hv => by rw [h.index4, hv]; rfl
  have hindex3 : s.store.hasSha1Tool = true → v = 3 ∧ s.store.table.Unique sha1Tool := by
    intro hhas
    have hmem := sha1Tool_mem_indexes hhas
    rw [h.index3] at hhas
    exact ⟨of_decide_eq_true hhas, h.unique _ hmem⟩
  have hv : 4 ≤ s.store.userVersion → v = 4 := fun h4 => le_antisymm h.le (h4.trans hle)
  refine {
    todo := fun i t hi => absurd hi (hnone i t)
    version_le := hle.trans h.le
    version := fun h4 => horigin (hv h4.ge)
    index := fun i t hi => absurd hi (hnone i t)
    connected := fun hc => horigin (h.connected hc)
    unique := ?_
    failed := h.failed
    versionDue := .inr (.inr ⟨h.returned, h.openers⟩)
    indexDue := ?_
    index3 := fun hhas => (hindex3 hhas).2
    version3 := ?_
    collapsed := fun i t hi => absurd hi (hnone i t)
    version2 := ?_
    version4 := ?_
    column := fun i t hi => absurd hi (hnone i t) }
  · intro hhas
    exact h.unique _ (sha1ToolOrigin_mem_indexes hhas)
  · intro hhas
    refine .inr ⟨?_, fun j t hj => absurd hj (hnone j t), fun hret => ?_⟩
    · have hv3 := (hindex3 hhas).1
      omega
    · rw [h.returned] at hret
      cases hret
  · intro h3
    rcases h.le.lt_or_eq with hlt | heq
    · have hv3 : v = 3 := by omega
      have hhas : s.store.hasSha1Tool = true := by rw [h.index3, hv3]; rfl
      exact .inr (hindex3 hhas).2
    · exact .inl (horigin heq)
  · intro h2 c hc
    rw [h.columns, columnsOf, if_pos (h2.trans hle)]
    exact List.mem_append_left _ hc
  · intro h4
    rw [h.columns, columnsOf, if_pos (hv h4.ge)]
    exact List.mem_append_right _ (List.mem_singleton_self _)

section Exec
variable {s s' : Store} {stamped : Bool} {st : Statement}

theorem exec_columns (h : s.exec stamped st = some s') {c : Column} (hc : c ∈ s.columns) : c ∈ s'.columns := by
  cases st <;> simp only [Store.exec] at h
  case schema =>
    cases h
    split
    · exact hc
    · show c ∈ v2Columns ++ [.captureOrigin]
      cases c <;> decide
  case alter =>
    cases h
    split
    · exact hc
    · exact List.mem_append_left _ hc
  case createSha1Tool | backfillOrigin | createSha1ToolOrigin | prepare =>
    split at h <;> cases h
    exact hc
  case stamp =>
    cases h
    split <;> exact hc
  case readVersion | deleteDuplicates | dropSha1Tool =>
    cases h
    exact hc

theorem exec_alter {c : Column} (h : s.exec stamped (.alter c) = some s') : c ∈ s'.columns := by
  simp only [Store.exec, Option.some.injEq] at h
  subst h
  split
  · next hc => exact hc
  · exact List.mem_append_right _ (List.mem_singleton_self c)

/-- No statement makes the index of version 3 fail once its columns are unique. -/
theorem exec_sha1Tool (h : s.exec stamped st = some s') (hs : s.table.Unique sha1Tool) :
    s'.table.Unique sha1Tool := by
  rcases exec_table h with htable | ⟨-, htable⟩ | ⟨-, htable, -⟩
  · rw [htable]
    exact hs
  · rw [htable]
    exact hs.keepFirst _
  · rw [htable]
    exact hs.update fun _ => rfl

theorem exec_collapsed (h : s.exec stamped st = some s')
    (hs : s.hasSha1ToolOrigin = true ∨ s.table.Unique sha1Tool) :
    s'.hasSha1ToolOrigin = true ∨ s'.table.Unique sha1Tool :=
  hs.imp (exec_hasSha1ToolOrigin h) (exec_sha1Tool h)

/-- The index of version 3 is there afterwards only if it was, or was made. -/
theorem exec_hasSha1Tool (h : s.exec stamped st = some s') (hs' : s'.hasSha1Tool = true) :
    st ≠ .dropSha1Tool ∧ (s.hasSha1Tool = true ∨ st = .createSha1Tool) := by
  cases st <;> simp only [Store.exec] at h
  case createSha1Tool => exact ⟨by simp, .inr rfl⟩
  case schema | alter | stamp =>
    refine ⟨by simp, .inl ?_⟩
    cases h
    revert hs'
    split <;> exact id
  case backfillOrigin | createSha1ToolOrigin | prepare =>
    split at h <;> cases h
    exact ⟨by simp, .inl hs'⟩
  case dropSha1Tool =>
    cases h
    cases hs'
  case readVersion | deleteDuplicates =>
    cases h
    exact ⟨by simp, .inl hs'⟩

theorem exec_createSha1Tool (h : s.exec stamped .createSha1Tool = some s') :
    s.hasSha1Tool = true ∨ s.table.Unique sha1Tool := by
  simp only [Store.exec] at h
  split at h
  · next hok => exact hok
  · cases h

theorem exec_stamp {k : ℕ} (h : s.exec stamped (.stamp k) = some s') :
    (stamped = true ∧ s'.userVersion = k) ∨ (stamped = false ∧ s' = s) := by
  cases stamped with
  | true =>
      cases h
      exact .inl ⟨rfl, rfl⟩
  | false =>
      cases h
      exact .inr ⟨rfl, rfl⟩

end Exec

theorem Todo.readVersion {rest : List Statement} (h : Todo (.readVersion :: rest)) : rest = [] := by
  rcases h with h | h | h
  · cases h
  · exact (List.cons.inj h).2
  · exact absurd List.mem_cons_self (not_readVersion_mem h)

namespace Laid
variable {s s' : State} {i : ℕ} {st : Statement} {rest : List Statement} {stamped : Bool} {store : Store}

/-- A column that is not to be added any more is there. -/
theorem mem_columns (h : Laid s) {t : List Statement} (hi : s.openers i = some t) (ht : t <:+ ladder 0) {c : Column}
    (hc : .alter c ∉ t) : c ∈ s.store.columns := by
  rcases h.column i t hi c with hmem | hmem | hmem
  · exact hmem
  · exact absurd hmem hc
  · exact absurd hmem (not_readVersion_mem ht)

/-- Duplicates that are not to be deleted any more are gone, or the index of version 4 is there. -/
theorem collapsed_of (h : Laid s) {t : List Statement} (hi : s.openers i = some t) (ht : t <:+ ladder 0)
    (hc : .createSha1Tool ∉ t) : s.store.hasSha1ToolOrigin = true ∨ s.store.table.Unique sha1Tool := by
  rcases h.collapsed i t hi with hdone | hmem | hmem
  · exact hdone
  · exact absurd hmem hc
  · exact absurd hmem (not_readVersion_mem ht)

/-- A harmless statement does not fail. -/
theorem exec_ne_none (h : Laid s) (hi : s.openers i = some (st :: rest)) (hst : st ≠ .readVersion)
    (hok : s.Harmless st) : s.store.exec stamped st ≠ none := by
  have hsuffix := (h.todo i _ hi).suffix hst
  cases st with
  | readVersion => exact absurd rfl hst
  | schema | alter | deleteDuplicates | dropSha1Tool | stamp => exact Option.some_ne_none _
  | createSha1Tool =>
      have hok : s.store.hasSha1Tool = true ∨ s.store.table.Unique sha1Tool := hok
      rw [Store.exec, if_pos hok]
      exact Option.some_ne_none _
  | backfillOrigin =>
      have hsuffix := hsuffix (by simp)
      have hcolumn := h.mem_columns hi hsuffix ((inOrder hsuffix).1 rfl)
      rw [Store.exec, if_pos ⟨hcolumn, fun hindex => unique_backfill (h.unique hindex) (hok hindex)⟩]
      exact Option.some_ne_none _
  | createSha1ToolOrigin =>
      have hsuffix := hsuffix (by simp)
      obtain ⟨halter, hcreate⟩ := (inOrder hsuffix).2.1 rfl
      have hcolumn := h.mem_columns hi hsuffix halter
      rw [Store.exec, if_pos ⟨hcolumn, (h.collapsed_of hi hsuffix hcreate).imp_right unique_origin⟩]
      exact Option.some_ne_none _
  | prepare =>
      have hsuffix := hsuffix (by simp)
      have hcolumns := (inOrder hsuffix).2.2.1 rfl
      rw [Store.exec, if_pos fun c hc => h.mem_columns hi hsuffix (hcolumns c hc)]
      exact Option.some_ne_none _

/-- Version 4 stays due. -/
theorem versionDue_run (h : Laid s) (hi : s.openers i = some (st :: rest)) (hst : st ≠ .readVersion)
    (hok : st = .stamp 4 → stamped = false →
      s.store.userVersion = 4 ∨ ∃ j, j ≠ i ∧ (s.Due j (.stamp 4) ∨ s.Due j .readVersion))
    (hs : s.store.exec stamped st = some store) :
    (s.ran i store rest).VersionDue := by
  by_cases h4 : st = .stamp 4
  · subst h4
    rcases exec_stamp hs with ⟨-, hv⟩ | ⟨hfailed, rfl⟩
    · exact .inl hv
    · rcases hok rfl hfailed with hv | ⟨j, hne, hdue⟩
      · exact .inl hv
      · exact .inr (.inl ⟨j, hdue.imp (due_ran_of_ne _ hne) (due_ran_of_ne _ hne)⟩)
  · rcases h.versionDue with hv | ⟨j, hdue⟩ | ⟨-, hnone⟩
    · rcases exec_userVersion hs with hsame | hstamp
      · exact .inl (hsame.trans hv)
      · -- A stamp below 4 over version 4: its process will stamp 4.
        have hsuffix := (h.todo i _ hi).suffix hst (hstamp ▸ nofun)
        have horder := stamp_order hsuffix (congrArg some hstamp)
        have hmem := horder.2.2.2.2.1 fun hk => h4 (hstamp.trans (congrArg Statement.stamp hk))
        have hrest : .stamp 4 ∈ rest := (List.mem_cons.mp hmem).resolve_left (Ne.symm h4)
        exact .inr (.inl ⟨i, .inl (due_ran_self store hrest)⟩)
    · exact .inr (.inl ⟨j, hdue.imp (fun hd => Due.ran hd hi (Ne.symm h4) store)
        fun hd => Due.ran hd hi hst.symm store⟩)
    · rw [hnone i] at hi
      cases hi

/-- The index of version 3 stays due to be dropped. -/
theorem indexDue_run (h : Laid s) (hi : s.openers i = some (st :: rest)) (hst : st ≠ .readVersion)
    (hs : s.store.exec stamped st = some store) : (s.ran i store rest).IndexDue := by
  intro hhas
  obtain ⟨hdrop, hwas | rfl⟩ := exec_hasSha1Tool hs hhas
  · rcases h.indexDue hwas with ⟨j, hdue⟩ | ⟨hv, hunread, -⟩
    · exact .inl ⟨j, Due.ran hdue hi hdrop.symm store⟩
    · have hmem := hunread i _ hi
      have hsame : store.userVersion = s.store.userVersion := by
        refine (exec_userVersion hs).resolve_right fun hstamp => ?_
        exact not_readVersion_mem ((h.todo i _ hi).suffix hst (hstamp ▸ nofun)) hmem
      refine .inr ⟨?_, forall_update hunread fun t ht => ?_, fun _ => ⟨i, rest, Function.update_self ..⟩⟩
      · show store.userVersion < 4
        rw [hsame]
        exact hv
      · cases ht
        exact (List.mem_cons.mp hmem).resolve_left hst.symm
  · have hsuffix := (h.todo i _ hi).suffix hst nofun
    have hmem := (inOrder hsuffix).2.2.2 rfl
    exact .inl ⟨i, due_ran_self store ((List.mem_cons.mp hmem).resolve_left nofun)⟩

theorem run (h : Laid s) (hi : s.openers i = some (st :: rest)) (hst : st ≠ .readVersion)
    (hok : st = .stamp 4 → stamped = false →
      s.store.userVersion = 4 ∨ ∃ j, j ≠ i ∧ (s.Due j (.stamp 4) ∨ s.Due j .readVersion))
    (hs : s.store.exec stamped st = some store) : Laid (s.ran i store rest) where
  toFounded := h.toFounded.run hi hst hs
  failed := h.failed
  versionDue := h.versionDue_run hi hst hok hs
  indexDue := h.indexDue_run hi hst hs
  index3 hhas := by
    obtain ⟨-, hwas | rfl⟩ := exec_hasSha1Tool hs hhas
    · exact exec_sha1Tool hs (h.index3 hwas)
    · exact exec_sha1Tool hs ((exec_createSha1Tool hs).elim h.index3 id)
  version3 h3 := by
    rcases exec_userVersion hs with hsame | hstamp
    · exact exec_collapsed hs (h.version3 (hsame ▸ h3))
    · have hsuffix := (h.todo i _ hi).suffix hst (hstamp ▸ nofun)
      have hcreate := (stamp_order hsuffix (congrArg some hstamp)).2.2.2.1 h3
      exact exec_collapsed hs (h.collapsed_of hi hsuffix hcreate)
  collapsed := by
    refine forall_update (fun j t hj => (h.collapsed j t hj).imp_left (exec_collapsed hs)) fun t ht => ?_
    cases ht
    rcases h.collapsed i _ hi with hdone | hmem | hmem
    · exact .inl (exec_collapsed hs hdone)
    · rcases List.mem_cons.mp hmem with rfl | hmem
      · exact .inl (.inr (exec_sha1Tool hs ((exec_createSha1Tool hs).elim h.index3 id)))
      · exact .inr (.inl hmem)
    · exact .inr (.inr ((List.mem_cons.mp hmem).resolve_left hst.symm))
  version2 h2 c hc := by
    rcases exec_userVersion hs with hsame | hstamp
    · exact exec_columns hs (h.version2 (hsame ▸ h2) c hc)
    · have hsuffix := (h.todo i _ hi).suffix hst (hstamp ▸ nofun)
      have halter := (stamp_order hsuffix (congrArg some hstamp)).2.1 c hc
      exact exec_columns hs (h.mem_columns hi hsuffix halter)
  version4 h4 := by
    rcases exec_userVersion hs with hsame | hstamp
    · exact exec_columns hs (h.version4 (hsame ▸ h4))
    · have hsuffix := (h.todo i _ hi).suffix hst (hstamp ▸ nofun)
      have halter := (stamp_order hsuffix (congrArg some hstamp)).2.2.1 h4
      exact exec_columns hs (h.mem_columns hi hsuffix halter)
  column := by
    refine forall_update (fun j t hj c => (h.column j t hj c).imp_left (exec_columns hs)) fun t ht c => ?_
    cases ht
    rcases h.column i _ hi c with hdone | hmem | hmem
    · exact .inl (exec_columns hs hdone)
    · rcases List.mem_cons.mp hmem with rfl | hmem
      · exact .inl (exec_alter hs)
      · exact .inr (.inl hmem)
    · exact .inr (.inr ((List.mem_cons.mp hmem).resolve_left hst.symm))

/-- What the version that was read does not promise is in the ladder. -/
theorem readVersion (h : Laid s) (hi : s.openers i = some (.readVersion :: rest)) :
    Laid (s.ran i s.store (ladder s.store.userVersion)) where
  toFounded := h.toFounded.readVersion i
  failed := h.failed
  versionDue := by
    rcases h.version_le.lt_or_eq with hlt | heq
    · exact .inr (.inl ⟨i, .inl (due_ran_self _ (mem_ladder hlt).1)⟩)
    · exact .inl heq
  indexDue hhas := by
    rcases h.version_le.lt_or_eq with hlt | heq
    · exact .inl ⟨i, due_ran_self _ (mem_ladder hlt).2.1⟩
    · rcases h.indexDue hhas with ⟨j, t, hj, hmem⟩ | ⟨hv, -⟩
      · have hne : j ≠ i := by
          rintro rfl
          obtain rfl := Option.some.inj (hi.symm.trans hj)
          rw [(h.todo j _ hi).readVersion] at hmem
          exact absurd hmem (by decide)
        exact .inl ⟨j, due_ran_of_ne _ hne ⟨t, hj, hmem⟩⟩
      · exact absurd hv heq.not_lt
  index3 := h.index3
  version3 := h.version3
  collapsed := forall_update h.collapsed fun t ht => by
    cases ht
    rcases Nat.lt_or_ge s.store.userVersion 3 with hlt | hge
    · exact .inr (.inl ((mem_ladder (hlt.trans (Nat.lt_succ_self 3))).2.2.2.1 hlt))
    · exact .inl (h.version3 hge)
  version2 := h.version2
  version4 := h.version4
  column := forall_update h.column fun t ht c => by
    cases ht
    have hc : c = .captureOrigin ∨ c ∈ v2Columns := by cases c <;> decide
    rcases hc with rfl | hc
    · rcases h.version_le.lt_or_eq with hlt | heq
      · exact .inr (.inl (mem_ladder hlt).2.2.1)
      · exact .inl (h.version4 heq)
    · rcases Nat.lt_or_ge s.store.userVersion 2 with hlt | hge
      · exact .inr (.inl ((mem_ladder (hlt.trans (by decide))).2.2.2.2 hlt c hc))
      · exact .inl (h.version2 hge c hc)

theorem start (h : Laid s) (hi : s.openers i = none) :
    Laid { s with openers := Function.update s.openers i (some [.schema, .readVersion]) } where
  toFounded := h.toFounded.start i
  failed := h.failed
  versionDue := .inr (.inl ⟨i, .inr ⟨_, Function.update_self .., by decide⟩⟩)
  indexDue hhas := by
    rcases h.indexDue hhas with ⟨j, t, hj, hmem⟩ | ⟨hv, hunread, -⟩
    · have hne : j ≠ i := by
        rintro rfl
        rw [hi] at hj
        cases hj
      exact .inl ⟨j, t, (Function.update_of_ne hne _ _).trans hj, hmem⟩
    · refine .inr ⟨hv, forall_update hunread fun t ht => ?_, fun _ => ⟨i, _, Function.update_self ..⟩⟩
      cases ht
      decide
  index3 := h.index3
  version3 := h.version3
  collapsed := forall_update h.collapsed fun t ht => by
    cases ht
    exact .inr (.inr (by decide))
  version2 := h.version2
  version4 := h.version4
  column := forall_update h.column fun t ht c => by
    cases ht
    exact .inr (.inr (by decide))

/-- A process leaves, and what it leaves is due to others. -/
theorem leave (h : Laid s) (hversion : (s.without i).VersionDue) (hindex : (s.without i).IndexDue) :
    Laid (s.without i) where
  toFounded := h.toFounded.without i
  failed := h.failed
  versionDue := hversion
  indexDue := hindex
  index3 := h.index3
  version3 := h.version3
  collapsed := forall_update h.collapsed nofun
  version2 := h.version2
  version4 := h.version4
  column := forall_update h.column nofun

/-- A process that returns a connection leaves nothing of its own undone. -/
theorem ret (h : Laid s) (hi : s.openers i = some []) :
    Laid { s.without i with connected := true, returned := true } where
  toFounded := h.toFounded.ret hi
  failed := h.failed
  versionDue := by
    rcases h.versionDue with hv | ⟨j, hdue⟩ | ⟨-, hnone⟩
    · exact .inl hv
    · refine .inr (.inl ⟨j, ?_⟩)
      exact hdue.imp (fun hd => Due.without hd hi List.not_mem_nil) fun hd => Due.without hd hi List.not_mem_nil
    · rw [hnone i] at hi
      cases hi
  indexDue hhas := by
    rcases h.indexDue hhas with ⟨j, hdue⟩ | ⟨-, hunread, -⟩
    · exact .inl ⟨j, Due.without hdue hi List.not_mem_nil⟩
    · exact absurd (hunread i [] hi) List.not_mem_nil
  index3 := h.index3
  version3 := h.version3
  collapsed := forall_update h.collapsed nofun
  version2 := h.version2
  version4 := h.version4
  column := forall_update h.column nofun

/-- A connection inserts: the index of version 4 is there, and all indexes stay in force. -/
theorem insert (h : Laid s) (hc : s.connected = true) (sha1 : List UInt8 → List UInt8) (r : Record (List UInt8)) :
    Laid { s with store := (packetDbInsert sha1 s.store r .done).1 } := by
  have hfounded := h.toFounded.insert hc sha1 r
  have hindex3 : s.store.hasSha1Tool = true → (packetDbInsert sha1 s.store r .done).1.table.Unique sha1Tool := by
    intro hhas
    exact unique_insert (h.index3 hhas) (sha1Tool_mem_indexes hhas) sha1 r .done
  have hindex := h.connected hc
  obtain ⟨table, hstore⟩ := packetDbInsert_store sha1 s.store r .done
  rw [hstore] at hfounded hindex3 ⊢
  exact {
    toFounded := hfounded
    failed := h.failed
    versionDue := h.versionDue
    indexDue := h.indexDue
    index3 := hindex3
    version3 := fun _ => .inl hindex
    collapsed := fun _ _ _ => .inl (.inl hindex)
    version2 := h.version2
    version4 := h.version4
    column := h.column }

theorem step {sha1 : List UInt8 → List UInt8} {a : Action} (h : Laid s) (hok : s.Orderly a)
    (hs : s.step sha1 a = some s') : Laid s' ∧ Keeps s.store.table s'.store.table := by
  cases State.stepped hs with
  | start hi => exact ⟨h.start hi, .refl _⟩
  | readVersion hi => exact ⟨h.readVersion hi, .refl _⟩
  | @run i stamped st rest store hi hst hexec =>
      obtain ⟨hharmless, hstamp⟩ := hok st (by rw [next, hi]; rfl)
      refine ⟨h.run hi hst hstamp hexec, ?_⟩
      show Keeps s.store.table store.table
      rcases exec_table hexec with htable | ⟨rfl, htable⟩ | ⟨-, htable, -⟩
      · rw [htable]
        exact .refl _
      · rw [htable]
        exact keeps_keepFirst hharmless
      · rw [htable]
        exact keeps_update _
  | fail hi hst hexec =>
      obtain ⟨hharmless, -⟩ := hok _ (by rw [next, hi]; rfl)
      exact absurd hexec (h.exec_ne_none hi hst hharmless)
  | ret hi => exact ⟨h.ret hi, .refl _⟩
  | stop hi => exact ⟨h.leave hok.1 hok.2, .refl _⟩
  | insert hc => exact ⟨h.insert hc sha1 _, keeps_insert _ _ _ _⟩

end Laid

/-- No stamp fails, and no process stops. -/
def State.Undisturbed (s : State) : Action → Prop
  | .run i stamped => stamped = true ∧ ∀ st ∈ s.next i, s.Harmless st
  | .stop _ => False
  | _ => True

theorem orderly_of_undisturbed (s : State) (a : Action) (h : s.Undisturbed a) : s.Orderly a := by
  cases a with
  | run i stamped =>
      obtain ⟨rfl, hharmless⟩ := h
      exact fun st hst => ⟨hharmless st hst, fun _ => nofun⟩
  | stop i => exact h.elim
  | start | ret | insert => trivial

instance (s : State) (st : Statement) : Decidable (s.Harmless st) := by
  cases st <;> unfold State.Harmless <;> infer_instance

instance (s : State) (a : Action) : Decidable (s.Undisturbed a) :=
  match a with
  | .run i _ =>
      have := Option.decidableForallMem (p := fun st => s.Harmless st) (s.next i)
      inferInstanceAs (Decidable (_ ∧ _))
  | .stop _ => .isFalse id
  | .start _ | .ret _ | .insert _ => .isTrue trivial

instance (t t' : Table Row) : Decidable (Keeps t t') := inferInstanceAs (Decidable (∀ x ∈ _, ∃ y ∈ _, _))

/-- The row of `frame`. -/
def row (run : List UInt8) : Row := ((frame run).row sha1One).get rfl

/-- A store of version 1 with the same packet from two runs. -/
def twoRuns : State where
  store := ⟨true, ⟨[(1, row (text "a")), (2, row (text "b"))], 2, by decide, by decide⟩, [], false, false, 1⟩
  openers _ := none
  connected := false
  returned := false
  failed := false

theorem stored_twoRuns : Stored 1 twoRuns where
  le := by decide
  openers _ := rfl
  returned := rfl
  failed := rfl
  created := rfl
  rows := nofun
  columns := rfl
  index3 := rfl
  index4 := rfl
  version_le := Nat.le_refl 1
  unique i hi := by
    rw [List.mem_singleton.mp hi]
    decide +kernel
  origin _ := by decide +kernel
  connected := nofun

theorem stored_initial : Stored 0 .initial where
  le := by decide
  openers _ := rfl
  returned := rfl
  failed := rfl
  created := rfl
  rows _ := rfl
  columns := rfl
  index3 := rfl
  index4 := rfl
  version_le := Nat.le_refl 0
  unique i hi := by
    rw [List.mem_singleton.mp hi]
    exact Table.unique_empty _
  origin _ x hx := absurd hx List.not_mem_nil
  connected := nofun

/-- The same frame from our own site and from SatNOGS. -/
def frameFrom (origin : String) : Record (List UInt8) :=
  { frame (text "a") with sourceRun := none, captureOrigin := some (text origin) }

end SimpleSatOps.PacketDb
