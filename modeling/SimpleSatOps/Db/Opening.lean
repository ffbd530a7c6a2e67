import SimpleSatOps.Db.PacketDb
import SimpleSatOps.Lib.Machine

/-!
# Processes on one packet store

Each `packet_db_open` runs its statements one by one, with those of other processes and the inserts of open connections
in between.

* `State`, `Action`, `State.step` : the file and the processes on it;
* `todo_cases` : what a `packet_db_open` has still to run;
* `Founded` : inserts come only once the index of version 4 is there, and it holds.
-/

namespace SimpleSatOps.PacketDb

/-- The file, and for each `packet_db_open` under way the statements it has still to run. `connected` when a connection
is open, `returned` when a `packet_db_open` has returned one, `failed` when one has returned NULL because a statement
failed. -/
structure State where
  store : Store
  openers : ℕ → Option (List Statement)
  connected : Bool
  returned : Bool
  failed : Bool

inductive Action where
  | start (i : ℕ)
  | run (i : ℕ) (stamped : Bool)
  | ret (i : ℕ)
  | stop (i : ℕ)
  | insert (r : Record (List UInt8))

namespace State

/-- A statement of process `i` is run, and others are left to it. -/
def ran (s : State) (i : ℕ) (store : Store) (rest : List Statement) : State :=
  { s with store, openers := Function.update s.openers i (some rest) }

/-- Process `i` has left `packet_db_open`. -/
def without (s : State) (i : ℕ) : State := { s with openers := Function.update s.openers i none }

def step (sha1 : List UInt8 → List UInt8) (s : State) : Action → Option State
  | .start i =>
      if s.openers i = none then
        some { s with openers := Function.update s.openers i (some [.schema, .readVersion]) }
      else none
  | .run i stamped =>
      match s.openers i with
      | some (.readVersion :: _) => some (s.ran i s.store (ladder s.store.userVersion))
      | some (st :: rest) =>
          match s.store.exec stamped st with
          | some store => some (s.ran i store rest)
          | none => some { s.without i with failed := true }
      | _ => none
  | .ret i =>
      match s.openers i with
      | some [] => some { s.without i with connected := true, returned := true }
      | _ => none
  | .stop i =>
      match s.openers i with
      | some _ => some (s.without i)
      | none => none
  | .insert r => if s.connected then some { s with store := (packetDbInsert sha1 s.store r .done).1 } else none

/-- What a step does. -/
inductive Stepped (sha1 : List UInt8 → List UInt8) (s : State) : Action → State → Prop
  | start {i : ℕ} (hi : s.openers i = none) :
      Stepped sha1 s (.start i)
        { s with openers := Function.update s.openers i (some [.schema, .readVersion]) }
  | readVersion {i : ℕ} {stamped : Bool} {rest : List Statement} (hi : s.openers i = some (.readVersion :: rest)) :
      Stepped sha1 s (.run i stamped) (s.ran i s.store (ladder s.store.userVersion))
  | run {i : ℕ} {stamped : Bool} {st : Statement} {rest : List Statement} {store : Store}
      (hi : s.openers i = some (st :: rest)) (hst : st ≠ .readVersion) (hs : s.store.exec stamped st = some store) :
      Stepped sha1 s (.run i stamped) (s.ran i store rest)
  | fail {i : ℕ} {stamped : Bool} {st : Statement} {rest : List Statement}
      (hi : s.openers i = some (st :: rest)) (hst : st ≠ .readVersion) (hs : s.store.exec stamped st = none) :
      Stepped sha1 s (.run i stamped) { s.without i with failed := true }
  | ret {i : ℕ} (hi : s.openers i = some []) :
      Stepped sha1 s (.ret i) { s.without i with connected := true, returned := true }
  | stop {i : ℕ} {t : List Statement} (hi : s.openers i = some t) : Stepped sha1 s (.stop i) (s.without i)
  | insert {r : Record (List UInt8)} (hc : s.connected = true) :
      Stepped sha1 s (.insert r) { s with store := (packetDbInsert sha1 s.store r .done).1 }

theorem stepped {sha1 : List UInt8 → List UInt8} {s s' : State} {a : Action} (h : s.step sha1 a = some s') :
    Stepped sha1 s a s' := by
  cases a with
  | start i =>
      simp only [step, Option.ite_none_right_eq_some, Option.some.injEq] at h
      obtain ⟨hi, rfl⟩ := h
      exact .start hi
  | run i stamped =>
      simp only [step] at h
      split at h
      · next hi =>
          cases h
          exact .readVersion hi
      · next st rest hne hi =>
          split at h <;> cases h
          · next hs => exact .run hi hne hs
          · next hs => exact .fail hi hne hs
      · cases h
  | ret i =>
      simp only [step] at h
      split at h <;> cases h
      next hi => exact .ret hi
  | stop i =>
      simp only [step] at h
      split at h <;> cases h
      next hi => exact .stop hi
  | insert r =>
      simp only [step, Option.ite_none_right_eq_some, Option.some.injEq] at h
      obtain ⟨hc, rfl⟩ := h
      exact .insert hc

/-- No file, and no process. -/
def initial : State := ⟨.empty, fun _ => none, false, false, false⟩

end State

/-- Process `i` opens the store undisturbed. -/
def opening (i : ℕ) : List Action := .start i :: List.replicate 19 (.run i true) ++ [.ret i]

/-! ## What is left to run -/

theorem ladder_suffix (v : ℕ) : ladder v <:+ ladder 0 := by
  match v with
  | 0 | 1 => exact List.suffix_rfl
  | 2 | 3 => decide
  | v + 4 =>
      have hladder : ladder (v + 4) = [.prepare] := by
        unfold ladder
        rw [if_neg (by omega), if_neg (by omega), if_neg (by omega)]
        rfl
      rw [hladder]
      decide

/-- What holds of every end of the ladder. -/
theorem of_suffix {P : List Statement → Prop} (h : ∀ t ∈ (ladder 0).tails, P t) {t : List Statement}
    (ht : t <:+ ladder 0) : P t :=
  h t ((List.mem_tails t (ladder 0)).mpr ht)

/-- The version was not read yet, or an end of the ladder is left. -/
def Todo (t : List Statement) : Prop := t = [.schema, .readVersion] ∨ t = [.readVersion] ∨ t <:+ ladder 0

theorem todo_ladder (v : ℕ) : Todo (ladder v) := .inr (.inr (ladder_suffix v))

theorem not_readVersion_mem {t : List Statement} (ht : t <:+ ladder 0) : .readVersion ∉ t :=
  of_suffix (P := fun t => .readVersion ∉ t) (by decide) ht

theorem Todo.tail {st : Statement} {rest : List Statement} (h : Todo (st :: rest)) (hst : st ≠ .readVersion) :
    Todo rest := by
  rcases h with h | h | h
  · rw [List.cons.injEq] at h
    exact .inr (.inl h.2)
  · rw [List.cons.injEq] at h
    exact absurd h.1 hst
  · exact .inr (.inr ((List.suffix_cons st rest).trans h))

/-- A statement of the ladder is run. -/
theorem Todo.suffix {st : Statement} {rest : List Statement} (h : Todo (st :: rest)) (hst : st ≠ .readVersion)
    (hschema : st ≠ .schema) : (st :: rest) <:+ ladder 0 := by
  rcases h with h | h | h
  · rw [List.cons.injEq] at h
    exact absurd h.1 hschema
  · rw [List.cons.injEq] at h
    exact absurd h.1 hst
  · exact h

/-- What is left when process `i` has something else to run. -/
theorem forall_update {f : ℕ → Option (List Statement)} {Q : List Statement → Prop} {i : ℕ}
    {x : Option (List Statement)} (h : ∀ j t, f j = some t → Q t) (hx : ∀ t, x = some t → Q t) :
    ∀ j t, Function.update f i x j = some t → Q t := by
  intro j t hj
  rcases eq_or_ne j i with rfl | hne
  · rw [Function.update_self] at hj
    exact hx t hj
  · rw [Function.update_of_ne hne] at hj
    exact h j t hj

/-! ## The index of version 4 -/

section Exec
variable {s s' : Store} {stamped : Bool} {st : Statement}

/-- The index of version 4 is never dropped. -/
theorem exec_hasSha1ToolOrigin (h : s.exec stamped st = some s') (hs : s.hasSha1ToolOrigin = true) :
    s'.hasSha1ToolOrigin = true := by
  cases st <;> simp only [Store.exec] at h
  case createSha1Tool | backfillOrigin | createSha1ToolOrigin | prepare =>
    split at h <;> cases h
    all_goals first | exact hs | rfl
  case schema | alter | stamp =>
    cases h
    split <;> exact hs
  all_goals
    cases h
    exact hs

theorem exec_createSha1ToolOrigin (h : s.exec stamped .createSha1ToolOrigin = some s') :
    s'.hasSha1ToolOrigin = true := by
  simp only [Store.exec] at h
  split at h <;> cases h
  rfl

theorem exec_unique (h : s.exec stamped st = some s')
    (hs : s.hasSha1ToolOrigin = true → s.table.Unique sha1ToolOrigin) :
    s'.hasSha1ToolOrigin = true → s'.table.Unique sha1ToolOrigin := by
  cases st <;> simp only [Store.exec] at h
  case schema | alter | stamp =>
    cases h
    split <;> exact hs
  case deleteDuplicates =>
    cases h
    exact fun hindex => (hs hindex).keepFirst _
  case createSha1Tool | prepare =>
    split at h <;> cases h
    exact hs
  case backfillOrigin =>
    split at h <;> cases h
    next hok => exact hok.2
  case createSha1ToolOrigin =>
    split at h <;> cases h
    next hok => exact fun _ => hok.2.elim hs id
  case readVersion | dropSha1Tool =>
    cases h
    exact hs

/-- What a statement does to the rows. -/
theorem exec_table (h : s.exec stamped st = some s') :
    s'.table = s.table ∨
      (st = .deleteDuplicates ∧ s'.table = s.table.keepFirst fun r => (r.payloadSha1, r.sourceTool)) ∨
      (st = .backfillOrigin ∧ s'.table = s.table.update Row.backfill ∧ s'.hasSha1ToolOrigin = s.hasSha1ToolOrigin ∧
        (s.hasSha1ToolOrigin = true → s'.table.Unique sha1ToolOrigin)) := by
  cases st <;> simp only [Store.exec] at h
  case schema | alter | stamp =>
    cases h
    split <;> exact .inl rfl
  case deleteDuplicates =>
    cases h
    exact .inr (.inl ⟨rfl, rfl⟩)
  case backfillOrigin =>
    split at h <;> cases h
    next hok => exact .inr (.inr ⟨rfl, rfl, rfl, hok.2⟩)
  case createSha1Tool | createSha1ToolOrigin | prepare =>
    split at h <;> cases h
    exact .inl rfl
  case readVersion | dropSha1Tool =>
    cases h
    exact .inl rfl

/-- Only a stamp changes the version. -/
theorem exec_userVersion (h : s.exec stamped st = some s') :
    s'.userVersion = s.userVersion ∨ st = .stamp s'.userVersion := by
  cases st <;> simp only [Store.exec] at h
  case createSha1Tool | backfillOrigin | createSha1ToolOrigin | prepare =>
    split at h <;> cases h
    exact .inl rfl
  case schema | alter =>
    cases h
    split <;> exact .inl rfl
  case stamp version =>
    cases h
    split
    · exact .inr rfl
    · exact .inl rfl
  all_goals
    cases h
    exact .inl rfl

end Exec

theorem sha1Tool_mem_indexes {s : Store} (h : s.hasSha1Tool = true) : sha1Tool ∈ s.indexes := by
  unfold Store.indexes
  rw [if_pos h]
  simp

theorem sha1ToolOrigin_mem_indexes {s : Store} (h : s.hasSha1ToolOrigin = true) : sha1ToolOrigin ∈ s.indexes := by
  unfold Store.indexes
  rw [if_pos h]
  simp

theorem unique_insert {s : Store} {i : Index Row (List UInt8)} (h : s.table.Unique i) (hi : i ∈ s.indexes)
    (sha1 : List UInt8 → List UInt8) (r : Record (List UInt8)) (rc : Rc) :
    (packetDbInsert sha1 s r rc).1.table.Unique i := by
  unfold packetDbInsert
  split
  · cases rc with
    | done =>
        show (s.insertRow (r.row sha1)).table.Unique i
        cases r.row sha1 with
        | none => exact h.skip
        | some row => exact h.insertOrIgnore hi
    | busy | error => exact h
  · exact h

/-- An insert changes the table only. -/
theorem packetDbInsert_store (sha1 : List UInt8 → List UInt8) (s : Store) (r : Record (List UInt8)) (rc : Rc) :
    ∃ table, (packetDbInsert sha1 s r rc).1 = { s with table } := by
  unfold packetDbInsert
  split
  · cases rc with
    | done =>
        show ∃ table, s.insertRow (r.row sha1) = { s with table }
        cases r.row sha1 with
        | none => exact ⟨_, rfl⟩
        | some row => exact ⟨_, rfl⟩
    | busy | error => exact ⟨s.table, rfl⟩
  · exact ⟨s.table, rfl⟩

theorem createSha1ToolOrigin_mem_ladder {v : ℕ} (h : v < 4) : .createSha1ToolOrigin ∈ ladder v := by
  interval_cases v <;> decide

theorem stamp_le {v : ℕ} (h : .stamp v ∈ ladder 0) : v ≤ 4 := by
  have hv : v = 2 ∨ v = 3 ∨ v = 4 := by
    simpa [ladder, MIGRATION_V2_ALTERS, MIGRATION_V3_STEPS, MIGRATION_V4_STEPS] using h
  omega

/-- There are inserts only once the index of version 4 is there, and then it holds. -/
structure Founded (s : State) : Prop where
  todo : ∀ i t, s.openers i = some t → Todo t
  version_le : s.store.userVersion ≤ 4
  version : s.store.userVersion = 4 → s.store.hasSha1ToolOrigin = true
  index : ∀ i t, s.openers i = some t →
    s.store.hasSha1ToolOrigin = true ∨ .createSha1ToolOrigin ∈ t ∨ .readVersion ∈ t
  connected : s.connected = true → s.store.hasSha1ToolOrigin = true
  unique : s.store.hasSha1ToolOrigin = true → s.store.table.Unique sha1ToolOrigin

theorem founded_initial : Founded .initial where
  todo := nofun
  version_le := Nat.zero_le 4
  version := nofun
  index := nofun
  connected := nofun
  unique := nofun

namespace Founded
variable {s s' : State} {i : ℕ}

/-- A process leaves. -/
theorem without (h : Founded s) (i : ℕ) : Founded (s.without i) where
  todo := forall_update h.todo nofun
  version_le := h.version_le
  version := h.version
  index := forall_update h.index nofun
  connected := h.connected
  unique := h.unique

theorem start (h : Founded s) (i : ℕ) :
    Founded { s with openers := Function.update s.openers i (some [.schema, .readVersion]) } where
  todo := forall_update h.todo fun t ht => by
    cases ht
    exact .inl rfl
  version_le := h.version_le
  version := h.version
  index := forall_update h.index fun t ht => by
    cases ht
    exact .inr (.inr (by decide))
  connected := h.connected
  unique := h.unique

theorem readVersion (h : Founded s) (i : ℕ) : Founded (s.ran i s.store (ladder s.store.userVersion)) where
  todo := forall_update h.todo fun t ht => by
    cases ht
    exact todo_ladder _
  version_le := h.version_le
  version := h.version
  index := forall_update h.index fun t ht => by
    cases ht
    rcases h.version_le.lt_or_eq with hlt | heq
    · exact .inr (.inl (createSha1ToolOrigin_mem_ladder hlt))
    · exact .inl (h.version heq)
  connected := h.connected
  unique := h.unique

/-- Version 4 is stamped behind the index. -/
theorem stamp (h : Founded s) {rest : List Statement} (hi : s.openers i = some (.stamp 4 :: rest)) :
    s.store.hasSha1ToolOrigin = true := by
  have hsuffix := (h.todo i _ hi).suffix nofun nofun
  have hbehind :=
    of_suffix (P := fun t => t.head? = some (.stamp 4) → .createSha1ToolOrigin ∉ t) (by decide) hsuffix rfl
  rcases h.index i _ hi with hindex | hmem | hmem
  · exact hindex
  · exact absurd hmem hbehind
  · exact absurd hmem (not_readVersion_mem hsuffix)

theorem run (h : Founded s) {st : Statement} {rest : List Statement} {stamped : Bool} {store : Store}
    (hi : s.openers i = some (st :: rest)) (hst : st ≠ .readVersion) (hs : s.store.exec stamped st = some store) :
    Founded (s.ran i store rest) where
  todo := forall_update h.todo fun t ht => by
    cases ht
    exact (h.todo i _ hi).tail hst
  version_le := by
    rcases exec_userVersion hs with hv | rfl
    · exact hv ▸ h.version_le
    · have hsuffix := (h.todo i _ hi).suffix nofun nofun
      exact stamp_le (hsuffix.subset List.mem_cons_self)
  version hv := by
    rcases exec_userVersion hs with hsame | rfl
    · exact exec_hasSha1ToolOrigin hs (h.version (hsame ▸ hv))
    · have hv : store.userVersion = 4 := hv
      rw [hv] at hi
      exact exec_hasSha1ToolOrigin hs (h.stamp hi)
  index := by
    refine forall_update (fun j t hj => (h.index j t hj).imp_left (exec_hasSha1ToolOrigin hs)) fun t ht => ?_
    cases ht
    rcases h.index i _ hi with hindex | hmem | hmem
    · exact .inl (exec_hasSha1ToolOrigin hs hindex)
    · rcases List.mem_cons.mp hmem with rfl | hmem
      · exact .inl (exec_createSha1ToolOrigin hs)
      · exact .inr (.inl hmem)
    · exact .inr (.inr ((List.mem_cons.mp hmem).resolve_left hst.symm))
  connected hc := exec_hasSha1ToolOrigin hs (h.connected hc)
  unique := exec_unique hs h.unique

theorem insert (h : Founded s) (hc : s.connected = true) (sha1 : List UInt8 → List UInt8)
    (r : Record (List UInt8)) : Founded { s with store := (packetDbInsert sha1 s.store r .done).1 } := by
  have hunique := unique_insert (h.unique (h.connected hc)) (sha1ToolOrigin_mem_indexes (h.connected hc)) sha1 r .done
  obtain ⟨table, hstore⟩ := packetDbInsert_store sha1 s.store r .done
  rw [hstore] at hunique ⊢
  exact ⟨h.todo, h.version_le, h.version, h.index, h.connected, fun _ => hunique⟩

/-- A process that has nothing left returns a connection. -/
theorem ret (h : Founded s) (hi : s.openers i = some []) :
    Founded { s.without i with connected := true, returned := true } := by
  have hindex : s.store.hasSha1ToolOrigin = true := (h.index i [] hi).resolve_right (by simp)
  have hleft := h.without i
  exact ⟨hleft.todo, hleft.version_le, hleft.version, hleft.index, fun _ => hindex, hleft.unique⟩

theorem step {sha1 : List UInt8 → List UInt8} {a : Action} (h : Founded s) (hs : s.step sha1 a = some s') :
    Founded s' := by
  cases State.stepped hs with
  | start hi => exact h.start _
  | readVersion hi => exact h.readVersion _
  | run hi hst hexec => exact h.run hi hst hexec
  | @fail i =>
      have hleft := h.without i
      exact ⟨hleft.todo, hleft.version_le, hleft.version, hleft.index, hleft.connected, hleft.unique⟩
  | ret hi => exact h.ret hi
  | stop hi => exact h.without _
  | insert hc => exact h.insert hc sha1 _

end Founded

end SimpleSatOps.PacketDb
