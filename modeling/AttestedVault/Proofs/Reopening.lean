import AttestedVault.Host.Fleet
import AttestedVault.Proofs.History
import AttestedVault.Proofs.Simulation
import AttestedVault.Store.Open

/-!
# A table that is opened again

A file that was opened before holds the table of records and its index already. Read
through its definition, the table answers every call as the one that was kept, so
that managers of the file do what managers of a store in a table do.
-/

namespace AttestedVault

open Database

/-! ## Consistent rows -/

namespace TableRow

/-- The row, no longer active if it is the active one with this id. -/
def retireNamed (previous : String) (q : TableRow) : TableRow :=
  if TableStore.named previous q then { q with active := some 0 } else q

@[simp] theorem id_retireNamed (previous : String) (q : TableRow) : (q.retireNamed previous).id = q.id := by
  unfold retireNamed
  split <;> rfl

@[simp] theorem isActive_retireNamed (previous : String) (q : TableRow) :
    (q.retireNamed previous).isActive = (!TableStore.named previous q && q.isActive) := by
  unfold retireNamed
  cases TableStore.named previous q <;> simp [isActive]

end TableRow

namespace TableStore

variable {rows : List TableRow}

theorem length_filter_isActive : (rows.filter (·.isActive)).length ≤ 1 ↔
    rows.Pairwise fun a b => (a.isActive && b.isActive) = false := by
  induction rows with
  | nil => simp
  | cons row rows ih =>
    cases h : row.isActive
    · simp [h, ih]
    · simp only [List.filter_cons, h, if_true, List.length_cons, List.pairwise_cons, Bool.true_and, ← ih]
      have hz : (rows.filter (·.isActive)).length = 0 ↔ ∀ a ∈ rows, a.isActive = false := by
        simp [List.filter_eq_nil_iff]
      rw [← hz]
      omega

theorem consistent_iff : consistent rows = true ↔
    rows.Pairwise fun a b => (a.id == b.id) = false ∧ (a.isActive && b.isActive) = false := by
  simp [consistent, List.Nodup, List.pairwise_map, ← List.pairwise_and_iff, length_filter_isActive]

theorem consistent_create {r : KeyRecord} (h : consistent rows = true)
    (hr : (rows.any fun q => q.isActive || q.id == r.id) = false) :
    consistent (rows ++ [TableRow.ofRecord r]) = true := by
  rw [consistent_iff] at h ⊢
  rw [List.any_eq_false] at hr
  refine List.pairwise_append.mpr ⟨h, List.pairwise_singleton .., fun q hq x hx => ?_⟩
  obtain rfl := List.mem_singleton.mp hx
  have hq := hr q hq
  simp_all [TableRow.ofRecord]

theorem consistent_retire (h : consistent rows = true) (previous : String) :
    consistent (rows.map (·.retireNamed previous)) = true := by
  rw [consistent_iff] at h ⊢
  refine List.pairwise_map.mpr (h.imp fun {a b} hab => ?_)
  rw [TableRow.id_retireNamed, TableRow.id_retireNamed, TableRow.isActive_retireNamed, TableRow.isActive_retireNamed]
  refine ⟨hab.1, ?_⟩
  cases ha : a.isActive <;> cases hb : b.isActive <;> simp_all

theorem any_named_iff (h : consistent rows = true) (previous : String) :
    rows.any (named previous) = true ↔ (rows.filter (named previous)).length = 1 := by
  have hle : (rows.filter (named previous)).length ≤ 1 := by
    simp only [consistent, Bool.and_eq_true, decide_eq_true_eq] at h
    have hf : rows.filter (named previous) = (rows.filter (·.isActive)).filter (·.id == previous) := by
      rw [List.filter_filter]
      exact List.filter_congr fun q _ => Bool.and_comm ..
    rw [hf]
    exact Nat.le_trans (List.length_filter_le ..) h.2
  have hz : rows.any (named previous) = true ↔ (rows.filter (named previous)).length ≠ 0 := by
    simp [List.filter_eq_nil_iff]
  rw [hz]
  omega

end TableStore

namespace FoundTable

/-! ## The store's own definition -/

def ownColumn (name : String) : Column := ⟨name, .text, true, .null, false⟩

/-- What the statement that makes the table says. -/
def own : TableDefinition where
  columns := [{ ownColumn "id" with required := false }, ownColumn "encrypted_dek", ownColumn "iv",
    ownColumn "auth_tag", ownColumn "key_version", ownColumn "master_key_id",
    ⟨"active", .numeric, true, .integer 0, false⟩, ownColumn "created_at"]
  keys := [⟨["id"], false⟩]
  ordered := []

theorem ofText?_ownDefinition : TableDefinition.ofText? ownDefinition = some own := by decide +kernel

/-- A row of the table as a file lists it, under its number. -/
def listed (p : Int × TableRow) : Int × List Cell := (p.1, p.2.cells.map (·.2))

/-- The table of the file is the store's own, with the index that admits one active
record, and lists these rows. -/
structure Mirrors (t : FoundTable) (s : TableStore) : Prop where
  definition : t.definition = own
  keys : t.keys = own.keys ++ [singleActive]
  writable : t.writable = true
  rows : ∃ ps : List (Int × TableRow), t.rows = some (ps.map listed) ∧ s.rows = ps.map (·.2)
  consistent : TableStore.consistent s.rows = true

variable {t : FoundTable} {s : TableStore}

/-! ## One row -/

section

variable (ht : t.definition = own) (p q : Int × TableRow)
include ht

theorem cell_id : t.cell (listed p) "id" = .ofText p.2.id := by
  simp [cell, ht, own, ownColumn, listed, TableRow.cells]

theorem cell_active : t.cell (listed p) "active" = (p.2.active.map .integer).getD .null := by
  simp [cell, ht, own, ownColumn, listed, TableRow.cells]

theorem record_listed : t.record (listed p) = p.2.toRecord := by
  cases h : p.2.active <;>
    simp [record, TableRow.ofCells?, TableRow.toRecord, cell, ht, own, ownColumn, listed, TableRow.cells,
      Cell.ofText, Cell.toText?, Cell.toInteger?, Bytes.toText?_ofText, h]

theorem isActive_listed : t.isActive (listed p) = p.2.isActive := by
  have ha : ((t.column? "active").map (·.affinity)).getD .blob = .numeric := by
    simp [column?, ht, own, ownColumn]
  rw [isActive, cell_active ht, ha]
  cases h : p.2.active <;> simp [isOne, Affinity.toNumber, Cell.plain, TableRow.isActive, h, Bool.beq_eq_decide_eq]

theorem retire_listed : t.retire (listed p) = listed (p.1, { p.2 with active := some 0 }) := by
  simp [retire, ht, own, ownColumn, listed, TableRow.cells, Affinity.apply, Affinity.toNumber, Cell.plain]

theorem collide_id : t.collide (listed p) (listed q) ⟨["id"], false⟩ = (p.2.id == q.2.id) := by
  have hb : (Cell.ofText p.2.id == Cell.ofText q.2.id) = (p.2.id == q.2.id) := by
    simp [Bool.beq_eq_decide_eq, Cell.ofText, Bytes.ofText_injective.eq_iff]
  simp [collide, cell_id ht, Cell.plain, ← hb, Cell.ofText]

theorem collide_active : t.collide (listed p) (listed q) singleActive = (p.2.isActive && q.2.isActive) := by
  cases hp : p.2.isActive
  · simp [collide, singleActive, isActive_listed ht, hp]
  cases hq : q.2.isActive
  · simp [collide, singleActive, isActive_listed ht, hq]
  simp only [TableRow.isActive, decide_eq_true_eq] at hp hq
  simp [collide, singleActive, isActive_listed ht, cell_active ht, TableRow.isActive, hp, hq]

end

theorem fill_ofRecord (r : KeyRecord) :
    own.columns.map (fill (TableRow.ofRecord r).cells) = (TableRow.ofRecord r).cells.map (·.2) := by
  simp [own, ownColumn, fill, TableRow.cells, TableRow.ofRecord, Affinity.apply, Affinity.toNumber, Cell.plain,
    Cell.ofText, List.lookup_cons]

theorem required_ofRecord (r : KeyRecord) :
    (own.columns.any fun c => c.required && fill (TableRow.ofRecord r).cells c == .null) = false := by
  simp [own, ownColumn, fill, TableRow.cells, TableRow.ofRecord, Affinity.apply, Affinity.toNumber, Cell.plain,
    Cell.ofText, List.lookup_cons]

/-! ## Rows in order -/

theorem le_foldl_max : ∀ (l : List Int) (a : Int), a ≤ l.foldl max a ∧ ∀ x ∈ l, x ≤ l.foldl max a
  | [], a => ⟨Int.le_refl a, nofun⟩
  | b :: l, a => by
    obtain ⟨ha, hl⟩ := le_foldl_max l (max a b)
    exact ⟨Int.le_trans (Int.le_max_left a b) ha,
      List.forall_mem_cons.mpr ⟨Int.le_trans (Int.le_max_right a b) ha, hl⟩⟩

theorem newNumber_fresh (ht : t.definition = own) (values : List (String × Cell)) (rows : List (Int × List Cell)) :
    ∃ n, t.newNumber values rows = some n ∧ (rows.any fun row => row.1 == n) = false := by
  refine ⟨(rows.map (·.1)).foldl max 0 + 1, by simp [newNumber, ht, own, ownColumn], ?_⟩
  rw [List.any_eq_false]
  intro row hrow
  have hle := (le_foldl_max (rows.map (·.1)) 0).2 row.1 (List.mem_map_of_mem hrow)
  simp only [beq_iff_eq]
  omega

theorem distinct_iff {k : UniqueKey} {rows : List (Int × List Cell)} :
    t.distinct k rows = true ↔ rows.Pairwise fun a b => t.collide a b k = false := by
  induction rows with
  | nil => simp [distinct]
  | cons row rows ih => simp [distinct, ih]

/-! ## Calls -/

variable {ps : List (Int × TableRow)}

theorem select_of (ht : t.definition = own) {rows : List (Int × List Cell)} (hr : t.rows = some rows)
    {names : List String} (hn : names ⊆ TableRow.columnNames) : t.select names = .ok rows := by
  have hall : ∀ name ∈ TableRow.columnNames, (t.column? name).isSome = true := by
    simp [TableRow.columnNames, column?, ht, own, ownColumn]
  simp [select, has, hr, List.all_eq_true.mpr fun name h => hall name (hn h)]

theorem Mirrors.active? (h : t.Mirrors s) : t.active? = s.active? := by
  obtain ⟨ps, hr, hs⟩ := h.rows
  have hf : t.isActive ∘ listed = (·.isActive) ∘ Prod.snd := funext fun p => isActive_listed h.definition p
  simp only [FoundTable.active?, select_of h.definition hr (List.Subset.refl _), TableStore.active?, hs,
    List.find?_map, hf]
  cases ps.find? ((·.isActive) ∘ Prod.snd) with
  | none => rfl
  | some p => exact congrArg (Except.map some) (record_listed h.definition p)

theorem Mirrors.list (h : t.Mirrors s) : t.list = s.list := by
  obtain ⟨ps, hr, hs⟩ := h.rows
  have hf : t.record ∘ listed = TableRow.toRecord ∘ Prod.snd := funext fun p => record_listed h.definition p
  have ho : t.definition.ordered = [] := by rw [h.definition]; rfl
  simp only [FoundTable.list, ho, select_of h.definition hr (List.Subset.refl _), TableStore.list, hs,
    List.mapM_map, hf, ne_eq, not_true_eq_false, if_false]

def Agree : Except StoreError FoundTable → Except StoreError TableStore → Prop
  | .ok t, .ok s => t.Mirrors s
  | .error e, .error e' => e = e'
  | _, _ => False

theorem clashes_ofRecord (h : t.Mirrors s) (n : Int) (r : KeyRecord) :
    t.clashes (listed (n, TableRow.ofRecord r)) (ps.map listed) = ps.any fun q => q.2.isActive || q.2.id == r.id := by
  have hk : t.keys = [⟨["id"], false⟩, singleActive] := h.keys
  have hnew : (TableRow.ofRecord r).isActive = true := rfl
  have hid : (TableRow.ofRecord r).id = r.id := rfl
  simp only [clashes, hk, List.any_cons, List.any_nil, Bool.or_false, List.any_map, Function.comp_def,
    collide_id h.definition, collide_active h.definition, hnew, hid, Bool.true_and]
  rw [Bool.eq_iff_iff]
  simp only [Bool.or_eq_true, List.any_eq_true, beq_iff_eq]
  grind

theorem create_listed (h : t.Mirrors s) (hr : t.rows = some (ps.map listed)) (r : KeyRecord) : ∃ n : Int,
    t.create r = if ps.any (fun q => q.2.isActive || q.2.id == r.id) then .error .activeRecordExists
      else .ok { t with rows := some ((ps ++ [(n, TableRow.ofRecord r)]).map listed) } := by
  obtain ⟨n, hn, hfresh⟩ := newNumber_fresh h.definition (TableRow.ofRecord r).cells (ps.map listed)
  have hnumber : ((ps.map listed).any fun other => other.1 == n && t.definition.ordered == []) = false := by
    rw [h.definition]
    simpa [own] using hfresh
  have hrow : (n, own.columns.map (fill (TableRow.ofRecord r).cells)) = listed (n, TableRow.ofRecord r) :=
    congrArg (Prod.mk n) (fill_ofRecord r)
  refine ⟨n, ?_⟩
  simp only [FoundTable.create, select_of h.definition hr (List.Subset.refl _), hn]
  rw [hnumber, h.writable, h.definition, required_ofRecord, hrow, clashes_ofRecord h, List.map_append]
  rfl

theorem Mirrors.create (h : t.Mirrors s) (r : KeyRecord) : Agree (t.create r) (s.create r) := by
  obtain ⟨ps, hr, hs⟩ := h.rows
  obtain ⟨n, hn⟩ := create_listed h hr r
  have hany : (s.rows.any fun q => q.isActive || q.id == r.id) =
      ps.any fun q => q.2.isActive || q.2.id == r.id := by
    rw [hs, List.any_map]
    rfl
  rw [hn, TableStore.create, hany]
  split
  · rfl
  · rename_i hno
    refine ⟨h.definition, h.keys, h.writable, ⟨_, rfl, by simp [hs]⟩, ?_⟩
    exact TableStore.consistent_create h.consistent (hany.trans (Bool.eq_false_iff.mpr hno))

/-! ## Replacing -/

theorem distinct_listed {k : UniqueKey} {f : TableRow → TableRow → Bool}
    (hf : ∀ p q, t.collide (listed p) (listed q) k = f p.2 q.2)
    (hp : (ps.map (·.2)).Pairwise fun a b => f a b = false) : t.distinct k (ps.map listed) = true := by
  rw [distinct_iff, List.pairwise_map]
  exact (List.pairwise_map.mp hp).imp fun {p q} hpq => (hf p q).trans hpq

theorem keys_distinct (h : t.Mirrors s) (hc : TableStore.consistent (ps.map (·.2)) = true) :
    (t.keys.all fun k => t.distinct k (ps.map listed)) = true := by
  have hp := TableStore.consistent_iff.mp hc
  have hid := distinct_listed (collide_id h.definition) (hp.imp fun hab => hab.1)
  have hactive := distinct_listed (collide_active h.definition) (hp.imp fun hab => hab.2)
  rw [h.keys, own, singleActive] at *
  simp [hid, hactive]

theorem named_listed (h : t.Mirrors s) (previous : String) (p : Int × TableRow) :
    (t.isActive (listed p) && t.cell (listed p) "id" == .ofText previous) = TableStore.named previous p.2 := by
  rw [isActive_listed h.definition, cell_id h.definition]
  simp [TableStore.named, Bool.beq_eq_decide_eq, Cell.ofText, Bytes.ofText_injective.eq_iff]

theorem retire_named (h : t.Mirrors s) (previous : String) (p : Int × TableRow) :
    (if (t.isActive (listed p) && t.cell (listed p) "id" == .ofText previous) = true then t.retire (listed p)
      else listed p) = listed (p.1, p.2.retireNamed previous) := by
  rw [named_listed h, retire_listed h.definition, TableRow.retireNamed]
  split <;> rfl

def retired (previous : String) (p : Int × TableRow) : Int × TableRow := (p.1, p.2.retireNamed previous)

theorem replace_listed (h : t.Mirrors s) (hr : t.rows = some (ps.map listed)) (hs : s.rows = ps.map (·.2))
    {previous : String} (hc : TableStore.consistent ((ps.map (retired previous)).map (·.2)) = true) (r : KeyRecord) :
    t.replace previous r =
      if s.rows.any (TableStore.named previous) then
        FoundTable.create { t with rows := some ((ps.map (retired previous)).map listed) } r
      else .error (.activeRecordChanged previous) := by
  have hselect : t.select ["id", "active"] = .ok (ps.map listed) :=
    select_of h.definition hr (by simp [TableRow.columnNames])
  have hwritable : ¬ (!t.writable) = true := by simp [h.writable]
  have hcount : ((ps.map listed).filter fun row => t.isActive row && t.cell row "id" == .ofText previous).length =
      (s.rows.filter (TableStore.named previous)).length := by
    simp only [hs, List.filter_map, List.length_map, Function.comp_def, named_listed h]
  have hretired : ((ps.map listed).map fun row =>
      if (t.isActive row && t.cell row "id" == .ofText previous) = true then t.retire row else row) =
      (ps.map (retired previous)).map listed := by
    simp only [List.map_map, Function.comp_def, retire_named h, retired]
  simp only [FoundTable.replace, hselect, if_neg hwritable, hcount, hretired, keys_distinct h hc, if_true]
  by_cases hany : s.rows.any (TableStore.named previous) = true
  · rw [if_pos hany, if_neg (not_not_intro ((TableStore.any_named_iff h.consistent previous).mp hany))]
  · rw [if_neg hany, if_pos (mt (TableStore.any_named_iff h.consistent previous).mpr hany)]

theorem Mirrors.replace (h : t.Mirrors s) (previous : String) (r : KeyRecord) :
    Agree (t.replace previous r) (s.replace previous r) := by
  obtain ⟨ps, hr, hs⟩ := h.rows
  have hrows : s.rows.map (·.retireNamed previous) = (ps.map (retired previous)).map (·.2) := by
    simp [hs, Function.comp_def, retired]
  have hc := TableStore.consistent_retire h.consistent previous
  have hreplace : s.replace previous r = if s.rows.any (TableStore.named previous) then
      TableStore.create ⟨s.rows.map (·.retireNamed previous)⟩ r else .error (.activeRecordChanged previous) := rfl
  rw [replace_listed h hr hs (hrows ▸ hc), hreplace]
  split
  · have hm : Mirrors { t with rows := some ((ps.map (retired previous)).map listed) }
        ⟨s.rows.map (·.retireNamed previous)⟩ :=
      ⟨h.definition, h.keys, h.writable, ⟨_, rfl, hrows⟩, hc⟩
    exact hm.create r
  · rfl

/-! ## Opening -/

/-- A file without tables gets the table of an empty store. -/
theorem mirrors_empty {i : Image} {access : Access} (ho : i.objects? = some []) (hw : i.readOnly = false)
    (hg : i.canGrow = true) (ha : access ≠ .readOnly) : ∃ t, ofImage? i access = some t ∧ t.Mirrors .empty := by
  refine ⟨⟨own, own.keys ++ [singleActive], some [], true⟩, ?_, rfl, rfl, rfl, ⟨[], rfl, rfl⟩, rfl⟩
  have hactive : (own.columns.find? fun c => c.name = "active").isSome = true := by simp [own, ownColumn]
  obtain ⟨c, hc⟩ := Option.isSome_iff_exists.mp hactive
  simp [ofImage?, ho, hw, hg, ha, made?, ofText?_ownDefinition, addIndex?, column?, hc, distinct]

/-- What the first page lists: the table, the index that comes with its primary key,
and the one that admits one active record. -/
def ownObjects (root keyRoot indexRoot : Nat) (sql indexSql : String) : List Object := [
  ⟨"table", tableName, tableName, root, sql⟩,
  ⟨"index", "sqlite_autoindex_key_records_1", tableName, keyRoot, ""⟩,
  ⟨"index", indexName, tableName, indexRoot, indexSql⟩]

/-- The file holds the rows of a table and what the store makes with it. -/
inductive Kept (i : Image) (s : TableStore) : Prop
  | intro (root keyRoot indexRoot : Nat) (sql indexSql : String) (ps : List (Int × TableRow))
      (objects : i.objects? = some (ownObjects root keyRoot indexRoot sql indexSql)) (rooted : root ≠ 0)
      (definition : TableDefinition.ofText? sql = some own) (key : UniqueKey.ofText? indexSql = some singleActive)
      (listed : i.rows? .numbered root = some (ps.map listed)) (rows : s.rows = ps.map (·.2))
      (writable : i.readOnly = false) (consistent : TableStore.consistent s.rows = true)

theorem arrange_listed (p : Int × TableRow) : arrange own (listed p).2 = (listed p).2 := by
  simp [arrange, storedColumns, own, ownColumn, listed, TableRow.cells, List.lookup_cons, Affinity.yield]

theorem ofObject?_own {i : Image} (root keyRoot indexRoot : Nat) {sql indexSql : String}
    (hsql : TableDefinition.ofText? sql = some own) (hindex : UniqueKey.ofText? indexSql = some singleActive)
    (hrows : i.rows? .numbered root = some (ps.map listed)) (hw : i.readOnly = false) :
    ofObject? i (ownObjects root keyRoot indexRoot sql indexSql) ⟨"table", tableName, tableName, root, sql⟩ =
      some ⟨own, own.keys ++ [singleActive], some (ps.map listed), true⟩ := by
  have hlower : Token.lower tableName = tableName := by decide +kernel
  have hauto : UniqueKey.ofText? "" = none := by decide +kernel
  have hordered : own.ordered = [] := rfl
  simp [ofObject?, ownObjects, hsql, hlower, hindex, hauto, hordered, hrows, hw, Function.comp_def, arrange_listed]

theorem Kept.mirrors {i : Image} {access : Access} (h : Kept i s) (ha : access ≠ .readOnly) :
    ∃ t, ofImage? i access = some t ∧ t.Mirrors s := by
  obtain ⟨root, keyRoot, indexRoot, sql, indexSql, ps, ho, hroot, hsql, hindex, hrows, hs, hw, hc⟩ := h
  have htable := ofObject?_own root keyRoot indexRoot hsql hindex hrows hw
  have hlower : Token.lower tableName = tableName ∧ Token.lower indexName = indexName ∧
      Token.lower "sqlite_autoindex_key_records_1" = "sqlite_autoindex_key_records_1" := by decide +kernel
  have hne : "sqlite_autoindex_key_records_1" ≠ tableName ∧ indexName ≠ tableName ∧ tableName ≠ indexName := by
    decide +kernel
  refine ⟨⟨own, own.keys ++ [singleActive], some (ps.map listed), true⟩, ?_, rfl, rfl, rfl, ⟨ps, rfl, hs⟩, hc⟩
  unfold ownObjects at ho htable
  simp [ofImage?, ho, htable, hlower, hne, hroot, ha]

end FoundTable

/-! ## Stores, managers, fleets -/

/-- The table of a file, and the same table as it was kept. -/
inductive Store.Reopened : Store → Store → Prop
  | intro {t : FoundTable} {s : TableStore} (mirrors : t.Mirrors s) : Reopened (.found t) (.table s)

namespace Store.Reopened

variable {u v : Store}

theorem active? (h : u.Reopened v) : u.active? = v.active? := by
  obtain ⟨h⟩ := h
  exact h.active?

theorem list (h : u.Reopened v) : u.list = v.list := by
  obtain ⟨h⟩ := h
  exact h.list

theorem settle_of_agree {t : FoundTable} {s : TableStore} {c : Store → Except StoreError Store}
    {x : Except StoreError FoundTable} {y : Except StoreError TableStore} (h : t.Mirrors s)
    (hxy : FoundTable.Agree x y) (hx : c (.found t) = x.map .found) (hy : c (.table s) = y.map .table) :
    Alike Reopened ((Store.found t).settle c) ((Store.table s).settle c) := by
  unfold Store.settle
  rw [hx, hy]
  cases x <;> cases y
  · exact ⟨congrArg Except.error hxy, .intro h⟩
  · exact hxy.elim
  · exact hxy.elim
  · exact ⟨rfl, .intro hxy⟩

theorem create (h : u.Reopened v) (r : KeyRecord) :
    Alike Reopened (u.settle (Store.create r)) (v.settle (Store.create r)) := by
  obtain ⟨h⟩ := h
  exact settle_of_agree h (h.create r) rfl rfl

theorem replace (h : u.Reopened v) (previous : String) (r : KeyRecord) :
    Alike Reopened (u.settle (Store.replace previous r)) (v.settle (Store.replace previous r)) := by
  obtain ⟨h⟩ := h
  exact settle_of_agree h (h.replace previous r) rfl rfl

theorem call (h : u.Reopened v) (c : StoreCall) : Alike Reopened (u.call c) (v.call c) := by
  cases c with
  | create r => exact ⟨congrArg (Except.map fun _ => StoreAnswer.done) (h.create r).1, (h.create r).2⟩
  | replace previous r =>
    exact ⟨congrArg (Except.map fun _ => StoreAnswer.done) (h.replace previous r).1, (h.replace previous r).2⟩
  | active => exact ⟨congrArg (Except.map StoreAnswer.record) h.active?, h⟩
  | hasActive => exact ⟨by simp only [Store.call, hasActive, h.active?], h⟩
  | list => exact ⟨congrArg (Except.map StoreAnswer.records) h.list, h⟩

/-- Whatever is called, the table of the file answers as the table that was kept. -/
theorem answers (cs : List StoreCall) (h : u.Reopened v) : u.answers cs = v.answers cs := by
  induction cs generalizing u v with
  | nil => rfl
  | cons c cs ih =>
    obtain ⟨ha, hn⟩ := h.call c
    simp only [Store.answers, ha, ih hn]

theorem after (cs : List StoreCall) (h : u.Reopened v) : (u.after cs).Reopened (v.after cs) := by
  induction cs generalizing u v with
  | nil => exact h
  | cons c cs ih => exact ih (h.call c).2

end Store.Reopened

/-- A file in which a store has left its rows is opened as the table of these rows. -/
theorem Store.open?_reopened {disk : Disk} {name path : String} {access : Access} {b : Bytes} {i : Image}
    {s : TableStore} (hn : Location.ofName? name = some (.file path access)) (hd : disk.database? path access = some b)
    (hi : Image.ofBytes? b = some i) (hk : FoundTable.Kept i s) (ha : access ≠ .readOnly) :
    ∃ st, open? disk name = some st ∧ st.Reopened (.table s) := by
  obtain ⟨t, ht, hm⟩ := hk.mirrors ha
  refine ⟨.found t, ?_, .intro hm⟩
  cases b with
  | nil => cases hi
  | cons c b => simp [open?, hn, hd, hi, ht]

def Host.Reopened (h k : Host) : Prop :=
  ∃ st, h.shared.store.Reopened st ∧ k = ⟨{ h.shared with store := st }, h.node⟩

def Fleet.Reopened (f g : Fleet) : Prop :=
  ∃ st, f.shared.store.Reopened st ∧ g = ⟨{ f.shared with store := st }, f.nodes⟩

namespace Host.Reopened

variable {h k : Host}

theorem write (hk : h.Reopened k) (fault : Option StoreError) {c : Store → Except StoreError Store}
    (hc : ∀ {u v : Store}, u.Reopened v → Alike Store.Reopened (u.settle c) (v.settle c)) :
    Alike Reopened (Host.write fault c h) (Host.write fault c k) := by
  obtain ⟨st, hst, rfl⟩ := hk
  cases fault with
  | some e => exact ⟨rfl, st, hst, rfl⟩
  | none =>
    obtain ⟨ha, hs⟩ := hc hst
    exact ⟨ha, _, hs, rfl⟩

theorem perform : Handler.Simulates Effect.any Host.Reopened Host.perform Host.perform := by
  rintro e h _ - ⟨st, hst, rfl⟩
  cases e with
  | create r => exact write ⟨st, hst, rfl⟩ _ fun h => h.create r
  | replace previous r => exact write ⟨st, hst, rfl⟩ _ fun h => h.replace previous r
  | readActive => exact ⟨by simp only [Host.perform, hst.active?], st, hst, rfl⟩
  | _ => exact ⟨rfl, st, hst, rfl⟩

/-- A manager of the file does what a manager of the table does. -/
theorem on {ε α : Type} (a : Action ε α) (hk : h.Reopened k) : Alike Reopened (a.on h) (a.on k) :=
  Prog.run_alike perform a.run.only_any hk

end Host.Reopened

theorem Fleet.Reopened.perform (n : Nat) :
    Handler.Simulates Effect.any Fleet.Reopened (Fleet.perform n) (Fleet.perform n) := by
  rintro e f _ - ⟨st, hst, rfl⟩
  have hk : (f.host n).Reopened ⟨{ f.shared with store := st }, f.nodes n⟩ := ⟨st, hst, rfl⟩
  obtain ⟨ha, st', hst', he⟩ := Host.Reopened.perform (e := e) rfl hk
  exact ⟨ha, st', hst', congrArg (Fleet.put ⟨{ f.shared with store := st }, f.nodes⟩ n) he⟩

/-- However their operations interleave, managers of the file come to the same results
as managers of the table. -/
theorem Fleet.Reopened.results {α : Type} {f g : Fleet} (h : f.Reopened g) (stop : Effect → Bool)
    (tasks : List (Task α)) (turns : List Nat) (i : Nat) :
    (Schedule.play Fleet.perform stop tasks turns f).result? i =
      (Schedule.play Fleet.perform stop tasks turns g).result? i :=
  (Schedule.Linked.play perform stop tasks turns h).result? i

end AttestedVault
