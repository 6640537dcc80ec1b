import Mathlib.Data.List.Nodup

/-!
# Tables with a primary key

A `Table` is a list of rows of which no two have the same key. The operations are those
of SQL: `insert`, which is refused when the key is there, `update`, and
`insertOrUpdate`, which updates the row with the key if there is one.

`find?_insertOrUpdate` and its like say what is found under a key afterwards. A part of a
table is the rows a filter lets through: `filter_update` says when an update leaves a part
as it is.
-/

namespace Library

universe u v

/-- Rows, no two of them with the same key. -/
structure Table (ρ : Type u) {κ : Type v} (key : ρ → κ) where
  rows : List ρ
  nodup : (rows.map key).Nodup

namespace Table

variable {ρ : Type u} {κ : Type v} {key : ρ → κ}

instance [DecidableEq ρ] : DecidableEq (Table ρ key) := fun t t' =>
  decidable_of_iff (t.rows = t'.rows) ⟨fun h => by cases t; cases t'; cases h; rfl, fun h => h ▸ rfl⟩

instance : EmptyCollection (Table ρ key) := ⟨⟨[], .nil⟩⟩

/-- The row with a key is the only one. -/
theorem eq_of_key_eq (t : Table ρ key) {r r' : ρ} (hr : r ∈ t.rows) (hr' : r' ∈ t.rows) (h : key r = key r') : r = r' :=
  List.inj_on_of_nodup_map t.nodup hr hr' h

/-- `UPDATE`: the rows that `p` holds of are changed, and keep their keys. -/
def update (t : Table ρ key) (p : ρ → Bool) (f : ρ → ρ) (hf : ∀ r, key (f r) = key r) : Table ρ key where
  rows := t.rows.map fun r => if p r then f r else r
  nodup := by
    have hkey : (key ∘ fun r => if p r then f r else r) = key := by
      funext r
      simp only [Function.comp_apply]
      split_ifs
      · exact hf r
      · rfl
    rw [List.map_map, hkey]
    exact t.nodup

theorem mem_update {t : Table ρ key} {p : ρ → Bool} {f : ρ → ρ} {hf : ∀ r, key (f r) = key r} {r : ρ} :
    r ∈ (t.update p f hf).rows ↔ ∃ r' ∈ t.rows, (if p r' then f r' else r') = r :=
  List.mem_map

variable [DecidableEq κ]

/-- `INSERT`, which is refused when there is a row with the key. -/
def insert (t : Table ρ key) (r : ρ) : Option (Table ρ key) :=
  if h : key r ∈ t.rows.map key then none
  else some ⟨t.rows ++ [r], by
    rw [List.map_append, List.map_singleton, ← List.concat_eq_append]
    exact t.nodup.concat h⟩

/-- `INSERT ... ON DUPLICATE KEY UPDATE`. -/
def insertOrUpdate (t : Table ρ key) (r : ρ) (f : ρ → ρ) (hf : ∀ r, key (f r) = key r) : Table ρ key :=
  match t.insert r with
  | some t => t
  | none => t.update (fun r' => decide (key r' = key r)) f hf

theorem insert_eq_some {t t' : Table ρ key} {r : ρ} :
    t.insert r = some t' ↔ (∀ r' ∈ t.rows, key r' ≠ key r) ∧ t'.rows = t.rows ++ [r] := by
  unfold insert
  have hmem : key r ∈ t.rows.map key ↔ ¬ ∀ r' ∈ t.rows, key r' ≠ key r := by simp
  split_ifs with h
  · simp [hmem.mp h]
  · rw [hmem, not_not] at h
    obtain ⟨rows, hnodup⟩ := t'
    simp only [Option.some.injEq, Table.mk.injEq, @eq_comm _ rows]
    exact (and_iff_right h).symm

theorem insert_eq_none {t : Table ρ key} {r : ρ} : t.insert r = none ↔ ∃ r' ∈ t.rows, key r' = key r := by
  unfold insert
  split_ifs with h
  · simpa using h
  · simpa using h

/-- The row with a key. -/
def find? (t : Table ρ key) (k : κ) : Option ρ := t.rows.find? fun r => decide (key r = k)

theorem find?_eq_some {t : Table ρ key} {k : κ} {r : ρ} : t.find? k = some r ↔ r ∈ t.rows ∧ key r = k := by
  constructor
  · intro h
    exact ⟨List.mem_of_find?_eq_some h, by simpa using List.find?_some h⟩
  · rintro ⟨hr, rfl⟩
    cases h : t.find? (key r) with
    | none =>
      have hne := List.find?_eq_none.mp h r hr
      simp at hne
    | some r' =>
      have hkey : key r' = key r := by simpa using List.find?_some h
      rw [t.eq_of_key_eq (List.mem_of_find?_eq_some h) hr hkey]

/-- The rows with a key that `p` holds of: there is one at most. -/
theorem filter_key (t : Table ρ key) (k : κ) (p : ρ → Bool) :
    t.rows.filter (fun r => decide (key r = k) && p r) = ((t.find? k).filter p).toList := by
  obtain ⟨rows, hnodup⟩ := t
  unfold find?
  dsimp only
  induction rows with
  | nil => rfl
  | cons r rows ih =>
    obtain ⟨hr, hrows⟩ := List.nodup_cons.mp hnodup
    rw [List.filter_cons, List.find?_cons]
    by_cases hk : key r = k
    · subst hk
      have hnil : rows.filter (fun r' => decide (key r' = key r) && p r') = [] := by
        rw [List.filter_eq_nil_iff]
        intro r' hr' h
        rw [Bool.and_eq_true, decide_eq_true_eq] at h
        exact hr (h.1 ▸ List.mem_map_of_mem hr')
      rw [hnil]
      cases hp : p r <;> simp [Option.filter, hp]
    · simp [hk, ih hrows]

/-- What `insertOrUpdate` does: the row is added, or the one with its key updated. -/
theorem insertOrUpdate_cases (t : Table ρ key) (r : ρ) (f : ρ → ρ) (hf : ∀ r, key (f r) = key r) :
    ((∀ r' ∈ t.rows, key r' ≠ key r) ∧ (t.insertOrUpdate r f hf).rows = t.rows ++ [r]) ∨
      ((∃ r' ∈ t.rows, key r' = key r) ∧
        t.insertOrUpdate r f hf = t.update (fun r' => decide (key r' = key r)) f hf) := by
  unfold insertOrUpdate
  split
  · next t' h => exact .inl (insert_eq_some.mp h)
  · next h => exact .inr ⟨insert_eq_none.mp h, rfl⟩

/-! ### Looking up after a change -/

theorem find?_update (t : Table ρ key) (p : ρ → Bool) (f : ρ → ρ) (hf : ∀ r, key (f r) = key r) (k : κ) :
    (t.update p f hf).find? k = (t.find? k).map fun r => if p r then f r else r := by
  have hkey : ((fun r => decide (key r = k)) ∘ fun r => if p r then f r else r) = fun r => decide (key r = k) := by
    funext r
    simp only [Function.comp_apply]
    split_ifs
    · rw [hf]
    · rfl
  rw [find?, update, List.find?_map, hkey, find?]

/-- The row with one key is changed. -/
theorem find?_update_key (t : Table ρ key) (k' : κ) (f : ρ → ρ) (hf : ∀ r, key (f r) = key r) (k : κ) :
    (t.update (fun r => decide (key r = k')) f hf).find? k = if k = k' then (t.find? k).map f else t.find? k := by
  rw [find?_update]
  cases hfind : t.find? k with
  | none => simp
  | some r =>
    obtain ⟨-, rfl⟩ := find?_eq_some.mp hfind
    by_cases hk : key r = k' <;> simp [hk]

theorem find?_of_insert {t t' : Table ρ key} {r : ρ} (h : t.insert r = some t') (k : κ) :
    t'.find? k = if k = key r then some r else t.find? k := by
  obtain ⟨hnew, hrows⟩ := insert_eq_some.mp h
  have hnone : t.rows.find? (fun r' => decide (key r' = key r)) = none := by
    simpa [List.find?_eq_none] using hnew
  rw [find?, hrows, List.find?_append, find?]
  by_cases hk : k = key r
  · subst hk
    simp [hnone]
  · simp [hk, Ne.symm hk]

theorem find?_insertOrUpdate (t : Table ρ key) (r : ρ) (f : ρ → ρ) (hf : ∀ r, key (f r) = key r) (k : κ) :
    (t.insertOrUpdate r f hf).find? k = if k = key r then some ((t.find? k).elim r f) else t.find? k := by
  unfold insertOrUpdate
  cases h : t.insert r with
  | some t' =>
    have hnone : t.find? (key r) = none := by
      simpa [find?, List.find?_eq_none] using (insert_eq_some.mp h).1
    rw [find?_of_insert h]
    split_ifs with hk
    · rw [hk, hnone, Option.elim_none]
    · rfl
  | none =>
    obtain ⟨r', hr', hkey⟩ := insert_eq_none.mp h
    have hsome : t.find? (key r) = some r' := find?_eq_some.mpr ⟨hr', hkey⟩
    rw [find?_update_key]
    split_ifs with hk
    · rw [hk, hsome, Option.map_some, Option.elim_some]
    · rfl

/-- A row is refused just when there is one with its key. -/
theorem insert_eq_none_iff_find? {t : Table ρ key} {r : ρ} : t.insert r = none ↔ t.find? (key r) ≠ none := by
  rw [insert_eq_none, Option.ne_none_iff_exists']
  simp only [find?_eq_some]

/-! ### Parts of a table -/

omit [DecidableEq κ] in
/-- A part that none of the updated rows is in, before or after. -/
theorem filter_update {t : Table ρ key} {p q : ρ → Bool} {f : ρ → ρ} (hf : ∀ r, key (f r) = key r)
    (hq : ∀ r ∈ t.rows, p r → q r = false ∧ q (f r) = false) :
    (t.update p f hf).rows.filter q = t.rows.filter q := by
  have hmap : ∀ rows : List ρ, (∀ r ∈ rows, p r → q r = false ∧ q (f r) = false) →
      (rows.map fun r => if p r then f r else r).filter q = rows.filter q := by
    intro rows
    induction rows with
    | nil => exact fun _ => rfl
    | cons r rows ih =>
      intro hrows
      obtain ⟨hr, hrest⟩ := List.forall_mem_cons.mp hrows
      rw [List.map_cons, List.filter_cons, List.filter_cons, ih hrest]
      by_cases hp : p r
      · simp [hp, hr hp]
      · simp [hp]
  exact hmap t.rows hq

end Table

end Library
