import Mathlib.Data.List.Induction
import Mathlib.Data.List.Pairwise
import Mathlib.Order.Basic
import Mathlib.Order.Lattice

/-!
# Ordered maps

A finite map from a linearly ordered key type, kept as the list of its entries in
strictly increasing key order. This is what `std::map` promises: at most one entry
a key, and iteration in key order. The order is a field of the type, so an
unordered map or one with a key twice cannot be built.

The lemmas say what setting a value does to a lookup (`find?_insert`), which entry with a
property comes first (`find?_entries_eq_some`), that a map is determined by its lookups
(`ext_find?`), where an entry with a new largest key goes (`entries_insert_of_forall_lt`),
what replacing all values does to a lookup (`find?_map`), and what the groups of a list are
(`find?_groupBy`).
-/

namespace Library

universe u v w

/-- The entries of a map: the keys increase strictly. -/
structure SortedMap (κ : Type u) (ν : Type v) [LinearOrder κ] where
  /-- The entries, in key order. -/
  entries : List (κ × ν)
  /-- The keys increase strictly. -/
  sorted : entries.Pairwise fun a b => a.1 < b.1

namespace SortedMap

variable {κ : Type u} {ν : Type v} [LinearOrder κ]

instance [DecidableEq ν] : DecidableEq (SortedMap κ ν) := fun m m' =>
  decidable_of_iff (m.entries = m'.entries) ⟨fun h => by cases m; cases m'; cases h; rfl, fun h => h ▸ rfl⟩

/-! ### Entry lists -/

/-- The value at `k` in an entry list. -/
def lookup (k : κ) : List (κ × ν) → Option ν
  | [] => none
  | e :: l => if e.1 = k then some e.2 else lookup k l

/-- Put the entry `(k, v)` in its place, replacing an entry at `k`. -/
def put (k : κ) (v : ν) : List (κ × ν) → List (κ × ν)
  | [] => [(k, v)]
  | e :: l => if k < e.1 then (k, v) :: e :: l else if k = e.1 then (k, v) :: l else e :: put k v l

theorem mem_put {k : κ} {v : ν} {e : κ × ν} {l : List (κ × ν)} (h : e ∈ put k v l) : e = (k, v) ∨ e ∈ l := by
  induction l with
  | nil => simpa [put] using h
  | cons a l ih =>
    simp only [put] at h
    split_ifs at h with h₁ h₂
    · simpa using h
    · rcases List.mem_cons.mp h with rfl | h
      · exact .inl rfl
      · exact .inr (List.mem_cons_of_mem _ h)
    · rcases List.mem_cons.mp h with rfl | h
      · exact .inr List.mem_cons_self
      · exact (ih h).imp_right (List.mem_cons_of_mem _)

theorem sorted_put {k : κ} {v : ν} {l : List (κ × ν)} (h : l.Pairwise fun a b => a.1 < b.1) :
    (put k v l).Pairwise fun a b => a.1 < b.1 := by
  induction l with
  | nil => simp [put]
  | cons e l ih =>
    obtain ⟨he, hl⟩ := List.pairwise_cons.mp h
    simp only [put]
    split_ifs with h₁ h₂
    · refine List.pairwise_cons.mpr ⟨fun a ha => ?_, h⟩
      rcases List.mem_cons.mp ha with rfl | ha
      · exact h₁
      · exact h₁.trans (he a ha)
    · subst h₂
      exact List.pairwise_cons.mpr ⟨he, hl⟩
    · refine List.pairwise_cons.mpr ⟨fun a ha => ?_, ih hl⟩
      rcases mem_put ha with rfl | ha
      · exact lt_of_le_of_ne (not_lt.mp h₁) (Ne.symm h₂)
      · exact he a ha

theorem lookup_put (k k' : κ) (v : ν) (l : List (κ × ν)) :
    lookup k' (put k v l) = if k = k' then some v else lookup k' l := by
  induction l with
  | nil => simp [put, lookup]
  | cons e l ih =>
    by_cases h₁ : k < e.1
    · rw [put, if_pos h₁, lookup]
    by_cases h₂ : k = e.1
    · rw [put, if_neg h₁, if_pos h₂, lookup, lookup, ← h₂]
      split_ifs <;> rfl
    · rw [put, if_neg h₁, if_neg h₂, lookup, lookup, ih]
      by_cases h₃ : e.1 = k'
      · rw [if_pos h₃, if_neg (h₃ ▸ h₂), if_pos h₃]
      · rw [if_neg h₃, if_neg h₃]

theorem lookup_eq_some {k : κ} {v : ν} {l : List (κ × ν)} (hl : l.Pairwise fun a b => a.1 < b.1) :
    lookup k l = some v ↔ (k, v) ∈ l := by
  induction l with
  | nil => simp [lookup]
  | cons e l ih =>
    obtain ⟨k', v'⟩ := e
    obtain ⟨he, htl⟩ := List.pairwise_cons.mp hl
    by_cases h : k' = k
    · subst h
      simp only [lookup, ↓reduceIte, Option.some.injEq, List.mem_cons, Prod.mk.injEq, true_and]
      refine ⟨fun h => .inl h.symm, fun h => h.elim Eq.symm fun h => ?_⟩
      exact absurd (he _ h) (lt_irrefl _)
    · simp [lookup, h, ih htl, Ne.symm h]

theorem ext_lookup {l l' : List (κ × ν)} (hl : l.Pairwise fun a b => a.1 < b.1)
    (hl' : l'.Pairwise fun a b => a.1 < b.1) (h : ∀ k, lookup k l = lookup k l') : l = l' := by
  refine List.Perm.eq_of_pairwise (fun a b _ _ h₁ h₂ => absurd h₁ h₂.asymm) hl hl' ?_
  refine (List.perm_ext_iff_of_nodup (hl.imp fun h e => absurd (e ▸ h) (lt_irrefl _))
    (hl'.imp fun h e => absurd (e ▸ h) (lt_irrefl _))).mpr fun e => ?_
  rw [← lookup_eq_some hl, ← lookup_eq_some hl', h]

/-! ### Maps -/

/-- The map with no entry. -/
def empty : SortedMap κ ν := ⟨[], .nil⟩

instance : EmptyCollection (SortedMap κ ν) := ⟨empty⟩

instance : Inhabited (SortedMap κ ν) := ⟨empty⟩

/-- The value at `k`, if there is one. -/
def find? (m : SortedMap κ ν) (k : κ) : Option ν := lookup k m.entries

/-- Set the value at `k`. -/
def insert (m : SortedMap κ ν) (k : κ) (v : ν) : SortedMap κ ν := ⟨put k v m.entries, sorted_put m.sorted⟩

/-- The value at `k`, which is `dflt` if there was none: `operator[]`, which adds the entry. -/
def getOrInsert (m : SortedMap κ ν) (k : κ) (dflt : ν) : ν × SortedMap κ ν :=
  match m.find? k with
  | some v => (v, m)
  | none => (dflt, m.insert k dflt)

/-- The map without the entry at `k`. -/
def erase (m : SortedMap κ ν) (k : κ) : SortedMap κ ν :=
  ⟨m.entries.filter fun e => decide (e.1 ≠ k), m.sorted.filter _⟩

/-- The keys, in order. -/
def keys (m : SortedMap κ ν) : List κ := m.entries.map Prod.fst

@[simp] theorem entries_empty : (∅ : SortedMap κ ν).entries = [] := rfl

@[simp] theorem find?_empty (k : κ) : (∅ : SortedMap κ ν).find? k = none := rfl

theorem find?_insert (m : SortedMap κ ν) (k k' : κ) (v : ν) :
    (m.insert k v).find? k' = if k = k' then some v else m.find? k' := lookup_put k k' v m.entries

@[simp] theorem find?_insert_self (m : SortedMap κ ν) (k : κ) (v : ν) : (m.insert k v).find? k = some v := by
  simp [find?_insert]

theorem find?_insert_of_ne {m : SortedMap κ ν} {k k' : κ} (v : ν) (h : k ≠ k') :
    (m.insert k v).find? k' = m.find? k' := by
  simp [find?_insert, h]

theorem find?_eq_some {m : SortedMap κ ν} {k : κ} {v : ν} : m.find? k = some v ↔ (k, v) ∈ m.entries :=
  lookup_eq_some m.sorted

theorem mem_keys {m : SortedMap κ ν} {k : κ} : k ∈ m.keys ↔ ∃ v, m.find? k = some v := by
  simp [keys, find?_eq_some]

theorem find?_erase (m : SortedMap κ ν) (k k' : κ) : (m.erase k).find? k' = if k = k' then none else m.find? k' := by
  refine Option.ext fun v => ?_
  split_ifs with hk
  · simp [find?_eq_some, erase, hk]
  · simp [find?_eq_some, erase, Ne.symm hk]

/-- The first entry that meets `p` is the one with the least key. -/
theorem find?_entries_eq_some {m : SortedMap κ ν} {p : κ × ν → Bool} {k : κ} {v : ν} :
    m.entries.find? p = some (k, v) ↔
      m.find? k = some v ∧ p (k, v) ∧ ∀ k' v', m.find? k' = some v' → p (k', v') → k ≤ k' := by
  have hleast : ∀ {k v}, m.entries.find? p = some (k, v) →
      m.find? k = some v ∧ p (k, v) ∧ ∀ k' v', m.find? k' = some v' → p (k', v') → k ≤ k' := by
    intro k v h
    obtain ⟨hp, as, bs, hentries, has⟩ := List.find?_eq_some_iff_append.mp h
    refine ⟨find?_eq_some.mpr (List.mem_of_find?_eq_some h), hp, fun k' v' hfind hp' => ?_⟩
    have hmem := find?_eq_some.mp hfind
    rw [hentries] at hmem
    rcases List.mem_append.mp hmem with hmem | hmem
    · have := has _ hmem
      simp [hp'] at this
    · rcases List.mem_cons.mp hmem with heq | hmem
      · exact (Prod.mk.inj heq).1.ge
      · have hsorted := m.sorted
        rw [hentries] at hsorted
        exact ((List.pairwise_cons.mp (List.pairwise_append.mp hsorted).2.1).1 _ hmem).le
  refine ⟨hleast, fun ⟨hfind, hp, hmin⟩ => ?_⟩
  cases hsome : m.entries.find? p with
  | none =>
    have := List.find?_eq_none.mp hsome _ (find?_eq_some.mp hfind)
    exact absurd hp this
  | some e =>
    obtain ⟨k', v'⟩ := e
    obtain ⟨hfind', hp', hmin'⟩ := hleast hsome
    obtain rfl : k = k' := le_antisymm (hmin k' v' hfind' hp') (hmin' k v hfind hp)
    rw [Option.some.inj (hfind.symm.trans hfind')]

/-- Two maps with the same lookups are the same. -/
theorem ext_find? {m m' : SortedMap κ ν} (h : ∀ k, m.find? k = m'.find? k) : m = m' := by
  obtain ⟨l, hl⟩ := m
  obtain ⟨l', hl'⟩ := m'
  obtain rfl := ext_lookup hl hl' h
  rfl

/-- Setting a value that is already there changes nothing. -/
theorem insert_of_find? {m : SortedMap κ ν} {k : κ} {v : ν} (h : m.find? k = some v) : m.insert k v = m := by
  refine ext_find? fun k' => ?_
  rw [find?_insert]
  split_ifs with hk
  · exact hk ▸ h.symm
  · rfl

/-- Of two values set at one key the later one is there. -/
theorem insert_insert (m : SortedMap κ ν) (k : κ) (v v' : ν) : (m.insert k v).insert k v' = m.insert k v' := by
  refine ext_find? fun k' => ?_
  simp only [find?_insert]
  split_ifs <;> rfl

theorem getOrInsert_insert (m : SortedMap κ ν) (k : κ) (v v' : ν) :
    (m.getOrInsert k v).2.insert k v' = m.insert k v' := by
  unfold getOrInsert
  split
  · rfl
  · exact insert_insert m k v v'

/-- Values at two keys can be set in any order. -/
theorem insert_comm {m : SortedMap κ ν} {k k' : κ} (h : k ≠ k') (v v' : ν) :
    (m.insert k v).insert k' v' = (m.insert k' v').insert k v := by
  refine ext_find? fun k₀ => ?_
  simp only [find?_insert]
  by_cases hk : k = k₀
  · rw [if_neg (by rintro rfl; exact h hk), if_pos hk, if_pos hk]
  · rw [if_neg hk, if_neg hk]

/-- An entry with a key above all others goes to the end. -/
theorem entries_insert_of_forall_lt {m : SortedMap κ ν} {k : κ} (v : ν) (h : ∀ k' ∈ m.keys, k' < k) :
    (m.insert k v).entries = m.entries ++ [(k, v)] := by
  obtain ⟨l, hl⟩ := m
  simp only [insert, keys] at h ⊢
  clear hl
  induction l with
  | nil => rfl
  | cons e l ih =>
    have he : e.1 < k := h e.1 (by simp)
    simp only [put, if_neg he.asymm, if_neg he.ne', List.cons_append]
    rw [ih fun k' hk' => h k' (by simp [hk'])]

/-- The map with each value replaced. -/
def map {μ : Type w} (f : κ → ν → μ) (m : SortedMap κ ν) : SortedMap κ μ :=
  ⟨m.entries.map fun e => (e.1, f e.1 e.2), List.pairwise_map.mpr m.sorted⟩

@[simp] theorem find?_map {μ : Type w} (f : κ → ν → μ) (m : SortedMap κ ν) (k : κ) :
    (m.map f).find? k = (m.find? k).map (f k) := by
  refine Option.ext fun v => ?_
  rw [find?_eq_some, Option.map_eq_some_iff]
  constructor
  · intro hmem
    obtain ⟨e, he, heq⟩ := List.mem_map.mp hmem
    obtain ⟨rfl, rfl⟩ := Prod.mk.inj heq
    exact ⟨e.2, find?_eq_some.mpr he, rfl⟩
  · rintro ⟨v', hfind, rfl⟩
    exact List.mem_map.mpr ⟨(k, v'), find?_eq_some.mp hfind, rfl⟩

/-! ### Building maps -/

variable {α : Type w}

/-- Collect the items of a list under their keys, in the order of the list. -/
def groupBy (key : α → κ) (l : List α) : SortedMap κ (List α) :=
  l.foldl (fun m a => m.insert (key a) ((m.find? (key a)).getD [] ++ [a])) ∅

/-- The items of a list as the keys of a map, as in a `std::set`. -/
def ofList (l : List κ) : SortedMap κ Unit := l.foldl (fun m k => m.insert k ()) ∅

/-- The group of `k` holds the items with that key; no item, no group. -/
theorem find?_groupBy [BEq κ] [LawfulBEq κ] (key : α → κ) (l : List α) (k : κ) :
    (groupBy key l).find? k =
      if l.filter (fun a => key a == k) = [] then none else some (l.filter fun a => key a == k) := by
  induction l using List.reverseRecOn with
  | nil => rfl
  | append_singleton l a ih =>
    have hcons : groupBy key (l ++ [a]) =
        (groupBy key l).insert (key a) (((groupBy key l).find? (key a)).getD [] ++ [a]) := by
      simp [groupBy, List.foldl_append]
    rw [hcons, find?_insert, List.filter_append]
    by_cases h : key a = k
    · subst h
      rw [if_pos rfl, ih]
      split_ifs <;> simp_all
    · rw [if_neg h, ih]
      simp [h]

theorem mem_of_find?_groupBy {key : α → κ} {l g : List α} {k : κ} {a : α} (h : (groupBy key l).find? k = some g)
    (ha : a ∈ g) : a ∈ l ∧ key a = k := by
  classical
  rw [find?_groupBy] at h
  split_ifs at h with hne
  obtain rfl := Option.some.inj h
  simpa using ha

theorem mem_keys_insert {m : SortedMap κ ν} {k k' : κ} {v : ν} : k' ∈ (m.insert k v).keys ↔ k = k' ∨ k' ∈ m.keys := by
  simp only [mem_keys, find?_insert]
  by_cases h : k = k' <;> simp [h]

@[simp] theorem mem_keys_ofList {l : List κ} {k : κ} : k ∈ (ofList l).keys ↔ k ∈ l := by
  induction l using List.reverseRecOn with
  | nil => simp [ofList, keys]
  | append_singleton l a ih =>
    have hcons : ofList (l ++ [a]) = (ofList l).insert a () := by simp [ofList, List.foldl_append]
    rw [hcons, mem_keys_insert, ih, List.mem_append, List.mem_singleton, or_comm, eq_comm]

theorem nodup_keys (m : SortedMap κ ν) : m.keys.Nodup :=
  List.pairwise_map.mpr (m.sorted.imp ne_of_lt)

end SortedMap

end Library
