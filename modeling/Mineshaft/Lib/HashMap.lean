import Mathlib.Data.List.AList

namespace Mineshaft.Lib

/-- A hash map as an association list without repeated keys. The order of
the entries stands for one possible iteration order and carries no meaning. -/
abbrev HashMap (K V : Type) := AList (fun _ : K => V)

namespace HashMap

variable {K V : Type} [DecidableEq K]

theorem lookup_insert_eq (m : HashMap K V) (k k' : K) (v : V) :
    (m.insert k v).lookup k' = if k' = k then some v else m.lookup k' := by
  by_cases h : k' = k
  · subst h; simp
  · simp [h]

theorem lookup_erase_eq (m : HashMap K V) (k k' : K) :
    (m.erase k).lookup k' = if k' = k then none else m.lookup k' := by
  by_cases h : k' = k
  · subst h; simp
  · simp [h]

omit [DecidableEq K] in
theorem nodupKeys_filter (p : (Σ _ : K, V) → Bool) (l : List (Σ _ : K, V)) (h : l.NodupKeys) :
    (l.filter p).NodupKeys :=
  List.Nodup.sublist (List.filter_sublist.map _) h

def retain (m : HashMap K V) (p : K → V → Bool) : HashMap K V :=
  ⟨m.entries.filter (fun e => p e.1 e.2), nodupKeys_filter _ _ m.nodupKeys⟩

theorem lookup_eq_some_iff (m : HashMap K V) (k : K) (v : V) :
    m.lookup k = some v ↔ ⟨k, v⟩ ∈ m.entries :=
  AList.mem_lookup_iff

theorem eq_empty {m : HashMap K V} (h : ∀ k, m.lookup k = none) : m = ∅ := by
  apply AList.ext
  rw [AList.empty_entries]
  apply List.eq_nil_iff_forall_not_mem.mpr
  rintro ⟨k, v⟩ hm
  have hl := (lookup_eq_some_iff m k v).mpr hm
  rw [h] at hl
  cases hl

theorem lookup_retain_eq_some (m : HashMap K V) (p : K → V → Bool) (k : K) (v : V) :
    (m.retain p).lookup k = some v ↔ m.lookup k = some v ∧ p k v = true := by
  rw [lookup_eq_some_iff, lookup_eq_some_iff, retain, List.mem_filter]

def keysWhere (m : HashMap K V) (p : V → Bool) : List K :=
  (m.entries.filter (fun e => p e.2)).map (fun e => e.1)

theorem mem_keysWhere (m : HashMap K V) (p : V → Bool) (k : K) :
    k ∈ m.keysWhere p ↔ ∃ v, m.lookup k = some v ∧ p v = true := by
  constructor
  · intro h
    obtain ⟨⟨k', v⟩, he, rfl⟩ := List.mem_map.mp h
    obtain ⟨hm, hp⟩ := List.mem_filter.mp he
    exact ⟨v, (lookup_eq_some_iff m k' v).mpr hm, hp⟩
  · rintro ⟨v, hl, hp⟩
    have hm := (lookup_eq_some_iff m k v).mp hl
    exact List.mem_map.mpr ⟨⟨k, v⟩, List.mem_filter.mpr ⟨hm, hp⟩, rfl⟩

def removeAll (m : HashMap K V) (ks : List K) : HashMap K V :=
  ks.foldl (fun m k => m.erase k) m

theorem lookup_removeAll (m : HashMap K V) (ks : List K) (k : K) :
    (m.removeAll ks).lookup k = if k ∈ ks then none else m.lookup k := by
  induction ks generalizing m with
  | nil => rfl
  | cons a ks ih =>
    have h := ih (m.erase a)
    rw [lookup_erase_eq] at h
    change (removeAll (m.erase a) ks).lookup k = _
    rw [h]
    by_cases hk : k ∈ ks <;> by_cases ha : k = a <;> simp [hk, ha]

/-- A loop whose rounds each change one key, by what they find there, does to a
key what the rounds for that key do. -/
theorem lookup_foldl {E : Type} (step : HashMap K V → E → HashMap K V) (key : E → K)
    (change : E → Option V → Option V)
    (hstep : ∀ m e k, (step m e).lookup k =
      if k = key e then change e (m.lookup k) else m.lookup k)
    (es : List E) (m : HashMap K V) (k : K) :
    (es.foldl step m).lookup k =
      (es.filter (fun e => decide (key e = k))).foldl (fun v e => change e v) (m.lookup k) := by
  induction es generalizing m with
  | nil => rfl
  | cons e es ih =>
    rw [List.foldl_cons, ih, hstep]
    by_cases hk : key e = k
    · simp [hk]
    · simp [hk, Ne.symm hk]

omit [DecidableEq K] in
theorem foldl_or {E : Type} (f : E → Option V) (es : List E) (v : Option V) :
    es.foldl (fun v e => (f e).or v) v = (es.filterMap f).getLast?.or v := by
  induction es generalizing v with
  | nil => rfl
  | cons e es ih =>
    rw [List.foldl_cons, ih]
    cases he : f e with
    | none => rw [List.filterMap_cons_none he, Option.none_or]
    | some w =>
      rw [List.filterMap_cons_some he, List.getLast?_cons]
      cases (es.filterMap f).getLast? <;> rfl

theorem lookup_retain (m : HashMap K V) (p : K → V → Bool) (k : K) :
    (m.retain p).lookup k = (m.lookup k).filter (p k) := by
  ext v
  rw [lookup_retain_eq_some, Option.filter_eq_some_iff]

def len (m : HashMap K V) : Nat := m.keys.length

theorem len_erase_of_mem {m : HashMap K V} {k : K} (h : k ∈ m) :
    len (m.erase k) + 1 = m.len := by
  have hp : 0 < m.keys.length := List.length_pos_of_mem h
  rw [len, AList.keys_erase, List.length_erase_of_mem h, len]
  omega

theorem len_insert (m : HashMap K V) (k : K) (v : V) :
    len (m.insert k v) = if k ∈ m then m.len else m.len + 1 := by
  rw [len, AList.keys_insert, List.length_cons]
  split
  next h =>
    have he := len_erase_of_mem h
    rwa [len, AList.keys_erase] at he
  next h =>
    rw [List.erase_of_not_mem h, len]

def values (m : HashMap K V) : List V := m.entries.map (fun e => e.2)

theorem mem_values (m : HashMap K V) (v : V) : v ∈ m.values ↔ ∃ k, m.lookup k = some v := by
  constructor
  · intro h
    obtain ⟨⟨k, v'⟩, hm, rfl⟩ := List.mem_map.mp h
    exact ⟨k, (lookup_eq_some_iff m k v').mpr hm⟩
  · rintro ⟨k, hl⟩
    exact List.mem_map.mpr ⟨⟨k, v⟩, (lookup_eq_some_iff m k v).mp hl, rfl⟩

theorem nodup_values_map (m : HashMap K V) (key : V → K)
    (h : ∀ k v, m.lookup k = some v → key v = k) : (m.values.map key).Nodup := by
  have he : m.values.map key = m.keys := by
    rw [values, List.map_map]
    change _ = m.entries.map Sigma.fst
    apply List.map_congr_left
    rintro ⟨k, v⟩ hm
    exact h k v ((lookup_eq_some_iff m k v).mpr hm)
  rw [he]
  exact m.keys_nodup

end HashMap

end Mineshaft.Lib
