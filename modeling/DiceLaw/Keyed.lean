/-!
# Keyed lists

Values under keys, in the order in which the keys first came.

## Main definitions

* `Keyed`: pairs of a key and a value
* `Keyed.get?`, `Keyed.put`, `Keyed.erase`: looking up, putting and taking out
* `Keyed.ofPairs`: values put one after the other
* `Keyed.keys`: the keys alone

## Main results

* `Keyed.get?_put_self`, `Keyed.get?_put_of_ne`, `Keyed.get?_erase_self`: what is found afterwards
* `Keyed.get?_of_mem`, `Keyed.mem_of_get?`: where no key stands twice, the pairs are what is found
* `Keyed.mem_keys_put`, `Keyed.nodup_keys_put`: the keys afterwards
* `Keyed.ofPairs_of_nodup`: pairs in which no key stands twice
-/

namespace DiceLaw

/-- Values under keys. -/
abbrev Keyed (α : Type) := List (String × α)

namespace Keyed

variable {α : Type}

/-- The value under a key. -/
def get? (key : String) : Keyed α → Option α
  | [] => none
  | (k, v) :: rest => if k = key then some v else get? key rest

/-- Puts a value under a key: in the place of the key, or at the end. -/
def put (key : String) (value : α) : Keyed α → Keyed α
  | [] => [(key, value)]
  | (k, v) :: rest => if k = key then (key, value) :: rest else (k, v) :: put key value rest

/-- Takes a key out. -/
def erase (key : String) (entries : Keyed α) : Keyed α := entries.filter fun e => e.1 != key

/-- Values put one after the other; the last value of a key is kept, in the place of its first. -/
def ofPairs (pairs : List (String × α)) : Keyed α :=
  pairs.foldl (fun entries e => put e.1 e.2 entries) []

@[simp] theorem get?_nil (key : String) : get? key ([] : Keyed α) = none := rfl

@[simp] theorem get?_put_self (key : String) (value : α) (entries : Keyed α) :
    get? key (put key value entries) = some value := by
  induction entries with
  | nil => simp [put, get?]
  | cons e rest ih =>
    simp only [put]
    split
    · simp [get?]
    · rename_i h; simp [get?, h, ih]

theorem get?_put_of_ne {key other : String} (h : other ≠ key) (value : α) (entries : Keyed α) :
    get? other (put key value entries) = get? other entries := by
  induction entries with
  | nil => simp [put, get?, h.symm]
  | cons e rest ih =>
    simp only [put]
    split
    · rename_i hk; simp [get?, hk, h.symm]
    · simp [get?, ih]

@[simp] theorem get?_erase_self (key : String) (entries : Keyed α) :
    get? key (erase key entries) = none := by
  induction entries with
  | nil => rfl
  | cons e rest ih =>
    by_cases hk : e.1 = key
    · simpa [erase, hk] using ih
    · have hcons : erase key (e :: rest) = e :: erase key rest := by simp [erase, hk]
      rw [hcons, get?, if_neg hk, ih]

/-! ## Keys -/

section Keys

variable {key : String} {value : α} {entries : Keyed α}

/-- The keys, in order. -/
def keys (entries : Keyed α) : List String := entries.map Prod.fst

theorem mem_of_get? (h : get? key entries = some value) : (key, value) ∈ entries := by
  induction entries with
  | nil => cases h
  | cons e rest ih =>
    rw [get?] at h
    split at h
    · rename_i hkey
      obtain rfl := Option.some.inj h
      rw [← hkey]
      exact List.mem_cons_self
    · exact List.mem_cons_of_mem _ (ih h)

theorem get?_eq_none_iff : get? key entries = none ↔ key ∉ keys entries := by
  induction entries with
  | nil => simp [keys]
  | cons e rest ih =>
    rw [get?]
    split
    · rename_i hkey
      simp [keys, hkey]
    · rename_i hkey
      rw [ih]
      simp [keys, Ne.symm hkey]

/-- Where no key stands twice, each pair is found. -/
theorem get?_of_mem (hkeys : (keys entries).Nodup) (h : (key, value) ∈ entries) :
    get? key entries = some value := by
  induction entries with
  | nil => cases h
  | cons e rest ih =>
    obtain ⟨hfresh, hrest⟩ := List.nodup_cons.1 hkeys
    rw [get?]
    rcases List.mem_cons.1 h with rfl | h
    · rw [if_pos rfl]
    · have hne : e.1 ≠ key := by
        rintro rfl
        exact hfresh (List.mem_map.2 ⟨_, h, rfl⟩)
      rw [if_neg hne, ih hrest h]

/-- Putting what is there already changes nothing. -/
theorem put_of_get? (h : get? key entries = some value) : put key value entries = entries := by
  induction entries with
  | nil => cases h
  | cons e rest ih =>
    rw [get?] at h
    rw [put]
    split at h
    · rename_i hkey
      obtain rfl := Option.some.inj h
      rw [if_pos hkey, ← hkey]
    · rename_i hkey
      rw [if_neg hkey, ih h]

theorem mem_keys_put {other : String} :
    other ∈ keys (put key value entries) ↔ other = key ∨ other ∈ keys entries := by
  induction entries with
  | nil => simp [put, keys]
  | cons e rest ih =>
    rw [put]
    split
    · rename_i hkey
      simp [keys, hkey]
    · have hcons (tail : Keyed α) : other ∈ keys (e :: tail) ↔ other = e.1 ∨ other ∈ keys tail :=
        List.mem_cons
      rw [hcons, hcons, ih, or_left_comm]

theorem nodup_keys_put (h : (keys entries).Nodup) : (keys (put key value entries)).Nodup := by
  induction entries with
  | nil => simp [put, keys]
  | cons e rest ih =>
    obtain ⟨hfresh, hrest⟩ := List.nodup_cons.1 h
    rw [put]
    split
    · rename_i hkey
      exact hkey ▸ h
    · rename_i hkey
      refine List.nodup_cons.2 ⟨fun hmem => ?_, ih hrest⟩
      rcases mem_keys_put.1 hmem with heq | hmem
      · exact hkey heq
      · exact hfresh hmem

theorem put_of_notMem (h : key ∉ keys entries) :
    put key value entries = entries ++ [(key, value)] := by
  induction entries with
  | nil => rfl
  | cons e rest ih =>
    obtain ⟨hne, hrest⟩ := not_or.1 (mt List.mem_cons.2 h)
    rw [put, if_neg (Ne.symm hne), ih hrest]
    rfl

theorem foldl_put_of_nodup {pairs : List (String × α)} (h : (keys (entries ++ pairs)).Nodup) :
    pairs.foldl (fun kept e => put e.1 e.2 kept) entries = entries ++ pairs := by
  induction pairs generalizing entries with
  | nil => exact (List.append_nil entries).symm
  | cons e rest ih =>
    have hfresh : e.1 ∉ keys entries := by
      rw [keys, List.map_append, List.nodup_append] at h
      exact fun hmem => h.2.2 _ hmem _ List.mem_cons_self rfl
    rw [List.append_cons] at h
    rw [List.foldl_cons, put_of_notMem hfresh, ih h, ← List.append_cons]

/-- Pairs in which no key stands twice stay as they are. -/
theorem ofPairs_of_nodup {pairs : List (String × α)} (h : (keys pairs).Nodup) :
    ofPairs pairs = pairs := foldl_put_of_nodup h

end Keys

end Keyed

end DiceLaw
