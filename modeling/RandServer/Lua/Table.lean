import Mathlib.Data.List.Basic
import RandServer.Lua.Value

/-!
# Lua tables as maps

`get` and `set` read and write one key of a table, and `update` copies the entries of
another table over it. `size` counts the entries, and changes only when a key appears or
disappears.
-/

namespace RandServer

/-- A Lua string with the bytes of an ASCII literal. -/
def luaString (s : String) : LuaValue := .string (s.toList.map fun c => c.toNat.toUInt8)

@[simp] theorem luaKey_string (bytes : List UInt8) :
    luaKey (.string bytes) = some (.string bytes) := rfl

@[simp] theorem luaKey_luaString (s : String) : luaKey (luaString s) = some (luaString s) := rfl

@[simp] theorem luaKey_integer (i : BitVec 64) : luaKey (.integer i) = some (.integer i) := rfl

@[simp] theorem luaKey_table (id : Nat) : luaKey (.table id) = some (.table id) := rfl

/-- Whether a value counts as true in a condition. -/
def truthy (v : LuaValue) : Bool := v ≠ .nil ∧ v ≠ .boolean false

@[simp] theorem truthy_nil : truthy .nil = false := rfl

@[simp] theorem truthy_table (id : Nat) : truthy (.table id) = true := rfl

@[simp] theorem truthy_function (id : Nat) : truthy (.function id) = true := rfl

/-! ## Entries without a key -/

section Entries

variable {κ β : Type} [DecidableEq κ]

theorem find?_filter_ne (es : List (κ × β)) (k j : κ) :
    (es.filter (·.1 ≠ k)).find? (·.1 = j) = if j = k then none else es.find? (·.1 = j) := by
  induction es with
  | nil => simp
  | cons e es ih =>
      by_cases hk : e.1 = k
      · by_cases hj : j = k
        · simp_all
        · simp_all [Ne.symm hj]
      · by_cases hj : e.1 = j
        · have hjk : j ≠ k := hj ▸ hk
          simp_all
        · simp_all

theorem length_filter_ne {es : List (κ × β)} (hnodup : (es.map Prod.fst).Nodup) (k : κ) :
    (es.filter (·.1 ≠ k)).length + (if k ∈ es.map Prod.fst then 1 else 0) = es.length := by
  induction es with
  | nil => rfl
  | cons e es ih =>
      obtain ⟨hnew, hnodup⟩ := List.nodup_cons.mp hnodup
      have hih := ih hnodup
      by_cases hk : e.1 = k
      · subst hk
        rw [if_neg hnew, Nat.add_zero] at hih
        rw [List.filter_cons_of_neg (by simp), hih, List.map_cons,
          if_pos List.mem_cons_self, List.length_cons]
      · rw [List.filter_cons_of_pos (by simpa using hk), List.length_cons, List.length_cons,
          ← hih, List.map_cons]
        simp only [List.mem_cons, Ne.symm hk, false_or]
        omega

end Entries

namespace LuaTable

variable {t u : LuaTable} {k k' v : LuaValue}

/-- `luaH_get`. -/
def get (t : LuaTable) (key : LuaValue) : LuaValue :=
  match luaKey key with
  | none => .nil
  | some k => ((t.entries.find? (·.1 = k)).map Prod.snd).getD .nil

def size (t : LuaTable) : Nat := t.entries.length

theorem get_of_luaKey {key : LuaValue} (h : luaKey key = some k) :
    t.get key = ((t.entries.find? (·.1 = k)).map Prod.snd).getD .nil := by
  rw [get, h]

theorem get_congr {key : LuaValue} (h : luaKey key = some k) : t.get key = t.get k := by
  rw [get_of_luaKey h, get_of_luaKey (luaKey_normal h)]

@[simp] theorem get_empty (key : LuaValue) : empty.get key = .nil := by
  rw [get]
  split <;> rfl

/-- The entries are the keys with a value. -/
theorem mem_entries_iff : (k, v) ∈ t.entries ↔ luaKey k = some k ∧ v ≠ .nil ∧ t.get k = v := by
  constructor
  · intro hmem
    have hkey := t.keys_normal _ hmem
    refine ⟨hkey, t.values_ne_nil _ hmem, ?_⟩
    obtain ⟨e, he⟩ : ∃ e, t.entries.find? (·.1 = k) = some e := by
      apply Option.isSome_iff_exists.mp
      rw [List.find?_isSome]
      exact ⟨_, hmem, by simp⟩
    have hk : e.1 = k := by simpa using List.find?_some he
    have heq : e = (k, v) :=
      List.inj_on_of_nodup_map t.keys_nodup (List.mem_of_find?_eq_some he) hmem hk
    rw [get_of_luaKey hkey, he, heq]
    rfl
  · rintro ⟨hkey, hne, hget⟩
    rw [get_of_luaKey hkey] at hget
    cases hfind : t.entries.find? (·.1 = k) with
    | none =>
        rw [hfind] at hget
        exact absurd hget.symm hne
    | some e =>
        rw [hfind] at hget
        have hk : e.1 = k := by simpa using List.find?_some hfind
        have hv : e.2 = v := hget
        rw [← hk, ← hv]
        exact List.mem_of_find?_eq_some hfind

theorem get_eq_nil_iff (hkey : luaKey k = some k) :
    t.get k = .nil ↔ k ∉ t.entries.map Prod.fst := by
  constructor
  · intro hnil hmem
    obtain ⟨⟨k', v⟩, he, rfl⟩ := List.mem_map.mp hmem
    obtain ⟨-, hne, hget⟩ := mem_entries_iff.mp he
    exact hne (hget.symm.trans hnil)
  · intro hnot
    by_contra hne
    exact hnot (List.mem_map.mpr ⟨(k, t.get k), mem_entries_iff.mpr ⟨hkey, hne, rfl⟩, rfl⟩)

/-! ## Writing one key -/

/-- `rawset`, which changes nothing where it raises an error. -/
def set (t : LuaTable) (key v : LuaValue) : LuaTable := (t.rawset key v).getD t

theorem rawset_eq {key : LuaValue} (h : luaKey key = some k) (t : LuaTable) (v : LuaValue) :
    t.rawset key v = some (t.set key v) := by
  obtain ⟨t', ht'⟩ := rawset_isSome (by rw [h]; rfl) t v
  rw [set, ht', Option.getD_some]

/-- Writing nil removes the entry, and another value puts it at the end. -/
theorem set_entries {key : LuaValue} (h : luaKey key = some k) :
    (t.set key v).entries =
      t.entries.filter (·.1 ≠ k) ++ if v = .nil then [] else [(k, v)] := by
  have hset := rawset_eq h t v
  unfold rawset at hset
  split at hset
  · cases hset
  · rename_i k₁ h₁
    obtain rfl : k₁ = k := Option.some.inj (h₁.symm.trans h)
    split at hset
    · rename_i hnil
      rw [← Option.some.inj hset, if_pos hnil, List.append_nil]
      rfl
    · rename_i hne
      rw [← Option.some.inj hset, if_neg hne]
      rfl

theorem get_set {key : LuaValue} (h : luaKey key = some k) (t : LuaTable) (v k' : LuaValue) :
    (t.set key v).get k' = if luaKey k' = some k then v else t.get k' := by
  cases hk' : luaKey k' with
  | none => simp [get, hk']
  | some j =>
      rw [get_of_luaKey hk', get_of_luaKey hk', set_entries h, List.find?_append,
        find?_filter_ne]
      by_cases hjk : j = k
      · subst hjk
        by_cases hv : v = .nil <;> simp [hv]
      · have hlast : (if v = .nil then [] else [(k, v)]).find? (fun e => decide (e.1 = j)) =
            none := by
          split
          · rfl
          · simp [Ne.symm hjk]
        rw [if_neg hjk, hlast, Option.or_none, if_neg (by simpa using hjk)]

theorem get_set_self {key : LuaValue} (h : luaKey key = some k) (t : LuaTable) (v : LuaValue) :
    (t.set key v).get key = v := by
  rw [get_set h, if_pos h]

theorem get_set_ne {key : LuaValue} (h : luaKey key = some k) (t : LuaTable) (v : LuaValue)
    (hne : luaKey k' ≠ some k) : (t.set key v).get k' = t.get k' := by
  rw [get_set h, if_neg hne]

/-- The number of the other entries. -/
theorem size_filter (hkey : luaKey k = some k) :
    (t.entries.filter (·.1 ≠ k)).length + (if t.get k = .nil then 0 else 1) = t.size := by
  rw [size, ← length_filter_ne t.keys_nodup k]
  by_cases hmem : k ∈ t.entries.map Prod.fst
  · rw [if_pos hmem, if_neg fun hnil => (get_eq_nil_iff hkey).mp hnil hmem]
  · rw [if_neg hmem, if_pos ((get_eq_nil_iff hkey).mpr hmem)]

theorem size_set_nil {key : LuaValue} (h : luaKey key = some k) (t : LuaTable) :
    (t.set key .nil).size + (if t.get key = .nil then 0 else 1) = t.size := by
  rw [get_congr h, ← size_filter (t := t) (luaKey_normal h), size, set_entries h, if_pos rfl,
    List.append_nil]

theorem size_set {key : LuaValue} (h : luaKey key = some k) (t : LuaTable) (hv : v ≠ .nil) :
    (t.set key v).size = t.size + if t.get key = .nil then 1 else 0 := by
  rw [get_congr h, ← size_filter (t := t) (luaKey_normal h), size, set_entries h, if_neg hv,
    List.length_append, List.length_singleton]
  split <;> omega

/-- A key that is not there cannot be removed. -/
theorem set_nil_of_get {key : LuaValue} (h : luaKey key = some k) (hnil : t.get key = .nil) :
    t.set key .nil = t := by
  apply LuaTable.ext
  rw [set_entries h, if_pos rfl, List.append_nil, List.filter_eq_self]
  intro e he
  rw [get_congr h] at hnil
  have hnot := (get_eq_nil_iff (luaKey_normal h)).mp hnil
  have hne : e.1 ≠ k := by
    rintro rfl
    exact hnot (List.mem_map_of_mem he)
  simpa using hne

/-- Removing a key before it is written makes no difference. -/
theorem set_nil_set {key : LuaValue} (h : luaKey key = some k) (t : LuaTable) (v : LuaValue) :
    (t.set key .nil).set key v = t.set key v := by
  apply LuaTable.ext
  rw [set_entries h, set_entries h, set_entries h, if_pos rfl, List.append_nil, List.filter_filter]
  simp

/-! ## Copying entries -/

/-- `for k, v in pairs(u) do t[k] = v end`. -/
def update (t u : LuaTable) : LuaTable := u.entries.foldl (fun t e => t.set e.1 e.2) t

theorem get_foldl_set (es : List (LuaValue × LuaValue)) (hkeys : ∀ e ∈ es, luaKey e.1 = some e.1)
    (hnodup : (es.map Prod.fst).Nodup) (t : LuaTable) (hk : luaKey k = some k) :
    (es.foldl (fun t e => t.set e.1 e.2) t).get k =
      (((es.find? (·.1 = k)).map Prod.snd)).getD (t.get k) := by
  induction es generalizing t with
  | nil => rfl
  | cons e es ih =>
      obtain ⟨hnew, hnodup⟩ := List.nodup_cons.mp hnodup
      rw [List.foldl_cons, ih (fun e' he' => hkeys e' (List.mem_cons_of_mem e he')) hnodup,
        get_set (hkeys e List.mem_cons_self), hk, List.find?_cons]
      by_cases heq : e.1 = k
      · have hnone : es.find? (·.1 = k) = none := by
          apply List.find?_eq_none.mpr
          intro e' he' hk'
          apply hnew
          rw [heq, ← of_decide_eq_true hk']
          exact List.mem_map_of_mem he'
        simp [heq, hnone]
      · simp [heq, Ne.symm heq]

theorem get_update (t u : LuaTable) (k : LuaValue) :
    (t.update u).get k = if u.get k = .nil then t.get k else u.get k := by
  have hnormal : ∀ j, luaKey j = some j →
      (t.update u).get j = if u.get j = .nil then t.get j else u.get j := by
    intro j hj
    rw [update, get_foldl_set u.entries (fun e he => u.keys_normal e he) u.keys_nodup t hj,
      get_of_luaKey hj (t := u)]
    cases hfind : u.entries.find? (·.1 = j) with
    | none => simp
    | some e =>
        have hne := u.values_ne_nil e (List.mem_of_find?_eq_some hfind)
        simp [hne]
  cases hk : luaKey k with
  | none => simp [get, hk]
  | some j =>
      rw [get_congr hk, get_congr hk (t := u), get_congr hk (t := t)]
      exact hnormal j (luaKey_normal hk)

end LuaTable

end RandServer
