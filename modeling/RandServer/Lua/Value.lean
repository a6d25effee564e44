import Mathlib.Algebra.Group.Nat.Defs
import Mathlib.Data.List.Nodup
import Mathlib.Logic.Function.Basic

/-!
# Lua values

The values and raw tables of the Lua interpreter that the serializer works on. A table is
the list of its entries in the order in which `lua_next` visits them. Its fields state
what the interpreter guarantees of a table: keys are normal, no key occurs twice, and no
value is nil.

Tables and full userdata are objects with an identity, so a value holds their index in
the state. Doubles are bit patterns. Only two of their properties matter here: being NaN
and having an integer value, since such a key is converted or refused by `rawset`.
-/

namespace RandServer

inductive LuaValue
  | nil
  | boolean (b : Bool)
  | integer (i : BitVec 64)
  | number (bits : BitVec 64)
  | string (bytes : List UInt8)
  | table (id : Nat)
  | function (id : Nat)
  | thread (id : Nat)
  | userdata (id : Nat)
  | lightuserdata (ptr : BitVec 64)
  deriving DecidableEq, Repr

/-! ## Doubles as keys -/

def numberExponent (bits : BitVec 64) : Nat := bits.toNat / 2 ^ 52 % 2 ^ 11

def numberMantissa (bits : BitVec 64) : Nat := bits.toNat % 2 ^ 52

/-- `luai_numisnan`. -/
def numIsNaN (bits : BitVec 64) : Bool :=
  numberExponent bits = 2047 && numberMantissa bits ≠ 0

/-- The absolute value of a double, if it is an integer below `2 ^ 64`. -/
def numberMagnitude (bits : BitVec 64) : Option Nat :=
  let exponent := numberExponent bits
  let significand := 2 ^ 52 + numberMantissa bits
  if exponent = 0 then if numberMantissa bits = 0 then some 0 else none
  else if exponent < 1075 then
    if significand % 2 ^ (1075 - exponent) = 0 then some (significand / 2 ^ (1075 - exponent))
    else none
  else if exponent ≤ 1086 then some (significand * 2 ^ (exponent - 1075))
  else none

/-- `numisinteger`. -/
def numIsInteger (bits : BitVec 64) : Option (BitVec 64) :=
  match numberMagnitude bits with
  | none => none
  | some n =>
      if 2 ^ 63 ≤ bits.toNat then if n ≤ 2 ^ 63 then some (BitVec.ofInt 64 (-n)) else none
      else if n < 2 ^ 63 then some (BitVec.ofNat 64 n) else none

/-- The key under which `luaH_set` stores a value. It raises an error on nil and NaN. -/
def luaKey : LuaValue → Option LuaValue
  | .nil => none
  | .number bits =>
      if numIsNaN bits then none
      else some (match numIsInteger bits with
        | some i => .integer i
        | none => .number bits)
  | key => some key

theorem luaKey_normal {key k : LuaValue} (h : luaKey key = some k) : luaKey k = some k := by
  cases key with
  | nil => cases h
  | number bits =>
      cases hnan : numIsNaN bits with
      | true => simp [luaKey, hnan] at h
      | false =>
          cases hint : numIsInteger bits with
          | some i =>
              simp only [luaKey, hnan, hint, Bool.false_eq_true, if_false, Option.some.injEq] at h
              subst h
              rfl
          | none =>
              simp only [luaKey, hnan, hint, Bool.false_eq_true, if_false, Option.some.injEq] at h
              subst h
              simp only [luaKey, hnan, hint, Bool.false_eq_true, if_false]
  | _ =>
      obtain rfl := Option.some.inj h
      rfl

/-! ## Tables -/

structure LuaTable where
  entries : List (LuaValue × LuaValue)
  keys_normal : ∀ e ∈ entries, luaKey e.1 = some e.1
  keys_nodup : (entries.map Prod.fst).Nodup
  values_ne_nil : ∀ e ∈ entries, e.2 ≠ .nil

namespace LuaTable

variable {t : LuaTable} {k v : LuaValue}

def empty : LuaTable where
  entries := []
  keys_normal := nofun
  keys_nodup := List.nodup_nil
  values_ne_nil := nofun

/-- Remove the entry of a key. -/
def erase (t : LuaTable) (k : LuaValue) : LuaTable where
  entries := t.entries.filter (·.1 ≠ k)
  keys_normal e he := t.keys_normal e (List.mem_of_mem_filter he)
  keys_nodup := t.keys_nodup.sublist ((List.filter_sublist ..).map _)
  values_ne_nil e he := t.values_ne_nil e (List.mem_of_mem_filter he)

theorem not_mem_keys_erase : k ∉ (t.erase k).entries.map Prod.fst := by
  intro hk
  obtain ⟨e, he, heq⟩ := List.mem_map.mp hk
  exact of_decide_eq_true (List.mem_filter.mp he).2 heq

/-- Add the entry of a key that is not there. -/
def insert (t : LuaTable) (k v : LuaValue) (hk : luaKey k = some k) (hv : v ≠ .nil)
    (hnew : k ∉ t.entries.map Prod.fst) : LuaTable where
  entries := t.entries ++ [(k, v)]
  keys_normal e he := by
    rcases List.mem_append.mp he with he | he
    · exact t.keys_normal e he
    · rw [List.mem_singleton.mp he]
      exact hk
  keys_nodup := by
    rw [List.map_append, List.nodup_append]
    refine ⟨t.keys_nodup, List.nodup_singleton k, ?_⟩
    intro a ha b hb heq
    rw [List.map_singleton, List.mem_singleton] at hb
    rw [heq, hb] at ha
    exact hnew ha
  values_ne_nil e he := by
    rcases List.mem_append.mp he with he | he
    · exact t.values_ne_nil e he
    · rw [List.mem_singleton.mp he]
      exact hv

/-- `lua_rawset`, or none where it raises an error. A nil value removes the key. -/
def rawset (t : LuaTable) (key v : LuaValue) : Option LuaTable :=
  match h : luaKey key with
  | none => none
  | some k =>
      if hv : v = .nil then some (t.erase k)
      else some ((t.erase k).insert k v (luaKey_normal h) hv not_mem_keys_erase)

@[ext] theorem ext {t t' : LuaTable} (h : t.entries = t'.entries) : t = t' := by
  cases t
  cases t'
  cases h
  rfl

theorem rawset_eq_none_iff {key : LuaValue} : t.rawset key v = none ↔ luaKey key = none := by
  unfold rawset
  split
  · simp [*]
  · split_ifs <;> simp [*]

theorem rawset_isSome {key : LuaValue} (h : (luaKey key).isNone = false) (t : LuaTable)
    (v : LuaValue) : ∃ t', t.rawset key v = some t' := by
  cases hset : t.rawset key v with
  | some t' => exact ⟨t', rfl⟩
  | none =>
      rw [rawset_eq_none_iff.mp hset] at h
      cases h

theorem erase_of_not_mem (h : k ∉ t.entries.map Prod.fst) : t.erase k = t := by
  apply LuaTable.ext
  rw [erase, List.filter_eq_self]
  intro e he
  refine decide_eq_true fun heq => h ?_
  rw [← heq]
  exact List.mem_map_of_mem he

/-- Setting a new normal key appends an entry. -/
theorem rawset_new (hk : luaKey k = some k) (hv : v ≠ .nil)
    (hnew : k ∉ t.entries.map Prod.fst) :
    ∃ t', t.rawset k v = some t' ∧ t'.entries = t.entries ++ [(k, v)] := by
  unfold rawset
  split
  · rename_i h
    rw [hk] at h
    cases h
  · rename_i h
    rw [hk] at h
    obtain rfl := Option.some.inj h
    rw [dif_neg hv]
    refine ⟨_, rfl, ?_⟩
    show (t.erase k).entries ++ [(k, v)] = _
    rw [erase_of_not_mem hnew]

/-- Setting a new normal key to nil changes nothing. -/
theorem rawset_nil (hk : luaKey k = some k) (hnew : k ∉ t.entries.map Prod.fst) :
    t.rawset k .nil = some t := by
  unfold rawset
  split
  · rename_i h
    rw [hk] at h
    cases h
  · rename_i h
    rw [hk] at h
    obtain rfl := Option.some.inj h
    rw [dif_pos rfl, erase_of_not_mem hnew]

end LuaTable

/-! ## States -/

/-- What the serializer looks up in a metatable: the field `__serialize`, which is an
integer, and the field `__name`, which is a string, as far as they are there. -/
structure LuaMetatable where
  serialize : Option Int
  name : Option (List UInt8)

structure LuaUserdata where
  block : List UInt8
  metatable : Option LuaMetatable

/-- The objects of a Lua state, and the metatables in its registry. -/
structure LuaState where
  tables : List LuaTable
  userdata : List LuaUserdata
  metatables : List (List UInt8 × LuaMetatable)

namespace LuaState

/-- The entries of a table in iteration order. -/
def entries (L : LuaState) (id : Nat) : List (LuaValue × LuaValue) :=
  (L.tables[id]?).elim [] LuaTable.entries

/-- The tables that can be reached from a list of values. -/
inductive Reach (L : LuaState) (vs : List LuaValue) : Nat → Prop
  | root {id : Nat} : .table id ∈ vs → Reach L vs id
  | key {id id' : Nat} {v : LuaValue} : Reach L vs id → (.table id', v) ∈ L.entries id →
      Reach L vs id'
  | value {id id' : Nat} {k : LuaValue} : Reach L vs id → (k, .table id') ∈ L.entries id →
      Reach L vs id'

/-- The values in a list of values and in the tables that can be reached from it. -/
inductive Occurs (L : LuaState) (vs : List LuaValue) : LuaValue → Prop
  | root {v : LuaValue} : v ∈ vs → Occurs L vs v
  | key {id : Nat} {k v : LuaValue} : Reach L vs id → (k, v) ∈ L.entries id → Occurs L vs k
  | value {id : Nat} {k v : LuaValue} : Reach L vs id → (k, v) ∈ L.entries id → Occurs L vs v

end LuaState

end RandServer
