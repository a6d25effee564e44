import Mathlib.Algebra.Group.Nat.Defs
import Mathlib.Logic.Function.Basic
import RandServer.Lib.Block

/-!
# The block pool

`Memory` is the heap seen by the buffers: the next fresh address, the outcome of
every `malloc` call, the addresses given back with `free`, and the block pools.
A buffer refers to its pool by an index, so several buffers may share one pool, and
`none` is the null pool, for which blocks come straight from `malloc`.

The outcome of a `malloc` call is either failure or the arbitrary contents of the
new block. `AllocOk` states that no call fails.
-/

universe u

namespace RandServer

/-- `struct buff_pool`. The free list keeps the most recently returned block first;
`pool_cnt` is its length. Its array has room for `room` pointers. -/
structure BuffPool (α : Type u) where
  head : List (Block α)
  bufferSize : Nat
  poolMaxCnt : Nat
  room : Nat

/-- The blocks that the array of the free list still leads to: the oldest `room` ones. -/
def BuffPool.listed {α : Type u} (p : BuffPool α) : List (Block α) :=
  p.head.drop (p.head.length - p.room)

structure Memory (α : Type u) where
  brk : Nat
  fate : Nat → Option (Nat → α)
  freed : List Nat
  pools : Nat → BuffPool α

namespace Memory

variable {α : Type u}

/-- No allocation fails. -/
def AllocOk (m : Memory α) : Prop := ∀ i, ∃ data, m.fate i = some data

def malloc (m : Memory α) (size : Nat) : Option (Block α) × Memory α :=
  ((m.fate m.brk).map fun data => { addr := m.brk, size := size, data := data },
    { m with brk := m.brk + 1 })

def free (m : Memory α) (data : Block α) : Memory α :=
  { m with freed := data.addr :: m.freed }

def setPool (m : Memory α) (pool : Nat) (p : BuffPool α) : Memory α :=
  { m with pools := Function.update m.pools pool p }

theorem AllocOk.of_fate_eq {m m' : Memory α} (h : m.AllocOk) (hfate : m'.fate = m.fate) :
    m'.AllocOk := by
  intro i
  rw [hfate]
  exact h i

theorem AllocOk.malloc {m : Memory α} (h : m.AllocOk) (size : Nat) :
    ∃ b, (m.malloc size).1 = some b := by
  obtain ⟨data, hdata⟩ := h m.brk
  exact ⟨_, by rw [Memory.malloc, hdata]; rfl⟩

end Memory

variable {α : Type u}

/-- The pointers that fit into `poolMaxCnt * sizeof(char*)` bytes, a `size_t`. -/
def pointerRoom (poolMaxCnt : Nat) : Nat := poolMaxCnt * 8 % 2 ^ 64 / 8

theorem pointerRoom_eq {poolMaxCnt : Nat} (h : poolMaxCnt < 2 ^ 61) :
    pointerRoom poolMaxCnt = poolMaxCnt := by
  rw [pointerRoom, Nat.mod_eq_of_lt (by omega), Nat.mul_div_cancel _ (by decide)]

def buffPoolCreate (bufferSize poolMaxCnt : Nat) : BuffPool α :=
  { head := [], bufferSize := bufferSize, poolMaxCnt := poolMaxCnt, room := pointerRoom poolMaxCnt }

/-- `buff_pool_revive`: free the blocks beyond the new limit, and `realloc` the array. Where
it is not `granted`, the null pointer takes the place of the array. -/
def buffPoolRevive (m : Memory α) (pool poolMaxCnt : Nat) (granted : Bool) : Memory α :=
  let p := m.pools pool
  let surplus := p.head.take (p.head.length - poolMaxCnt)
  (surplus.foldl Memory.free m).setPool pool
    { p with
      head := p.head.drop (p.head.length - poolMaxCnt)
      poolMaxCnt := poolMaxCnt
      room := if granted then pointerRoom poolMaxCnt else 0 }

/-- `buff_pool_new_buff`, for a pool whose array holds what `pool_cnt` counts. -/
def buffPoolNewBuff (m : Memory α) (pool : Option Nat) (bufferSize : Nat) :
    Option (Block α) × Memory α :=
  match pool with
  | none => m.malloc bufferSize
  | some i =>
      if (m.pools i).bufferSize ≠ bufferSize then m.malloc bufferSize
      else
        match (m.pools i).head with
        | [] => m.malloc bufferSize
        | data :: head => (some data, m.setPool i { m.pools i with head := head })

/-- `buff_pool_del_buff`, for a pool whose array has room for another pointer. -/
def buffPoolDelBuff (m : Memory α) (pool : Option Nat) (data : Option (Block α))
    (bufferSize : Nat) : Memory α :=
  match data, pool with
  | none, _ => m
  | some data, none => m.free data
  | some data, some i =>
      if bufferSize ≠ (m.pools i).bufferSize then m.free data
      else if (m.pools i).poolMaxCnt ≤ (m.pools i).head.length then m.free data
      else m.setPool i { m.pools i with head := data :: (m.pools i).head }

@[simp] theorem buffPoolNewBuff_fate (m : Memory α) (pool : Option Nat) (bufferSize : Nat) :
    (buffPoolNewBuff m pool bufferSize).2.fate = m.fate := by
  unfold buffPoolNewBuff
  repeat' split
  all_goals rfl

@[simp] theorem buffPoolDelBuff_fate (m : Memory α) (pool : Option Nat)
    (data : Option (Block α)) (bufferSize : Nat) :
    (buffPoolDelBuff m pool data bufferSize).fate = m.fate := by
  unfold buffPoolDelBuff
  repeat' split
  all_goals rfl

/-- The limit of a pool and the room of its array. -/
def Memory.limits (m : Memory α) (i : Nat) : Nat × Nat := ((m.pools i).poolMaxCnt, (m.pools i).room)

theorem Memory.setPool_limits (m : Memory α) (pool : Nat) (head : List (Block α)) :
    (m.setPool pool { m.pools pool with head := head }).limits = m.limits := by
  funext i
  by_cases hi : i = pool
  · simp [limits, setPool, hi]
  · simp [limits, setPool, hi]

@[simp] theorem buffPoolNewBuff_limits (m : Memory α) (pool : Option Nat) (bufferSize : Nat) :
    (buffPoolNewBuff m pool bufferSize).2.limits = m.limits := by
  unfold buffPoolNewBuff
  repeat' split
  · rfl
  · rfl
  · rfl
  · exact m.setPool_limits _ _

@[simp] theorem buffPoolDelBuff_limits (m : Memory α) (pool : Option Nat)
    (data : Option (Block α)) (bufferSize : Nat) :
    (buffPoolDelBuff m pool data bufferSize).limits = m.limits := by
  unfold buffPoolDelBuff
  repeat' split
  · rfl
  · rfl
  · rfl
  · rfl
  · exact m.setPool_limits _ _

/-- A pool block is handed out without allocating, so only `malloc` can fail. -/
theorem buffPoolNewBuff_isSome {m : Memory α} (h : m.AllocOk) (pool : Option Nat)
    (bufferSize : Nat) : ∃ b, (buffPoolNewBuff m pool bufferSize).1 = some b := by
  unfold buffPoolNewBuff
  repeat' split
  · exact h.malloc bufferSize
  · exact h.malloc bufferSize
  · exact h.malloc bufferSize
  · exact ⟨_, rfl⟩

end RandServer
