import RandServer.Lib.CWord
import RandServer.Lib.LapRing
import RandServer.Net.BuffPool

/-!
# What the ring buffers share

The send buffer, the ring receive buffer and the message queue keep their bytes in a
ring of pool blocks. A cursor packs a block index and an offset into one 32-bit word,
`buff_get_space` subtracts two cursors, and `buff_gc_help` returns the blocks that
the reader has left behind.

The read cursor is stored one capacity ahead of the read position: `read` is the
position at which the writer has to stop. With that reading `buffGetSpace` is an
ordinary difference of positions (`buffGetSpace_position`), a full ring has equal
cursors, and an empty one has cursors a full capacity apart.
-/

universe u

namespace RandServer

open LapRing

/-- `enum EnByteSize`: the width of a length header. -/
inductive EnByteSize
  | enByte8
  | enByte16
  | enByte24
  | enByte31
  deriving DecidableEq, Repr

def EnByteSize.toNat : EnByteSize → Nat
  | .enByte8 => 1
  | .enByte16 => 2
  | .enByte24 => 3
  | .enByte31 => 4

theorem EnByteSize.toNat_pos (e : EnByteSize) : 0 < e.toNat := by cases e <;> decide

theorem EnByteSize.toNat_le (e : EnByteSize) : e.toNat ≤ 4 := by cases e <;> decide

def enErrNoMemory : Int := -1
def enErrRecvMsgSmall : Int := -2
def enErrRecvMsgBig : Int := -3

/-- The sizes for which cursors fit in their words. -/
structure Geometry (n bs : Nat) : Prop where
  n_pos : 0 < n
  n_le : n ≤ 32768
  bs_pos : 0 < bs
  bs_le : bs ≤ 65535

theorem Geometry.capacity_lt {n bs : Nat} (g : Geometry n bs) : n * bs < 2 ^ 31 := by
  have h := Nat.mul_le_mul g.n_le g.bs_le
  omega

theorem Geometry.capacity_pos {n bs : Nat} (g : Geometry n bs) : 0 < n * bs :=
  Nat.mul_pos g.n_pos g.bs_pos

/-! ## Cursors -/

def packCursor (h l : Nat) : Nat := u32 (h <<< 16) ||| l

def cursorH (cursor : Nat) : Nat := cursor >>> 16

def cursorL (cursor : Nat) : Nat := u32 (cursor <<< 16) >>> 16

theorem packCursor_eq {h l : Nat} (hh : h < 65536) (hl : l < 65536) :
    packCursor h l = h * 65536 + l := by
  have hshift : h <<< 16 < 2 ^ 32 := by
    rw [Nat.shiftLeft_eq]
    omega
  rw [packCursor, u32_of_lt hshift, ← Nat.shiftLeft_add_eq_or_of_lt (i := 16) hl,
    Nat.shiftLeft_eq]

theorem cursorH_pack {h l : Nat} (hh : h < 65536) (hl : l < 65536) :
    cursorH (packCursor h l) = h := by
  rw [cursorH, packCursor_eq hh hl, Nat.shiftRight_eq_div_pow]
  omega

theorem cursorL_pack {h l : Nat} (hh : h < 65536) (hl : l < 65536) :
    cursorL (packCursor h l) = l := by
  rw [cursorL, packCursor_eq hh hl, Nat.shiftRight_eq_div_pow, Nat.shiftLeft_eq, u32]
  omega

/-- The packed cursor of a position. -/
def positionCursor (n bs p : Nat) : Nat := packCursor (block n bs p) (offset bs p)

section Cursor

variable {n bs : Nat} (g : Geometry n bs)

include g

theorem block_lt_word (p : Nat) : block n bs p < 65536 := by
  have h : block n bs p < 2 * n := block_lt g.n_pos p
  have := g.n_le
  omega

theorem offset_lt_word (p : Nat) : offset bs p < 65536 := by
  have h := offset_lt g.bs_pos p
  have := g.bs_le
  omega

theorem cursorH_position (p : Nat) : cursorH (positionCursor n bs p) = block n bs p :=
  cursorH_pack (block_lt_word g p) (offset_lt_word g p)

theorem cursorL_position (p : Nat) : cursorL (positionCursor n bs p) = offset bs p :=
  cursorL_pack (block_lt_word g p) (offset_lt_word g p)

/-- Cursors at most a capacity apart are equal only for equal positions. -/
theorem positionCursor_inj {w e : Nat} (hwe : w ≤ e) (hcap : e ≤ w + n * bs) :
    positionCursor n bs w = positionCursor n bs e ↔ w = e := by
  constructor
  · intro h
    have hblock : block n bs w = block n bs e := by
      rw [← cursorH_position g w, ← cursorH_position g e, h]
    have hoff : offset bs w = offset bs e := by
      rw [← cursorL_position g w, ← cursorL_position g e, h]
    rcases distance g.n_pos g.bs_pos hwe hcap with ⟨hlt, -⟩ | ⟨-, -, hd⟩ | ⟨hlt, -⟩
    · omega
    · omega
    · omega
  · rintro rfl
    rfl

end Cursor

theorem positionCursor_zero {n bs : Nat} : positionCursor n bs 0 = 0 := by
  simp [positionCursor, packCursor, block, offset, u32]

theorem positionCursor_capacity {n bs : Nat} (g : Geometry n bs) :
    positionCursor n bs (0 + n * bs) = u32 (n <<< 16) ∧ block n bs (0 + n * bs) = n := by
  have hn := g.n_pos
  have hblock : block n bs (0 + n * bs) = n := by
    rw [block, div_add_capacity g.bs_pos, Nat.zero_div, Nat.zero_add, Nat.mod_eq_of_lt (by omega)]
  refine ⟨?_, hblock⟩
  rw [positionCursor, hblock, offset_add_capacity, packCursor, offset, Nat.zero_mod, Nat.or_zero]

/-! ## Free space -/

/-- `buff_get_space`, in 32-bit arithmetic. The assertion of its middle branch is
`buffGetSpaceAssert`. -/
def buffGetSpace (poolCnt bufferSize uHRead uLRead uHWrite uLWrite : Nat) : Nat :=
  if uHRead > uHWrite then
    sub32 (u32 (sub32 uHRead uHWrite * bufferSize + uLRead)) uLWrite
  else if uHRead = uHWrite then
    sub32 uLRead uLWrite
  else
    sub32 (u32 (sub32 (u32 (2 * poolCnt + uHRead)) uHWrite * bufferSize + uLRead)) uLWrite

def buffGetSpaceAssert (uHRead uLRead uHWrite uLWrite : Nat) : Prop :=
  uHRead = uHWrite → uLWrite ≤ uLRead

/-- The free space between a write position and the position where the writer has
to stop, computed without wrap-around. -/
theorem buffGetSpace_position {n bs : Nat} (g : Geometry n bs) {w e : Nat} (hwe : w ≤ e)
    (hcap : e ≤ w + n * bs) :
    buffGetSpace n bs (block n bs e) (offset bs e) (block n bs w) (offset bs w) = e - w ∧
      buffGetSpaceAssert (block n bs e) (offset bs e) (block n bs w) (offset bs w) := by
  have hn := g.n_le
  have hbs := g.bs_le
  have hew : block n bs e < 2 * n := block_lt g.n_pos e
  have hww : block n bs w < 2 * n := block_lt g.n_pos w
  have hoe := offset_lt g.bs_pos e
  have how := offset_lt g.bs_pos w
  have hlap := g.capacity_lt
  rcases distance g.n_pos g.bs_pos hwe hcap with ⟨hlt, hd⟩ | ⟨heq, hle, hd⟩ | ⟨hlt, hd⟩
  · refine ⟨?_, fun h => by omega⟩
    rw [buffGetSpace, if_pos hlt, sub32_of_le (Nat.le_of_lt hlt) (by omega)]
    have hone : bs ≤ (block n bs e - block n bs w) * bs :=
      Nat.le_mul_of_pos_left bs (by omega)
    rw [u32_of_lt (by omega), sub32_of_le (by omega) (by omega), hd]
  · refine ⟨?_, fun _ => hle⟩
    rw [buffGetSpace, if_neg (by omega), if_pos heq, sub32_of_le hle (by omega), hd]
  · refine ⟨?_, fun h => by omega⟩
    have hlaps : sub32 (u32 (2 * n + block n bs e)) (block n bs w) =
        2 * n + block n bs e - block n bs w := by
      rw [u32_of_lt (by omega)]
      exact sub32_of_le (by omega) (by omega)
    have hone : bs ≤ (2 * n + block n bs e - block n bs w) * bs :=
      Nat.le_mul_of_pos_left bs (by omega)
    rw [buffGetSpace, if_neg (by omega), if_neg (by omega), hlaps, u32_of_lt (by omega),
      sub32_of_le (by omega) (by omega), hd]

/-! ## Releasing blocks -/

variable {α : Type u}

/-- The local state of the `buff_gc_help` loop. -/
structure BuffGc (α : Type u) where
  buffers : Nat → Option (Block α)
  uHFree : Nat
  mem : Memory α
  cnt : Nat

/-- One iteration: the slot under the free index is released unless the writer is in
it, and the index moves on in either case. -/
def buffGcStep (poolCnt bufferSize uHWrite : Nat) (pool : Option Nat) (s : BuffGc α) :
    BuffGc α :=
  let next := (s.uHFree + 1) % (2 * poolCnt)
  if s.uHFree % poolCnt = uHWrite % poolCnt then { s with uHFree := next }
  else
    match s.buffers (s.uHFree % poolCnt) with
    | some data =>
        { buffers := Function.update s.buffers (s.uHFree % poolCnt) none
          uHFree := next
          mem := buffPoolDelBuff s.mem pool (some data) bufferSize
          cnt := s.cnt + 1 }
    | none => { s with uHFree := next }

def buffGcLoop (poolCnt bufferSize uHRead uHWrite : Nat) (pool : Option Nat) :
    Nat → BuffGc α → BuffGc α
  | 0, s => s
  | fuel + 1, s =>
      if s.uHFree = uHRead then s
      else buffGcLoop poolCnt bufferSize uHRead uHWrite pool fuel
        (buffGcStep poolCnt bufferSize uHWrite pool s)

/-- `buff_gc_help`. The free index runs through at most `2 * poolCnt` values before
it meets the read index. -/
def buffGcHelp (buffers : Nat → Option (Block α)) (poolCnt bufferSize freeH uHRead uHWrite : Nat)
    (pool : Option Nat) (mem : Memory α) : BuffGc α :=
  let s := buffGcLoop poolCnt bufferSize uHRead uHWrite pool (2 * poolCnt)
    { buffers := buffers, uHFree := freeH, mem := mem, cnt := 0 }
  { s with uHFree := u16 s.uHFree }

@[simp] theorem buffGcStep_uHFree (poolCnt bufferSize uHWrite : Nat) (pool : Option Nat)
    (s : BuffGc α) : (buffGcStep poolCnt bufferSize uHWrite pool s).uHFree =
      (s.uHFree + 1) % (2 * poolCnt) := by
  unfold buffGcStep
  repeat' split
  all_goals rfl

@[simp] theorem buffGcStep_fate (poolCnt bufferSize uHWrite : Nat) (pool : Option Nat)
    (s : BuffGc α) : (buffGcStep poolCnt bufferSize uHWrite pool s).mem.fate = s.mem.fate := by
  unfold buffGcStep
  repeat' split
  all_goals simp

theorem buffGcStep_buffers (poolCnt bufferSize uHWrite : Nat) (pool : Option Nat)
    (s : BuffGc α) : (buffGcStep poolCnt bufferSize uHWrite pool s).buffers =
      if s.uHFree % poolCnt = uHWrite % poolCnt then s.buffers
      else Function.update s.buffers (s.uHFree % poolCnt) none := by
  simp only [buffGcStep]
  split
  · rfl
  · split
    · rfl
    · rw [Function.update_eq_self_iff.mpr (Eq.symm ‹_›)]

/-- The blocks `a, ..., a + d - 1` are released, except in the writer's slot. -/
def Released (poolCnt uHWrite a d i : Nat) : Prop :=
  i ≠ uHWrite % poolCnt ∧ ∃ j < d, (a + j) % poolCnt = i

theorem buffGcLoop_spec {poolCnt : Nat} (bufferSize uHWrite : Nat)
    (pool : Option Nat) {a d fuel : Nat} (hd : d < 2 * poolCnt) (hfuel : d ≤ fuel)
    {s t : BuffGc α} (hs : s.uHFree = a % (2 * poolCnt))
    (ht : buffGcLoop poolCnt bufferSize ((a + d) % (2 * poolCnt)) uHWrite pool fuel s = t) :
    t.uHFree = (a + d) % (2 * poolCnt) ∧ t.mem.fate = s.mem.fate ∧
      ∀ i, (Released poolCnt uHWrite a d i → t.buffers i = none) ∧
        (¬ Released poolCnt uHWrite a d i → t.buffers i = s.buffers i) := by
  induction d generalizing a fuel s with
  | zero =>
      have hstop : s.uHFree = (a + 0) % (2 * poolCnt) := hs
      have hrun : t = s := by
        rw [← ht]
        cases fuel with
        | zero => rfl
        | succ fuel => rw [buffGcLoop, if_pos hstop]
      subst hrun
      refine ⟨hstop, rfl, fun i => ⟨?_, fun _ => rfl⟩⟩
      rintro ⟨-, j, hj, -⟩
      omega
  | succ d ih =>
      obtain ⟨fuel, rfl⟩ : ∃ k, fuel = k + 1 := ⟨fuel - 1, by omega⟩
      have hgo : s.uHFree ≠ (a + (d + 1)) % (2 * poolCnt) := by
        rw [hs]
        intro h
        have hdvd : 2 * poolCnt ∣ d + 1 := by
          have := (Nat.modEq_iff_dvd' (Nat.le_add_right a (d + 1))).mp h
          rwa [Nat.add_sub_cancel_left] at this
        have := Nat.le_of_dvd (by omega) hdvd
        omega
      rw [show a + (d + 1) = a + 1 + d by omega] at hgo ht ⊢
      have hnext : (buffGcStep poolCnt bufferSize uHWrite pool s).uHFree =
          (a + 1) % (2 * poolCnt) := by
        rw [buffGcStep_uHFree, hs, Nat.mod_add_mod]
      rw [buffGcLoop, if_neg hgo] at ht
      obtain ⟨hfree, hfate, hbuf⟩ := ih (by omega) (by omega) hnext ht
      refine ⟨hfree, hfate.trans (buffGcStep_fate ..), fun i => ?_⟩
      have hmod : s.uHFree % poolCnt = a % poolCnt := by
        rw [hs, Nat.mod_mod_of_dvd _ (Nat.dvd_mul_left poolCnt 2)]
      have hone : (buffGcStep poolCnt bufferSize uHWrite pool s).buffers i =
          if i ≠ uHWrite % poolCnt ∧ i = a % poolCnt then none else s.buffers i := by
        rw [buffGcStep_buffers, hmod]
        by_cases hw : a % poolCnt = uHWrite % poolCnt
        · rw [if_pos hw, if_neg (fun h => h.1 (h.2.trans hw))]
        · rw [if_neg hw, Function.update_apply]
          by_cases hi : i = a % poolCnt
          · rw [if_pos hi, if_pos ⟨hi ▸ hw, hi⟩]
          · rw [if_neg hi, if_neg (fun h => hi h.2)]
      have hsplit : Released poolCnt uHWrite a (d + 1) i ↔
          (i ≠ uHWrite % poolCnt ∧ i = a % poolCnt) ∨ Released poolCnt uHWrite (a + 1) d i := by
        constructor
        · rintro ⟨hw, j, hj, hji⟩
          cases j with
          | zero => exact .inl ⟨hw, hji.symm⟩
          | succ j => exact .inr ⟨hw, j, by omega, by rw [← hji]; congr 1; omega⟩
        · rintro (⟨hw, hi⟩ | ⟨hw, j, hj, hji⟩)
          · exact ⟨hw, 0, by omega, hi.symm⟩
          · exact ⟨hw, j + 1, by omega, by rw [← hji]; congr 1; omega⟩
      rw [hsplit]
      obtain ⟨hrel, hkeep⟩ := hbuf i
      by_cases hlater : Released poolCnt uHWrite (a + 1) d i
      · exact ⟨fun _ => hrel hlater, fun h => absurd (.inr hlater) h⟩
      · rw [hkeep hlater, hone]
        refine ⟨fun h => ?_, fun h => if_neg fun hfirst => h (.inl hfirst)⟩
        rcases h with h | h
        · exact if_pos h
        · exact absurd h hlater

/-- Moving the reader from `r` to `r'` releases the blocks in between and leaves the
free index in the reader's new block. `ws` is the write position the caller knows. -/
theorem buffGcHelp_spec {n bs : Nat} (g : Geometry n bs) {bufferSize : Nat} {pool : Option Nat}
    {mem : Memory α} {buffers : Nat → Option (Block α)} {t : BuffGc α} {r r' ws : Nat}
    (hr : r ≤ r') (hr' : r' ≤ r + n * bs)
    (ht : buffGcHelp buffers n bufferSize (block n bs (r + n * bs)) (block n bs (r' + n * bs))
      (block n bs ws) pool mem = t) :
    t.uHFree = block n bs (r' + n * bs) ∧ t.mem.fate = mem.fate ∧
      ∀ i, (Released n (ws / bs) (r / bs) (r' / bs - r / bs) i → t.buffers i = none) ∧
        (¬ Released n (ws / bs) (r / bs) (r' / bs - r / bs) i → t.buffers i = buffers i) := by
  have hn := g.n_le
  have hnpos := g.n_pos
  have hle : r / bs ≤ r' / bs := Nat.div_le_div_right hr
  have hlap : r' / bs ≤ r / bs + n := by
    rw [← div_add_capacity g.bs_pos]
    exact Nat.div_le_div_right hr'
  have hnew : block n bs (r' + n * bs) = (r / bs + n + (r' / bs - r / bs)) % (2 * n) := by
    rw [block, div_add_capacity g.bs_pos]
    congr 1
    omega
  have hold : block n bs (r + n * bs) = (r / bs + n) % (2 * n) := by
    rw [block, div_add_capacity g.bs_pos]
  rw [hnew, hold] at ht
  have hfuel : r' / bs - r / bs ≤ 2 * n := by omega
  obtain ⟨hfree, hfate, hbuf⟩ := buffGcLoop_spec bufferSize (block n bs ws) pool
    (a := r / bs + n) (d := r' / bs - r / bs) (by omega) hfuel
    (s := { buffers := buffers, uHFree := (r / bs + n) % (2 * n), mem := mem, cnt := 0 })
    rfl rfl
  subst ht
  refine ⟨?_, hfate, fun i => ?_⟩
  · have hlt : (r / bs + n + (r' / bs - r / bs)) % (2 * n) < 2 * n := Nat.mod_lt _ (by omega)
    rw [hnew]
    simp only [buffGcHelp, hfree]
    exact u16_of_lt (by omega)
  · have hsame : Released n (block n bs ws) (r / bs + n) (r' / bs - r / bs) i ↔
        Released n (ws / bs) (r / bs) (r' / bs - r / bs) i := by
      simp only [Released, block_mod, slot, Nat.add_right_comm (r / bs) n,
        Nat.add_mod_right]
    rw [← hsame]
    exact hbuf i

/-- Blocks strictly behind the reader hold no byte between the reader and a writer
that is at most a capacity ahead of the reader's old position. The one block that
can coincide with such a byte is the writer's own, which is not released. -/
theorem Released.ne_slot {n bs r r' w p : Nat} (g : Geometry n bs) (hw : w ≤ r + n * bs)
    (hrp : r' ≤ p) (hpw : p ≤ w) {i : Nat}
    (h : Released n (w / bs) (r / bs) (r' / bs - r / bs) i) : slot n bs p ≠ i := by
  obtain ⟨hne, j, hj, rfl⟩ := h
  intro hslot
  have hp1 : r' / bs ≤ p / bs := Nat.div_le_div_right hrp
  have hp2 : p / bs ≤ w / bs := Nat.div_le_div_right hpw
  have hw2 : w / bs ≤ r / bs + n := by
    rw [← div_add_capacity g.bs_pos]
    exact Nat.div_le_div_right hw
  by_cases hlap : p / bs < r / bs + j + n
  · have := block_index_unique hslot hlap (by omega)
    omega
  · have hwp : w / bs = p / bs := by omega
    exact hne (by rw [hwp]; exact hslot.symm)

/-- Moving the reader keeps the bytes it has not passed and the writer's block. -/
theorem buffGcHelp_holds {n bs : Nat} (g : Geometry n bs) {bufferSize : Nat} {pool : Option Nat}
    {mem : Memory α} {buffers : Nat → Option (Block α)} {t : BuffGc α} {r r' w : Nat}
    (hr : r ≤ r') (hr' : r' ≤ w) (hw : w ≤ r + n * bs) {xs : List α}
    (h : Holds buffers n bs r' xs) (hlen : r' + xs.length ≤ w)
    (ht : buffGcHelp buffers n bufferSize (block n bs (r + n * bs)) (block n bs (r' + n * bs))
      (block n bs w) pool mem = t) :
    t.uHFree = block n bs (r' + n * bs) ∧ t.mem.fate = mem.fate ∧
      Holds t.buffers n bs r' xs ∧ t.buffers (slot n bs w) = buffers (slot n bs w) := by
  obtain ⟨hfree, hfate, hbuf⟩ := buffGcHelp_spec g hr (Nat.le_trans hr' hw) ht
  have hkeep : ∀ p, r' ≤ p → p ≤ w → t.buffers (slot n bs p) = buffers (slot n bs p) :=
    fun p hrp hpw => (hbuf _).2 fun hrel => hrel.ne_slot g hw hrp hpw rfl
  exact ⟨hfree, hfate, h.congr_slots fun i hi => hkeep _ (by omega) (by omega),
    hkeep w hr' (Nat.le_refl _)⟩

/-! ## Blocks on demand -/

/-- The slot array of a buffer together with the heap. -/
structure Arena (α : Type u) where
  buffers : Nat → Option (Block α)
  mem : Memory α

/-- `if(!buffers[i]) buffers[i] = buff_pool_new_buff(pool, buffer_size);` -/
def Arena.fetch (a : Arena α) (pool : Option Nat) (bufferSize i : Nat) :
    Option (Block α) × Arena α :=
  match a.buffers i with
  | some bf => (some bf, a)
  | none =>
      match buffPoolNewBuff a.mem pool bufferSize with
      | (none, mem) => (none, { a with mem := mem })
      | (some bf, mem) =>
          (some bf, { buffers := Function.update a.buffers i (some bf), mem := mem })

/-- Make sure slot `i` has a block and copy `xs` into it. The result is false when the
block could not be allocated. -/
def Arena.copyIn (a : Arena α) (pool : Option Nat) (bufferSize i off : Nat) (xs : List α) :
    Bool × Arena α :=
  match a.fetch pool bufferSize i with
  | (none, a) => (false, a)
  | (some bf, a) =>
      (true, { a with buffers := Function.update a.buffers i (some (bf.write off xs)) })

namespace Arena

variable (a : Arena α) (pool : Option Nat) (bufferSize i : Nat)

@[simp] theorem fetch_fate : (a.fetch pool bufferSize i).2.mem.fate = a.mem.fate := by
  unfold fetch
  split
  · rfl
  · have h := buffPoolNewBuff_fate a.mem pool bufferSize
    split <;> (rename_i heq; rw [heq] at h; exact h)

/-- After a successful fetch the slot holds the returned block, and a block that was
already there is kept. -/
theorem fetch_some {bf : Block α} (h : (a.fetch pool bufferSize i).1 = some bf) :
    (a.fetch pool bufferSize i).2.buffers = Function.update a.buffers i (some bf) ∧
      ∀ bf', a.buffers i = some bf' → bf' = bf := by
  unfold fetch at h ⊢
  split at h
  · rename_i bf₀ hbf
    cases h
    rw [hbf]
    refine ⟨(Function.update_eq_self_iff.mpr hbf.symm).symm, ?_⟩
    intro bf' hbf'
    exact (Option.some.inj hbf').symm
  · rename_i hnone
    split at h
    · cases h
    · cases h
      refine ⟨rfl, ?_⟩
      intro bf' hbf'
      rw [hnone] at hbf'
      cases hbf'

theorem fetch_none (h : (a.fetch pool bufferSize i).1 = none) :
    (a.fetch pool bufferSize i).2.buffers = a.buffers := by
  unfold fetch at h ⊢
  split at h
  · cases h
  · split at h
    · rfl
    · cases h

theorem fetch_isSome {a : Arena α} (h : a.mem.AllocOk) (pool : Option Nat) (bufferSize i : Nat) :
    ∃ bf, (a.fetch pool bufferSize i).1 = some bf := by
  unfold fetch
  split
  · exact ⟨_, rfl⟩
  · obtain ⟨bf, hbf⟩ := buffPoolNewBuff_isSome h pool bufferSize
    split
    · rename_i heq
      rw [heq] at hbf
      cases hbf
    · exact ⟨_, rfl⟩

/-- Fetching a block keeps what is stored. -/
theorem fetch_holds {n bs lo : Nat} {xs : List α} (h : LapRing.Holds a.buffers n bs lo xs) :
    LapRing.Holds (a.fetch pool bufferSize i).2.buffers n bs lo xs := by
  cases hres : (a.fetch pool bufferSize i).1 with
  | none => rwa [a.fetch_none pool bufferSize i hres]
  | some bf =>
      obtain ⟨hbuf, hkeep⟩ := a.fetch_some pool bufferSize i hres
      rw [hbuf]
      intro j x hx
      have hcell := h j x hx
      by_cases hslot : slot n bs (lo + j) = i
      · simp only [LapRing.cell, hslot, Option.map_eq_some_iff] at hcell
        obtain ⟨bf', hbf', hdata⟩ := hcell
        simp only [LapRing.cell, hslot, Function.update_self, Option.map_some, ← hkeep bf' hbf',
          hdata]
      · simpa only [LapRing.cell, Function.update_of_ne hslot] using hcell

@[simp] theorem copyIn_fate (off : Nat) (xs : List α) :
    (a.copyIn pool bufferSize i off xs).2.mem.fate = a.mem.fate := by
  have h := fetch_fate a pool bufferSize i
  unfold copyIn
  split <;> (rename_i heq; rw [heq] at h; exact h)

end Arena

/-- A step that may allocate, keeps the segment `xs`, and appends `ys` to it unless an
allocation fails. -/
structure Filled (n bs lo : Nat) (xs ys : List α) (a a' : Arena α) (done : Bool) : Prop where
  fate : a'.mem.fate = a.mem.fate
  success : a.mem.AllocOk → done = true
  keeps : Holds a'.buffers n bs lo xs
  appends : done = true → Holds a'.buffers n bs lo (xs ++ ys)

theorem Filled.trans {n bs lo : Nat} {xs ys zs : List α} {a b c : Arena α} {done : Bool}
    (h : Filled n bs lo xs ys a b true) (h' : Filled n bs lo (xs ++ ys) zs b c done) :
    Filled n bs lo xs (ys ++ zs) a c done where
  fate := h'.fate.trans h.fate
  success ha := h'.success (ha.of_fate_eq h.fate)
  keeps := (Holds.append_iff.mp h'.keeps).1
  appends hdone := by
    rw [← List.append_assoc]
    exact h'.appends hdone

theorem Arena.copyIn_some {a : Arena α} {pool : Option Nat} {bufferSize i : Nat} {bf : Block α}
    (hbf : (a.fetch pool bufferSize i).1 = some bf) (off : Nat) (ys : List α) :
    (a.copyIn pool bufferSize i off ys).1 = true ∧
      (a.copyIn pool bufferSize i off ys).2.buffers =
        Function.update a.buffers i (some (bf.write off ys)) := by
  have hbuf := (a.fetch_some pool bufferSize i hbf).1
  unfold copyIn
  rw [← Prod.mk.eta (p := a.fetch pool bufferSize i), hbf]
  exact ⟨rfl, by simp only [hbuf, Function.update_idem]⟩

theorem Arena.copyIn_none {a : Arena α} {pool : Option Nat} {bufferSize i : Nat}
    (hnone : (a.fetch pool bufferSize i).1 = none) (off : Nat) (ys : List α) :
    (a.copyIn pool bufferSize i off ys).1 = false ∧
      (a.copyIn pool bufferSize i off ys).2.buffers = a.buffers := by
  have hbuf := a.fetch_none pool bufferSize i hnone
  unfold copyIn
  rw [← Prod.mk.eta (p := a.fetch pool bufferSize i), hnone]
  exact ⟨rfl, hbuf⟩

/-- Copying a piece to the end of a stored segment extends the segment. -/
theorem Arena.copyIn_filled {n bs : Nat} (g : Geometry n bs) {a a' : Arena α} {done : Bool}
    {pool : Option Nat} {bufferSize i off lo : Nat} {xs ys : List α}
    (h : Holds a.buffers n bs lo xs) (hi : i = slot n bs (lo + xs.length))
    (hoff : off = offset bs (lo + xs.length)) (hfit : off + ys.length ≤ bs)
    (hcap : xs.length + ys.length ≤ n * bs)
    (ht : a.copyIn pool bufferSize i off ys = (done, a')) :
    Filled n bs lo xs ys a a' done := by
  subst hi hoff
  have hfate := a.copyIn_fate pool bufferSize (slot n bs (lo + xs.length))
    (offset bs (lo + xs.length)) ys
  cases hres : (a.fetch pool bufferSize (slot n bs (lo + xs.length))).1 with
  | none =>
      obtain ⟨hdone, hbuf⟩ := copyIn_none hres (offset bs (lo + xs.length)) ys
      rw [ht] at hdone hbuf hfate
      refine ⟨hfate, fun halloc => ?_, ?_, ?_⟩
      · obtain ⟨bf, hbf⟩ := fetch_isSome halloc pool bufferSize (slot n bs (lo + xs.length))
        rw [hres] at hbf
        cases hbf
      · rw [hbuf]
        exact h
      · intro htrue
        cases hdone.symm.trans htrue
  | some bf =>
      obtain ⟨hdone, hbuf⟩ := copyIn_some hres (offset bs (lo + xs.length)) ys
      have hkeep := (a.fetch_some pool bufferSize _ hres).2
      have hall : Holds a'.buffers n bs lo (xs ++ ys) := by
        rw [ht] at hbuf
        rw [hbuf]
        exact h.write_append g.bs_pos hfit hcap hkeep
      rw [ht] at hdone hfate
      exact ⟨hfate, fun _ => hdone, (Holds.append_iff.mp hall).1, fun _ => hall⟩

end RandServer
