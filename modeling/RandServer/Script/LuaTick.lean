import RandServer.Script.SecTick
import RandServer.Tool.SbtreeInsert
import RandServer.Tool.SbtreeRank

/-!
# Timer ids

`lua_tick.c` over the size-balanced tree. A new id is found by rank and select, as the one
behind the last id of its second. So ids are distinct as long as the sizes of the tree are
right, and `sb_tree_delete` may leave a wrong one.

With right sizes the tree is the sorted multiset on which the rounds of timers work.
-/

namespace RandServer

open KeySeq SbTree

/-- The timer ids in the tree. The values are null pointers. -/
def SbTree.ids (t : SbTree Nat Unit) : List Nat := t.inOrder.map Prod.fst

/-- The static `tick_root`, and the ids that `lua_tick_reg` has returned and that have not been
given to `lua_tick_unreg` since, in order of registration. -/
structure LuaTick where
  tickRoot : SbTree Nat Unit
  registered : List Nat

namespace LuaTick

/-- The key that `lua_tick_reg` inserts, or `none` if `sb_tree_index` reads through a null
pointer. -/
def nextId (t : SbTree Nat Unit) (seconds : Int) : Option Nat :=
  let seconds := seconds.bmod (2 ^ 32)
  let key := tickKey seconds
  let nextkey := tickKey (seconds + 1)
  let index := sbTreeLt nextkey t
  if 0 < index then
    (sbTreeIndex t (index - 1)).map fun node =>
      match node.entry with
      | some (last, _) => if key ≤ last then (last + 1) % 2 ^ 64 else key
      | none => key
  else some key

/-- `lua_tick_reg`: the id and the new tree. -/
def reg (fuel : Nat) (alloc : Bool) (t : SbTree Nat Unit) (seconds : Int) :
    Option (Nat × SbTree Nat Unit) := do
  let key ← nextId t seconds
  let t ← sbTreeInsert fuel alloc key () t
  some (key, t)

/-- The key of a Lua integer. -/
def keyOf (key : Int) : Nat := (key % 2 ^ 64).toNat

/-- `lua_tick_unreg`. -/
def unreg (fuel : Nat) (t : SbTree Nat Unit) (key : Int) : Option (SbTree Nat Unit) :=
  (sbTreeDelete fuel (keyOf key) t).map Prod.snd

/-- A call with its fuel, and for a registration the outcome of `malloc`. -/
inductive Action
  | reg (seconds : Int) (alloc : Bool) (fuel : Nat)
  | unreg (key : Int) (fuel : Nat)

def step (s : LuaTick) : Action → Option LuaTick
  | .reg seconds alloc fuel =>
      (reg fuel alloc s.tickRoot seconds).map fun res => ⟨res.2, s.registered ++ [res.1]⟩
  | .unreg key fuel =>
      (unreg fuel s.tickRoot key).map fun t => ⟨t, s.registered.erase (keyOf key)⟩

/-- The last id of a second is in use. -/
def Exhausted (t : SbTree Nat Unit) (seconds : Nat) : Prop := (seconds + 1) * 2 ^ 32 - 1 ∈ t.ids

instance (t : SbTree Nat Unit) (seconds : Nat) : Decidable (Exhausted t seconds) :=
  inferInstanceAs (Decidable (_ ∈ t.ids))

/-- Registrations are for the seconds of an `int` but for the last one, find an id, and have
the memory for a node. -/
def Allowed (s : LuaTick) : Action → Prop
  | .reg seconds alloc _ => 0 ≤ seconds ∧ seconds < 2 ^ 31 - 1 ∧
      ¬ Exhausted s.tickRoot seconds.toNat ∧ alloc = true ∧ s.tickRoot.count + 1 < 2 ^ 32
  | .unreg _ _ => True

/-- Moreover, a cancellation meets no defective node. -/
def Safe (s : LuaTick) (a : Action) : Prop :=
  s.Allowed a ∧ match a with
    | .reg _ _ _ => True
    | .unreg key _ => Deletable (keyOf key) s.tickRoot

instance (s : LuaTick) : (a : Action) → Decidable (s.Allowed a)
  | .reg _ _ _ => inferInstanceAs (Decidable (_ ∧ _))
  | .unreg _ _ => inferInstanceAs (Decidable True)

instance (s : LuaTick) : (a : Action) → Decidable (s.Safe a)
  | .reg _ _ _ => inferInstanceAs (Decidable (_ ∧ True))
  | .unreg key _ => inferInstanceAs (Decidable (True ∧ Deletable (keyOf key) s.tickRoot))

end LuaTick

def luaTick : Machine LuaTick LuaTick.Action where
  Init s := s = ⟨.nil, []⟩
  step := LuaTick.step

namespace LuaTick

/-- The second of an id. -/
def second (key : Nat) : Nat := key / 2 ^ 32

/-- Registration inserts an id of the second, and one behind those of the second in the tree. -/
def Registers (t : SbTree Nat Unit) (seconds : Nat) : Prop :=
  ∃ bound id t', (∀ fuel, bound ≤ fuel → reg fuel true t seconds = some (id, t')) ∧
    seconds * 2 ^ 32 ≤ id ∧ id < (seconds + 1) * 2 ^ 32 ∧ id ∉ t.ids ∧
    (∀ k ∈ t.ids, second k = seconds → k < id) ∧ Adds (id, ()) t.inOrder t'.inOrder

/-- The registered ids are distinct, and `sb_tree_index` enumerates them by second and then by
order of registration. -/
structure Exact (s : LuaTick) : Prop where
  distinct : s.registered.Nodup
  enumerated : ∃ ids : List Nat, (∀ index, ∃ node, sbTreeIndex s.tickRoot index = some node ∧
    node.entry.map Prod.fst = ids[index]?) ∧
    ids.Pairwise (second · ≤ second ·) ∧ AgreeBy second ids s.registered

end LuaTick

/-! ## The sorted multiset -/

section Multiset

variable {t : TickTree} {k s : Nat}

theorem tickKey_bmod (hs : s < 2 ^ 31 - 1) : tickKey ((s : Int).bmod (2 ^ 32)) = s * 2 ^ 32 := by
  rw [tickKey_eq, tickSecond_bmod, tickSecond_natCast (by omega)]

theorem tickKey_bmod_succ (hs : s < 2 ^ 31 - 1) :
    tickKey ((s : Int).bmod (2 ^ 32) + 1) = (s + 1) * 2 ^ 32 := by
  have hsecond : tickSecond ((s : Int).bmod (2 ^ 32)) = s := by
    rw [tickSecond_bmod, tickSecond_natCast (by omega)]
  have hsucc := tickSecond_succ ((s : Int).bmod (2 ^ 32))
  rw [hsecond] at hsucc
  rw [tickKey_eq]
  omega

/-- A new id is the first one of its second, or the one behind the last one in use. -/
theorem luaTickReg_cases (t : TickTree) (hs : s < 2 ^ 31 - 1) :
    ((luaTickReg t s).1 = s * 2 ^ 32 ∧ ∀ k ∈ t.keys, k / 2 ^ 32 ≠ s) ∨
      ∃ last ∈ t.keys, last / 2 ^ 32 = s ∧ (luaTickReg t s).1 = last + 1 ∧
        ∀ k ∈ t.keys, k / 2 ^ 32 = s → k ≤ last := by
  simp only [luaTickReg, tickKey_bmod hs, tickKey_bmod_succ hs]
  by_cases hpos : 0 < t.lt ((s + 1) * 2 ^ 32)
  · obtain ⟨k, hk, hbelow⟩ := List.countP_pos_iff.mp hpos
    obtain ⟨-, last, hat, -, hlt⟩ := TickTree.index_lt_pred hk (of_decide_eq_true hbelow)
    have hmem : last ∈ t.keys := List.mem_of_getElem? hat
    have hlast : ∀ k ∈ t.keys, k < (s + 1) * 2 ^ 32 → k ≤ last := by
      intro k hk hbelow
      obtain ⟨-, last', hat', hle, -⟩ := TickTree.index_lt_pred hk hbelow
      obtain rfl : last = last' := Option.some.inj (hat.symm.trans hat')
      exact hle
    simp only [if_pos hpos, hat]
    by_cases hkey : s * 2 ^ 32 ≤ last
    · right
      refine ⟨last, hmem, by omega, ?_, fun k hk hsecond => hlast k hk (by omega)⟩
      rw [if_pos hkey, Nat.mod_eq_of_lt (by omega)]
    · left
      refine ⟨if_neg hkey, fun k hk hsecond => ?_⟩
      have := hlast k hk (by omega)
      omega
  · left
    simp only [if_neg hpos, true_and]
    intro k hk hsecond
    have hbelow : k < (s + 1) * 2 ^ 32 := by omega
    exact hpos (TickTree.index_lt_pred hk hbelow).1

end Multiset

/-! ## The tree refines the multiset -/

namespace SbTree.Inv

variable {t t' : SbTree Nat Unit} {key id : Nat}

/-- The ids of a tree with right sizes. -/
def tickTree (h : t.Inv) : TickTree where
  keys := t.ids
  sorted := List.pairwise_map.mpr h.ordered

theorem lt_tickTree (h : t.Inv) (key : Nat) : sbTreeLt key t = h.tickTree.lt key := by
  apply ((sbTree_ranked h).lt key).trans
  exact (@List.countP_map _ _ (· < key) Prod.fst t.inOrder).symm

theorem index_tickTree (h : t.Inv) (index : Nat) : ∃ node, sbTreeIndex t index = some node ∧
    node.entry.map Prod.fst = h.tickTree.index index := by
  obtain ⟨node, hnode, hentry⟩ := h.select index
  exact ⟨node, hnode, (congrArg _ hentry).trans List.getElem?_map.symm⟩

theorem ids_eq (h' : t'.Inv) {keys : List Nat} (hsorted : keys.Pairwise (· ≤ ·))
    (hperm : t'.ids.Perm keys) : t'.ids = keys :=
  hperm.eq_of_pairwise (fun _ _ _ _ => Nat.le_antisymm) h'.tickTree.sorted hsorted

theorem ids_of_adds (h : t.Inv) (h' : t'.Inv) (hadds : Adds (id, ()) t.inOrder t'.inOrder) :
    t'.ids = (h.tickTree.insert id).keys := by
  apply h'.ids_eq (h.tickTree.insert id).sorted
  obtain ⟨front, back, hold, hnew⟩ := hadds
  have hinsert : ((h.tickTree.insert id).keys).Perm (id :: t.ids) :=
    List.perm_orderedInsert (· ≤ ·) id t.ids
  apply List.Perm.trans _ hinsert.symm
  simp only [ids, hold, hnew, List.map_append, List.map_cons]
  exact List.perm_middle

theorem ids_of_deletes (h : t.Inv) (h' : t'.Inv) {record : Option (Nat × Unit)}
    (hdel : Deletes key record t.inOrder t'.inOrder) : t'.ids = (h.tickTree.delete key).keys := by
  apply h'.ids_eq (h.tickTree.delete key).sorted
  obtain ⟨-, front, value, back, hold, hnew⟩ | ⟨-, hnone, hsame⟩ := hdel
  · have hperm : t.ids.Perm (key :: t'.ids) := by
      simp only [ids, hold, hnew, List.map_append, List.map_cons]
      exact List.perm_middle
    have herase := hperm.erase key
    simp only [List.erase_cons_head] at herase
    exact herase.symm
  · have hmem : key ∉ t.ids := by
      intro hmem
      obtain ⟨⟨k, value⟩, he, rfl⟩ := List.mem_map.mp hmem
      exact hnone ⟨value, he⟩
    have hids : t'.ids = t.ids := congrArg (List.map Prod.fst) hsame
    have herase : (h.tickTree.delete key).keys = t.ids := List.erase_of_not_mem hmem
    rw [hids, herase]

/-- The id is found as in the multiset. -/
theorem nextId_eq (h : t.Inv) (seconds : Int) :
    LuaTick.nextId t seconds = some (luaTickReg h.tickTree seconds).1 := by
  simp only [LuaTick.nextId, luaTickReg, h.lt_tickTree]
  split
  · obtain ⟨node, hnode, hentry⟩ := h.index_tickTree
      (h.tickTree.lt (tickKey (seconds.bmod (2 ^ 32) + 1)) - 1)
    simp only [hnode, ← hentry, Option.map_some]
    cases node.entry <;> rfl
  · rfl

end SbTree.Inv

namespace LuaTick

variable {s s' : LuaTick} {t t' : SbTree Nat Unit} {key id : Nat} {seconds : Int}

theorem reg_eq (h : t.Inv) {fuel : Nat} {alloc : Bool} :
    reg fuel alloc t seconds =
      (sbTreeInsert fuel alloc (luaTickReg h.tickTree seconds).1 () t).map
        ((luaTickReg h.tickTree seconds).1, ·) := by
  simp only [reg, h.nextId_eq, Option.bind_eq_bind, Option.bind_some]
  cases sbTreeInsert fuel alloc (luaTickReg h.tickTree seconds).1 () t <;> rfl

/-- Registration refines that in the multiset. -/
theorem reg_refines (h : t.Inv) (hcount : t.count + 1 < 2 ^ 32) {fuel : Nat}
    (hreg : reg fuel true t seconds = some (id, t')) :
    ∃ h' : t'.Inv, (id, h'.tickTree) = luaTickReg h.tickTree seconds := by
  rw [reg_eq h] at hreg
  obtain ⟨u, hinsert, heq⟩ := Option.map_eq_some_iff.mp hreg
  obtain ⟨rfl, rfl⟩ := Prod.ext_iff.mp heq
  obtain ⟨h', hadds⟩ := h.insert hcount hinsert
  refine ⟨h', Prod.ext rfl ?_⟩
  rw [luaTickReg_keys, TickTree.mk.injEq]
  exact h.ids_of_adds h' hadds

/-- So does cancellation, if it meets no defective node. -/
theorem unreg_refines (h : t.Inv) {key : Int} (hdel : Deletable (keyOf key) t) {fuel : Nat}
    (hunreg : unreg fuel t key = some t') :
    ∃ h' : t'.Inv, h'.tickTree = h.tickTree.delete (keyOf key) := by
  obtain ⟨⟨ret, u⟩, hdelete, rfl⟩ := Option.map_eq_some_iff.mp hunreg
  obtain ⟨h', record, hdone⟩ := h.delete_result hdel hdelete
  refine ⟨h', ?_⟩
  rw [TickTree.mk.injEq]
  exact h.ids_of_deletes h' hdone

/-! ## Runs -/

/-- The id is behind all ids in the tree of its second and of those before it. -/
theorem luaTickReg_fresh (h : t.Inv) {n : Nat} (hn : n < 2 ^ 31 - 1) (hroom : ¬ Exhausted t n) :
    n * 2 ^ 32 ≤ (luaTickReg h.tickTree n).1 ∧ (luaTickReg h.tickTree n).1 < (n + 1) * 2 ^ 32 ∧
      ∀ k ∈ t.ids, second k = n → k < (luaTickReg h.tickTree n).1 := by
  obtain ⟨hid, hnone⟩ | ⟨last, hlast, hsecond, hid, hmax⟩ := luaTickReg_cases h.tickTree hn
  · rw [hid]
    exact ⟨Nat.le_refl _, by omega, fun k hk hsecond => absurd hsecond (hnone k hk)⟩
  · have hne : last ≠ (n + 1) * 2 ^ 32 - 1 := by
      rintro rfl
      exact hroom hlast
    rw [hid]
    exact ⟨by omega, by omega, fun k hk hsecond => Nat.lt_succ_of_le (hmax k hk hsecond)⟩

theorem registers_iff (h : t.Inv) {n : Nat} (hn : n < 2 ^ 31 - 1) :
    Registers t n ↔ ¬ Exhausted t n := by
  constructor
  · rintro ⟨bound, id, t', -, -, hlt, -, hlater, -⟩ hlast
    have := hlater _ hlast (by simp only [second]; omega)
    omega
  · intro hroom
    obtain ⟨hge, hlt, hlater⟩ := luaTickReg_fresh h hn hroom
    obtain ⟨⟨bound, t', hinsert, hin, -⟩, -⟩ :=
      sbTreeInsert_refines h (luaTickReg h.tickTree n).1 ()
    refine ⟨bound, _, t', fun fuel hfuel => ?_, hge, hlt, fun hmem => ?_, hlater, ?_⟩
    · rw [reg_eq h, hinsert fuel hfuel, Option.map_some]
    · have := hlater _ hmem (by simp only [second]; omega)
      omega
    · obtain ⟨front, back, hold, hnew, -⟩ :=
        insertEntry_split h.ordered ((luaTickReg h.tickTree n).1, ())
      exact ⟨front, back, hold, hin.trans hnew⟩

structure Inv (s : LuaTick) : Prop where
  tree : s.tickRoot.Inv
  distinct : s.tickRoot.ids.Nodup
  agree : AgreeBy second s.tickRoot.ids s.registered

theorem Inv.exact (h : s.Inv) : s.Exact := by
  refine ⟨h.agree.perm.nodup_iff.mp h.distinct, s.tickRoot.ids, h.tree.index_tickTree, ?_, h.agree⟩
  apply h.tree.tickTree.sorted.imp
  intro k k' hle
  exact Nat.div_le_div_right hle

/-- An id that is inserted behind those of its second. -/
theorem agree_insert {keys : List Nat} {registered : List Nat} (hagree : AgreeBy second keys registered)
    (hsorted : (keys.orderedInsert (· ≤ ·) id).Pairwise (· ≤ ·))
    (hlater : ∀ k ∈ keys, second k = second id → k < id) :
    AgreeBy second (keys.orderedInsert (· ≤ ·) id) (registered ++ [id]) := by
  rw [List.orderedInsert_eq_take_drop] at hsorted ⊢
  have hbehind := (List.pairwise_append.mp hsorted).2.1
  apply AgreeBy.add
  · rw [List.takeWhile_append_dropWhile]
    exact hagree
  · intro k hk hsecond
    have hle : id ≤ k := (List.pairwise_cons.mp hbehind).1 k hk
    have hlt := hlater k ((List.dropWhile_sublist _).subset hk) hsecond
    omega

theorem Inv.step_reg (h : s.Inv) {alloc : Bool} {fuel : Nat}
    (hok : s.Allowed (.reg seconds alloc fuel))
    (hstep : s.step (.reg seconds alloc fuel) = some s') : s'.Inv := by
  obtain ⟨hnonneg, hbound, hroom, rfl, hcount⟩ := hok
  obtain ⟨n, rfl⟩ := Int.eq_ofNat_of_zero_le hnonneg
  obtain ⟨⟨id, t'⟩, hreg, rfl⟩ := Option.map_eq_some_iff.mp hstep
  obtain ⟨h', heq⟩ := reg_refines h.tree hcount hreg
  obtain ⟨rfl, htree⟩ := Prod.ext_iff.mp heq
  have hn : n < 2 ^ 31 - 1 := by omega
  obtain ⟨hge, hlt, hlater⟩ := luaTickReg_fresh h.tree hn hroom
  have hsecond : second (luaTickReg h.tree.tickTree n).1 = n := by
    simp only [second]
    omega
  have hids : t'.ids = s.tickRoot.ids.orderedInsert (· ≤ ·) (luaTickReg h.tree.tickTree n).1 :=
    congrArg TickTree.keys htree
  refine ⟨h', ?_, ?_⟩
  · show t'.ids.Nodup
    rw [hids, (List.perm_orderedInsert (· ≤ ·) _ _).nodup_iff]
    refine List.nodup_cons.mpr ⟨fun hmem => ?_, h.distinct⟩
    exact Nat.lt_irrefl _ (hlater _ hmem hsecond)
  · show AgreeBy second t'.ids _
    have hsorted := h'.tickTree.sorted
    rw [hids]
    apply agree_insert h.agree
    · rw [← hids]
      exact hsorted
    · intro k hk hk'
      exact hlater k hk (hk'.trans hsecond)

theorem Inv.step_unreg (h : s.Inv) {key : Int} {fuel : Nat}
    (hdel : Deletable (keyOf key) s.tickRoot)
    (hstep : s.step (.unreg key fuel) = some s') : s'.Inv := by
  obtain ⟨t', hunreg, rfl⟩ := Option.map_eq_some_iff.mp hstep
  obtain ⟨h', htree⟩ := unreg_refines h.tree hdel hunreg
  have hids : t'.ids = s.tickRoot.ids.erase (keyOf key) := congrArg TickTree.keys htree
  refine ⟨h', ?_, ?_⟩
  · show t'.ids.Nodup
    rw [hids]
    exact h.distinct.erase _
  · show AgreeBy second t'.ids _
    rw [hids]
    exact h.agree.erase _

theorem Inv.of_safe (h : luaTick.ReachableVia Safe s) : s.Inv := by
  apply h.invariant
  · rintro s rfl
    exact ⟨.of_nil rfl, List.nodup_nil, fun _ => rfl⟩
  · rintro s t (⟨seconds, alloc, fuel⟩ | ⟨key, fuel⟩) hinv ⟨hok, hdel⟩ hstep
    · exact hinv.step_reg hok hstep
    · exact hinv.step_unreg hdel hstep

end LuaTick

/-- With right sizes, registration finds a new id at the end of its second unless the last one
is in use. In every run in which it does, and no cancellation meets a defective node, the ids
are distinct and in order. -/
theorem luaTick_exact {t : SbTree Nat Unit} (ht : t.Inv) {n : Nat} (hn : n < 2 ^ 31 - 1)
    {s : LuaTick} (h : luaTick.ReachableVia LuaTick.Safe s) :
    (LuaTick.Registers t n ↔ ¬ LuaTick.Exhausted t n) ∧ s.Exact :=
  ⟨LuaTick.registers_iff ht hn, (LuaTick.Inv.of_safe h).exact⟩

/-- Two timers of one second, one of an earlier second, and a cancellation. -/
theorem luaTick_exact_three : ∃ s, luaTick.runVia LuaTick.Safe ⟨.nil, []⟩
      [.reg 5 true 10, .reg 5 true 10, .reg 3 true 10, .unreg (5 * 2 ^ 32) 100] = some s ∧
    s.registered = [5 * 2 ^ 32 + 1, 3 * 2 ^ 32] ∧ s.Exact ∧ LuaTick.Registers s.tickRoot 5 := by
  have hany : (luaTick.runVia LuaTick.Safe ⟨.nil, []⟩
      [.reg 5 true 10, .reg 5 true 10, .reg 3 true 10, .unreg (5 * 2 ^ 32) 100]).any
      (fun s => s.registered = [5 * 2 ^ 32 + 1, 3 * 2 ^ 32] ∧
        ¬ LuaTick.Exhausted s.tickRoot 5) = true := by
    decide +kernel
  obtain ⟨s, hrun, hs⟩ := (Option.any_eq_true _ _).mp hany
  obtain ⟨hids, hroom⟩ := of_decide_eq_true hs
  have hsafe : luaTick.ReachableVia LuaTick.Safe s := .runVia (.init rfl) hrun
  have hinv : s.tickRoot.Inv := (LuaTick.Inv.of_safe hsafe).tree
  obtain ⟨hnew, hexact⟩ := @luaTick_exact _ hinv 5 (by decide) _ hsafe
  exact ⟨s, hrun, hids, hexact, hnew.mpr hroom⟩

/-- Timers of 23 seconds, cancellations, and two more timers of one second. -/
def LuaTick.history : List LuaTick.Action :=
  [22, 21, 20, 19, 18, 15, 14, 13, 12, 11, 10, 8, 7, 6, 5, 4, 3, 2, 1, 0, 9, 17, 16].map
      (.reg · true 1000) ++
    [0, 1, 2, 16, 20, 14, 15].map (fun seconds => .unreg (seconds * 2 ^ 32) 1000) ++
    [.reg 18 true 1000, .reg 18 true 1000]

/-- The timer of second 15 is not removed, but lowers a size. Then the two timers of second 18
get one id, of second 19. -/
theorem luaTick_repeats : ¬ ∀ s, luaTick.ReachableVia LuaTick.Allowed s → s.Exact := by
  intro h
  have hany : (luaTick.runVia LuaTick.Allowed ⟨.nil, []⟩ LuaTick.history).any
      (fun s => ¬ s.registered.Nodup) = true := by
    decide +kernel
  obtain ⟨s, hrun, hs⟩ := (Option.any_eq_true _ _).mp hany
  exact of_decide_eq_true hs (h s (.runVia (.init rfl) hrun)).distinct

end RandServer
