import RandServer.Lib.StateError
import RandServer.Script.Server

/-!
# What the scripts do

For each script an equation with its effect, under the conditions that hold for session
objects. The effects are functions on `World`: `dropSession` and `addSession` for the
table of connections, `setObj` and `setMeta` for objects.
-/

namespace RandServer.Script

open StateError

namespace World

variable {w : World} {id mt : Nat} {k : LuaValue} {fd : BitVec 32} {fuel : Nat}

/-! ## Effects -/

def setObj (w : World) (id : Nat) (t : LuaTable) : World :=
  { w with objs := Function.update w.objs id t }

def setMeta (w : World) (id : Nat) (mt : Option Nat) : World :=
  { w with metas := Function.update w.metas id mt }

/-- Close a socket and forget its session. -/
def dropSession (w : World) (fd : BitVec 32) : World :=
  { w with
    sockets := w.sockets.filter (· ≠ fd)
    count := if truthy (w.sessions.get (fdValue fd)) then w.count - 1 else w.count
    sessions := w.sessions.set (fdValue fd) .nil }

/-- Enter a session object for a socket. -/
def addSession (w : World) (fd : BitVec 32) (id : Nat) : World :=
  { w with
    objs := Function.update w.objs id ((w.objs id).set Field.fd.key (fdValue fd))
    count := if truthy (w.sessions.get (fdValue fd)) then w.count else w.count + 1
    sessions := w.sessions.set (fdValue fd) (.table id) }

@[simp] theorem luaKey_fdValue (fd : BitVec 32) : luaKey (fdValue fd) = some (fdValue fd) := rfl

theorem fdValue_inj {fd fd' : BitVec 32} : fdValue fd = fdValue fd' ↔ fd = fd' := by
  refine ⟨fun h => ?_, fun h => by rw [h]⟩
  have hwide : fd.setWidth 64 = fd'.setWidth 64 := LuaValue.integer.inj h
  have hnat := congrArg BitVec.toNat hwide
  simp only [BitVec.toNat_setWidth] at hnat
  apply BitVec.eq_of_toNat_eq
  omega

theorem setWidth_fdValue (fd : BitVec 32) : (fd.setWidth 64).setWidth 32 = fd := by
  apply BitVec.eq_of_toNat_eq
  simp only [BitVec.toNat_setWidth]
  omega

/-! ## Looking up -/

theorem get_obj (hid : allRolesId < id) (k : LuaValue) : w.get id k = (w.objs id).get k := by
  have hnot : id ≠ networkId ∧ id ≠ sessionsId ∧ id ≠ roleSessionId ∧ id ≠ allRolesId := by
    rw [allRolesId] at hid
    rw [networkId, sessionsId, roleSessionId, allRolesId]
    omega
  rw [get, if_neg hnot.1, if_neg hnot.2.1, if_neg hnot.2.2.1, if_neg hnot.2.2.2]

/-- An own field. -/
theorem index_own (h : w.get id k ≠ .nil) : w.index (fuel + 1) (.table id) k = some (w.get id k) := by
  rw [index]
  split <;> simp_all

/-- An absent field of a table without a metatable. -/
theorem index_none (h : w.get id k = .nil) (hmeta : w.metas id = none) :
    w.index (fuel + 1) (.table id) k = some .nil := by
  simp only [index, h, hmeta]

/-- An absent field is looked up behind the metatable. -/
theorem index_meta {next : LuaValue} (h : w.get id k = .nil) (hmeta : w.metas id = some mt)
    (hindex : w.get mt (luaString "__index") = next) (hne : next ≠ .nil) :
    w.index (fuel + 1) (.table id) k = w.index fuel next k := by
  rw [index]
  simp only [h, hmeta, hindex]

end World

/-! ## Primitives -/

section Primitives

variable {w : World} {id : Nat} {v k k' x : LuaValue} {fd : BitVec 32}

theorem getIndex_eq (h : w.index maxTagLoop v k = some x) : getIndex v k w = .ok x w := by
  rw [getIndex, get_bind, h]
  rfl

theorem getIndex_raise (h : w.index maxTagLoop v k = none) : getIndex v k w = .error .error w := by
  rw [getIndex, get_bind, h]
  rfl

/-- Looking up never changes the state. -/
theorem getIndex_cases (w : World) (v k : LuaValue) :
    (∃ x, w.index maxTagLoop v k = some x ∧ getIndex v k w = .ok x w) ∨
      getIndex v k w = .error .error w := by
  cases h : w.index maxTagLoop v k with
  | some x => exact .inl ⟨x, rfl, getIndex_eq h⟩
  | none => exact .inr (getIndex_raise h)

theorem World.unpack_eq {m : Message} {ptr : BitVec 64} (hmail : w.mail ptr = some m)
    (hsize : m.size ≠ 0) :
    unpack (.lightuserdata ptr) (.integer m.size) w = .ok m.values w := by
  show (if m.size = 0 then pure [] else _ : LuaM _) w = _
  rw [if_neg hsize, get_bind, hmail]
  simp only [if_true]
  rfl

theorem fdValue_ne_nil (fd : BitVec 32) : fdValue fd ≠ .nil := by
  intro hnil
  cases hnil

theorem integer_ne_nil {i : BitVec 64} : LuaValue.integer i ≠ .nil := by
  intro hnil
  cases hnil

theorem nil_ne_function (n : Nat) : LuaValue.nil ≠ .function n := by
  intro hnil
  cases hnil

theorem setIndex_eq (hid : allRolesId < id) (hk : luaKey k = some k') :
    setIndex (.table id) k x w = .ok () (w.setObj id ((w.objs id).set k x)) := by
  show (if id ≤ allRolesId then leave else _ : LuaM _) w = _
  rw [if_neg (Nat.not_le.mpr hid), get_bind, LuaTable.rawset_eq hk]
  rfl

theorem setMetatable_eq (hid : allRolesId < id) (mt : Option Nat) :
    setMetatable (.table id) mt w = .ok () (w.setMeta id mt) := by
  show (if id ≤ allRolesId then leave else _ : LuaM _) w = _
  rw [if_neg (Nat.not_le.mpr hid)]
  rfl

/-- The state with a new object. -/
def World.newObj (w : World) : World :=
  { w with
    objs := Function.update w.objs w.next .empty
    metas := Function.update w.metas w.next none
    next := w.next + 1 }

theorem newTable_eq : newTable w = .ok w.next w.newObj := rfl

theorem socketClose_eq : socketClose (fdValue fd) w =
    .ok () { w with sockets := w.sockets.filter (· ≠ fd) } := by
  show EStateM.Result.ok () { w with sockets := w.sockets.filter (· ≠ (fd.setWidth 64).setWidth 32) } = _
  rw [World.setWidth_fdValue]

theorem delSession_eq : delSession (fdValue fd) w = .ok () (w.dropSession fd) := by
  have hset := LuaTable.rawset_eq (World.luaKey_fdValue fd) w.sessions .nil
  rw [delSession, bind_ok socketClose_eq, modify_bind, get_bind]
  simp only [hset]
  rfl

theorem regSession_eq (hid : allRolesId < id) :
    regSession (fdValue fd) (.table id) w = .ok () (w.addSession fd id) := by
  have hset := LuaTable.rawset_eq (World.luaKey_fdValue fd) w.sessions (.table id)
  rw [regSession, bind_ok (setIndex_eq hid (Field.luaKey_key .fd)), modify_bind, get_bind]
  simp only [World.setObj, hset]
  rfl

/-! ## Calls -/

theorem callValue_function (depth : Nat) (f : ServerFunction) (args : List LuaValue) :
    callValue (depth + 1) f.value args = runFunction (callValue depth) f args := by
  rw [ServerFunction.value, callValue, ServerFunction.all_idxOf]

theorem callValue_raise (depth : Nat) (hv : ∀ n, v ≠ .function n) (args : List LuaValue) :
    callValue depth v args w = .error .error w := by
  cases depth with
  | zero => rfl
  | succ depth =>
      cases v with
      | function n => exact absurd rfl (hv n)
      | _ => rfl

end Primitives

end RandServer.Script
