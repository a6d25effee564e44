import RandServer.Net.NetService
import RandServer.Net.Ownership

/-!
# Configuring a socket

`net_socket_cfg` with every allocation and every descriptor it closes, for both
implementations of `post_read`. It creates a read session and a write session, each with
its buffer. The create functions fill their structures with zeros first, and where they
fail they call the release function on what has been set so far.

`create_write_session` sets the descriptor to the invalid one only after the send buffer
has been created. If that fails, `release_write_session` closes descriptor 0.
-/

namespace RandServer

/-- `NET_INVALID_SOCKET`. -/
def netInvalidSocket : Int := -1

/-- The sizes of the structures that are allocated. -/
structure StructSizes where
  recvBuff : Nat
  sendBuff : Nat
  readSession : Nat
  writeSession : Nat

/-- The size of a pointer. -/
def pointerSize : Nat := 8

/-! ## The buffers -/

/-- A receive buffer, with the blocks of the structure and of its array of slots. The
lengths of vB are a block of their own in `rbuff`. -/
structure RecvBuffAt where
  self : Block UInt8
  buffers : Block UInt8
  rbuff : RecvBuff

/-- The field `lens` of vA, which is never used. -/
def noLens : Block UInt8 where
  addr := 0
  size := 0
  data := fun _ => 0

section Create

variable (sizes : StructSizes)

/-- A structure with one array: two allocations, and what is made of them. -/
def allocPair {β : Type} (size arraySize : Nat)
    (make : Memory UInt8 → Block UInt8 → Block UInt8 → β) (m : Memory UInt8) :
    Option β × Memory UInt8 :=
  match m.malloc size with
  | (none, m) => (none, m)
  | (some self, m) =>
      match m.malloc arraySize with
      | (none, m) => (none, m.free self)
      | (some array, m) => (some (make m self array), m)

/-- `recv_buff_create_vA`, with its allocations. -/
def recvBuffCreateAtVA (m : Memory UInt8) (config : NetConfig) : Option RecvBuffAt × Memory UInt8 :=
  allocPair sizes.recvBuff (config.readBuffCnt * pointerSize) (fun m self buffers =>
    { self := self
      buffers := buffers
      rbuff := recvBuffCreateVA m noLens config.enByte config.readBuffCnt config.pool }) m

/-- `recv_buff_create_vB`, with its allocations. -/
def recvBuffCreateAtVB (m : Memory UInt8) (config : NetConfig) : Option RecvBuffAt × Memory UInt8 :=
  match m.malloc sizes.recvBuff with
  | (none, m) => (none, m)
  | (some self, m) =>
      match m.malloc (config.readBuffCnt * pointerSize) with
      | (none, m) => (none, m.free self)
      | (some buffers, m) =>
          match m.malloc (config.readBuffCnt * 4) with
          | (none, m) => (none, (m.free buffers).free self)
          | (some lens, m) =>
              (some
                { self := self
                  buffers := buffers
                  rbuff := recvBuffCreateVB lens config.enByte config.readBuffCnt 0
                    (some config.pool) }, m)

/-- `recv_buff_create`. -/
def recvBuffCreateAt (m : Memory UInt8) (config : NetConfig) : Option RecvBuffAt × Memory UInt8 :=
  match config.readBuffVersion with
  | .useQueue => recvBuffCreateAtVB sizes m config
  | .useBuff => recvBuffCreateAtVA sizes m config

/-- `recv_buff_release`: the blocks in the slots, the arrays and the structure. -/
def recvBuffReleaseAt (m : Memory UInt8) (b : RecvBuffAt) : Memory UInt8 :=
  let m := (recvBuffRelease m b.rbuff).free b.buffers
  match b.rbuff.version with
  | .useBuff => m.free b.self
  | .useQueue => (m.free b.rbuff.lens).free b.self

/-- A send buffer, with the blocks of the structure and of its array of slots. -/
structure SendBuffAt where
  self : Block UInt8
  buffers : Block UInt8
  sbuff : SendBuff

/-- `send_buff_create`, with its allocations. -/
def sendBuffCreateAt (m : Memory UInt8) (config : NetConfig) : Option SendBuffAt × Memory UInt8 :=
  allocPair sizes.sendBuff (config.writeBuffCnt * pointerSize) (fun m self buffers =>
    { self := self
      buffers := buffers
      sbuff := sendBuffCreate m config.enByte config.writeBuffCnt config.pool }) m

/-- `send_buff_release`. -/
def sendBuffReleaseAt (m : Memory UInt8) (b : SendBuffAt) : Memory UInt8 :=
  ((sendBuffRelease m b.sbuff).free b.buffers).free b.self

/-! ## The sessions -/

structure ReadSessionAt where
  self : Block UInt8
  rbuff : Option RecvBuffAt

/-- `release_read_session`. -/
def releaseReadSessionAt (m : Memory UInt8) (rsession : ReadSessionAt) : Memory UInt8 :=
  let m := rsession.rbuff.elim m (recvBuffReleaseAt m)
  m.free rsession.self

/-- `create_read_session`. -/
def createReadSession (m : Memory UInt8) (config : NetConfig) :
    Option ReadSessionAt × Memory UInt8 :=
  match m.malloc sizes.readSession with
  | (none, m) => (none, m)
  | (some self, m) =>
      let rsession : ReadSessionAt := { self := self, rbuff := none }
      match recvBuffCreateAt sizes m config with
      | (none, m) => (none, releaseReadSessionAt m rsession)
      | (some rbuff, m) => (some { rsession with rbuff := some rbuff }, m)

structure WriteSessionAt where
  self : Block UInt8
  sbuff : Option SendBuffAt
  fd : Int

/-- `release_write_session`: the descriptors closed, and the heap. -/
def releaseWriteSessionAt (m : Memory UInt8) (wsession : WriteSessionAt) :
    List Int × Memory UInt8 :=
  let m := wsession.sbuff.elim m (sendBuffReleaseAt m)
  (if wsession.fd ≠ netInvalidSocket then [wsession.fd] else [], m.free wsession.self)

/-- `create_write_session`. The structure is filled with zeros, and the descriptor is set
last. -/
def createWriteSession (m : Memory UInt8) (config : NetConfig) :
    Option WriteSessionAt × List Int × Memory UInt8 :=
  match m.malloc sizes.writeSession with
  | (none, m) => (none, [], m)
  | (some self, m) =>
      let wsession : WriteSessionAt := { self := self, sbuff := none, fd := 0 }
      match sendBuffCreateAt sizes m config with
      | (none, m) => (none, releaseWriteSessionAt m wsession)
      | (some sbuff, m) =>
          (some { wsession with sbuff := some sbuff, fd := netInvalidSocket }, [], m)

end Create

/-! ## Posting the first read -/

/-- `WSAEWOULDBLOCK`. -/
def wsaewouldblock : Nat := 10035

/-- The loop of `post_read` with completion ports: whether it is left because `recv` would
block. -/
def iocpReadLoop (errno : Int) (s : NetService) (session : NetSession) (r : ReadSession) :
    List RecvResult → Option (Bool × NetService × NetSession)
  | [] =>
      let (size, _, rbuff, mem) := recvBuffPrepare s.mem r.rbuff
      if size = 0 then
        some (false, { s with mem := mem },
          { session with rsession := some { r with rbuff := rbuff } })
      else none
  | res :: recvs =>
      let (size, ptr, rbuff, mem) := recvBuffPrepare s.mem r.rbuff
      if size = 0 then
        some (false, { s with mem := mem },
          { session with rsession := some { r with rbuff := rbuff } })
      else
        match ptr, res with
        | none, _ => none
        | some _, .error e =>
            let (_, rbuff, mem) := recvBuffConsume mem rbuff 0
            let s := { s with mem := mem }
            let session := { session with rsession := some { r with rbuff := rbuff } }
            if e = wsaewouldblock then some (true, s, session)
            else some (false, (pushQueue s session eveError e).2)
        | some ptr, .received xs =>
            if size < xs.length then none
            else
              let (msgcnt, rbuff, mem) := recvBuffConsume mem (rbuff.fill ptr xs) xs.length
              let s := { s with mem := mem }
              let r := { r with rbuff := rbuff }
              let session := { session with rsession := some r }
              if xs = [] ∨ msgcnt < 0 then some (false, (pushQueue s session eveError errno).2)
              else
                let pushed := if msgcnt > 0 then (pushQueue s session eveRead 0).2 else (s, session)
                iocpReadLoop errno pushed.1 pushed.2 r recvs

/-- `OP_NET_READ` with completion ports is any operation in flight here. `posted` says
whether `WSARecv` posts the operation. -/
def iocpPostRead (posted : Bool) (s : NetService) (session : NetSession) (sys : Syscalls) :
    Option (Int × NetService × NetSession) :=
  match session.rsession with
  | none => some (-1, s, session)
  | some r =>
      if r.op = opNetRead then some (0, s, session)
      else do
        let (blocks, s, session) ← iocpReadLoop sys.errno s session r sys.recvs
        if blocks then
          let op := if posted then opNetRead else opNetNone
          let session := { session with rsession := session.rsession.map ({ · with op := op }) }
          some (if posted then 0 else -1, s, session)
        else some (0, s, session)

/-- The two implementations of `post_read`. With completion ports, `WSARecv` posts the
operation or fails. -/
inductive BackEnd
  | epoll
  | iocp (posted : Bool)

def BackEnd.postRead : BackEnd → NetService → NetSession → Syscalls →
    Option (Int × NetService × NetSession)
  | .epoll => RandServer.postRead
  | .iocp posted => iocpPostRead posted

/-! ## The call -/

/-- The session has a read or write session, listens or connects. -/
def NetSession.Busy (session : NetSession) : Prop :=
  session.rsession.isSome ∨ session.wsession.isSome ∨ session.connectFlag ∨ session.lsession.isSome

instance (session : NetSession) : Decidable session.Busy :=
  inferInstanceAs (Decidable (_ ∨ _ ∨ _ ∨ _))

/-- The session with a new read session and a new write session. -/
def NetSession.configured (session : NetSession) (nd : Nat) (rbuff : RecvBuffAt)
    (sbuff : SendBuffAt) : NetSession :=
  { session with
    rsession := some { id := nd, rbuff := rbuff.rbuff, op := opNetNone, etflag := false }
    wsession := some
      { id := nd, sbuff := sbuff.sbuff, op := opNetNone, sendRest := false, etflag := false } }

/-- `net_socket_cfg`, with its allocations and the descriptors it closes. -/
def netSocketCfgAt (sizes : StructSizes) (backEnd : BackEnd) (s : NetService) (nd : Nat)
    (config : Option NetConfig) (sys : Syscalls) : Option (Int × NetService × List Int) :=
  match config with
  | none => some (-6, s, [])
  | some config =>
      if nd = 0 then some (-6, s, [])
      else
        let index := ffidIndex s.socketIds nd
        match s.sessions index with
        | none => some (-2, s, [])
        | some session =>
            if session.Busy then some (-2, s, [])
            else if sys.async = false then some (-3, s, [])
            else
              match createReadSession sizes s.mem config with
              | (none, mem) => some (-4, { s with mem := mem }, [])
              | (some rsession, mem) =>
                  match createWriteSession sizes mem config with
                  | (none, closed, mem) =>
                      some (-5, { s with mem := releaseReadSessionAt mem rsession }, closed)
                  | (some wsession, closed, mem) => do
                      let rbuff ← rsession.rbuff
                      let sbuff ← wsession.sbuff
                      let (ret, s, session) ← backEnd.postRead { s with mem := mem }
                        (session.configured nd rbuff sbuff) sys
                      some (ret, s.setSession index (some session), closed)

/-! ## The heap during the call -/

namespace Memory

variable {α : Type} {m m' m'' : Memory α} {owned : List Nat} {size : Nat}

/-- Of the blocks allocated since `m`, those in `owned` are still in use, and all others
have been freed. Nothing else has been freed. -/
structure Since (m m' : Memory α) (owned : List Nat) : Prop where
  fate : m'.fate = m.fate
  pools : m'.pools = m.pools
  places : (owned ++ (m'.freed ++ m.allocated)).Perm (m'.allocated ++ m.freed)

/-- The next `k` allocations succeed. -/
def Grants (m : Memory α) (k : Nat) : Prop := ∀ i < k, (m.fate (m.brk + i)).isSome

/-- The heap after `k` allocations. -/
def advance (m : Memory α) (k : Nat) : Memory α := { m with brk := m.brk + k }

theorem Since.refl (m : Memory α) : Since m m [] := by
  refine ⟨rfl, rfl, ?_⟩
  rw [List.nil_append]
  exact List.perm_append_comm

theorem Since.malloc {res : Option (Block α)} (h : Since m m' owned)
    (ht : m'.malloc size = (res, m'')) : Since m m'' ((res.map Block.addr).toList ++ owned) := by
  simp only [Memory.malloc, Prod.mk.injEq] at ht
  obtain ⟨rfl, rfl⟩ := ht
  refine ⟨h.fate, h.pools, ?_⟩
  cases hfate : m'.fate m'.brk with
  | none =>
      have hsame : allocated { m' with brk := m'.brk + 1 } = m'.allocated := by
        simp [allocated, List.range_succ, List.filter_append, hfate]
      rw [hsame]
      exact h.places
  | some data =>
      have hmore : allocated { m' with brk := m'.brk + 1 } = m'.allocated ++ [m'.brk] := by
        simp [allocated, List.range_succ, List.filter_append, hfate]
      rw [hmore, List.append_assoc m'.allocated]
      exact (h.places.cons m'.brk).trans List.perm_middle.symm

theorem Since.perm {owned' : List Nat} (h : Since m m' owned) (hp : owned'.Perm owned) :
    Since m m' owned' := ⟨h.fate, h.pools, (hp.append_right _).trans h.places⟩

theorem Since.free {b : Block α} (h : Since m m' (b.addr :: owned)) :
    Since m (m'.free b) owned :=
  ⟨h.fate, h.pools, List.perm_middle.trans h.places⟩

theorem grants_succ {k : Nat} :
    m.Grants (k + 1) ↔ (m.fate m.brk).isSome ∧ (m.advance 1).Grants k := by
  constructor
  · intro h
    refine ⟨h 0 (Nat.succ_pos k), fun i hi => ?_⟩
    have hsucc := h (i + 1) (Nat.succ_lt_succ hi)
    rw [Nat.add_comm i 1, ← Nat.add_assoc] at hsucc
    exact hsucc
  · rintro ⟨hfirst, hrest⟩ i hi
    cases i with
    | zero => exact hfirst
    | succ i =>
        have hnext : (m.fate (m.brk + 1 + i)).isSome := hrest i (Nat.lt_of_succ_lt_succ hi)
        rw [Nat.add_assoc, Nat.add_comm 1 i] at hnext
        exact hnext

theorem grants_add {j k : Nat} : m.Grants (j + k) ↔ m.Grants j ∧ (m.advance j).Grants k := by
  induction j generalizing m with
  | zero =>
      rw [Nat.zero_add]
      exact ⟨fun h => ⟨nofun, h⟩, And.right⟩
  | succ j ih =>
      rw [Nat.succ_add, grants_succ, grants_succ, ih, and_assoc]
      refine and_congr_right fun _ => and_congr_right fun _ => ?_
      rw [advance, advance, advance]
      simp only [Nat.add_assoc, Nat.add_comm 1 j]

/-- An allocation, by its outcome. -/
theorem malloc_cases (m : Memory α) (size : Nat) :
    (m.malloc size = (none, m.advance 1) ∧ ¬ (m.fate m.brk).isSome) ∨
      ∃ b, m.malloc size = (some b, m.advance 1) ∧ (m.fate m.brk).isSome := by
  cases hfate : m.fate m.brk with
  | none =>
      refine .inl ⟨?_, Bool.false_ne_true⟩
      rw [Memory.malloc, hfate]
      rfl
  | some data =>
      refine .inr ⟨{ addr := m.brk, size := size, data := data }, ?_, rfl⟩
      rw [Memory.malloc, hfate]
      rfl

end Memory

open Memory

/-- The result of a create function that makes `k` allocations: it fails if one of them does
and has freed the others, or it returns a fresh object that owns the blocks `addrs`. -/
def Creates {β : Type} (k : Nat) (addrs : β → List Nat) (fresh : β → Prop) (m : Memory UInt8)
    (res : Option β × Memory UInt8) : Prop :=
  match res with
  | (none, m') => ¬ m.Grants k ∧ ∀ {m₀ owned}, Since m₀ m owned → Since m₀ m' owned
  | (some x, m') => m.Grants k ∧ m' = m.advance k ∧ fresh x ∧
      ∀ {m₀ owned}, Since m₀ m owned → Since m₀ m' (addrs x ++ owned)

/-- The blocks of a receive buffer. -/
def RecvBuffAt.addrs (b : RecvBuffAt) : List Nat :=
  match b.rbuff.version with
  | .useBuff => [b.buffers.addr, b.self.addr]
  | .useQueue => [b.buffers.addr, b.rbuff.lens.addr, b.self.addr]

def RecvBuffAt.Fresh (b : RecvBuffAt) : Prop := b.rbuff.buffers = fun _ => none

def ReadSessionAt.addrs (r : ReadSessionAt) : List Nat :=
  r.rbuff.elim [] RecvBuffAt.addrs ++ [r.self.addr]

def ReadSessionAt.Fresh (r : ReadSessionAt) : Prop := ∃ b, r.rbuff = some b ∧ b.Fresh

/-- How many allocations `recv_buff_create` makes. -/
def RecvVersion.allocations : RecvVersion → Nat
  | .useBuff => 2
  | .useQueue => 3

section Create

variable {sizes : StructSizes} {m m₀ : Memory UInt8} {config : NetConfig} {owned : List Nat}

theorem allocPair_creates {β : Type} {size arraySize : Nat} {addrs : β → List Nat}
    {fresh : β → Prop} {make : Memory UInt8 → Block UInt8 → Block UInt8 → β}
    (haddrs : ∀ m self array, addrs (make m self array) = [array.addr, self.addr])
    (hfresh : ∀ m self array, fresh (make m self array)) :
    Creates 2 addrs fresh m (allocPair size arraySize make m) := by
  unfold allocPair
  obtain ⟨hself, hfail⟩ | ⟨self, hself, hfirst⟩ := m.malloc_cases size
  · rw [hself]
    exact ⟨fun h => hfail (grants_succ.mp h).1, fun h => h.malloc hself⟩
  rw [hself]
  obtain ⟨harray, hfail⟩ | ⟨array, harray, hsecond⟩ := (m.advance 1).malloc_cases arraySize
  · simp only [harray]
    exact ⟨fun h => hfail (grants_succ.mp (grants_succ.mp h).2).1,
      fun h => ((h.malloc hself).malloc harray).free⟩
  · simp only [harray]
    refine ⟨grants_succ.mpr ⟨hfirst, grants_succ.mpr ⟨hsecond, nofun⟩⟩, rfl, hfresh .., ?_⟩
    intro m₀ owned h
    rw [haddrs]
    exact (h.malloc hself).malloc harray

theorem recvBuffCreateAtVB_creates :
    Creates 3 RecvBuffAt.addrs RecvBuffAt.Fresh m (recvBuffCreateAtVB sizes m config) := by
  unfold recvBuffCreateAtVB
  obtain ⟨hself, hfail⟩ | ⟨self, hself, hfirst⟩ := m.malloc_cases sizes.recvBuff
  · rw [hself]
    exact ⟨fun h => hfail (grants_succ.mp h).1, fun h => h.malloc hself⟩
  rw [hself]
  obtain ⟨hbuffers, hfail⟩ | ⟨buffers, hbuffers, hsecond⟩ :=
    (m.advance 1).malloc_cases (config.readBuffCnt * pointerSize)
  · simp only [hbuffers]
    exact ⟨fun h => hfail (grants_succ.mp (grants_succ.mp h).2).1,
      fun h => ((h.malloc hself).malloc hbuffers).free⟩
  simp only [hbuffers]
  obtain ⟨hlens, hfail⟩ | ⟨lens, hlens, hthird⟩ :=
    ((m.advance 1).advance 1).malloc_cases (config.readBuffCnt * 4)
  · simp only [hlens]
    exact ⟨fun h => hfail (grants_succ.mp (grants_succ.mp (grants_succ.mp h).2).2).1,
      fun h => (((h.malloc hself).malloc hbuffers).malloc hlens).free.free⟩
  · simp only [hlens]
    refine ⟨grants_succ.mpr ⟨hfirst, grants_succ.mpr ⟨hsecond, grants_succ.mpr ⟨hthird, nofun⟩⟩⟩,
      rfl, rfl, fun h => ?_⟩
    exact (((h.malloc hself).malloc hbuffers).malloc hlens).perm (List.Perm.swap ..)

theorem recvBuffCreateAt_creates :
    Creates config.readBuffVersion.allocations RecvBuffAt.addrs RecvBuffAt.Fresh m
      (recvBuffCreateAt sizes m config) := by
  unfold recvBuffCreateAt
  cases config.readBuffVersion with
  | useBuff => exact allocPair_creates (fun _ _ _ => rfl) (fun _ _ _ => rfl)
  | useQueue => exact recvBuffCreateAtVB_creates

/-- Releasing a buffer that has received nothing frees the blocks of its structures. -/
theorem recvBuffReleaseAt_since {b : RecvBuffAt} (hfresh : b.Fresh)
    (h : Since m₀ m (b.addrs ++ owned)) : Since m₀ (recvBuffReleaseAt m b) owned := by
  have hslots : recvBuffRelease m b.rbuff = m := by
    rw [recvBuffRelease, hfresh]
    exact List.foldl_fixed _
  unfold recvBuffReleaseAt
  rw [hslots]
  unfold RecvBuffAt.addrs at h
  cases hversion : b.rbuff.version with
  | useBuff =>
      rw [hversion] at h
      exact h.free.free
  | useQueue =>
      rw [hversion] at h
      exact h.free.free.free

theorem releaseReadSessionAt_since {r : ReadSessionAt} (hfresh : r.Fresh)
    (h : Since m₀ m (r.addrs ++ owned)) : Since m₀ (releaseReadSessionAt m r) owned := by
  obtain ⟨b, hb, hbuff⟩ := hfresh
  rw [ReadSessionAt.addrs, hb, List.append_assoc] at h
  unfold releaseReadSessionAt
  rw [hb]
  exact (recvBuffReleaseAt_since hbuff h).free

theorem createReadSession_creates :
    Creates (1 + config.readBuffVersion.allocations) ReadSessionAt.addrs ReadSessionAt.Fresh m
      (createReadSession sizes m config) := by
  unfold createReadSession
  obtain ⟨hself, hfail⟩ | ⟨self, hself, hfirst⟩ := m.malloc_cases sizes.readSession
  · rw [hself]
    exact ⟨fun h => hfail (h 0 (by omega)), fun h => h.malloc hself⟩
  rw [hself]
  have hbuff := @recvBuffCreateAt_creates sizes (m.advance 1) config
  dsimp only
  generalize recvBuffCreateAt sizes (m.advance 1) config = res at hbuff
  obtain ⟨_ | b, m'⟩ := res
  · obtain ⟨hfail, hsince⟩ := hbuff
    exact ⟨fun h => hfail (grants_add.mp h).2, fun h => (hsince (h.malloc hself)).free⟩
  · obtain ⟨hgrants, rfl, hfresh, hsince⟩ := hbuff
    refine ⟨grants_add.mpr ⟨grants_succ.mpr ⟨hfirst, nofun⟩, hgrants⟩, ?_, ⟨b, rfl, hfresh⟩, ?_⟩
    · rw [advance, advance, advance, Nat.add_assoc]
    · intro m₀ owned h
      rw [ReadSessionAt.addrs, List.append_assoc]
      exact hsince (h.malloc hself)

/-- `create_write_session` fails at its first allocation, or at the send buffer after it,
and then closes descriptor 0, or it does not fail. -/
theorem createWriteSession_cases :
    (∃ m', createWriteSession sizes m config = (none, [], m') ∧ ¬ (m.fate m.brk).isSome ∧
      ∀ {m₀ owned}, Since m₀ m owned → Since m₀ m' owned) ∨
    (∃ m', createWriteSession sizes m config = (none, [0], m') ∧ (m.fate m.brk).isSome ∧
      ¬ m.Grants 3 ∧ ∀ {m₀ owned}, Since m₀ m owned → Since m₀ m' owned) ∨
    ∃ w b, createWriteSession sizes m config = (some w, [], m.advance 3) ∧ w.sbuff = some b ∧
      m.Grants 3 := by
  unfold createWriteSession
  obtain ⟨hself, hfail⟩ | ⟨self, hself, hfirst⟩ := m.malloc_cases sizes.writeSession
  · rw [hself]
    exact .inl ⟨_, rfl, hfail, fun h => h.malloc hself⟩
  rw [hself]
  have hbuff : Creates 2 (fun b => [b.buffers.addr, b.self.addr]) (fun _ => True) (m.advance 1)
      (sendBuffCreateAt sizes (m.advance 1) config) :=
    allocPair_creates (fun _ _ _ => rfl) (fun _ _ _ => trivial)
  right
  dsimp only
  generalize sendBuffCreateAt sizes (m.advance 1) config = res at hbuff
  obtain ⟨_ | b, m'⟩ := res
  · obtain ⟨hfail, hsince⟩ := hbuff
    exact .inl ⟨_, rfl, hfirst, fun h => hfail (grants_succ.mp h).2,
      fun h => (hsince (h.malloc hself)).free⟩
  · obtain ⟨hgrants, rfl, -, -⟩ := hbuff
    exact .inr ⟨_, b, rfl, rfl, grants_succ.mpr ⟨hfirst, hgrants⟩⟩

end Create

/-! ## The first read -/

/-- With completion ports: `recv` would block before the buffer is full, the stream ends or
the buffer refuses the input. -/
def RecvBlocks (m : Memory UInt8) (rbuff : RecvBuff) : List RecvResult → Prop
  | [] => False
  | res :: recvs =>
      let (size, ptr, rbuff, mem) := recvBuffPrepare m rbuff
      size ≠ 0 ∧
        match ptr, res with
        | none, _ => False
        | some _, .error e => e = wsaewouldblock
        | some ptr, .received xs =>
            let (msgcnt, rbuff, mem) := recvBuffConsume mem (rbuff.fill ptr xs) xs.length
            xs.length ≤ size ∧ xs ≠ [] ∧ 0 ≤ msgcnt ∧ RecvBlocks mem rbuff recvs

@[simp] theorem pushQueue_mem (s : NetService) (session : NetSession) (event : Nat) (err : Int) :
    (pushQueue s session event err).2.1.mem = s.mem := by
  unfold pushQueue
  cases session.inQueue with
  | false => rfl
  | true => rfl

@[simp] theorem pushQueue_rsession (s : NetService) (session : NetSession) (event : Nat)
    (err : Int) : (pushQueue s session event err).2.2.rsession = session.rsession := by
  unfold pushQueue
  cases session.inQueue with
  | false => rfl
  | true => rfl

theorem iocpReadLoop_blocks_iff {errno : Int} {s : NetService} {session : NetSession}
    {r : ReadSession} {recvs : List RecvResult} :
    RecvBlocks s.mem r.rbuff recvs ↔
      ∃ t session', iocpReadLoop errno s session r recvs = some (true, t, session') := by
  induction recvs generalizing s session r with
  | nil =>
      refine iff_of_false id ?_
      rintro ⟨t, session', hrun⟩
      unfold iocpReadLoop at hrun
      dsimp only at hrun
      split_ifs at hrun
      cases hrun
  | cons res recvs ih =>
      unfold RecvBlocks iocpReadLoop
      obtain ⟨size, ptr, rbuff, mem⟩ := recvBuffPrepare s.mem r.rbuff
      dsimp only
      by_cases hsize : size = 0
      · simp [hsize]
      rw [if_neg hsize]
      cases ptr with
      | none => simp
      | some ptr =>
          cases res with
          | error e =>
              by_cases he : e = wsaewouldblock
              · simp [he, hsize]
              · simp [he]
          | received xs =>
              dsimp only
              generalize recvBuffConsume mem (rbuff.fill ptr xs) xs.length = res
              obtain ⟨msgcnt, next, mem⟩ := res
              dsimp only
              by_cases hlong : size < xs.length
              · simp [hlong, Nat.not_le_of_lt hlong]
              rw [if_neg hlong]
              by_cases hstop : xs = [] ∨ msgcnt < 0
              · rw [if_pos hstop]
                refine iff_of_false ?_ (by simp)
                rintro ⟨-, -, hne, hok, -⟩
                exact hstop.elim hne (Int.not_lt.mpr hok)
              obtain ⟨hne, hok⟩ := not_or.mp hstop
              rw [if_neg hstop, ← ih]
              have hmem : (if msgcnt > 0 then (pushQueue { s with mem := mem }
                  { session with rsession := some { r with rbuff := next } } eveRead 0).2
                else ({ s with mem := mem },
                  { session with rsession := some { r with rbuff := next } })).1.mem = mem := by
                split_ifs
                · exact pushQueue_mem ..
                · rfl
              rw [hmem]
              exact ⟨fun h => h.2.2.2.2, fun h => ⟨hsize, Nat.le_of_not_lt hlong, hne,
                Int.not_lt.mp hok, h⟩⟩

/-- The session keeps its read session. -/
theorem iocpReadLoop_rsession {errno : Int} {s t : NetService} {session session' : NetSession}
    {r : ReadSession} {recvs : List RecvResult} {blocks : Bool}
    (h : iocpReadLoop errno s session r recvs = some (blocks, t, session')) :
    session'.rsession.isSome := by
  induction recvs generalizing s session r with
  | nil =>
      unfold iocpReadLoop at h
      dsimp only at h
      split_ifs at h
      cases h
      rfl
  | cons res recvs ih =>
      unfold iocpReadLoop at h
      generalize recvBuffPrepare s.mem r.rbuff = res' at h
      obtain ⟨size, ptr, rbuff, mem⟩ := res'
      dsimp only at h
      split_ifs at h
      · cases h
        rfl
      cases ptr with
      | none => cases h
      | some ptr =>
          cases res with
          | error e =>
              dsimp only at h
              split_ifs at h
              · cases h
                rfl
              · obtain rfl : _ = session' :=
                  congrArg Prod.snd (Prod.mk.inj (Option.some.inj h)).2
                rw [pushQueue_rsession]
                rfl
          | received xs =>
              dsimp only at h
              split_ifs at h
              · obtain rfl : _ = session' :=
                  congrArg Prod.snd (Prod.mk.inj (Option.some.inj h)).2
                rw [pushQueue_rsession]
                rfl
              · exact ih h
              · exact ih h

theorem postRead_nonneg {s t : NetService} {session session' : NetSession} {sys : Syscalls}
    {ret : Int} (hr : session.rsession.isSome)
    (h : postRead s session sys = some (ret, t, session')) : 0 ≤ ret := by
  obtain ⟨r, hr⟩ := Option.isSome_iff_exists.mp hr
  simp only [postRead, hr] at h
  split_ifs at h
  · obtain ⟨_, -, heq⟩ := Option.bind_eq_some_iff.mp h
    cases heq
    exact Int.le_refl 0
  · obtain ⟨_, -, heq⟩ := Option.bind_eq_some_iff.mp h
    cases heq
    exact Int.le_refl 0
  · cases h
    exact Int.one_pos.le
  · cases h
    exact Int.one_pos.le

/-- With completion ports the first read of a new session fails exactly where `recv` blocks
and `WSARecv` fails. -/
theorem iocpPostRead_fails_iff {posted : Bool} {s : NetService} {session : NetSession}
    {sys : Syscalls} {r : ReadSession} (hr : session.rsession = some r) (hop : r.op = opNetNone) :
    posted = false ∧ RecvBlocks s.mem r.rbuff sys.recvs ↔
      ∃ ret t session', iocpPostRead posted s session sys = some (ret, t, session') ∧ ret < 0 := by
  have hnew : ¬ r.op = opNetRead := by rw [hop]; decide
  simp only [iocpPostRead, hr, if_neg hnew]
  rw [@iocpReadLoop_blocks_iff sys.errno s session r sys.recvs]
  constructor
  · rintro ⟨rfl, t, session', hrun⟩
    exact ⟨-1, t, _, Option.bind_eq_some_iff.mpr ⟨_, hrun, rfl⟩, by decide⟩
  · rintro ⟨ret, t, session', hrun, hneg⟩
    obtain ⟨⟨blocks, u, other⟩, hloop, heq⟩ := Option.bind_eq_some_iff.mp hrun
    cases blocks with
    | false =>
        cases heq
        exact absurd hneg (Int.lt_irrefl 0)
    | true =>
        cases posted with
        | true =>
            cases heq
            exact absurd hneg (Int.lt_irrefl 0)
        | false =>
            cases heq
            exact ⟨rfl, u, other, hloop⟩

theorem iocpPostRead_rsession {posted : Bool} {s t : NetService} {session session' : NetSession}
    {sys : Syscalls} {ret : Int} (hr : session.rsession.isSome)
    (h : iocpPostRead posted s session sys = some (ret, t, session')) :
    session'.rsession.isSome := by
  obtain ⟨r, hr⟩ := Option.isSome_iff_exists.mp hr
  simp only [iocpPostRead, hr] at h
  by_cases hop : r.op = opNetRead
  · rw [if_pos hop] at h
    cases h
    rw [hr]
    rfl
  · rw [if_neg hop] at h
    obtain ⟨⟨blocks, u, other⟩, hloop, heq⟩ := Option.bind_eq_some_iff.mp h
    cases blocks with
    | false =>
        cases heq
        exact iocpReadLoop_rsession hloop
    | true =>
        cases heq
        rw [Option.isSome_map]
        exact iocpReadLoop_rsession hloop

/-! ## Atomicity -/

/-- After the call the sessions are as before, every block allocated in it is freed, and no
descriptor is closed. -/
structure CfgAtomic (s t : NetService) (closed : List Int) : Prop where
  sessions : t.sessions = s.sessions
  released : Since s.mem t.mem []
  descriptors : closed = []

/-- A call that fails is atomic. -/
def CfgFailsAtomically (sizes : StructSizes) (backEnd : BackEnd) (s : NetService) (nd : Nat)
    (config : Option NetConfig) (sys : Syscalls) : Prop :=
  ∀ ret t closed, netSocketCfgAt sizes backEnd s nd config sys = some (ret, t, closed) →
    ret < 0 → CfgAtomic s t closed

/-- The call gets as far as the allocations, with this configuration and this session. -/
structure CfgStarts (s : NetService) (nd : Nat) (config : Option NetConfig) (sys : Syscalls)
    (cfg : NetConfig) (session : NetSession) : Prop where
  given : config = some cfg
  handle : nd ≠ 0
  slot : s.sessions (ffidIndex s.socketIds nd) = some session
  idle : ¬ session.Busy
  async : sys.async = true

/-- The allocations of the read session and of the structure of the write session. -/
def NetConfig.allocations (cfg : NetConfig) : Nat := 2 + cfg.readBuffVersion.allocations

/-- The two ways to fail halfway. The write session is allocated and its send buffer is
not. Or, with completion ports, both sessions are there and the first read fails. -/
def CfgSlips (sizes : StructSizes) (backEnd : BackEnd) (s : NetService) (nd : Nat)
    (config : Option NetConfig) (sys : Syscalls) : Prop :=
  ∃ cfg session, CfgStarts s nd config sys cfg session ∧
    (s.mem.Grants cfg.allocations ∧ ¬ s.mem.Grants (cfg.allocations + 2) ∨
      backEnd = .iocp false ∧ s.mem.Grants (cfg.allocations + 2) ∧
        ∃ b, (recvBuffCreateAt sizes (s.mem.advance 1) cfg).1 = some b ∧
          RecvBlocks (s.mem.advance (cfg.allocations + 2)) b.rbuff sys.recvs)

theorem grants_split {cfg : NetConfig} :
    cfg.allocations + 2 = 1 + cfg.readBuffVersion.allocations + 3 := by
  rw [NetConfig.allocations]
  omega

section Cfg

variable {sizes : StructSizes} {backEnd : BackEnd} {s : NetService} {nd : Nat}
  {config : Option NetConfig} {sys : Syscalls} {cfg : NetConfig} {session : NetSession}

/-- A call that does not get as far as the allocations changes nothing. -/
theorem netSocketCfgAt_stops (h : ∀ cfg session, ¬ CfgStarts s nd config sys cfg session) :
    ∃ ret, netSocketCfgAt sizes backEnd s nd config sys = some (ret, s, []) := by
  unfold netSocketCfgAt
  cases config with
  | none => exact ⟨_, rfl⟩
  | some cfg =>
      dsimp only
      by_cases hnd : nd = 0
      · rw [if_pos hnd]
        exact ⟨_, rfl⟩
      rw [if_neg hnd]
      cases hslot : s.sessions (ffidIndex s.socketIds nd) with
      | none => exact ⟨-2, rfl⟩
      | some session =>
          dsimp only
          by_cases hbusy : session.Busy
          · rw [if_pos hbusy]
            exact ⟨_, rfl⟩
          rw [if_neg hbusy]
          by_cases hasync : sys.async = false
          · rw [if_pos hasync]
            exact ⟨_, rfl⟩
          exact absurd ⟨rfl, hnd, hslot, hbusy, by simpa using hasync⟩ (h cfg session)

theorem netSocketCfgAt_starts (h : CfgStarts s nd config sys cfg session) :
    netSocketCfgAt sizes backEnd s nd config sys =
      match createReadSession sizes s.mem cfg with
      | (none, mem) => some (-4, { s with mem := mem }, [])
      | (some rsession, mem) =>
          match createWriteSession sizes mem cfg with
          | (none, closed, mem) =>
              some (-5, { s with mem := releaseReadSessionAt mem rsession }, closed)
          | (some wsession, closed, mem) => (do
              let rbuff ← rsession.rbuff
              let sbuff ← wsession.sbuff
              let (ret, t, session) ← backEnd.postRead { s with mem := mem }
                (session.configured nd rbuff sbuff) sys
              some (ret, t.setSession (ffidIndex s.socketIds nd) (some session), closed)) := by
  obtain ⟨rfl, hnd, hslot, hidle, hasync⟩ := h
  simp only [netSocketCfgAt, if_neg hnd, hslot, if_neg hidle, hasync, Bool.true_eq_false, if_false]

/-- The buffer of a new read session is the one that `recv_buff_create` returned. -/
theorem createReadSession_rbuff {m m' : Memory UInt8} {r : ReadSessionAt}
    (h : createReadSession sizes m cfg = (some r, m')) :
    r.rbuff = (recvBuffCreateAt sizes (m.advance 1) cfg).1 := by
  unfold createReadSession at h
  obtain ⟨hself, -⟩ | ⟨self, hself, -⟩ := m.malloc_cases sizes.readSession
  · rw [hself] at h
    cases h
  rw [hself] at h
  dsimp only at h
  generalize recvBuffCreateAt sizes (m.advance 1) cfg = res at h ⊢
  obtain ⟨_ | b, m₁⟩ := res
  · cases h
  · cases h
    rfl

/-- A call in which every allocation succeeds ends with the first read. -/
theorem netSocketCfgAt_granted (h : CfgStarts s nd config sys cfg session)
    (hgrants : s.mem.Grants (cfg.allocations + 2)) :
    ∃ b sbuff, (recvBuffCreateAt sizes (s.mem.advance 1) cfg).1 = some b ∧
      netSocketCfgAt sizes backEnd s nd config sys =
        (backEnd.postRead { s with mem := s.mem.advance (cfg.allocations + 2) }
          (session.configured nd b sbuff) sys).map fun res =>
            (res.1, res.2.1.setSession (ffidIndex s.socketIds nd) (some res.2.2), []) := by
  obtain ⟨hfirst, hsecond⟩ := grants_add.mp (grants_split ▸ hgrants)
  have hread := @createReadSession_creates sizes s.mem cfg
  rw [netSocketCfgAt_starts h]
  cases hres : createReadSession sizes s.mem cfg with
  | mk rsession mem =>
      rw [hres] at hread
      cases rsession with
      | none => exact absurd hfirst hread.1
      | some rsession =>
          obtain ⟨-, rfl, ⟨b, hb, -⟩, -⟩ := hread
          have hcreate := createReadSession_rbuff hres
          obtain ⟨_, -, hfail, -⟩ | ⟨_, -, -, hfail, -⟩ | ⟨w, sbuff, hwrite, hsbuff, -⟩ :=
            @createWriteSession_cases sizes
              (s.mem.advance (1 + cfg.readBuffVersion.allocations)) cfg
          · exact absurd (hsecond 0 (by decide)) hfail
          · exact absurd hsecond hfail
          · refine ⟨b, sbuff, hcreate.symm.trans hb, ?_⟩
            have hmem : (s.mem.advance (1 + cfg.readBuffVersion.allocations)).advance 3 =
                s.mem.advance (cfg.allocations + 2) := by
              rw [grants_split, advance, advance, advance, Nat.add_assoc]
            rw [hmem] at hwrite
            simp only [hwrite, hb, hsbuff]
            rw [Option.map_eq_bind]
            rfl

/-- A call in which an allocation fails is atomic, unless it has allocated the structure of
the write session. -/
theorem netSocketCfgAt_refused (h : CfgStarts s nd config sys cfg session)
    (hrefused : ¬ s.mem.Grants (cfg.allocations + 2)) :
    ∃ ret t closed, netSocketCfgAt sizes backEnd s nd config sys = some (ret, t, closed) ∧
      ret < 0 ∧ t.sessions = s.sessions ∧ Since s.mem t.mem [] ∧
      (closed = [] ↔ ¬ s.mem.Grants cfg.allocations) := by
  have hsplit : cfg.allocations = 1 + cfg.readBuffVersion.allocations + 1 := by
    rw [NetConfig.allocations]
    omega
  have hread := @createReadSession_creates sizes s.mem cfg
  rw [netSocketCfgAt_starts h]
  cases hres : createReadSession sizes s.mem cfg with
  | mk rsession mem =>
      rw [hres] at hread
      cases rsession with
      | none =>
          obtain ⟨hfail, hsince⟩ := hread
          refine ⟨_, _, _, rfl, by decide, rfl, hsince (.refl s.mem),
            iff_of_true rfl fun hall => ?_⟩
          rw [hsplit] at hall
          exact hfail (grants_add.mp hall).1
      | some rsession =>
          obtain ⟨hfirst, rfl, hfresh, hsince⟩ := hread
          have hsince := hsince (.refl s.mem)
          obtain ⟨_, hwrite, hfail, hafter⟩ | ⟨_, hwrite, hself, -, hafter⟩ | ⟨_, _, -, -, hrest⟩ :=
            @createWriteSession_cases sizes
              (s.mem.advance (1 + cfg.readBuffVersion.allocations)) cfg
          · simp only [hwrite]
            refine ⟨_, _, _, rfl, by decide, rfl,
              releaseReadSessionAt_since hfresh (hafter hsince), iff_of_true rfl fun hall => ?_⟩
            rw [hsplit] at hall
            exact hfail (grants_succ.mp (grants_add.mp hall).2).1
          · simp only [hwrite]
            refine ⟨_, _, _, rfl, by decide, rfl,
              releaseReadSessionAt_since hfresh (hafter hsince), iff_of_false (by decide) ?_⟩
            rw [hsplit]
            exact not_not.mpr (grants_add.mpr ⟨hfirst, grants_succ.mpr ⟨hself, nofun⟩⟩)
          · rw [grants_split] at hrefused
            exact absurd (grants_add.mpr ⟨hfirst, hrest⟩) hrefused

/-- Where every allocation succeeds, the call is atomic unless the first read fails, and it
fails only with completion ports. -/
theorem netSocketCfgAt_granted_iff (h : CfgStarts s nd config sys cfg session)
    (hgrants : s.mem.Grants (cfg.allocations + 2)) :
    CfgFailsAtomically sizes backEnd s nd config sys ↔
      ¬ (backEnd = .iocp false ∧ ∃ b, (recvBuffCreateAt sizes (s.mem.advance 1) cfg).1 = some b ∧
        RecvBlocks (s.mem.advance (cfg.allocations + 2)) b.rbuff sys.recvs) := by
  obtain ⟨b, sbuff, hb, hrun⟩ := @netSocketCfgAt_granted sizes backEnd s nd config sys cfg session
    h hgrants
  unfold CfgFailsAtomically
  rw [hrun, hb]
  cases backEnd with
  | epoll =>
      refine iff_of_true ?_ fun hno => nomatch hno.1
      intro ret t closed hres hneg
      obtain ⟨⟨ret', u, session'⟩, hpost, heq⟩ := Option.map_eq_some_iff.mp hres
      cases heq
      have hr : (session.configured nd b sbuff).rsession.isSome = true := rfl
      have hnonneg := postRead_nonneg hr hpost
      omega
  | iocp posted =>
      have hiff := @iocpPostRead_fails_iff posted
        { s with mem := s.mem.advance (cfg.allocations + 2) } (session.configured nd b sbuff) sys
        _ rfl rfl
      constructor
      · rintro hatomic ⟨hposted, b', hb', hblocks⟩
        cases hb'
        cases hposted
        obtain ⟨ret, t, session', hpost, hneg⟩ := hiff.mp ⟨rfl, hblocks⟩
        have hres := hatomic _ _ _ (Option.map_eq_some_iff.mpr ⟨_, hpost, rfl⟩) hneg
        -- The slot holds a session with a read session now, and held an idle one before.
        have hslot := congrFun hres.sessions (ffidIndex s.socketIds nd)
        rw [h.slot, NetService.setSession_self] at hslot
        cases hslot
        exact h.idle (.inl (iocpPostRead_rsession rfl hpost))
      · intro hnot ret t closed hres hneg
        obtain ⟨⟨ret', u, session'⟩, hpost, heq⟩ := Option.map_eq_some_iff.mp hres
        cases heq
        obtain ⟨rfl, hblocks⟩ := hiff.mpr ⟨_, _, _, hpost, hneg⟩
        exact absurd ⟨rfl, b, rfl, hblocks⟩ hnot

end Cfg

/-- A failing call of `net_socket_cfg` is atomic if and only if it does not fail halfway.
The counts of blocks are taken to pass the assertions `pool_cnt <= 0xefff` of the create
functions, which end the program otherwise. -/
theorem netSocketCfg_atomic_iff (sizes : StructSizes) (backEnd : BackEnd) (s : NetService)
    (nd : Nat) (config : Option NetConfig) (sys : Syscalls) :
    CfgFailsAtomically sizes backEnd s nd config sys ↔
      ¬ CfgSlips sizes backEnd s nd config sys := by
  by_cases hstarts : ∃ cfg session, CfgStarts s nd config sys cfg session
  · obtain ⟨cfg, session, hstarts⟩ := hstarts
    have hslips : CfgSlips sizes backEnd s nd config sys ↔
        s.mem.Grants cfg.allocations ∧ ¬ s.mem.Grants (cfg.allocations + 2) ∨
          backEnd = .iocp false ∧ s.mem.Grants (cfg.allocations + 2) ∧
            ∃ b, (recvBuffCreateAt sizes (s.mem.advance 1) cfg).1 = some b ∧
              RecvBlocks (s.mem.advance (cfg.allocations + 2)) b.rbuff sys.recvs := by
      constructor
      · rintro ⟨cfg', session', hstarts', hslip⟩
        cases hstarts.given.symm.trans hstarts'.given
        exact hslip
      · exact fun hslip => ⟨cfg, session, hstarts, hslip⟩
    rw [hslips]
    by_cases hgrants : s.mem.Grants (cfg.allocations + 2)
    · rw [netSocketCfgAt_granted_iff hstarts hgrants]
      simp only [hgrants, not_true_eq_false, and_false, false_or, true_and]
    · obtain ⟨ret, t, closed, hrun, hneg, hsessions, hsince, hclosed⟩ :=
        @netSocketCfgAt_refused sizes backEnd s nd config sys cfg session hstarts hgrants
      simp only [hgrants, not_false_eq_true, and_true, false_and, and_false, or_false]
      rw [← hclosed]
      constructor
      · exact fun hatomic => (hatomic _ _ _ hrun hneg).descriptors
      · rintro rfl ret' t' closed' hrun' -
        cases hrun.symm.trans hrun'
        exact ⟨hsessions, hsince, rfl⟩
  · obtain ⟨ret, hrun⟩ := @netSocketCfgAt_stops sizes backEnd s nd config sys
      fun cfg session h => hstarts ⟨cfg, session, h⟩
    refine iff_of_true ?_ fun ⟨cfg, session, h, _⟩ => hstarts ⟨cfg, session, h⟩
    intro ret' t closed hrun' _
    cases hrun.symm.trans hrun'
    exact ⟨rfl, .refl s.mem, rfl⟩

/-- A service with one session, on a heap that grants four more allocations. -/
def fourBlocks : NetService :=
  (addNetSession
    (netCreate 1
      { brk := 0
        fate := fun a => if a < 4 then some (fun _ => 0) else none
        freed := []
        pools := fun _ => buffPoolCreate 4 0 })
    { createNetSession with fd := 7 }).2

/-- The fifth allocation is the send buffer, and its failure closes descriptor 0. -/
theorem netSocketCfg_closes_zero : ¬ ∀ sizes backEnd s nd config sys,
    CfgFailsAtomically sizes backEnd s nd config sys := by
  intro h
  let config : NetConfig :=
    { enByte := .enByte16
      readBuffCnt := 2
      writeBuffCnt := 2
      pool := 0
      readBuffVersion := .useBuff }
  obtain ⟨t, hrun⟩ : ∃ t, netSocketCfgAt ⟨88, 40, 24, 32⟩ .epoll fourBlocks 1 (some config) {} =
      some (-5, t, [0]) := ⟨_, rfl⟩
  exact nomatch (h _ _ _ _ _ _ _ _ _ hrun (by decide)).descriptors

end RandServer
