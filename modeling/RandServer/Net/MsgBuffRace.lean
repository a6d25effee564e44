import RandServer.Lib.Machine
import RandServer.Net.MsgBuff

/-!
# A reader and a writer of one message queue

One reader and one writer use a `msg_buff` under different locks. The reader's two steps
are `load` and `finish`, and the writer may write any number of messages in between.

The reader releases the blocks behind it except the one in which it last saw the writer.
If the writer has since come round into the block in which the reader started, that
block is released under it, with messages that were accepted. `Clear` says that this
does not happen, and `msgBuff_lossless` that nothing else can lose a message.
-/

universe u

namespace RandServer

open LapRing

variable {α : Type u}

/-- `accepted` and `returned` record the messages that went in and came out. A loaded
read also records how many messages had been accepted. -/
structure MsgRace (α : Type u) where
  mbuff : MsgBuff α
  mem : Memory α
  loaded : Option (Nat × Nat × Nat)
  accepted : List α
  returned : List (Option α)

namespace MsgRace

inductive Action (α : Type u)
  | write (msg : α)
  | load
  | finish (n : Nat)

/-- The reader's lock admits one read at a time. -/
def step (s : MsgRace α) : Action α → Option (MsgRace α)
  | .write msg =>
      let res := msgBuffWrite s.mem s.mbuff msg
      some { s with
        mbuff := res.2.1
        mem := res.2.2
        accepted := if res.1 = 1 then s.accepted ++ [msg] else s.accepted }
  | .load =>
      match s.loaded with
      | some _ => none
      | none =>
          some { s with
            loaded := some ((msgBuffLoad s.mbuff).1, (msgBuffLoad s.mbuff).2,
              s.accepted.length) }
  | .finish n =>
      match s.loaded with
      | none => none
      | some (uWrite, uRead, _) =>
          let res := msgBuffFinish s.mem s.mbuff uWrite uRead n
          some { s with
            mbuff := res.2.1
            mem := res.2.2
            loaded := none
            returned := s.returned ++ res.1 }

/-- A new queue of any size, on any heap. The size of a block is a number of 32 bits. -/
inductive Init : MsgRace α → Prop
  | mk {n bs : Nat} (g : Geometry n bs) (mem : Memory α) {msgTypeSize : Nat}
      (hsize : msgTypeSize * bs < 2 ^ 32) (pool : Option Nat) :
      Init { mbuff := msgBuffCreate msgTypeSize bs n pool, mem := mem, loaded := none,
             accepted := [], returned := [] }

end MsgRace

def msgRace (α : Type u) : Machine (MsgRace α) (MsgRace.Action α) where
  Init := MsgRace.Init
  step := MsgRace.step

namespace MsgRace

/-- Nothing is lost: the messages came out in the order of acceptance, and those that
have not come out are stored at their positions. -/
structure Lossless (s : MsgRace α) : Prop where
  in_order : s.returned <+: s.accepted.map some
  stored : ∀ i msg, s.returned.length ≤ i → s.accepted[i]? = some msg →
    cell s.mbuff.buffers s.mbuff.poolCnt s.mbuff.bufferSize i = some msg

/-- When a read finishes, the writer has not come round into the block in which the read
starts, or it was there when the cursors were loaded, or the read stays in the block. -/
def Clear (s : MsgRace α) : Action α → Prop
  | .write _ => True
  | .load => True
  | .finish n =>
      match s.loaded with
      | none => True
      | some (_, _, seen) =>
          MsgBuff.Spares s.mbuff.poolCnt s.mbuff.bufferSize s.returned.length seen
            s.accepted.length (min (seen - s.returned.length) n)

instance (s : MsgRace α) : (i : Action α) → Decidable (s.Clear i)
  | .write _ => .isTrue trivial
  | .load => .isTrue trivial
  | .finish n =>
      match h : s.loaded with
      | none => .isTrue (by simp only [Clear, h])
      | some (_, _, seen) =>
          decidable_of_iff (MsgBuff.Spares s.mbuff.poolCnt s.mbuff.bufferSize s.returned.length
            seen s.accepted.length (min (seen - s.returned.length) n)) (by simp only [Clear, h])

/-- The queue stores the messages that have not come out, and a loaded write cursor is
one of the positions that the writer has passed since the read cursor. -/
structure Inv (n bs : Nat) (s : MsgRace α) : Prop where
  came_out : s.returned = (s.accepted.take s.returned.length).map some
  rep : MsgBuff.Rep n bs s.mbuff s.returned.length (s.accepted.drop s.returned.length)
  snapshot : ∀ uWrite uRead seen, s.loaded = some (uWrite, uRead, seen) →
    uWrite = positionCursor n bs seen ∧ uRead = s.mbuff.read ∧ s.returned.length ≤ seen ∧
      seen ≤ s.accepted.length

theorem Init.inv {s : MsgRace α} (h : Init s) : ∃ n bs, Inv n bs s := by
  cases h with
  | mk g mem hsize pool =>
      exact ⟨_, _, rfl, MsgBuff.create_rep g _ pool, nofun⟩

section Inv

variable {n bs : Nat} {s t : MsgRace α}

theorem Inv.returned_le (h : Inv n bs s) : s.returned.length ≤ s.accepted.length := by
  have hlen := congrArg List.length h.came_out
  rw [List.length_map, List.length_take] at hlen
  omega

theorem Inv.lossless (h : Inv n bs s) : s.Lossless := by
  refine ⟨?_, fun i msg hi hmsg => ?_⟩
  · rw [h.came_out, List.map_take]
    exact List.take_prefix _ _
  · rw [h.rep.poolCnt, h.rep.bufferSize]
    have hcell := h.rep.holds (i - s.returned.length) msg
    rw [List.getElem?_drop, Nat.add_sub_cancel' hi] at hcell
    exact hcell hmsg

theorem Inv.write (h : Inv n bs s) {msg : α} (ht : s.step (.write msg) = some t) :
    Inv n bs t := by
  have hle := h.returned_le
  simp only [step] at ht
  generalize hres : msgBuffWrite s.mem s.mbuff msg = res at ht
  obtain ⟨ret, b', m'⟩ := res
  obtain rfl := Option.some.inj ht
  rcases Nat.lt_or_ge (s.accepted.drop s.returned.length).length (n * bs) with hroom | hfull
  · obtain ⟨-, hread, -, hcases⟩ := h.rep.write_room hroom hres
    rcases hcases with ⟨rfl, hrep⟩ | ⟨rfl, hrep⟩
    · refine ⟨?_, ?_, ?_⟩
      · simp only [if_true]
        rw [List.take_append_of_le_length hle]
        exact h.came_out
      · simp only [if_true]
        rw [List.drop_append_of_le_length hle]
        exact hrep
      · intro uWrite uRead seen hload
        obtain ⟨hw, hr, hlo, hhi⟩ := h.snapshot uWrite uRead seen hload
        refine ⟨hw, hr.trans hread.symm, hlo, ?_⟩
        simp only [if_true, List.length_append]
        omega
    · refine ⟨h.came_out, hrep, ?_⟩
      intro uWrite uRead seen hload
      obtain ⟨hw, hr, hlo, hhi⟩ := h.snapshot uWrite uRead seen hload
      exact ⟨hw, hr.trans hread.symm, hlo, hhi⟩
  · rw [h.rep.write_full (Nat.le_antisymm h.rep.fits hfull)] at hres
    cases hres
    exact ⟨h.came_out, h.rep, h.snapshot⟩

theorem Inv.load (h : Inv n bs s) (ht : s.step .load = some t) : Inv n bs t := by
  have hle := h.returned_le
  simp only [step] at ht
  split at ht
  · cases ht
  · obtain rfl := Option.some.inj ht
    refine ⟨h.came_out, h.rep, ?_⟩
    intro uWrite uRead seen hload
    simp only [msgBuffLoad, Option.some.injEq, Prod.mk.injEq] at hload
    obtain ⟨rfl, rfl, rfl⟩ := hload
    refine ⟨?_, rfl, hle, Nat.le_refl _⟩
    rw [h.rep.write, List.length_drop, Nat.add_sub_cancel' hle]

theorem Inv.finish (h : Inv n bs s) {cnt : Nat} (ht : s.step (.finish cnt) = some t) :
    (s.Clear (.finish cnt) → Inv n bs t) ∧ (¬ s.Clear (.finish cnt) → ¬ t.Lossless) := by
  have hle := h.returned_le
  simp only [step] at ht
  split at ht
  · cases ht
  · rename_i uWrite uRead seen hload
    obtain ⟨rfl, rfl, hlo, hhi⟩ := h.snapshot uWrite uRead seen hload
    simp only [Clear, hload, h.rep.poolCnt, h.rep.bufferSize]
    generalize hres : msgBuffFinish s.mem s.mbuff (positionCursor n bs seen) s.mbuff.read cnt =
      res at ht
    obtain ⟨msgs, b', m'⟩ := res
    obtain rfl := Option.some.inj ht
    have hend : s.returned.length + (s.accepted.drop s.returned.length).length =
        s.accepted.length := by
      rw [List.length_drop, Nat.add_sub_cancel' hle]
    obtain ⟨rfl, -, hkeeps, hloses⟩ := h.rep.finish hlo (by rw [hend]; exact hhi) hres
    rw [hend] at hkeeps hloses
    generalize hk : min (seen - s.returned.length) cnt = k at hkeeps hloses ⊢
    have hlen : (((s.accepted.drop s.returned.length).take k).map some).length = k := by
      rw [List.length_map, List.length_take, List.length_drop]
      omega
    refine ⟨fun hok => ⟨?_, ?_, nofun⟩, fun hnot hall => ?_⟩
    · rw [List.length_append, hlen, List.take_add, List.map_append, ← h.came_out]
    · rw [List.length_append, hlen, ← List.drop_drop]
      exact hkeeps hok
    · obtain ⟨hin, hnone⟩ := hloses hnot
      have hpast : s.returned.length + k ≤ (s.returned.length / bs + n) * bs := by
        simp only [MsgBuff.Spares, not_or] at hnot
        omega
      have hstored := hall.stored _ _
        (by rw [List.length_append, hlen]; exact hpast) (List.getElem?_eq_getElem hin)
      rw [hnone] at hstored
      cases hstored

theorem Inv.step {i : Action α} (h : Inv n bs s) (hok : s.Clear i) (ht : s.step i = some t) :
    Inv n bs t := by
  cases i with
  | write msg => exact h.write ht
  | load => exact h.load ht
  | finish cnt => exact (h.finish ht).1 hok

theorem Inv.lossless_iff {i : Action α} (h : Inv n bs s) (ht : s.step i = some t) :
    t.Lossless ↔ s.Clear i := by
  constructor
  · intro hall
    cases i with
    | write msg => trivial
    | load => trivial
    | finish cnt =>
        by_contra hnot
        exact (h.finish ht).2 hnot hall
  · intro hok
    exact (h.step hok ht).lossless

end Inv

end MsgRace

/-- As long as every read is clear no message is lost, and a read that is not clear
loses one. -/
theorem msgBuff_lossless {s : MsgRace α} (h : (msgRace α).ReachableVia MsgRace.Clear s) :
    s.Lossless ∧ ∀ i t, s.step i = some t → (t.Lossless ↔ s.Clear i) := by
  obtain ⟨n, bs, hinv⟩ := h.invariant (fun _ hs => MsgRace.Init.inv hs)
    (fun _ _ _ ⟨n, bs, hs⟩ hok ht => ⟨n, bs, MsgRace.Inv.step hs hok ht⟩)
  exact ⟨hinv.lossless, fun _ _ ht => hinv.lossless_iff ht⟩

/-- A queue of two blocks of two messages, on a heap of zeros. -/
def MsgRace.fresh : MsgRace Nat where
  mbuff := msgBuffCreate 8 2 2 none
  mem :=
    { brk := 0, fate := fun _ => some (fun _ => 0), freed := [],
      pools := fun _ => buffPoolCreate 4 0 }
  loaded := none
  accepted := []
  returned := []

theorem MsgRace.fresh_init : Init fresh :=
  .mk ⟨by decide, by decide, by decide, by decide⟩ _ (by decide) _

/-- The writer laps the ring between the two steps of the second read. -/
theorem msgBuff_lossless_lap : ∃ s, (msgRace Nat).runVia MsgRace.Clear MsgRace.fresh
    [.write 0, .write 1, .write 2, .load, .write 3, .finish 2, .load, .write 4, .write 5,
      .finish 2] = some s ∧ s.returned = [some 0, some 1, some 2, some 3] ∧ s.Lossless := by
  have hinit : (msgRace Nat).Init MsgRace.fresh := MsgRace.fresh_init
  obtain ⟨s, hrun, hret⟩ : ∃ s, (msgRace Nat).runVia MsgRace.Clear MsgRace.fresh
      [.write 0, .write 1, .write 2, .load, .write 3, .finish 2, .load, .write 4, .write 5,
        .finish 2] = some s ∧ s.returned = [some 0, some 1, some 2, some 3] := ⟨_, rfl, rfl⟩
  exact ⟨s, hrun, hret, (msgBuff_lossless (Machine.ReachableVia.runVia (.init hinit) hrun)).1⟩

/-- The second read starts in the middle of a block. Until it finishes the writer comes
round into that block, and the read releases the block together with the fifth message. -/
theorem msgBuff_loses_message : ¬ ∀ s, (msgRace Nat).Reachable s → s.Lossless := by
  intro h
  obtain ⟨s, hrun, hacc, hret, hcell⟩ : ∃ s, (msgRace Nat).run MsgRace.fresh
      [.write 0, .write 1, .write 2, .load, .finish 1, .load, .write 3, .write 4, .finish 2] =
        some s ∧ s.accepted = [0, 1, 2, 3, 4] ∧ s.returned.length = 3 ∧
        cell s.mbuff.buffers s.mbuff.poolCnt s.mbuff.bufferSize 4 = none :=
    ⟨_, rfl, rfl, rfl, rfl⟩
  have hreach : (msgRace Nat).Reachable s :=
    Machine.Reachable.run (.init MsgRace.fresh_init) hrun
  have hstored := (h s hreach).stored 4 4 (by rw [hret]; decide) (by rw [hacc]; rfl)
  rw [hcell] at hstored
  cases hstored

end RandServer
