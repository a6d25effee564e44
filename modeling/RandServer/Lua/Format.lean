import RandServer.Lua.Deserialize

/-!
# The packed format

A packed message is a sequence of items. An item is an opcode with its operands, and the
items between the opcodes of a table are its keys and values. `Span` says where an item
ends, `Visits` what a decoder comes across on its way through the input, and neither
mentions how the decoder works.

A table reference is an item only if its number belongs to a table that has begun, and a
userdata record without a registered metatable stands for nil. So both relations carry
the number of tables that have begun, and refer to the registered names.
-/

namespace RandServer

namespace Input

variable (inp : Input)

/-- The end of an operand of fixed length. -/
def fixedEnd (len pos : Nat) : Option Nat := if pos + len ≤ inp.size then some (pos + len) else none

def stringEnd (width pos : Nat) : Option Nat :=
  (inp.fixedEnd width pos).bind (inp.fixedEnd (leValue (inp.slice pos width)))

/-- The name in a userdata record, without its zero. -/
def userdataName (pos : Nat) : List UInt8 := (inp.mem.drop (pos + 1)).takeWhile (· ≠ 0)

/-- The offset of the block size in a userdata record. -/
def userdataSizeAt (pos : Nat) : Nat := pos + 1 + leValue (inp.slice pos 1)

/-- The end of a userdata record. -/
def userdataEnd (pos : Nat) : Nat :=
  inp.userdataSizeAt pos + 1 + leValue (inp.slice (inp.userdataSizeAt pos) 1)

end Input

variable (inp : Input) (metatables : List (List UInt8 × LuaMetatable))

/-- What a decoder looks at in a userdata record lies in front of `limit`: the name with
its zero, the block size, and the block if the name is registered. -/
def UserdataWithin (limit pos : Nat) : Prop :=
  pos + 1 + (inp.userdataName pos).length + 1 ≤ limit ∧ inp.userdataSizeAt pos + 1 ≤ limit ∧
    ((metatables.lookup (inp.userdataName pos)).isSome → inp.userdataEnd pos ≤ limit)

instance (limit pos : Nat) : Decidable (UserdataWithin inp metatables limit pos) :=
  inferInstanceAs (Decidable (_ ∧ _ ∧ _))

/-- Whether the value of the operands at `pos` is refused as a key, and their end. `n` is
the number of tables that have begun. -/
def leafEnd (ser : EnSer) (n pos : Nat) : Option (Bool × Nat) :=
  match ser with
  | .serNil => some (true, pos)
  | .serBoolFalse | .serBoolTrue => some (false, pos)
  | .serInt8 => (inp.fixedEnd 1 pos).map (false, ·)
  | .serInt16 => (inp.fixedEnd 2 pos).map (false, ·)
  | .serInt32 => (inp.fixedEnd 4 pos).map (false, ·)
  | .serInt64 | .serLightuserData => (inp.fixedEnd 8 pos).map (false, ·)
  | .serDouble =>
      (inp.fixedEnd 8 pos).map (numIsNaN (BitVec.ofNat 64 (leValue (inp.slice pos 8))), ·)
  | .serString8 => (inp.stringEnd 1 pos).map (false, ·)
  | .serString16 => (inp.stringEnd 2 pos).map (false, ·)
  | .serString32 => (inp.stringEnd 4 pos).map (false, ·)
  | .serTableRef =>
      if 1 ≤ int32 (leValue (inp.slice pos 4)) ∧ int32 (leValue (inp.slice pos 4)) ≤ n then
        (inp.fixedEnd 4 pos).map (false, ·)
      else none
  | .serUserData =>
      if pos + 8 ≤ inp.size ∧ UserdataWithin inp metatables inp.mem.length pos then
        some ((metatables.lookup (inp.userdataName pos)).isNone, inp.userdataEnd pos)
      else none
  | .serNone | .serTableBegin | .serTableEnd => none

/-- An item, the rest of a table, or the rest of a message with its values so far. -/
inductive Shape
  | item
  | entries
  | values (count : Nat)

/-- `Span shape n pos bad n' pos'`: from `pos` to `pos'` there is an item or the rest of a
table, and the number of tables that have begun goes from `n` to `n'`. The value of the
item is refused as a key if `bad`. No key in a table is. -/
inductive Span : Shape → Nat → Nat → Bool → Nat → Nat → Prop
  | leaf {n pos pos' : Nat} {bad : Bool} : pos < inp.size →
      leafEnd inp metatables (inp.opcode pos) n (pos + 1) = some (bad, pos') →
      Span .item n pos bad n pos'
  | table {n n' pos pos' : Nat} : pos < inp.size → inp.opcode pos = .serTableBegin →
      Span .entries (n + 1) (pos + 1) false n' pos' → Span .item n pos false n' pos'
  | tableEnd {n pos : Nat} : pos < inp.size → inp.opcode pos = .serTableEnd →
      Span .entries n pos false n (pos + 1)
  | entry {n n₁ n₂ n' pos pos₁ pos₂ pos' : Nat} {bad : Bool} :
      Span .item n pos false n₁ pos₁ → Span .item n₁ pos₁ bad n₂ pos₂ →
      Span .entries n₂ pos₂ false n' pos' → Span .entries n pos false n' pos'

/-- What a decoder comes across: a place where it looks for an item, inside `depth` tables
and above `below` values, or an entry whose key is refused and whose value is complete. -/
inductive Event
  | call (below depth pos : Nat)
  | badKey

/-- An event in a table, seen from outside. -/
def Event.inside : Event → Event
  | .call below depth pos => .call below (depth + 1) pos
  | .badKey => .badKey

/-- An event in the value that comes after `below` others. -/
def Event.above (below : Nat) : Event → Event
  | .call _ depth pos => .call below depth pos
  | .badKey => .badKey

/-- A decoder that starts at `pos` comes across an event. It asks for `resCount` values,
or for all of them. -/
inductive Visits (resCount : Int) : Shape → Nat → Nat → Event → Prop
  | here {n pos : Nat} : Visits resCount .item n pos (.call 0 0 pos)
  | table {n pos : Nat} {e : Event} : pos < inp.size → inp.opcode pos = .serTableBegin →
      Visits resCount .entries (n + 1) (pos + 1) e → Visits resCount .item n pos e.inside
  | key {n pos : Nat} {e : Event} : Visits resCount .item n pos e →
      Visits resCount .entries n pos e
  | value {n n₁ pos pos₁ : Nat} {bad : Bool} {e : Event} :
      Span inp metatables .item n pos bad n₁ pos₁ → Visits resCount .item n₁ pos₁ e →
      Visits resCount .entries n pos e
  | badKey {n n₁ n₂ pos pos₁ pos₂ : Nat} {bad : Bool} :
      Span inp metatables .item n pos true n₁ pos₁ →
      Span inp metatables .item n₁ pos₁ bad n₂ pos₂ → Visits resCount .entries n pos .badKey
  | rest {n n₁ n₂ pos pos₁ pos₂ : Nat} {bad : Bool} {e : Event} :
      Span inp metatables .item n pos false n₁ pos₁ →
      Span inp metatables .item n₁ pos₁ bad n₂ pos₂ →
      Visits resCount .entries n₂ pos₂ e → Visits resCount .entries n pos e
  | first {n pos count : Nat} {e : Event} : pos < inp.size → Visits resCount .item n pos e →
      Visits resCount (.values count) n pos (e.above count)
  | next {n n₁ pos pos₁ count : Nat} {bad : Bool} {e : Event} :
      Span inp metatables .item n pos bad n₁ pos₁ →
      ¬ (0 < resCount ∧ resCount ≤ count + 1) →
      Visits resCount (.values (count + 1)) n₁ pos₁ e → Visits resCount (.values count) n pos e

/-- What decoding a whole input comes across. -/
abbrev Visited (inp : Input) (resCount : Int) (L : LuaState) (e : Event) : Prop :=
  Visits inp L.metatables resCount (.values 0) 0 0 e

/-- Every item that is visited is nested less deep than there is room for. -/
def RoomSuffices (room : Nat → Nat) (inp : Input) (resCount : Int) (L : LuaState) : Prop :=
  ∀ below depth pos, Visited inp resCount L (.call below depth pos) → depth < room below

/-- A userdata record for which a decoder looks behind `limit`. -/
def SticksOut (limit pos : Nat) : Prop :=
  pos + 9 ≤ inp.size ∧ inp.opcode pos = .serUserData ∧
    ¬ UserdataWithin inp metatables limit (pos + 1)

end RandServer
